import AgenticRag.Foundations.Execution

/-!
# Two runs side by side

Two methods are alike for surroundings related by `R` if they end in agreement, both with
related results or both with the same exception, and leave related surroundings behind. What
`R` leaves open does then not show in the results.
-/

namespace AgenticRag

namespace Method

variable {Op : Type → Type} {ε τ α β γ δ σ : Type} {eval : ∀ {β : Type}, Op β → σ → Except ε β × σ}
  {R : σ → σ → Prop}

/-- The same exception, or results and attributes related by `Q`. -/
def Agree (Q : α → τ → γ → τ → Prop) (x : Except ε α × τ) (y : Except ε γ × τ) : Prop :=
  match x.1, y.1 with
  | .ok a, .ok c => Q a x.2 c y.2
  | .error e, .error e' => e = e'
  | _, _ => False

/-- Equal results and equal attributes. -/
def Same (a : α) (t : τ) (c : α) (t' : τ) : Prop := a = c ∧ t = t'

theorem Agree.refl_same (x : Except ε α × τ) : Agree Same x x := by
  obtain ⟨r, t⟩ := x
  cases r with
  | ok a => exact ⟨rfl, rfl⟩
  | error e => rfl

theorem Agree.refl_result (r : Except ε α) (t t' : τ) :
    Agree (fun (a : α) (_ : τ) c (_ : τ) => a = c) (r, t) (r, t') := by
  cases r with
  | ok a => rfl
  | error e => rfl

/-- Agreement on results that are equal. -/
theorem Agree.result_eq {Q : α → τ → α → τ → Prop} {x y : Except ε α × τ} (h : Agree Q x y)
    (hQ : ∀ a t c t', Q a t c t' → a = c) : x.1 = y.1 := by
  obtain ⟨r, t⟩ := x
  obtain ⟨r', t'⟩ := y
  cases r with
  | ok a =>
    cases r' with
    | ok c => exact congrArg Except.ok (hQ a t c t' h)
    | error e => exact h.elim
  | error e =>
    cases r' with
    | ok c => exact h.elim
    | error e' => exact congrArg Except.error h

theorem Agree.same_result {x y : Except ε α × τ} (h : Agree Same x y) : x.1 = y.1 :=
  h.result_eq fun _ _ _ _ hsame => hsame.1

/-- From attributes related by `P` both calls end in agreement. -/
def Alike (eval : ∀ {β : Type}, Op β → σ → Except ε β × σ) (R : σ → σ → Prop) (P : τ → τ → Prop)
    (Q : α → τ → γ → τ → Prop) (m : Method Op ε τ α) (n : Method Op ε τ γ) : Prop :=
  ∀ t t' s s', P t t' → R s s' →
    Agree Q ((m t).exec eval s).1 ((n t').exec eval s').1 ∧ R ((m t).exec eval s).2 ((n t').exec eval s').2

variable {P : τ → τ → Prop} {Q : α → τ → γ → τ → Prop} {Q' : β → τ → δ → τ → Prop}
  {m : Method Op ε τ α} {n : Method Op ε τ γ}

theorem Alike.pure {a : α} {c : γ} (h : ∀ t t', P t t' → Q a t c t') :
    Alike eval R P Q (pure a : Method Op ε τ α) (pure c) :=
  fun t t' _ _ hP hR => ⟨h t t' hP, hR⟩

theorem Alike.assign {Q : Unit → τ → Unit → τ → Prop} {f g : τ → τ}
    (h : ∀ t t', P t t' → Q () (f t) () (g t')) :
    Alike eval R P Q (assign f : Method Op ε τ Unit) (assign g) :=
  fun t t' _ _ hP hR => ⟨h t t' hP, hR⟩

theorem Alike.reraise (e : ε) : Alike eval R P Q (reraise e : Method Op ε τ α) (reraise e) :=
  fun _ _ _ _ _ hR => ⟨rfl, hR⟩

/-- Operations that related surroundings answer with the same. -/
theorem Alike.perform_same {op op' : Op α}
    (hop : ∀ s s', R s s' → (eval op s).1 = (eval op' s').1 ∧ R (eval op s).2 (eval op' s').2) :
    Alike eval R Eq Same (perform op : Method Op ε τ α) (perform op') := by
  rintro t t' s s' rfl hR
  obtain ⟨hanswer, hnext⟩ := hop s s' hR
  refine ⟨?_, hnext⟩
  change Agree Same ((eval op s).1, t) ((eval op' s').1, t)
  rw [hanswer]
  exact .refl_same _

/-- First parts with one end are followed by the same. -/
theorem exec_bind_congr {m n : Method Op ε τ α} {f : α → Method Op ε τ β} {t t' : τ} {s s' : σ}
    (h : (m t).exec eval s = (n t').exec eval s') :
    ((m >>= f) t).exec eval s = ((n >>= f) t').exec eval s' := by
  rw [Method.exec_bind, Method.exec_bind, h]

/-- After first parts that have ended in agreement the second ones do. -/
theorem bind_agree {f : α → Method Op ε τ β} {g : γ → Method Op ε τ δ} {t t' : τ} {s s' : σ}
    (h : Agree Q ((m t).exec eval s).1 ((n t').exec eval s').1 ∧ R ((m t).exec eval s).2 ((n t').exec eval s').2)
    (hf : ∀ a c, Alike eval R (fun t t' => Q a t c t') Q' (f a) (g c)) :
    Agree Q' (((m >>= f) t).exec eval s).1 (((n >>= g) t').exec eval s').1 ∧
      R (((m >>= f) t).exec eval s).2 (((n >>= g) t').exec eval s').2 := by
  rw [Method.exec_bind, Method.exec_bind]
  revert h
  rcases (m t).exec eval s with ⟨⟨r, u⟩, v⟩
  rcases (n t').exec eval s' with ⟨⟨r', u'⟩, v'⟩
  rintro ⟨hagree, hnext⟩
  cases r with
  | ok a =>
    cases r' with
    | ok c => exact hf a c u u' v v' hagree hnext
    | error e => exact hagree.elim
  | error e =>
    cases r' with
    | ok c => exact hagree.elim
    | error e' => exact ⟨hagree, hnext⟩

theorem Alike.bind {f : α → Method Op ε τ β} {g : γ → Method Op ε τ δ} (h : Alike eval R P Q m n)
    (hf : ∀ a c, Alike eval R (fun t t' => Q a t c t') Q' (f a) (g c)) :
    Alike eval R P Q' (m >>= f) (n >>= g) :=
  fun t t' s s' hP hR => bind_agree (h t t' s s' hP hR) hf

/-- What follows a look at the attributes may use how they are related. -/
theorem Alike.self_bind {f : τ → Method Op ε τ β} {g : τ → Method Op ε τ δ}
    (h : ∀ t t', P t t' → Alike eval R P Q' (f t) (g t')) :
    Alike eval R P Q' (self >>= f) (self >>= g) := by
  intro t t' s s' hP hR
  rw [Method.exec_bind, Method.exec_bind]
  exact h t t' hP t t' s s' hP hR

/-- A part with equal results passes one result on. -/
theorem Alike.bind_result {P' : τ → τ → Prop} {n : Method Op ε τ α} {f : α → Method Op ε τ β}
    {g : α → Method Op ε τ δ} (h : Alike eval R P (fun a t c t' => a = c ∧ P' t t') m n)
    (hf : ∀ a, Alike eval R P' Q' (f a) (g a)) : Alike eval R P Q' (m >>= f) (n >>= g) := by
  refine h.bind ?_
  rintro a c t t' s s' ⟨rfl, hP'⟩ hR
  exact hf a t t' s s' hP' hR

theorem Alike.bind_same {n : Method Op ε τ α} {f : α → Method Op ε τ β} {g : α → Method Op ε τ δ}
    (h : Alike eval R P Same m n) (hf : ∀ a, Alike eval R Eq Q' (f a) (g a)) :
    Alike eval R P Q' (m >>= f) (n >>= g) :=
  Alike.bind_result h hf

/-- A method of operations that related surroundings answer with the same. -/
theorem Alike.of_uses {C : ∀ {β : Type}, Op β → Prop}
    (hC : ∀ {β : Type} (op : Op β), C op → ∀ s s', R s s' →
      (eval op s).1 = (eval op s').1 ∧ R (eval op s).2 (eval op s').2) (hm : Uses C m) :
    Alike eval R Eq Same m m := by
  rintro t t' s s' rfl hR
  have hrun : ∀ (p : Prog Op ε (Except ε α × τ)) s s', p.Uses C → R s s' →
      (p.exec eval s).1 = (p.exec eval s').1 ∧ R (p.exec eval s).2 (p.exec eval s').2 := by
    intro p
    induction p with
    | ret x => exact fun s s' _ hR => ⟨rfl, hR⟩
    | call op next ih =>
      intro s s' hp hR
      obtain ⟨hanswer, hnext⟩ := hC op hp.1 s s' hR
      simp only [Prog.exec]
      rw [← hanswer]
      exact ih _ _ _ (hp.2 _) hnext
  obtain ⟨hsame, hends⟩ := hrun (m t) s s' (hm t) hR
  refine ⟨?_, hends⟩
  rw [hsame]
  exact .refl_same _

/-- The method neither reads nor writes attributes. -/
def Aside (eval : ∀ {β : Type}, Op β → σ → Except ε β × σ) (m : Method Op ε τ α) : Prop :=
  ∃ f : σ → Except ε α × σ, ∀ t s, (m t).exec eval s = (((f s).1, t), (f s).2)

section Aside

theorem Aside.pure (a : α) : Aside eval (pure a : Method Op ε τ α) := ⟨fun s => (.ok a, s), fun _ _ => rfl⟩

theorem Aside.perform (op : Op α) : Aside eval (perform op : Method Op ε τ α) := ⟨eval op, fun _ _ => rfl⟩

theorem Aside.reraise (e : ε) : Aside eval (reraise e : Method Op ε τ α) :=
  ⟨fun s => (.error e, s), fun _ _ => rfl⟩

theorem Aside.ofExcept (r : Except ε α) : Aside eval (ofExcept r : Method Op ε τ α) :=
  ⟨fun s => (r, s), fun _ _ => rfl⟩

theorem Aside.bind {f : α → Method Op ε τ β} (hm : Aside eval m) (hf : ∀ a, Aside eval (f a)) :
    Aside eval (m >>= f) := by
  obtain ⟨first, hfirst⟩ := hm
  choose second hsecond using hf
  refine ⟨fun s => match first s with
    | (.ok a, s') => second a s'
    | (.error e, s') => (.error e, s'), fun t s => ?_⟩
  rw [Method.exec_bind, hfirst]
  dsimp only
  rcases first s with ⟨r, s'⟩
  cases r with
  | ok a => exact hsecond a t s'
  | error e => rfl

theorem Aside.tryCatch {handler : ε → Method Op ε τ α} (hm : Aside eval m)
    (hhandler : ∀ e, Aside eval (handler e)) : Aside eval (Method.tryCatch m handler) := by
  obtain ⟨body, hbody⟩ := hm
  choose caught hcaught using hhandler
  refine ⟨fun s => match body s with
    | (.ok a, s') => (.ok a, s')
    | (.error e, s') => caught e s', fun t s => ?_⟩
  have hexec : (Method.tryCatch m handler t).exec eval s = _ := Prog.exec_bind eval (m t) _ s
  rw [hexec, hbody]
  dsimp only
  rcases body s with ⟨r, s'⟩
  cases r with
  | ok a => rfl
  | error e => exact hcaught e t s'

theorem Aside.ite {c : Prop} [Decidable c] {n : Method Op ε τ α} (hm : Aside eval m) (hn : Aside eval n) :
    Aside eval (if c then m else n) := by
  split
  · exact hm
  · exact hn

/-- Such a method keeps any relation between the attributes. -/
theorem Alike.aside (hm : Aside eval m) (h : Alike eval R Eq Same m m) :
    Alike eval R P (fun a t c t' => a = c ∧ P t t') m m := by
  intro t t' s s' hP hR
  obtain ⟨f, hf⟩ := hm
  obtain ⟨hagree, hnext⟩ := h t t s s' rfl hR
  rw [hf, hf] at hagree hnext ⊢
  refine ⟨?_, hnext⟩
  have hresult := hagree.same_result
  dsimp only at hresult
  rw [hresult]
  cases (f s').1 with
  | ok a => exact ⟨rfl, hP⟩
  | error e => rfl

end Aside

end Method

end AgenticRag
