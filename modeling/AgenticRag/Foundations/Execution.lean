import AgenticRag.Foundations.Program

/-!
# Running alone

Without interference a program has one run, which `Prog.exec` computes. The rules
below say which state changes the run makes (a sequence makes those of its parts) and
where it ends: `Returns` names one end, `Meets` a postcondition of it.
-/

namespace AgenticRag

namespace Prog

variable {Op : Type → Type} {ε α β σ : Type}

/-- Every state change of the run from `s` is in `G`. -/
def Respects (eval : ∀ {β : Type}, Op β → σ → Except ε β × σ) (G : σ → σ → Prop) :
    Prog Op ε α → σ → Prop
  | .ret _, _ => True
  | .call op next, s => G s (eval op s).2 ∧ (next (eval op s).1).Respects eval G (eval op s).2

variable {eval : ∀ {β : Type}, Op β → σ → Except ε β × σ} {G H : σ → σ → Prop}

theorem respects_bind {p : Prog Op ε α} {f : α → Prog Op ε β} {s : σ} :
    (p.bind f).Respects eval G s ↔ p.Respects eval G s ∧
      (f (p.exec eval s).1).Respects eval G (p.exec eval s).2 := by
  induction p generalizing s with
  | ret a => simp [bind, Respects, exec]
  | call op next ih =>
    have hnext := ih (eval op s).1 (s := (eval op s).2)
    simp only [bind, Respects, exec, hnext, and_assoc]

theorem Respects.mono (h : ∀ s s', G s s' → H s s') {p : Prog Op ε α} {s : σ}
    (hp : p.Respects eval G s) : p.Respects eval H s := by
  induction p generalizing s with
  | ret a => trivial
  | call op next ih => exact ⟨h _ _ hp.1, ih _ hp.2⟩

/-- A reflexive and transitive relation relates the two ends of the run. -/
theorem Respects.ends (hrefl : ∀ s, G s s) (htrans : ∀ s t u, G s t → G t u → G s u)
    {p : Prog Op ε α} {s : σ} (hp : p.Respects eval G s) : G s (p.exec eval s).2 := by
  induction p generalizing s with
  | ret a => exact hrefl s
  | call op next ih => exact htrans _ _ _ hp.1 (ih _ hp.2)

/-- Operations that all stay within a reflexive and transitive relation. -/
theorem Uses.ends {P : ∀ {β : Type}, Op β → Prop} (hrefl : ∀ s, G s s)
    (htrans : ∀ s t u, G s t → G t u → G s u)
    (hP : ∀ {β : Type} (op : Op β) (s : σ), P op → G s (eval op s).2) {p : Prog Op ε α}
    (hp : p.Uses P) (s : σ) : G s (p.exec eval s).2 := by
  induction p generalizing s with
  | ret a => exact hrefl s
  | call op next ih => exact htrans _ _ _ (hP op s hp.1) (ih _ (hp.2 _) _)

/-- Whatever its operations give, the program returns a value in `Q`. -/
def Yields (Q : α → Prop) : Prog Op ε α → Prop
  | .ret a => Q a
  | .call _ next => ∀ r, (next r).Yields Q

theorem Yields.bind {Q : β → Prop} {p : Prog Op ε α} {f : α → Prog Op ε β} (hf : ∀ a, (f a).Yields Q) :
    (p.bind f).Yields Q := by
  induction p with
  | ret a => exact hf a
  | call op next ih => exact ih

theorem Yields.exec {Q : α → Prop} {p : Prog Op ε α} (hp : p.Yields Q) (s : σ) :
    Q (p.exec eval s).1 := by
  induction p generalizing s with
  | ret a => exact hp
  | call op next ih => exact ih _ (hp _) _

end Prog

/-- Whatever the computation raises satisfies `P`. -/
def RaisesOnly (P : ε → Prop) (r : Except ε α) : Prop := ∀ e, r = .error e → P e

namespace RaisesOnly

variable {ε α β : Type} {P : ε → Prop}

theorem ok (a : α) : RaisesOnly P (.ok a) := fun _ h => nomatch h

theorem pure (a : α) : RaisesOnly P (pure a : Except ε α) := ok a

theorem error {e : ε} (h : P e) : RaisesOnly P (.error e : Except ε α) := by
  intro e' he'
  obtain rfl := Except.error.inj he'
  exact h

theorem throw {e : ε} (h : P e) : RaisesOnly P (throw e : Except ε α) := error h

theorem bind {r : Except ε α} {f : α → Except ε β} (hr : RaisesOnly P r) (hf : ∀ a, RaisesOnly P (f a)) :
    RaisesOnly P (r >>= f) := by
  cases r with
  | ok a => exact hf a
  | error e => exact error (hr e rfl)

theorem map {r : Except ε α} (f : α → β) (hr : RaisesOnly P r) : RaisesOnly P (r.map f) := by
  cases r with
  | ok a => exact ok (f a)
  | error e => exact error (hr e rfl)

theorem ite {c : Prop} [Decidable c] {r r' : Except ε α} (hr : RaisesOnly P r) (hr' : RaisesOnly P r') :
    RaisesOnly P (if c then r else r') := by
  split
  · exact hr
  · exact hr'

theorem mono {Q : ε → Prop} {r : Except ε α} (h : RaisesOnly P r) (hPQ : ∀ e, P e → Q e) : RaisesOnly Q r :=
  fun e he => hPQ e (h e he)

end RaisesOnly

namespace Method

variable {Op : Type → Type} {ε τ α β σ : Type}

/-- `for x in xs: found += body(x)`. -/
def collect : List α → (α → Method Op ε τ (List β)) → Method Op ε τ (List β)
  | [], _ => pure []
  | x :: xs, body => do
    let here ← body x
    let rest ← collect xs body
    pure (here ++ rest)

theorem Uses.collect {P : ∀ {β : Type}, Op β → Prop} {body : α → Method Op ε τ (List β)}
    (h : ∀ x, Uses P (body x)) (xs : List α) : Uses P (collect xs body) := by
  induction xs with
  | nil => exact Uses.pure []
  | cons x xs ih => exact Uses.bind (h x) fun _ => Uses.bind ih fun _ => Uses.pure _

/-- A computation that returns or raises. -/
def ofExcept (r : Except ε α) : Method Op ε τ α := fun t => .ret (r, t)

section Yields

variable {Q : α → Prop}

/-- Whatever its operations give, the method returns a value in `Q` or raises. -/
def Yields (Q : α → Prop) (m : Method Op ε τ α) : Prop :=
  ∀ t, (m t).Yields fun result => ∀ a, result.1 = .ok a → Q a

theorem Yields.pure {a : α} (h : Q a) : Yields Q (pure a : Method Op ε τ α) := by
  rintro t a' ha
  obtain rfl := Except.ok.inj ha
  exact h

theorem Yields.bind {Q : β → Prop} {m : Method Op ε τ α} {f : α → Method Op ε τ β}
    (hf : ∀ a, Yields Q (f a)) : Yields Q (m >>= f) := by
  intro t
  apply Prog.Yields.bind
  rintro ⟨outcome, t'⟩
  cases outcome with
  | ok a => exact hf a t'
  | error e => exact fun b hb => nomatch hb

theorem Yields.ite {c : Prop} [Decidable c] {m n : Method Op ε τ α} (hm : Yields Q m) (hn : Yields Q n) :
    Yields Q (if c then m else n) := by
  split
  · exact hm
  · exact hn

end Yields

variable (eval : ∀ {β : Type}, Op β → σ → Except ε β × σ)

/-- The call returns `a`, with attributes `t'` in state `s'`. -/
def Returns (m : Method Op ε τ α) (t : τ) (s : σ) (a : α) (t' : τ) (s' : σ) : Prop :=
  (m t).exec eval s = ((.ok a, t'), s')

/-- Every state change of the call is in `G`. -/
def Respects (G : σ → σ → Prop) (m : Method Op ε τ α) (t : τ) (s : σ) : Prop :=
  (m t).Respects eval G s

/-- The state after the call. -/
def after (m : Method Op ε τ α) (t : τ) (s : σ) : σ := ((m t).exec eval s).2

variable {eval} {G : σ → σ → Prop} {t t' t'' : τ} {s s' s'' : σ} {a : α} {b : β}

theorem Returns.after {m : Method Op ε τ α} (h : Returns eval m t s a t' s') :
    m.after eval t s = s' := congrArg Prod.snd h

theorem returns_pure : Returns eval (pure a : Method Op ε τ α) t s a t s := rfl

theorem returns_self : Returns eval (self : Method Op ε τ τ) t s t t s := rfl

theorem returns_assign {f : τ → τ} : Returns eval (assign f : Method Op ε τ Unit) t s () (f t) s := rfl

theorem returns_perform {op : Op α} (h : eval op s = (.ok a, s')) :
    Returns eval (perform op : Method Op ε τ α) t s a t s' := by
  simp only [Returns, perform, Prog.exec, h]

theorem respects_perform {op : Op α} :
    Respects eval G (perform op : Method Op ε τ α) t s ↔ G s (eval op s).2 := by
  simp only [Respects, perform, Prog.Respects, and_true]

theorem exec_bind {m : Method Op ε τ α} {f : α → Method Op ε τ β} :
    ((m >>= f) t).exec eval s = (match (m t).exec eval s with
      | ((.ok a, t'), s') => (f a t').exec eval s'
      | ((.error e, t'), s') => ((.error e, t'), s')) := by
  have hbind : ((m >>= f) t).exec eval s = _ := Prog.exec_bind eval (m t) _ s
  rw [hbind]
  obtain ⟨⟨r, t'⟩, s'⟩ := (m t).exec eval s
  cases r <;> rfl

theorem Returns.bind {m : Method Op ε τ α} {f : α → Method Op ε τ β}
    (hm : Returns eval m t s a t' s') (hf : Returns eval (f a) t' s' b t'' s'') :
    Returns eval (m >>= f) t s b t'' s'' := by
  unfold Returns at hm hf ⊢
  rw [exec_bind, hm]
  exact hf

theorem Returns.after_bind {m : Method Op ε τ α} {f : α → Method Op ε τ β}
    (hm : Returns eval m t s a t' s') : (m >>= f).after eval t s = (f a).after eval t' s' := by
  unfold Returns at hm
  unfold Method.after
  rw [exec_bind, hm]

/-- A sequence whose first part returns is the second part. -/
theorem Returns.exec_bind {m : Method Op ε τ α} {f : α → Method Op ε τ β}
    (hm : Returns eval m t s a t' s') : ((m >>= f) t).exec eval s = (f a t').exec eval s' := by
  unfold Returns at hm
  rw [Method.exec_bind, hm]

/-- A sequence whose first part raises is that exception. -/
theorem exec_bind_error {m : Method Op ε τ α} {f : α → Method Op ε τ β} {e : ε}
    (hm : (m t).exec eval s = ((.error e, t'), s')) :
    ((m >>= f) t).exec eval s = ((.error e, t'), s') := by
  rw [Method.exec_bind, hm]

/-- A loop each of whose iterations returns and keeps the invariant. -/
theorem returns_forEach {J : σ → Prop} {f : σ → α → σ} {body : α → Method Op ε τ Unit} {xs : List α}
    (hbody : ∀ x ∈ xs, ∀ s, J s → Returns eval (body x) t s () t (f s x) ∧ J (f s x)) (hs : J s) :
    Returns eval (forEach xs body) t s () t (xs.foldl f s) ∧ J (xs.foldl f s) := by
  induction xs generalizing s with
  | nil => exact ⟨returns_pure, hs⟩
  | cons x xs ih =>
    obtain ⟨hfirst, hnext⟩ := hbody x (List.mem_cons_self ..) s hs
    obtain ⟨hrest, hlast⟩ := ih (fun y hy => hbody y (List.mem_cons_of_mem _ hy)) hnext
    exact ⟨hfirst.bind hrest, hlast⟩

theorem Returns.tryCatch {body : Method Op ε τ α} (h : Returns eval body t s a t' s')
    (handler : ε → Method Op ε τ α) : Returns eval (Method.tryCatch body handler) t s a t' s' := by
  unfold Returns at h ⊢
  have hbind : (Method.tryCatch body handler t).exec eval s = _ := Prog.exec_bind eval (body t) _ s
  rw [hbind, h]
  rfl

section Inversion

theorem returns_pure_iff {a' : α} :
    Returns eval (pure a : Method Op ε τ α) t s a' t' s' ↔ a = a' ∧ t = t' ∧ s = s' := by
  simp [Returns, pure, Prog.exec, and_assoc]

/-- A method has at most one end. -/
theorem Returns.unique {m : Method Op ε τ α} {a' : α} (h : Returns eval m t s a t' s')
    (h' : Returns eval m t s a' t'' s'') : a = a' ∧ t' = t'' ∧ s' = s'' := by
  unfold Returns at h h'
  rw [h] at h'
  simpa [and_assoc] using h'

end Inversion

section Meets

/-- Where the call ends, `post` holds of its outcome, of the attributes and of the state. -/
def Meets (eval : ∀ {β : Type}, Op β → σ → Except ε β × σ) (m : Method Op ε τ α)
    (post : Except ε α → τ → σ → Prop) (t : τ) (s : σ) : Prop :=
  post ((m t).exec eval s).1.1 ((m t).exec eval s).1.2 ((m t).exec eval s).2

variable {post post' : Except ε α → τ → σ → Prop}

theorem Meets.mono {m : Method Op ε τ α} (h : Meets eval m post t s)
    (hpost : ∀ r t s, post r t s → post' r t s) : Meets eval m post' t s :=
  hpost _ _ _ h

theorem meets_pure : Meets eval (pure a : Method Op ε τ α) post t s ↔ post (.ok a) t s := Iff.rfl

theorem meets_ofExcept {r : Except ε α} :
    Meets eval (ofExcept r : Method Op ε τ α) post t s ↔ post r t s := Iff.rfl

theorem meets_perform {op : Op α} :
    Meets eval (perform op : Method Op ε τ α) post t s ↔ post (eval op s).1 t (eval op s).2 := Iff.rfl

/-- After the first part the second one meets the postcondition, or its exception does. -/
theorem meets_bind {m : Method Op ε τ α} {f : α → Method Op ε τ β} {post : Except ε β → τ → σ → Prop} :
    Meets eval (m >>= f) post t s ↔ Meets eval m (fun r t s => match r with
      | .ok a => Meets eval (f a) post t s
      | .error e => post (.error e) t s) t s := by
  unfold Meets
  rw [exec_bind]
  rcases (m t).exec eval s with ⟨⟨r, t'⟩, s'⟩
  cases r with
  | ok a => rfl
  | error e => rfl

theorem meets_self_bind {f : τ → Method Op ε τ α} :
    Meets eval (self >>= f) post t s ↔ Meets eval (f t) post t s := meets_bind

theorem meets_assign_bind {g : τ → τ} {f : Unit → Method Op ε τ α} :
    Meets eval (assign g >>= f) post t s ↔ Meets eval (f ()) post (g t) s := meets_bind

theorem meets_tryCatch {body : Method Op ε τ α} {handler : ε → Method Op ε τ α} :
    Meets eval (tryCatch body handler) post t s ↔ Meets eval body (fun r t s => match r with
      | .ok a => post (.ok a) t s
      | .error e => Meets eval (handler e) post t s) t s := by
  unfold Meets
  have hbind : (tryCatch body handler t).exec eval s = _ := Prog.exec_bind eval (body t) _ s
  rw [hbind]
  rcases (body t).exec eval s with ⟨⟨r, t'⟩, s'⟩
  cases r with
  | ok a => rfl
  | error e => rfl

theorem meets_ite {c : Prop} [Decidable c] {m n : Method Op ε τ α} :
    Meets eval (if c then m else n) post t s ↔
      (c → Meets eval m post t s) ∧ (¬c → Meets eval n post t s) := by
  split
  · rename_i hc
    simp [hc]
  · rename_i hc
    simp [hc]

/-- A sequence whose first part returns meets what the second part does. -/
theorem Returns.meets_bind {m : Method Op ε τ α} {f : α → Method Op ε τ β}
    {post : Except ε β → τ → σ → Prop} (hm : Returns eval m t s a t' s') :
    Meets eval (m >>= f) post t s ↔ Meets eval (f a) post t' s' := by
  unfold Meets
  rw [hm.exec_bind]

end Meets

/-- A sequence makes the state changes of its parts. -/
theorem Returns.respects_bind {m : Method Op ε τ α} {f : α → Method Op ε τ β}
    (hm : Returns eval m t s a t' s') :
    Respects eval G (m >>= f) t s ↔ Respects eval G m t s ∧ Respects eval G (f a) t' s' := by
  unfold Returns at hm
  have hbind : ((m >>= f) t).Respects eval G s ↔ _ := Prog.respects_bind
  rw [hm] at hbind
  exact hbind

end Method

end AgenticRag
