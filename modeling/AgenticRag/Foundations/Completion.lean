import AgenticRag.Foundations.Pool

/-!
# Runs without interference

The runs of a program whose operations have the outcomes of a relation, for instance
an effect or a fault. `Ends` is a whole run of a method, which returns or raises.
`Completes` is one that returns: every operation in it returned, so a sequence
completes exactly if its parts do, and symbolic execution is rewriting.
-/

namespace AgenticRag

namespace Prog

variable {Op : Type → Type} {ε α β σ : Type}

/-- A run from `s` that returns `a` in state `s'`. -/
def Runs (out : ∀ {β : Type}, Op β → σ → Except ε β → σ → Prop) :
    Prog Op ε α → σ → α → σ → Prop
  | .ret a, s, b, s' => b = a ∧ s' = s
  | .call op next, s, b, s' => ∃ r s₁, out op s r s₁ ∧ (next r).Runs out s₁ b s'

variable {out : ∀ {β : Type}, Op β → σ → Except ε β → σ → Prop}

theorem runs_bind {p : Prog Op ε α} {f : α → Prog Op ε β} {s s'' : σ} {b : β} :
    (p.bind f).Runs out s b s'' ↔ ∃ a s', p.Runs out s a s' ∧ (f a).Runs out s' b s'' := by
  induction p generalizing s with
  | ret a =>
    constructor
    · intro h
      exact ⟨a, s, ⟨rfl, rfl⟩, h⟩
    · rintro ⟨a', s', ⟨rfl, rfl⟩, h⟩
      exact h
  | call op next ih =>
    constructor
    · rintro ⟨r, s₁, hout, h⟩
      obtain ⟨a, s', hrun, hf⟩ := (ih r).mp h
      exact ⟨a, s', ⟨r, s₁, hout, hrun⟩, hf⟩
    · rintro ⟨a, s', ⟨r, s₁, hout, hrun⟩, hf⟩
      exact ⟨r, s₁, hout, (ih r).mpr ⟨a, s', hrun, hf⟩⟩

/-- What every run of a program satisfies holds of a run without interference. -/
theorem Runs.of_wp {R : Regime σ Op ε} {post : α → σ → Prop} {p : Prog Op ε α} {s s' : σ} {a : α}
    (hrun : p.Runs out s a s')
    (hout : ∀ {β : Type} (op : Op β) s r s', out op s r s' → R.out op s r s')
    (h : p.wp R post s) : post a s' := by
  induction p generalizing s with
  | ret b =>
    obtain ⟨rfl, rfl⟩ := hrun
    exact h s' (R.rely_refl s')
  | call op next ih =>
    obtain ⟨r, s₁, hstep, hrest⟩ := hrun
    exact ih r hrest (h s (R.rely_refl s) r s₁ (hout op s r s₁ hstep)).2

/-- The run that a deterministic answer to every operation computes. -/
theorem runs_exec {eval : ∀ {β : Type}, Op β → σ → Except ε β × σ}
    (hout : ∀ {β : Type} (op : Op β) (s : σ), out op s (eval op s).1 (eval op s).2)
    (p : Prog Op ε α) (s : σ) : p.Runs out s (p.exec eval s).1 (p.exec eval s).2 := by
  induction p generalizing s with
  | ret a => exact ⟨rfl, rfl⟩
  | call op next ih => exact ⟨(eval op s).1, (eval op s).2, hout op s, ih _ _⟩

/-- A run from `s` that may break off before any of its operations. -/
def Leads (out : ∀ {β : Type}, Op β → σ → Except ε β → σ → Prop) : Prog Op ε α → σ → σ → Prop
  | .ret _, s, s' => s' = s
  | .call op next, s, s' => s' = s ∨ ∃ r s₁, out op s r s₁ ∧ (next r).Leads out s₁ s'

theorem Runs.leads {p : Prog Op ε α} {s s' : σ} {a : α} (h : p.Runs out s a s') :
    p.Leads out s s' := by
  induction p generalizing s with
  | ret b => exact h.2
  | call op next ih =>
    obtain ⟨r, s₁, hstep, hrest⟩ := h
    exact Or.inr ⟨r, s₁, hstep, ih r hrest⟩

/-- Wherever a run breaks off, its operations have respected the guarantee. -/
theorem Leads.of_wp {R : Regime σ Op ε} {post : α → σ → Prop} {p : Prog Op ε α} {s s' : σ}
    (hrun : p.Leads out s s')
    (hout : ∀ {β : Type} (op : Op β) s r s', out op s r s' → R.out op s r s')
    (h : p.wp R post s) : Relation.ReflTransGen R.guar s s' := by
  induction p generalizing s with
  | ret b => exact hrun ▸ Relation.ReflTransGen.refl
  | call op next ih =>
    rcases hrun with rfl | ⟨r, s₁, hstep, hrest⟩
    · exact Relation.ReflTransGen.refl
    · obtain ⟨hguar, hnext⟩ := h s (R.rely_refl s) r s₁ (hout op s r s₁ hstep)
      exact Relation.ReflTransGen.head hguar (ih r hrest hnext)

/-- What every operation keeps holds wherever a run breaks off. -/
theorem Leads.keeps {Inv : σ → Prop} {p : Prog Op ε α} {s s' : σ} (hrun : p.Leads out s s')
    (hout : ∀ {β : Type} (op : Op β) s r s', out op s r s' → Inv s → Inv s') (h : Inv s) : Inv s' := by
  induction p generalizing s with
  | ret b => exact hrun ▸ h
  | call op next ih =>
    rcases hrun with rfl | ⟨r, s₁, hstep, hrest⟩
    · exact h
    · exact ih r hrest (hout op s r s₁ hstep h)

end Prog

namespace Method

variable {Op : Type → Type} {ε τ α β σ : Type}

/-- A run of the method that ends with `r`. -/
def Ends (out : ∀ {β : Type}, Op β → σ → Except ε β → σ → Prop) (m : Method Op ε τ α)
    (t : τ) (s : σ) (r : Except ε α) (t' : τ) (s' : σ) : Prop :=
  (m t).Runs out s (r, t') s'

/-- A run of the method that returns `a`. -/
def Completes (out : ∀ {β : Type}, Op β → σ → Except ε β → σ → Prop) (m : Method Op ε τ α)
    (t : τ) (s : σ) (a : α) (t' : τ) (s' : σ) : Prop :=
  m.Ends out t s (.ok a) t' s'

variable {out : ∀ {β : Type}, Op β → σ → Except ε β → σ → Prop} {t t' : τ} {s s' : σ}

@[simp] theorem completes_pure {a b : α} :
    (pure a : Method Op ε τ α).Completes out t s b t' s' ↔ b = a ∧ t' = t ∧ s' = s := by
  constructor
  · rintro ⟨hresult, rfl⟩
    obtain ⟨hb, rfl⟩ := Prod.mk.inj hresult
    exact ⟨Except.ok.inj hb, rfl, rfl⟩
  · rintro ⟨rfl, rfl, rfl⟩
    exact ⟨rfl, rfl⟩

@[simp] theorem completes_self {me : τ} :
    (self : Method Op ε τ τ).Completes out t s me t' s' ↔ me = t ∧ t' = t ∧ s' = s := by
  constructor
  · rintro ⟨hresult, rfl⟩
    obtain ⟨hme, rfl⟩ := Prod.mk.inj hresult
    exact ⟨Except.ok.inj hme, rfl, rfl⟩
  · rintro ⟨rfl, rfl, rfl⟩
    exact ⟨rfl, rfl⟩

@[simp] theorem completes_assign {f : τ → τ} {u : Unit} :
    (assign f : Method Op ε τ Unit).Completes out t s u t' s' ↔ t' = f t ∧ s' = s := by
  constructor
  · rintro ⟨hresult, rfl⟩
    exact ⟨(Prod.mk.inj hresult).2, rfl⟩
  · rintro ⟨rfl, rfl⟩
    exact ⟨rfl, rfl⟩

@[simp] theorem completes_reraise {e : ε} {a : α} :
    (reraise e : Method Op ε τ α).Completes out t s a t' s' ↔ False := by
  constructor
  · rintro ⟨hresult, -⟩
    simp at hresult
  · exact False.elim

theorem completes_perform {op : Op α} {a : α} :
    (perform op : Method Op ε τ α).Completes out t s a t' s' ↔ t' = t ∧ out op s (.ok a) s' := by
  constructor
  · rintro ⟨r, s₁, hout, hresult, rfl⟩
    obtain ⟨rfl, rfl⟩ := Prod.mk.inj hresult
    exact ⟨rfl, hout⟩
  · rintro ⟨rfl, hout⟩
    exact ⟨.ok a, s', hout, rfl, rfl⟩

theorem ends_bind {m : Method Op ε τ α} {f : α → Method Op ε τ β} {r : Except ε β} :
    (m >>= f).Ends out t s r t' s' ↔
      (∃ a t₁ s₁, m.Completes out t s a t₁ s₁ ∧ (f a).Ends out t₁ s₁ r t' s') ∨
        ∃ e, r = .error e ∧ m.Ends out t s (.error e) t' s' := by
  constructor
  · intro h
    obtain ⟨⟨outcome, t₁⟩, s₁, hm, hf⟩ := Prog.runs_bind.mp h
    cases outcome with
    | ok a => exact Or.inl ⟨a, t₁, s₁, hm, hf⟩
    | error e =>
      obtain ⟨hresult, rfl⟩ := hf
      obtain ⟨rfl, rfl⟩ := Prod.mk.inj hresult
      exact Or.inr ⟨e, rfl, hm⟩
  · rintro (⟨a, t₁, s₁, hm, hf⟩ | ⟨e, rfl, hm⟩)
    · exact Prog.runs_bind.mpr ⟨(.ok a, t₁), s₁, hm, hf⟩
    · exact Prog.runs_bind.mpr ⟨(.error e, t'), s', hm, rfl, rfl⟩

theorem completes_bind {m : Method Op ε τ α} {f : α → Method Op ε τ β} {b : β} :
    (m >>= f).Completes out t s b t' s' ↔
      ∃ a t₁ s₁, m.Completes out t s a t₁ s₁ ∧ (f a).Completes out t₁ s₁ b t' s' := by
  refine ends_bind.trans (or_iff_left ?_)
  rintro ⟨e, he, -⟩
  simp at he

theorem completes_ite {c : Prop} [Decidable c] {m n : Method Op ε τ α} {a : α} :
    (if c then m else n).Completes out t s a t' s' ↔
      (c ∧ m.Completes out t s a t' s') ∨ (¬c ∧ n.Completes out t s a t' s') := by
  by_cases hc : c
  · simp [hc]
  · simp [hc]

/-- The body returns, or it raises and the handler returns. -/
theorem completes_tryCatch {body : Method Op ε τ α} {handler : ε → Method Op ε τ α} {a : α} :
    (tryCatch body handler).Completes out t s a t' s' ↔
      body.Completes out t s a t' s' ∨
        ∃ e t₁ s₁, body.Ends out t s (.error e) t₁ s₁ ∧
          (handler e).Completes out t₁ s₁ a t' s' := by
  constructor
  · intro h
    obtain ⟨⟨outcome, t₁⟩, s₁, hbody, hrest⟩ := Prog.runs_bind.mp h
    cases outcome with
    | ok b =>
      obtain ⟨hresult, rfl⟩ := hrest
      obtain ⟨hab, rfl⟩ := Prod.mk.inj hresult
      obtain rfl := Except.ok.inj hab
      exact Or.inl hbody
    | error e => exact Or.inr ⟨e, t₁, s₁, hbody, hrest⟩
  · rintro (hbody | ⟨e, t₁, s₁, hbody, hrest⟩)
    · exact Prog.runs_bind.mpr ⟨(.ok a, t'), s', hbody, rfl, rfl⟩
    · exact Prog.runs_bind.mpr ⟨(.error e, t₁), s₁, hbody, hrest⟩

@[simp] theorem completes_forEach_nil {body : α → Method Op ε τ Unit} {u : Unit} :
    (forEach [] body).Completes out t s u t' s' ↔ t' = t ∧ s' = s := by
  simp [forEach]

@[simp] theorem completes_forEach_cons {body : α → Method Op ε τ Unit} {x : α} {xs : List α}
    {u : Unit} :
    (forEach (x :: xs) body).Completes out t s u t' s' ↔
      ∃ t₁ s₁, (body x).Completes out t s () t₁ s₁ ∧
        (forEach xs body).Completes out t₁ s₁ u t' s' := by
  refine completes_bind.trans ?_
  constructor
  · rintro ⟨_, t₁, s₁, hx, hxs⟩
    exact ⟨t₁, s₁, hx, hxs⟩
  · rintro ⟨t₁, s₁, hx, hxs⟩
    exact ⟨(), t₁, s₁, hx, hxs⟩

/-- A loop that completes has folded the effect of its body over the state, where the
body leaves the attributes alone. -/
theorem completes_forEach_fold {body : α → Method Op ε τ Unit} {f : σ → α → σ} {xs : List α}
    (hbody : ∀ x ∈ xs, ∀ s s' t', (body x).Completes out t s () t' s' → t' = t ∧ s' = f s x)
    {u : Unit} (h : (forEach xs body).Completes out t s u t' s') :
    t' = t ∧ s' = xs.foldl f s := by
  induction xs generalizing s with
  | nil => exact completes_forEach_nil.mp h
  | cons x xs ih =>
    obtain ⟨t₁, s₁, hx, hxs⟩ := completes_forEach_cons.mp h
    obtain ⟨rfl, rfl⟩ := hbody x (by simp) s s₁ t₁ hx
    exact ih (fun y hy => hbody y (List.mem_cons_of_mem x hy)) hxs

/-- The method of another object ends, and this object is as it was. -/
theorem ends_onObject {υ : Type} {m : Method Op ε υ α} {me : υ} {r : Except ε α} :
    (onObject m me : Method Op ε τ α).Ends out t s r t' s' ↔
      t' = t ∧ ∃ me', m.Ends out me s r me' s' := by
  constructor
  · intro h
    obtain ⟨⟨outcome, me'⟩, s₁, hrun, hresult, rfl⟩ := Prog.runs_bind.mp h
    obtain ⟨rfl, rfl⟩ := Prod.mk.inj hresult
    exact ⟨rfl, me', hrun⟩
  · rintro ⟨rfl, me', hrun⟩
    exact Prog.runs_bind.mpr ⟨(r, me'), s', hrun, rfl, rfl⟩

theorem ends_perform {op : Op α} {r : Except ε α} :
    (perform op : Method Op ε τ α).Ends out t s r t' s' ↔ t' = t ∧ out op s r s' := by
  constructor
  · rintro ⟨r', s₁, hout, hresult, rfl⟩
    obtain ⟨rfl, rfl⟩ := Prod.mk.inj hresult
    exact ⟨rfl, hout⟩
  · rintro ⟨rfl, hout⟩
    exact ⟨r, s', hout, rfl, rfl⟩

/-- A loop that raises has completed the iterations before the one that raised. -/
theorem ends_forEach_error {body : α → Method Op ε τ Unit} {xs : List α} {e : ε}
    (h : (forEach xs body).Ends out t s (.error e) t' s') :
    ∃ before x after t₁ s₁, xs = before ++ x :: after ∧
      (forEach before body).Completes out t s () t₁ s₁ ∧ (body x).Ends out t₁ s₁ (.error e) t' s' := by
  induction xs generalizing t s with
  | nil =>
    obtain ⟨hresult, -⟩ := h
    simp at hresult
  | cons x xs ih =>
    rcases ends_bind.mp h with ⟨_, t₁, s₁, hx, hxs⟩ | ⟨e', he, hx⟩
    · obtain ⟨before, y, after, t₂, s₂, rfl, hbefore, hy⟩ := ih hxs
      exact ⟨x :: before, y, after, t₂, s₂, rfl,
        completes_forEach_cons.mpr ⟨t₁, s₁, hx, hbefore⟩, hy⟩
    · obtain rfl := Except.error.inj he
      exact ⟨[], x, xs, t, s, rfl, completes_forEach_nil.mpr ⟨rfl, rfl⟩, hx⟩

section Raising

variable (out) (E : ε → Prop)

/-- The method never writes. -/
def Reads (m : Method Op ε τ α) : Prop := ∀ t s r t' s', m.Ends out t s r t' s' → s' = s

/-- The method raises no exception of this kind. -/
def Spares (m : Method Op ε τ α) : Prop :=
  ∀ t s e t' s', m.Ends out t s (.error e) t' s' → ¬E e

/-- Exceptions of this kind are raised before anything was written. -/
def Unmoved (m : Method Op ε τ α) : Prop :=
  ∀ t s e t' s', m.Ends out t s (.error e) t' s' → E e → s' = s

variable {out E} {m : Method Op ε τ α} {f : α → Method Op ε τ β}

theorem reads_pure {a : α} : Reads out (pure a : Method Op ε τ α) := fun _ _ _ _ _ h => h.2

theorem reads_self : Reads out (self : Method Op ε τ τ) := fun _ _ _ _ _ h => h.2

theorem reads_assign {f : τ → τ} : Reads out (assign f : Method Op ε τ Unit) :=
  fun _ _ _ _ _ h => h.2

theorem reads_bind (hm : Reads out m) (hf : ∀ a, Reads out (f a)) : Reads out (m >>= f) := by
  intro t s r t' s' h
  rcases ends_bind.mp h with ⟨a, t₁, s₁, hfirst, hrest⟩ | ⟨e, -, hfirst⟩
  · rw [hf a _ _ _ _ _ hrest, hm _ _ _ _ _ hfirst]
  · exact hm _ _ _ _ _ hfirst

theorem reads_forEach {body : α → Method Op ε τ Unit} {xs : List α}
    (hbody : ∀ x, Reads out (body x)) : Reads out (forEach xs body) := by
  induction xs with
  | nil => exact reads_pure
  | cons x xs ih => exact reads_bind (hbody x) fun _ => ih

theorem spares_pure {a : α} : Spares out E (pure a : Method Op ε τ α) := by
  rintro t s e t' s' ⟨hresult, -⟩
  simp at hresult

theorem spares_self : Spares out E (self : Method Op ε τ τ) := by
  rintro t s e t' s' ⟨hresult, -⟩
  simp at hresult

theorem spares_assign {f : τ → τ} : Spares out E (assign f : Method Op ε τ Unit) := by
  rintro t s e t' s' ⟨hresult, -⟩
  simp at hresult

theorem spares_perform {op : Op α} (h : ∀ s e s', out op s (.error e) s' → ¬E e) :
    Spares out E (perform op : Method Op ε τ α) :=
  fun _ s e _ s' hends => h s e s' (ends_perform.mp hends).2

theorem spares_bind (hm : Spares out E m) (hf : ∀ a, Spares out E (f a)) :
    Spares out E (m >>= f) := by
  intro t s e t' s' h
  rcases ends_bind.mp h with ⟨a, t₁, s₁, -, hrest⟩ | ⟨e', he, hfirst⟩
  · exact hf a _ _ _ _ _ hrest
  · obtain rfl := Except.error.inj he
    exact hm _ _ _ _ _ hfirst

theorem spares_forEach {body : α → Method Op ε τ Unit} {xs : List α}
    (hbody : ∀ x, Spares out E (body x)) : Spares out E (forEach xs body) := by
  induction xs with
  | nil => exact spares_pure
  | cons x xs ih => exact spares_bind (hbody x) fun _ => ih

theorem Spares.unmoved (h : Spares out E m) : Unmoved out E m :=
  fun _ _ _ _ _ hends he => absurd he (h _ _ _ _ _ hends)

theorem Reads.unmoved (h : Reads out m) : Unmoved out E m :=
  fun _ _ _ _ _ hends _ => h _ _ _ _ _ hends

/-- Reading first changes nothing. -/
theorem unmoved_bind (hm : Reads out m) (hf : ∀ a, Unmoved out E (f a)) :
    Unmoved out E (m >>= f) := by
  intro t s e t' s' h he
  rcases ends_bind.mp h with ⟨a, t₁, s₁, hfirst, hrest⟩ | ⟨e', -, hfirst⟩
  · rw [hf a _ _ _ _ _ hrest he, hm _ _ _ _ _ hfirst]
  · exact hm _ _ _ _ _ hfirst

theorem unmoved_bind_spares (hm : Unmoved out E m) (hf : ∀ a, Spares out E (f a)) :
    Unmoved out E (m >>= f) := by
  intro t s e t' s' h he
  rcases ends_bind.mp h with ⟨a, t₁, s₁, -, hrest⟩ | ⟨e', he', hfirst⟩
  · exact absurd he (hf a _ _ _ _ _ hrest)
  · obtain rfl := Except.error.inj he'
    exact hm _ _ _ _ _ hfirst he

end Raising

/-- A run that ends satisfies what `wp` says of every run. -/
theorem Ends.of_wp {R : Regime σ Op ε} {post : Except ε α → τ → σ → Prop}
    {m : Method Op ε τ α} {r : Except ε α} (hrun : m.Ends out t s r t' s')
    (hout : ∀ {β : Type} (op : Op β) s r s', out op s r s' → R.out op s r s')
    (h : m.wp R post t s) : post r t' s' := by
  have hprog : (m t).Runs out s (r, t') s' := hrun
  exact hprog.of_wp hout h

/-- What a method does when it is computed is one way in which it ends. -/
theorem ends_exec {eval : ∀ {β : Type}, Op β → σ → Except ε β × σ}
    (hout : ∀ {β : Type} (op : Op β) (s : σ), out op s (eval op s).1 (eval op s).2)
    {m : Method Op ε τ α} :
    m.Ends out t s ((m t).exec eval s).1.1 ((m t).exec eval s).1.2 ((m t).exec eval s).2 :=
  Prog.runs_exec hout (m t) s

/-- A method that is seen to return when it is computed. -/
theorem completes_exec {eval : ∀ {β : Type}, Op β → σ → Except ε β × σ}
    (hout : ∀ {β : Type} (op : Op β) (s : σ), out op s (eval op s).1 (eval op s).2)
    {m : Method Op ε τ α} {a : α} (h : ((m t).exec eval s).1.1 = .ok a) :
    m.Completes out t s a ((m t).exec eval s).1.2 ((m t).exec eval s).2 := by
  have hends : m.Ends out t s ((m t).exec eval s).1.1 _ _ := ends_exec hout
  rwa [h] at hends

theorem runs_launch {m : Method Op ε τ α} {r : Except ε α} (h : m.Ends out t s r t' s') :
    (m.launch t).Runs out s () s' :=
  Prog.runs_bind.mpr ⟨(r, t'), s', h, rfl, rfl⟩

end Method

/-- A program that runs on its own is run by the system in which it may start. -/
theorem System.reaches_of_runs {σ : Type} {Op : Type → Type} {ε ι ρ : Type}
    {S : System σ Op ε ι ρ} {i : ι} {s s' : σ} {a : ρ} {threads : List (Thread Op ε ι ρ)}
    (hstart : S.mayStart ⟨s, threads⟩ i) (hrun : (S.start i).Runs S.out s a s') :
    S.Reaches (fun _ _ _ => True) ⟨s, threads⟩ ⟨s', threads⟩ := by
  suffices hthread : ∀ (p : Prog Op ε ρ) past s, p.Runs S.out s a s' →
      S.Reaches (fun _ _ _ => True) ⟨s, threads ++ [⟨i, past, p⟩]⟩ ⟨s', threads⟩ by
    exact Relation.ReflTransGen.head ⟨_, .spawn i hstart, trivial⟩ (hthread _ [] s hrun)
  intro p
  induction p with
  | ret b =>
    rintro past s ⟨-, rfl⟩
    have hfinish : S.Step ⟨s', threads ++ [⟨i, past, .ret b⟩]⟩ (.finish ⟨i, past, .ret b⟩)
        ⟨s', threads ++ []⟩ := .finish
    rw [List.append_nil] at hfinish
    exact Relation.ReflTransGen.single ⟨_, hfinish, trivial⟩
  | call op next ih =>
    rintro past s ⟨r, s₁, hout, hrest⟩
    exact Relation.ReflTransGen.head ⟨_, .perform hout, trivial⟩ (ih r _ s₁ hrest)

end AgenticRag
