import Mathlib.Tactic

/-!
# Routines that may raise

A method of a store object reads and writes its state and either returns a value
or raises. The state it leaves behind exists in both cases, so a routine maps a
state to an outcome and the state left by it. `transaction` is the pattern
`BEGIN … COMMIT` with `ROLLBACK; raise` in the exception handler.
-/

namespace AgenticRag

/-- A computation on a mutable state `σ` that returns an `α` or raises an `ε`. -/
def Routine (σ ε α : Type) := σ → Except ε α × σ

namespace Routine

variable {σ ε α β : Type}

instance : Monad (Routine σ ε) where
  pure a := fun s => (.ok a, s)
  bind m f := fun s =>
    match m s with
    | (.ok a, s') => f a s'
    | (.error e, s') => (.error e, s')

/-- `raise e`. -/
def raise (e : ε) : Routine σ ε α := fun s => (.error e, s)

/-- The current state. -/
def get : Routine σ ε σ := fun s => (.ok s, s)

/-- Replace the current state. -/
def modify (f : σ → σ) : Routine σ ε Unit := fun s => (.ok (), f s)

/-- `BEGIN IMMEDIATE`, the body, `COMMIT`; a body that raises is rolled back and
its exception is raised again. -/
def transaction (body : Routine σ ε α) : Routine σ ε α := fun s =>
  match body s with
  | (.ok a, s') => (.ok a, s')
  | (.error e, _) => (.error e, s)

@[simp] theorem pure_apply (a : α) (s : σ) : (pure a : Routine σ ε α) s = (.ok a, s) := rfl

@[simp] theorem raise_apply (e : ε) (s : σ) : (raise e : Routine σ ε α) s = (.error e, s) := rfl

@[simp] theorem get_apply (s : σ) : (get : Routine σ ε σ) s = (.ok s, s) := rfl

@[simp] theorem modify_apply (f : σ → σ) (s : σ) :
    (modify f : Routine σ ε Unit) s = (.ok (), f s) := rfl

theorem bind_apply (m : Routine σ ε α) (f : α → Routine σ ε β) (s : σ) :
    (m >>= f) s = match m s with
      | (.ok a, s') => f a s'
      | (.error e, s') => (.error e, s') := rfl

@[simp] theorem bind_ok {m : Routine σ ε α} {f : α → Routine σ ε β} {s s' : σ} {a : α}
    (h : m s = (.ok a, s')) : (m >>= f) s = f a s' := by
  simp only [bind_apply, h]

@[simp] theorem bind_error {m : Routine σ ε α} {f : α → Routine σ ε β} {s s' : σ} {e : ε}
    (h : m s = (.error e, s')) : (m >>= f) s = (.error e, s') := by
  simp only [bind_apply, h]

@[simp] theorem get_bind (f : σ → Routine σ ε β) (s : σ) : (get >>= f) s = f s s := rfl

@[simp] theorem ite_apply {c : Prop} [Decidable c] (m n : Routine σ ε α) (s : σ) :
    (if c then m else n) s = if c then m s else n s := by
  split <;> rfl

/-- Sequencing peels apart: either the first part raised, or the second ran on
the state the first one left. -/
theorem bind_cases {m : Routine σ ε α} {f : α → Routine σ ε β} {s t : σ} {r : Except ε β}
    (h : (m >>= f) s = (r, t)) :
    (∃ e, m s = (.error e, t) ∧ r = .error e) ∨
      (∃ a s', m s = (.ok a, s') ∧ f a s' = (r, t)) := by
  rw [bind_apply] at h
  rcases hm : m s with ⟨outcome, s'⟩
  rw [hm] at h
  cases outcome with
  | error e =>
    left
    simp only [Prod.mk.injEq] at h
    exact ⟨e, by rw [h.2], h.1.symm⟩
  | ok a => exact Or.inr ⟨a, s', rfl, h⟩

/-- A transaction that raises leaves the state as it found it. -/
theorem transaction_error {body : Routine σ ε α} {s t : σ} {e : ε}
    (h : transaction body s = (.error e, t)) : t = s := by
  unfold transaction at h
  rcases hbody : body s with ⟨outcome, s'⟩
  rw [hbody] at h
  cases outcome with
  | ok a => simp at h
  | error e' =>
    simp only [Prod.mk.injEq] at h
    exact h.2.symm

/-- A transaction that returns is its body. -/
theorem transaction_ok {body : Routine σ ε α} {s t : σ} {a : α} :
    transaction body s = (.ok a, t) ↔ body s = (.ok a, t) := by
  unfold transaction
  rcases body s with ⟨outcome, s'⟩
  cases outcome <;> simp

section Keeps

/-- The state a routine leaves behind is related to the one it found, also when it raises. -/
def Keeps (R : σ → σ → Prop) (m : Routine σ ε α) : Prop := ∀ s, R s (m s).2

variable {R : σ → σ → Prop} {m : Routine σ ε α} {f : α → Routine σ ε β}

theorem keeps_of_unchanged (hrefl : ∀ s, R s s) (h : ∀ s, (m s).2 = s) : Keeps R m := by
  intro s
  rw [h s]
  exact hrefl s

theorem keeps_bind (htrans : ∀ s t u, R s t → R t u → R s u) (hm : Keeps R m)
    (hf : ∀ a, Keeps R (f a)) : Keeps R (m >>= f) := by
  intro s
  have hfirst := hm s
  rw [bind_apply]
  rcases hrun : m s with ⟨outcome, s'⟩
  rw [hrun] at hfirst
  cases outcome with
  | error e => exact hfirst
  | ok a => exact htrans _ _ _ hfirst (hf a s')

theorem keeps_transaction (hrefl : ∀ s, R s s) (hm : Keeps R m) : Keeps R (transaction m) := by
  intro s
  have hbody := hm s
  unfold transaction
  rcases hrun : m s with ⟨outcome, s'⟩
  rw [hrun] at hbody
  cases outcome with
  | error e => exact hrefl s
  | ok a => exact hbody

end Keeps

end Routine

end AgenticRag
