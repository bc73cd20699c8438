import Mathlib.Logic.Relation
import Mathlib.Tactic

/-!
# Systems that move step by step

A system is a partial function that gives the state after a move. A run may be subject
to a condition on each of its moves; a property that every permitted move keeps holds
in every state reached.
-/

namespace AgenticRag

/-- The state after a move, if the move is possible. -/
abbrev Transition (σ μ : Type) : Type := σ → μ → Option σ

namespace Transition

variable {σ μ : Type} {step : Transition σ μ} {cond : σ → μ → Prop}

/-- The states of runs from `s` whose moves all meet a condition on the state before them. -/
inductive Reaches (step : Transition σ μ) (cond : σ → μ → Prop) (s : σ) : σ → Prop
  | refl : Reaches step cond s s
  | tail {s' s'' : σ} (m : μ) (h : Reaches step cond s s') (hcond : cond s' m)
      (hstep : step s' m = some s'') : Reaches step cond s s''

/-- Perform the moves of a list; a move that is not possible is skipped. -/
def play (step : Transition σ μ) (s : σ) : List μ → σ
  | [] => s
  | m :: moves => play step ((step s m).getD s) moves

/-- Whether every move of a list meets a condition when it is performed. -/
def permits (step : Transition σ μ) (cond : σ → μ → Prop) [∀ s m, Decidable (cond s m)] (s : σ) :
    List μ → Bool
  | [] => true
  | m :: moves => decide (cond s m) && permits step cond ((step s m).getD s) moves

namespace Reaches

/-- A property that every permitted move keeps holds throughout a run. -/
theorem invariant {I : σ → Prop} {s s' : σ}
    (hmove : ∀ {s m s'}, I s → cond s m → step s m = some s' → I s') (hrun : Reaches step cond s s')
    (hstart : I s) : I s' := by
  induction hrun with
  | refl => exact hstart
  | tail m h hcond hstep ih => exact hmove ih hcond hstep

theorem trans {s t u : σ} (h : Reaches step cond s t) (h' : Reaches step cond t u) :
    Reaches step cond s u := by
  induction h' with
  | refl => exact h
  | tail m _ hcond hstep ih => exact ih.tail m hcond hstep

theorem mono {cond' : σ → μ → Prop} {s s' : σ} (himp : ∀ s m, cond s m → cond' s m)
    (h : Reaches step cond s s') : Reaches step cond' s s' := by
  induction h with
  | refl => exact .refl
  | tail m _ hcond hstep ih => exact ih.tail m (himp _ m hcond) hstep

end Reaches

theorem permits_of_forall [∀ s m, Decidable (cond s m)] (h : ∀ s m, cond s m) (moves : List μ) (s : σ) :
    permits step cond s moves = true := by
  induction moves generalizing s with
  | nil => rfl
  | cons m moves ih => simp only [permits, h s m, decide_true, ih, Bool.and_true]

/-- The moves of a list make a run if each of them meets the condition. -/
theorem reaches_play [∀ s m, Decidable (cond s m)] {s : σ} (moves : List μ)
    (h : permits step cond s moves = true) : Reaches step cond s (play step s moves) := by
  induction moves generalizing s with
  | nil => exact .refl
  | cons m moves ih =>
    simp only [permits, Bool.and_eq_true, decide_eq_true_eq] at h
    have hrest := ih h.2
    cases hstep : step s m with
    | none => simpa [play, hstep] using hrest
    | some t =>
      have hmove : Reaches step cond s t := Reaches.refl.tail m h.1 hstep
      simpa [play, hstep] using hmove.trans (by simpa [hstep] using hrest)

end Transition

/-- The element at a position between those before and after it. -/
theorem split_at_position {α : Type*} {xs : List α} {k : Nat} {x : α} (h : xs[k]? = some x) :
    ∃ before after, xs = before ++ x :: after ∧ xs.eraseIdx k = before ++ after ∧
      ∀ y, xs.set k y = before ++ y :: after := by
  induction xs generalizing k with
  | nil => simp at h
  | cons first xs ih =>
    cases k with
    | zero =>
      obtain rfl : first = x := by simpa using h
      exact ⟨[], xs, rfl, rfl, fun _ => rfl⟩
    | succ k =>
      obtain ⟨before, after, hxs, herase, hset⟩ := ih (by simpa using h : xs[k]? = some x)
      refine ⟨first :: before, after, by simp [hxs], by simp [herase], fun y => ?_⟩
      simp [hset y]

/-- Two ways to single out an element of a list: the same one, or two different places. -/
theorem perm_cons_cases {α : Type*} {a b : α} {as bs : List α} (h : (a :: as).Perm (b :: bs)) :
    (a = b ∧ as.Perm bs) ∨ ∃ cs, as.Perm (b :: cs) ∧ bs.Perm (a :: cs) := by
  have hcons : a ::ₘ (as : Multiset α) = b ::ₘ (bs : Multiset α) := Quot.sound h
  rcases Multiset.cons_eq_cons.mp hcons with ⟨hsame, hrest⟩ | ⟨-, cs, has, hbs⟩
  · exact Or.inl ⟨hsame, Multiset.coe_eq_coe.mp hrest⟩
  · induction cs using Quotient.inductionOn with
    | h cs => exact Or.inr ⟨cs, Multiset.coe_eq_coe.mp has, Multiset.coe_eq_coe.mp hbs⟩

end AgenticRag
