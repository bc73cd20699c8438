import Mathlib.Data.List.Nodup
import Mathlib.Tactic

/-!
# Resuming a marked sequence of steps

A job goes through a list of steps and leaves a marker behind each one. When it is cut
off and started again it skips the steps that have their marker. If repeating a step
after its own effect changes nothing, the resumed job ends like one that was never cut
off.
-/

namespace AgenticRag

/-- Steps with their markers, and which states count as alike. -/
structure MarkedSteps (ι σ : Type) where
  perform : ι → σ → σ → Prop
  mark : ι → σ → σ → Prop
  Marked : σ → ι → Prop
  Agrees : σ → σ → Prop

namespace MarkedSteps

variable {ι σ : Type} (J : MarkedSteps ι σ)

/-- One turn of the loop: a step with its marker is skipped. -/
def Turn (i : ι) (s s' : σ) : Prop :=
  (J.Marked s i ∧ s' = s) ∨ (¬J.Marked s i ∧ ∃ s₁, J.perform i s s₁ ∧ J.mark i s₁ s')

inductive Loop : List ι → σ → σ → Prop
  | nil (s : σ) : Loop [] s s
  | cons {i : ι} {rest : List ι} {s s₁ s' : σ} (hturn : J.Turn i s s₁) (hrest : Loop rest s₁ s') :
      Loop (i :: rest) s s'

/-- The loop for a run that is never cut off. -/
inductive Undisturbed : List ι → σ → σ → Prop
  | nil (s : σ) : Undisturbed [] s s
  | cons {i : ι} {rest : List ι} {s s₁ s₂ s' : σ} (hstep : J.perform i s s₁) (hmark : J.mark i s₁ s₂)
      (hrest : Undisturbed rest s₂ s') : Undisturbed (i :: rest) s s'

/-- Performing a step again after its own effect leads to a state like the one after it. -/
structure Repeatable : Prop where
  mark_marked : ∀ {i s s'}, J.mark i s s' → ∀ j, J.Marked s' j ↔ J.Marked s j ∨ j = i
  mark_agrees : ∀ {i s s'}, J.mark i s s' → ∀ u, J.Agrees s u → J.Agrees s' u
  agrees_mark : ∀ {i s s'}, J.mark i s s' → ∀ u, J.Agrees u s → J.Agrees u s'
  perform_marked : ∀ {i s s'}, J.perform i s s' → ∀ j, J.Marked s' j ↔ J.Marked s j
  perform_agrees : ∀ {i u u' s s'}, J.perform i u u' → J.perform i s s' →
    J.Agrees s u ∨ J.Agrees s u' → J.Agrees s' u'

/-- A state some attempts may have left behind on the way to `final`: it is like the
state of the undisturbed run in which the next step is due, or like the one after the
effect of that step. -/
inductive Standing (final : σ) : List ι → σ → Prop
  | finished {s : σ} (h : J.Agrees s final) : Standing final [] s
  | due {i : ι} {rest : List ι} {s u u₁ u₂ : σ} (hstep : J.perform i u u₁) (hmark : J.mark i u₁ u₂)
      (hrest : J.Undisturbed rest u₂ final) (hdue : ∀ j ∈ i :: rest, ¬J.Marked s j)
      (h : J.Agrees s u ∨ J.Agrees s u₁) : Standing final (i :: rest) s
  | done {i : ι} {rest : List ι} {s : σ} (hmarked : J.Marked s i) (h : Standing final rest s) :
      Standing final (i :: rest) s

/-- Markers are left in order: a step that has its marker comes after steps that have
theirs. -/
def InOrder (steps : List ι) (s : σ) : Prop :=
  steps.Pairwise fun i j => J.Marked s j → J.Marked s i

variable {J} {final : σ} {steps before after rest : List ι} {i : ι} {s s₁ s' u : σ}

theorem Undisturbed.standing (h : J.Undisturbed steps u final) (hdue : ∀ j ∈ steps, ¬J.Marked s j)
    (hagrees : J.Agrees s u) : J.Standing final steps s := by
  cases h with
  | nil => exact .finished hagrees
  | cons hstep hmark hrest => exact .due hstep hmark hrest hdue (Or.inl hagrees)

/-- A loop whose steps are all due is not cut off. -/
theorem Loop.undisturbed (hJ : J.Repeatable) (hnodup : steps.Nodup)
    (hdue : ∀ j ∈ steps, ¬J.Marked s j) (h : J.Loop steps s s') : J.Undisturbed steps s s' := by
  induction h with
  | nil s => exact .nil s
  | cons hturn hrest ih =>
    rcases hturn with ⟨hmarked, -⟩ | ⟨-, s₁, hstep, hmark⟩
    · exact absurd hmarked (hdue _ List.mem_cons_self)
    · refine .cons hstep hmark (ih (List.nodup_cons.mp hnodup).2 fun j hj hmarked => ?_)
      rcases (hJ.mark_marked hmark j).mp hmarked with hold | rfl
      · exact hdue j (List.mem_cons_of_mem _ hj) ((hJ.perform_marked hstep j).mp hold)
      · exact (List.nodup_cons.mp hnodup).1 hj

section Repeatable

variable (hJ : J.Repeatable)

include hJ

theorem Turn.marked (h : J.Turn i s s') (j : ι) : J.Marked s' j ↔ J.Marked s j ∨ j = i := by
  rcases h with ⟨hmarked, rfl⟩ | ⟨-, s₁, hstep, hmark⟩
  · constructor
    · exact Or.inl
    · rintro (hj | rfl)
      · exact hj
      · exact hmarked
  · rw [hJ.mark_marked hmark, hJ.perform_marked hstep]

/-- The loop leaves the markers of its steps and no others. -/
theorem Loop.marked (h : J.Loop steps s s') (j : ι) :
    J.Marked s' j ↔ J.Marked s j ∨ j ∈ steps := by
  induction h with
  | nil => simp
  | cons hturn _ ih => rw [ih, hturn.marked hJ, List.mem_cons, or_assoc]

theorem InOrder.loop (hnodup : (before ++ after).Nodup) (h : J.InOrder (before ++ after) s)
    (hloop : J.Loop before s s') : J.InOrder (before ++ after) s' := by
  have hafter : ∀ j ∈ after, J.Marked s' j → J.Marked s j := by
    intro j hj hmarked
    rcases (hloop.marked hJ j).mp hmarked with hold | hbefore
    · exact hold
    · exact absurd hj (List.disjoint_of_nodup_append hnodup hbefore)
  obtain ⟨hfirst, hsecond, -⟩ := List.pairwise_append.mp h
  refine List.pairwise_append.mpr ⟨?_, ?_, ?_⟩
  · exact hfirst.imp_of_mem fun hi _ _ _ => (hloop.marked hJ _).mpr (Or.inr hi)
  · exact hsecond.imp_of_mem fun _ hj himp hmarked =>
      (hloop.marked hJ _).mpr (Or.inl (himp (hafter _ hj hmarked)))
  · exact fun i hi j _ _ => (hloop.marked hJ i).mpr (Or.inr hi)

theorem InOrder.perform (h : J.InOrder steps s) (hstep : J.perform i s s') : J.InOrder steps s' :=
  h.imp fun himp hmarked =>
    (hJ.perform_marked hstep _).mpr (himp ((hJ.perform_marked hstep _).mp hmarked))

/-- A turn ends with its step marked and the later steps standing. -/
theorem Standing.turn (hnodup : (i :: rest).Nodup) (h : J.Standing final (i :: rest) s)
    (hturn : J.Turn i s s') : J.Marked s' i ∧ J.Standing final rest s' := by
  refine ⟨(hturn.marked hJ i).mpr (Or.inr rfl), ?_⟩
  cases h with
  | done hmarked h =>
    rcases hturn with ⟨-, rfl⟩ | ⟨hunmarked, -⟩
    · exact h
    · exact absurd hmarked hunmarked
  | due hstep hmark hrest hdue hagrees =>
    have hlater : ∀ j ∈ rest, ¬J.Marked s' j := by
      intro j hj hmarked
      rcases (hturn.marked hJ j).mp hmarked with hold | rfl
      · exact hdue j (List.mem_cons_of_mem i hj) hold
      · exact (List.nodup_cons.mp hnodup).1 hj
    rcases hturn with ⟨hmarked, -⟩ | ⟨-, s₁, hagain, hmark'⟩
    · exact absurd hmarked (hdue i List.mem_cons_self)
    · have hafter := hJ.perform_agrees hstep hagain hagrees
      exact hrest.standing hlater (hJ.mark_agrees hmark' _ (hJ.agrees_mark hmark _ hafter))

/-- A resumed run through all steps ends like the undisturbed one. -/
theorem Standing.agrees (hnodup : steps.Nodup) (h : J.Standing final steps s)
    (hloop : J.Loop steps s s') : J.Agrees s' final := by
  induction hloop with
  | nil =>
    cases h with
    | finished hagrees => exact hagrees
  | cons hturn _ ih => exact ih (List.nodup_cons.mp hnodup).2 (h.turn hJ hnodup hturn).2

/-- Cut off between two steps, the state still stands. -/
theorem Standing.loop (hnodup : (before ++ after).Nodup) (h : J.Standing final (before ++ after) s)
    (hloop : J.Loop before s s') : J.Standing final (before ++ after) s' := by
  induction hloop with
  | nil => exact h
  | cons hturn hrest ih =>
    obtain ⟨hmarked, hstanding⟩ := h.turn hJ hnodup hturn
    exact .done ((hrest.marked hJ _).mpr (Or.inl hmarked)) (ih (List.nodup_cons.mp hnodup).2 hstanding)

/-- Cut off after the effect of a step and before its marker, the state still stands. -/
theorem Standing.effect (hnodup : (before ++ i :: after).Nodup)
    (h : J.Standing final (before ++ i :: after) s) (hloop : J.Loop before s s₁)
    (hdue : ¬J.Marked s₁ i) (hstep : J.perform i s₁ s') :
    J.Standing final (before ++ i :: after) s' := by
  induction hloop with
  | nil =>
    cases h with
    | done hmarked _ => exact absurd hmarked hdue
    | due hstep' hmark hrest hlater hagrees =>
      refine .due hstep' hmark hrest (fun j hj hmarked => ?_)
        (Or.inr (hJ.perform_agrees hstep' hstep hagrees))
      exact hlater j hj ((hJ.perform_marked hstep j).mp hmarked)
  | cons hturn hrest ih =>
    obtain ⟨hmarked, hstanding⟩ := h.turn hJ hnodup hturn
    refine .done ?_ (ih (List.nodup_cons.mp hnodup).2 hstanding hdue hstep)
    exact (hJ.perform_marked hstep _).mpr ((hrest.marked hJ _).mpr (Or.inl hmarked))

end Repeatable

/-- The steps after one that is due are due. -/
theorem Standing.later_due (h : J.Standing final (before ++ i :: after) s) (hdue : ¬J.Marked s i) :
    ∀ j ∈ after, ¬J.Marked s j := by
  induction before with
  | nil =>
    cases h with
    | done hmarked _ => exact absurd hmarked hdue
    | due _ _ _ hlater _ => exact fun j hj => hlater j (List.mem_cons_of_mem i hj)
  | cons first before ih =>
    cases h with
    | done _ h => exact ih h
    | due _ _ _ hlater _ =>
      intro j hj
      exact hlater j (by simp [hj])

/-- What keeps the markers and agrees with the same states keeps the standing. -/
theorem Standing.congr (hmarked : ∀ j ∈ steps, J.Marked s' j ↔ J.Marked s j)
    (hagrees : ∀ u, J.Agrees s u → J.Agrees s' u) (h : J.Standing final steps s) :
    J.Standing final steps s' := by
  induction h with
  | finished h => exact .finished (hagrees _ h)
  | due hstep hmark hrest hdue h =>
    refine .due hstep hmark hrest (fun j hj hj' => hdue j hj ((hmarked j hj).mp hj')) ?_
    exact h.imp (hagrees _) (hagrees _)
  | done hdone _ ih =>
    refine .done ((hmarked _ List.mem_cons_self).mpr hdone) (ih (fun j hj => ?_) hagrees)
    exact hmarked j (List.mem_cons_of_mem _ hj)

end MarkedSteps

end AgenticRag
