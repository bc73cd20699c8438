import AgenticRag.Planner.PlanSafety

/-!
# What steps come to

As long as the budget suffices, the outcome of a step and the units it spends depend only on
the results recorded before its layer and on the outcomes of its attempts. The budget of an
accepted plan always suffices.
-/

namespace AgenticRag

namespace Planner

section Outcomes

variable (tools : Tools)

/-- An attempt whose units are reserved, and the units spent after it. -/
def attemptOutcome (retry : Attempting → StepOutcome × Nat) (a : Attempting) : StepOutcome × Nat :=
  match afterAttempt a (a.outcome tools) with
  | .inl (.reserving a') => retry a'
  | .inl _ => (.ok a.exhausted, 0)
  | .inr r => (r, 0)

/-- The retry loop with a number of attempts left, and the units it spends. -/
def retryLoop : Nat → Attempting → StepOutcome × Nat
  | 0, a => (.ok a.exhausted, 0)
  | left + 1, a =>
    let last := attemptOutcome tools (retryLoop left) { a with attempts := a.attempts + 1 }
    (last.1, a.corpora + last.2)

def remainingLoop (a : Attempting) : StepOutcome × Nat :=
  retryLoop tools (a.maxAttempts - a.attempts) a

variable (plan : QueryPlan) (completed : List StepResult)

/-- How a step that runs ends, and the units it spends until then. -/
def StepTask.destiny : StepTask → StepOutcome × Nat
  | .begun stepId =>
    match beginStep tools plan completed stepId with
    | .inl (.reserving a) => remainingLoop tools a
    | .inl _ => (.error (.valueError "not started"), 0)
    | .inr r => (r, 0)
  | .reserving a => remainingLoop tools a
  | .calling a => attemptOutcome tools (remainingLoop tools) a

def stepOutcome (stepId : String) : StepOutcome := (StepTask.destiny tools plan completed (.begun stepId)).1

def stepUnits (stepId : String) : Nat := (StepTask.destiny tools plan completed (.begun stepId)).2

variable {tools plan completed}

theorem attemptOutcome_retried {retry : Attempting → StepOutcome × Nat} {a a' : Attempting}
    (h : afterAttempt a (a.outcome tools) = .inl (.reserving a')) :
    attemptOutcome tools retry a = retry a' := by
  simp [attemptOutcome, h]

theorem attemptOutcome_ended {retry : Attempting → StepOutcome × Nat} {a : Attempting} {r : StepOutcome}
    (h : afterAttempt a (a.outcome tools) = .inr r) : attemptOutcome tools retry a = (r, 0) := by
  simp [attemptOutcome, h]

/-- A retry keeps the attempts made so far. -/
theorem attemptOutcome_congr {retry retry' : Attempting → StepOutcome × Nat} {a : Attempting}
    (h : ∀ last, retry { a with lastException := last } = retry' { a with lastException := last }) :
    attemptOutcome tools retry a = attemptOutcome tools retry' a := by
  have hcases := afterAttempt_continues a (a.outcome tools)
  cases hafter : afterAttempt a (a.outcome tools) with
  | inl t =>
    rw [hafter] at hcases
    cases hcases with
    | retried last =>
      rw [attemptOutcome_retried hafter, attemptOutcome_retried hafter]
      exact h last
  | inr r => rw [attemptOutcome_ended hafter, attemptOutcome_ended hafter]

/-- A step with attempts left makes the next one. -/
theorem remainingLoop_more {a : Attempting} (h : a.attempts < a.maxAttempts) :
    remainingLoop tools a =
      ((attemptOutcome tools (remainingLoop tools) { a with attempts := a.attempts + 1 }).1,
        a.corpora + (attemptOutcome tools (remainingLoop tools) { a with attempts := a.attempts + 1 }).2) := by
  have hleft : a.maxAttempts - a.attempts = (a.maxAttempts - (a.attempts + 1)) + 1 := by omega
  have hsame : attemptOutcome tools (retryLoop tools (a.maxAttempts - (a.attempts + 1)))
      { a with attempts := a.attempts + 1 } =
        attemptOutcome tools (remainingLoop tools) { a with attempts := a.attempts + 1 } :=
    attemptOutcome_congr fun _ => rfl
  rw [remainingLoop, hleft, retryLoop, hsame]

theorem remainingLoop_done {a : Attempting} (h : ¬a.attempts < a.maxAttempts) :
    remainingLoop tools a = (.ok a.exhausted, 0) := by
  have hleft : a.maxAttempts - a.attempts = 0 := by omega
  rw [remainingLoop, hleft, retryLoop]

theorem destiny_ready {stepId : String} {a : Attempting}
    (h : beginStep tools plan completed stepId = .inl (.reserving a)) :
    StepTask.destiny tools plan completed (.begun stepId) = remainingLoop tools a := by
  simp [StepTask.destiny, h]

theorem destiny_ended {stepId : String} {r : StepOutcome}
    (h : beginStep tools plan completed stepId = .inr r) :
    StepTask.destiny tools plan completed (.begun stepId) = (r, 0) := by
  simp [StepTask.destiny, h]

/-- As long as its units are left, a step ends as foreseen. -/
theorem stepWork_destined (tools : Tools) (completed : List StepResult) (hbudget : 0 ≤ plan.maxToolCalls) :
    ForkJoin.Destined (stepWork tools plan completed) SharedBudget.used
      (StepTask.destiny tools plan completed) plan.maxToolCalls.toNat where
  advance {t s t' s'} hstep hlimit := by
    cases t with
    | begun stepId =>
      obtain ⟨hbegin, rfl⟩ := Prod.mk.inj hstep
      have hcases := beginStep_begins tools plan completed stepId
      rw [hbegin] at hcases
      cases hcases with
      | ready => simp [StepTask.destiny, hbegin]
    | reserving a =>
      simp only [stepWork, stepTask] at hstep
      split at hstep
      · rename_i hmore
        split at hstep
        · cases hstep
        · simp only [Prod.mk.injEq, Sum.inl.injEq] at hstep
          obtain ⟨rfl, rfl⟩ := hstep
          simp only [StepTask.destiny, remainingLoop_more hmore]
          exact ⟨trivial, by omega⟩
      · cases hstep
    | calling a =>
      obtain ⟨hafter, rfl⟩ := Prod.mk.inj hstep
      have hcases := afterAttempt_continues a (a.outcome tools)
      rw [hafter] at hcases
      cases hcases with
      | retried last =>
        simp [StepTask.destiny, attemptOutcome_retried hafter]
  finish {t s r s'} hstep hlimit := by
    cases t with
    | begun stepId =>
      obtain ⟨hbegin, rfl⟩ := Prod.mk.inj hstep
      simp [StepTask.destiny, hbegin]
    | reserving a =>
      simp only [stepWork, stepTask] at hstep
      split at hstep
      · rename_i hmore
        split at hstep
        · -- the units that are foreseen include those of this attempt
          rename_i hrefused
          simp only [StepTask.destiny, remainingLoop_more hmore] at hlimit
          omega
        · cases hstep
      · rename_i hdone
        simp only [Prod.mk.injEq, Sum.inr.injEq] at hstep
        obtain ⟨rfl, rfl⟩ := hstep
        simp [StepTask.destiny, remainingLoop_done hdone]
    | calling a =>
      obtain ⟨hafter, rfl⟩ := Prod.mk.inj hstep
      simp [StepTask.destiny, attemptOutcome_ended hafter]

theorem attemptOutcome_units {retry : Attempting → StepOutcome × Nat} {a : Attempting} {bound : Nat}
    (h : ∀ last, (retry { a with lastException := last }).2 ≤ bound) :
    (attemptOutcome tools retry a).2 ≤ bound := by
  have hcases := afterAttempt_continues a (a.outcome tools)
  cases hafter : afterAttempt a (a.outcome tools) with
  | inl t =>
    rw [hafter] at hcases
    cases hcases with
    | retried last =>
      rw [attemptOutcome_retried hafter]
      exact h last
  | inr r =>
    rw [attemptOutcome_ended hafter]
    exact Nat.zero_le bound

theorem retryLoop_units (tools : Tools) (left : Nat) (a : Attempting) : (retryLoop tools left a).2 ≤ left * a.corpora := by
  induction left generalizing a with
  | zero => simp [retryLoop]
  | succ left ih =>
    have hlast : (attemptOutcome tools (retryLoop tools left) { a with attempts := a.attempts + 1 }).2 ≤
        left * a.corpora := attemptOutcome_units fun last => ih _
    rw [retryLoop, Nat.succ_mul]
    dsimp only
    omega

/-- The attempts of a step are within its own budget. -/
theorem maxAttempts_corpora (step : PlanStep) : step.maxAttempts * step.corpora ≤ step.maxToolCalls.toNat := by
  unfold PlanStep.maxAttempts
  split
  · omega
  · split <;> omega

def QueryPlan.budgetOf (plan : QueryPlan) (stepId : String) : Nat :=
  ((plan.stepNamed stepId).map (·.maxToolCalls.toNat)).getD 0

theorem stepUnits_le (tools : Tools) (plan : QueryPlan) (completed : List StepResult) (stepId : String) :
    stepUnits tools plan completed stepId ≤ plan.budgetOf stepId := by
  have hcases := beginStep_begins tools plan completed stepId
  unfold stepUnits
  cases hbegin : beginStep tools plan completed stepId with
  | inr r =>
    rw [destiny_ended hbegin]
    exact Nat.zero_le _
  | inl t =>
    rw [hbegin] at hcases
    cases hcases with
    | @ready step spec inputs hstep hmet =>
      have hunits := retryLoop_units tools step.maxAttempts ⟨step, spec, inputs, 0, step.maxAttempts, none⟩
      have hbudget := maxAttempts_corpora step
      rw [destiny_ready hbegin]
      simp only [QueryPlan.budgetOf, hstep, Option.map_some, Option.getD_some]
      exact hunits.trans hbudget

end Outcomes

section Results

variable {tools : Tools} {plan : QueryPlan} {completed completed' : List StepResult}

/-- Recorded results that answer every lookup alike. -/
def SameResults (completed completed' : List StepResult) : Prop :=
  ∀ stepId, resultOf completed stepId = resultOf completed' stepId

variable (h : SameResults completed completed')

include h

theorem resolveBindings_congr (spec : ToolSpec) (bindings : Dict String) (resolved : Dict Value) :
    resolveBindings plan completed spec bindings resolved =
      resolveBindings plan completed' spec bindings resolved := by
  have hone : ∀ field raw,
      resolveBinding plan completed spec field raw = resolveBinding plan completed' spec field raw := by
    intro field raw
    simp only [resolveBinding, h _]
  induction bindings generalizing resolved with
  | nil => rfl
  | cons binding rest ih => simp only [resolveBindings, hone, ih]

theorem substitutePieces_congr (pieces : List TemplatePiece) :
    substitutePieces completed pieces = substitutePieces completed' pieces := by
  have hone : ∀ source, substitutePlaceholder completed source = substitutePlaceholder completed' source := by
    intro source
    simp only [substitutePlaceholder, h _]
  induction pieces with
  | nil => rfl
  | cons piece rest ih =>
    cases piece with
    | text c => simp only [substitutePieces, ih]
    | placeholder source => simp only [substitutePieces, hone, ih]

theorem beginStep_congr (stepId : String) :
    beginStep tools plan completed stepId = beginStep tools plan completed' stepId := by
  simp only [beginStep, unmetDependency, resolveInputs, resolveQuery, h _, resolveBindings_congr h,
    substitutePieces_congr h]

/-- What a step comes to depends on the recorded results only. -/
theorem destiny_congr (stepId : String) :
    StepTask.destiny tools plan completed (.begun stepId) =
      StepTask.destiny tools plan completed' (.begun stepId) := by
  simp only [StepTask.destiny, beginStep_congr h]

theorem orderedSteps_congr : orderedSteps plan completed = orderedSteps plan completed' := by
  simp only [orderedSteps, h _]

theorem buildResult_congr (launched : Bool) (limitations : List String) (used : Nat) :
    buildResult plan completed launched limitations used =
      buildResult plan completed' launched limitations used := by
  simp only [buildResult, orderedSteps_congr h]

end Results

section Budget

variable {plan : QueryPlan} {ctx : SecurityContext} {registry : CorpusRegistry}

/-- What the checks before the first layer establish. -/
theorem precheck_ok (h : precheck plan ctx registry = .ok ()) :
    (PlanValidator.validate plan ctx registry).accepted = true ∧
      (∀ step ∈ plan.steps, (step.corpora : Int) ≤ step.maxToolCalls) ∧ 0 ≤ plan.maxToolCalls := by
  unfold precheck at h
  dsimp only at h
  split at h
  · cases h
  · rename_i haccepted
    split at h
    · cases h
    · rename_i hcorpora
      split at h
      · cases h
      · rename_i hbudget
        refine ⟨by simpa using haccepted, fun step hstep => ?_, not_lt.mp hbudget⟩
        have hnot := List.find?_eq_none.mp hcorpora step hstep
        simpa using hnot

/-- The budgets of steps that cover their corpora are not negative. -/
theorem sum_toNat_budgets {steps : List PlanStep}
    (h : ∀ step ∈ steps, (step.corpora : Int) ≤ step.maxToolCalls) :
    (((steps.map (·.maxToolCalls.toNat)).sum : Nat) : Int) = (steps.map (·.maxToolCalls)).sum := by
  induction steps with
  | nil => rfl
  | cons step rest ih =>
    have hstep := h step (by simp)
    have hrest := ih fun step hstep => h step (List.mem_cons_of_mem _ hstep)
    simp only [List.map_cons, List.sum_cons]
    omega

/-- Distinct steps have budgets that sum up to at most the budget of the plan. -/
theorem budgets_le (h : precheck plan ctx registry = .ok ()) {ids : List String} (hnodup : ids.Nodup) :
    (ids.map plan.budgetOf).sum ≤ plan.maxToolCalls.toNat := by
  obtain ⟨haccepted, hcorpora, hbudget⟩ := precheck_ok h
  have hids := PlanValidator.nodup_of_accepted haccepted
  have hall : (plan.stepIds.map plan.budgetOf).sum ≤ plan.maxToolCalls.toNat := by
    have hsteps : (plan.stepIds.map plan.budgetOf) = plan.steps.map (·.maxToolCalls.toNat) := by
      rw [QueryPlan.stepIds, List.map_map]
      apply List.map_congr_left
      intro step hstep
      simp [QueryPlan.budgetOf, stepNamed_of_mem hids hstep]
    have htotal := PlanValidator.total_of_accepted haccepted
    rw [← sum_toNat_budgets hcorpora] at htotal
    rw [hsteps]
    omega
  refine le_trans ?_ hall
  rw [← List.sum_toFinset _ hnodup, ← List.sum_toFinset _ hids]
  apply Finset.sum_le_sum_of_ne_zero
  intro id _ hspends
  rw [List.mem_toFinset]
  cases hstep : plan.stepNamed id with
  | none => simp [QueryPlan.budgetOf, hstep] at hspends
  | some step =>
    obtain ⟨hmem, rfl⟩ := stepNamed_mem hstep
    exact List.mem_map_of_mem hmem

end Budget

end Planner

end AgenticRag
