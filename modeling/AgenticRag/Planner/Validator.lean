import AgenticRag.Planner.Binding

/-!
# The plan validator

`planner/validator.py`: every check contributes its violations, and a plan is accepted if
there are none. The corpus registry only matters through the corpora it lets a caller get.
-/

namespace AgenticRag

namespace Planner

inductive PlanViolationCode where
  | duplicateStepId
  | unknownDependency
  | duplicateDependency
  | cycleDetected
  | corpusNotAuthorized
  | capabilityNotAllowed
  | stepBudgetExceedsGlobal
  | totalBudgetExceedsGlobal
  | emptyQuery
  | invalidBinding
  | writeOperation
  deriving DecidableEq, Repr

structure PlanViolation where
  code : PlanViolationCode
  message : String
  detail : String
  stepId : Option String
  deriving DecidableEq, Repr

structure PlanValidationResult where
  accepted : Bool
  violations : List PlanViolation
  policyViolationAttempt : Bool
  deriving DecidableEq, Repr

/-- Whether `get` of the corpus registry returns; otherwise it raises
`CorpusNotDiscoverableError`. -/
abbrev CorpusRegistry := String → SecurityContext → Bool

/-- An edge of the plan. -/
structure StepDependency where
  upstreamStepId : String
  downstreamStepId : String
  optional : Bool
  deriving DecidableEq, Repr

namespace PlanValidator

/-- The ids that occur again after an earlier one. -/
def duplicateStepIds : List String → List String → List PlanViolation
  | _, [] => []
  | seen, stepId :: rest =>
    (if stepId ∈ seen then
      [⟨.duplicateStepId, "plan contains duplicate step identifiers", stepId, some stepId⟩]
    else []) ++ duplicateStepIds (seen ++ [stepId]) rest

/-- A dependency of a step on itself or on no step; `adverb` tells hard from optional. -/
def dependencyViolation (stepIds : List String) (step : PlanStep) (adverb dep : String) :
    List PlanViolation :=
  if dep = step.stepId then
    [⟨.cycleDetected, "plan contains a cyclic dependency",
      step.stepId ++ " " ++ adverb ++ "depends on itself", some step.stepId⟩]
  else if dep ∉ stepIds then
    [⟨.unknownDependency, "plan references a step dependency that does not exist", dep,
      some step.stepId⟩]
  else []

/-- Dependencies that do not exist, on the step itself, or listed twice. The overlap is a
set in the source, so the order of its violations is not specified. -/
def dependencyViolations (stepIds : List String) (step : PlanStep) : List PlanViolation :=
  step.dependsOnStepIds.flatMap (dependencyViolation stepIds step "") ++
    step.optionalDependsOnStepIds.flatMap (dependencyViolation stepIds step "optionally ") ++
    (step.dependsOnStepIds.eraseDups.filter fun dep => decide (dep ∈ step.optionalDependsOnStepIds)).map
      fun dep => ⟨.duplicateDependency,
        "plan lists the same step as both a hard and optional dependency", dep, some step.stepId⟩

def buildEdges (plan : QueryPlan) : List StepDependency :=
  plan.steps.flatMap fun step =>
    (step.dependsOnStepIds.filter fun dep => decide (dep ∈ plan.stepIds)).map
        (fun dep => ⟨dep, step.stepId, false⟩) ++
      (step.optionalDependsOnStepIds.filter fun dep => decide (dep ∈ plan.stepIds)).map
        fun dep => ⟨dep, step.stepId, true⟩

/-- The loop over `adj[u]`: what becomes ready is pushed on the stack. -/
def releaseTargets : List String → (String → Int) → List String → (String → Int) × List String
  | [], indeg, stack => (indeg, stack)
  | v :: rest, indeg, stack =>
    let indeg := Function.update indeg v (indeg v - 1)
    releaseTargets rest indeg (if indeg v = 0 then v :: stack else stack)

/-- The number of nodes visited until the stack is empty. Every node is pushed at most once,
so the number of nodes is enough fuel. -/
def countVisited (edges : List StepDependency) : Nat → (String → Int) → List String → Nat
  | 0, _, _ => 0
  | _, _, [] => 0
  | fuel + 1, indeg, u :: stack =>
    let targets := (edges.filter fun e => decide (e.upstreamStepId = u)).map (·.downstreamStepId)
    match releaseTargets targets indeg stack with
    | (indeg, stack) => countVisited edges fuel indeg stack + 1

/-- `_has_cycle`; `stepIds` is the set of ids in some order. -/
def hasCycle (edges : List StepDependency) (stepIds : List String) : Bool :=
  let known := edges.filter fun e =>
    decide (e.upstreamStepId ∈ stepIds ∧ e.downstreamStepId ∈ stepIds)
  let indeg := fun stepId =>
    ((known.filter fun e => decide (e.downstreamStepId = stepId)).length : Int)
  let ready := stepIds.filter fun stepId => decide (indeg stepId = 0)
  decide (countVisited known stepIds.length indeg ready.reverse ≠ stepIds.length)

def duplicateViolations (plan : QueryPlan) : List PlanViolation :=
  duplicateStepIds [] plan.stepIds

def cycleViolations (plan : QueryPlan) : List PlanViolation :=
  if duplicateViolations plan = [] ∧ hasCycle (buildEdges plan) plan.stepIds.eraseDups = true then
    [⟨.cycleDetected, "plan is not a directed acyclic graph", "", none⟩]
  else []

def corpusViolations (ctx : SecurityContext) (registry : CorpusRegistry) (step : PlanStep) :
    List PlanViolation :=
  (step.targetCorpusIds.filter fun corpusId => !registry corpusId ctx).map fun corpusId =>
    ⟨.corpusNotAuthorized, "plan targets a corpus that is not authorized for this request", corpusId,
      some step.stepId⟩

/-- `CapabilityCatalog.supports`. -/
def supportsCapability (capability : String) : Bool :=
  decide (capability ∈ ["vector_search", "document_reader"])

def capabilityViolations (step : PlanStep) : List PlanViolation :=
  if supportsCapability step.capabilityId then []
  else [⟨.capabilityNotAllowed, "plan requests a capability that is not allowed for this request",
    step.capabilityId, some step.stepId⟩]

def stepBudgetViolations (plan : QueryPlan) (step : PlanStep) : List PlanViolation :=
  if step.maxToolCalls > plan.maxToolCalls then
    [⟨.stepBudgetExceedsGlobal, "plan contains a step whose budget exceeds the global budget",
      step.stepId ++ ": " ++ toString step.maxToolCalls ++ " > " ++ toString plan.maxToolCalls,
      some step.stepId⟩]
  else []

def totalBudgetViolations (plan : QueryPlan) : List PlanViolation :=
  let total := (plan.steps.map (·.maxToolCalls)).sum
  if total > plan.maxToolCalls then
    [⟨.totalBudgetExceedsGlobal, "plan total budget exceeds the global budget",
      "sum=" ++ toString total ++ " > " ++ toString plan.maxToolCalls, none⟩]
  else []

/-- `not text` of an optional string. -/
def isBlank (text : Option String) : Bool := decide (text = none ∨ text = some "")

def queryViolations (step : PlanStep) : List PlanViolation :=
  if isBlank step.query && isBlank step.queryTemplate then
    [⟨.emptyQuery, "plan contains a step with no query or query template", "", some step.stepId⟩]
  else []

def invalidBinding (step : PlanStep) (message detail : String) : PlanViolation :=
  ⟨.invalidBinding, message, detail, some step.stepId⟩

def bindingViolation (factIds : List String) (step : PlanStep) (field raw : String) :
    List PlanViolation :=
  match BindingExpression.parse raw with
  | .error _ =>
    [invalidBinding step
      "plan contains a binding that does not reference a legal upstream step or fact" raw]
  | .ok expr =>
    match expr.target with
    | .stepOutput stepId outputField =>
      if stepId ∉ step.allDependencyIds then
        [invalidBinding step "plan binds to a step that is not a declared dependency"
          (field ++ " -> " ++ raw)]
      else if strip outputField.toList = [] then
        [invalidBinding step "plan binds to an output field that is not an identifier"
          (field ++ " -> " ++ raw)]
      else []
    | .factValue factId =>
      if factId ∉ factIds then
        [invalidBinding step "plan binds to a required fact that does not exist"
          (field ++ " -> " ++ raw)]
      else []

def placeholderViolation (step : PlanStep) (placeholder : String) : List PlanViolation :=
  match BindingExpression.parseTemplatePlaceholder placeholder with
  | .error _ =>
    [invalidBinding step "plan query template contains an invalid placeholder" placeholder]
  | .ok expr =>
    match expr.target with
    | .stepOutput stepId _ =>
      if stepId ∉ step.allDependencyIds then
        [invalidBinding step "plan query template references a step that is not a declared dependency"
          placeholder]
      else []
    | .factValue _ =>
      [invalidBinding step "plan query template references a step that is not a declared dependency"
        placeholder]

def bindingViolations (factIds : List String) (step : PlanStep) : List PlanViolation :=
  (step.inputBindings.flatMap fun binding => bindingViolation factIds step binding.1 binding.2) ++
    if isBlank step.queryTemplate then []
    else (findPlaceholders (step.queryTemplate.getD "")).flatMap (placeholderViolation step)

def writeViolations (step : PlanStep) : List PlanViolation :=
  if step.capabilityId ∈ ["sql", "api", "graph"] then
    [⟨.writeOperation, "plan requests a write capability which is not permitted", step.capabilityId,
      some step.stepId⟩]
  else []

def allViolations (plan : QueryPlan) (ctx : SecurityContext) (registry : CorpusRegistry) :
    List PlanViolation :=
  duplicateViolations plan ++
    plan.steps.flatMap (dependencyViolations plan.stepIds) ++
    cycleViolations plan ++
    plan.steps.flatMap (corpusViolations ctx registry) ++
    plan.steps.flatMap capabilityViolations ++
    plan.steps.flatMap (stepBudgetViolations plan) ++
    totalBudgetViolations plan ++
    plan.steps.flatMap queryViolations ++
    plan.steps.flatMap (bindingViolations (plan.requiredFacts.map (·.factId))) ++
    plan.steps.flatMap writeViolations

def validate (plan : QueryPlan) (ctx : SecurityContext) (registry : CorpusRegistry) :
    PlanValidationResult where
  accepted := (allViolations plan ctx registry).isEmpty
  violations := allViolations plan ctx registry
  policyViolationAttempt := !(plan.steps.flatMap (corpusViolations ctx registry)).isEmpty

section Accepted

variable {plan : QueryPlan} {ctx : SecurityContext} {registry : CorpusRegistry}

theorem nodup_of_duplicateStepIds {seen ids : List String} (h : duplicateStepIds seen ids = []) :
    ids.Nodup ∧ ∀ id ∈ ids, id ∉ seen := by
  induction ids generalizing seen with
  | nil => simp
  | cons id ids ih =>
    simp only [duplicateStepIds, List.append_eq_nil_iff, ite_eq_right_iff, List.cons_ne_nil,
      imp_false] at h
    obtain ⟨hnodup, hfresh⟩ := ih h.2
    refine ⟨List.nodup_cons.mpr ⟨fun hmem => ?_, hnodup⟩, fun other hother => ?_⟩
    · exact hfresh id hmem (by simp)
    · rcases List.mem_cons.mp hother with rfl | hother
      · exact h.1
      · exact fun hseen => hfresh other hother (List.mem_append_left _ hseen)

/-- Every check of an accepted plan found nothing. -/
theorem accepted_iff : (validate plan ctx registry).accepted = true ↔ allViolations plan ctx registry = [] :=
  List.isEmpty_iff

/-- The steps of an accepted plan have distinct ids. -/
theorem nodup_of_accepted (h : (validate plan ctx registry).accepted = true) : plan.stepIds.Nodup := by
  have hnone := accepted_iff.mp h
  simp only [allViolations, List.append_eq_nil_iff] at hnone
  have hduplicates : duplicateViolations plan = [] := by tauto
  exact (nodup_of_duplicateStepIds hduplicates).1

/-- The budgets of the steps of an accepted plan sum up to at most the budget of the plan. -/
theorem total_of_accepted (h : (validate plan ctx registry).accepted = true) :
    (plan.steps.map (·.maxToolCalls)).sum ≤ plan.maxToolCalls := by
  have hnone := accepted_iff.mp h
  simp only [allViolations, List.append_eq_nil_iff] at hnone
  have htotal : totalBudgetViolations plan = [] := by tauto
  by_contra hexceeds
  simp [totalBudgetViolations, not_le.mp hexceeds] at htotal

end Accepted

end PlanValidator

end Planner

end AgenticRag
