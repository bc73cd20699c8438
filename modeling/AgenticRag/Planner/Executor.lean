import AgenticRag.Foundations.ForkJoin
import AgenticRag.Foundations.Layering
import AgenticRag.Foundations.Table
import AgenticRag.Planner.Validator

/-!
# The plan executor

`planner/executor.py` with its budget. The steps of a layer run on a thread pool: a step
reserves budget, calls its Tool and looks at the outcome, one access to the budget or one
Tool attempt at a time; `as_completed` reports the finished steps in any order. The outcome
of every attempt is given. Exceptions that do not derive from `Exception` are left out.
-/

namespace AgenticRag

namespace Planner

structure TypedStepOutput where
  outputs : Dict Value
  evidenceIds : List String
  deriving DecidableEq, Repr

/-- What a Tool attempt does within the time of its step. -/
inductive ToolOutcome where
  | returned (output : TypedStepOutput)
  | raised (e : PyException)
  | late
  deriving DecidableEq, Repr

/-- A pydantic model: validate a dictionary and dump the result. -/
abbrev OutputModel := Dict Value → Except PyException (Dict Value)

/-- `ToolSpec`; the input model is its fields with their `is_required()`. -/
structure ToolSpec where
  inputFields : Dict Bool
  outputModels : OutputSchemaId → Option OutputModel
  retryableErrors : List ExceptionClass

/-- The registry, and what the attempts of its Tools do: the outcome of an attempt with its
number, for a step and its inputs. -/
structure Tools where
  get : StepType → String → Except PyException ToolSpec
  attempt : PlanStep → Dict Value → Nat → ToolOutcome

inductive StepStatus where
  | pending
  | running
  | succeeded
  | failed
  | timedOut
  | skippedDependency
  | budgetExhausted
  deriving DecidableEq, Repr

def StepStatus.value : StepStatus → String
  | .pending => "pending"
  | .running => "running"
  | .succeeded => "succeeded"
  | .failed => "failed"
  | .timedOut => "timed_out"
  | .skippedDependency => "skipped_dependency"
  | .budgetExhausted => "budget_exhausted"

/-- A status that does not change any more. -/
def StepStatus.Terminal (status : StepStatus) : Prop := status ≠ .pending ∧ status ≠ .running

structure StepResult where
  stepId : String
  status : StepStatus
  outputs : Dict Value
  evidenceIds : List String
  errorCode : Option String
  message : String
  detail : String
  attempts : Nat
  toolCallsConsumed : Nat
  deriving DecidableEq, Repr

/-- A result without outputs. -/
def StepResult.unsuccessful (stepId : String) (status : StepStatus) (errorCode : Option String)
    (message detail : String) (attempts toolCallsConsumed : Nat) : StepResult :=
  ⟨stepId, status, [], [], errorCode, message, detail, attempts, toolCallsConsumed⟩

structure PlanExecutionResult where
  planId : String
  accepted : Bool
  executed : Bool
  degraded : Bool
  steps : List StepResult
  toolCallsUsed : Nat
  evidenceIds : List String
  limitations : List String
  deriving DecidableEq, Repr

/-- `completed.get(step_id)`. -/
def resultOf (results : List StepResult) (stepId : String) : Option StepResult :=
  Table.selectOne (fun r => decide (r.stepId = stepId)) results

/-- `fact_values`; the last fact with the id counts. -/
def QueryPlan.factValue (plan : QueryPlan) (factId : String) : Option String :=
  (plan.requiredFacts.reverse.find? fun fact => decide (fact.factId = factId)).map (·.description)

section Inputs

variable (plan : QueryPlan) (completed : List StepResult)

/-- `upstream.outputs.get(field)`. -/
def StepResult.output (r : StepResult) (field : String) : Value :=
  (r.outputs.lookup field).getD .none

def resolveBinding (spec : ToolSpec) (field raw : String) : Except PyException Value := do
  let expr ← BindingExpression.parse raw
  match expr.target with
  | .stepOutput stepId outputField =>
    match resultOf completed stepId with
    | none => .error (.valueError
        ("binding " ++ field ++ ": upstream step " ++ stepId ++ " not completed"))
    | some upstream =>
      if upstream.output outputField = .none ∧ spec.inputFields.lookup field = some true then
        .error (.valueError ("binding " ++ field ++ ": required field " ++ outputField ++ " is missing"))
      else .ok (upstream.output outputField)
  | .factValue factId =>
    match plan.factValue factId with
    | none => .error (.valueError ("binding " ++ field ++ ": fact " ++ factId ++ " not found"))
    | some description => .ok (.str description)

/-- `resolved[field] = value`. -/
def assignField (resolved : Dict Value) (field : String) (value : Value) : Dict Value :=
  Table.upsert Prod.fst resolved (field, value)

def resolveBindings (spec : ToolSpec) : Dict String → Dict Value → Except PyException (Dict Value)
  | [], resolved => .ok resolved
  | (field, raw) :: rest, resolved => do
    let value ← resolveBinding plan completed spec field raw
    resolveBindings spec rest (assignField resolved field value)

/-- The text a placeholder is replaced by; `_TMPL_PARSE_RE` is the pattern of the validator. -/
def substitutePlaceholder (source : List Char) : Except PyException (List Char) :=
  match (BindingExpression.braced source).bind BindingExpression.placeholderTarget with
  | none => .error (.valueError ("malformed template placeholder: " ++ String.ofList source))
  | some (stepId, field) =>
    match resultOf completed stepId with
    | none => .error (.valueError
        ("template references step " ++ stepId ++ " which is not completed"))
    | some upstream =>
      match upstream.output field with
      | .none => .error (.valueError
          ("template references field " ++ field ++ " on step " ++ stepId ++ " which is not in outputs"))
      | value => .ok value.text.toList

/-- `_substitute_template`. -/
def substitutePieces : List TemplatePiece → Except PyException (List Char)
  | [] => .ok []
  | .text c :: rest => do
    let tail ← substitutePieces rest
    pure (c :: tail)
  | .placeholder source :: rest => do
    let here ← substitutePlaceholder completed source
    let tail ← substitutePieces rest
    pure (here ++ tail)

def resolveQuery (step : PlanStep) : Except PyException String :=
  match step.query, step.queryTemplate with
  | some query, _ => .ok query
  | none, some template => (substitutePieces completed (templatePieces template)).map String.ofList
  | none, none => .error (.valueError "step has no query or query_template")

def resolveInputs (spec : ToolSpec) (step : PlanStep) : Except PyException (Dict Value) := do
  let resolved ← resolveBindings plan completed spec step.inputBindings []
  let query ← resolveQuery completed step
  pure (assignField resolved "__query__" (.str query))

end Inputs

def checkMissingRequired (spec : ToolSpec) (inputs : Dict Value) : List String :=
  (spec.inputFields.filter fun field =>
    decide (field.1 ≠ "__query__") && field.2 && (inputs.lookup field.1).isNone).map Prod.fst

/-- The local state of a step in its retry loop. -/
structure Attempting where
  step : PlanStep
  spec : ToolSpec
  inputs : Dict Value
  attempts : Nat
  maxAttempts : Nat
  lastException : Option PyException

/-- A running step: at its beginning, before `try_reserve`, or before its Tool call. -/
inductive StepTask where
  | begun (stepId : String)
  | reserving (a : Attempting)
  | calling (a : Attempting)

/-- How a step ends: its result, or an exception. -/
abbrev StepOutcome := Except PyException StepResult

/-- A Tool attempt that has taken place. -/
structure ToolCall where
  step : PlanStep
  attempt : Nat
  outcome : Except PyException TypedStepOutput
  deriving DecidableEq, Repr

/-- What the steps share: the units spent so far and the calls made so far. -/
structure SharedBudget where
  used : Nat
  calls : List ToolCall
  deriving DecidableEq, Repr

def PlanStep.corpora (step : PlanStep) : Nat := step.targetCorpusIds.length

def PlanStep.maxAttempts (step : PlanStep) : Nat :=
  if step.maxToolCalls ≥ (step.corpora * 2 : Nat) then 2
  else if step.maxToolCalls ≥ step.corpora then 1
  else 0

section Steps

variable (tools : Tools) (plan : QueryPlan)

/-- A hard dependency without success, and the status it is reported with. -/
def unmetDependency (completed : List StepResult) (step : PlanStep) : Option (String × String) :=
  (step.dependsOnStepIds.find? fun dep =>
    decide ((resultOf completed dep).map (·.status) ≠ some .succeeded)).map fun dep =>
      (dep, ((resultOf completed dep).map (·.status.value)).getD "not_started")

/-- `_execute_single_step` up to its retry loop. -/
def beginStep (completed : List StepResult) (stepId : String) : StepTask ⊕ StepOutcome :=
  match plan.stepNamed stepId with
  | none => .inr (.error ⟨.keyError, [.other "LookupError", .exception], "'" ++ stepId ++ "'", "", ""⟩)
  | some step =>
    match tools.get step.stepType step.capabilityId with
    | .error e => .inr (.error e)
    | .ok spec =>
      match unmetDependency completed step with
      | some (dep, status) => .inr (.ok (.unsuccessful stepId .skippedDependency none
          "a required upstream step did not succeed" ("upstream " ++ dep ++ " status=" ++ status) 0 0))
      | none =>
        match resolveInputs plan completed spec step with
        | .error e =>
          if e.IsInstance .planExecutionError then .inr (.error e)
          else .inr (.ok (.unsuccessful stepId .failed (some "binding_error")
            "binding resolution failed" e.described 0 0))
        | .ok inputs =>
          if checkMissingRequired spec inputs ≠ [] then
            .inr (.ok (.unsuccessful stepId .failed (some "binding_error")
              "required input field is missing"
              ("missing fields: " ++ listText (checkMissingRequired spec inputs)) 0 0))
          else .inl (.reserving ⟨step, spec, inputs, 0, step.maxAttempts, none⟩)

namespace Attempting

variable (a : Attempting)

def corpora : Nat := a.step.corpora

/-- A result after the attempts made so far. -/
def failedWith (status : StepStatus) (errorCode : Option String) (message detail : String) : StepResult :=
  .unsuccessful a.step.stepId status errorCode message detail a.attempts (a.attempts * a.corpora)

def budgetExhausted : StepResult :=
  a.failedWith .budgetExhausted none "tool-call budget exhausted"
    ("attempt " ++ toString (a.attempts + 1) ++ " failed to reserve " ++ toString a.corpora ++ " units")

/-- The result after the last attempt. -/
def exhausted : StepResult :=
  match a.lastException with
  | some e => a.failedWith .failed (some "retry_exhausted") "step failed after all retry attempts"
      ("last error: " ++ e.text)
  | none => a.failedWith .failed (some "execution_error") "step failed after all retry attempts" ""

end Attempting

def securityBindingErrors : List ExceptionClass :=
  [.corpusNotDiscoverableError, .parentAuthorizationError, .emptyAuthorizationScopeError,
    .tenantBindingError]

def programmingErrors : List ExceptionClass := [.valueError, .typeError, .keyError]

/-- `_run_tool_with_timeout`: a step that is late or raises a timeout of its own times out. -/
def runToolWithTimeout (step : PlanStep) : ToolOutcome → Except PyException TypedStepOutput
  | .returned output => .ok output
  | .raised e =>
    if e.IsInstance .timeoutError then .error (timedOut step) else .error e
  | .late => .error (timedOut step)
where
  timedOut (step : PlanStep) : PyException :=
    .timeoutError ("step " ++ step.stepId ++ " timed out after " ++ toString step.timeoutSeconds ++ "s")

/-- The `except` clauses around an attempt. -/
def handleException (a : Attempting) (e : PyException) : StepTask ⊕ StepOutcome :=
  if e.CaughtBy securityBindingErrors then
    .inr (.error (.planExecutionError "security binding failure during execution"
      "security_binding_failure" ("step=" ++ a.step.stepId ++ " " ++ e.described)))
  else if e.CaughtBy programmingErrors then
    .inr (.ok (a.failedWith .failed (some "programming_error")
      "a programming error occurred during execution" e.described))
  else if e.CaughtBy a.spec.retryableErrors then
    .inl (.reserving { a with lastException := some e })
  else if e.IsInstance .planExecutionError then
    .inr (.error e)
  else if e.IsInstance .timeoutError then
    if a.attempts < a.maxAttempts ∧ e.type ∈ a.spec.retryableErrors then
      .inl (.reserving { a with lastException := some e })
    else .inr (.ok (a.failedWith .timedOut none "step timed out" e.described))
  else
    .inr (.ok (a.failedWith .failed (some "execution_error") "step execution failed" e.described))

def afterAttempt (a : Attempting) : Except PyException TypedStepOutput → StepTask ⊕ StepOutcome
  | .error e => handleException a e
  | .ok output =>
    match a.spec.outputModels a.step.outputSchemaId with
    | none => handleException a (.planExecutionError
        ("output schema " ++ a.step.outputSchemaId.name ++ " not registered") "output_schema_error"
        ("step=" ++ a.step.stepId ++ " schema_id=" ++ a.step.outputSchemaId.name))
    | some model =>
      match model output.outputs with
      | .error e => .inr (.ok (a.failedWith .failed (some "output_schema_error")
          "step output failed schema validation"
          ("schema_id=" ++ a.step.outputSchemaId.name ++ " validation error: " ++ e.text)))
      | .ok validated => .inr (.ok
          { stepId := a.step.stepId
            status := .succeeded
            outputs := validated
            evidenceIds := output.evidenceIds
            errorCode := none
            message := ""
            detail := ""
            attempts := a.attempts
            toolCallsConsumed := a.attempts * a.corpora })

/-- The outcome of the attempt that a step is about to make. -/
def Attempting.outcome (a : Attempting) : Except PyException TypedStepOutput :=
  runToolWithTimeout a.step (tools.attempt a.step a.inputs a.attempts)

/-- The next access of a running step to the budget or to its Tool. -/
def stepTask (completed : List StepResult) : StepTask → SharedBudget → (StepTask ⊕ StepOutcome) × SharedBudget
  | .begun stepId, s => (beginStep tools plan completed stepId, s)
  | .reserving a, s =>
    if a.attempts < a.maxAttempts then
      if ((s.used + a.corpora : Nat) : Int) > plan.maxToolCalls then (.inr (.ok a.budgetExhausted), s)
      else (.inl (.calling { a with attempts := a.attempts + 1 }), { s with used := s.used + a.corpora })
    else (.inr (.ok a.exhausted), s)
  | .calling a, s =>
    (afterAttempt a (a.outcome tools),
      { s with calls := s.calls ++ [⟨a.step, a.attempts, a.outcome tools⟩] })

/-- `_execute_single_step` on the thread pool of a layer. -/
def stepWork (completed : List StepResult) :
    ForkJoin.Work String SharedBudget StepTask StepOutcome where
  first := .begun
  step := stepTask tools plan completed

end Steps

section Layers

/-- A step that raised anything but a `PlanExecutionError`. -/
def unexpectedError (stepId : String) (e : PyException) : StepResult :=
  .unsuccessful stepId .failed (some "unexpected_error") "an unexpected error occurred" e.described 0 0

/-- The statuses that are listed as limitations. -/
def StepStatus.IsLimitation (status : StepStatus) : Prop :=
  status = .failed ∨ status = .timedOut ∨ status = .skippedDependency ∨ status = .budgetExhausted

instance (status : StepStatus) : Decidable status.IsLimitation :=
  inferInstanceAs (Decidable (_ ∨ _))

/-- `f"step {step_id}: {result.status.value}"`. -/
def limitation (stepId : String) (r : StepResult) : List String :=
  if r.status.IsLimitation then ["step " ++ stepId ++ ": " ++ r.status.value] else []

/-- The result of a future. -/
def settle (stepId : String) : StepOutcome → StepOutcome
  | .ok r => .ok r
  | .error e => if e.IsInstance .planExecutionError then .error e else .ok (unexpectedError stepId e)

/-- The loop over `as_completed`: the results of a layer and the limitations they add. -/
def collectLayer (outcome : String → StepOutcome) :
    List String → Except PyException (List StepResult × List String)
  | [] => .ok ([], [])
  | stepId :: rest => do
    let result ← settle stepId (outcome stepId)
    let (results, limitations) ← collectLayer outcome rest
    pure (result :: results, limitation stepId result ++ limitations)

end Layers

def buildTopologicalLayers (plan : QueryPlan) : List (List String) :=
  Layering.layers PlanStep.stepId PlanStep.allDependencyIds plan.steps

def orderedSteps (plan : QueryPlan) (results : List StepResult) : List StepResult :=
  plan.steps.filterMap fun step => resultOf results step.stepId

/-- The loop over the evidence ids of the succeeded steps. -/
def collectEvidence : List String → List String → List String
  | collected, [] => collected
  | collected, id :: rest =>
    collectEvidence (if id ∈ collected then collected else collected ++ [id]) rest

def succeededEvidence (steps : List StepResult) : List String :=
  (steps.filter fun r => decide (r.status = .succeeded)).flatMap (·.evidenceIds)

def buildResult (plan : QueryPlan) (results : List StepResult) (anyToolLaunched : Bool)
    (limitations : List String) (used : Nat) : Except PyException PlanExecutionResult :=
  let steps := orderedSteps plan results
  let evidenceIds := collectEvidence [] (succeededEvidence steps)
  if evidenceIds = [] then
    .error (.planExecutionError "no step produced usable evidence" "no_usable_evidence" "")
  else
    .ok
      { planId := plan.planId
        accepted := true
        executed := anyToolLaunched
        degraded := steps.any fun r => decide (r.status ≠ .succeeded)
        steps := steps
        toolCallsUsed := used
        evidenceIds := evidenceIds
        limitations := limitations }

/-- The state of `execute`. `submitted` lists the steps handed to a thread pool so far. -/
structure PlanRun where
  layers : List (List String)
  shared : SharedBudget
  batch : Option (ForkJoin.Batch String StepTask StepOutcome)
  results : List StepResult
  anyToolLaunched : Bool
  limitations : List String
  submitted : List String
  outcome : Option (Except PyException PlanExecutionResult)

inductive PlanMove where
  | submit
  | work (move : ForkJoin.Move String)
  | join
  deriving DecidableEq, Repr

/-- The checks of `execute` before the first layer. -/
def precheck (plan : QueryPlan) (ctx : SecurityContext) (registry : CorpusRegistry) :
    Except PyException Unit :=
  let validation := PlanValidator.validate plan ctx registry
  if validation.accepted = false then
    .error (.planExecutionError "plan failed pre-execution validation" "plan_rejected"
      ("violations: " ++ listText (validation.violations.map (·.detail))))
  else
    match plan.steps.find? fun step => decide (step.maxToolCalls < step.corpora) with
    | some step =>
      .error (.planExecutionError "plan contains a step whose budget is less than its corpus count"
        "budget_insufficient_for_corpora"
        ("step=" ++ step.stepId ++ " max_tool_calls=" ++ toString step.maxToolCalls ++ " corpora=" ++
          toString step.corpora))
    | none =>
      if plan.maxToolCalls < 0 then
        .error (.valueError ("total must be >= 0, got " ++ toString plan.maxToolCalls))
      else .ok ()

/-- `execute` before its first layer. -/
def startExecution (plan : QueryPlan) (ctx : SecurityContext) (registry : CorpusRegistry) : PlanRun where
  layers := buildTopologicalLayers plan
  shared := ⟨0, []⟩
  batch := none
  results := []
  anyToolLaunched := false
  limitations := []
  submitted := []
  outcome := match precheck plan ctx registry with
    | .error e => some (.error e)
    | .ok () => none

def outcomeOf (b : ForkJoin.Batch String StepTask StepOutcome) (stepId : String) : StepOutcome :=
  match b.task stepId with
  | .finished r => r
  | _ => .error (.valueError "not finished")

/-- The end of `_execute_layer` and of the loop body around it. -/
def PlanRun.join (s : PlanRun) (b : ForkJoin.Batch String StepTask StepOutcome) : PlanRun :=
  match collectLayer (outcomeOf b) b.reported with
  | .error e => { s with batch := none, outcome := some (.error e) }
  | .ok (results, limitations) =>
    { s with
      batch := none
      results := results.foldl (Table.upsert (·.stepId)) s.results
      anyToolLaunched := s.anyToolLaunched || results.any fun r => decide (r.toolCallsConsumed > 0)
      limitations := s.limitations ++ limitations }

/-- One move of `execute`: the next layer is submitted or the result built, a step of the
layer proceeds or is reported, or the layer is joined. -/
def executeStep (tools : Tools) (concurrency : Int) (plan : QueryPlan) : Transition PlanRun PlanMove :=
  fun s move =>
    match s.outcome, s.batch, move with
    | none, none, .submit =>
      match s.layers with
      | [] => some { s with
          outcome := some (buildResult plan s.results s.anyToolLaunched s.limitations s.shared.used) }
      | layer :: rest =>
        if min concurrency layer.length ≤ 0 then
          some { s with outcome := some (.error (.valueError "max_workers must be greater than 0")) }
        else some { s with
          layers := rest
          batch := some (.submit layer)
          submitted := s.submitted ++ layer }
    | none, some b, .work move =>
      (ForkJoin.next (stepWork tools plan s.results) (min concurrency b.keys.length).toNat
        (s.shared, b) move).map fun p => { s with shared := p.1, batch := some p.2 }
    | none, some b, .join => if b.Complete then some (s.join b) else none
    | _, _, _ => none

namespace Sample

def step (stepId : String) (dependsOnStepIds : List String) : PlanStep where
  stepId := stepId
  stepType := .retrieve
  dependsOnStepIds := dependsOnStepIds
  optionalDependsOnStepIds := []
  targetCorpusIds := ["policies"]
  capabilityId := "vector_search"
  query := some "travel"
  queryTemplate := none
  inputBindings := []
  outputSchemaId := .entity
  maxToolCalls := 1
  timeoutSeconds := 30

def plan (steps : List PlanStep) : QueryPlan := ⟨"p", [], steps, 10⟩

/-- Every Tool finds one piece of evidence, but the steps of a list fail. -/
def tools (failing : List String) : Tools where
  get _ _ := .ok ⟨[], fun _ => some .ok, []⟩
  attempt step _ _ :=
    if step.stepId ∈ failing then .raised (.valueError "no match") else .returned ⟨[], [step.stepId]⟩

def caller : SecurityContext where
  requestId := "r"
  sessionId := "s"
  tenantId := "acme"
  userId := "ann"
  roles := []
  groups := []
  allowedSecurityLevels := []
  allowedCorpusIds := none
  policyVersion := "1"
  isAdmin := false
  permissions := []

def registry : CorpusRegistry := fun _ _ => true

/-- The moves of a layer whose steps run one after the other and whose reports come in some
order. -/
def runLayer (stepIds order : List String) : List PlanMove :=
  [.submit] ++
    (stepIds.flatMap fun stepId => [.work .start] ++ List.replicate 3 (.work (.advance stepId))) ++
    (order.map fun stepId => .work (.report stepId)) ++ [.join]

end Sample

end Planner

end AgenticRag
