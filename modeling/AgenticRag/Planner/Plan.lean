import AgenticRag.Domain

/-!
# Query plans

`planner/models.py` with the Python exceptions and values that the planner handles. The
fields that neither the validator nor the executor reads are left out.
-/

namespace AgenticRag

namespace Planner

/-- The classes that the planner names, and any other class. -/
inductive ExceptionClass where
  | corpusNotDiscoverableError
  | parentAuthorizationError
  | emptyAuthorizationScopeError
  | tenantBindingError
  | planExecutionError
  | bindingSyntaxError
  | valueError
  | typeError
  | keyError
  | timeoutError
  | exception
  | other (name : String)
  deriving DecidableEq, Repr

def ExceptionClass.name : ExceptionClass → String
  | .corpusNotDiscoverableError => "CorpusNotDiscoverableError"
  | .parentAuthorizationError => "ParentAuthorizationError"
  | .emptyAuthorizationScopeError => "EmptyAuthorizationScopeError"
  | .tenantBindingError => "TenantBindingError"
  | .planExecutionError => "PlanExecutionError"
  | .bindingSyntaxError => "BindingSyntaxError"
  | .valueError => "ValueError"
  | .typeError => "TypeError"
  | .keyError => "KeyError"
  | .timeoutError => "TimeoutError"
  | .exception => "Exception"
  | .other name => name

/-- An instance of `Exception`: its type, the classes the type derives from, and its text.
The last two fields are those of a `PlanExecutionError`. -/
structure PyException where
  type : ExceptionClass
  bases : List ExceptionClass
  text : String
  errorCode : String
  detail : String
  deriving DecidableEq, Repr

namespace PyException

/-- `isinstance(exc, cls)`. -/
def IsInstance (e : PyException) (cls : ExceptionClass) : Prop := cls = e.type ∨ cls ∈ e.bases

instance (e : PyException) (cls : ExceptionClass) : Decidable (e.IsInstance cls) :=
  inferInstanceAs (Decidable (_ ∨ _))

/-- The exception is caught by `except classes`. -/
def CaughtBy (e : PyException) (classes : List ExceptionClass) : Prop :=
  ∃ cls ∈ classes, e.IsInstance cls

instance (e : PyException) (classes : List ExceptionClass) : Decidable (e.CaughtBy classes) :=
  inferInstanceAs (Decidable (∃ cls ∈ classes, _))

def valueError (text : String) : PyException := ⟨.valueError, [.exception], text, "", ""⟩

def bindingSyntaxError (text : String) : PyException :=
  ⟨.bindingSyntaxError, [.valueError, .exception], text, "", ""⟩

def timeoutError (text : String) : PyException :=
  ⟨.timeoutError, [.other "OSError", .exception], text, "", ""⟩

def planExecutionError (message errorCode detail : String) : PyException :=
  ⟨.planExecutionError, [.exception], message, errorCode, detail⟩

/-- `f"{type(exc).__name__}: {exc}"`. -/
def described (e : PyException) : String := e.type.name ++ ": " ++ e.text

end PyException

/-- `f"{items}"` of a list of strings; each string is quoted as it stands. -/
def listText (items : List String) : String :=
  "[" ++ String.intercalate ", " (items.map fun item => "'" ++ item ++ "'") ++ "]"

/-- A Python object, told apart by what it is and shown by `str`. -/
inductive Value where
  | none
  | str (text : String)
  | object (identity : Nat) (text : String)
  deriving DecidableEq, Repr

/-- `str(value)`. -/
def Value.text : Value → String
  | .none => "None"
  | .str text => text
  | .object _ text => text

/-- A dictionary with string keys, in insertion order. -/
abbrev Dict (α : Type) := List (String × α)

inductive StepType where
  | retrieve
  | extract
  | compare
  | synthesizeIntermediate
  deriving DecidableEq, Repr

inductive OutputSchemaId where
  | entity
  | spec
  | comparison
  | intermediate
  deriving DecidableEq, Repr

def OutputSchemaId.name : OutputSchemaId → String
  | .entity => "entity"
  | .spec => "spec"
  | .comparison => "comparison"
  | .intermediate => "intermediate"

structure PlanStep where
  stepId : String
  stepType : StepType
  dependsOnStepIds : List String
  optionalDependsOnStepIds : List String
  targetCorpusIds : List String
  capabilityId : String
  query : Option String
  queryTemplate : Option String
  inputBindings : Dict String
  outputSchemaId : OutputSchemaId
  maxToolCalls : Int
  timeoutSeconds : Int
  deriving DecidableEq, Repr

/-- `all_dependency_ids`: each id once, where it first appears. -/
def PlanStep.allDependencyIds (step : PlanStep) : List String :=
  (step.dependsOnStepIds ++ step.optionalDependsOnStepIds).eraseDups

structure RequiredFact where
  factId : String
  description : String
  deriving DecidableEq, Repr

structure QueryPlan where
  planId : String
  requiredFacts : List RequiredFact
  steps : List PlanStep
  maxToolCalls : Int
  deriving DecidableEq, Repr

def QueryPlan.stepIds (plan : QueryPlan) : List String := plan.steps.map (·.stepId)

/-- `step_map[step_id]`; the last step with the id counts. -/
def QueryPlan.stepNamed (plan : QueryPlan) (stepId : String) : Option PlanStep :=
  plan.steps.reverse.find? fun step => decide (step.stepId = stepId)

end Planner

end AgenticRag
