import AgenticRag.Evidence.Models

/-!
# Coverage verdicts and what follows from them

`judge/models.py`, `judge/gap_planner.py` and `judge/stop_policy.py`.
-/

namespace AgenticRag

inductive OverallStatus where
  | sufficient
  | partiallySufficient
  | insufficient
  | contradicted
  | ambiguous
  | policyBlocked
  deriving DecidableEq, Repr

inductive FactStatus where
  | supported
  | partiallySupported
  | missing
  | contradicted
  | ambiguous
  | policyBlocked
  | notRetrievable
  deriving DecidableEq, Repr

structure Judge.RequiredFact where
  factId : String
  description : String
  required : Bool
  deriving DecidableEq, Repr

structure FactCoverage where
  factId : String
  status : FactStatus
  required : Bool
  evidenceIds : List String
  explanation : String
  missingInformation : Option String
  nextQueries : List String
  targetCorpusIds : List String
  deriving DecidableEq, Repr

structure SufficiencyResult where
  overallStatus : OverallStatus
  factCoverage : List FactCoverage
  coveredFactIds : List String
  missingFactIds : List String
  contradictedFactIds : List String
  canContinueRetrieval : Bool
  shouldAskClarification : Bool
  shouldAbstain : Bool
  nextQueries : List String
  targetCorpusIds : List String
  deriving DecidableEq, Repr

namespace SufficiencyResult

/-- A verdict without facts, the other fields at their defaults. -/
def verdict (overallStatus : OverallStatus) (shouldAbstain : Bool) : SufficiencyResult where
  overallStatus := overallStatus
  factCoverage := []
  coveredFactIds := []
  missingFactIds := []
  contradictedFactIds := []
  canContinueRetrieval := false
  shouldAskClarification := false
  shouldAbstain := shouldAbstain
  nextQueries := []
  targetCorpusIds := []

/-- The verdict of the service where nothing can be answered. -/
def abstaining : SufficiencyResult := verdict .insufficient true

def contradictedCoverage : SufficiencyResult := verdict .contradicted false

end SufficiencyResult

namespace GapPlanner

/-- `a or b` of strings: the first one unless it is empty. -/
def orElse (text : Option String) (default : String) : String :=
  match text with
  | some text => if text = "" then default else text
  | none => default

/-- The query for a fact that is not covered yet. -/
def candidate (coverage : FactCoverage) : String :=
  match coverage.nextQueries with
  | query :: _ => query
  | [] => orElse coverage.missingInformation coverage.factId

/-- The queries of `plan`: one for each fact that is missing or partially supported, unless
it was executed or planned before. -/
def queries : List String → List FactCoverage → List String
  | _, [] => []
  | prior, coverage :: rest =>
    if coverage.status = .missing ∨ coverage.status = .partiallySupported then
      if candidate coverage ≠ "" ∧ candidate coverage ∉ prior then
        candidate coverage :: queries (candidate coverage :: prior) rest
      else queries prior rest
    else queries prior rest

end GapPlanner

inductive StopReason where
  | sufficient
  | budgetExhausted
  | noNewEvidence
  | maxRounds
  | allSourcesExhausted
  | toolUnavailable
  | goOn
  deriving DecidableEq, Repr

def StopReason.value : StopReason → String
  | .sufficient => "sufficient"
  | .budgetExhausted => "budget_exhausted"
  | .noNewEvidence => "no_new_evidence"
  | .maxRounds => "max_rounds"
  | .allSourcesExhausted => "all_sources_exhausted"
  | .toolUnavailable => "tool_unavailable"
  | .goOn => "continue"

structure StopDecision where
  shouldStop : Bool
  reason : StopReason
  deriving DecidableEq, Repr

/-- `StopPolicy`: the number of rounds without a gain. -/
structure StopPolicy where
  noGain : Nat
  deriving DecidableEq, Repr

namespace StopPolicy

/-- `decide`; a gain is a new evidence id, a newly covered fact or new content. -/
def decide (policy : StopPolicy) (round maxRounds : Int) (overallStatus : OverallStatus)
    (canContinue gained judgeOk : Bool) (budgetRemaining : Rat) : StopDecision × StopPolicy :=
  if judgeOk = false then (⟨true, .toolUnavailable⟩, policy)
  else if budgetRemaining ≤ 0 then (⟨true, .budgetExhausted⟩, policy)
  else if overallStatus = .sufficient then (⟨true, .sufficient⟩, policy)
  else if canContinue = false then (⟨true, .allSourcesExhausted⟩, policy)
  else
    let policy : StopPolicy := if gained then ⟨0⟩ else ⟨policy.noGain + 1⟩
    if policy.noGain ≥ 2 then (⟨true, .noNewEvidence⟩, policy)
    else if round + 1 ≥ maxRounds then (⟨true, .maxRounds⟩, policy)
    else (⟨false, .goOn⟩, policy)

end StopPolicy

end AgenticRag
