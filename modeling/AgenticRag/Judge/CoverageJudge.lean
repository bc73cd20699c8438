import AgenticRag.Judge.ClaimEvidenceVerifier

/-!
# The coverage judge

`judge/deterministic_coverage_judge.py` and the two functions of `judge/models.py` that
make a verdict of the coverages. The judge of the facts and the verifier of the claims
compare texts in the same way, and draw the line of full support differently.
-/

namespace AgenticRag

section Verdict

def deriveOverallStatus (requiredCoverages : List FactCoverage) : OverallStatus :=
  let statuses := requiredCoverages.map (·.status)
  if requiredCoverages = [] then .sufficient
  else if .policyBlocked ∈ statuses then .policyBlocked
  else if .ambiguous ∈ statuses then .ambiguous
  else if .contradicted ∈ statuses then .contradicted
  else if ∀ status ∈ statuses, status = .supported then .sufficient
  else if .supported ∈ statuses then .partiallySufficient
  else .insufficient

def isRequired (requiredFactIds : Option (List String)) (coverage : FactCoverage) : Bool :=
  match requiredFactIds with
  | none => coverage.required
  | some ids => decide (coverage.factId ∈ ids)

/-- The coverages the overall status is derived from; without a required one these are
all coverages. -/
def weighedCoverages (coverages : List FactCoverage) (requiredFactIds : Option (List String)) :
    List FactCoverage :=
  let required := coverages.filter (isRequired requiredFactIds)
  if required = [] then coverages else required

def buildSufficiencyResult (coverages : List FactCoverage) (requiredFactIds : Option (List String)) :
    SufficiencyResult :=
  let overall := deriveOverallStatus (weighedCoverages coverages requiredFactIds)
  let idsOf (keep : FactStatus → Bool) : List String :=
    (coverages.filter fun coverage => keep coverage.status).map (·.factId)
  { overallStatus := overall
    factCoverage := coverages
    coveredFactIds := idsOf fun status => decide (status = .supported)
    missingFactIds := idsOf fun status => decide (status = .missing ∨ status = .notRetrievable)
    contradictedFactIds := idsOf fun status => decide (status = .contradicted)
    canContinueRetrieval := decide (overall = .partiallySufficient ∨ overall = .insufficient) &&
      coverages.any fun coverage =>
        decide (coverage.status = .missing ∨ coverage.status = .partiallySupported)
    shouldAskClarification := decide (overall = .ambiguous)
    shouldAbstain := decide (overall = .insufficient)
    nextQueries := coverages.flatMap (·.nextQueries)
    targetCorpusIds := coverages.flatMap (·.targetCorpusIds) }

end Verdict

namespace DeterministicCoverageJudge

def hasNegationNear (text : String) (matched : List String) : Bool :=
  DeterministicClaimEvidenceVerifier.hasNegationNear text matched

/-- What `_judge_fact` remembers of the evidence it has seen. -/
structure Scan where
  bestMatched : Nat
  bestEvidenceIds : List String
  contradiction : Bool

def Scan.look (factTokens : List String) (scan : Scan) (ev : Evidence) : Scan :=
  let matched := factTokens.filter fun token => decide (token ∈ tokenize ev.text)
  if matched = [] then scan
  else
    { bestMatched := if scan.bestMatched < matched.length then matched.length else scan.bestMatched
      bestEvidenceIds :=
        if scan.bestMatched < matched.length then [ev.evidenceId] else scan.bestEvidenceIds
      contradiction := hasNegationNear ev.text matched || scan.contradiction }

def Scan.over (factTokens : List String) (evidence : List Evidence) : Scan :=
  evidence.foldl (Scan.look factTokens) ⟨0, [], false⟩

/-- The status of a fact with `size` distinct tokens. -/
def statusOf (size : Nat) (scan : Scan) (evidence : List Evidence) : FactStatus :=
  if scan.contradiction then .contradicted
  else if scan.bestMatched = 0 then if evidence = [] then .notRetrievable else .missing
  else if size ≤ scan.bestMatched * 2 then .supported
  else .partiallySupported

def judgeFact (fact : Judge.RequiredFact) (evidence : List Evidence) : FactCoverage :=
  let factTokens := (tokenize fact.description).eraseDups
  if factTokens = [] then
    { factId := fact.factId
      status := .ambiguous
      required := fact.required
      evidenceIds := []
      explanation := "fact had no matchable tokens (non-latin or all stopwords)"
      missingInformation := none
      nextQueries := []
      targetCorpusIds := [] }
  else
    let scan := Scan.over factTokens evidence
    let status := statusOf factTokens.length scan evidence
    { factId := fact.factId
      status := status
      required := fact.required
      evidenceIds := scan.bestEvidenceIds
      explanation := toString scan.bestEvidenceIds.length ++ " evidence(s) matched " ++
        toString scan.bestMatched ++ "/" ++ toString factTokens.length ++ " tokens"
      missingInformation := if status = .missing then some fact.description else none
      nextQueries := if status = .missing ∨ status = .partiallySupported then [fact.description] else []
      targetCorpusIds := [] }

def judge (requiredFacts : List Judge.RequiredFact) (evidence : List Evidence) : SufficiencyResult :=
  buildSufficiencyResult (requiredFacts.map fun fact => judgeFact fact evidence)
    (some ((requiredFacts.filter (·.required)).map (·.factId)))

end DeterministicCoverageJudge

end AgenticRag
