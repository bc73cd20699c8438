import AgenticRag.Answer.Envelope

/-!
# Building envelopes

`answer/builder.py`.
-/

namespace AgenticRag

def abstainMessage : String :=
  "I cannot answer this reliably: no authorized evidence was found for your question."

def checkEvidenceBinding (ctx : SecurityContext) (corpusId : String) : List Evidence → Except ChatError Unit
  | [] => .ok ()
  | ev :: rest =>
    if ev.tenantId ≠ ctx.tenantId then
      .error (.tenantBinding ("Evidence " ++ quoted ev.evidenceId ++ " belongs to tenant " ++
        quoted ev.tenantId ++ ", not " ++ quoted ctx.tenantId))
    else if ev.corpusId ≠ corpusId then
      .error (.tenantBinding ("Evidence " ++ quoted ev.evidenceId ++ " belongs to corpus " ++
        quoted ev.corpusId ++ ", not " ++ quoted corpusId))
    else checkEvidenceBinding ctx corpusId rest

def checkTenantBinding (ctx : SecurityContext) (result : FastPathResult) : Except ChatError Unit :=
  if ctx.tenantId ≠ result.tenantId then
    .error (.tenantBinding ("SecurityContext tenant " ++ quoted ctx.tenantId ++
      " does not match FastPathResult tenant " ++ quoted result.tenantId))
  else checkEvidenceBinding ctx result.corpusId result.evidence

/-- The binding of merged evidence to the contributing corpora. -/
def checkCorporaBinding (ctx : SecurityContext) (corporaUsed : List String) :
    List Evidence → Except ChatError Unit
  | [] => .ok ()
  | ev :: rest =>
    if ev.tenantId ≠ ctx.tenantId then
      .error (.tenantBinding ("Evidence " ++ quoted ev.evidenceId ++ " belongs to tenant " ++
        quoted ev.tenantId ++ ", not " ++ quoted ctx.tenantId))
    else if ev.corpusId ∉ corporaUsed then
      .error (.tenantBinding ("Evidence " ++ quoted ev.evidenceId ++ " belongs to corpus " ++
        quoted ev.corpusId ++ ", not in the contributing set " ++ quotedList corporaUsed))
    else checkCorporaBinding ctx corporaUsed rest

def renderAnswerFromClaims (claims : List Claim) : String :=
  if claims = [] then "No supported claim could be established from the available evidence."
  else String.intercalate "\n" (claims.map (·.text))

/-- When a source is in force, for the user. -/
def SourceRef.window (src : SourceRef) : String :=
  "effective " ++ (src.effectiveFrom.map (·.isoformat)).getD "unknown" ++ " → " ++
    (src.effectiveTo.map (·.isoformat)).getD "open-ended"

/-- `render_conflict_answer`; of several snapshots with one id the last one counts. -/
def renderConflictAnswer (report : ConflictReport) (evidence : List Evidence) : String :=
  String.intercalate "\n"
    (("The available evidence contradicts itself on this question. " ++
        "Both positions are presented below; no single answer is asserted.") ::
      (report.findings.filter fun finding => !finding.resolvable).flatMap fun finding =>
        "" :: ("Conflict type: " ++ finding.conflictType.value ++ ".") ::
          finding.sources.map fun src =>
            let snap := evidence.reverse.find? fun ev => decide (ev.evidenceId = src.evidenceId)
            "- Source " ++ src.evidenceId ++ " (document " ++ src.documentId ++ ", version " ++
              src.documentVersion ++ ", " ++ src.window ++ "): " ++
              (snap.map (·.text)).getD "(evidence text unavailable)")

def mapCoverageToCompleteness : OverallStatus → Completeness × Confidence
  | .sufficient => (.complete, .high)
  | .partiallySufficient => (.partly, .medium)
  | .ambiguous => (.partly, .low)
  | .contradicted => (.conflicted, .low)
  | .insufficient => (.insufficient, .low)
  | .policyBlocked => (.insufficient, .low)

/-- The missing information of a verdict, where there is any. -/
def SufficiencyResult.missingAspects (coverage : SufficiencyResult) : List String :=
  coverage.factCoverage.filterMap fun fact => fact.missingInformation.filter fun text => decide (text ≠ "")

/-- The counters of the iteration loop. -/
structure Accounting where
  gapRounds : Int
  iterations : Int
  toolCalls : Int
  deriving DecidableEq, Repr

/-- The refusal that `_build_refusal` and `conservative_refusal` construct. -/
def refusal (ctx : SecurityContext) (corporaUsed : List String) (coverage : Option SufficiencyResult)
    (accounting : Accounting) : AnswerEnvelope where
  requestId := ctx.requestId
  sessionId := ctx.sessionId
  answerMarkdown := abstainMessage
  claims := []
  evidence := []
  citations := []
  completeness := .insufficient
  confidence := .low
  missingAspects := (coverage.map (·.missingAspects)).getD []
  limitations := []
  corporaUsed := corporaUsed
  iterations := accounting.iterations
  toolCalls := accounting.toolCalls
  gapRounds := accounting.gapRounds
  coverage := coverage
  conflictReport := none
  stopReason := "no_evidence"
  abstained := true

def buildRefusal (ctx : SecurityContext) (corporaUsed : List String) (coverage : Option SufficiencyResult)
    (accounting : Accounting) : Except ChatError AnswerEnvelope :=
  (refusal ctx corporaUsed coverage accounting).lockState

def buildNoEvidenceRefusal (ctx : SecurityContext) (corporaUsed : List String) (accounting : Accounting) :
    Except ChatError AnswerEnvelope :=
  buildRefusal ctx corporaUsed none accounting

def conservativeRefusal (result : FastPathResult) (ctx : SecurityContext)
    (coverage : Option SufficiencyResult) (accounting : Accounting) : Except ChatError AnswerEnvelope := do
  checkTenantBinding ctx result
  if result.sufficiency ≠ .insufficient ∧ coverage = none then
    throw (.answerEnvelope "conservative_refusal requires an insufficient FastPathResult")
  (refusal ctx [result.corpusId] coverage accounting).lockState

/-- What an envelope is built from, besides the evidence and the claims. -/
structure AnswerParts where
  coverage : Option SufficiencyResult
  claimVerification : Option ClaimVerificationResult
  accounting : Accounting
  limitations : List String
  partialRetrieval : Bool
  stopReason : Option String
  abstainStopReason : String
  corporaUsed : List String
  conflictReport : Option ConflictReport

namespace AnswerParts

variable (parts : AnswerParts)

/-- Completeness and confidence before the conflict report is looked at. -/
def judged (verification : ClaimVerificationResult) : Completeness × Confidence :=
  match parts.coverage with
  | some coverage =>
    if (mapCoverageToCompleteness coverage.overallStatus).1 = .complete ∧
        (verification.keptClaims = [] ∨ verification.anyCriticalUnsupported = true) then
      (.partly, .low)
    else mapCoverageToCompleteness coverage.overallStatus
  | none =>
    if verification.removedClaims ≠ [] ∨ verification.keptClaims = [] then (.partly, .medium)
    else (.complete, .high)

def verdict (verification : ClaimVerificationResult) : Completeness × Confidence :=
  if isContradicted parts.conflictReport then (.conflicted, .low) else parts.judged verification

end AnswerParts

def buildEnvelopeFromEvidence (ctx : SecurityContext) (evidence : List Evidence) (claims : List Claim)
    (parts : AnswerParts) : Except ChatError AnswerEnvelope :=
  let verification := parts.claimVerification.getD (verifyClaims claims (evidence.map (·.evidenceId)))
  let (completeness, confidence) := parts.verdict verification
  if completeness = .insufficient then
    buildRefusal ctx parts.corporaUsed parts.coverage parts.accounting
  else
    let (completeness, confidence) :=
      if parts.partialRetrieval ∧ completeness = .complete then (.partly, .medium)
      else (completeness, confidence)
    let contradicted := parts.conflictReport.filter fun report =>
      decide (report.conflictStatus = .contradicted)
    AnswerEnvelope.lockState
      { requestId := ctx.requestId
        sessionId := ctx.sessionId
        answerMarkdown := match contradicted with
          | some report => renderConflictAnswer report evidence
          | none => renderAnswerFromClaims verification.keptClaims
        claims := if contradicted.isSome then [] else verification.keptClaims
        evidence := evidence
        citations := renderCitations evidence
        completeness := completeness
        confidence := confidence
        missingAspects := (parts.coverage.map (·.missingAspects)).getD []
        limitations := parts.limitations
        corporaUsed := parts.corporaUsed
        iterations := parts.accounting.iterations
        toolCalls := parts.accounting.toolCalls
        gapRounds := parts.accounting.gapRounds
        coverage := parts.coverage
        conflictReport := parts.conflictReport
        stopReason := parts.stopReason.getD parts.abstainStopReason
        abstained := false }

/-- `build_answer_envelope`; `evidence` overrides that of the fast path. -/
def buildAnswerEnvelope (result : FastPathResult) (ctx : SecurityContext) (claims : List Claim)
    (coverage : Option SufficiencyResult) (claimVerification : Option ClaimVerificationResult)
    (accounting : Accounting) (evidence : Option (List Evidence)) (stopReason : Option String)
    (conflictReport : Option ConflictReport) : Except ChatError AnswerEnvelope := do
  checkTenantBinding ctx result
  if result.sufficiency = .insufficient then conservativeRefusal result ctx coverage accounting
  else
    checkEvidenceBinding ctx result.corpusId (evidence.getD result.evidence)
    buildEnvelopeFromEvidence ctx (evidence.getD result.evidence) claims
      { coverage := coverage
        claimVerification := claimVerification
        accounting := accounting
        limitations := []
        partialRetrieval := false
        stopReason := stopReason
        abstainStopReason := result.stopReason
        corporaUsed := [result.corpusId]
        conflictReport := conflictReport }

/-- `build_multi_corpus_envelope`, as the service calls it. -/
def buildMultiCorpusEnvelope (ctx : SecurityContext) (evidence : List Evidence) (corporaUsed : List String)
    (claims : List Claim) (coverage : Option SufficiencyResult) (accounting : Accounting)
    (limitations : List String) (partialRetrieval : Bool) (stopReason : Option String)
    (conflictReport : Option ConflictReport) : Except ChatError AnswerEnvelope := do
  checkCorporaBinding ctx corporaUsed evidence
  if evidence = [] then buildRefusal ctx corporaUsed coverage accounting
  else
    buildEnvelopeFromEvidence ctx evidence claims
      { coverage := coverage
        claimVerification := none
        accounting := accounting
        limitations := limitations
        partialRetrieval := partialRetrieval
        stopReason := stopReason
        abstainStopReason := "no_evidence"
        corporaUsed := corporaUsed
        conflictReport := conflictReport }

section Facts

variable {ctx : SecurityContext} {corporaUsed : List String} {coverage : Option SufficiencyResult}
  {accounting : Accounting}

/-- A refusal is always well formed. -/
@[simp] theorem refusal_lockState :
    (refusal ctx corporaUsed coverage accounting).lockState =
      .ok (refusal ctx corporaUsed coverage accounting) := by
  simp [refusal, AnswerEnvelope.lockState, AnswerEnvelope.checkState, isContradicted, Except.map, pure,
    Except.pure]

@[simp] theorem buildRefusal_eq :
    buildRefusal ctx corporaUsed coverage accounting = .ok (refusal ctx corporaUsed coverage accounting) :=
  refusal_lockState

@[simp] theorem buildNoEvidenceRefusal_eq :
    buildNoEvidenceRefusal ctx corporaUsed accounting = .ok (refusal ctx corporaUsed none accounting) :=
  refusal_lockState

/-- Without a verdict that nothing can be answered, the completeness is not that of a refusal. -/
theorem AnswerParts.verdict_answers {parts : AnswerParts} (verification : ClaimVerificationResult)
    (h : ∀ coverage ∈ parts.coverage,
      (mapCoverageToCompleteness coverage.overallStatus).1 ≠ .insufficient) :
    (parts.verdict verification).1 ≠ .insufficient := by
  unfold AnswerParts.verdict
  split
  · simp
  · unfold AnswerParts.judged
    split
    · rename_i coverage hcoverage
      split
      · simp
      · exact h coverage hcoverage
    · split <;> simp

/-- An envelope with such a completeness answers. -/
theorem buildEnvelopeFromEvidence_answers {evidence : List Evidence} {claims : List Claim}
    {parts : AnswerParts} {env : AnswerEnvelope}
    (hverdict : ∀ verification, (parts.verdict verification).1 ≠ .insufficient)
    (h : buildEnvelopeFromEvidence ctx evidence claims parts = .ok env) : env.abstained = false := by
  unfold buildEnvelopeFromEvidence at h
  simp only [hverdict, if_false] at h
  rw [AnswerEnvelope.lockState_ok h]

end Facts

end AgenticRag
