import AgenticRag.Judge.Models

/-!
# Answer envelopes

`answer/envelope.py` with the validation of an envelope, `answer/verification.py`,
`answer/citations.py` and `answer/builder.py`.
-/

namespace AgenticRag

/-- What the retrieval and answer layers raise. -/
inductive ChatError where
  | corpusNotDiscoverable (text : String)
  | parentAuthorization (text : String)
  | emptyAuthorizationScope (text : String)
  | tenantBinding (text : String)
  | retrievalBackend (cause text : String)
  | transport (type text : String)
  | fastPathBackend (text : String)
  | modelInvocation (text : String)
  | judge (timeout : Bool) (text : String)
  | resumeAuth (reason : String)
  | checkpointIdentityConflict (runId : String)
  | answerEnvelope (text : String)
  | chatService (text : String)
  | valueError (text : String)
  | assertion (text : String)
  | other (type text : String)
  deriving DecidableEq, Repr

namespace ChatError

/-- `str(exc)`. -/
def text : ChatError → String
  | corpusNotDiscoverable text | parentAuthorization text | emptyAuthorizationScope text
  | tenantBinding text | fastPathBackend text | modelInvocation text | answerEnvelope text
  | chatService text | valueError text | assertion text => text
  | retrievalBackend _ text | transport _ text | judge _ text | other _ text => text
  | resumeAuth reason => reason
  | checkpointIdentityConflict runId =>
    "checkpoint run_id already bound to a different identity: " ++ runId

end ChatError

/-- `f"{text!r}"`, quoted as it stands. -/
def quoted (text : String) : String := "'" ++ text ++ "'"

/-- `f"{texts}"` of a list or tuple of strings. -/
def quotedList (texts : List String) : String :=
  "[" ++ String.intercalate ", " (texts.map quoted) ++ "]"

inductive ClaimImportance where
  | critical
  | supporting
  | minor
  deriving DecidableEq, Repr

inductive ClaimSupport where
  | entailed
  | partiallyEntailed
  | contradicted
  | unsupported
  deriving DecidableEq, Repr

structure Claim where
  claimId : String
  text : String
  importance : ClaimImportance
  evidenceIds : List String
  supportStatus : ClaimSupport
  deriving DecidableEq, Repr

structure Citation where
  index : Nat
  evidenceId : String
  corpusId : String
  documentId : String
  documentVersion : String
  sectionPath : List String
  pageNumber : Option Int
  sourceUri : String
  textHash : String
  retrievedAt : String
  policyVersion : String
  deriving DecidableEq, Repr

inductive Completeness where
  | complete
  | partly
  | insufficient
  | conflicted
  deriving DecidableEq, Repr

inductive Confidence where
  | high
  | medium
  | low
  deriving DecidableEq, Repr

structure AnswerEnvelope where
  requestId : String
  sessionId : String
  answerMarkdown : String
  claims : List Claim
  evidence : List Evidence
  citations : List Citation
  completeness : Completeness
  confidence : Confidence
  missingAspects : List String
  limitations : List String
  corporaUsed : List String
  iterations : Int
  toolCalls : Int
  gapRounds : Int
  coverage : Option SufficiencyResult
  conflictReport : Option ConflictReport
  stopReason : String
  abstained : Bool
  deriving DecidableEq, Repr

/-- The report says that the evidence contradicts itself. -/
def isContradicted (report : Option ConflictReport) : Prop :=
  report.map (·.conflictStatus) = some .contradicted

instance (report : Option ConflictReport) : Decidable (isContradicted report) :=
  inferInstanceAs (Decidable (_ = _))

namespace AnswerEnvelope

/-- The checks of `_lock_state`. -/
def checkState (env : AnswerEnvelope) : Except ChatError Unit := do
  let known := env.evidence.map (·.evidenceId)
  match env.claims.find? fun claim => decide (∃ id ∈ claim.evidenceIds, id ∉ known) with
  | some claim => throw (.valueError ("claim " ++ quoted claim.claimId ++ " cites unknown evidence ids: " ++
      quotedList (claim.evidenceIds.filter fun id => decide (id ∉ known))))
  | none => pure ()
  match env.citations.find? fun citation => decide (citation.evidenceId ∉ known) with
  | some citation => throw (.valueError ("citation #" ++ toString citation.index ++
      " cites unknown evidence id: " ++ quoted citation.evidenceId))
  | none => pure ()
  if env.abstained then
    if env.claims ≠ [] then throw (.valueError "abstained envelope must carry no claims")
    if env.evidence ≠ [] then throw (.valueError "abstained envelope must carry no evidence")
    if env.completeness ≠ .insufficient then
      throw (.valueError "abstained envelope completeness must be 'insufficient'")
    if env.stopReason ≠ "no_evidence" then
      throw (.valueError "abstained envelope stop_reason must be 'no_evidence'")
  if env.completeness = .insufficient ∧ env.abstained = false then
    throw (.valueError "completeness 'insufficient' requires abstained=True")
  if env.stopReason = "no_evidence" ∧ env.abstained = false then
    throw (.valueError "stop_reason 'no_evidence' requires abstained=True")
  if isContradicted env.conflictReport ∧ env.abstained = false ∧ env.completeness ≠ .conflicted then
    throw (.valueError
      "envelope with a CONTRADICTED conflict_report must have completeness == 'conflicted'")

def lockState (env : AnswerEnvelope) : Except ChatError AnswerEnvelope :=
  env.checkState.map fun _ => env

/-- An envelope that is accepted is returned as it is. -/
theorem lockState_ok {env env' : AnswerEnvelope} (h : env.lockState = .ok env') : env' = env := by
  unfold lockState at h
  cases hchecked : env.checkState with
  | error e => simp [hchecked, Except.map] at h
  | ok checked => simpa [hchecked, Except.map] using h.symm

end AnswerEnvelope

structure ClaimVerificationResult where
  keptClaims : List Claim
  removedClaims : List Claim
  anyCriticalUnsupported : Bool
  deriving DecidableEq, Repr

section Verification

/-- A claim that cites nothing, or something unknown, or is marked as unsupported. -/
def Claim.isUnbound (evidenceIds : List String) (claim : Claim) : Bool :=
  decide (claim.supportStatus = .unsupported ∨ claim.evidenceIds = [] ∨
    ∃ id ∈ claim.evidenceIds, id ∉ evidenceIds)

def Claim.marked (claim : Claim) (status : ClaimSupport) : Claim := { claim with supportStatus := status }

/-- Claims are kept with the support they are given, or removed as unsupported. -/
def partitionClaims (support : Claim → ClaimSupport) (claims : List Claim) : ClaimVerificationResult :=
  let removed := (claims.filter fun claim => decide (support claim = .unsupported)).map (·.marked .unsupported)
  { keptClaims := (claims.filter fun claim => decide (support claim ≠ .unsupported)).map
      fun claim => claim.marked (support claim)
    removedClaims := removed
    anyCriticalUnsupported := removed.any fun claim => decide (claim.importance = .critical) }

/-- `verify_claims`: a kept claim keeps its own status. -/
def verifyClaims (claims : List Claim) (evidenceIds : List String) : ClaimVerificationResult :=
  partitionClaims
    (fun claim => if claim.isUnbound evidenceIds then .unsupported else claim.supportStatus) claims

/-- `DeterministicClaimEvidenceVerifier.verify`; `check` is its comparison of texts. -/
def verifyAgainstEvidence (check : Claim → List Evidence → ClaimSupport) (claims : List Claim)
    (evidence : List Evidence) : ClaimVerificationResult :=
  partitionClaims
    (fun claim =>
      if claim.isUnbound (evidence.map (·.evidenceId)) then .unsupported else check claim evidence) claims

end Verification

/-- `render_citations`, numbered from 1. -/
def renderCitations (evidence : List Evidence) : List Citation :=
  evidence.zipIdx.map fun (ev, position) =>
    { index := position + 1
      evidenceId := ev.evidenceId
      corpusId := ev.corpusId
      documentId := ev.documentId
      documentVersion := ev.documentVersion
      sectionPath := ev.sectionPath
      pageNumber := ev.pageNumber
      sourceUri := ev.sourceUri
      textHash := ev.textHash
      retrievedAt := ev.retrievedAt.isoformat
      policyVersion := ev.policyVersion }

inductive FastPathSufficiency where
  | sufficient
  | insufficient
  deriving DecidableEq, Repr

/-- `FastPathResult`: it is sufficient exactly if it carries evidence, which is what its
validation demands. -/
structure FastPathResult where
  query : String
  corpusId : String
  tenantId : String
  evidence : List Evidence
  deriving DecidableEq, Repr

namespace FastPathResult

def sufficiency (result : FastPathResult) : FastPathSufficiency :=
  if result.evidence = [] then .insufficient else .sufficient

/-- `stop_reason.value`. -/
def stopReason (result : FastPathResult) : String :=
  if result.evidence = [] then "no_evidence" else "evidence_found"

end FastPathResult

end AgenticRag
