import AgenticRag.Services.ChatLoop

/-!
# Resuming a run

`resume_run` of `services/chat_service.py`: the gates, the re-authorization of the gathered
evidence, the recomputation after a revocation and the rest of the loop. The checks and the
recomputation make a plan; what they return early is part of it.
-/

namespace AgenticRag

section Reauthorization

variable (ctx : SecurityContext)

/-- `try: registry.get(corpus_id, ctx)`: whether the corpus is found. -/
def discoverable (corpusId : String) : ChatMethod Bool :=
  Method.tryCatch
    (do
      let _ ← Method.perform (.registryGet corpusId)
      pure true)
    fun _ => pure false

def reauthorizeEvidence (ev : Evidence) : ChatMethod (Bool × String) := do
  if (← discoverable ev.corpusId) = false then pure (false, "corpus_not_discoverable")
  else
    let active ← Method.perform (.getActiveDocument ⟨ev.tenantId, ev.corpusId, ev.documentId⟩)
    pure (reauthorizeAgainst ctx ev active)

def revokedFinding (ev : Evidence) (reason : String) : RevokedFinding :=
  ⟨ev.corpusId, ev.tenantId, ev.documentId, ev.documentVersion,
    "checkpoint evidence revoked during current-policy reauthorization: " ++ reason⟩

/-- The evidence that survives, and the one dropped with a finding. -/
def reauthorizeAll : List Evidence → ChatMethod (List Evidence × List Evidence)
  | [] => pure ([], [])
  | ev :: rest => do
    let (kept, reason) ← reauthorizeEvidence ctx ev
    if kept = true then
      let (surviving, dropped) ← reauthorizeAll rest
      pure (ev :: surviving, dropped)
    else
      Method.perform (.recordFinding (revokedFinding ev reason))
      let (surviving, dropped) ← reauthorizeAll rest
      pure (surviving, ev :: dropped)

end Reauthorization

section Resume

variable (texts : ChatTexts) (ctx : SecurityContext) (runId : String)

/-- `_build_state_from_checkpoint`. -/
def stateFromCheckpoint (ck : RunCheckpoint) (surviving : List Evidence) : IterationState where
  evidenceById := byId surviving
  seenIds := (byId surviving).map (·.evidenceId)
  seenTextHashes := (surviving.map (·.textHash)).eraseDups
  seenDocVersions := (surviving.map fun ev => (ev.documentId, ev.documentVersion)).eraseDups
  priorQueries := ck.priorQueries
  coverage := ck.coverage
  gapRounds := ck.gapRounds
  retrievalCalls := ck.retrievalCalls
  prevCovered := (ck.coverage.map (·.coveredFactIds)).getD []
  finalReason := ck.finalReason
  scope := texts.parseTemporalScope ck.query
  finalReport := ck.finalReport
  finalEvidence :=
    if ck.status = .completed ∧ ck.finalEvidenceIds = [] then []
    else if ck.finalEvidenceIds = [] then byId surviving
    else surviving.filter fun ev => decide (ev.evidenceId ∈ ck.finalEvidenceIds)
  conflictStop := ck.conflictStop
  stopPolicy := ⟨0⟩

/-- The checkpoint arguments of a run that goes on. -/
def RunCheckpoint.args (ck : RunCheckpoint) (runId : String) (firstResult : FastPathResult) : CheckpointArgs where
  runId := runId
  query := ck.query
  corpusId := ck.corpusId
  maxRounds := ck.maxRounds
  required := ck.requiredFacts
  firstResult := firstResult
  saving := true

def RunCheckpoint.run (ck : RunCheckpoint) (runId : String) (firstResult : FastPathResult)
    (corpus : CorpusConfig) : RunArgs :=
  { ck.args runId firstResult with corpus := corpus }

/-- Without evidence the run ends in a refusal for `reason`. -/
def endWithoutEvidence (ck : RunCheckpoint) (firstResult : FastPathResult) (report : Option ConflictReport)
    (reason : String) : ChatMethod Unit := do
  Method.assign fun state => { state with
    finalEvidence := []
    finalReport := report
    coverage := some .abstaining
    finalReason := some reason
    conflictStop := false }
  saveCheckpoint ctx (ck.args runId firstResult) ck.roundIndex
  markDone (ck.args runId firstResult)

/-- What `resume_run` does after its checks: it returns an envelope, finalizes the state, or goes
on with the loop from a round. -/
inductive ResumePlan where
  | returns (env : AnswerEnvelope)
  | finalizes (run : RunArgs)
  | continues (run : RunArgs) (roundIndex : Int)
  deriving DecidableEq, Repr

/-- `mark_run_checkpoint_running` and the cleared state, for a run that was completed. -/
def reopen (status : CheckpointStatus) : ChatMethod Unit :=
  if status = .completed then do
    Method.perform (.markRunCheckpointRunning runId)
    Method.assign fun state => { state with
      coverage := none
      finalReport := none
      finalEvidence := []
      conflictStop := false
      finalReason := none }
  else pure ()

/-- The recomputation after some evidence has been dropped. -/
def planRevoked (ck : RunCheckpoint) (run : RunArgs) (surviving : List Evidence) :
    ChatMethod ResumePlan := do
  reopen run.runId ck.status
  let (report, kept) ← conflictStage texts ck.query (texts.parseTemporalScope ck.query) surviving
  if kept = [] then
    endWithoutEvidence ctx run.runId ck run.firstResult (some report) "temporal_no_evidence"
    let state ← Method.self
    let env ← Method.ofExcept (buildNoEvidenceRefusal ctx [ck.corpusId] state.accounting)
    pure (.returns env)
  else
    Method.assign fun state => { state with
      finalReport := some report
      finalEvidence := kept
      conflictStop := decide (report.conflictStatus = .contradicted) }
    let coverage ← Method.perform (.judge ck.query ck.requiredFacts kept)
    Method.assign fun state => { state with coverage := some coverage }
    if report.conflictStatus = .contradicted then
      Method.assign fun state => { state with coverage := some .contradictedCoverage }
      pure (.finalizes run)
    else if coverage.overallStatus = .sufficient then pure (.finalizes run)
    else pure (.continues run ck.roundIndex)

/-- What follows when all evidence is still authorized. -/
def planUnchanged (ck : RunCheckpoint) (run : RunArgs) : ChatMethod ResumePlan := do
  if ck.status = .completed then
    let state ← Method.self
    if state.finalEvidence = [] then
      let env ← Method.ofExcept (buildNoEvidenceRefusal ctx [ck.corpusId] state.accounting)
      pure (.returns env)
    else pure (.finalizes run)
  else pure (.continues run ck.roundIndex)

/-- Re-authorization and recomputation. -/
def planGated (ck : RunCheckpoint) (firstResult : FastPathResult) : ChatMethod ResumePlan := do
  let (surviving, dropped) ← reauthorizeAll ctx ck.evidence
  if surviving = [] then
    Method.assign fun _ => stateFromCheckpoint texts ck []
    endWithoutEvidence ctx runId ck firstResult none "all_evidence_revoked"
    let env ← Method.ofExcept (buildNoEvidenceRefusal ctx [ck.corpusId] ⟨1, 1, 1⟩)
    pure (.returns env)
  else
    let corpus ← Method.perform (.resolveCorpus ck.corpusId)
    Method.assign fun _ => stateFromCheckpoint texts ck surviving
    if dropped ≠ [] then planRevoked texts ctx ck (ck.run runId firstResult corpus) surviving
    else planUnchanged ctx ck (ck.run runId firstResult corpus)

/-- What the service is wired to when `resume_run` is called. -/
structure ResumeRequest where
  runId : String
  hasStore : Bool
  judged : Bool
  hasRegistry : Bool
  deriving DecidableEq, Repr

def refuseResume {α : Type} (reason : String) : ChatMethod α := Method.reraise (.resumeAuth reason)

/-- The checks of a loaded checkpoint, and what follows them. -/
def planLoaded (hasRegistry : Bool) (ck : RunCheckpoint) : ChatMethod ResumePlan :=
  match ck.firstResult with
  | none => Method.reraise (.assertion "resumable checkpoint has no first_result")
  | some firstResult =>
    if ck.status = .aborted then refuseResume "checkpoint_aborted"
    else if ck.tenantId ≠ ctx.tenantId ∨ ck.userId ≠ ctx.userId ∨ ck.sessionId ≠ ctx.sessionId then
      refuseResume "principal_mismatch"
    else if ck.policyVersion ≠ ctx.policyVersion then refuseResume "policy_version_changed"
    else if hasRegistry = false then refuseResume "registry_unavailable"
    else do
      if (← discoverable ck.corpusId) = false then refuseResume "corpus_not_discoverable"
      else planGated texts ctx runId ck firstResult

/-- The checks of the service and of the checkpoint. -/
def planResume (request : ResumeRequest) : ChatMethod ResumePlan :=
  if request.hasStore = false then refuseResume "metadata_store_unavailable"
  else if request.judged = false then refuseResume "judge_required"
  else do
    match ← Method.perform (.loadRunCheckpoint request.runId) with
    | none => refuseResume "checkpoint_not_found"
    | some ck => planLoaded texts ctx request.runId request.hasRegistry ck

/-- The rest of `resume_run` after the plan is made. -/
def followPlan : ResumePlan → ChatMethod AnswerEnvelope
  | .returns env => pure env
  | .finalizes run => do
    markDone run.toCheckpointArgs
    finalizeIteration texts ctx run
  | .continues run roundIndex =>
    loopRounds texts ctx run (run.maxRounds - roundIndex).toNat roundIndex

def resumeRun (request : ResumeRequest) : ChatMethod AnswerEnvelope := do
  let plan ← planResume texts ctx request
  followPlan texts ctx plan

end Resume

end AgenticRag
