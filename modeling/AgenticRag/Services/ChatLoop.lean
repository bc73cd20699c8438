import AgenticRag.Foundations.Execution
import AgenticRag.Retrieval.SecureRetriever
import AgenticRag.Services.ChatService
import AgenticRag.Storage.CheckpointStore

/-!
# The iteration loop

`answer_with_iteration` of `services/chat_service.py` with its rounds and its checkpoints. The
retriever, the judge, the model, the clock and the stores answer as they please: whatever the
service asks of them is an operation. `_BreakLoop` is an outcome of a round, since both loops
catch it right there.
-/

namespace AgenticRag

/-- What the service asks of its surroundings during a request. -/
inductive ChatOp : Type → Type where
  | resolveCorpus (corpusId : String) : ChatOp CorpusConfig
  | retrieveEvidence (query : String) (corpus : CorpusConfig) (iteration : Int) : ChatOp (List Evidence)
  | judge (query : String) (requiredFacts : List Judge.RequiredFact) (evidence : List Evidence) :
      ChatOp SufficiencyResult
  | invokeModel (messages : List Message) : ChatOp ClaimExtraction
  | now : ChatOp Datetime
  | registryGet (corpusId : String) : ChatOp CorpusConfig
  | getActiveDocument (doc : DocRef) : ChatOp (Option SourceDocument)
  | recordFinding (finding : RevokedFinding) : ChatOp Unit
  | saveRunCheckpoint (ck : RunCheckpoint) : ChatOp Unit
  | loadRunCheckpoint (runId : String) : ChatOp (Option RunCheckpoint)
  | markRunCheckpointDone (runId : String) : ChatOp Unit
  | markRunCheckpointRunning (runId : String) : ChatOp Unit

/-- `_IterationState` and the state of the stop policy. `evidence_by_id` lists its values. -/
structure IterationState where
  evidenceById : List Evidence
  seenIds : List String
  seenTextHashes : List String
  seenDocVersions : List (String × String)
  priorQueries : List String
  coverage : Option SufficiencyResult
  gapRounds : Int
  retrievalCalls : Int
  prevCovered : List String
  finalReason : Option String
  scope : TemporalScope
  finalReport : Option ConflictReport
  finalEvidence : List Evidence
  conflictStop : Bool
  stopPolicy : StopPolicy
  deriving DecidableEq, Repr

abbrev ChatMethod := Method ChatOp ChatError IterationState

/-- `set.add`. -/
def addTo {α : Type} [DecidableEq α] (x : α) (xs : List α) : List α :=
  if x ∈ xs then xs else xs ++ [x]

/-- `{key: … for ev in evidence}`, of which a later value replaces an earlier one. -/
def byId (evidence : List Evidence) : List Evidence :=
  evidence.foldl (Table.upsert (·.evidenceId)) []

/-- What a run of the loop is about, as far as its checkpoints tell. -/
structure CheckpointArgs where
  runId : String
  query : String
  corpusId : String
  maxRounds : Int
  required : List Judge.RequiredFact
  firstResult : FastPathResult
  saving : Bool
  deriving DecidableEq, Repr

structure RunArgs extends CheckpointArgs where
  corpus : CorpusConfig
  deriving DecidableEq, Repr

/-- How a round ends: with an envelope, by `_BreakLoop`, or so that the next one follows. -/
inductive RoundEnd where
  | terminal (env : AnswerEnvelope)
  | broken
  | proceeds

namespace IterationState

/-- Before anything has been retrieved. -/
def empty : IterationState where
  evidenceById := []
  seenIds := []
  seenTextHashes := []
  seenDocVersions := []
  priorQueries := []
  coverage := none
  gapRounds := 0
  retrievalCalls := 0
  prevCovered := []
  finalReason := none
  scope := .unspecified
  finalReport := none
  finalEvidence := []
  conflictStop := false
  stopPolicy := ⟨0⟩

/-- `_build_initial_state`. -/
def initial (query : String) (firstResult : FastPathResult) (scope : TemporalScope) : IterationState where
  evidenceById := byId firstResult.evidence
  seenIds := (byId firstResult.evidence).map (·.evidenceId)
  seenTextHashes := (firstResult.evidence.map (·.textHash)).eraseDups
  seenDocVersions := (firstResult.evidence.map fun ev => (ev.documentId, ev.documentVersion)).eraseDups
  priorQueries := [query]
  coverage := none
  gapRounds := 0
  retrievalCalls := 1
  prevCovered := []
  finalReason := some firstResult.stopReason
  scope := scope
  finalReport := none
  finalEvidence := byId firstResult.evidence
  conflictStop := false
  stopPolicy := ⟨0⟩

def accounting (state : IterationState) : Accounting :=
  ⟨state.gapRounds, state.gapRounds, state.retrievalCalls⟩

end IterationState

section Round

variable (texts : ChatTexts) (ctx : SecurityContext) (run : RunArgs)

/-- `_run_conflict_stage` with the time of the clock. -/
def conflictStage (query : String) (scope : TemporalScope) (evidence : List Evidence) :
    ChatMethod (ConflictReport × List Evidence) := do
  let now ← Method.perform .now
  pure (runConflictStage texts now query scope evidence)

/-- What a retrieval has brought that counts as a gain. -/
structure Gain where
  newEvidenceIds : List String
  newContent : Bool
  deriving DecidableEq, Repr

def IterationState.isNewContent (state : IterationState) (ev : Evidence) : Bool :=
  decide (ev.textHash ∉ state.seenTextHashes ∨ (ev.documentId, ev.documentVersion) ∉ state.seenDocVersions)

/-- A retrieved snapshot enters the accumulated evidence if its id is new, or its version or text. -/
def IterationState.accumulate (state : IterationState) (ev : Evidence) : IterationState :=
  { state with
    seenIds := addTo ev.evidenceId state.seenIds
    evidenceById :=
      match state.evidenceById.find? fun old => decide (old.evidenceId = ev.evidenceId) with
      | none => state.evidenceById ++ [ev]
      | some existing =>
        if existing.documentVersion ≠ ev.documentVersion ∨ existing.textHash ≠ ev.textHash then
          Table.upsert (·.evidenceId) state.evidenceById ev
        else state.evidenceById
    seenTextHashes := addTo ev.textHash state.seenTextHashes
    seenDocVersions := addTo (ev.documentId, ev.documentVersion) state.seenDocVersions }

def Gain.after (gain : Gain) (state : IterationState) (ev : Evidence) : Gain where
  newEvidenceIds :=
    if (state.evidenceById.find? fun old => decide (old.evidenceId = ev.evidenceId)) = none ∧
        state.isNewContent ev = true then
      addTo ev.evidenceId gain.newEvidenceIds
    else gain.newEvidenceIds
  newContent := gain.newContent || state.isNewContent ev

/-- The loop over the snapshots of a gap retrieval. -/
def absorb : List Evidence → IterationState → Gain → Except ChatError (IterationState × Gain)
  | [], state, gain => .ok (state, gain)
  | ev :: rest, state, gain =>
    if ev.tenantId ≠ ctx.tenantId ∨ ev.corpusId ≠ run.corpus.corpusId then
      .error (.tenantBinding ("gap evidence " ++ quoted ev.evidenceId ++ " tenant/corpus (" ++
        ev.tenantId ++ "/" ++ ev.corpusId ++ ") does not match request (" ++ ctx.tenantId ++ "/" ++
        run.corpus.corpusId ++ ")"))
    else absorb rest (state.accumulate ev) (gain.after state ev)

/-- The retrieval of a round after the first one. -/
def gapRetrieval (query : String) (roundIdx : Int) : ChatMethod Gain := do
  let evs ← Method.tryCatch (Method.perform (.retrieveEvidence query run.corpus roundIdx)) fun e =>
    Method.reraise (.fastPathBackend ("gap retrieval failed for corpus " ++ quoted run.corpusId ++
      ": " ++ e.text))
  let state ← Method.self
  let (state, gain) ← Method.ofExcept
    (absorb ctx run evs { state with retrievalCalls := state.retrievalCalls + 1 } ⟨[], false⟩)
  Method.assign fun _ => { state with priorQueries := addTo query state.priorQueries }
  pure gain

/-- The judge's verdict, or `none` for a fault of the judge. -/
def judgeOrFault (query : String) (required : List Judge.RequiredFact) (evidence : List Evidence) :
    ChatMethod (Option SufficiencyResult) :=
  Method.tryCatch
    (do
      let coverage ← Method.perform (.judge query required evidence)
      pure (some coverage))
    fun e =>
      match e with
      | .judge _ _ => pure none
      | e => Method.reraise e

/-- The end of a round whose evidence the temporal filter drops. -/
def noEvidenceRound (report : ConflictReport) : ChatMethod RoundEnd := do
  Method.assign fun state => { state with
    finalEvidence := []
    finalReport := some report
    coverage := some .abstaining
    finalReason := some "no_evidence"
    conflictStop := false }
  let state ← Method.self
  let env ← Method.ofExcept (buildNoEvidenceRefusal ctx [run.corpus.corpusId] state.accounting)
  pure (.terminal env)

def judgeFaultRound (report : ConflictReport) (kept : List Evidence) : ChatMethod RoundEnd := do
  Method.assign fun state => { state with
    coverage := some .abstaining
    finalEvidence := kept
    finalReport := some report
    finalReason := some "judge_fault"
    conflictStop := false }
  let state ← Method.self
  let env ← Method.ofExcept
    (conservativeRefusal run.firstResult ctx (some .abstaining) state.accounting)
  pure (.terminal env)

/-- The stop policy at the end of a round. -/
def decideRound (roundIdx : Int) (gain : Gain) (coverage : SufficiencyResult) : ChatMethod RoundEnd := do
  let state ← Method.self
  let newCovered := coverage.coveredFactIds.filter fun factId => decide (factId ∉ state.prevCovered)
  let (decision, stopPolicy) := state.stopPolicy.decide roundIdx run.maxRounds coverage.overallStatus
    coverage.canContinueRetrieval
    (decide (gain.newEvidenceIds ≠ [] ∨ newCovered ≠ [] ∨ gain.newContent = true)) true 1
  Method.assign fun state => { state with
    finalReason := some decision.reason.value
    stopPolicy := stopPolicy }
  pure (if decision.shouldStop then .broken else .proceeds)

/-- The part of `_run_round` after its retrieval. -/
def assessRound (roundIdx : Int) (gain : Gain) : ChatMethod RoundEnd := do
  let state ← Method.self
  let (report, kept) ← conflictStage texts run.query state.scope state.evidenceById
  if kept = [] then noEvidenceRound ctx run report
  else if report.conflictStatus = .contradicted then
    Method.assign fun state => { state with
      finalReport := some report
      finalEvidence := kept
      coverage := some .contradictedCoverage
      conflictStop := true
      finalReason := some "conflict_detected" }
    pure .broken
  else
    Method.assign fun state => { state with
      finalReport := some report
      finalEvidence := kept
      prevCovered := (state.coverage.map (·.coveredFactIds)).getD [] }
    match ← judgeOrFault run.query run.required kept with
    | none => judgeFaultRound ctx run report kept
    | some coverage =>
      Method.assign fun state => { state with coverage := some coverage }
      decideRound run roundIdx gain coverage

def runRound (roundIdx : Int) : ChatMethod RoundEnd := do
  Method.assign fun state => { state with gapRounds := roundIdx + 1 }
  let state ← Method.self
  if roundIdx = 0 then assessRound texts ctx run roundIdx ⟨state.seenIds, false⟩
  else
    match state.coverage with
    | none => Method.reraise (.assertion "")
    | some coverage =>
      match GapPlanner.queries state.priorQueries coverage.factCoverage with
      | [] =>
        Method.assign fun state => { state with
          finalReason := some StopReason.allSourcesExhausted.value
          gapRounds := roundIdx }
        pure .broken
      | query :: _ =>
        let gain ← gapRetrieval ctx run query roundIdx
        assessRound texts ctx run roundIdx gain

end Round

section Checkpoints

variable (ctx : SecurityContext) (run : CheckpointArgs)

def checkpointOf (roundIndex : Int) (state : IterationState) : RunCheckpoint where
  runId := run.runId
  tenantId := ctx.tenantId
  userId := ctx.userId
  sessionId := ctx.sessionId
  policyVersion := ctx.policyVersion
  query := run.query
  corpusId := run.corpusId
  maxRounds := run.maxRounds
  requiredFacts := run.required
  roundIndex := roundIndex
  status := .running
  evidence := state.evidenceById
  priorQueries := state.priorQueries
  seenTextHashes := state.seenTextHashes
  seenDocVersions := state.seenDocVersions
  retrievalCalls := state.retrievalCalls
  gapRounds := state.gapRounds
  finalReason := state.finalReason
  conflictStop := state.conflictStop
  coverage := state.coverage
  finalReport := state.finalReport
  finalEvidenceIds := state.finalEvidence.map (·.evidenceId)
  firstResult := some run.firstResult

def saveCheckpoint (roundIndex : Int) : ChatMethod Unit := do
  let state ← Method.self
  if run.saving then Method.perform (.saveRunCheckpoint (checkpointOf ctx run roundIndex state))

def markDone : ChatMethod Unit :=
  if run.saving then Method.perform (.markRunCheckpointDone run.runId) else pure ()

end Checkpoints

section Loop

variable (texts : ChatTexts) (ctx : SecurityContext) (run : RunArgs)

/-- What `_synthesize` is given besides the evidence. -/
structure SynthesisArgs where
  coverage : Option SufficiencyResult
  verifies : Bool
  accounting : Accounting
  stopReason : Option String
  conflictReport : Option ConflictReport
  deriving DecidableEq, Repr

def synthesize (query : String) (firstResult : FastPathResult) (evidence : List Evidence)
    (args : SynthesisArgs) : ChatMethod AnswerEnvelope := do
  let extraction ← Method.tryCatch
    (Method.perform (.invokeModel (buildMessages query evidence args.conflictReport))) fun e =>
      Method.reraise (.modelInvocation ("claim extraction failed for corpus " ++
        quoted firstResult.corpusId ++ ": " ++ e.text))
  let verification :=
    if args.coverage.isSome ∧ args.verifies then
      some (verifyAgainstEvidence texts.checkClaim extraction.claims evidence)
    else none
  Method.ofExcept (buildAnswerEnvelope firstResult ctx extraction.claims args.coverage verification
    args.accounting (some evidence) args.stopReason args.conflictReport)

def IterationState.finalCoverage (state : IterationState) : Option SufficiencyResult :=
  if state.conflictStop = true ∧ isContradicted state.finalReport then some .contradictedCoverage
  else state.coverage

def finalizeIteration : ChatMethod AnswerEnvelope := do
  let state ← Method.self
  synthesize texts ctx run.query run.firstResult state.finalEvidence
    { coverage := state.finalCoverage
      verifies := true
      accounting := state.accounting
      stopReason := state.finalReason
      conflictReport := state.finalReport }

/-- The loop over the rounds from one on, as `answer_with_iteration` and `resume_run` both
have it. -/
def loopRounds : Nat → Int → ChatMethod AnswerEnvelope
  | 0, _ => do
    let env ← finalizeIteration texts ctx run
    markDone run.toCheckpointArgs
    pure env
  | rounds + 1, roundIdx => do
    match ← runRound texts ctx run roundIdx with
    | .broken =>
      saveCheckpoint ctx run.toCheckpointArgs (roundIdx + 1)
      markDone run.toCheckpointArgs
      finalizeIteration texts ctx run
    | .terminal env =>
      saveCheckpoint ctx run.toCheckpointArgs (roundIdx + 1)
      markDone run.toCheckpointArgs
      pure env
    | .proceeds =>
      saveCheckpoint ctx run.toCheckpointArgs (roundIdx + 1)
      loopRounds rounds (roundIdx + 1)

end Loop

section Answer

variable (texts : ChatTexts) (ctx : SecurityContext)

def runFastPath (query : String) (corpus : CorpusConfig) : ChatMethod FastPathResult := do
  let evidence ← Method.tryCatch (Method.perform (.retrieveEvidence query corpus 0)) fun e =>
    Method.reraise (.fastPathBackend ("Fast Path retrieval dependency failed for corpus " ++
      quoted corpus.corpusId ++ ": " ++ e.text))
  pure ⟨query, corpus.corpusId, ctx.tenantId, evidence⟩

def runSinglePass (query corpusId : String) : ChatMethod AnswerEnvelope := do
  let corpus ← Method.perform (.resolveCorpus corpusId)
  let result ← runFastPath ctx query corpus
  if result.sufficiency = .insufficient then
    Method.ofExcept (conservativeRefusal result ctx none ⟨1, 1, 1⟩)
  else
    let (report, finalEvidence) ← conflictStage texts query (texts.parseTemporalScope query) result.evidence
    if finalEvidence = [] then
      Method.ofExcept (buildNoEvidenceRefusal ctx [result.corpusId] ⟨1, 1, 1⟩)
    else
      synthesize texts ctx query result finalEvidence
        { coverage := contradictedOnly report
          verifies := false
          accounting := ⟨1, 1, 1⟩
          stopReason := none
          conflictReport := some report }

/-- A call of `answer_with_iteration`; `hasStore` says whether the service has a metadata
store. -/
structure IterationRequest where
  query : String
  corpusId : String
  maxRounds : Int
  judged : Bool
  requiredFacts : List Judge.RequiredFact
  runId : Option String
  hasStore : Bool
  deriving DecidableEq, Repr

/-- The facts given, or those of the query. -/
def IterationRequest.required (request : IterationRequest) : List Judge.RequiredFact :=
  if request.requiredFacts = [] then texts.extractFacts request.query else request.requiredFacts

/-- The run of a request, after the first retrieval. -/
def IterationRequest.run (request : IterationRequest) (corpus : CorpusConfig)
    (firstResult : FastPathResult) : RunArgs where
  runId := request.runId.getD ""
  query := request.query
  corpusId := corpus.corpusId
  corpus := corpus
  maxRounds := request.maxRounds
  required := request.required texts
  firstResult := firstResult
  saving := request.runId.isSome && request.hasStore

def answerWithIteration (request : IterationRequest) : ChatMethod AnswerEnvelope :=
  if request.judged = false then runSinglePass texts ctx request.query request.corpusId
  else if request.maxRounds < 1 then Method.reraise (.valueError "max_rounds must be >= 1")
  else do
    let corpus ← Method.perform (.resolveCorpus request.corpusId)
    let firstResult ← runFastPath ctx request.query corpus
    if firstResult.sufficiency = .insufficient then
      Method.ofExcept (conservativeRefusal firstResult ctx none ⟨1, 1, 1⟩)
    else
      Method.assign fun _ =>
        .initial request.query firstResult (texts.parseTemporalScope request.query)
      saveCheckpoint ctx (request.run texts corpus firstResult).toCheckpointArgs 0
      loopRounds texts ctx (request.run texts corpus firstResult) request.maxRounds.toNat 0

end Answer

end AgenticRag
