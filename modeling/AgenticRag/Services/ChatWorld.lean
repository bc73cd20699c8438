import AgenticRag.Services.ResumeRun

/-!
# The surroundings of the chat service

A world answers what the service asks: corpora and documents as they are, the retriever, the
judge, the model and the clock by what has been asked of them before. It keeps the checkpoints
and the findings.
-/

namespace AgenticRag

/-- A call of the retriever, the judge or the model, with its inputs. -/
inductive ChatCall where
  | retrieval (query : String) (corpus : CorpusConfig) (iteration : Int)
  | judgement (query : String) (requiredFacts : List Judge.RequiredFact) (evidence : List Evidence)
  | invocation (messages : List Message)
  deriving DecidableEq, Repr

structure ChatWorld where
  resolveCorpus : String → Except ChatError CorpusConfig
  registryGet : String → Except ChatError CorpusConfig
  activeDocument : DocRef → Option SourceDocument
  now : List ChatCall → Datetime
  retrieve : List ChatCall → String → CorpusConfig → Int → Except ChatError (List Evidence)
  judge : List ChatCall → String → List Judge.RequiredFact → List Evidence → Except ChatError SufficiencyResult
  model : List ChatCall → List Message → Except ChatError ClaimExtraction

/-- The calls made so far, the checkpoints and the findings. -/
structure ChatStores where
  calls : List ChatCall
  checkpoints : CheckpointTable
  findings : List RevokedFinding
  deriving DecidableEq, Repr

namespace ChatWorld

variable (W : ChatWorld)

/-- How the world answers. -/
def eval {β : Type} (op : ChatOp β) (s : ChatStores) : Except ChatError β × ChatStores :=
  match op with
  | .resolveCorpus corpusId => (W.resolveCorpus corpusId, s)
  | .retrieveEvidence query corpus iteration =>
    (W.retrieve s.calls query corpus iteration,
      { s with calls := s.calls ++ [.retrieval query corpus iteration] })
  | .judge query requiredFacts evidence =>
    (W.judge s.calls query requiredFacts evidence,
      { s with calls := s.calls ++ [.judgement query requiredFacts evidence] })
  | .invokeModel messages =>
    (W.model s.calls messages, { s with calls := s.calls ++ [.invocation messages] })
  | .now => (.ok (W.now s.calls), s)
  | .registryGet corpusId => (W.registryGet corpusId, s)
  | .getActiveDocument doc => (.ok (W.activeDocument doc), s)
  | .recordFinding finding => (.ok (), { s with findings := s.findings ++ [finding] })
  | .saveRunCheckpoint ck =>
    ((CheckpointTable.saveRunCheckpoint s.checkpoints ck).1,
      { s with checkpoints := (CheckpointTable.saveRunCheckpoint s.checkpoints ck).2 })
  | .loadRunCheckpoint runId => (.ok (CheckpointTable.loadRunCheckpoint s.checkpoints runId), s)
  | .markRunCheckpointDone runId =>
    (.ok (), { s with checkpoints := CheckpointTable.markRunCheckpointDone s.checkpoints runId false })
  | .markRunCheckpointRunning runId =>
    (.ok (), { s with checkpoints := CheckpointTable.markRunCheckpointRunning s.checkpoints runId })

/-- `resume_run` in this world. -/
def resume (texts : ChatTexts) (ctx : SecurityContext) (request : ResumeRequest) (s : ChatStores) :
    (Except ChatError AnswerEnvelope × IterationState) × ChatStores :=
  (resumeRun texts ctx request .empty).exec W.eval s

/-- `answer_with_iteration` in this world. -/
def answer (texts : ChatTexts) (ctx : SecurityContext) (request : IterationRequest) (s : ChatStores) :
    (Except ChatError AnswerEnvelope × IterationState) × ChatStores :=
  (answerWithIteration texts ctx request .empty).exec W.eval s

section Reauthorization

variable (ctx : SecurityContext)

/-- The corpus is found for the caller. -/
def Discovers (corpusId : String) : Prop := ∃ corpus, W.registryGet corpusId = .ok corpus

instance (corpusId : String) : Decidable (W.Discovers corpusId) :=
  match h : W.registryGet corpusId with
  | .ok corpus => .isTrue ⟨corpus, h⟩
  | .error _ => .isFalse fun ⟨corpus, h'⟩ => by simp [h] at h'

/-- The verdict of `reauthorize_evidence`. -/
def verdict (ev : Evidence) : Bool × String :=
  if W.Discovers ev.corpusId then
    reauthorizeAgainst ctx ev (W.activeDocument ⟨ev.tenantId, ev.corpusId, ev.documentId⟩)
  else (false, "corpus_not_discoverable")

/-- The evidence is still authorized. -/
def keeps (ev : Evidence) : Bool := (W.verdict ctx ev).1

/-- The evidence that is dropped leaves findings. -/
def revocations (evidence : List Evidence) : List RevokedFinding :=
  (evidence.filter fun ev => !W.keeps ctx ev).map fun ev => revokedFinding ev (W.verdict ctx ev).2

variable {W ctx} {t : IterationState} {s : ChatStores}

theorem returns_discoverable (corpusId : String) :
    Method.Returns W.eval (discoverable corpusId) t s (decide (W.Discovers corpusId)) t s := by
  simp only [Method.Returns, discoverable, Method.tryCatch, Method.perform, Prog.bind, Prog.exec, eval,
    Bind.bind]
  cases h : W.registryGet corpusId with
  | ok corpus =>
    have hfound : W.Discovers corpusId := ⟨corpus, h⟩
    simp only [hfound, decide_true]
    rfl
  | error e =>
    have hmissing : ¬W.Discovers corpusId := by
      rintro ⟨corpus, h'⟩
      rw [h] at h'
      cases h'
    simp only [hmissing, decide_false]
    rfl

theorem returns_reauthorizeEvidence (ev : Evidence) :
    Method.Returns W.eval (reauthorizeEvidence ctx ev) t s (W.verdict ctx ev) t s := by
  refine (returns_discoverable ev.corpusId).bind ?_
  unfold verdict
  by_cases h : W.Discovers ev.corpusId
  · simp only [h, decide_true, Bool.true_eq_false, if_false, if_true]
    exact (Method.returns_perform rfl).bind Method.returns_pure
  · simp only [h, decide_false, if_true, if_false]
    exact Method.returns_pure

/-- Re-authorization divides the evidence and records a finding for every drop. -/
theorem returns_reauthorizeAll (evidence : List Evidence) :
    Method.Returns W.eval (reauthorizeAll ctx evidence) t s
      (evidence.filter (W.keeps ctx), evidence.filter fun ev => !W.keeps ctx ev) t
      { s with findings := s.findings ++ W.revocations ctx evidence } := by
  induction evidence generalizing s with
  | nil => simp [reauthorizeAll, revocations, Method.returns_pure_iff]
  | cons ev rest ih =>
    refine (returns_reauthorizeEvidence ev).bind ?_
    by_cases hkeeps : W.keeps ctx ev = true
    · have hverdict : (W.verdict ctx ev).1 = true := hkeeps
      simp only [hverdict, if_true]
      refine ih.bind ?_
      simp [hkeeps, revocations, Method.returns_pure_iff]
    · have hdropped : W.keeps ctx ev = false := by simpa using hkeeps
      have hverdict : (W.verdict ctx ev).1 = false := hdropped
      simp only [hverdict, Bool.false_eq_true, if_false]
      refine (Method.returns_perform rfl).bind (ih.bind ?_)
      simp [hdropped, revocations, Method.returns_pure_iff]

theorem returns_conflictStage (texts : ChatTexts) (query : String) (scope : TemporalScope)
    (evidence : List Evidence) :
    Method.Returns W.eval (conflictStage texts query scope evidence) t s
      (runConflictStage texts (W.now s.calls) query scope evidence) t s :=
  (Method.returns_perform rfl).bind Method.returns_pure

end Reauthorization

end ChatWorld

end AgenticRag
