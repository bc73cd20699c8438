import AgenticRag.Services.ResumeRun

/-!
# The operations of a run

What a run asks of its surroundings once its checkpoint has been read: retrievals, judgements
and the like, and no further checkpoint.
-/

namespace AgenticRag

open Method

section Reauthorization

variable {P : ∀ {β : Type}, ChatOp β → Prop}

theorem uses_discoverable {corpusId : String} (hregistry : P (.registryGet corpusId)) :
    Uses P (discoverable corpusId) :=
  Uses.tryCatch (Uses.bind (Uses.perform hregistry) fun _ => Uses.pure _) fun _ => Uses.pure _

theorem uses_reauthorizeAll (ctx : SecurityContext) (hregistry : ∀ corpusId, P (.registryGet corpusId))
    (hactive : ∀ doc, P (.getActiveDocument doc)) (hfinding : ∀ finding, P (.recordFinding finding))
    (evidence : List Evidence) : Uses P (reauthorizeAll ctx evidence) := by
  induction evidence with
  | nil => exact Uses.pure _
  | cons ev rest ih =>
    refine Uses.bind (Uses.bind (uses_discoverable (hregistry _)) fun found => ?_) fun verdict => ?_
    · exact Uses.ite (Uses.pure _) (Uses.bind (Uses.perform (hactive _)) fun _ => Uses.pure _)
    · refine Uses.ite (Uses.bind ih fun _ => Uses.pure _) ?_
      exact Uses.bind (Uses.perform (hfinding _)) fun _ => Uses.bind ih fun _ => Uses.pure _

end Reauthorization

/-- A retrieval from a corpus in `P`, or anything else but the load of a checkpoint. -/
def ChatOp.OfRun (P : CorpusConfig → Prop) {β : Type} : ChatOp β → Prop
  | .retrieveEvidence _ corpus _ => P corpus
  | .loadRunCheckpoint _ => False
  | _ => True

variable {texts : ChatTexts} {ctx : SecurityContext} {run : RunArgs} {α : Type}
  {P : CorpusConfig → Prop} {corpus : CorpusConfig}

/-- The method retrieves from corpora in `P` and loads no checkpoint. -/
abbrev Serving (P : CorpusConfig → Prop) (m : ChatMethod α) : Prop := Uses (ChatOp.OfRun P) m

theorem serving_ofExcept (r : Except ChatError α) : Serving P (ofExcept r) := fun _ => trivial

theorem serving_conflictStage (query : String) (scope : TemporalScope) (evidence : List Evidence) :
    Serving P (conflictStage texts query scope evidence) :=
  Uses.bind (Uses.perform trivial) fun _ => Uses.pure _

theorem serving_retrieve (hcorpus : P corpus) (query : String) (iteration : Int)
    (handler : ChatError → ChatError) : Serving P
      (Method.tryCatch (Method.perform (.retrieveEvidence query corpus iteration)) fun e =>
        Method.reraise (handler e) : ChatMethod (List Evidence)) :=
  Uses.tryCatch (Uses.perform hcorpus) fun _ => Uses.reraise _

theorem serving_saveCheckpoint (args : CheckpointArgs) (roundIndex : Int) :
    Serving P (saveCheckpoint ctx args roundIndex) := by
  refine Uses.bind Uses.self fun state => ?_
  exact Uses.ite (Uses.perform trivial) (Uses.pure ())

theorem serving_markDone (args : CheckpointArgs) : Serving P (markDone args) :=
  Uses.ite (Uses.perform trivial) (Uses.pure ())

theorem serving_synthesize (query : String) (firstResult : FastPathResult) (evidence : List Evidence)
    (args : SynthesisArgs) : Serving P (synthesize texts ctx query firstResult evidence args) := by
  refine Uses.bind (Uses.tryCatch (Uses.perform trivial) fun _ => Uses.reraise _) fun extraction => ?_
  exact serving_ofExcept _

theorem serving_finalizeIteration : Serving P (finalizeIteration texts ctx run) :=
  Uses.bind Uses.self fun _ => serving_synthesize _ _ _ _

theorem serving_judgeOrFault (query : String) (required : List Judge.RequiredFact)
    (evidence : List Evidence) : Serving P (judgeOrFault query required evidence) := by
  refine Uses.tryCatch (Uses.bind (Uses.perform trivial) fun _ => Uses.pure _) fun e => ?_
  cases e with
  | judge timeout text => exact Uses.pure _
  | _ => exact Uses.reraise _

theorem serving_assessRound (roundIdx : Int) (gain : Gain) :
    Serving P (assessRound texts ctx run roundIdx gain) := by
  refine Uses.bind Uses.self fun state => ?_
  refine Uses.bind (serving_conflictStage _ _ _) fun staged => ?_
  refine Uses.ite ?_ (Uses.ite ?_ ?_)
  · refine Uses.bind (Uses.assign _) fun _ => Uses.bind Uses.self fun state => ?_
    exact Uses.bind (serving_ofExcept _) fun _ => Uses.pure _
  · exact Uses.bind (Uses.assign _) fun _ => Uses.pure _
  · refine Uses.bind (Uses.assign _) fun _ => ?_
    refine Uses.bind (serving_judgeOrFault _ _ _) fun verdict => ?_
    cases verdict with
    | none =>
      refine Uses.bind (Uses.assign _) fun _ => Uses.bind Uses.self fun state => ?_
      exact Uses.bind (serving_ofExcept _) fun _ => Uses.pure _
    | some coverage =>
      refine Uses.bind (Uses.assign _) fun _ => Uses.bind Uses.self fun state => ?_
      exact Uses.bind (Uses.assign _) fun _ => Uses.pure _

theorem serving_runRound (hcorpus : P run.corpus) (roundIdx : Int) :
    Serving P (runRound texts ctx run roundIdx) := by
  refine Uses.bind (Uses.assign _) fun _ => Uses.bind Uses.self fun state => ?_
  refine Uses.ite (serving_assessRound _ _) ?_
  cases state.coverage with
  | none => exact Uses.reraise _
  | some coverage =>
    dsimp only
    split
    · exact Uses.bind (Uses.assign _) fun _ => Uses.pure _
    · refine Uses.bind ?_ fun gain => serving_assessRound _ _
      refine Uses.bind (serving_retrieve hcorpus _ _ _) fun evs => Uses.bind Uses.self fun state => ?_
      refine Uses.bind (serving_ofExcept _) fun absorbed => ?_
      exact Uses.bind (Uses.assign _) fun _ => Uses.pure _

/-- The loop asks for the corpus of its run only. -/
theorem serving_loopRounds (hcorpus : P run.corpus) (rounds : Nat) (roundIdx : Int) :
    Serving P (loopRounds texts ctx run rounds roundIdx) := by
  induction rounds generalizing roundIdx with
  | zero =>
    refine Uses.bind serving_finalizeIteration fun env => ?_
    exact Uses.bind (serving_markDone _) fun _ => Uses.pure _
  | succ rounds ih =>
    refine Uses.bind (serving_runRound hcorpus roundIdx) fun outcome => ?_
    cases outcome with
    | broken =>
      refine Uses.bind (serving_saveCheckpoint _ _) fun _ => ?_
      exact Uses.bind (serving_markDone _) fun _ => serving_finalizeIteration
    | terminal env =>
      refine Uses.bind (serving_saveCheckpoint _ _) fun _ => ?_
      exact Uses.bind (serving_markDone _) fun _ => Uses.pure _
    | proceeds => exact Uses.bind (serving_saveCheckpoint _ _) fun _ => ih (roundIdx + 1)

theorem serving_runFastPath (hcorpus : P corpus) (query : String) :
    Serving P (runFastPath ctx query corpus) :=
  Uses.bind (serving_retrieve hcorpus _ _ _) fun _ => Uses.pure _

theorem serving_endWithoutEvidence {runId : String} (ck : RunCheckpoint) (firstResult : FastPathResult)
    (report : Option ConflictReport) (reason : String) :
    Serving P (endWithoutEvidence ctx runId ck firstResult report reason) := by
  refine Uses.bind (Uses.assign _) fun _ => ?_
  exact Uses.bind (serving_saveCheckpoint _ _) fun _ => serving_markDone _

theorem serving_reopen (runId : String) (status : CheckpointStatus) : Serving P (reopen runId status) := by
  refine Uses.ite ?_ (Uses.pure ())
  exact Uses.bind (Uses.perform trivial) fun _ => Uses.assign _

theorem serving_planRevoked (ck : RunCheckpoint) (surviving : List Evidence) :
    Serving P (planRevoked texts ctx ck run surviving) := by
  refine Uses.bind (serving_reopen _ _) fun _ => Uses.bind (serving_conflictStage _ _ _) fun staged => ?_
  refine Uses.ite ?_ ?_
  · refine Uses.bind (serving_endWithoutEvidence _ _ _ _) fun _ => Uses.bind Uses.self fun state => ?_
    exact Uses.bind (serving_ofExcept _) fun _ => Uses.pure _
  · refine Uses.bind (Uses.assign _) fun _ => Uses.bind (Uses.perform trivial) fun coverage => ?_
    refine Uses.bind (Uses.assign _) fun _ => Uses.ite ?_ (Uses.ite (Uses.pure _) (Uses.pure _))
    exact Uses.bind (Uses.assign _) fun _ => Uses.pure _

theorem serving_planUnchanged (ck : RunCheckpoint) : Serving P (planUnchanged ctx ck run) := by
  refine Uses.ite (Uses.bind Uses.self fun state => Uses.ite ?_ (Uses.pure _)) (Uses.pure _)
  exact Uses.bind (serving_ofExcept _) fun _ => Uses.pure _

end AgenticRag
