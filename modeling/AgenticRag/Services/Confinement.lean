import AgenticRag.Foundations.Dialogue
import AgenticRag.Services.RunHistories

/-!
# Confinement

A request keeps to evidence of its own principal, whatever checkpoint it is given: it saves no other
evidence, shows no other to the judge or the model, and answers with no other.
-/

namespace AgenticRag

open Method

/-- Whom the retrieved evidence belongs to, with the policy that it was retrieved under. -/
structure Principal where
  tenantId : String
  userId : String
  sessionId : String
  policyVersion : String
  deriving DecidableEq, Repr

def SecurityContext.principal (ctx : SecurityContext) : Principal :=
  ⟨ctx.tenantId, ctx.userId, ctx.sessionId, ctx.policyVersion⟩

def RunCheckpoint.principal (ck : RunCheckpoint) : Principal :=
  ⟨ck.tenantId, ck.userId, ck.sessionId, ck.policyVersion⟩

/-- Evidence that was retrieved for its principal, with a first result. -/
structure RunCheckpoint.Confined (sanctioned : Principal → Evidence → Prop) (ck : RunCheckpoint) : Prop where
  evidence : ∀ ev ∈ ck.evidence, sanctioned ck.principal ev
  retrieved : ∃ firstResult, ck.firstResult = some firstResult ∧ ∀ ev ∈ firstResult.evidence, sanctioned ck.principal ev

/-- What a request of a principal shows to others, and what it is given: the judge and the model see
evidence of the principal, and such evidence is saved, in its name. Retrievals bring evidence of
the principal; a checkpoint may be that of another one. -/
def confining (sanctioned : Principal → Evidence → Prop) (p : Principal) : Dialogue ChatOp ChatError where
  asks op := match op with
    | .judge _ _ evidence => ∀ ev ∈ evidence, sanctioned p ev
    | .invokeModel messages => ∃ query evidence report,
        messages = buildMessages query evidence report ∧ ∀ ev ∈ evidence, sanctioned p ev
    | .saveRunCheckpoint ck => ck.principal = p ∧ ck.Confined sanctioned
    | _ => True
  answers op r := match op, r with
    | .retrieveEvidence _ _ _, .ok evidence => ∀ ev ∈ evidence, sanctioned p ev
    | .loadRunCheckpoint _, .ok (some ck) => ck.Confined sanctioned
    | _, _ => True

def AnswerEnvelope.ConfinedTo (sanctioned : Principal → Evidence → Prop) (ctx : SecurityContext)
    (env : AnswerEnvelope) : Prop :=
  env.Grounded ctx ∧ ∀ ev ∈ env.evidence, sanctioned ctx.principal ev

section Methods

variable {sanctioned : Principal → Evidence → Prop} {texts : ChatTexts} {ctx : SecurityContext} {run : RunArgs}

/-- The gathered and the final evidence are those of the principal. -/
structure IterationState.Confined (sanctioned : Principal → Evidence → Prop) (p : Principal) (t : IterationState) :
    Prop where
  gathered : ∀ ev ∈ t.evidenceById, sanctioned p ev
  final : ∀ ev ∈ t.finalEvidence, sanctioned p ev

/-- The method keeps the confinement. -/
abbrev Confines {α : Type} (sanctioned : Principal → Evidence → Prop) (ctx : SecurityContext) (Q : α → Prop)
    (m : ChatMethod α) : Prop :=
  Honors (confining sanctioned ctx.principal) (IterationState.Confined sanctioned ctx.principal) Q m

theorem AnswerEnvelope.GroundedIn.confinedTo {evidence : List Evidence} {env : AnswerEnvelope}
    (h : env.GroundedIn ctx evidence) (hevidence : ∀ ev ∈ evidence, sanctioned ctx.principal ev) :
    env.ConfinedTo sanctioned ctx :=
  ⟨h.grounded, fun ev hev => hevidence ev (h.evidence.subset hev)⟩

theorem refusal_confinedTo (corporaUsed : List String) (coverage : Option SufficiencyResult) (accounting : Accounting) :
    (refusal ctx corporaUsed coverage accounting).ConfinedTo sanctioned ctx :=
  ⟨refusal_grounded corporaUsed coverage accounting, by simp [refusal]⟩

theorem confines_noEvidenceRefusal (corporaUsed : List String) (accounting : Accounting) :
    Confines sanctioned ctx (AnswerEnvelope.ConfinedTo sanctioned ctx)
      (ofExcept (buildNoEvidenceRefusal ctx corporaUsed accounting)) := by
  refine Honors.ofExcept fun env henv => ?_
  rw [buildNoEvidenceRefusal_eq] at henv
  obtain rfl := Except.ok.inj henv
  exact refusal_confinedTo _ _ _

theorem confines_conservativeRefusal (result : FastPathResult) (coverage : Option SufficiencyResult)
    (accounting : Accounting) : Confines sanctioned ctx (AnswerEnvelope.ConfinedTo sanctioned ctx)
      (ofExcept (conservativeRefusal result ctx coverage accounting)) := by
  refine Honors.ofExcept fun env henv => ?_
  have hgrounded : env.GroundedIn ctx [] := conservativeRefusal_grounded henv
  exact hgrounded.confinedTo (by simp)

theorem confines_conflictStage (query : String) (scope : TemporalScope) (evidence : List Evidence) :
    Confines sanctioned ctx (fun staged => ∀ ev ∈ staged.2, ev ∈ evidence)
      (conflictStage texts query scope evidence) := by
  refine Honors.perform_bind trivial fun now _ => ?_
  exact Honors.pure fun ev hev => (runConflictStage_sublist texts now query scope evidence).subset hev

theorem confines_retrieve (query : String) (corpus : CorpusConfig) (iteration : Int) (handler : ChatError → ChatError) :
    Confines sanctioned ctx (fun evidence => ∀ ev ∈ evidence, sanctioned ctx.principal ev)
      (Method.tryCatch (Method.perform (.retrieveEvidence query corpus iteration)) fun e =>
        Method.reraise (handler e) : ChatMethod (List Evidence)) :=
  Honors.tryCatch (Honors.perform trivial fun _ h => h) fun _ => Honors.reraise _

theorem IterationState.Confined.accumulate {t : IterationState} (ht : t.Confined sanctioned ctx.principal)
    {ev : Evidence} (hev : sanctioned ctx.principal ev) : (t.accumulate ev).Confined sanctioned ctx.principal := by
  refine ⟨fun other hother => ?_, ht.final⟩
  rcases t.accumulate_evidence ev with hupsert | hsame
  · rw [hupsert] at hother
    rcases Table.mem_upsert.mp hother with rfl | ⟨hmem, -⟩
    · exact hev
    · exact ht.gathered other hmem
  · rw [hsame] at hother
    exact ht.gathered other hother

theorem absorb_confined {evs : List Evidence} {t t' : IterationState} {gain gain' : Gain}
    (h : absorb ctx run evs t gain = .ok (t', gain')) (hevs : ∀ ev ∈ evs, sanctioned ctx.principal ev)
    (ht : t.Confined sanctioned ctx.principal) : t'.Confined sanctioned ctx.principal := by
  induction evs generalizing t gain with
  | nil =>
    obtain ⟨rfl, -⟩ := Prod.mk.inj (Except.ok.inj h)
    exact ht
  | cons ev rest ih =>
    unfold absorb at h
    split at h
    · cases h
    · exact ih h (fun other hother => hevs other (List.mem_cons_of_mem _ hother))
        (ht.accumulate (hevs ev List.mem_cons_self))

theorem confines_gapRetrieval (query : String) (roundIdx : Int) :
    Confines sanctioned ctx (fun _ => True) (gapRetrieval ctx run query roundIdx) := by
  refine Honors.bind (confines_retrieve _ _ _ _) fun evs hevs => Honors.bind Honors.self fun t ht => ?_
  refine Honors.ofExcept_bind ?_
  rintro ⟨absorbed, gain⟩ habsorbed
  have hconfined := absorb_confined habsorbed hevs ⟨ht.gathered, ht.final⟩
  exact Honors.bind (Honors.assign fun _ _ => ⟨hconfined.gathered, hconfined.final⟩) fun _ _ => Honors.pure trivial

/-- How a round may end. -/
def RoundEnd.ConfinedTo (sanctioned : Principal → Evidence → Prop) (ctx : SecurityContext) : RoundEnd → Prop
  | .terminal env => env.ConfinedTo sanctioned ctx
  | .broken | .proceeds => True

theorem confines_noEvidenceRound (report : ConflictReport) :
    Confines sanctioned ctx (RoundEnd.ConfinedTo sanctioned ctx) (noEvidenceRound ctx run report) := by
  refine Honors.bind (Honors.assign fun t ht => ⟨ht.gathered, by simp⟩) fun _ _ => ?_
  refine Honors.bind Honors.self fun t _ => ?_
  exact Honors.bind (confines_noEvidenceRefusal _ _) fun env henv => Honors.pure henv

theorem confines_judgeFaultRound (report : ConflictReport) {kept : List Evidence}
    (hkept : ∀ ev ∈ kept, sanctioned ctx.principal ev) :
    Confines sanctioned ctx (RoundEnd.ConfinedTo sanctioned ctx) (judgeFaultRound ctx run report kept) := by
  refine Honors.bind (Honors.assign fun t ht => ⟨ht.gathered, hkept⟩) fun _ _ => ?_
  refine Honors.bind Honors.self fun t _ => ?_
  exact Honors.bind (confines_conservativeRefusal _ _ _) fun env henv => Honors.pure henv

theorem confines_judgeOrFault (query : String) (required : List Judge.RequiredFact) {evidence : List Evidence}
    (h : ∀ ev ∈ evidence, sanctioned ctx.principal ev) :
    Confines sanctioned ctx (fun _ => True) (judgeOrFault query required evidence) := by
  refine Honors.tryCatch (Honors.perform_bind h fun _ _ => Honors.pure trivial) fun e => ?_
  cases e with
  | judge timeout text => exact Honors.pure trivial
  | _ => exact Honors.reraise _

theorem confines_decideRound (roundIdx : Int) (gain : Gain) (coverage : SufficiencyResult) :
    Confines sanctioned ctx (RoundEnd.ConfinedTo sanctioned ctx) (decideRound run roundIdx gain coverage) := by
  have hends (stops : Bool) : RoundEnd.ConfinedTo sanctioned ctx (if stops = true then .broken else .proceeds) := by
    cases stops <;> trivial
  refine Honors.bind Honors.self fun t _ => ?_
  exact Honors.bind (Honors.assign fun t ht => ⟨ht.gathered, ht.final⟩) fun _ _ => Honors.pure (hends _)

theorem confines_assessRound (roundIdx : Int) (gain : Gain) :
    Confines sanctioned ctx (RoundEnd.ConfinedTo sanctioned ctx) (assessRound texts ctx run roundIdx gain) := by
  refine Honors.bind Honors.self fun t ht => Honors.bind (confines_conflictStage _ _ _) ?_
  rintro ⟨report, kept⟩ hstaged
  have hkept (ev : Evidence) (hev : ev ∈ kept) : sanctioned ctx.principal ev := ht.gathered ev (hstaged ev hev)
  refine Honors.ite (fun _ => confines_noEvidenceRound report) fun _ => Honors.ite (fun _ => ?_) fun _ => ?_
  · exact Honors.bind (Honors.assign fun t ht => ⟨ht.gathered, hkept⟩) fun _ _ => Honors.pure trivial
  · refine Honors.bind (Honors.assign fun t ht => ⟨ht.gathered, hkept⟩) fun _ _ => ?_
    refine Honors.bind (confines_judgeOrFault _ _ hkept) fun verdict _ => ?_
    cases verdict with
    | none => exact confines_judgeFaultRound report hkept
    | some coverage =>
      exact Honors.bind (Honors.assign fun t ht => ⟨ht.gathered, ht.final⟩) fun _ _ => confines_decideRound _ _ _

theorem confines_runRound (roundIdx : Int) :
    Confines sanctioned ctx (RoundEnd.ConfinedTo sanctioned ctx) (runRound texts ctx run roundIdx) := by
  refine Honors.bind (Honors.assign fun t ht => ⟨ht.gathered, ht.final⟩) fun _ _ => Honors.bind Honors.self fun t _ => ?_
  refine Honors.ite (fun _ => confines_assessRound _ _) fun _ => ?_
  cases t.coverage with
  | none => exact Honors.reraise _
  | some coverage =>
    dsimp only
    split
    · exact Honors.bind (Honors.assign fun t ht => ⟨ht.gathered, ht.final⟩) fun _ _ => Honors.pure trivial
    · exact Honors.bind (confines_gapRetrieval _ _) fun gain _ => confines_assessRound _ _

/-- The first retrieval of a run was for the principal. -/
def CheckpointArgs.Confined (sanctioned : Principal → Evidence → Prop) (p : Principal) (args : CheckpointArgs) : Prop :=
  ∀ ev ∈ args.firstResult.evidence, sanctioned p ev

theorem confines_saveCheckpoint {args : CheckpointArgs} (hargs : args.Confined sanctioned ctx.principal)
    (roundIndex : Int) : Confines sanctioned ctx (fun _ => True) (saveCheckpoint ctx args roundIndex) := by
  refine Honors.bind Honors.self fun t ht => ?_
  have hck : (checkpointOf ctx args roundIndex t).Confined sanctioned :=
    ⟨ht.gathered, args.firstResult, rfl, hargs⟩
  exact Honors.ite (fun _ => Honors.perform ⟨rfl, hck⟩ fun _ _ => trivial) fun _ => Honors.pure trivial

theorem confines_markDone (args : CheckpointArgs) : Confines sanctioned ctx (fun _ => True) (markDone args) :=
  Honors.ite (fun _ => Honors.perform trivial fun _ _ => trivial) fun _ => Honors.pure trivial

theorem confines_synthesize (query : String) (firstResult : FastPathResult) {evidence : List Evidence}
    (args : SynthesisArgs) (h : ∀ ev ∈ evidence, sanctioned ctx.principal ev) :
    Confines sanctioned ctx (AnswerEnvelope.ConfinedTo sanctioned ctx)
      (synthesize texts ctx query firstResult evidence args) := by
  have hprompt : Confines sanctioned ctx (fun _ => True)
      (Method.perform (.invokeModel (buildMessages query evidence args.conflictReport)) : ChatMethod ClaimExtraction) :=
    Honors.perform ⟨query, evidence, args.conflictReport, rfl, h⟩ fun _ _ => trivial
  refine Honors.bind (Honors.tryCatch hprompt fun _ => Honors.reraise _) fun extraction _ => ?_
  exact Honors.ofExcept fun env henv => (buildAnswerEnvelope_grounded henv).confinedTo h

theorem confines_finalizeIteration :
    Confines sanctioned ctx (AnswerEnvelope.ConfinedTo sanctioned ctx) (finalizeIteration texts ctx run) :=
  Honors.bind Honors.self fun _ ht => confines_synthesize _ _ _ ht.final

theorem confines_loopRounds (hrun : run.Confined sanctioned ctx.principal) (rounds : Nat) (roundIdx : Int) :
    Confines sanctioned ctx (AnswerEnvelope.ConfinedTo sanctioned ctx) (loopRounds texts ctx run rounds roundIdx) := by
  induction rounds generalizing roundIdx with
  | zero =>
    refine Honors.bind confines_finalizeIteration fun env henv => ?_
    exact Honors.bind (confines_markDone _) fun _ _ => Honors.pure henv
  | succ rounds ih =>
    refine Honors.bind (confines_runRound roundIdx) fun outcome houtcome => ?_
    cases outcome with
    | broken =>
      refine Honors.bind (confines_saveCheckpoint hrun _) fun _ _ => ?_
      exact Honors.bind (confines_markDone _) fun _ _ => confines_finalizeIteration
    | terminal env =>
      refine Honors.bind (confines_saveCheckpoint hrun _) fun _ _ => ?_
      exact Honors.bind (confines_markDone _) fun _ _ => Honors.pure houtcome
    | proceeds => exact Honors.bind (confines_saveCheckpoint hrun _) fun _ _ => ih (roundIdx + 1)

theorem confines_runFastPath (query : String) (corpus : CorpusConfig) :
    Confines sanctioned ctx (fun result => ∀ ev ∈ result.evidence, sanctioned ctx.principal ev)
      (runFastPath ctx query corpus) :=
  Honors.bind (confines_retrieve _ _ _ _) fun _ hevidence => Honors.pure hevidence

theorem confines_runSinglePass (query corpusId : String) :
    Confines sanctioned ctx (AnswerEnvelope.ConfinedTo sanctioned ctx) (runSinglePass texts ctx query corpusId) := by
  refine Honors.perform_bind trivial fun corpus _ => ?_
  refine Honors.bind (confines_runFastPath _ _) fun result hresult => ?_
  refine Honors.ite (fun _ => confines_conservativeRefusal _ _ _) fun _ => ?_
  refine Honors.bind (confines_conflictStage _ _ _) ?_
  rintro ⟨report, kept⟩ hstaged
  refine Honors.ite (fun _ => confines_noEvidenceRefusal _ _) fun _ => ?_
  exact confines_synthesize _ _ _ fun ev hev => hresult ev (hstaged ev hev)

theorem confines_answerWithIteration (request : IterationRequest) :
    Confines sanctioned ctx (AnswerEnvelope.ConfinedTo sanctioned ctx) (answerWithIteration texts ctx request) := by
  refine Honors.ite (fun _ => confines_runSinglePass _ _) fun _ => Honors.ite (fun _ => Honors.reraise _) fun _ => ?_
  refine Honors.perform_bind trivial fun corpus _ => ?_
  refine Honors.bind (confines_runFastPath _ _) fun result hresult => ?_
  refine Honors.ite (fun _ => confines_conservativeRefusal _ _ _) fun _ => ?_
  have hinitial (ev : Evidence) (hev : ev ∈ byId result.evidence) : sanctioned ctx.principal ev :=
    hresult ev (mem_of_byId hev)
  refine Honors.bind (Honors.assign fun _ _ => ⟨hinitial, hinitial⟩) fun _ _ => ?_
  have hrun : (request.run texts corpus result).Confined sanctioned ctx.principal := hresult
  exact Honors.bind (confines_saveCheckpoint hrun 0) fun _ _ => confines_loopRounds hrun _ 0

end Methods

section Resume

variable {sanctioned : Principal → Evidence → Prop} {texts : ChatTexts} {ctx : SecurityContext} {run : RunArgs}
  {ck : RunCheckpoint} {firstResult : FastPathResult} {runId : String}

theorem confines_discoverable (corpusId : String) : Confines sanctioned ctx (fun _ => True) (discoverable corpusId) :=
  Honors.tryCatch (Honors.perform_bind trivial fun _ _ => Honors.pure trivial) fun _ => Honors.pure trivial

theorem confines_reauthorizeEvidence (ev : Evidence) :
    Confines sanctioned ctx (fun _ => True) (reauthorizeEvidence ctx ev) := by
  refine Honors.bind (confines_discoverable _) fun found _ => Honors.ite (fun _ => Honors.pure trivial) fun _ => ?_
  exact Honors.perform_bind trivial fun _ _ => Honors.pure trivial

theorem confines_reauthorizeAll (evidence : List Evidence) :
    Confines sanctioned ctx (fun divided => ∀ ev ∈ divided.1, ev ∈ evidence) (reauthorizeAll ctx evidence) := by
  induction evidence with
  | nil => exact Honors.pure (by simp)
  | cons ev rest ih =>
    refine Honors.bind (confines_reauthorizeEvidence ev) fun verdict _ => Honors.ite (fun _ => ?_) fun _ => ?_
    · refine Honors.bind ih fun divided hdivided => Honors.pure fun other hother => ?_
      rcases List.mem_cons.mp hother with rfl | hother
      · exact List.mem_cons_self
      · exact List.mem_cons_of_mem _ (hdivided other hother)
    · refine Honors.perform_bind trivial fun _ _ => ?_
      exact Honors.bind ih fun divided hdivided => Honors.pure fun other hother =>
        List.mem_cons_of_mem _ (hdivided other hother)

theorem stateFromCheckpoint_confined {surviving : List Evidence} {p : Principal}
    (h : ∀ ev ∈ surviving, sanctioned p ev) : (stateFromCheckpoint texts ck surviving).Confined sanctioned p := by
  refine ⟨fun ev hev => h ev (mem_of_byId hev), fun ev hev => ?_⟩
  unfold stateFromCheckpoint at hev
  dsimp only at hev
  split at hev
  · cases hev
  split at hev
  · exact h ev (mem_of_byId hev)
  · exact h ev (List.mem_filter.mp hev).1

theorem confines_endWithoutEvidence (hfirst : ∀ ev ∈ firstResult.evidence, sanctioned ctx.principal ev)
    (report : Option ConflictReport) (reason : String) :
    Confines sanctioned ctx (fun _ => True) (endWithoutEvidence ctx runId ck firstResult report reason) := by
  have hargs : (ck.args runId firstResult).Confined sanctioned ctx.principal := hfirst
  refine Honors.bind (Honors.assign fun t ht => ⟨ht.gathered, by simp⟩) fun _ _ => ?_
  exact Honors.bind (confines_saveCheckpoint hargs _) fun _ _ => confines_markDone _

/-- What a resumption may plan. -/
def ResumePlan.ConfinedTo (sanctioned : Principal → Evidence → Prop) (ctx : SecurityContext) : ResumePlan → Prop
  | .returns env => env.ConfinedTo sanctioned ctx
  | .finalizes run => run.Confined sanctioned ctx.principal
  | .continues run _ => run.Confined sanctioned ctx.principal

theorem confines_reopen (status : CheckpointStatus) : Confines sanctioned ctx (fun _ => True) (reopen runId status) := by
  refine Honors.ite (fun _ => ?_) fun _ => Honors.pure trivial
  refine Honors.perform_bind trivial fun _ _ => ?_
  exact Honors.assign fun t ht => ⟨ht.gathered, by simp⟩

theorem confines_planRevoked (hrun : run.Confined sanctioned ctx.principal) {surviving : List Evidence}
    (hsurviving : ∀ ev ∈ surviving, sanctioned ctx.principal ev) :
    Confines sanctioned ctx (ResumePlan.ConfinedTo sanctioned ctx) (planRevoked texts ctx ck run surviving) := by
  refine Honors.bind (confines_reopen _) fun _ _ => Honors.bind (confines_conflictStage _ _ _) ?_
  rintro ⟨report, kept⟩ hstaged
  have hkept (ev : Evidence) (hev : ev ∈ kept) : sanctioned ctx.principal ev := hsurviving ev (hstaged ev hev)
  refine Honors.ite (fun _ => ?_) fun _ => ?_
  · refine Honors.bind (confines_endWithoutEvidence hrun _ _) fun _ _ => Honors.bind Honors.self fun t _ => ?_
    exact Honors.bind (confines_noEvidenceRefusal _ _) fun env henv => Honors.pure henv
  · refine Honors.bind (Honors.assign fun t ht => ⟨ht.gathered, hkept⟩) fun _ _ => ?_
    refine Honors.perform_bind hkept fun coverage _ => ?_
    refine Honors.bind (Honors.assign fun t ht => ⟨ht.gathered, ht.final⟩) fun _ _ => Honors.ite (fun _ => ?_) fun _ =>
      Honors.ite (fun _ => Honors.pure hrun) fun _ => Honors.pure hrun
    exact Honors.bind (Honors.assign fun t ht => ⟨ht.gathered, ht.final⟩) fun _ _ => Honors.pure hrun

theorem confines_planUnchanged (hrun : run.Confined sanctioned ctx.principal) :
    Confines sanctioned ctx (ResumePlan.ConfinedTo sanctioned ctx) (planUnchanged ctx ck run) := by
  refine Honors.ite (fun _ => Honors.bind Honors.self fun t _ => Honors.ite (fun _ => ?_) fun _ => Honors.pure hrun)
    fun _ => Honors.pure hrun
  exact Honors.bind (confines_noEvidenceRefusal _ _) fun env henv => Honors.pure henv

theorem confines_planGated (hevidence : ∀ ev ∈ ck.evidence, sanctioned ctx.principal ev)
    (hfirst : ∀ ev ∈ firstResult.evidence, sanctioned ctx.principal ev) :
    Confines sanctioned ctx (ResumePlan.ConfinedTo sanctioned ctx) (planGated texts ctx runId ck firstResult) := by
  refine Honors.bind (confines_reauthorizeAll _) ?_
  rintro ⟨surviving, dropped⟩ hdivided
  have hsurviving (ev : Evidence) (hev : ev ∈ surviving) : sanctioned ctx.principal ev := hevidence ev (hdivided ev hev)
  have hrun (corpus : CorpusConfig) : (ck.run runId firstResult corpus).Confined sanctioned ctx.principal := hfirst
  refine Honors.ite (fun _ => ?_) fun _ => ?_
  · refine Honors.bind (Honors.assign fun _ _ => stateFromCheckpoint_confined (by simp)) fun _ _ => ?_
    refine Honors.bind (confines_endWithoutEvidence hfirst _ _) fun _ _ => ?_
    exact Honors.bind (confines_noEvidenceRefusal _ _) fun env henv => Honors.pure henv
  · refine Honors.perform_bind trivial fun corpus _ => ?_
    refine Honors.bind (Honors.assign fun _ _ => stateFromCheckpoint_confined hsurviving) fun _ _ => ?_
    exact Honors.ite (fun _ => confines_planRevoked (hrun corpus) hsurviving) fun _ => confines_planUnchanged (hrun corpus)

/-- A checkpoint of another principal is refused before anything of it is used. -/
theorem confines_planLoaded (hck : ck.Confined sanctioned) (hasRegistry : Bool) :
    Confines sanctioned ctx (ResumePlan.ConfinedTo sanctioned ctx) (planLoaded texts ctx runId hasRegistry ck) := by
  obtain ⟨firstResult, hfirst, hretrieved⟩ := hck.retrieved
  unfold planLoaded
  rw [hfirst]
  refine Honors.ite (fun _ => Honors.reraise _) fun _ => Honors.ite (fun _ => Honors.reraise _) fun hprincipal =>
    Honors.ite (fun _ => Honors.reraise _) fun hpolicy => Honors.ite (fun _ => Honors.reraise _) fun _ => ?_
  simp only [not_or, ne_eq, not_not] at hprincipal hpolicy
  have hsame : ck.principal = ctx.principal := by
    simp only [RunCheckpoint.principal, SecurityContext.principal, hprincipal, hpolicy]
  refine Honors.bind (confines_discoverable _) fun found _ => Honors.ite (fun _ => Honors.reraise _) fun _ => ?_
  exact confines_planGated (hsame ▸ hck.evidence) (hsame ▸ hretrieved)

theorem confines_planResume (request : ResumeRequest) :
    Confines sanctioned ctx (ResumePlan.ConfinedTo sanctioned ctx) (planResume texts ctx request) := by
  refine Honors.ite (fun _ => Honors.reraise _) fun _ => Honors.ite (fun _ => Honors.reraise _) fun _ => ?_
  refine Honors.perform_bind trivial fun loaded hloaded => ?_
  cases loaded with
  | none => exact Honors.reraise _
  | some ck => exact confines_planLoaded hloaded _

theorem confines_followPlan {plan : ResumePlan} (h : plan.ConfinedTo sanctioned ctx) :
    Confines sanctioned ctx (AnswerEnvelope.ConfinedTo sanctioned ctx) (followPlan texts ctx plan) := by
  cases plan with
  | returns env => exact Honors.pure h
  | finalizes run => exact Honors.bind (confines_markDone _) fun _ _ => confines_finalizeIteration
  | continues run roundIndex => exact confines_loopRounds h _ _

theorem confines_resumeRun (request : ResumeRequest) :
    Confines sanctioned ctx (AnswerEnvelope.ConfinedTo sanctioned ctx) (resumeRun texts ctx request) :=
  Honors.bind (confines_planResume request) fun _ hplan => confines_followPlan hplan

theorem confines_program (call : RunCall) :
    Confines sanctioned ctx (AnswerEnvelope.ConfinedTo sanctioned ctx) (call.program texts ctx) := by
  cases call with
  | answers request => exact confines_answerWithIteration request
  | resumes request => exact confines_resumeRun request

end Resume

end AgenticRag
