import AgenticRag.Answer.Completeness
import AgenticRag.Services.JudgeFaults
import AgenticRag.Services.UnreadState

/-!
# The derived state of a checkpoint

When evidence is dropped on a resume, what has been derived from it is recomputed. Only the final
reason of a running checkpoint is left as it is when the recomputation itself ends the run; it
then stands in the answer.
-/

namespace AgenticRag

open Method

namespace ChatWorld

open IterationState

section Reason

variable {ctx : SecurityContext} {firstResult : FastPathResult} {kept : List Evidence}
  {report : ConflictReport} {coverage : SufficiencyResult} {check : Claim → List Evidence → ClaimSupport}
  {claims : List Claim} {accounting : Accounting}

/-- The builder answers from the evidence, and so with the reason it is given: first result and
evidence are bound to the request, and the verdict leaves something to say. -/
structure ReasonShows (ctx : SecurityContext) (firstResult : FastPathResult) (kept : List Evidence)
    (report : ConflictReport) (coverage : SufficiencyResult) : Prop where
  bound : checkTenantBinding ctx firstResult = .ok ()
  retrieved : firstResult.evidence ≠ []
  keptBound : checkEvidenceBinding ctx firstResult.corpusId kept = .ok ()
  answerable : report.conflictStatus = .contradicted ∨
    (mapCoverageToCompleteness coverage.overallStatus).1 ≠ .insufficient

theorem isContradicted_some : isContradicted (some report) ↔ report.conflictStatus = .contradicted := by
  simp [isContradicted]

/-- When there is nothing to say. -/
theorem verdict_insufficient (parts : AnswerParts) (hcoverage : parts.coverage = some coverage)
    (verification : ClaimVerificationResult) : (parts.verdict verification).1 = .insufficient ↔
      ¬isContradicted parts.conflictReport ∧
        (mapCoverageToCompleteness coverage.overallStatus).1 = .insufficient := by
  unfold AnswerParts.verdict AnswerParts.judged
  rw [hcoverage]
  split
  · rename_i hreport
    simp [hreport]
  · rename_i hreport
    dsimp only
    split
    · rename_i hlowered
      simp [hreport, hlowered.1]
    · simp [hreport]

/-- An answer of the builder bears the reason. -/
theorem buildEnvelopeFromEvidence_reason {parts : AnswerParts} {env : AnswerEnvelope}
    (hverdict : (parts.verdict (parts.verification claims kept)).1 ≠ .insufficient)
    (h : buildEnvelopeFromEvidence ctx kept claims parts = .ok env) :
    env.stopReason = parts.stopReason.getD parts.abstainStopReason := by
  unfold buildEnvelopeFromEvidence at h
  unfold AnswerParts.verification at hverdict
  dsimp only at h
  rw [if_neg hverdict] at h
  rw [AnswerEnvelope.lockState_ok h]

/-- The envelope from the evidence that is kept, for a reason. -/
def answerFor (ctx : SecurityContext) (firstResult : FastPathResult) (kept : List Evidence)
    (report : ConflictReport) (coverage : SufficiencyResult) (check : Claim → List Evidence → ClaimSupport)
    (claims : List Claim) (accounting : Accounting) (reason : Option String) : Except ChatError AnswerEnvelope :=
  buildAnswerEnvelope firstResult ctx claims (some coverage) (some (verifyAgainstEvidence check claims kept))
    accounting (some kept) reason (some report)

theorem reason_hidden (h : ¬ReasonShows ctx firstResult kept report coverage) (reason reason' : Option String) :
    answerFor ctx firstResult kept report coverage check claims accounting reason =
      answerFor ctx firstResult kept report coverage check claims accounting reason' := by
  unfold answerFor buildAnswerEnvelope
  cases hbound : checkTenantBinding ctx firstResult with
  | error e => rfl
  | ok checked =>
    by_cases hretrieved : firstResult.evidence = []
    · simp [FastPathResult.sufficiency, hretrieved]
    · simp only [FastPathResult.sufficiency, if_neg hretrieved, Option.getD_some, reduceCtorEq, if_false]
      cases hkept : checkEvidenceBinding ctx firstResult.corpusId kept with
      | error e => rfl
      | ok checked =>
        have hinsufficient : ¬report.conflictStatus = .contradicted ∧
            (mapCoverageToCompleteness coverage.overallStatus).1 = .insufficient := by
          by_contra hanswers
          exact h ⟨hbound, hretrieved, hkept, by tauto⟩
        rw [← isContradicted_some] at hinsufficient
        have hrefused (reason : Option String) := (verdict_insufficient
          ⟨some coverage, some (verifyAgainstEvidence check claims kept), accounting, [], false, reason,
            firstResult.stopReason, [firstResult.corpusId], some report⟩ rfl
          (verifyAgainstEvidence check claims kept)).mpr hinsufficient
        unfold buildEnvelopeFromEvidence
        dsimp only [Option.getD_some]
        rw [if_pos (hrefused reason), if_pos (hrefused reason')]

theorem reason_shown (check : Claim → List Evidence → ClaimSupport) (claims : List Claim) (accounting : Accounting)
    (h : ReasonShows ctx firstResult kept report coverage) {reason : String}
    (hreason : reason ≠ "no_evidence") :
    ∃ env, answerFor ctx firstResult kept report coverage check claims accounting (some reason) = .ok env ∧
      env.stopReason = reason := by
  let parts : AnswerParts := ⟨some coverage, some (verifyAgainstEvidence check claims kept), accounting, [],
    false, some reason, firstResult.stopReason, [firstResult.corpusId], some report⟩
  obtain ⟨env, hbuild, -⟩ := buildEnvelopeFromEvidence_ok ctx kept claims parts
    (fun claim hclaim => verifyAgainstEvidence_cited hclaim) hreason
  have hverdict : (parts.verdict (parts.verification claims kept)).1 ≠ .insufficient := by
    rw [ne_eq, verdict_insufficient parts rfl, isContradicted_some]
    rintro ⟨hreport, hinsufficient⟩
    exact h.answerable.elim hreport fun hanswers => hanswers hinsufficient
  refine ⟨env, ?_, buildEnvelopeFromEvidence_reason hverdict hbuild⟩
  unfold answerFor buildAnswerEnvelope
  simp only [h.bound, FastPathResult.sufficiency, if_neg h.retrieved, Option.getD_some, h.keptBound, reduceCtorEq,
    if_false]
  exact hbuild

end Reason

section Recomputation

variable {W : ChatWorld} {texts : ChatTexts} {ctx : SecurityContext} {run : RunArgs} {ck : RunCheckpoint}
  {surviving : List Evidence} {report : ConflictReport} {coverage : SufficiencyResult} {t t' : IterationState}
  {s s' : ChatStores} {runId : String} {firstResult : FastPathResult} {corpus : CorpusConfig}

theorem returns_reopened (status : CheckpointStatus) (t : IterationState) (s : ChatStores) :
    Returns W.eval (reopen runId status) t s () (t.reopened status)
      { s with checkpoints :=
          if status = .completed then CheckpointTable.markRunCheckpointRunning s.checkpoints runId
          else s.checkpoints } := by
  unfold reopen IterationState.reopened
  by_cases hcompleted : status = .completed
  · simp only [if_pos hcompleted]
    rfl
  · simp only [if_neg hcompleted]
    exact returns_pure

/-- How the run goes on after the recomputation. -/
def recomputedPlan (ck : RunCheckpoint) (run : RunArgs) (report : ConflictReport)
    (coverage : SufficiencyResult) : ResumePlan :=
  if report.conflictStatus = .contradicted ∨ coverage.overallStatus = .sufficient then .finalizes run
  else .continues run ck.roundIndex

/-- The stores after the recomputation has asked the judge. -/
def judgedStores (ck : RunCheckpoint) (runId : String) (kept : List Evidence) (s : ChatStores) : ChatStores :=
  { s with
    calls := s.calls ++ [.judgement ck.query ck.requiredFacts kept]
    checkpoints :=
      if ck.status = .completed then CheckpointTable.markRunCheckpointRunning s.checkpoints runId
      else s.checkpoints }

abbrev stage (W : ChatWorld) (texts : ChatTexts) (ck : RunCheckpoint) (surviving : List Evidence) (s : ChatStores) :
    ConflictReport × List Evidence :=
  runConflictStage texts (W.now s.calls) ck.query (texts.parseTemporalScope ck.query) surviving

theorem returns_planRevoked (hkept : (W.stage texts ck surviving s).2 ≠ [])
    (hverdict : W.judge s.calls ck.query ck.requiredFacts (W.stage texts ck surviving s).2 = .ok coverage) :
    Returns W.eval (planRevoked texts ctx ck run surviving) t s
      (recomputedPlan ck run (W.stage texts ck surviving s).1 coverage)
      ((t.reopened ck.status).recomputed (W.stage texts ck surviving s).1 (W.stage texts ck surviving s).2 coverage)
      (judgedStores ck run.runId (W.stage texts ck surviving s).2 s) := by
  refine (returns_reopened ck.status t s).bind ?_
  refine (returns_conflictStage texts _ _ _).bind ?_
  dsimp only
  rw [if_neg hkept]
  have hjudged : W.eval (.judge ck.query ck.requiredFacts (W.stage texts ck surviving s).2)
      { s with checkpoints :=
          if ck.status = .completed then CheckpointTable.markRunCheckpointRunning s.checkpoints run.runId
          else s.checkpoints } =
      (.ok coverage, judgedStores ck run.runId (W.stage texts ck surviving s).2 s) := by
    simp only [eval, hverdict, judgedStores]
  refine Returns.bind returns_assign ?_
  refine Returns.bind (returns_perform hjudged) ?_
  refine Returns.bind returns_assign ?_
  unfold recomputedPlan IterationState.recomputed
  by_cases hcontradicted : (W.stage texts ck surviving s).1.conflictStatus = .contradicted
  · simp only [hcontradicted, if_true, true_or]
    exact Returns.bind returns_assign returns_pure
  · simp only [hcontradicted, if_false, false_or]
    split
    · exact returns_pure
    · exact returns_pure

/-- The checkpoints after a run has been reopened. -/
theorem reopenedStores_alike (hs : underived.stores s = underived.stores s') (runId : String)
    (status : CheckpointStatus) :
    underived.stores { s with checkpoints :=
        if status = .completed then CheckpointTable.markRunCheckpointRunning s.checkpoints runId
        else s.checkpoints } =
      underived.stores { s' with checkpoints :=
        if status = .completed then CheckpointTable.markRunCheckpointRunning s'.checkpoints runId
        else s'.checkpoints } := by
  obtain ⟨hcalls, hfindings, hrows⟩ := CheckpointView.stores_eq hs
  have hmark : (CheckpointTable.setStatus s.checkpoints runId .running).map underived.row =
      (CheckpointTable.setStatus s'.checkpoints runId .running).map underived.row := by
    rw [← CheckpointView.setStatus_viewed, hrows, CheckpointView.setStatus_viewed]
  split
  · simp only [CheckpointView.stores, CheckpointTable.markRunCheckpointRunning, hcalls, hfindings, hmark]
  · exact hs

theorem judgedStores_alike (hs : underived.stores s = underived.stores s') (kept : List Evidence) :
    underived.stores (judgedStores ck runId kept s) = underived.stores (judgedStores ck runId kept s') := by
  have hcalls := (CheckpointView.stores_eq hs).1
  have hjudged := congrArg
    (fun u : ChatStores => { u with calls := s.calls ++ [ChatCall.judgement ck.query ck.requiredFacts kept] })
    (reopenedStores_alike hs runId ck.status)
  unfold judgedStores
  rw [← hcalls]
  exact hjudged

/-- A fault of the judge is raised. -/
theorem planRevoked_raises (ctx : SecurityContext) (run : RunArgs) (t : IterationState) {e : ChatError}
    (hkept : (W.stage texts ck surviving s).2 ≠ [])
    (hverdict : W.judge s.calls ck.query ck.requiredFacts (W.stage texts ck surviving s).2 = .error e) :
    (planRevoked texts ctx ck run surviving).Meets W.eval (fun r _ s' => r = .error e ∧
      s'.calls = s.calls ++ [.judgement ck.query ck.requiredFacts (W.stage texts ck surviving s).2]) t s := by
  unfold planRevoked
  rw [(returns_reopened ck.status t s).meets_bind, (returns_conflictStage texts _ _ _).meets_bind]
  dsimp only
  rw [if_neg hkept, meets_assign_bind, meets_bind, meets_perform]
  simp only [eval, hverdict, and_self]

theorem endWithoutEvidence_underived (firstResult : FastPathResult) (report : Option ConflictReport)
    (reason : String) :
    underived.Alike W Underived (fun a t c t' => a = c ∧ Uncounted t t')
      (endWithoutEvidence ctx runId ck firstResult report reason)
      (endWithoutEvidence ctx runId ck firstResult report reason) := by
  refine Alike.bind (Q := fun _ t _ t' => Uncounted t t') (Alike.assign ?_) fun _ _ => ?_
  · rintro t _ ⟨coverage, prevCovered, finalReason, finalReport, finalEvidence, conflictStop, rfl⟩
    exact ⟨prevCovered, rfl⟩
  · exact Alike.bind_result (saveCheckpoint_unread _ _) fun _ => markDone_unread _

/-- Without evidence that is kept the plan is a refusal, whatever has been derived before. -/
theorem planRevoked_refuses (ctx : SecurityContext) (run : RunArgs) (hkept : (W.stage texts ck surviving s).2 = [])
    (hunderived : Underived t t') (hs : underived.stores s = underived.stores s') :
    underived.Ends (fun plan _ plan' _ => (∃ env, plan = .returns env) ∧ plan = plan')
      ((planRevoked texts ctx ck run surviving t).exec W.eval s)
      ((planRevoked texts ctx ck run surviving t').exec W.eval s') := by
  obtain ⟨calls, rows, findings⟩ := s
  obtain ⟨calls', rows', findings'⟩ := s'
  obtain rfl : calls = calls' := (CheckpointView.stores_eq hs).1
  unfold planRevoked
  rw [(returns_reopened ck.status t _).exec_bind, (returns_reopened ck.status t' _).exec_bind,
    (returns_conflictStage texts _ _ _).exec_bind, (returns_conflictStage texts _ _ _).exec_bind]
  dsimp only
  rw [if_pos hkept]
  refine Alike.bind_result (endWithoutEvidence_underived _ _ _) (fun _ => Alike.self_bind ?_) _ _ _ _
    (hunderived.reopened ck.status) (reopenedStores_alike hs run.runId ck.status)
  rintro t _ ⟨prevCovered, rfl⟩
  refine Alike.bind_result (underived_aside (.ofExcept _) (serving_ofExcept _)) fun env => ?_
  exact Alike.pure fun t t' _ => ⟨⟨env, rfl⟩, rfl⟩

/-- The calls end with the same and have made the same calls of retriever, judge and model. -/
def SameEnd {α : Type} (x y : (Except ChatError α × IterationState) × ChatStores) : Prop :=
  x.1.1 = y.1.1 ∧ x.2.calls = y.2.calls

theorem sameEnd_of_ends {α : Type} {Q : α → IterationState → α → IterationState → Prop}
    {x y : (Except ChatError α × IterationState) × ChatStores} (h : underived.Ends Q x y)
    (hQ : ∀ a t c t', Q a t c t' → a = c) : SameEnd x y :=
  ⟨h.1.result_eq hQ, (CheckpointView.stores_eq h.2).1⟩

/-- The model's answer and the envelope built from it. -/
theorem exec_finalizeIteration (hreport : t.finalReport = some report) (hcoverage : t.finalCoverage = some coverage) :
    (finalizeIteration texts ctx run t).exec W.eval s =
      ((match W.model s.calls (buildMessages run.query t.finalEvidence (some report)) with
        | .ok extraction => answerFor ctx run.firstResult t.finalEvidence report coverage texts.checkClaim
            extraction.claims t.accounting t.finalReason
        | .error e => .error (.modelInvocation ("claim extraction failed for corpus " ++
            quoted run.firstResult.corpusId ++ ": " ++ e.text)), t),
        { s with calls := s.calls ++ [.invocation (buildMessages run.query t.finalEvidence (some report))] }) := by
  unfold finalizeIteration synthesize
  rw [returns_self.exec_bind, exec_bind]
  simp only [hreport, hcoverage, Method.tryCatch, Method.perform, Prog.bind, Prog.exec, eval]
  cases W.model s.calls (buildMessages run.query t.finalEvidence (some report)) with
  | error e => rfl
  | ok extraction => rfl

/-- Final states that differ in what is not read, or in a reason that does not show. -/
theorem finalizeIteration_agree {prevCovered : List String} {finalReason : Option String}
    (hs : underived.stores s = underived.stores s') (hreport : t.finalReport = some report)
    (hcoverage : t.finalCoverage = some coverage)
    (h : t.finalReason = finalReason ∨ ∀ extraction,
      W.model s.calls (buildMessages run.query t.finalEvidence (some report)) = .ok extraction →
        ¬ReasonShows ctx run.firstResult t.finalEvidence report coverage) :
    underived.Ends (fun a _ c _ => a = c) ((finalizeIteration texts ctx run t).exec W.eval s)
      ((finalizeIteration texts ctx run
        { t with prevCovered := prevCovered, finalReason := finalReason }).exec W.eval s') := by
  obtain ⟨hcalls, hfindings, hrows⟩ := CheckpointView.stores_eq hs
  have hfinal' : (finalizeIteration texts ctx run
      { t with prevCovered := prevCovered, finalReason := finalReason }).exec W.eval s' = _ :=
    exec_finalizeIteration hreport hcoverage
  rw [exec_finalizeIteration hreport hcoverage, hfinal', ← hcalls]
  refine ⟨?_, by simp only [CheckpointView.stores, hfindings, hrows]⟩
  cases hmodel : W.model s.calls (buildMessages run.query t.finalEvidence (some report)) with
  | error e => rfl
  | ok extraction =>
    have hsame : answerFor ctx run.firstResult t.finalEvidence report coverage texts.checkClaim
        extraction.claims t.accounting t.finalReason = answerFor ctx run.firstResult t.finalEvidence report
          coverage texts.checkClaim extraction.claims t.accounting finalReason := by
      rcases h with rfl | hhidden
      · rfl
      · exact reason_hidden (hhidden extraction hmodel) _ _
    dsimp only [IterationState.accounting] at hsame ⊢
    rw [hsame]
    exact .refl_result _ _ _

theorem returns_markDone (args : CheckpointArgs) (hsaving : args.saving = true) :
    Returns W.eval (markDone args) t s () t
      { s with checkpoints := CheckpointTable.markRunCheckpointDone s.checkpoints args.runId false } := by
  unfold markDone
  rw [if_pos hsaving]
  exact returns_perform rfl

theorem finalCoverage_recomputed (kept : List Evidence) : (t.recomputed report kept coverage).finalCoverage =
    some (if report.conflictStatus = .contradicted then .contradictedCoverage else coverage) := by
  unfold IterationState.finalCoverage IterationState.recomputed
  dsimp only
  split
  · rename_i hcontradicted
    rw [isContradicted_some] at hcontradicted
    rw [if_pos hcontradicted.2]
  · rfl

/-- The verdict that the answer is built with leaves something to say exactly if the report or that
of the judge does. -/
theorem reasonShows_settled {kept : List Evidence} : ReasonShows ctx firstResult kept report
    (if report.conflictStatus = .contradicted then .contradictedCoverage else coverage) ↔
      ReasonShows ctx firstResult kept report coverage := by
  by_cases hcontradicted : report.conflictStatus = .contradicted
  · exact ⟨fun h => ⟨h.bound, h.retrieved, h.keptBound, .inl hcontradicted⟩,
      fun h => ⟨h.bound, h.retrieved, h.keptBound, .inl hcontradicted⟩⟩
  · rw [if_neg hcontradicted]

/-- The recomputation ends the run with an answer that bears the reason found. -/
structure ReasonEnds (W : ChatWorld) (ctx : SecurityContext) (ck : RunCheckpoint) (firstResult : FastPathResult)
    (report : ConflictReport) (kept : List Evidence) (coverage : SufficiencyResult) (calls : List ChatCall) :
    Prop where
  ends : report.conflictStatus = .contradicted ∨ coverage.overallStatus = .sufficient ∨
    ck.maxRounds ≤ ck.roundIndex
  modelled : ∃ extraction, W.model calls (buildMessages ck.query kept (some report)) = .ok extraction
  shows : ReasonShows ctx firstResult kept report coverage

/-- A run that is finalized, from states that differ in what is not read, or in a reason that does
not show. -/
theorem finalizes_agree {prevCovered : List String} {finalReason : Option String} (hsaving : run.saving = true)
    (hs : underived.stores s = underived.stores s') (hreport : t.finalReport = some report)
    (hcoverage : t.finalCoverage = some coverage)
    (h : t.finalReason = finalReason ∨ ∀ extraction,
      W.model s.calls (buildMessages run.query t.finalEvidence (some report)) = .ok extraction →
        ¬ReasonShows ctx run.firstResult t.finalEvidence report coverage) :
    underived.Ends (fun a _ c _ => a = c) ((followPlan texts ctx (.finalizes run) t).exec W.eval s)
      ((followPlan texts ctx (.finalizes run)
        { t with prevCovered := prevCovered, finalReason := finalReason }).exec W.eval s') := by
  have hmarked := (CheckpointView.answers_alike (W := W) (.markRunCheckpointDone run.runId) trivial s s' hs).2
  unfold followPlan
  rw [(returns_markDone run.toCheckpointArgs hsaving).exec_bind,
    (returns_markDone run.toCheckpointArgs hsaving).exec_bind]
  exact finalizeIteration_agree hmarked hreport hcoverage h

/-- So it is for a run without rounds left. -/
theorem overrun_agree {prevCovered : List String} {finalReason : Option String} {roundIndex : Int}
    (hs : underived.stores s = underived.stores s') (hreport : t.finalReport = some report)
    (hcoverage : t.finalCoverage = some coverage)
    (h : t.finalReason = finalReason ∨ ∀ extraction,
      W.model s.calls (buildMessages run.query t.finalEvidence (some report)) = .ok extraction →
        ¬ReasonShows ctx run.firstResult t.finalEvidence report coverage) :
    underived.Ends (fun a _ c _ => a = c) ((loopRounds texts ctx run 0 roundIndex t).exec W.eval s)
      ((loopRounds texts ctx run 0 roundIndex
        { t with prevCovered := prevCovered, finalReason := finalReason }).exec W.eval s') := by
  refine CheckpointView.Ends.bind (finalizeIteration_agree hs hreport hcoverage h) ?_
  rintro env _ t t' s s' rfl hs
  refine Alike.bind_result (P := fun _ _ => True) (markDone_unread _) (fun _ => ?_) t t' s s' trivial hs
  exact Alike.pure fun _ _ _ => rfl

/-- What follows the recomputation. -/
theorem followRecomputed_sameEnd {prevCovered : List String} {finalReason : Option String} {kept : List Evidence}
    (hs : underived.stores s = underived.stores s') (hreport : t.finalReport = some report)
    (hevidence : t.finalEvidence = kept)
    (hcoverage : t.finalCoverage =
      some (if report.conflictStatus = .contradicted then .contradictedCoverage else coverage))
    (h : t.finalReason = finalReason ∨ ¬W.ReasonEnds ctx ck firstResult report kept coverage s.calls) :
    SameEnd
      ((followPlan texts ctx (recomputedPlan ck (ck.run runId firstResult corpus) report coverage) t).exec
        W.eval s)
      ((followPlan texts ctx (recomputedPlan ck (ck.run runId firstResult corpus) report coverage)
        { t with prevCovered := prevCovered, finalReason := finalReason }).exec W.eval s') := by
  have hhidden (hends : report.conflictStatus = .contradicted ∨ coverage.overallStatus = .sufficient ∨
      ck.maxRounds ≤ ck.roundIndex) : t.finalReason = finalReason ∨ ∀ extraction,
        W.model s.calls (buildMessages (ck.run runId firstResult corpus).query t.finalEvidence (some report)) =
          .ok extraction → ¬ReasonShows ctx (ck.run runId firstResult corpus).firstResult t.finalEvidence report
            (if report.conflictStatus = .contradicted then .contradictedCoverage else coverage) := by
    refine h.imp id fun hnot extraction hmodel hshows => ?_
    subst hevidence
    exact hnot ⟨hends, ⟨extraction, hmodel⟩, reasonShows_settled.mp hshows⟩
  unfold recomputedPlan
  split
  · rename_i hsettled
    refine sameEnd_of_ends (finalizes_agree rfl hs hreport hcoverage (hhidden ?_)) fun _ _ _ _ hsame => hsame
    tauto
  · unfold followPlan
    cases hrounds : ((ck.run runId firstResult corpus).maxRounds - ck.roundIndex).toNat with
    | zero =>
      have hover : ck.maxRounds ≤ ck.roundIndex := by
        have hmax : (ck.run runId firstResult corpus).maxRounds = ck.maxRounds := rfl
        omega
      simp only [hrounds]
      exact sameEnd_of_ends (overrun_agree hs hreport hcoverage (hhidden (.inr (.inr hover))))
        fun _ _ _ _ hsame => hsame
    | succ rounds =>
      simp only [hrounds]
      exact sameEnd_of_ends (Q := fun a t c t' => a = c ∧ Uncounted t t')
        ((loopRounds_unread rounds ck.roundIndex).2 _ _ s s' ⟨prevCovered, finalReason, rfl⟩ hs)
        fun _ _ _ _ hsame => hsame.1

/-- Plans that raise the same after the same calls. -/
theorem sameEnd_raised {m n : ChatMethod ResumePlan} {e : ChatError} {calls : List ChatCall}
    (h : m.Meets W.eval (fun r _ s => r = .error e ∧ s.calls = calls) t s)
    (h' : n.Meets W.eval (fun r _ s => r = .error e ∧ s.calls = calls) t' s') :
    SameEnd (((m >>= followPlan texts ctx) t).exec W.eval s) (((n >>= followPlan texts ctx) t').exec W.eval s') := by
  unfold Method.Meets at h h'
  rw [exec_bind, exec_bind]
  rcases hm : (m t).exec W.eval s with ⟨⟨r, u⟩, v⟩
  rcases hm' : (n t').exec W.eval s' with ⟨⟨r', u'⟩, v'⟩
  rw [hm] at h
  rw [hm'] at h'
  obtain ⟨rfl, hcalls⟩ := h
  obtain ⟨rfl, hcalls'⟩ := h'
  exact ⟨rfl, hcalls.trans hcalls'.symm⟩

/-- A recomputation is not influenced by what has been derived before, unless a reason stays. -/
theorem revoked_sameEnd (hunderived : Underived t t') (hs : underived.stores s = underived.stores s')
    (hnot : ck.status ≠ .completed → ∀ coverage, (W.stage texts ck surviving s).2 ≠ [] →
      W.judge s.calls ck.query ck.requiredFacts (W.stage texts ck surviving s).2 = .ok coverage →
        ¬W.ReasonEnds ctx ck firstResult (W.stage texts ck surviving s).1 (W.stage texts ck surviving s).2 coverage
          (s.calls ++ [.judgement ck.query ck.requiredFacts (W.stage texts ck surviving s).2])) :
    SameEnd
      (((planRevoked texts ctx ck (ck.run runId firstResult corpus) surviving >>= followPlan texts ctx) t).exec
        W.eval s)
      (((planRevoked texts ctx ck (ck.run runId firstResult corpus) surviving >>= followPlan texts ctx) t').exec
        W.eval s') := by
  by_cases hkept : (W.stage texts ck surviving s).2 = []
  · have hrefused := planRevoked_refuses ctx (ck.run runId firstResult corpus) hkept hunderived hs
    refine sameEnd_of_ends (Q := fun a _ c _ => a = c) (hrefused.bind ?_) fun _ _ _ _ hsame => hsame
    rintro plan plan' t t' s s' ⟨⟨env, rfl⟩, rfl⟩ hs
    exact ⟨rfl, hs⟩
  have hcalls := (CheckpointView.stores_eq hs).1
  have hstage : W.stage texts ck surviving s' = W.stage texts ck surviving s := by
    unfold stage
    rw [hcalls]
  have hkept' : (W.stage texts ck surviving s').2 ≠ [] := by rwa [hstage]
  cases hverdict : W.judge s.calls ck.query ck.requiredFacts (W.stage texts ck surviving s).2 with
  | error e =>
    have hraised := planRevoked_raises ctx (ck.run runId firstResult corpus) t hkept hverdict
    have hraised' := planRevoked_raises ctx (ck.run runId firstResult corpus) t' hkept'
      (by rwa [hstage, ← hcalls])
    rw [hstage, ← hcalls] at hraised'
    exact sameEnd_raised hraised hraised'
  | ok coverage =>
    have hreturns : Returns W.eval (planRevoked texts ctx ck (ck.run runId firstResult corpus) surviving) t s _ _ _ :=
      returns_planRevoked hkept hverdict
    have hreturns' : Returns W.eval (planRevoked texts ctx ck (ck.run runId firstResult corpus) surviving)
        t' s' _ _ _ :=
      returns_planRevoked hkept' (by rwa [hstage, ← hcalls])
    rw [hreturns.exec_bind, hreturns'.exec_bind, hstage]
    obtain ⟨prevCovered, finalReason, hrecomputed, hreason⟩ := hunderived.recomputed ck.status
      (W.stage texts ck surviving s).1 (W.stage texts ck surviving s).2 coverage
    rw [hrecomputed]
    refine followRecomputed_sameEnd (judgedStores_alike hs _) rfl rfl (finalCoverage_recomputed _) ?_
    by_cases hcompleted : ck.status = .completed
    · exact .inl (hreason hcompleted)
    · exact .inr (hnot hcompleted coverage hkept hverdict)

end Recomputation

section Main

variable (W : ChatWorld) (texts : ChatTexts) (ctx : SecurityContext) (request : ResumeRequest) (s : ChatStores)

/-- The resume passes its checks and drops evidence. -/
def Drops : Prop :=
  ∃ ck firstResult, W.Resumes ctx request s ck firstResult ∧ ∃ ev ∈ ck.evidence, W.keeps ctx ev = false

/-- A running checkpoint has lost evidence, the judge answers over what is kept of the rest, and the
recomputation ends the run with an answer. -/
structure StaleReason (ck : RunCheckpoint) (firstResult : FastPathResult) (corpus : CorpusConfig)
    (coverage : SufficiencyResult) : Prop where
  resumes : W.Resumes ctx request s ck firstResult
  drops : ∃ ev ∈ ck.evidence, W.keeps ctx ev = false
  running : ck.status = .running
  resolved : W.resolveCorpus ck.corpusId = .ok corpus
  kept : (W.recomputed texts ctx s ck).2 ≠ []
  judged : W.judge s.calls ck.query ck.requiredFacts (W.recomputed texts ctx s ck).2 = .ok coverage
  reason : W.ReasonEnds ctx ck firstResult (W.recomputed texts ctx s ck).1 (W.recomputed texts ctx s ck).2 coverage
    (s.calls ++ [.judgement ck.query ck.requiredFacts (W.recomputed texts ctx s ck).2])

variable {W texts ctx request s} {s' : ChatStores} {ck : RunCheckpoint} {firstResult : FastPathResult}
  {corpus : CorpusConfig} {coverage : SufficiencyResult}

/-- A resume that passes the checks does what its checkpoint plans. -/
theorem Resumes.resume_eq (h : W.Resumes ctx request s ck firstResult) : W.resume texts ctx request s =
    ((planGated texts ctx request.runId ck firstResult >>= followPlan texts ctx) .empty).exec W.eval s := by
  have hplan : ((planResume texts ctx request) .empty).exec W.eval s =
      (planGated texts ctx request.runId ck firstResult .empty).exec W.eval s := by
    suffices hmeets : (planResume texts ctx request).Meets W.eval
        (fun r t v => ((r, t), v) = (planGated texts ctx request.runId ck firstResult .empty).exec W.eval s)
        .empty s from hmeets
    apply h.meets
    rfl
  unfold resume resumeRun
  rw [exec_bind, exec_bind, hplan]

/-- The other stores hold the same checkpoint with another derived state. -/
theorem Resumes.underived (h : W.Resumes ctx request s ck firstResult)
    (hs : underived.stores s = underived.stores s') :
    ∃ derived, W.Resumes ctx request s' (ck.withDerived derived) firstResult := by
  have hloaded := CheckpointView.loaded_eq hs request.runId
  rw [h.loaded, Option.map_some, eq_comm, Option.map_eq_some_iff] at hloaded
  obtain ⟨ck', hck', hview⟩ := hloaded
  obtain ⟨derived, rfl⟩ := underived_eq hview.symm
  exact ⟨derived, { h with loaded := hck' }⟩

/-- The findings about what is dropped, while the checkpoints stay. -/
theorem foundStores_alike (hs : underived.stores s = underived.stores s') (findings : List RevokedFinding) :
    underived.stores { s with findings := s.findings ++ findings } =
      underived.stores { s' with findings := s'.findings ++ findings } := by
  obtain ⟨hcalls, hfindings, hrows⟩ := CheckpointView.stores_eq hs
  simp only [CheckpointView.stores, hcalls, hfindings, hrows]

theorem stateFromCheckpoint_underived (ck : RunCheckpoint) (derived : DerivedState) (surviving : List Evidence) :
    Underived (stateFromCheckpoint texts ck surviving)
      (stateFromCheckpoint texts (ck.withDerived derived) surviving) :=
  ⟨_, _, _, _, _, _, rfl⟩

/-- After some evidence has been dropped, the corpus is resolved. -/
theorem planGated_dropped (texts : ChatTexts) (s : ChatStores) (ck : RunCheckpoint) (firstResult : FastPathResult)
    (hdrops : ∃ ev ∈ ck.evidence, W.keeps ctx ev = false)
    (hsurvives : ck.evidence.filter (W.keeps ctx) ≠ []) (runId : String) :
    (∀ e, W.resolveCorpus ck.corpusId = .error e →
      (planGated texts ctx runId ck firstResult).Meets W.eval (fun r _ v => r = .error e ∧ v.calls = s.calls)
        .empty s) ∧
    ∀ corpus, W.resolveCorpus ck.corpusId = .ok corpus →
      (planGated texts ctx runId ck firstResult .empty).exec W.eval s =
        (planRevoked texts ctx ck (ck.run runId firstResult corpus) (ck.evidence.filter (W.keeps ctx))
          (stateFromCheckpoint texts ck (ck.evidence.filter (W.keeps ctx)))).exec W.eval
            { s with findings := s.findings ++ W.revocations ctx ck.evidence } := by
  obtain ⟨ev, hev, hdropped⟩ := hdrops
  have hdrops : (ck.evidence.filter fun ev => !W.keeps ctx ev) ≠ [] :=
    List.ne_nil_of_mem (List.mem_filter.mpr ⟨hev, by simp [hdropped]⟩)
  unfold planGated
  constructor
  · intro e hcorpus
    rw [(returns_reauthorizeAll ck.evidence).meets_bind]
    dsimp only
    rw [if_neg hsurvives, meets_bind, meets_perform]
    simp only [eval, hcorpus, and_self]
  · intro corpus hcorpus
    have hresolved : W.eval (.resolveCorpus ck.corpusId)
        { s with findings := s.findings ++ W.revocations ctx ck.evidence } =
          (.ok corpus, { s with findings := s.findings ++ W.revocations ctx ck.evidence }) := by
      simp only [eval, hcorpus]
    rw [(returns_reauthorizeAll ck.evidence).exec_bind]
    dsimp only
    rw [if_neg hsurvives, (returns_perform hresolved).exec_bind, returns_assign.exec_bind, if_pos hdrops]

/-- A resume that drops all evidence is planned to be a refusal, whatever has been derived before. -/
theorem planGated_emptied (hs : underived.stores s = underived.stores s')
    (hnone : ck.evidence.filter (W.keeps ctx) = []) (runId : String) (derived : DerivedState) :
    underived.Ends (fun plan _ plan' _ => (∃ env, plan = .returns env) ∧ plan = plan')
      ((planGated texts ctx runId ck firstResult .empty).exec W.eval s)
      ((planGated texts ctx runId (ck.withDerived derived) firstResult .empty).exec W.eval s') := by
  have hfound := foundStores_alike hs (W.revocations ctx ck.evidence)
  have hrest : underived.Alike W Underived
      (fun (plan : ResumePlan) _ plan' _ => (∃ env, plan = .returns env) ∧ plan = plan')
      (endWithoutEvidence ctx runId ck firstResult none "all_evidence_revoked" >>= fun _ =>
        Method.ofExcept (buildNoEvidenceRefusal ctx [ck.corpusId] ⟨1, 1, 1⟩) >>= fun env =>
          pure (ResumePlan.returns env))
      (endWithoutEvidence ctx runId ck firstResult none "all_evidence_revoked" >>= fun _ =>
        Method.ofExcept (buildNoEvidenceRefusal ctx [ck.corpusId] ⟨1, 1, 1⟩) >>= fun env =>
          pure (ResumePlan.returns env)) := by
    refine Alike.bind_result (endWithoutEvidence_underived _ _ _) fun _ => ?_
    refine Alike.bind_result (underived_aside (.ofExcept _) (serving_ofExcept _)) fun env => ?_
    exact Alike.pure fun _ _ _ => ⟨⟨env, rfl⟩, rfl⟩
  unfold planGated
  rw [(returns_reauthorizeAll ck.evidence).exec_bind]
  have hreauthorized : Returns W.eval (reauthorizeAll ctx (ck.withDerived derived).evidence) .empty s' _ _ _ :=
    returns_reauthorizeAll ck.evidence
  rw [hreauthorized.exec_bind]
  dsimp only
  rw [if_pos hnone, if_pos hnone, returns_assign.exec_bind, returns_assign.exec_bind]
  exact hrest _ _ _ _ (stateFromCheckpoint_underived ck derived []) hfound

/-- Nothing of the derived state is read, unless a reason is stale. -/
theorem resume_sameEnd (hresumes : W.Resumes ctx request s ck firstResult)
    (hdrops : ∃ ev ∈ ck.evidence, W.keeps ctx ev = false) (hs : underived.stores s = underived.stores s')
    (hnot : ∀ corpus coverage, ¬W.StaleReason texts ctx request s ck firstResult corpus coverage) :
    SameEnd (W.resume texts ctx request s) (W.resume texts ctx request s') := by
  obtain ⟨derived, hresumes'⟩ := hresumes.underived hs
  rw [hresumes.resume_eq, hresumes'.resume_eq]
  by_cases hsurvives : ck.evidence.filter (W.keeps ctx) = []
  · refine sameEnd_of_ends (Q := fun a _ c _ => a = c)
      ((planGated_emptied hs hsurvives request.runId derived).bind ?_) fun _ _ _ _ hsame => hsame
    rintro plan plan' t t' s s' ⟨⟨env, rfl⟩, rfl⟩ hs
    exact ⟨rfl, hs⟩
  have hfound := foundStores_alike hs (W.revocations ctx ck.evidence)
  have hcalls := (CheckpointView.stores_eq hs).1
  obtain ⟨hfails, hresolves⟩ := planGated_dropped (W := W) texts s ck firstResult hdrops hsurvives
    request.runId
  obtain ⟨hfails', hresolves'⟩ := planGated_dropped (W := W) texts s' (ck.withDerived derived) firstResult
    hdrops hsurvives request.runId
  cases hcorpus : W.resolveCorpus ck.corpusId with
  | error e =>
    refine sameEnd_raised (hfails e hcorpus) ?_
    rw [hcalls]
    exact hfails' e hcorpus
  | ok corpus =>
    rw [exec_bind_congr (hresolves corpus hcorpus), exec_bind_congr (hresolves' corpus hcorpus)]
    refine revoked_sameEnd (stateFromCheckpoint_underived ck derived _) hfound ?_
    intro hcompleted coverage hkept hjudged hends
    have hrunning : ck.status = .running := by
      have haborted := hresumes.status
      cases hstatus : ck.status with
      | running => rfl
      | completed => exact absurd hstatus hcompleted
      | aborted => exact absurd hstatus haborted
    exact hnot corpus coverage ⟨hresumes, hdrops, hrunning, hcorpus, hkept, hjudged, hends⟩

/-- The final answer bears its reason. -/
theorem returns_finalizeIteration (texts : ChatTexts) (run : RunArgs) {t : IterationState} {report : ConflictReport}
    {extraction : ClaimExtraction} {reason : String} (hreport : t.finalReport = some report)
    (hcoverage : t.finalCoverage = some coverage)
    (hmodel : W.model s.calls (buildMessages run.query t.finalEvidence (some report)) = .ok extraction)
    (hshows : ReasonShows ctx run.firstResult t.finalEvidence report coverage)
    (hreason : t.finalReason = some reason) (hne : reason ≠ "no_evidence") :
    ∃ env s', Returns W.eval (finalizeIteration texts ctx run) t s env t s' ∧ env.stopReason = reason := by
  obtain ⟨env, hanswer, hstop⟩ := reason_shown texts.checkClaim extraction.claims t.accounting hshows hne
  refine ⟨env, { s with calls := s.calls ++ [.invocation (buildMessages run.query t.finalEvidence (some report))] },
    ?_, hstop⟩
  unfold Returns
  rw [exec_finalizeIteration hreport hcoverage, hmodel, hreason]
  dsimp only
  rw [hanswer]

/-- The envelope of such a resume bears the stored reason. -/
theorem StaleReason.shown (h : W.StaleReason texts ctx request s ck firstResult corpus coverage) {reason : String}
    (hreason : ck.finalReason = some reason) (hne : reason ≠ "no_evidence") :
    ∃ env, (W.resume texts ctx request s).1.1 = .ok env ∧ env.stopReason = reason := by
  have hsurvives := survives_of_kept h.kept
  obtain ⟨extraction, hmodel⟩ := h.reason.modelled
  have hplan := (planGated_dropped texts s ck firstResult h.drops hsurvives request.runId).2 corpus h.resolved
  rw [h.resumes.resume_eq, exec_bind_congr hplan]
  suffices hanswers : ∃ env t' v, Returns W.eval
      (planRevoked texts ctx ck (ck.run request.runId firstResult corpus) (ck.evidence.filter (W.keeps ctx)) >>=
        followPlan texts ctx)
      (stateFromCheckpoint texts ck (ck.evidence.filter (W.keeps ctx)))
      { s with findings := s.findings ++ W.revocations ctx ck.evidence } env t' v ∧ env.stopReason = reason by
    obtain ⟨env, t', v, hreturns, hstop⟩ := hanswers
    exact ⟨env, congrArg (·.1.1) hreturns, hstop⟩
  have hplanned : Returns W.eval
      (planRevoked texts ctx ck (ck.run request.runId firstResult corpus) (ck.evidence.filter (W.keeps ctx)))
      (stateFromCheckpoint texts ck (ck.evidence.filter (W.keeps ctx)))
      { s with findings := s.findings ++ W.revocations ctx ck.evidence } _ _ _ :=
    returns_planRevoked h.kept h.judged
  have hkept : ((stateFromCheckpoint texts ck (ck.evidence.filter (W.keeps ctx))).reopened ck.status).finalReason =
      some reason := by
    unfold IterationState.reopened
    rw [if_neg (by simp [h.running])]
    exact hreason
  have hfinal (v : ChatStores) (hcalls : v.calls =
      s.calls ++ [.judgement ck.query ck.requiredFacts (W.recomputed texts ctx s ck).2]) :=
    returns_finalizeIteration (W := W) (s := v) texts (ck.run request.runId firstResult corpus) rfl
      (finalCoverage_recomputed _) (by rw [hcalls]; exact hmodel) (reasonShows_settled.mpr h.reason.shows)
      hkept hne
  let judged := judgedStores ck request.runId (W.recomputed texts ctx s ck).2
    { s with findings := s.findings ++ W.revocations ctx ck.evidence }
  unfold recomputedPlan at hplanned
  split at hplanned
  · obtain ⟨env, v, hreturns, hstop⟩ := hfinal
      { judged with checkpoints := CheckpointTable.markRunCheckpointDone judged.checkpoints request.runId false } rfl
    exact ⟨env, _, v, hplanned.bind ((returns_markDone _ rfl).bind hreturns), hstop⟩
  · rename_i hunsettled
    have hover : ck.maxRounds ≤ ck.roundIndex := by
      rcases h.reason.ends with hcontradicted | hsufficient | hover
      · exact absurd (.inl hcontradicted) hunsettled
      · exact absurd (.inr hsufficient) hunsettled
      · exact hover
    have hrounds : ((ck.run request.runId firstResult corpus).maxRounds - ck.roundIndex).toNat = 0 := by
      have hmax : (ck.run request.runId firstResult corpus).maxRounds = ck.maxRounds := rfl
      omega
    obtain ⟨env, v, hreturns, hstop⟩ := hfinal judged rfl
    have hloop := hreturns.bind (f := fun env => markDone (ck.args request.runId firstResult) >>= fun _ => pure env)
      ((returns_markDone _ rfl).bind returns_pure)
    have hfollow : followPlan texts ctx (.continues (ck.run request.runId firstResult corpus) ck.roundIndex) =
        (finalizeIteration texts ctx (ck.run request.runId firstResult corpus) >>= fun env =>
          markDone (ck.args request.runId firstResult) >>= fun _ => pure env) := by
      unfold followPlan
      dsimp only
      rw [hrounds]
      rfl
    rw [← hfollow] at hloop
    exact ⟨env, _, _, hplanned.bind hloop, hstop⟩

def reasoned (reason : String) : CheckpointView where
  view ck := { ck with finalReason := some reason }
  runId _ := rfl
  identity _ := rfl
  roundIndex _ := rfl
  status _ _ := rfl

theorem underived_reasoned (reason : String) (s : ChatStores) :
    underived.stores s = underived.stores ((reasoned reason).stores s) := by
  unfold CheckpointView.stores
  rw [List.map_map]
  rfl

/-- The reason plays no part in its staying. -/
theorem StaleReason.reasoned (h : W.StaleReason texts ctx request s ck firstResult corpus coverage)
    (reason : String) :
    W.StaleReason texts ctx request ((reasoned reason).stores s) { ck with finalReason := some reason } firstResult
      corpus coverage where
  resumes := { h.resumes with
    loaded := by
      have hloaded : CheckpointTable.loadRunCheckpoint (s.checkpoints.map (ChatWorld.reasoned reason).row)
          request.runId = _ := CheckpointView.loadRunCheckpoint_viewed
      rw [h.resumes.loaded] at hloaded
      exact hloaded }
  drops := h.drops
  running := h.running
  resolved := h.resolved
  kept := h.kept
  judged := h.judged
  reason := { h.reason with ends := h.reason.ends }

/-- The envelope and the calls of a resume that drops evidence do not depend on the derived state
of the checkpoint, unless the checkpoint is running and the recomputation ends the run with an
answer: that one bears the stored reason. -/
theorem derived_state_unread_iff (W : ChatWorld) (texts : ChatTexts) (ctx : SecurityContext)
    (request : ResumeRequest) (s : ChatStores) :
    (W.Drops ctx request s → ∀ s', underived.stores s = underived.stores s' →
      SameEnd (W.resume texts ctx request s) (W.resume texts ctx request s')) ↔
    ¬∃ ck firstResult corpus coverage, W.StaleReason texts ctx request s ck firstResult corpus coverage := by
  constructor
  · rintro hunread ⟨ck, firstResult, corpus, coverage, hstale⟩
    have hsame (reason : String) := hunread ⟨ck, firstResult, hstale.resumes, hstale.drops⟩
      ((reasoned reason).stores s) (underived_reasoned reason s)
    obtain ⟨env, henv, hstop⟩ := (hstale.reasoned "continue").shown rfl (by decide)
    obtain ⟨env', henv', hstop'⟩ := (hstale.reasoned "sufficient").shown rfl (by decide)
    have hequal := (hsame "continue").1.symm.trans (hsame "sufficient").1
    rw [henv, henv'] at hequal
    obtain rfl := Except.ok.inj hequal
    rw [hstop] at hstop'
    exact absurd hstop' (by decide)
  · rintro hnot ⟨ck, firstResult, hresumes, hdrops⟩ s' hs
    exact resume_sameEnd hresumes hdrops hs fun corpus coverage hstale =>
      hnot ⟨ck, firstResult, corpus, coverage, hstale⟩

end Main

namespace StaleReason.Sample

open RecomputationFaults.Sample Honest.Sample

/-- The judge is satisfied with the handbook. -/
def judging : ChatWorld := { world with judge := fun _ _ _ _ => .ok (.verdict .sufficient false) }

theorem stale : judging.StaleReason texts ctx request stores checkpoint
    { result with evidence := [office, gone] } hr (.verdict .sufficient false) where
  resumes := { RecomputationFaults.Sample.resumes with discovers := ⟨hr, rfl⟩ }
  drops := ⟨gone, by decide, by decide⟩
  running := rfl
  resolved := rfl
  kept := by decide
  judged := rfl
  reason := ⟨.inr (.inl rfl), ⟨_, rfl⟩, ⟨by decide, by decide, by decide, by decide⟩⟩

end StaleReason.Sample

/-- A memo is revoked while the run is in progress; the judge is satisfied with the handbook, and the
answer bears whatever reason the checkpoint holds. -/
theorem derived_state_unread_refuted :
    ¬∀ (W : ChatWorld) (texts : ChatTexts) (ctx : SecurityContext) (request : ResumeRequest) (s s' : ChatStores),
      W.Drops ctx request s → underived.stores s = underived.stores s' →
        SameEnd (W.resume texts ctx request s) (W.resume texts ctx request s') := by
  intro h
  have hstale := StaleReason.Sample.stale.reasoned "conflict_detected"
  obtain ⟨env, henv, hstop⟩ := StaleReason.Sample.stale.shown rfl (by decide)
  obtain ⟨env', henv', hstop'⟩ := hstale.shown rfl (by decide)
  have hsame := h StaleReason.Sample.judging RecomputationFaults.Sample.texts Honest.Sample.ctx
    RecomputationFaults.Sample.request RecomputationFaults.Sample.stores _
    ⟨_, _, StaleReason.Sample.stale.resumes, StaleReason.Sample.stale.drops⟩ (underived_reasoned "conflict_detected" _)
  rw [SameEnd, henv, henv'] at hsame
  obtain rfl := Except.ok.inj hsame.1
  rw [hstop] at hstop'
  exact absurd hstop' (by decide)

end ChatWorld

end AgenticRag
