import AgenticRag.Answer.Grounded
import AgenticRag.Evidence.PairwiseRules
import AgenticRag.Services.DerivedState

/-!
# Conclusions of runs

What a checkpoint concludes is the envelope that `resume_run` gives for it once the run is
completed and all its evidence is still authorized. It is the envelope of the state in which the
run has ended, provided that the checkpoint tells this state.
-/

namespace AgenticRag

open Method

section Envelope

variable (model : List Message → Except ChatError ClaimExtraction) (texts : ChatTexts) (ctx : SecurityContext)

def IterationState.envelope (t : IterationState) (query : String) (firstResult : FastPathResult) :
    Except ChatError AnswerEnvelope :=
  match model (buildMessages query t.finalEvidence t.finalReport) with
  | .error e => .error (.modelInvocation ("claim extraction failed for corpus " ++
      quoted firstResult.corpusId ++ ": " ++ e.text))
  | .ok extraction => buildAnswerEnvelope firstResult ctx extraction.claims t.finalCoverage
      (if t.finalCoverage.isSome then
        some (verifyAgainstEvidence texts.checkClaim extraction.claims t.finalEvidence)
      else none)
      t.accounting (some t.finalEvidence) t.finalReason t.finalReport

/-- The envelope of a state in which a run of a corpus ends. -/
def IterationState.conclusion (t : IterationState) (query corpusId : String) (firstResult : FastPathResult) :
    Except ChatError AnswerEnvelope :=
  if t.finalEvidence = [] then .ok (refusal ctx [corpusId] none t.accounting)
  else t.envelope model texts ctx query firstResult

def RunCheckpoint.ended (ck : RunCheckpoint) : IterationState :=
  stateFromCheckpoint texts { ck with status := .completed } ck.evidence

/-- The envelope that a completed checkpoint is resumed to. -/
def RunCheckpoint.conclusion (ck : RunCheckpoint) : Except ChatError AnswerEnvelope :=
  match ck.firstResult with
  | none => .error (.assertion "resumable checkpoint has no first_result")
  | some firstResult =>
    if ck.evidence = [] then .ok (refusal ctx [ck.corpusId] none ⟨1, 1, 1⟩)
    else (ck.ended texts).conclusion model texts ctx ck.query ck.corpusId firstResult

end Envelope

section Requests

/-- The envelope as another request of the caller bears it. -/
def AnswerEnvelope.forRequest (env : AnswerEnvelope) (requestId : String) : AnswerEnvelope :=
  { env with requestId := requestId }

/-- Two requests of one tenant in one session. -/
structure SecurityContext.Alike (ctx ctx' : SecurityContext) : Prop where
  tenant : ctx'.tenantId = ctx.tenantId
  session : ctx'.sessionId = ctx.sessionId

variable {model : List Message → Except ChatError ClaimExtraction} {texts : ChatTexts} {ctx ctx' : SecurityContext}

theorem SecurityContext.Alike.refusal (h : ctx.Alike ctx') (corporaUsed : List String)
    (coverage : Option SufficiencyResult) (accounting : Accounting) :
    refusal ctx' corporaUsed coverage accounting =
      (AgenticRag.refusal ctx corporaUsed coverage accounting).forRequest ctx'.requestId := by
  unfold AgenticRag.refusal AnswerEnvelope.forRequest
  rw [h.session]

theorem SecurityContext.Alike.checkEvidenceBinding (h : ctx.Alike ctx') (corpusId : String) (evs : List Evidence) :
    checkEvidenceBinding ctx' corpusId evs = AgenticRag.checkEvidenceBinding ctx corpusId evs := by
  induction evs with
  | nil => rfl
  | cons ev rest ih =>
    unfold AgenticRag.checkEvidenceBinding
    rw [h.tenant, ih]

theorem SecurityContext.Alike.checkTenantBinding (h : ctx.Alike ctx') (result : FastPathResult) :
    checkTenantBinding ctx' result = AgenticRag.checkTenantBinding ctx result := by
  unfold AgenticRag.checkTenantBinding
  rw [h.tenant, h.checkEvidenceBinding]

/-- The checks of an envelope do not look at the request. -/
theorem AnswerEnvelope.lockState_forRequest (env : AnswerEnvelope) (requestId : String) :
    (env.forRequest requestId).lockState = env.lockState.map (·.forRequest requestId) := by
  unfold lockState
  rw [show (env.forRequest requestId).checkState = env.checkState from rfl]
  cases env.checkState with
  | error e => rfl
  | ok checked => rfl

theorem SecurityContext.Alike.buildEnvelope (h : ctx.Alike ctx') (evidence : List Evidence) (claims : List Claim)
    (parts : AnswerParts) : buildEnvelopeFromEvidence ctx' evidence claims parts =
      (buildEnvelopeFromEvidence ctx evidence claims parts).map (·.forRequest ctx'.requestId) := by
  unfold buildEnvelopeFromEvidence
  dsimp only
  split
  · rw [buildRefusal_eq, buildRefusal_eq, h.refusal]
    rfl
  · rw [← AnswerEnvelope.lockState_forRequest, h.session]
    rfl

theorem SecurityContext.Alike.buildAnswerEnvelope (h : ctx.Alike ctx') (result : FastPathResult) (claims : List Claim)
    (coverage : Option SufficiencyResult) (verification : Option ClaimVerificationResult) (accounting : Accounting)
    (evidence : Option (List Evidence)) (stopReason : Option String) (report : Option ConflictReport)
    (hretrieved : result.evidence ≠ []) :
    buildAnswerEnvelope result ctx' claims coverage verification accounting evidence stopReason report =
      (AgenticRag.buildAnswerEnvelope result ctx claims coverage verification accounting evidence stopReason
        report).map (·.forRequest ctx'.requestId) := by
  have hsufficient : result.sufficiency ≠ .insufficient := by simp [FastPathResult.sufficiency, hretrieved]
  unfold AgenticRag.buildAnswerEnvelope
  rw [h.checkTenantBinding, h.checkEvidenceBinding, if_neg hsufficient, if_neg hsufficient, h.buildEnvelope]
  cases AgenticRag.checkTenantBinding ctx result with
  | error e => rfl
  | ok checked =>
    cases AgenticRag.checkEvidenceBinding ctx result.corpusId (evidence.getD result.evidence) with
    | error e => rfl
    | ok checked => rfl

/-- Requests of one caller are answered alike. -/
theorem SecurityContext.Alike.conclusion (h : ctx.Alike ctx') (ck : RunCheckpoint)
    (hretrieved : ∀ firstResult, ck.firstResult = some firstResult → firstResult.evidence ≠ []) :
    ck.conclusion model texts ctx' = (ck.conclusion model texts ctx).map (·.forRequest ctx'.requestId) := by
  unfold RunCheckpoint.conclusion
  cases hfirst : ck.firstResult with
  | none => rfl
  | some firstResult =>
    dsimp only
    split
    · rw [h.refusal]
      rfl
    unfold IterationState.conclusion
    split
    · rw [h.refusal]
      rfl
    unfold IterationState.envelope
    cases model (buildMessages ck.query (ck.ended texts).finalEvidence (ck.ended texts).finalReport) with
    | error e => rfl
    | ok extraction => exact h.buildAnswerEnvelope _ _ _ _ _ _ _ _ (hretrieved firstResult hfirst)

end Requests

section Evidence

/-- A part of a list without repetitions is told by its members. -/
theorem filter_mem_of_sublist {α : Type} [DecidableEq α] {part xs : List α} (hpart : part.Sublist xs) (h : xs.Nodup) :
    (xs.filter fun x => decide (x ∈ part)) = part := by
  induction hpart with
  | slnil => rfl
  | @cons part xs x hpart ih =>
    obtain ⟨hfresh, hrest⟩ := List.nodup_cons.mp h
    rw [List.filter_cons_of_neg (by simpa using fun hmem => hfresh (hpart.subset hmem))]
    exact ih hrest
  | @cons_cons part xs x hpart ih =>
    obtain ⟨hfresh, hrest⟩ := List.nodup_cons.mp h
    rw [List.filter_cons_of_pos (by simp)]
    congr 1
    refine Eq.trans ?_ (ih hrest)
    apply List.filter_congr
    intro y hy
    have hne : y ≠ x := fun hsame => hfresh (hsame ▸ hy)
    simp [hne]

/-- The snapshots that are listed by their ids have these ids. -/
theorem DistinctIds.ids_filter {evidence : List Evidence} {ids : List String} (h : DistinctIds evidence)
    (hids : ids.Sublist (evidence.map (·.evidenceId))) :
    (evidence.filter fun ev => decide (ev.evidenceId ∈ ids)).map (·.evidenceId) = ids := by
  have hfilter : (evidence.map (·.evidenceId)).filter (fun id => decide (id ∈ ids)) = _ := List.filter_map
  exact hfilter.symm.trans (filter_mem_of_sublist hids h)

/-- A part of evidence with distinct ids is told by its ids. -/
theorem DistinctIds.filter_ids {part evidence : List Evidence} (h : DistinctIds evidence)
    (hpart : part.Sublist evidence) :
    (evidence.filter fun ev => decide (ev.evidenceId ∈ part.map (·.evidenceId))) = part := by
  have hmem (ev : Evidence) (hev : ev ∈ evidence) : ev.evidenceId ∈ part.map (·.evidenceId) ↔ ev ∈ part := by
    refine ⟨fun hid => ?_, List.mem_map_of_mem⟩
    obtain ⟨other, hother, hsame⟩ := List.mem_map.mp hid
    exact h.eq (hpart.subset hother) hev hsame ▸ hother
  rw [List.filter_congr fun ev hev => by rw [decide_eq_decide.mpr (hmem ev hev)]]
  exact filter_mem_of_sublist hpart h.nodup

theorem byId_distinct (evidence : List Evidence) : DistinctIds (byId evidence) := by
  have hnil : Table.KeyUnique (·.evidenceId) ([] : List Evidence) := List.nodup_nil
  exact hnil.upsertAll evidence

theorem byId_of_distinct {evidence : List Evidence} (h : DistinctIds evidence) : byId evidence = evidence :=
  Table.upsertAll_of_nodup h

theorem mem_of_byId {evidence : List Evidence} {ev : Evidence} (h : ev ∈ byId evidence) : ev ∈ evidence := by
  rcases Table.mem_upsertAll.mp h with hlast | ⟨hnone, -⟩
  · exact List.mem_reverse.mp (List.mem_of_find?_eq_some hlast)
  · cases hnone

theorem byId_ne_nil {evidence : List Evidence} (h : evidence ≠ []) : byId evidence ≠ [] := by
  obtain ⟨ev, hev⟩ := List.exists_mem_of_ne_nil evidence h
  obtain ⟨row, -, -, hrow⟩ :
      ∃ row ∈ evidence, row.evidenceId = ev.evidenceId ∧ row ∈ byId evidence := Table.exists_mem_upsertAll hev
  exact List.ne_nil_of_mem hrow

end Evidence

section Soundness

/-- The snapshot came with the first result, or belongs to the tenant and corpus of the run. -/
def Evidence.Gathered (ev : Evidence) (tenantId corpusId : String) (firstResult : FastPathResult) : Prop :=
  ev ∈ firstResult.evidence ∨ (ev.tenantId = tenantId ∧ ev.corpusId = corpusId)

structure RunCheckpoint.Sound (ck : RunCheckpoint) (firstResult : FastPathResult) : Prop where
  first : ck.firstResult = some firstResult
  retrieved : firstResult.evidence ≠ []
  tenant : firstResult.tenantId = ck.tenantId
  corpus : firstResult.corpusId = ck.corpusId
  distinct : DistinctIds ck.evidence
  final : ck.finalEvidenceIds.Sublist (ck.evidence.map (·.evidenceId))
  gathered : ∀ ev ∈ ck.evidence, ev.Gathered ck.tenantId ck.corpusId firstResult

/-- The checkpoint tells the state, apart from what it knows to have been seen. -/
structure RunCheckpoint.Records (ck : RunCheckpoint) (t : IterationState) : Prop where
  evidence : ck.evidence = t.evidenceById
  priorQueries : ck.priorQueries = t.priorQueries
  retrievalCalls : ck.retrievalCalls = t.retrievalCalls
  gapRounds : ck.gapRounds = t.gapRounds
  finalReason : ck.finalReason = t.finalReason
  conflictStop : ck.conflictStop = t.conflictStop
  coverage : ck.coverage = t.coverage
  finalReport : ck.finalReport = t.finalReport
  finalEvidenceIds : ck.finalEvidenceIds = t.finalEvidence.map (·.evidenceId)

/-- What holds of the evidence of a run between its operations. -/
structure IterationState.Gathers (ctx : SecurityContext) (run : RunArgs) (t : IterationState) : Prop where
  nonempty : t.evidenceById ≠ []
  distinct : DistinctIds t.evidenceById
  gathered : ∀ ev ∈ t.evidenceById, ev.Gathered ctx.tenantId run.corpusId run.firstResult

/-- Between two rounds there is final evidence, a part of what has been gathered. -/
structure IterationState.Ready (ctx : SecurityContext) (run : RunArgs) (t : IterationState) : Prop
    extends t.Gathers ctx run where
  final : t.finalEvidence.Sublist t.evidenceById
  chosen : t.finalEvidence ≠ []

/-- A checkpointed run with a first result of its own request. -/
structure RunArgs.Regular (run : RunArgs) (ctx : SecurityContext) : Prop where
  saving : run.saving = true
  corpus : run.corpus.corpusId = run.corpusId
  retrieved : run.firstResult.evidence ≠ []
  tenant : run.firstResult.tenantId = ctx.tenantId
  firstCorpus : run.firstResult.corpusId = run.corpusId

variable {model : List Message → Except ChatError ClaimExtraction} {texts : ChatTexts} {ctx : SecurityContext}
  {run : RunArgs} {ck : RunCheckpoint} {firstResult : FastPathResult} {t t' : IterationState}

theorem checkpointOf_records (ctx : SecurityContext) (args : CheckpointArgs) (roundIndex : Int) (t : IterationState) :
    (checkpointOf ctx args roundIndex t).Records t :=
  ⟨rfl, rfl, rfl, rfl, rfl, rfl, rfl, rfl, rfl⟩

theorem checkpointOf_sound (hrun : run.Regular ctx) (ht : t.Gathers ctx run)
    (hfinal : t.finalEvidence.Sublist t.evidenceById) (roundIndex : Int) :
    (checkpointOf ctx run.toCheckpointArgs roundIndex t).Sound run.firstResult where
  first := rfl
  retrieved := hrun.retrieved
  tenant := hrun.tenant
  corpus := hrun.firstCorpus
  distinct := ht.distinct
  final := hfinal.map _
  gathered := ht.gathered

/-- The status is not part of what is told. -/
theorem RunCheckpoint.Records.of_status {status : CheckpointStatus}
    (h : RunCheckpoint.Records { ck with status := status } t) : ck.Records t :=
  ⟨h.evidence, h.priorQueries, h.retrievalCalls, h.gapRounds, h.finalReason, h.conflictStop, h.coverage, h.finalReport,
    h.finalEvidenceIds⟩

theorem RunCheckpoint.Sound.with_status (h : ck.Sound firstResult) (status : CheckpointStatus) :
    RunCheckpoint.Sound { ck with status := status } firstResult :=
  ⟨h.first, h.retrieved, h.tenant, h.corpus, h.distinct, h.final, h.gathered⟩

/-- The state in which a run is resumed with all its evidence, from a checkpoint that lists final
evidence or is completed. -/
theorem RunCheckpoint.Sound.records (h : ck.Sound firstResult)
    (hlists : ck.status = .completed ∨ ck.finalEvidenceIds ≠ []) :
    ck.Records (stateFromCheckpoint texts ck ck.evidence) where
  evidence := (byId_of_distinct h.distinct).symm
  priorQueries := rfl
  retrievalCalls := rfl
  gapRounds := rfl
  finalReason := rfl
  conflictStop := rfl
  coverage := rfl
  finalReport := rfl
  finalEvidenceIds := by
    unfold stateFromCheckpoint
    dsimp only
    by_cases hnone : ck.finalEvidenceIds = []
    · have hcompleted := hlists.resolve_right (not_not.mpr hnone)
      rw [if_pos ⟨hcompleted, hnone⟩, hnone, List.map_nil]
    · rw [if_neg fun hboth => hnone hboth.2, if_neg hnone]
      exact (h.distinct.ids_filter h.final).symm

/-- A retrieved snapshot replaces the one with its id, or is added. -/
theorem IterationState.accumulate_evidence (t : IterationState) (ev : Evidence) :
    (t.accumulate ev).evidenceById = Table.upsert (·.evidenceId) t.evidenceById ev ∨
      (t.accumulate ev).evidenceById = t.evidenceById := by
  unfold accumulate
  dsimp only
  split
  · rename_i hnone
    exact .inl (Table.upsert_of_none hnone).symm
  · split
    · exact .inl rfl
    · exact .inr rfl

/-- A snapshot that belongs to the run is accumulated. -/
theorem IterationState.Gathers.accumulate (ht : t.Gathers ctx run) {ev : Evidence}
    (hev : ev.tenantId = ctx.tenantId ∧ ev.corpusId = run.corpusId) : (t.accumulate ev).Gathers ctx run := by
  rcases t.accumulate_evidence ev with hupsert | hsame
  · constructor
    · rw [hupsert]
      exact List.ne_nil_of_mem (Table.mem_upsert.mpr (.inl rfl))
    · rw [hupsert]
      exact Table.KeyUnique.upsert ht.distinct ev
    · intro other hother
      rw [hupsert] at hother
      rcases Table.mem_upsert.mp hother with rfl | ⟨hmem, -⟩
      · exact .inr hev
      · exact ht.gathered other hmem
  · constructor
    · rw [hsame]
      exact ht.nonempty
    · rw [hsame]
      exact ht.distinct
    · rw [hsame]
      exact ht.gathered

theorem absorb_gathers {evs : List Evidence} {gain gain' : Gain} (hcorpus : run.corpus.corpusId = run.corpusId)
    (h : absorb ctx run evs t gain = .ok (t', gain')) (ht : t.Gathers ctx run) : t'.Gathers ctx run := by
  induction evs generalizing t gain with
  | nil =>
    obtain ⟨rfl, -⟩ := Prod.mk.inj (Except.ok.inj h)
    exact ht
  | cons ev rest ih =>
    unfold absorb at h
    split at h
    · cases h
    · rename_i hbound
      simp only [not_or, ne_eq, not_not] at hbound
      exact ih h (ht.accumulate ⟨hbound.1, hbound.2.trans hcorpus⟩)

/-- The final evidence of a completed checkpoint. -/
theorem RunCheckpoint.Records.finalEvidence (hrecords : ck.Records t) (hdistinct : DistinctIds ck.evidence)
    (hfinal : t.finalEvidence.Sublist t.evidenceById) : (ck.ended texts).finalEvidence = t.finalEvidence := by
  have hids := hrecords.finalEvidenceIds
  unfold ended stateFromCheckpoint
  dsimp only
  by_cases hnone : t.finalEvidence = []
  · have hempty : ck.finalEvidenceIds = [] := by rw [hids, hnone, List.map_nil]
    rw [if_pos ⟨rfl, hempty⟩, hnone]
  · have hsome : ck.finalEvidenceIds ≠ [] := by
      rw [hids]
      simpa using hnone
    rw [if_neg fun h => hsome h.2, if_neg hsome, hids]
    have hevidence := hrecords.evidence
    rw [hevidence] at hdistinct ⊢
    exact hdistinct.filter_ids hfinal

/-- A state and its checkpoint conclude the same. -/
theorem RunCheckpoint.Records.conclusion (hrecords : ck.Records t) (hsound : ck.Sound firstResult)
    (hsome : t.evidenceById ≠ []) (hfinal : t.finalEvidence.Sublist t.evidenceById) :
    ck.conclusion model texts ctx = t.conclusion model texts ctx ck.query ck.corpusId firstResult := by
  have hevidence : ck.evidence ≠ [] := by
    rw [hrecords.evidence]
    exact hsome
  have hended : (ck.ended texts).finalEvidence = t.finalEvidence := hrecords.finalEvidence hsound.distinct hfinal
  have hreport : (ck.ended texts).finalReport = t.finalReport := hrecords.finalReport
  have hreason : (ck.ended texts).finalReason = t.finalReason := hrecords.finalReason
  have haccounting : (ck.ended texts).accounting = t.accounting := by
    unfold IterationState.accounting ended stateFromCheckpoint
    dsimp only
    rw [hrecords.gapRounds, hrecords.retrievalCalls]
  have hcoverage : (ck.ended texts).finalCoverage = t.finalCoverage := by
    unfold IterationState.finalCoverage ended stateFromCheckpoint
    dsimp only
    rw [hrecords.conflictStop, hrecords.finalReport, hrecords.coverage]
  unfold RunCheckpoint.conclusion
  rw [hsound.first]
  dsimp only
  rw [if_neg hevidence]
  unfold IterationState.conclusion IterationState.envelope
  rw [hended, hreport, hreason, haccounting, hcoverage]

/-- After a fault of the judge the state is synthesized to the refusal that has been returned,
provided that the model answers. -/
theorem IterationState.Gathers.envelope_faulted (ht : t.Gathers ctx run) (hrun : run.Regular ctx)
    (hfinal : t.finalEvidence.Sublist t.evidenceById) (hmodel : ∀ messages, ∃ extraction, model messages = .ok extraction)
    (hcoverage : t.coverage = some .abstaining) (hstop : t.conflictStop = false)
    (hreport : ¬isContradicted t.finalReport) {env : AnswerEnvelope}
    (henv : conservativeRefusal run.firstResult ctx (some .abstaining) t.accounting = .ok env) :
    t.envelope model texts ctx run.query run.firstResult = .ok env := by
  have hcovered : t.finalCoverage = some .abstaining := by
    unfold IterationState.finalCoverage
    rw [if_neg (by simp [hstop]), hcoverage]
  rw [conservativeRefusal_eq] at henv
  cases hchecked : checkTenantBinding ctx run.firstResult with
  | error e => simp [hchecked, Except.map] at henv
  | ok u =>
    rw [hchecked] at henv
    obtain rfl := Except.ok.inj henv
    have hbound : ∀ ev ∈ t.finalEvidence, ev.tenantId = ctx.tenantId ∧ ev.corpusId = run.firstResult.corpusId := by
      intro ev hev
      have hfirst : checkEvidenceBinding ctx run.firstResult.corpusId run.firstResult.evidence = .ok () := by
        unfold checkTenantBinding at hchecked
        rwa [if_neg (by simp [hrun.tenant])] at hchecked
      rcases ht.gathered ev (hfinal.subset hev) with hmem | ⟨htenant, hcorpus⟩
      · exact checkEvidenceBinding_bound hfirst ev hmem
      · exact ⟨htenant, hcorpus.trans hrun.firstCorpus.symm⟩
    obtain ⟨extraction, hextraction⟩ := hmodel (buildMessages run.query t.finalEvidence t.finalReport)
    have hsufficient : run.firstResult.sufficiency ≠ .insufficient := by
      simp [FastPathResult.sufficiency, hrun.retrieved]
    unfold IterationState.envelope
    rw [hextraction, hcovered]
    dsimp only
    unfold buildAnswerEnvelope
    simp only [hchecked, hsufficient, if_false, Option.getD_some, checkEvidenceBinding_ok hbound]
    unfold buildEnvelopeFromEvidence
    have hverdict := (ChatWorld.verdict_insufficient
      ⟨some .abstaining, some (verifyAgainstEvidence texts.checkClaim extraction.claims t.finalEvidence),
        t.accounting, [], false, t.finalReason, run.firstResult.stopReason, [run.firstResult.corpusId],
        t.finalReport⟩ rfl (verifyAgainstEvidence texts.checkClaim extraction.claims t.finalEvidence)).mpr
      ⟨hreport, rfl⟩
    simp only [Option.isSome_some, if_true, Option.getD_some]
    rw [if_pos hverdict, buildRefusal_eq]
    rfl

end Soundness

end AgenticRag
