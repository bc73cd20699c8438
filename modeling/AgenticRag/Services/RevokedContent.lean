import AgenticRag.Services.CheckpointViews
import AgenticRag.Services.JudgeFaults

/-!
# The content of revoked evidence

A checkpoint still holds what its reader may no longer see, among the accumulated evidence and
in the first result. Redaction takes the content of such evidence away. Two resumes from
checkpoints with the same redaction make the same calls and end alike, so the content reaches
neither the retriever nor the judge, neither the model nor the caller.
-/

namespace AgenticRag

open Method

/-- A snapshot without its content: section path, text, text hash, authority and effective
window. -/
def Evidence.record (ev : Evidence) : Evidence :=
  { ev with
    sectionPath := []
    text := ""
    textHash := ""
    authorityLevel := 0
    effectiveFrom := none
    effectiveTo := none }

namespace ChatWorld

section Redaction

variable (W : ChatWorld) (ctx : SecurityContext)

/-- Evidence as it is while it is authorized, and without its content otherwise. -/
def redact (ev : Evidence) : Evidence := if W.keeps ctx ev then ev else ev.record

def redactFirst (result : FastPathResult) : FastPathResult :=
  { result with evidence := result.evidence.map (W.redact ctx) }

/-- The hashes of all texts seen are taken away as well. -/
def redactCheckpoint (ck : RunCheckpoint) : RunCheckpoint :=
  { ck with
    evidence := ck.evidence.map (W.redact ctx)
    firstResult := ck.firstResult.map (W.redactFirst ctx)
    seenTextHashes := [] }

def redactRow (row : CheckpointRow) : CheckpointRow :=
  { row with state := W.redactCheckpoint ctx row.state }

/-- The checkpoints are redacted; calls and findings stay. -/
def redactStores (s : ChatStores) : ChatStores :=
  { s with checkpoints := s.checkpoints.map (W.redactRow ctx) }

def redactArgs (args : CheckpointArgs) : CheckpointArgs :=
  { args with firstResult := W.redactFirst ctx args.firstResult }

def redactRun (run : RunArgs) : RunArgs :=
  { run with firstResult := W.redactFirst ctx run.firstResult }

end Redaction

section Evidence

variable {W : ChatWorld} {ctx : SecurityContext} {ev : Evidence} {evidence evidence' : List Evidence}
  {result result' : FastPathResult}

/-- Re-authorization does not look at the content. -/
theorem verdict_record : W.verdict ctx ev.record = W.verdict ctx ev := rfl

theorem verdict_redact : W.verdict ctx (W.redact ctx ev) = W.verdict ctx ev := by
  unfold redact
  split
  · rfl
  · exact verdict_record

theorem keeps_redact : W.keeps ctx (W.redact ctx ev) = W.keeps ctx ev :=
  congrArg Prod.fst verdict_redact

theorem redact_kept (h : W.keeps ctx ev = true) : W.redact ctx ev = ev := if_pos h

theorem redact_redact : W.redact ctx (W.redact ctx ev) = W.redact ctx ev := by
  by_cases h : W.keeps ctx ev = true
  · rw [redact_kept h, redact_kept h]
  · have hkept : W.redact ctx ev = ev.record := if_neg h
    rw [redact, keeps_redact, if_neg h, hkept]
    rfl

/-- What redaction leaves alone for the binding checks. -/
theorem redact_binding (W : ChatWorld) (ctx : SecurityContext) (ev : Evidence) : (W.redact ctx ev).evidenceId = ev.evidenceId ∧
    (W.redact ctx ev).tenantId = ev.tenantId ∧ (W.redact ctx ev).corpusId = ev.corpusId := by
  unfold redact
  split <;> exact ⟨rfl, rfl, rfl⟩

theorem filter_redacted :
    (evidence.map (W.redact ctx)).filter (W.keeps ctx) = evidence.filter (W.keeps ctx) := by
  induction evidence with
  | nil => rfl
  | cons ev rest ih =>
    simp only [List.map_cons, List.filter_cons, keeps_redact, ih]
    split
    · rename_i h
      rw [redact_kept h]
    · rfl

theorem revocations_redacted :
    W.revocations ctx (evidence.map (W.redact ctx)) = W.revocations ctx evidence := by
  induction evidence with
  | nil => rfl
  | cons ev rest ih =>
    unfold revocations at ih ⊢
    simp only [List.map_cons, List.filter_cons, keeps_redact]
    split
    · rename_i h
      have hfinding : revokedFinding (W.redact ctx ev) (W.verdict ctx (W.redact ctx ev)).2 =
          revokedFinding ev (W.verdict ctx ev).2 := by
        have hkeeps : ¬W.keeps ctx ev = true := by simpa using h
        rw [verdict_redact, redact, if_neg hkeeps]
        rfl
      rw [List.map_cons, List.map_cons, hfinding, ih]
    · exact ih

theorem dropped_redacted :
    ((evidence.map (W.redact ctx)).filter fun ev => !W.keeps ctx ev) = [] ↔
      (evidence.filter fun ev => !W.keeps ctx ev) = [] := by
  simp only [List.filter_eq_nil_iff, List.forall_mem_map, keeps_redact]

/-- Evidence with the same redaction is re-authorized alike. -/
theorem reauthorized_congr (h : evidence.map (W.redact ctx) = evidence'.map (W.redact ctx)) :
    evidence.filter (W.keeps ctx) = evidence'.filter (W.keeps ctx) ∧
      W.revocations ctx evidence = W.revocations ctx evidence' ∧
      ((evidence.filter fun ev => !W.keeps ctx ev) = [] ↔
        (evidence'.filter fun ev => !W.keeps ctx ev) = []) := by
  refine ⟨?_, ?_, ?_⟩
  · rw [← filter_redacted, h, filter_redacted]
  · rw [← revocations_redacted, h, revocations_redacted]
  · rw [← dropped_redacted, h, dropped_redacted]

theorem checkEvidenceBinding_redacted {corpusId : String} :
    checkEvidenceBinding ctx corpusId (evidence.map (W.redact ctx)) =
      checkEvidenceBinding ctx corpusId evidence := by
  induction evidence with
  | nil => rfl
  | cons ev rest ih =>
    obtain ⟨hid, htenant, hcorpus⟩ := redact_binding W ctx ev
    simp only [List.map_cons, checkEvidenceBinding, hid, htenant, hcorpus, ih]

theorem checkTenantBinding_redacted :
    checkTenantBinding ctx (W.redactFirst ctx result) = checkTenantBinding ctx result := by
  unfold checkTenantBinding redactFirst
  rw [checkEvidenceBinding_redacted]

theorem sufficiency_redacted : (W.redactFirst ctx result).sufficiency = result.sufficiency := by
  unfold FastPathResult.sufficiency redactFirst
  simp only [List.map_eq_nil_iff]

theorem stopReason_redacted : (W.redactFirst ctx result).stopReason = result.stopReason := by
  unfold FastPathResult.stopReason redactFirst
  simp only [List.map_eq_nil_iff]

/-- The first result enters a refusal without the content of its evidence. -/
theorem conservativeRefusal_redacted {coverage : Option SufficiencyResult} {accounting : Accounting} :
    conservativeRefusal (W.redactFirst ctx result) ctx coverage accounting =
      conservativeRefusal result ctx coverage accounting := by
  unfold conservativeRefusal
  rw [checkTenantBinding_redacted, sufficiency_redacted]
  rfl

/-- So it does an answer from other evidence. -/
theorem buildAnswerEnvelope_redacted {claims : List Claim} {coverage : Option SufficiencyResult}
    {verification : Option ClaimVerificationResult} {accounting : Accounting}
    {stopReason : Option String} {report : Option ConflictReport} :
    buildAnswerEnvelope (W.redactFirst ctx result) ctx claims coverage verification accounting
        (some evidence) stopReason report =
      buildAnswerEnvelope result ctx claims coverage verification accounting (some evidence) stopReason
        report := by
  unfold buildAnswerEnvelope
  rw [checkTenantBinding_redacted, sufficiency_redacted, stopReason_redacted, conservativeRefusal_redacted]
  rfl

theorem redactFirst_redactFirst : W.redactFirst ctx (W.redactFirst ctx result) = W.redactFirst ctx result := by
  unfold redactFirst
  simp only [List.map_map, Function.comp_def, redact_redact]

end Evidence

def redaction (W : ChatWorld) (ctx : SecurityContext) : CheckpointView where
  view := W.redactCheckpoint ctx
  runId _ := rfl
  identity _ := rfl
  roundIndex _ := rfl
  status _ _ := rfl

/-- What stores with the same redaction have in common. -/
theorem redactStores_eq {W : ChatWorld} {ctx : SecurityContext} {s s' : ChatStores}
    (h : W.redactStores ctx s = W.redactStores ctx s') :
    s.calls = s'.calls ∧ s.findings = s'.findings ∧
      s.checkpoints.map (W.redactRow ctx) = s'.checkpoints.map (W.redactRow ctx) :=
  CheckpointView.stores_eq (v := W.redaction ctx) h

section Runs

variable {W : ChatWorld} {texts : ChatTexts} {ctx : SecurityContext} {run run' : RunArgs}
  {args args' : CheckpointArgs} {ck : RunCheckpoint} {α β : Type}

/-- From the same attributes the methods end alike, wherever the stores have the same
redaction. -/
abbrev AlikeRedacted (W : ChatWorld) (ctx : SecurityContext)
    (Q : α → IterationState → β → IterationState → Prop) (m : ChatMethod α) (n : ChatMethod β) : Prop :=
  Alike W.eval (fun s s' => W.redactStores ctx s = W.redactStores ctx s') Eq Q m n

theorem alike_of_serving {m : ChatMethod α} (hm : Serving (fun _ => True) m) :
    W.AlikeRedacted ctx Same m m :=
  CheckpointView.alike_of_serving (v := W.redaction ctx) hm

theorem judgeFaultRound_redacted (report : ConflictReport) (kept : List Evidence) :
    judgeFaultRound ctx (W.redactRun ctx run) report kept = judgeFaultRound ctx run report kept := by
  unfold judgeFaultRound redactRun
  simp only [conservativeRefusal_redacted]

theorem absorb_redacted (evs : List Evidence) (state : IterationState) (gain : Gain) :
    absorb ctx (W.redactRun ctx run) evs state gain = absorb ctx run evs state gain := by
  induction evs generalizing state gain with
  | nil => rfl
  | cons ev rest ih =>
    unfold absorb
    rw [ih]
    rfl

/-- A round looks at the first result only for a refusal. -/
theorem runRound_redacted (roundIdx : Int) :
    runRound texts ctx (W.redactRun ctx run) roundIdx = runRound texts ctx run roundIdx := by
  have hassess (gain : Gain) : assessRound texts ctx (W.redactRun ctx run) roundIdx gain =
      assessRound texts ctx run roundIdx gain := by
    unfold assessRound
    simp only [judgeFaultRound_redacted]
    rfl
  have hretrieval (query : String) : gapRetrieval ctx (W.redactRun ctx run) query roundIdx =
      gapRetrieval ctx run query roundIdx := by
    unfold gapRetrieval
    simp only [absorb_redacted]
    rfl
  unfold runRound
  simp only [hassess, hretrieval]

theorem finalizeIteration_redacted :
    finalizeIteration texts ctx (W.redactRun ctx run) = finalizeIteration texts ctx run := by
  unfold finalizeIteration synthesize redactRun
  simp only [buildAnswerEnvelope_redacted]
  rfl

theorem checkpointOf_redacted (roundIndex : Int) (t : IterationState) :
    W.redactCheckpoint ctx (checkpointOf ctx (W.redactArgs ctx args) roundIndex t) =
      W.redactCheckpoint ctx (checkpointOf ctx args roundIndex t) := by
  simp only [redactCheckpoint, checkpointOf, redactArgs, Option.map_some, redactFirst_redactFirst]

/-- The arguments of two runs that differ in revoked content. -/
theorem redactArgs_eq (h : W.redactArgs ctx args = W.redactArgs ctx args') :
    args.saving = args'.saving ∧ args.runId = args'.runId := by
  obtain ⟨hrun, -, -, -, -, -, hsaving⟩ := CheckpointArgs.mk.inj h
  exact ⟨hsaving, hrun⟩

theorem saveCheckpoint_alike (h : W.redactArgs ctx args = W.redactArgs ctx args') (roundIndex : Int) :
    W.AlikeRedacted ctx Same (saveCheckpoint ctx args roundIndex) (saveCheckpoint ctx args' roundIndex) := by
  refine Alike.bind_same (alike_of_serving Uses.self) fun t => ?_
  rw [(redactArgs_eq h).1]
  split
  · have hck : W.redactCheckpoint ctx (checkpointOf ctx args roundIndex t) =
        W.redactCheckpoint ctx (checkpointOf ctx args' roundIndex t) := by
      rw [← checkpointOf_redacted, h, checkpointOf_redacted]
    exact Alike.perform_same fun s s' hs => CheckpointView.save_alike (v := W.redaction ctx) hck hs
  · exact alike_of_serving (Uses.pure ())

theorem markDone_alike (h : W.redactArgs ctx args = W.redactArgs ctx args') :
    W.AlikeRedacted ctx Same (markDone args) (markDone args') := by
  have hsame : markDone args = markDone args' := by
    unfold markDone
    rw [(redactArgs_eq h).1, (redactArgs_eq h).2]
  rw [hsame]
  exact alike_of_serving (serving_markDone args')

theorem redactRun_eq (h : W.redactRun ctx run = W.redactRun ctx run') :
    W.redactArgs ctx run.toCheckpointArgs = W.redactArgs ctx run'.toCheckpointArgs ∧
      W.redactFirst ctx run.firstResult = W.redactFirst ctx run'.firstResult ∧ run.maxRounds = run'.maxRounds := by
  obtain ⟨hargs, -⟩ := RunArgs.mk.inj h
  have hfields := CheckpointArgs.mk.inj hargs
  exact ⟨hargs, hfields.2.2.2.2.2.1, hfields.2.2.2.1⟩

theorem finalizeIteration_alike (h : W.redactRun ctx run = W.redactRun ctx run') :
    W.AlikeRedacted ctx Same (finalizeIteration texts ctx run) (finalizeIteration texts ctx run') := by
  have hsame : finalizeIteration texts ctx run = finalizeIteration texts ctx run' := by
    rw [← finalizeIteration_redacted (W := W), h, finalizeIteration_redacted]
  rw [hsame]
  exact alike_of_serving serving_finalizeIteration

theorem loopRounds_alike (h : W.redactRun ctx run = W.redactRun ctx run') (rounds : Nat) (roundIdx : Int) :
    W.AlikeRedacted ctx Same (loopRounds texts ctx run rounds roundIdx)
      (loopRounds texts ctx run' rounds roundIdx) := by
  obtain ⟨hargs, -, -⟩ := redactRun_eq h
  induction rounds generalizing roundIdx with
  | zero =>
    refine Alike.bind_same (finalizeIteration_alike h) fun env => ?_
    exact Alike.bind_same (markDone_alike hargs) fun _ => alike_of_serving (Uses.pure env)
  | succ rounds ih =>
    have hround : runRound texts ctx run roundIdx = runRound texts ctx run' roundIdx := by
      rw [← runRound_redacted (W := W), h, runRound_redacted]
    unfold loopRounds
    rw [hround]
    refine Alike.bind_same (alike_of_serving (serving_runRound trivial roundIdx)) fun outcome => ?_
    cases outcome with
    | broken =>
      refine Alike.bind_same (saveCheckpoint_alike hargs _) fun _ => ?_
      exact Alike.bind_same (markDone_alike hargs) fun _ => finalizeIteration_alike h
    | terminal env =>
      refine Alike.bind_same (saveCheckpoint_alike hargs _) fun _ => ?_
      exact Alike.bind_same (markDone_alike hargs) fun _ => alike_of_serving (Uses.pure env)
    | proceeds => exact Alike.bind_same (saveCheckpoint_alike hargs _) fun _ => ih (roundIdx + 1)

end Runs

section Plans

variable {W : ChatWorld} {texts : ChatTexts} {ctx : SecurityContext} {run run' : RunArgs}
  {ck ck' : RunCheckpoint} {runId : String} {firstResult firstResult' : FastPathResult}

def redactPlan (W : ChatWorld) (ctx : SecurityContext) : ResumePlan → ResumePlan
  | .returns env => .returns env
  | .finalizes run => .finalizes (W.redactRun ctx run)
  | .continues run roundIndex => .continues (W.redactRun ctx run) roundIndex

/-- The same plan up to revoked content, and equal attributes. -/
def SamePlan (W : ChatWorld) (ctx : SecurityContext) (plan : ResumePlan) (t : IterationState)
    (plan' : ResumePlan) (t' : IterationState) : Prop :=
  W.redactPlan ctx plan = W.redactPlan ctx plan' ∧ t = t'

theorem followPlan_alike {plan plan' : ResumePlan} (h : W.redactPlan ctx plan = W.redactPlan ctx plan') :
    W.AlikeRedacted ctx Same (followPlan texts ctx plan) (followPlan texts ctx plan') := by
  cases plan with
  | returns env =>
    cases plan' with
    | returns env' =>
      obtain rfl := ResumePlan.returns.inj h
      exact alike_of_serving (Uses.pure env)
    | finalizes run' => cases h
    | continues run' roundIndex' => cases h
  | finalizes run =>
    cases plan' with
    | returns env' => cases h
    | finalizes run' =>
      have hrun := ResumePlan.finalizes.inj h
      exact Alike.bind_same (markDone_alike (redactRun_eq hrun).1) fun _ => finalizeIteration_alike hrun
    | continues run' roundIndex' => cases h
  | continues run roundIndex =>
    cases plan' with
    | returns env' => cases h
    | finalizes run' => cases h
    | continues run' roundIndex' =>
      obtain ⟨hrun, rfl⟩ := ResumePlan.continues.inj h
      simp only [followPlan, (redactRun_eq hrun).2.2]
      exact loopRounds_alike hrun _ _

/-- Checkpoints with the same redaction differ in evidence, first result and text hashes at
most. -/
theorem redactCheckpoint_eq (h : W.redactCheckpoint ctx ck = W.redactCheckpoint ctx ck') :
    ∃ evidence first hashes,
      ck' = { ck with evidence := evidence, firstResult := first, seenTextHashes := hashes } ∧
      ck.evidence.map (W.redact ctx) = evidence.map (W.redact ctx) ∧
      ck.firstResult.map (W.redactFirst ctx) = first.map (W.redactFirst ctx) := by
  refine ⟨ck'.evidence, ck'.firstResult, ck'.seenTextHashes, ?_, ?_, ?_⟩
  · cases ck
    cases ck'
    simp only [redactCheckpoint, RunCheckpoint.mk.injEq] at h ⊢
    simp only [h, and_self]
  · exact (RunCheckpoint.mk.inj h).2.2.2.2.2.2.2.2.2.2.2.1
  · exact (RunCheckpoint.mk.inj h).2.2.2.2.2.2.2.2.2.2.2.2.2.2.2.2.2.2.2.2.2.2

theorem redactArgs_congr (h : W.redactFirst ctx firstResult = W.redactFirst ctx firstResult') :
    W.redactArgs ctx (ck.args runId firstResult) = W.redactArgs ctx (ck.args runId firstResult') := by
  simp only [redactArgs, RunCheckpoint.args, h]

theorem endWithoutEvidence_alike (h : W.redactFirst ctx firstResult = W.redactFirst ctx firstResult')
    (report : Option ConflictReport) (reason : String) :
    W.AlikeRedacted ctx Same (endWithoutEvidence ctx runId ck firstResult report reason)
      (endWithoutEvidence ctx runId ck firstResult' report reason) := by
  refine Alike.bind_same (alike_of_serving (Uses.assign _)) fun _ => ?_
  refine Alike.bind_same (saveCheckpoint_alike (redactArgs_congr h) _) fun _ => ?_
  exact markDone_alike (redactArgs_congr h)

theorem planRevoked_alike (h : W.redactRun ctx run = W.redactRun ctx run') (surviving : List Evidence) :
    W.AlikeRedacted ctx (W.SamePlan ctx) (planRevoked texts ctx ck run surviving)
      (planRevoked texts ctx ck run' surviving) := by
  obtain ⟨hargs, hfirst, -⟩ := redactRun_eq h
  have hrun : run.runId = run'.runId := (redactArgs_eq hargs).2
  unfold planRevoked
  rw [hrun]
  refine Alike.bind_same (alike_of_serving (serving_reopen _ _)) fun _ => ?_
  refine Alike.bind_same (alike_of_serving (serving_conflictStage _ _ _)) fun staged => ?_
  obtain ⟨report, kept⟩ := staged
  dsimp only
  split
  · refine Alike.bind_same (endWithoutEvidence_alike hfirst _ _) fun _ => ?_
    refine Alike.bind_same (alike_of_serving Uses.self) fun state => ?_
    refine Alike.bind_same (alike_of_serving (serving_ofExcept _)) fun env => ?_
    exact Alike.pure fun t t' ht => ⟨rfl, ht⟩
  · refine Alike.bind_same (alike_of_serving (Uses.assign _)) fun _ => ?_
    refine Alike.bind_same (alike_of_serving (Uses.perform trivial)) fun coverage => ?_
    refine Alike.bind_same (alike_of_serving (Uses.assign _)) fun _ => ?_
    split
    · refine Alike.bind_same (alike_of_serving (Uses.assign _)) fun _ => ?_
      exact Alike.pure fun t t' ht => ⟨congrArg ResumePlan.finalizes h, ht⟩
    split
    · exact Alike.pure fun t t' ht => ⟨congrArg ResumePlan.finalizes h, ht⟩
    · exact Alike.pure fun t t' ht => ⟨congrArg (ResumePlan.continues · ck.roundIndex) h, ht⟩

theorem planUnchanged_alike (h : W.redactRun ctx run = W.redactRun ctx run') :
    W.AlikeRedacted ctx (W.SamePlan ctx) (planUnchanged ctx ck run) (planUnchanged ctx ck run') := by
  unfold planUnchanged
  split
  · refine Alike.bind_same (alike_of_serving Uses.self) fun state => ?_
    split
    · refine Alike.bind_same (alike_of_serving (serving_ofExcept _)) fun env => ?_
      exact Alike.pure fun t t' ht => ⟨rfl, ht⟩
    · exact Alike.pure fun t t' ht => ⟨congrArg ResumePlan.finalizes h, ht⟩
  · exact Alike.pure fun t t' ht => ⟨congrArg (ResumePlan.continues · ck.roundIndex) h, ht⟩

/-- Re-authorization divides evidence with the same redaction alike. -/
theorem reauthorizeAll_alike {evidence evidence' : List Evidence}
    (h : evidence.map (W.redact ctx) = evidence'.map (W.redact ctx)) :
    W.AlikeRedacted ctx
      (fun divided t divided' t' =>
        divided.1 = divided'.1 ∧ (divided.2 = [] ↔ divided'.2 = []) ∧ t = t')
      (reauthorizeAll ctx evidence) (reauthorizeAll ctx evidence') := by
  rintro t t' s s' rfl hs
  obtain ⟨hsurviving, hrevocations, hdropped⟩ := reauthorized_congr h
  obtain ⟨hcalls, hfindings, hrows⟩ := redactStores_eq hs
  have hrun : (reauthorizeAll ctx evidence t).exec W.eval s = _ := returns_reauthorizeAll evidence
  have hrun' : (reauthorizeAll ctx evidence' t).exec W.eval s' = _ := returns_reauthorizeAll evidence'
  rw [hrun, hrun']
  refine ⟨⟨hsurviving, hdropped, rfl⟩, ?_⟩
  simp only [redactStores, hcalls, hfindings, hrows, hrevocations]

/-- What `planGated` makes of the divided evidence. -/
def planDivided (texts : ChatTexts) (ctx : SecurityContext) (runId : String) (ck : RunCheckpoint)
    (firstResult : FastPathResult) (surviving dropped : List Evidence) : ChatMethod ResumePlan := do
  if surviving = [] then
    Method.assign fun _ => stateFromCheckpoint texts ck []
    endWithoutEvidence ctx runId ck firstResult none "all_evidence_revoked"
    let env ← Method.ofExcept (buildNoEvidenceRefusal ctx [ck.corpusId] ⟨1, 1, 1⟩)
    pure (.returns env)
  else
    let corpus ← Method.perform (.resolveCorpus ck.corpusId)
    Method.assign fun _ => stateFromCheckpoint texts ck surviving
    if dropped ≠ [] then planRevoked texts ctx ck (ck.run runId firstResult corpus) surviving
    else planUnchanged ctx ck (ck.run runId firstResult corpus)

theorem planGated_eq : planGated texts ctx runId ck firstResult =
    reauthorizeAll ctx ck.evidence >>= fun divided =>
      planDivided texts ctx runId ck firstResult divided.1 divided.2 := rfl

theorem planDivided_alike (hfirst : W.redactFirst ctx firstResult = W.redactFirst ctx firstResult')
    (surviving : List Evidence) {dropped dropped' : List Evidence} (hdropped : dropped = [] ↔ dropped' = []) :
    W.AlikeRedacted ctx (W.SamePlan ctx) (planDivided texts ctx runId ck firstResult surviving dropped)
      (planDivided texts ctx runId ck firstResult' surviving dropped') := by
  have hrun (corpus : CorpusConfig) : W.redactRun ctx (ck.run runId firstResult corpus) =
      W.redactRun ctx (ck.run runId firstResult' corpus) := by
    simp only [redactRun, RunCheckpoint.run, RunCheckpoint.args, hfirst]
  unfold planDivided
  split
  · refine Alike.bind_same (alike_of_serving (Uses.assign _)) fun _ => ?_
    refine Alike.bind_same (endWithoutEvidence_alike hfirst _ _) fun _ => ?_
    refine Alike.bind_same (alike_of_serving (serving_ofExcept _)) fun env => ?_
    exact Alike.pure fun t t' ht => ⟨rfl, ht⟩
  · refine Alike.bind_same (alike_of_serving (Uses.perform trivial)) fun corpus => ?_
    refine Alike.bind_same (alike_of_serving (Uses.assign _)) fun _ => ?_
    simp only [ne_eq, hdropped]
    split
    · exact planRevoked_alike (hrun corpus) surviving
    · exact planUnchanged_alike (hrun corpus)

theorem planGated_alike (hck : W.redactCheckpoint ctx ck = W.redactCheckpoint ctx ck')
    (hfirst : W.redactFirst ctx firstResult = W.redactFirst ctx firstResult') :
    W.AlikeRedacted ctx (W.SamePlan ctx) (planGated texts ctx runId ck firstResult)
      (planGated texts ctx runId ck' firstResult') := by
  obtain ⟨evidence, first, hashes, rfl, hevidence, -⟩ := redactCheckpoint_eq hck
  rw [planGated_eq, planGated_eq]
  refine Alike.bind (reauthorizeAll_alike hevidence) ?_
  rintro ⟨surviving, dropped⟩ ⟨surviving', dropped'⟩ t t' s s' ⟨hsurviving, hdropped, hattributes⟩ hs
  dsimp only at hsurviving hdropped ⊢
  subst hsurviving
  exact planDivided_alike hfirst surviving hdropped t t' s s' hattributes hs

/-- The checks before the re-authorization. -/
theorem planLoaded_alike (h : W.redactCheckpoint ctx ck = W.redactCheckpoint ctx ck') (hasRegistry : Bool) :
    W.AlikeRedacted ctx (W.SamePlan ctx) (planLoaded texts ctx runId hasRegistry ck)
      (planLoaded texts ctx runId hasRegistry ck') := by
  have hck := h
  obtain ⟨evidence, first, hashes, rfl, -, hfirst⟩ := redactCheckpoint_eq h
  unfold planLoaded
  cases hstored : ck.firstResult with
  | none =>
    rw [hstored, Option.map_none, eq_comm, Option.map_eq_none_iff] at hfirst
    subst hfirst
    exact Alike.reraise _
  | some firstResult =>
    rw [hstored, Option.map_some, eq_comm, Option.map_eq_some_iff] at hfirst
    obtain ⟨firstResult', rfl, hfirst⟩ := hfirst
    dsimp only
    split
    · exact Alike.reraise _
    split
    · exact Alike.reraise _
    split
    · exact Alike.reraise _
    split
    · exact Alike.reraise _
    have hdiscoverable : Serving (fun _ => True) (discoverable ck.corpusId) :=
      Uses.tryCatch (Uses.bind (Uses.perform trivial) fun _ => Uses.pure _) fun _ => Uses.pure _
    refine Alike.bind_same (alike_of_serving hdiscoverable) fun found => ?_
    split
    · exact Alike.reraise _
    · exact planGated_alike hck hfirst.symm

theorem loadRunCheckpoint_alike : W.AlikeRedacted ctx
    (fun loaded t loaded' t' =>
      loaded.map (W.redactCheckpoint ctx) = loaded'.map (W.redactCheckpoint ctx) ∧ t = t')
    (Method.perform (.loadRunCheckpoint runId)) (Method.perform (.loadRunCheckpoint runId)) := by
  rintro t t' s s' rfl hs
  exact ⟨⟨CheckpointView.loaded_eq (v := W.redaction ctx) hs runId, rfl⟩, hs⟩

theorem resumeRun_alike (texts : ChatTexts) (request : ResumeRequest) :
    W.AlikeRedacted ctx Same (resumeRun texts ctx request) (resumeRun texts ctx request) := by
  have hplan : W.AlikeRedacted ctx (W.SamePlan ctx) (planResume texts ctx request)
      (planResume texts ctx request) := by
    unfold planResume
    split
    · exact Alike.reraise _
    split
    · exact Alike.reraise _
    refine Alike.bind loadRunCheckpoint_alike ?_
    rintro loaded loaded' t t' s s' ⟨hloaded, hattributes⟩ hs
    cases loaded with
    | none =>
      rw [Option.map_none, eq_comm, Option.map_eq_none_iff] at hloaded
      subst hloaded
      exact ⟨rfl, hs⟩
    | some ck =>
      rw [Option.map_some, eq_comm, Option.map_eq_some_iff] at hloaded
      obtain ⟨ck', rfl, hck⟩ := hloaded
      exact planLoaded_alike hck.symm request.hasRegistry t t' s s' hattributes hs
  refine Alike.bind hplan ?_
  rintro plan plan' t t' s s' ⟨hplans, hattributes⟩ hs
  exact followPlan_alike hplans t t' s s' hattributes hs

/-- Two resumes from checkpoints, running or completed, that differ in the content of revoked
evidence only: the calls of the retriever, the judge and the model with their inputs, the
findings and the envelope or exception are the same, and so is what is stored up to that
content. -/
theorem revoked_content_unread (texts : ChatTexts) (request : ResumeRequest) {s s' : ChatStores}
    (h : W.redactStores ctx s = W.redactStores ctx s') :
    (W.resume texts ctx request s).1.1 = (W.resume texts ctx request s').1.1 ∧
      (W.resume texts ctx request s).2.calls = (W.resume texts ctx request s').2.calls ∧
      (W.resume texts ctx request s).2.findings = (W.resume texts ctx request s').2.findings ∧
      W.redactStores ctx (W.resume texts ctx request s).2 =
        W.redactStores ctx (W.resume texts ctx request s').2 := by
  obtain ⟨hagree, hstores⟩ := resumeRun_alike texts request .empty .empty s s' rfl h
  obtain ⟨hcalls, hfindings, -⟩ := redactStores_eq hstores
  exact ⟨hagree.same_result, hcalls, hfindings, hstores⟩

end Plans

section Sample

open RecomputationFaults.Sample Honest.Sample

/-- The deleted memo with another text in the accumulated evidence and in the first result. -/
def rewritten : RunCheckpoint :=
  let memo : Evidence := { gone with text := "Redundancies are planned.", textHash := "h9", sectionPath := ["Secret"] }
  { checkpoint with
    evidence := [office, memo]
    firstResult := some { result with evidence := [office, memo] } }

theorem revoked_content_unread_memo :
    ({ stores with checkpoints := [⟨"run", checkpoint.identity, .running, 1, rewritten⟩] } : ChatStores) ≠ stores ∧
      (world.resume texts ctx request stores).1.1 =
        (world.resume texts ctx request
          { stores with checkpoints := [⟨"run", checkpoint.identity, .running, 1, rewritten⟩] }).1.1 ∧
      (world.resume texts ctx request stores).2.calls =
        (world.resume texts ctx request
          { stores with checkpoints := [⟨"run", checkpoint.identity, .running, 1, rewritten⟩] }).2.calls := by
  have hsame : world.redactStores ctx stores = world.redactStores ctx
      { stores with checkpoints := [⟨"run", checkpoint.identity, .running, 1, rewritten⟩] } := by decide
  obtain ⟨houtcome, hcalls, -, -⟩ := revoked_content_unread texts request hsame
  exact ⟨by decide, houtcome, hcalls⟩

end Sample

end ChatWorld

end AgenticRag
