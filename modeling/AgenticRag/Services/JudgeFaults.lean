import AgenticRag.Answer.Completeness
import AgenticRag.Foundations.CutShort
import AgenticRag.Services.JudgeCalls
import AgenticRag.Services.LoopOperations

/-!
# Faults of the judge

A judge may fail at any call. In the rounds of the loop a fault ends the run in a refusal. The
recomputation of `resume_run` calls the judge as well, and there a fault is not caught.
-/

namespace AgenticRag

/-- An envelope that abstains because the evidence is insufficient. -/
def AnswerEnvelope.Refuses (env : AnswerEnvelope) : Prop :=
  env.abstained = true ∧ env.completeness = .insufficient

def RoundEnd.Refuses : RoundEnd → Prop
  | .terminal env => env.Refuses
  | _ => False

theorem refusal_refuses (ctx : SecurityContext) (corporaUsed : List String)
    (coverage : Option SufficiencyResult) (accounting : Accounting) :
    (refusal ctx corporaUsed coverage accounting).Refuses := ⟨rfl, rfl⟩

namespace ChatWorld

variable (W : ChatWorld)

section Rounds

variable (ctx : SecurityContext) (args : CheckpointArgs) (deliverable : Prop) (past : List ChatCall)

/-- Where a part of the run leads: if the judge was at fault last, to one of the `ends`, unless the
refusal is not deliverable. -/
structure Settled {α : Type} (ends : α → Prop) (r : Except ChatError α) (s' : ChatStores) : Prop where
  owned : Owned ctx args deliverable s'
  clean : RaisesOnly (fun e => ¬e.IsJudgeFault) r
  calls : ∃ since, s'.calls = past ++ since ∧
    (W.Faulted past since → (∃ a, r = .ok a ∧ ends a) ∨ (¬deliverable ∧ ∃ e, r = .error e))

/-- The judge was not at fault when it was called last. -/
def Sound (s : ChatStores) : Prop := ∃ since, s.calls = past ++ since ∧ ¬W.Faulted past since

/-- If the judge was at fault when it was called last, the envelope is a refusal. -/
def Answers (env : AnswerEnvelope) (s : ChatStores) : Prop :=
  ∃ since, s.calls = past ++ since ∧ (W.Faulted past since → env.Refuses)

variable {W ctx args deliverable past} {s s' : ChatStores} {α : Type} {ends : α → Prop}

theorem Unjudged.sound {r : Except ChatError α} (h : Unjudged ctx args deliverable s r s')
    (hsound : W.Sound past s) : W.Sound past s' := by
  obtain ⟨since, hsince, hnot⟩ := hsound
  obtain ⟨more, hmore, hquiet⟩ := h.calls
  refine ⟨since ++ more, ?_, (faulted_unjudged hquiet).not.mpr hnot⟩
  rw [hmore, hsince, List.append_assoc]

theorem Unjudged.settled {r : Except ChatError α} (h : Unjudged ctx args deliverable s r s')
    (howned : Owned ctx args deliverable s) (hsound : W.Sound past s) :
    W.Settled ctx args deliverable past ends r s' := by
  obtain ⟨since, hsince, hnot⟩ := h.sound hsound
  exact ⟨h.owned howned, h.clean, since, hsince, fun hfault => absurd hfault hnot⟩

/-- A part that does not call the judge settles. -/
theorem Silent.settles {m : ChatMethod α} (hm : Silent W ctx args deliverable m)
    (howned : Owned ctx args deliverable s) (hsound : W.Sound past s) (t : IterationState) :
    m.Meets W.eval (fun r _ s' => W.Settled ctx args deliverable past ends r s') t s :=
  (hm t s).mono fun _ _ _ hr => hr.settled howned hsound

/-- A part that does not call the judge, followed by one that settles. -/
theorem Silent.then_settles {β : Type} {m : ChatMethod β} {f : β → ChatMethod α}
    (hm : Silent W ctx args deliverable m) (howned : Owned ctx args deliverable s) (hsound : W.Sound past s)
    (hf : ∀ b t s, Owned ctx args deliverable s → W.Sound past s →
      (f b).Meets W.eval (fun r _ s' => W.Settled ctx args deliverable past ends r s') t s) (t : IterationState) :
    (m >>= f).Meets W.eval (fun r _ s' => W.Settled ctx args deliverable past ends r s') t s := by
  rw [Method.meets_bind]
  apply (hm t s).mono
  intro r t' s' hr
  cases r with
  | ok b => exact hf b t' s' (hr.owned howned) (hr.sound hsound)
  | error e => exact hr.raise.settled howned hsound

/-- A round whose judge is at fault ends in a refusal. -/
theorem judgeFaultRound_settles (run : RunArgs) (hbound : deliverable → checkTenantBinding ctx run.firstResult = .ok ())
    (report : ConflictReport) (kept : List Evidence) (howned : Owned ctx args deliverable s)
    (hcalls : ∃ since, s.calls = past ++ since) (t : IterationState) :
    (judgeFaultRound ctx run report kept).Meets W.eval
      (fun r _ s' => W.Settled ctx args deliverable past RoundEnd.Refuses r s') t s := by
  unfold judgeFaultRound
  rw [Method.meets_assign_bind, Method.meets_self_bind, Method.meets_bind, Method.meets_ofExcept,
    conservativeRefusal_eq]
  obtain ⟨since, hsince⟩ := hcalls
  cases hchecked : checkTenantBinding ctx run.firstResult with
  | ok u => exact ⟨howned, .ok _, since, hsince, fun _ => .inl ⟨_, rfl, refusal_refuses _ _ _ _⟩⟩
  | error e =>
    have hclean : ¬e.IsJudgeFault := (checkTenantBinding_raises run.firstResult e hchecked).ofBuilder.not_fault
    have hnot : ¬deliverable := by
      intro hdeliverable
      rw [hbound hdeliverable] at hchecked
      cases hchecked
    exact ⟨howned, .error hclean, since, hsince, fun _ => .inr ⟨hnot, e, rfl⟩⟩

theorem assessRound_settles (texts : ChatTexts) (run : RunArgs)
    (hbound : deliverable → checkTenantBinding ctx run.firstResult = .ok ()) (roundIdx : Int) (gain : Gain)
    (howned : Owned ctx args deliverable s) (hsound : W.Sound past s) (t : IterationState) :
    (assessRound texts ctx run roundIdx gain).Meets W.eval
      (fun r _ s' => W.Settled ctx args deliverable past RoundEnd.Refuses r s') t s := by
  unfold assessRound
  rw [Method.meets_self_bind]
  refine (silent_conflictStage texts _ _ _).then_settles howned hsound (fun staged t s howned hsound => ?_) t
  obtain ⟨report, kept⟩ := staged
  dsimp only
  split
  · exact (silent_noEvidenceRound run report).settles howned hsound t
  split
  · exact ((Silent.assign _).bind fun _ => Silent.pure _).settles howned hsound t
  rw [Method.meets_assign_bind, Method.meets_bind]
  apply (meets_judgeOrFault run.query run.required kept _ s).mono
  rintro r t' s' ⟨-, hcheckpoints, hcalls, hr⟩
  obtain ⟨since, hsince, hnot⟩ := hsound
  have howned' : Owned ctx args deliverable s' := by
    unfold Owned
    rw [hcheckpoints]
    exact howned
  have hcalls' : s'.calls = past ++ (since ++ [.judgement run.query run.required kept]) := by
    rw [hcalls, hsince, List.append_assoc]
  have hlast : W.lastVerdict past (since ++ [.judgement run.query run.required kept]) =
      some (W.judge s.calls run.query run.required kept) := by
    rw [lastVerdict_judgement, hsince]
  cases r with
  | ok verdict =>
    cases verdict with
    | none => exact judgeFaultRound_settles run hbound report kept howned' ⟨_, hcalls'⟩ t'
    | some coverage =>
      dsimp only at hr ⊢
      rw [Method.meets_assign_bind]
      refine (silent_decideRound run roundIdx gain coverage).settles howned' ⟨_, hcalls', ?_⟩ _
      rintro ⟨e, he, -⟩
      rw [hlast, hr] at he
      cases he
  | error e =>
    obtain ⟨hverdict, hclean⟩ := hr
    refine ⟨howned', .error hclean, _, hcalls', ?_⟩
    rintro ⟨e', he', hfault⟩
    rw [hlast, hverdict] at he'
    obtain rfl : e = e' := Except.error.inj (Option.some.inj he')
    exact absurd hfault hclean

/-- A round leaves the judge without a fault, or ends in a refusal. -/
theorem runRound_settles (texts : ChatTexts) (run : RunArgs)
    (hbound : deliverable → checkTenantBinding ctx run.firstResult = .ok ()) (roundIdx : Int)
    (howned : Owned ctx args deliverable s) (hsound : W.Sound past s) (t : IterationState) :
    (runRound texts ctx run roundIdx).Meets W.eval
      (fun r _ s' => W.Settled ctx args deliverable past RoundEnd.Refuses r s') t s := by
  unfold runRound
  rw [Method.meets_assign_bind, Method.meets_self_bind]
  split
  · exact assessRound_settles texts run hbound roundIdx _ howned hsound _
  split
  · exact (Silent.reraise (by rintro ⟨_, _, h⟩; cases h)).settles howned hsound _
  split
  · exact ((Silent.assign _).bind fun _ => Silent.pure _).settles howned hsound _
  · rename_i query _ _
    exact (silent_gapRetrieval run query roundIdx).then_settles howned hsound
      (fun gain t s howned hsound => assessRound_settles texts run hbound roundIdx gain howned hsound t) _

theorem Unjudged.answers {r : Except ChatError α} {env : AnswerEnvelope}
    (h : Unjudged ctx args deliverable s r s') (henv : W.Answers past env s) : W.Answers past env s' := by
  obtain ⟨since, hsince, hrefuses⟩ := henv
  obtain ⟨more, hmore, hquiet⟩ := h.calls
  refine ⟨since ++ more, ?_, fun hfault => hrefuses ((faulted_unjudged hquiet).mp hfault)⟩
  rw [hmore, hsince, List.append_assoc]

/-- What follows a terminal round and is accepted where the refusal is deliverable. -/
theorem Answers.then_settles {m : ChatMethod Unit} {f : ChatMethod AnswerEnvelope} {env : AnswerEnvelope}
    {t : IterationState} (henv : W.Answers past env s) (howned : Owned ctx args deliverable s)
    (hm : m.Meets W.eval (fun r _ s' =>
      Unjudged ctx args deliverable s r s' ∧ (deliverable → r = .ok ())) t s)
    (hf : ∀ t s, Owned ctx args deliverable s → W.Answers past env s → f.Meets W.eval
      (fun r _ s' => W.Settled ctx args deliverable past AnswerEnvelope.Refuses r s') t s) :
    (m >>= fun _ => f).Meets W.eval
      (fun r _ s' => W.Settled ctx args deliverable past AnswerEnvelope.Refuses r s') t s := by
  rw [Method.meets_bind]
  apply hm.mono
  rintro r t' s' ⟨hsilent, hreturns⟩
  have henv' := hsilent.answers henv
  cases r with
  | ok u => exact hf t' s' (hsilent.owned howned) henv'
  | error e =>
    obtain ⟨since, hsince, -⟩ := henv'
    have hnot : ¬deliverable := by
      intro hdeliverable
      cases hreturns hdeliverable
    exact ⟨hsilent.owned howned, .error (hsilent.clean e rfl), since, hsince, fun _ => .inr ⟨hnot, e, rfl⟩⟩

theorem loopRounds_settles (texts : ChatTexts) (run : RunArgs)
    (hbound : deliverable → checkTenantBinding ctx run.firstResult = .ok ()) (rounds : Nat) (roundIndex : Int)
    (howned : Owned ctx run.toCheckpointArgs deliverable s) (hsound : W.Sound past s) (t : IterationState) :
    (loopRounds texts ctx run rounds roundIndex).Meets W.eval
      (fun r _ s' => W.Settled ctx run.toCheckpointArgs deliverable past AnswerEnvelope.Refuses r s') t s := by
  induction rounds generalizing roundIndex s t with
  | zero =>
    exact ((silent_finalizeIteration texts run).bind fun env => silent_markDone.bind fun _ =>
      Silent.pure env).settles howned hsound t
  | succ rounds ih =>
    unfold loopRounds
    rw [Method.meets_bind]
    apply (runRound_settles texts run hbound roundIndex howned hsound t).mono
    intro r t' s' hr
    obtain ⟨howned', hclean, since, hsince, hend⟩ := hr
    cases r with
    | error e =>
      refine ⟨howned', .error (hclean e rfl), since, hsince, fun hfault => ?_⟩
      rcases hend hfault with ⟨a, ha, -⟩ | ⟨hnot, -⟩
      · cases ha
      · exact .inr ⟨hnot, e, rfl⟩
    | ok roundEnd =>
      -- only a terminal round may follow a fault
      have hgoesOn : ¬roundEnd.Refuses → W.Sound past s' := by
        intro hnot
        refine ⟨since, hsince, fun hfault => ?_⟩
        rcases hend hfault with ⟨a, ha, hrefuses⟩ | ⟨-, e, he⟩
        · obtain rfl := Except.ok.inj ha
          exact hnot hrefuses
        · cases he
      cases roundEnd with
      | broken =>
        exact ((silent_saveCheckpoint _).bind fun _ => silent_markDone.bind fun _ =>
          silent_finalizeIteration texts run).settles howned' (hgoesOn id) t'
      | proceeds =>
        exact (silent_saveCheckpoint _).then_settles howned' (hgoesOn id)
          (fun _ t s howned hsound => ih (roundIndex + 1) howned hsound t) t'
      | terminal env =>
        dsimp only
        have henv : W.Answers past env s' := by
          refine ⟨since, hsince, fun hfault => ?_⟩
          rcases hend hfault with ⟨a, ha, hrefuses⟩ | ⟨-, e, he⟩
          · obtain rfl := Except.ok.inj ha
            exact hrefuses
          · cases he
        refine henv.then_settles howned' ?_ fun t s howned henv => henv.then_settles howned ?_ ?_
        · exact (meets_saveCheckpoint deliverable (roundIndex + 1) t' s').mono fun r t s h => ⟨h.1, h.2.2 howned'⟩
        · exact meets_markDone t s
        · rintro t s howned ⟨since, hsince, hrefuses⟩
          exact ⟨howned, .ok env, since, hsince, fun hfault => .inl ⟨env, rfl, hrefuses hfault⟩⟩

end Rounds

section Resume

variable (texts : ChatTexts) (ctx : SecurityContext) (request : ResumeRequest) (s : ChatStores)

/-- The request passes the checks of `resume_run` with a checkpoint. -/
structure Resumes (ck : RunCheckpoint) (firstResult : FastPathResult) : Prop where
  hasStore : request.hasStore = true
  judged : request.judged = true
  hasRegistry : request.hasRegistry = true
  loaded : CheckpointTable.loadRunCheckpoint s.checkpoints request.runId = some ck
  firstResult : ck.firstResult = some firstResult
  status : ck.status ≠ .aborted
  principal : ck.tenantId = ctx.tenantId ∧ ck.userId = ctx.userId ∧ ck.sessionId = ctx.sessionId
  policyVersion : ck.policyVersion = ctx.policyVersion
  discovers : W.Discovers ck.corpusId

/-- The conflict stage over the evidence that is still authorized. -/
def recomputed (ck : RunCheckpoint) : ConflictReport × List Evidence :=
  runConflictStage texts (W.now s.calls) ck.query (texts.parseTemporalScope ck.query)
    (ck.evidence.filter (W.keeps ctx))

/-- Some evidence is dropped, the conflict stage keeps some of the rest, and the judge is at fault
when it is called with that. -/
def RecomputationFaults : Prop :=
  ∃ ck firstResult corpus e, W.Resumes ctx request s ck firstResult ∧
    (∃ ev ∈ ck.evidence, W.keeps ctx ev = false) ∧ W.resolveCorpus ck.corpusId = .ok corpus ∧
    (W.recomputed texts ctx s ck).2 ≠ [] ∧
    W.judge s.calls ck.query ck.requiredFacts (W.recomputed texts ctx s ck).2 = .error e ∧ e.IsJudgeFault

/-- The stored first result belongs to the caller's request, and the row bears the identity of its
state, as a save leaves it. -/
def Deliverable : Prop :=
  ∀ row firstResult, Table.selectOne (CheckpointTable.ofRun request.runId) s.checkpoints = some row →
    row.state.firstResult = some firstResult →
    checkTenantBinding ctx firstResult = .ok () ∧ row.identity = row.state.identity

variable {W texts ctx request s} {ck : RunCheckpoint} {firstResult : FastPathResult}

/-- A request either passes the checks or is refused, and nothing has happened. -/
theorem passes_planResume {I : ChatStores → Prop}
    (post : Except ChatError ResumePlan → IterationState → ChatStores → Prop) (t : IterationState) (hs : I s)
    (hrefused : ∀ e, post (.error e) t s)
    (hpassed : ∀ ck firstResult, W.Resumes ctx request s ck firstResult →
      (planGated texts ctx request.runId ck firstResult).Passes W.eval I post t s) :
    (planResume texts ctx request).Passes W.eval I post t s := by
  have hrefuses {reason : String} : (refuseResume reason).Passes W.eval I post t s :=
    Method.passes_reraise.mpr (hrefused _)
  unfold planResume
  split
  · exact hrefuses
  split
  · exact hrefuses
  rename_i hstore hjudged
  rw [Method.passes_bind, Method.passes_perform]
  refine ⟨hs, ?_⟩
  simp only [eval]
  cases hloaded : CheckpointTable.loadRunCheckpoint s.checkpoints request.runId with
  | none => exact hrefuses
  | some ck =>
    dsimp only
    unfold planLoaded
    cases hfirst : ck.firstResult with
    | none => exact Method.passes_reraise.mpr (hrefused _)
    | some firstResult =>
      dsimp only
      split
      · exact hrefuses
      split
      · exact hrefuses
      split
      · exact hrefuses
      split
      · exact hrefuses
      rename_i hstatus hprincipal hpolicy hregistry
      rw [(uses_discoverable fun _ h => h).passes_bind hs (returns_discoverable ck.corpusId)]
      split
      · exact hrefuses
      rename_i hdiscovers
      simp only [ne_eq, not_or, not_not] at hprincipal hpolicy
      exact hpassed ck firstResult
        { hasStore := by simpa using hstore
          judged := by simpa using hjudged
          hasRegistry := by simpa using hregistry
          loaded := hloaded
          firstResult := hfirst
          status := hstatus
          principal := hprincipal
          policyVersion := hpolicy
          discovers := by simpa using hdiscovers }

theorem planResume_gates (post : Except ChatError ResumePlan → IterationState → ChatStores → Prop)
    (t : IterationState) (hrefused : ∀ e, post (.error e) t s)
    (hpassed : ∀ ck firstResult, W.Resumes ctx request s ck firstResult →
      (planGated texts ctx request.runId ck firstResult).Meets W.eval post t s) :
    (planResume texts ctx request).Meets W.eval post t s := by
  apply Method.passes_true.mp
  refine passes_planResume post t trivial hrefused fun ck firstResult hresumes => ?_
  exact Method.passes_true.mpr (hpassed ck firstResult hresumes)

theorem Resumes.owned (h : W.Resumes ctx request s ck firstResult) :
    Owned ctx (ck.args request.runId firstResult) (Deliverable ctx request s) s := by
  intro hdeliverable _
  obtain ⟨row, hrow, rfl⟩ := CheckpointTable.loadRunCheckpoint_some h.loaded
  refine ⟨row, hrow, ?_⟩
  rw [(hdeliverable row firstResult hrow h.firstResult).2]
  obtain ⟨htenant, huser, hsession⟩ := h.principal
  have hpolicy := h.policyVersion
  dsimp only at htenant huser hsession hpolicy
  simp [RunCheckpoint.identity, checkpointOf, RunCheckpoint.args, htenant, huser, hsession, hpolicy]

theorem Resumes.bound (h : W.Resumes ctx request s ck firstResult) (hdeliverable : Deliverable ctx request s) :
    checkTenantBinding ctx firstResult = .ok () := by
  obtain ⟨row, hrow, rfl⟩ := CheckpointTable.loadRunCheckpoint_some h.loaded
  exact (hdeliverable row firstResult hrow h.firstResult).1

end Resume

section Plans

variable (ctx : SecurityContext) (args : CheckpointArgs) (deliverable : Prop) (past : List ChatCall)

/-- What `resume_run` has planned without a fault of the judge. -/
structure Planned (r : Except ChatError ResumePlan) (s' : ChatStores) : Prop where
  sound : W.Sound past s'
  owned : Owned ctx args deliverable s'
  run : ∀ run, (∃ roundIndex, r = .ok (.continues run roundIndex)) ∨ r = .ok (.finalizes run) →
    run.toCheckpointArgs = args

variable {W ctx args deliverable past} {s s' : ChatStores}

theorem Planned.of_error {e : ChatError} (hsound : W.Sound past s) (howned : Owned ctx args deliverable s) :
    W.Planned ctx args deliverable past (.error e) s :=
  ⟨hsound, howned, by simp⟩

theorem Planned.of_returns {env : AnswerEnvelope} (hsound : W.Sound past s)
    (howned : Owned ctx args deliverable s) :
    W.Planned ctx args deliverable past (.ok (.returns env)) s :=
  ⟨hsound, howned, by simp⟩

theorem Planned.of_continues {run : RunArgs} {roundIndex : Int} (hrun : run.toCheckpointArgs = args)
    (hsound : W.Sound past s) (howned : Owned ctx args deliverable s) :
    W.Planned ctx args deliverable past (.ok (.continues run roundIndex)) s :=
  ⟨hsound, howned, by simp [hrun]⟩

theorem Planned.of_finalizes {run : RunArgs} (hrun : run.toCheckpointArgs = args)
    (hsound : W.Sound past s) (howned : Owned ctx args deliverable s) :
    W.Planned ctx args deliverable past (.ok (.finalizes run)) s :=
  ⟨hsound, howned, by simp [hrun]⟩

/-- A part of the plan that does not call the judge. -/
theorem Silent.then_planned {β : Type} {m : ChatMethod β} {f : β → ChatMethod ResumePlan}
    (hm : Silent W ctx args deliverable m) (howned : Owned ctx args deliverable s) (hsound : W.Sound past s)
    (hf : ∀ b t s, Owned ctx args deliverable s → W.Sound past s →
      (f b).Meets W.eval (fun r _ s' => W.Planned ctx args deliverable past r s') t s) (t : IterationState) :
    (m >>= f).Meets W.eval (fun r _ s' => W.Planned ctx args deliverable past r s') t s := by
  rw [Method.meets_bind]
  apply (hm t s).mono
  intro r t' s' hr
  cases r with
  | ok b => exact hf b t' s' (hr.owned howned) (hr.sound hsound)
  | error e => exact .of_error (hr.sound hsound) (hr.owned howned)

variable {texts : ChatTexts} {runId : String} {ck : RunCheckpoint} {firstResult : FastPathResult}

theorem silent_endWithoutEvidence (report : Option ConflictReport) (reason : String) :
    Silent W ctx (ck.args runId firstResult) deliverable
      (endWithoutEvidence ctx runId ck firstResult report reason) :=
  (Silent.assign _).bind fun _ => (silent_saveCheckpoint _).bind fun _ => silent_markDone

theorem returns_reopen (W : ChatWorld) (runId : String) (status : CheckpointStatus) (t : IterationState)
    (s : ChatStores) :
    ∃ t' rows, Method.Returns W.eval (reopen runId status) t s () t' { s with checkpoints := rows } ∧
      (rows = s.checkpoints ∨ rows = CheckpointTable.setStatus s.checkpoints runId .running) := by
  unfold reopen
  split
  · exact ⟨_, _, rfl, .inr rfl⟩
  · exact ⟨t, s.checkpoints, rfl, .inl rfl⟩

/-- The judge is not at fault over the evidence that survives. -/
def Judges (W : ChatWorld) (texts : ChatTexts) (ck : RunCheckpoint) (surviving : List Evidence)
    (s : ChatStores) : Prop :=
  let staged := runConflictStage texts (W.now s.calls) ck.query (texts.parseTemporalScope ck.query) surviving
  staged.2 ≠ [] → ∀ e, W.judge s.calls ck.query ck.requiredFacts staged.2 = .error e → ¬e.IsJudgeFault

/-- The recomputation without a fault of the judge. -/
theorem planRevoked_planned {corpus : CorpusConfig} {surviving : List Evidence}
    (hjudges : Judges W texts ck surviving s)
    (howned : Owned ctx (ck.args runId firstResult) deliverable s) (t : IterationState) :
    (planRevoked texts ctx ck (ck.run runId firstResult corpus) surviving).Meets W.eval
      (fun r _ s' => W.Planned ctx (ck.args runId firstResult) deliverable s.calls r s') t s := by
  unfold planRevoked
  obtain ⟨t', rows, hreopen, hrows⟩ := returns_reopen W runId ck.status t s
  have howned' : Owned ctx (ck.args runId firstResult) deliverable { s with checkpoints := rows } := by
    rcases hrows with rfl | rfl
    · exact howned
    · exact owned_setStatus howned
  have hsound : W.Sound s.calls { s with checkpoints := rows } :=
    ⟨[], (List.append_nil _).symm, by rintro ⟨_, he, -⟩; cases he⟩
  rw [show (ck.run runId firstResult corpus).runId = runId from rfl, hreopen.meets_bind,
    (returns_conflictStage texts _ _ _).meets_bind]
  rcases hstaged : runConflictStage texts (W.now s.calls) ck.query (texts.parseTemporalScope ck.query)
    surviving with ⟨report, kept⟩
  unfold Judges at hjudges
  simp only [hstaged] at hjudges
  dsimp only
  split
  · refine (silent_endWithoutEvidence _ _).then_planned howned' hsound (fun _ t s howned hsound => ?_) t'
    rw [Method.meets_self_bind, buildNoEvidenceRefusal_eq]
    exact .of_returns hsound howned
  rename_i hkept
  rw [Method.meets_assign_bind, Method.meets_bind, Method.meets_perform]
  have hcalled (verdict : Except ChatError SufficiencyResult)
      (hverdict : W.judge s.calls ck.query ck.requiredFacts kept = verdict)
      (hclean : ∀ e, verdict = .error e → ¬e.IsJudgeFault) :
      W.Sound s.calls { s with calls := s.calls ++ [.judgement ck.query ck.requiredFacts kept]
                               checkpoints := rows } := by
    refine ⟨_, rfl, ?_⟩
    rintro ⟨e, he, hfault⟩
    simp only [lastVerdict, Option.none_or, hverdict, Option.some.injEq] at he
    exact hclean e he hfault
  cases hverdict : W.judge s.calls ck.query ck.requiredFacts kept with
  | error e =>
    simp only [eval, hverdict]
    refine .of_error (hcalled _ hverdict fun e' he' => ?_) howned'
    obtain rfl := Except.error.inj he'
    exact hjudges hkept e hverdict
  | ok coverage =>
    have hsound' := hcalled _ hverdict (by intro e he; cases he)
    simp only [eval, hverdict]
    rw [Method.meets_assign_bind]
    split
    · rw [Method.meets_assign_bind]
      exact Planned.of_finalizes rfl hsound' howned'
    split
    · exact Planned.of_finalizes rfl hsound' howned'
    · exact Planned.of_continues rfl hsound' howned'

theorem planUnchanged_planned {corpus : CorpusConfig}
    (howned : Owned ctx (ck.args runId firstResult) deliverable s) (hsound : W.Sound past s)
    (t : IterationState) :
    (planUnchanged ctx ck (ck.run runId firstResult corpus)).Meets W.eval
      (fun r _ s' => W.Planned ctx (ck.args runId firstResult) deliverable past r s') t s := by
  unfold planUnchanged
  split
  · rw [Method.meets_self_bind]
    split
    · rw [buildNoEvidenceRefusal_eq]
      exact .of_returns hsound howned
    · exact Planned.of_finalizes rfl hsound howned
  · exact Planned.of_continues rfl hsound howned

/-- A resumed run whose recomputation is not faulted by the judge. -/
theorem planGated_planned (hjudges : (∃ ev ∈ ck.evidence, W.keeps ctx ev = false) →
      (∃ corpus, W.resolveCorpus ck.corpusId = .ok corpus) →
      Judges W texts ck (ck.evidence.filter (W.keeps ctx)) s)
    (howned : Owned ctx (ck.args runId firstResult) deliverable s) (t : IterationState) :
    (planGated texts ctx runId ck firstResult).Meets W.eval
      (fun r _ s' => W.Planned ctx (ck.args runId firstResult) deliverable s.calls r s') t s := by
  unfold planGated
  rw [(returns_reauthorizeAll ck.evidence).meets_bind]
  -- the findings are all that the re-authorization changes
  have howned' : Owned ctx (ck.args runId firstResult) deliverable
      { s with findings := s.findings ++ W.revocations ctx ck.evidence } := howned
  have hsound : W.Sound s.calls { s with findings := s.findings ++ W.revocations ctx ck.evidence } :=
    ⟨[], (List.append_nil _).symm, fun ⟨_, he, _⟩ => by cases he⟩
  have hrevoked (corpus : CorpusConfig) (hjudges : Judges W texts ck (ck.evidence.filter (W.keeps ctx)) s)
      (t : IterationState) :
      (planRevoked texts ctx ck (ck.run runId firstResult corpus) (ck.evidence.filter (W.keeps ctx))).Meets W.eval
        (fun r _ s' => W.Planned ctx (ck.args runId firstResult) deliverable s.calls r s') t
        { s with findings := s.findings ++ W.revocations ctx ck.evidence } :=
    planRevoked_planned (s := { s with findings := s.findings ++ W.revocations ctx ck.evidence }) hjudges howned' t
  generalize { s with findings := s.findings ++ W.revocations ctx ck.evidence } = s₁ at *
  dsimp only
  split
  · rw [Method.meets_assign_bind]
    refine (silent_endWithoutEvidence _ _).then_planned howned' hsound (fun _ t s howned hsound => ?_) _
    rw [buildNoEvidenceRefusal_eq]
    exact .of_returns hsound howned
  rw [Method.meets_bind, Method.meets_perform]
  cases hcorpus : W.resolveCorpus ck.corpusId with
  | error e =>
    simp only [eval, hcorpus]
    exact .of_error hsound howned'
  | ok corpus =>
    simp only [eval, hcorpus]
    rw [Method.meets_assign_bind]
    split
    · rename_i hdropped
      obtain ⟨ev, hev⟩ := List.exists_mem_of_ne_nil _ hdropped
      obtain ⟨hmem, hkeeps⟩ := List.mem_filter.mp hev
      exact hrevoked corpus (hjudges ⟨ev, hmem, by simpa using hkeeps⟩ ⟨corpus, hcorpus⟩) _
    · exact planUnchanged_planned howned' hsound _

end Plans

section Main

variable (texts : ChatTexts) (ctx : SecurityContext)

/-- The retriever brings the first evidence of the caller's tenant and of the corpus. -/
def RetrievesBound (request : IterationRequest) (s : ChatStores) : Prop :=
  ∀ corpus evidence, W.resolveCorpus request.corpusId = .ok corpus →
    W.retrieve s.calls request.query corpus 0 = .ok evidence →
    checkTenantBinding ctx ⟨request.query, corpus.corpusId, ctx.tenantId, evidence⟩ = .ok ()

/-- If the judge was at fault when it was called last, no such fault is raised, and the call returns
a refusal, unless that is not deliverable. -/
structure FaultsContained (s : ChatStores) (deliverable : Prop) (r : Except ChatError AnswerEnvelope)
    (s' : ChatStores) : Prop where
  caught : W.Faulted s.calls (s'.calls.drop s.calls.length) → RaisesOnly (fun e => ¬e.IsJudgeFault) r
  refused : W.Faulted s.calls (s'.calls.drop s.calls.length) → deliverable → ∃ env, r = .ok env ∧ env.Refuses

variable {W texts ctx} {s s' : ChatStores} {deliverable : Prop} {args : CheckpointArgs}

theorem Settled.contained {r : Except ChatError AnswerEnvelope}
    (h : W.Settled ctx args deliverable s.calls AnswerEnvelope.Refuses r s') :
    W.FaultsContained s deliverable r s' := by
  obtain ⟨-, hclean, since, hsince, hends⟩ := h
  have hdrop : s'.calls.drop s.calls.length = since := by simp [hsince]
  constructor
  · exact fun _ => hclean
  · intro hfault hdeliverable
    rw [hdrop] at hfault
    rcases hends hfault with henv | ⟨hnot, -⟩
    · exact henv
    · exact absurd hdeliverable hnot

/-- Without a fault of the judge there is nothing to contain. -/
theorem Sound.contained {r : Except ChatError AnswerEnvelope} (h : W.Sound s.calls s') :
    W.FaultsContained s deliverable r s' := by
  obtain ⟨since, hsince, hnot⟩ := h
  have hdrop : s'.calls.drop s.calls.length = since := by simp [hsince]
  exact ⟨fun hfault => absurd (hdrop ▸ hfault) hnot, fun hfault => absurd (hdrop ▸ hfault) hnot⟩

/-- The same for what does not call the judge. -/
theorem Silent.contained {args : CheckpointArgs} {m : ChatMethod AnswerEnvelope} (hm : Silent W ctx args deliverable m)
    (hsound : W.Sound s.calls s') (t : IterationState) :
    m.Meets W.eval (fun r _ s' => W.FaultsContained s deliverable r s') t s' :=
  (hm t s').mono fun _ _ _ hr => (hr.sound hsound).contained

theorem sound_rest (s : ChatStores) : W.Sound s.calls s :=
  ⟨[], (List.append_nil _).symm, fun ⟨_, he, _⟩ => by cases he⟩

theorem followPlan_contained {plan : ResumePlan} {t : IterationState}
    (hbound : deliverable → checkTenantBinding ctx args.firstResult = .ok ())
    (h : W.Planned ctx args deliverable s.calls (.ok plan) s') :
    (followPlan texts ctx plan).Meets W.eval (fun r _ s' => W.FaultsContained s deliverable r s') t s' := by
  obtain ⟨hsound, howned, hrun⟩ := h
  cases plan with
  | returns env => exact hsound.contained
  | finalizes run =>
    have hsilent : Silent W ctx run.toCheckpointArgs deliverable
        (followPlan texts ctx (.finalizes run)) :=
      silent_markDone.bind fun _ => silent_finalizeIteration texts run
    exact hsilent.contained hsound t
  | continues run roundIndex =>
    obtain rfl := hrun run (.inl ⟨roundIndex, rfl⟩)
    exact (loopRounds_settles texts run hbound _ roundIndex howned hsound t).mono fun _ _ _ hr => hr.contained

theorem resume_contained (request : ResumeRequest) (hnot : ¬W.RecomputationFaults texts ctx request s) :
    W.FaultsContained s (Deliverable ctx request s) (W.resume texts ctx request s).1.1
      (W.resume texts ctx request s).2 := by
  suffices h : (resumeRun texts ctx request).Meets W.eval
      (fun r _ s' => W.FaultsContained s (Deliverable ctx request s) r s') .empty s from h
  unfold resumeRun
  rw [Method.meets_bind]
  apply planResume_gates
  · exact fun e => (sound_rest s).contained
  · intro ck firstResult hresumes
    have hjudges : (∃ ev ∈ ck.evidence, W.keeps ctx ev = false) →
        (∃ corpus, W.resolveCorpus ck.corpusId = .ok corpus) →
        Judges W texts ck (ck.evidence.filter (W.keeps ctx)) s := by
      rintro hdropped ⟨corpus, hcorpus⟩ hkept e hverdict hfault
      exact hnot ⟨ck, firstResult, corpus, e, hresumes, hdropped, hcorpus, hkept, hverdict, hfault⟩
    apply (planGated_planned hjudges hresumes.owned .empty).mono
    intro r t' s' hr
    cases r with
    | error e => exact hr.sound.contained
    | ok plan => exact followPlan_contained hresumes.bound hr

/-- The path without iterations does not call the judge. -/
theorem singlePass_contained (query corpusId : String) :
    (runSinglePass texts ctx query corpusId).Meets W.eval
      (fun r _ s' => W.FaultsContained s deliverable r s') .empty s := by
  unfold runSinglePass
  rw [Method.meets_bind, Method.meets_perform]
  cases hcorpus : W.resolveCorpus corpusId with
  | error e =>
    simp only [eval, hcorpus]
    exact (sound_rest s).contained
  | ok corpus =>
    simp only [eval, hcorpus]
    -- nothing is saved
    let unsaved : CheckpointArgs :=
      { runId := "", query := query, corpusId := corpusId, maxRounds := 1, required := [],
        firstResult := ⟨query, corpusId, ctx.tenantId, []⟩, saving := false }
    suffices hsilent : Silent W ctx unsaved deliverable _ from hsilent.contained (sound_rest s) _
    refine (silent_runFastPath query corpus).bind fun result => ?_
    refine Silent.ite (Silent.ofExcept (conservativeRefusal_raises _ _ _)) ?_
    refine (silent_conflictStage texts query _ _).bind fun staged => ?_
    refine Silent.ite (Silent.ofExcept ?_) (silent_synthesize texts _ _ _ _)
    rw [buildNoEvidenceRefusal_eq]
    exact .ok _

theorem answer_contained (request : IterationRequest) :
    W.FaultsContained s (W.RetrievesBound ctx request s) (W.answer texts ctx request s).1.1
      (W.answer texts ctx request s).2 := by
  suffices h : (answerWithIteration texts ctx request).Meets W.eval
      (fun r _ s' => W.FaultsContained s (W.RetrievesBound ctx request s) r s') .empty s from h
  unfold answerWithIteration
  split
  · exact singlePass_contained _ _
  split
  · exact (sound_rest s).contained
  rw [Method.meets_bind, Method.meets_perform]
  cases hcorpus : W.resolveCorpus request.corpusId with
  | error e =>
    simp only [eval, hcorpus]
    exact (sound_rest s).contained
  | ok corpus =>
    simp only [eval, hcorpus]
    unfold runFastPath
    rw [Method.meets_bind, Method.meets_bind, Method.meets_tryCatch, Method.meets_perform]
    have hsound : W.Sound s.calls { s with calls := s.calls ++ [.retrieval request.query corpus 0] } :=
      ⟨_, rfl, by rintro ⟨_, he, -⟩; simp [lastVerdict] at he⟩
    cases hretrieved : W.retrieve s.calls request.query corpus 0 with
    | error e =>
      simp only [eval, hretrieved]
      exact hsound.contained
    | ok evidence =>
      simp only [eval, hretrieved]
      rw [Method.meets_pure]
      dsimp only
      split
      · exact hsound.contained
      rw [Method.meets_assign_bind, Method.meets_bind]
      apply (meets_saveCheckpoint (W.RetrievesBound ctx request s) 0 _ _).mono
      rintro r t' s' ⟨hsilent, hsaved, -⟩
      have hsound' := hsilent.sound hsound
      cases r with
      | error e => exact hsound'.contained
      | ok u =>
        exact (loopRounds_settles texts (request.run texts corpus _) (fun h => h corpus evidence hcorpus hretrieved)
          _ 0 (hsaved rfl) hsound' t').mono fun _ _ _ hr => hr.contained

/-- With a request that passes the checks, the plan is that of its checkpoint. -/
theorem Resumes.meets {request : ResumeRequest} {ck : RunCheckpoint} {firstResult : FastPathResult}
    (h : W.Resumes ctx request s ck firstResult)
    {post : Except ChatError ResumePlan → IterationState → ChatStores → Prop} {t : IterationState}
    (hpost : (planGated texts ctx request.runId ck firstResult).Meets W.eval post t s) :
    (planResume texts ctx request).Meets W.eval post t s := by
  obtain ⟨htenant, huser, hsession⟩ := h.principal
  unfold planResume
  rw [if_neg (by simp [h.hasStore]), if_neg (by simp [h.judged]), Method.meets_bind, Method.meets_perform]
  simp only [eval, h.loaded]
  unfold planLoaded
  simp only [h.firstResult]
  rw [if_neg h.status, if_neg (by simp [htenant, huser, hsession]), if_neg (by simp [h.policyVersion]),
    if_neg (by simp [h.hasRegistry]), (returns_discoverable ck.corpusId).meets_bind,
    if_neg (by simp [h.discovers])]
  exact hpost

/-- What the conflict stage keeps has been authorized. -/
theorem survives_of_kept {ck : RunCheckpoint} (hkept : (W.recomputed texts ctx s ck).2 ≠ []) :
    ck.evidence.filter (W.keeps ctx) ≠ [] := by
  intro hnone
  unfold recomputed at hkept
  have hsub := runConflictStage_sublist texts (W.now s.calls) ck.query (texts.parseTemporalScope ck.query)
    (ck.evidence.filter (W.keeps ctx))
  rw [hnone] at hsub hkept
  exact hkept (List.sublist_nil.mp hsub)

/-- A fault of the judge in the recomputation is raised to the caller. -/
theorem recomputation_escapes {request : ResumeRequest} (h : W.RecomputationFaults texts ctx request s) :
    ¬W.FaultsContained s (Deliverable ctx request s) (W.resume texts ctx request s).1.1
      (W.resume texts ctx request s).2 := by
  obtain ⟨ck, firstResult, corpus, e, hresumes, ⟨ev, hev, hdropped⟩, hcorpus, hkept, hverdict, hfault⟩ := h
  have hsurvives := survives_of_kept hkept
  unfold recomputed at hkept hverdict
  suffices hrun : (resumeRun texts ctx request).Meets W.eval (fun r _ s' => r = .error e ∧
      s'.calls = s.calls ++ [.judgement ck.query ck.requiredFacts (runConflictStage texts (W.now s.calls)
        ck.query (texts.parseTemporalScope ck.query) (ck.evidence.filter (W.keeps ctx))).2]) .empty s by
    obtain ⟨hraised, hcalls⟩ := hrun
    intro hcontained
    have hfaulted : W.Faulted s.calls
        (((resumeRun texts ctx request .empty).exec W.eval s).2.calls.drop s.calls.length) := by
      rw [hcalls, List.drop_left]
      exact ⟨e, by simp [lastVerdict, hverdict], hfault⟩
    exact hcontained.caught hfaulted e hraised hfault
  unfold resumeRun
  rw [Method.meets_bind]
  apply hresumes.meets
  unfold planGated
  rw [(returns_reauthorizeAll ck.evidence).meets_bind]
  have hdrops : (ck.evidence.filter fun ev => !W.keeps ctx ev) ≠ [] :=
    List.ne_nil_of_mem (List.mem_filter.mpr ⟨hev, by simp [hdropped]⟩)
  dsimp only
  rw [if_neg hsurvives, Method.meets_bind, Method.meets_perform]
  simp only [eval, hcorpus]
  rw [Method.meets_assign_bind, if_pos hdrops]
  unfold planRevoked
  obtain ⟨t', rows, hreopen, -⟩ := returns_reopen W request.runId ck.status
    (stateFromCheckpoint texts ck (ck.evidence.filter (W.keeps ctx)))
    { s with findings := s.findings ++ W.revocations ctx ck.evidence }
  rw [show (ck.run request.runId firstResult corpus).runId = request.runId from rfl, hreopen.meets_bind,
    (returns_conflictStage texts _ _ _).meets_bind]
  dsimp only
  rw [if_neg hkept, Method.meets_assign_bind, Method.meets_bind, Method.meets_perform]
  simp [eval, hverdict]

/-- No fault of the judge escapes from `answer_with_iteration`, and none from `resume_run` unless the
recomputation calls a judge that is at fault. Stores, requests and surroundings are arbitrary; other
exceptions pass through both. -/
theorem judge_faults_contained_iff (W : ChatWorld) (texts : ChatTexts) (ctx : SecurityContext) (s : ChatStores) :
    (∀ request, W.FaultsContained s (W.RetrievesBound ctx request s) (W.answer texts ctx request s).1.1
      (W.answer texts ctx request s).2) ∧
    ∀ request, W.FaultsContained s (Deliverable ctx request s) (W.resume texts ctx request s).1.1
      (W.resume texts ctx request s).2 ↔ ¬W.RecomputationFaults texts ctx request s :=
  ⟨answer_contained, fun request => ⟨fun h hfaults => recomputation_escapes hfaults h, resume_contained request⟩⟩

end Main

namespace RecomputationFaults.Sample

open Honest.Sample

def handbook : SourceDocument where
  ref := ⟨⟨"acme", "hr", "handbook"⟩, "1"⟩
  source := ⟨"file:///handbook.md", "upload", none, "Handbook", "handbook.md", "text/markdown", "p", "md", "1", "1",
    "m", "1", 50⟩
  contentHash := "h1"
  status := .active
  effectiveFrom := none
  effectiveTo := none
  deprecated := false
  acl := ⟨"internal", .tenant, [], [], [], []⟩
  indexedAt := some 1
  deletedAt := none
  valid := by decide

def hr : CorpusConfig := ⟨"hr", "acme", none, true, true⟩

/-- A snapshot whose document has been deleted since. -/
def gone : Evidence := { office with evidenceId := "e2", documentId := "memo" }

/-- The handbook is active, the memo is not, and the judge times out. -/
def world : ChatWorld where
  resolveCorpus _ := .ok hr
  registryGet _ := .ok hr
  activeDocument doc := if doc.documentId = "handbook" then some handbook else none
  now _ := ⟨1717200000000000, none⟩
  retrieve _ _ _ _ := .ok []
  judge _ _ _ _ := .error (.judge true "timed out")
  model _ _ := .ok ⟨"", []⟩

/-- No conflicts. -/
def texts : ChatTexts where
  parseTemporalScope _ := .unspecified
  resolveConflicts evidence scope _ := ⟨scope, .none, [], evidence.map (·.evidenceId)⟩
  normalizeTopicKey query := query
  extractFacts _ := []
  checkClaim _ _ := .entailed

def checkpoint : RunCheckpoint :=
  checkpointOf ctx
    { runId := "run", query := "Where is the office?", corpusId := "hr", maxRounds := 3, required := [],
      firstResult := { result with evidence := [office, gone] }, saving := true }
    1 (.initial "Where is the office?" { result with evidence := [office, gone] } .unspecified)

def stores : ChatStores := ⟨[], [⟨"run", checkpoint.identity, .running, 1, checkpoint⟩], []⟩

def request : ResumeRequest := ⟨"run", true, true, true⟩

theorem resumes : world.Resumes ctx request stores checkpoint { result with evidence := [office, gone] } where
  hasStore := rfl
  judged := rfl
  hasRegistry := rfl
  loaded := by decide
  firstResult := rfl
  status := by decide
  principal := ⟨rfl, rfl, rfl⟩
  policyVersion := rfl
  discovers := ⟨hr, rfl⟩

theorem faults : world.RecomputationFaults texts ctx request stores :=
  ⟨checkpoint, _, hr, _, resumes, ⟨gone, by decide, by decide⟩, rfl, by decide, rfl, true, "timed out", rfl⟩

end RecomputationFaults.Sample

/-- A resumed run whose judge times out over the evidence that survives. -/
theorem judge_faults_contained_counterexample :
    ¬∀ (W : ChatWorld) (texts : ChatTexts) (ctx : SecurityContext) (s : ChatStores),
      (∀ request, W.FaultsContained s (W.RetrievesBound ctx request s) (W.answer texts ctx request s).1.1
        (W.answer texts ctx request s).2) ∧
      ∀ request, W.FaultsContained s (Deliverable ctx request s) (W.resume texts ctx request s).1.1
        (W.resume texts ctx request s).2 := by
  intro h
  have hcontained := (h RecomputationFaults.Sample.world RecomputationFaults.Sample.texts Honest.Sample.ctx
    RecomputationFaults.Sample.stores).2 RecomputationFaults.Sample.request
  exact recomputation_escapes RecomputationFaults.Sample.faults hcontained

end ChatWorld

end AgenticRag
