import AgenticRag.Answer.Completeness
import AgenticRag.Services.RoundLog

/-!
# The bounds of the iteration

However the judge, the retriever, the model and the conflict stage behave, `answer_with_iteration`
retrieves at most once a round, never repeats a query, and stops after two rounds without a gain.
-/

namespace AgenticRag

/-- A fault of a backend, a foreign snapshot or run id, or a fault of the model. -/
def ChatError.EndsIteration : ChatError → Prop
  | .fastPathBackend _ | .tenantBinding _ | .checkpointIdentityConflict _ | .modelInvocation _ => True
  | _ => False

section Planner

/-- The planner asks for nothing that was asked before. -/
theorem GapPlanner.not_mem_of_queries {prior : List String} {facts : List FactCoverage} {query : String}
    {rest : List String} (h : GapPlanner.queries prior facts = query :: rest) : query ∉ prior := by
  induction facts with
  | nil => cases h
  | cons fact facts ih =>
    unfold GapPlanner.queries at h
    split at h
    · split at h
      · rename_i hnew
        obtain rfl := (List.cons.inj h).1
        exact hnew.2
      · exact ih h
    · exact ih h

end Planner

section Policy

variable {policy : StopPolicy} {round maxRounds : Int} {status : OverallStatus} {canContinue gained : Bool}

/-- The policy after a round that is looked at for a gain. -/
def StopPolicy.counted (policy : StopPolicy) (gained : Bool) : StopPolicy :=
  if gained then ⟨0⟩ else ⟨policy.noGain + 1⟩

/-- The decision of a policy that has all of its budget left. -/
theorem StopPolicy.decide_eq :
    policy.decide round maxRounds status canContinue gained true 1 =
      if status = .sufficient then (⟨true, .sufficient⟩, policy)
      else if canContinue = false then (⟨true, .allSourcesExhausted⟩, policy)
      else if (policy.counted gained).noGain ≥ 2 then (⟨true, .noNewEvidence⟩, policy.counted gained)
      else if round + 1 ≥ maxRounds then (⟨true, .maxRounds⟩, policy.counted gained)
      else (⟨false, .goOn⟩, policy.counted gained) := by
  unfold StopPolicy.decide
  rw [if_neg (by simp), if_neg (by norm_num)]
  rfl

/-- The loop goes on only before its last round and after fewer than two rounds without a gain. -/
theorem StopPolicy.decide_goesOn
    (h : (policy.decide round maxRounds status canContinue gained true 1).1.shouldStop = false) :
    round + 1 < maxRounds ∧ (policy.counted gained).noGain < 2 ∧
      (policy.decide round maxRounds status canContinue gained true 1).2 = policy.counted gained := by
  rw [decide_eq] at h ⊢
  split at h
  · cases h
  split at h
  · cases h
  split at h
  · cases h
  split at h
  · cases h
  rename_i hstatus hcontinue hgain hrounds
  rw [if_neg hstatus, if_neg hcontinue, if_neg hgain, if_neg hrounds]
  exact ⟨by omega, by omega, rfl⟩

/-- The loop stops for a reason. -/
theorem StopPolicy.decide_stops
    (h : (policy.decide round maxRounds status canContinue gained true 1).1.shouldStop = true) :
    (policy.decide round maxRounds status canContinue gained true 1).1.reason.value ≠ "continue" ∧
      (policy.decide round maxRounds status canContinue gained true 1).1.reason.value ≠ "no_evidence" := by
  rw [decide_eq] at h ⊢
  split
  · simp [StopReason.value]
  split
  · simp [StopReason.value]
  split
  · simp [StopReason.value]
  split
  · simp [StopReason.value]
  rename_i hstatus hcontinue hgain hrounds
  rw [if_neg hstatus, if_neg hcontinue, if_neg hgain, if_neg hrounds] at h
  cases h

end Policy

section Absorb

variable {ctx : SecurityContext} {run : RunArgs}

/-- The snapshot is known by its text and by its version. -/
def IterationState.Knows (state : IterationState) (ev : Evidence) : Prop :=
  ev.textHash ∈ state.seenTextHashes ∧ (ev.documentId, ev.documentVersion) ∈ state.seenDocVersions

theorem mem_addTo {α : Type} [DecidableEq α] {x y : α} {xs : List α} : y ∈ addTo x xs ↔ y ∈ xs ∨ y = x := by
  unfold addTo
  split
  · rename_i hmem
    constructor
    · exact .inl
    · rintro (h | rfl)
      · exact h
      · exact hmem
  · simp

theorem IterationState.Knows.accumulate {state : IterationState} {ev : Evidence} (other : Evidence)
    (h : state.Knows ev) : (state.accumulate other).Knows ev :=
  ⟨mem_addTo.mpr (.inl h.1), mem_addTo.mpr (.inl h.2)⟩

theorem IterationState.knows_accumulate (state : IterationState) (ev : Evidence) :
    (state.accumulate ev).Knows ev :=
  ⟨mem_addTo.mpr (.inr rfl), mem_addTo.mpr (.inr rfl)⟩

theorem Gain.after_known {state : IterationState} {ev : Evidence} (gain : Gain) (h : state.Knows ev) :
    gain.after state ev = gain := by
  have hold : state.isNewContent ev = false := by simp [IterationState.isNewContent, h.1, h.2]
  simp [Gain.after, hold]

/-- What the loop over the snapshots of a retrieval leads to: its snapshots are known then, and they
are no gain if they were known before. -/
theorem absorb_ok {evs : List Evidence} {state state' : IterationState} {gain gain' : Gain}
    (h : absorb ctx run evs state gain = .ok (state', gain')) :
    state' = { state with
      evidenceById := state'.evidenceById
      seenIds := state'.seenIds
      seenTextHashes := state'.seenTextHashes
      seenDocVersions := state'.seenDocVersions } ∧
    (∀ ev, state.Knows ev → state'.Knows ev) ∧ (∀ ev ∈ evs, state'.Knows ev) ∧
    ((∀ ev ∈ evs, state.Knows ev) → gain' = gain) := by
  induction evs generalizing state gain with
  | nil =>
    obtain ⟨rfl, rfl⟩ := Prod.mk.inj (Except.ok.inj h)
    exact ⟨rfl, fun _ => id, by simp, fun _ => rfl⟩
  | cons ev rest ih =>
    unfold absorb at h
    split at h
    · cases h
    · obtain ⟨hsame, hkeeps, hknows, hgain⟩ := ih h
      refine ⟨hsame, fun old hold => hkeeps old (hold.accumulate ev), ?_, fun hall => ?_⟩
      · intro other hother
        rcases List.mem_cons.mp hother with rfl | hother
        · exact hkeeps other (state.knows_accumulate other)
        · exact hknows other hother
      · rw [hgain fun other hother => (hall other (List.mem_cons_of_mem ev hother)).accumulate ev]
        exact gain.after_known (hall ev List.mem_cons_self)

end Absorb

section Envelope

variable {ctx : SecurityContext}

/-- What the envelope reports about the loop. -/
structure AnswerEnvelope.Reports (env : AnswerEnvelope) (accounting : Accounting) : Prop where
  toolCalls : env.toolCalls = accounting.toolCalls
  gapRounds : env.gapRounds = accounting.gapRounds
  stopped : env.stopReason ≠ "continue"

theorem refusal_reports (corporaUsed : List String) (coverage : Option SufficiencyResult)
    (accounting : Accounting) : (refusal ctx corporaUsed coverage accounting).Reports accounting :=
  ⟨rfl, rfl, by simp [refusal]⟩

theorem buildEnvelopeFromEvidence_reports {evidence : List Evidence} {claims : List Claim}
    {parts : AnswerParts} {env : AnswerEnvelope} (h : buildEnvelopeFromEvidence ctx evidence claims parts = .ok env)
    (hreason : parts.stopReason.getD parts.abstainStopReason ≠ "continue") :
    env.Reports parts.accounting := by
  unfold buildEnvelopeFromEvidence at h
  dsimp only at h
  split at h
  · rw [buildRefusal_eq] at h
    obtain rfl := Except.ok.inj h
    exact refusal_reports _ _ _
  · obtain rfl := AnswerEnvelope.lockState_ok h
    exact ⟨rfl, rfl, hreason⟩

theorem ChatError.IsBinding.endsIteration {e : ChatError} (h : e.IsBinding) : e.EndsIteration := by
  obtain ⟨text, rfl⟩ := h
  trivial

/-- The verdict of the judge that leaves nothing to answer, or an answer from verified claims: the
envelope is built and reports the loop, unless a snapshot is foreign. -/
theorem buildAnswerEnvelope_reports (ctx : SecurityContext) {result : FastPathResult} (hsufficient : result.sufficiency ≠ .insufficient)
    (check : Claim → List Evidence → ClaimSupport) (claims : List Claim) (coverage : Option SufficiencyResult)
    (accounting : Accounting) (evidence : List Evidence) {reason : String}
    (hreason : reason ≠ "continue" ∧ reason ≠ "no_evidence") (report : Option ConflictReport) :
    (∃ env, buildAnswerEnvelope result ctx claims coverage (some (verifyAgainstEvidence check claims evidence))
      accounting (some evidence) (some reason) report = .ok env ∧ env.Reports accounting) ∨
    ∃ e, buildAnswerEnvelope result ctx claims coverage (some (verifyAgainstEvidence check claims evidence))
      accounting (some evidence) (some reason) report = .error e ∧ e.IsBinding := by
  unfold buildAnswerEnvelope
  cases hchecked : checkTenantBinding ctx result with
  | error e => exact .inr ⟨e, rfl, checkTenantBinding_raises result e hchecked⟩
  | ok u =>
    simp only [bind, Except.bind, if_neg hsufficient, Option.getD_some]
    cases hbound : checkEvidenceBinding ctx result.corpusId evidence with
    | error e => exact .inr ⟨e, rfl, checkEvidenceBinding_raises _ _ e hbound⟩
    | ok u =>
      obtain ⟨env, hbuilt, -⟩ := buildEnvelopeFromEvidence_ok ctx evidence claims
        ⟨coverage, some (verifyAgainstEvidence check claims evidence), accounting, [], false, some reason,
          result.stopReason, [result.corpusId], report⟩
        (fun claim hclaim => verifyAgainstEvidence_cited hclaim) hreason.2
      exact .inl ⟨env, hbuilt, buildEnvelopeFromEvidence_reports hbuilt hreason.1⟩

end Envelope

namespace ChatWorld

section Invariant

variable (W : ChatWorld) (past : List ChatCall) (query : String) (maxRounds : Int)

/-- What holds of the calls of a run: its first query is that of the request, none is repeated, there
is at most one for each round, and none follows two rounds without a gain. -/
structure Logged (since : List ChatCall) : Prop where
  first : ∃ gaps, ChatCall.executed since = query :: gaps
  distinct : (ChatCall.executed since).Nodup
  within : ((ChatCall.executed since).length : Int) ≤ maxRounds
  orderly : W.Orderly past since

/-- The state of the loop agrees with the calls of the run. -/
structure Tracks (since : List ChatCall) (t : IterationState) : Prop where
  logged : W.Logged past query maxRounds since
  queries : t.priorQueries = ChatCall.executed since
  calls : t.retrievalCalls = (ChatCall.executed since).length
  rounds : t.gapRounds ≤ maxRounds
  known : ∀ ev ∈ W.gathered past since, t.Knows ev

/-- Between two rounds: fewer than two of them were without a gain. -/
structure Between (roundIdx : Int) (since : List ChatCall) (t : IterationState) : Prop where
  tracks : W.Tracks past query maxRounds since t
  calls : t.retrievalCalls = roundIdx
  calm : ¬W.TwoGainless past since
  verdict : W.lastVerdict past since = t.coverage.map .ok
  judged : t.coverage.isSome = true
  last : ∀ before round, since = before ++ round.calls → W.Gainless past before round → 1 ≤ t.stopPolicy.noGain

/-- In a round that has retrieved: `since` are the calls before its retrieval. -/
structure Assessing (roundIdx : Int) (since : List ChatCall) (retrieval : ChatCall) (gain : Gain)
    (t : IterationState) : Prop where
  retrieves : retrieval.retrieval?.isSome = true
  tracks : W.Tracks past query maxRounds (since ++ [retrieval]) t
  calls : t.retrievalCalls = roundIdx + 1
  calm : ¬W.TwoGainless past since
  verdict : W.lastVerdict past since = t.coverage.map .ok
  last : ∀ before round, since = before ++ round.calls → W.Gainless past before round → 1 ≤ t.stopPolicy.noGain
  gain : ∀ round : RoundCalls, round.retrieval = retrieval → W.Gainless past since round →
    gain.newEvidenceIds = [] ∧ gain.newContent = false

inductive RoundDone (roundIdx : Int) : Except ChatError RoundEnd → IterationState → ChatStores → Prop
  | raises {e : ChatError} {t : IterationState} {s : ChatStores} {since : List ChatCall}
      (hcalls : s.calls = past ++ since) (hlogged : W.Logged past query maxRounds since)
      (he : e.EndsIteration) : RoundDone roundIdx (.error e) t s
  | terminal {env : AnswerEnvelope} {t : IterationState} {s : ChatStores} {since : List ChatCall}
      (hcalls : s.calls = past ++ since) (htracks : W.Tracks past query maxRounds since t)
      (henv : env.Reports t.accounting) : RoundDone roundIdx (.ok (.terminal env)) t s
  | broken {t : IterationState} {s : ChatStores} {since : List ChatCall} {reason : String}
      (hcalls : s.calls = past ++ since) (htracks : W.Tracks past query maxRounds since t)
      (hjudged : t.coverage.isSome = true) (hreason : t.finalReason = some reason)
      (hstops : reason ≠ "continue" ∧ reason ≠ "no_evidence") : RoundDone roundIdx (.ok .broken) t s
  | proceeds {t : IterationState} {s : ChatStores} {since : List ChatCall}
      (hcalls : s.calls = past ++ since) (hbetween : W.Between past query maxRounds (roundIdx + 1) since t)
      (hmore : roundIdx + 1 < maxRounds) : RoundDone roundIdx (.ok .proceeds) t s

end Invariant

section Steps

variable {W : ChatWorld} {past : List ChatCall} {query : String} {maxRounds : Int} {since : List ChatCall}
  {t t' : IterationState}

/-- A call that is no retrieval. -/
theorem Logged.snoc (h : W.Logged past query maxRounds since) {call : ChatCall} (hcall : call.retrieval? = none) :
    W.Logged past query maxRounds (since ++ [call]) := by
  have hsame : ChatCall.executed (since ++ [call]) = ChatCall.executed since := by
    simp [ChatCall.executed, hcall]
  constructor
  · rw [hsame]
    exact h.first
  · rw [hsame]
    exact h.distinct
  · rw [hsame]
    exact h.within
  · exact h.orderly.snoc fun hsome => by simp [hcall] at hsome

/-- A further query. -/
theorem Logged.snoc_retrieval (h : W.Logged past query maxRounds since) {gap : String} {corpus : CorpusConfig}
    {iteration : Int} (hnew : gap ∉ ChatCall.executed since)
    (hwithin : ((ChatCall.executed since).length : Int) < maxRounds) (hcalm : ¬W.TwoGainless past since) :
    W.Logged past query maxRounds (since ++ [.retrieval gap corpus iteration]) := by
  have hsame : ChatCall.executed (since ++ [.retrieval gap corpus iteration]) = ChatCall.executed since ++ [gap] := by
    simp [ChatCall.executed, ChatCall.retrieval?]
  obtain ⟨gaps, hgaps⟩ := h.first
  constructor
  · exact ⟨gaps ++ [gap], by rw [hsame, hgaps, List.cons_append]⟩
  · rw [hsame, ← List.concat_eq_append]
    exact h.distinct.concat hnew
  · rw [hsame, List.length_append, List.length_singleton]
    push_cast
    omega
  · exact h.orderly.snoc fun _ => hcalm

theorem Tracks.snoc (h : W.Tracks past query maxRounds since t) {call : ChatCall} (hcall : call.retrieval? = none) :
    W.Tracks past query maxRounds (since ++ [call]) t := by
  have hsame : ChatCall.executed (since ++ [call]) = ChatCall.executed since := by
    simp [ChatCall.executed, hcall]
  constructor
  · exact h.logged.snoc hcall
  · rw [hsame, h.queries]
  · rw [hsame, h.calls]
  · exact h.rounds
  · rw [gathered_other hcall]
    exact h.known

/-- A change of attributes that the calls do not tell. -/
theorem Tracks.congr (h : W.Tracks past query maxRounds since t) (hrounds : t'.gapRounds ≤ maxRounds)
    (hqueries : t'.priorQueries = t.priorQueries) (hcalls : t'.retrievalCalls = t.retrievalCalls)
    (hhashes : t'.seenTextHashes = t.seenTextHashes) (hversions : t'.seenDocVersions = t.seenDocVersions) :
    W.Tracks past query maxRounds since t' := by
  constructor
  · exact h.logged
  · rw [hqueries, h.queries]
  · rw [hcalls, h.calls]
  · exact hrounds
  · intro ev hev
    unfold IterationState.Knows
    rw [hhashes, hversions]
    exact h.known ev hev

variable {roundIdx : Int} {retrieval : ChatCall} {gain : Gain} {run : RunArgs} {ctx : SecurityContext}
  {s : ChatStores}

/-- The verdict on a round without a gain covers nothing new. -/
theorem Assessing.gainless (h : W.Assessing past query maxRounds roundIdx since retrieval gain t)
    {round : RoundCalls} (hretrieval : round.retrieval = retrieval) (hgainless : W.Gainless past since round)
    {coverage : SufficiencyResult}
    (hverdict : W.judge (past ++ (since ++ [retrieval])) round.question round.requiredFacts round.shown =
      .ok coverage) :
    ¬(gain.newEvidenceIds ≠ [] ∨ (coverage.coveredFactIds.filter fun factId =>
      decide (factId ∉ (t.coverage.map (·.coveredFactIds)).getD [])) ≠ [] ∨ gain.newContent = true) := by
  obtain ⟨hids, hcontent⟩ := h.gain round hretrieval hgainless
  subst hretrieval
  rw [← List.append_assoc] at hverdict
  have hcovered : (coverage.coveredFactIds.filter fun factId =>
      decide (factId ∉ (t.coverage.map (·.coveredFactIds)).getD [])) = [] := by
    rw [List.filter_eq_nil_iff]
    intro factId hfact
    obtain ⟨previous, hprevious, hbefore⟩ := hgainless.facts coverage hverdict factId hfact
    rw [h.verdict] at hprevious
    cases hstate : t.coverage with
    | none => simp [hstate] at hprevious
    | some old =>
      simp only [hstate, Option.map_some, Option.some.injEq, Except.ok.injEq] at hprevious
      simp [hprevious, hbefore]
  rw [hids, hcontent, hcovered]
  simp

/-- What follows the verdict of a round. -/
theorem decideRound_done (h : W.Assessing past query maxRounds roundIdx since retrieval gain t)
    (hrun : run.maxRounds = maxRounds) {coverage : SufficiencyResult} {question : String}
    {requiredFacts : List Judge.RequiredFact} {shown : List Evidence}
    (hverdict : W.judge (past ++ (since ++ [retrieval])) question requiredFacts shown = .ok coverage)
    (hprev : t'.prevCovered = (t.coverage.map (·.coveredFactIds)).getD []) (hcoverage : t'.coverage = some coverage)
    (hpolicy : t'.stopPolicy = t.stopPolicy)
    (htracks : W.Tracks past query maxRounds (since ++ [retrieval] ++ [.judgement question requiredFacts shown]) t')
    (hcalls : s.calls = past ++ (since ++ [retrieval] ++ [.judgement question requiredFacts shown]))
    (hretrieved : t'.retrievalCalls = roundIdx + 1) :
    (decideRound run roundIdx gain coverage).Meets W.eval (RoundDone W past query maxRounds roundIdx) t' s := by
  have hnone (round : RoundCalls) (hretrieval : round.retrieval = retrieval)
      (hjudgement : round.judgement = .judgement question requiredFacts shown)
      (hgainless : W.Gainless past since round) :
      decide (gain.newEvidenceIds ≠ [] ∨ (coverage.coveredFactIds.filter fun factId =>
        decide (factId ∉ t'.prevCovered)) ≠ [] ∨ gain.newContent = true) = false := by
    obtain ⟨rfl, rfl, rfl⟩ : round.question = question ∧ round.requiredFacts = requiredFacts ∧ round.shown = shown := by
      simpa [RoundCalls.judgement] using hjudgement
    rw [decide_eq_false_iff_not, hprev]
    exact h.gainless hretrieval hgainless hverdict
  unfold decideRound
  rw [Method.meets_self_bind]
  dsimp only
  rw [Method.meets_assign_bind, Method.meets_pure, hrun]
  generalize decide (gain.newEvidenceIds ≠ [] ∨ (coverage.coveredFactIds.filter fun factId =>
    decide (factId ∉ t'.prevCovered)) ≠ [] ∨ gain.newContent = true) = gained at hnone ⊢
  cases hstop : (t'.stopPolicy.decide roundIdx maxRounds coverage.overallStatus coverage.canContinueRetrieval
    gained true 1).1.shouldStop with
  | true =>
    rw [if_pos rfl]
    exact .broken hcalls (htracks.congr htracks.rounds rfl rfl rfl rfl) (by simp [hcoverage]) rfl
      (StopPolicy.decide_stops hstop)
  | false =>
    obtain ⟨hmore, hfew, hcounted⟩ := StopPolicy.decide_goesOn hstop
    rw [if_neg (by simp)]
    have hgain (round : RoundCalls) (hretrieval : round.retrieval = retrieval)
        (hjudgement : round.judgement = .judgement question requiredFacts shown)
        (hgainless : W.Gainless past since round) :
        (t'.stopPolicy.counted gained).noGain = t.stopPolicy.noGain + 1 := by
      rw [hnone round hretrieval hjudgement hgainless, hpolicy]
      rfl
    refine .proceeds hcalls ⟨htracks.congr htracks.rounds rfl rfl rfl rfl, hretrieved, ?_, ?_, by simp [hcoverage],
      ?_⟩ hmore
    · -- two rounds without a gain would have stopped the loop
      intro htwo
      have hkind : retrieval.isJudgement = false := by
        have hretrieves := h.retrieves
        cases retrieval with
        | judgement question requiredFacts shown => simp [ChatCall.retrieval?] at hretrieves
        | _ => rfl
      rcases htwo.of_snoc with hearlier | ⟨before, first, second, hsplit, hjudgement, hfirst, hsecond⟩
      · exact not_twoGainless_snoc hkind h.calm hearlier
      · obtain ⟨hsince, hlast⟩ := List.append_inj' hsplit rfl
        have hnow := hgain second (List.cons.inj hlast).1.symm hjudgement.symm (hsince ▸ hsecond)
        have hbefore := h.last before first hsince hfirst
        omega
    · rw [lastVerdict_judgement, hverdict]
      simp [hcoverage]
    · intro before round hsplit hgainless
      have hsplit' : since ++ [retrieval] ++ [.judgement question requiredFacts shown] =
          before ++ [round.retrieval] ++ [round.judgement] := by
        simpa [RoundCalls.calls] using hsplit
      obtain ⟨hinit, hjudgement⟩ := List.append_inj' hsplit' rfl
      obtain ⟨rfl, hretrieval⟩ := List.append_inj' hinit rfl
      have hnow := hgain round (List.cons.inj hretrieval).1.symm (List.cons.inj hjudgement).1.symm hgainless
      dsimp only
      rw [hcounted]
      omega

/-- What the judge raises, if it raises, is a fault of the judge. -/
def JudgeRaisesFaults (W : ChatWorld) : Prop :=
  ∀ past query requiredFacts evidence e, W.judge past query requiredFacts evidence = .error e → e.IsJudgeFault

/-- A round after its retrieval. -/
theorem assessRound_done (hjudge : W.JudgeRaisesFaults) (texts : ChatTexts)
    (h : W.Assessing past query maxRounds roundIdx since retrieval gain t) (hrun : run.maxRounds = maxRounds)
    (hcalls : s.calls = past ++ (since ++ [retrieval])) :
    (assessRound texts ctx run roundIdx gain).Meets W.eval (RoundDone W past query maxRounds roundIdx) t s := by
  have htracks := h.tracks
  unfold assessRound
  rw [Method.meets_self_bind, (returns_conflictStage texts _ _ _).meets_bind]
  generalize runConflictStage texts (W.now s.calls) run.query t.scope t.evidenceById = staged
  obtain ⟨report, kept⟩ := staged
  dsimp only
  split
  · unfold noEvidenceRound
    rw [Method.meets_assign_bind, Method.meets_self_bind, buildNoEvidenceRefusal_eq]
    exact .terminal hcalls (htracks.congr htracks.rounds rfl rfl rfl rfl) (refusal_reports _ _ _)
  split
  · rw [Method.meets_assign_bind]
    exact .broken hcalls (htracks.congr htracks.rounds rfl rfl rfl rfl) rfl rfl (by simp)
  rw [Method.meets_assign_bind, Method.meets_bind]
  have hjudged := meets_judgeOrFault (W := W) run.query run.required kept
    { t with finalReport := some report, finalEvidence := kept,
             prevCovered := (t.coverage.map (·.coveredFactIds)).getD [] } s
  apply hjudged.mono
  rintro r t' s' ⟨rfl, -, hjudgement, hr⟩
  have hcalls' : s'.calls = past ++ (since ++ [retrieval] ++ [.judgement run.query run.required kept]) := by
    rw [hjudgement, hcalls, List.append_assoc]
  have htracks' : W.Tracks past query maxRounds (since ++ [retrieval] ++ [.judgement run.query run.required kept]) t :=
    htracks.snoc rfl
  cases r with
  | error e => exact absurd (hjudge _ _ _ _ e hr.1) hr.2
  | ok verdict =>
    cases verdict with
    | none =>
      dsimp only
      unfold judgeFaultRound
      rw [Method.meets_assign_bind, Method.meets_self_bind, Method.meets_bind, Method.meets_ofExcept,
        conservativeRefusal_eq]
      cases hchecked : checkTenantBinding ctx run.firstResult with
      | error e =>
        exact .raises hcalls' htracks'.logged (checkTenantBinding_raises run.firstResult e hchecked).endsIteration
      | ok u =>
        exact .terminal hcalls' (htracks'.congr htracks'.rounds rfl rfl rfl rfl) (refusal_reports _ _ _)
    | some coverage =>
      dsimp only at hr ⊢
      rw [hcalls] at hr
      rw [Method.meets_assign_bind]
      exact decideRound_done h hrun hr rfl rfl rfl (htracks'.congr htracks'.rounds rfl rfl rfl rfl) hcalls' h.calls

/-- The first round, whose retrieval is that of the fast path. -/
theorem runRound_first (hjudge : W.JudgeRaisesFaults) (texts : ChatTexts)
    (h : W.Assessing past query maxRounds 0 since retrieval ⟨t.seenIds, false⟩ t) (hrun : run.maxRounds = maxRounds)
    (hpositive : 1 ≤ maxRounds) (hcalls : s.calls = past ++ (since ++ [retrieval])) :
    (runRound texts ctx run 0).Meets W.eval (RoundDone W past query maxRounds 0) t s := by
  unfold runRound
  rw [Method.meets_assign_bind, Method.meets_self_bind, if_pos rfl]
  refine assessRound_done hjudge texts ?_ hrun hcalls
  have htracks : W.Tracks past query maxRounds (since ++ [retrieval]) { t with gapRounds := 0 + 1 } :=
    h.tracks.congr (by simpa using hpositive) rfl rfl rfl rfl
  exact ⟨h.retrieves, htracks, h.calls, h.calm, h.verdict, h.last, h.gain⟩

/-- A later round retrieves for one query that was not executed before. -/
theorem runRound_next (hjudge : W.JudgeRaisesFaults) (texts : ChatTexts)
    (h : W.Between past query maxRounds roundIdx since t) (hrun : run.maxRounds = maxRounds)
    (hlater : roundIdx ≠ 0) (hmore : roundIdx < maxRounds) (hcalls : s.calls = past ++ since) :
    (runRound texts ctx run roundIdx).Meets W.eval (RoundDone W past query maxRounds roundIdx) t s := by
  have htracks := h.tracks
  unfold runRound
  rw [Method.meets_assign_bind, Method.meets_self_bind, if_neg hlater]
  obtain ⟨coverage, hcoverage⟩ := Option.isSome_iff_exists.mp h.judged
  simp only [hcoverage]
  split
  · rw [Method.meets_assign_bind]
    exact .broken hcalls (htracks.congr hmore.le rfl rfl rfl rfl) rfl rfl (by simp [StopReason.value])
  rename_i gap rest hqueries
  have hnew : gap ∉ ChatCall.executed since := by
    rw [← htracks.queries]
    exact GapPlanner.not_mem_of_queries hqueries
  have hwithin : ((ChatCall.executed since).length : Int) < maxRounds := by
    rw [← htracks.calls, h.calls]
    exact hmore
  have hlogged : W.Logged past query maxRounds (since ++ [.retrieval gap run.corpus roundIdx]) :=
    htracks.logged.snoc_retrieval hnew hwithin h.calm
  have hexecuted : ChatCall.executed (since ++ [.retrieval gap run.corpus roundIdx]) =
      ChatCall.executed since ++ [gap] := by
    simp [ChatCall.executed, ChatCall.retrieval?]
  unfold gapRetrieval
  rw [Method.meets_bind, Method.meets_bind, Method.meets_tryCatch, Method.meets_perform]
  have hcalls' : s.calls ++ [.retrieval gap run.corpus roundIdx] =
      past ++ (since ++ [.retrieval gap run.corpus roundIdx]) := by
    rw [hcalls, List.append_assoc]
  cases hretrieved : W.retrieve s.calls gap run.corpus roundIdx with
  | error e =>
    simp only [eval, hretrieved]
    exact .raises hcalls' hlogged trivial
  | ok evs =>
    simp only [eval, hretrieved]
    rw [Method.meets_self_bind, Method.meets_bind, Method.meets_ofExcept]
    rcases habsorbed : absorb ctx run evs _ ⟨[], false⟩ with e | ⟨state, gain⟩
    · exact .raises hcalls' hlogged (absorb_raises run evs _ _ e habsorbed).endsIteration
    obtain ⟨hsame, hkeeps, hknows, hgain⟩ := absorb_ok habsorbed
    dsimp only
    rw [Method.meets_assign_bind, Method.meets_pure]
    refine assessRound_done hjudge texts ?_ hrun hcalls'
    have hretrieved' : W.retrieve (past ++ since) gap run.corpus roundIdx = .ok evs := hcalls ▸ hretrieved
    have hprior : addTo gap state.priorQueries = ChatCall.executed since ++ [gap] := by
      have hqueries : state.priorQueries = ChatCall.executed since := by rw [hsame, htracks.queries]
      rw [hqueries, addTo, if_neg hnew]
    have hcount : state.retrievalCalls = roundIdx + 1 := by rw [hsame, h.calls]
    have hlength : roundIdx = (ChatCall.executed since).length := h.calls.symm.trans htracks.calls
    refine
      { retrieves := rfl
        tracks := ⟨hlogged, ?_, ?_, ?_, ?_⟩
        calls := hcount
        calm := h.calm
        verdict := ?_
        last := ?_
        gain := ?_ }
    · rw [hexecuted]
      exact hprior
    · rw [hexecuted, List.length_append, List.length_singleton, Nat.cast_add, Nat.cast_one, ← hlength]
      exact hcount
    · rw [hsame]
      exact hmore
    · rw [gathered_retrieval hretrieved']
      intro ev hev
      rcases List.mem_append.mp hev with hold | hnow
      · exact hkeeps ev (htracks.known ev hold)
      · exact hknows ev hnow
    · rw [h.verdict, hsame, hcoverage]
    · intro before round hsplit hgainless
      rw [hsame]
      exact h.last before round hsplit hgainless
    · intro round hretrieval hgainless
      simp only [RoundCalls.retrieval, ChatCall.retrieval.injEq] at hretrieval
      obtain ⟨rfl, hcorpus, hiteration⟩ := hretrieval
      rw [← hcorpus, ← hiteration] at hretrieved'
      have hall : ∀ ev ∈ evs, t.Knows ev := by
        intro ev hev
        obtain ⟨old, hold, htext⟩ := hgainless.texts evs hretrieved' ev hev
        obtain ⟨other, hother, hdocument, hversion⟩ := hgainless.versions evs hretrieved' ev hev
        refine ⟨htext ▸ (htracks.known old hold).1, ?_⟩
        rw [← hdocument, ← hversion]
        exact (htracks.known other hother).2
      have hnothing : gain = ⟨[], false⟩ := hgain hall
      rw [hnothing]
      exact ⟨rfl, rfl⟩

end Steps

section Loop

variable (W : ChatWorld) (past : List ChatCall) (query : String) (maxRounds : Int)

/-- How the run ends: with an error of its surroundings, or with an envelope that counts its
retrievals. -/
structure Ended (since : List ChatCall) (r : Except ChatError AnswerEnvelope) : Prop where
  logged : W.Logged past query maxRounds since
  raises : RaisesOnly ChatError.EndsIteration r
  toolCalls : ∀ env, r = .ok env → env.toolCalls = (ChatCall.executed since).length
  gapRounds : ∀ env, r = .ok env → env.gapRounds ≤ maxRounds
  stopped : ∀ env, r = .ok env → env.stopReason ≠ "continue"

def Bounded (r : Except ChatError AnswerEnvelope) (_ : IterationState) (s' : ChatStores) : Prop :=
  ∃ since, s'.calls = past ++ since ∧ W.Ended past query maxRounds since r

variable {W past query maxRounds} {since : List ChatCall} {t : IterationState} {s : ChatStores} {roundIdx : Int}
  {ctx : SecurityContext} {run : RunArgs}

theorem Logged.raised (h : W.Logged past query maxRounds since) {e : ChatError} (he : e.EndsIteration) :
    W.Ended past query maxRounds since (.error e) := by
  constructor
  · exact h
  · exact .error he
  all_goals
    intro env henv
    cases henv

theorem Logged.answered (h : W.Logged past query maxRounds since) {env : AnswerEnvelope} {accounting : Accounting}
    (henv : env.Reports accounting) (hcalls : accounting.toolCalls = (ChatCall.executed since).length)
    (hrounds : accounting.gapRounds ≤ maxRounds) : W.Ended past query maxRounds since (.ok env) := by
  constructor
  · exact h
  · exact .ok env
  all_goals
    intro env' henv'
    obtain rfl := Except.ok.inj henv'
  · exact henv.toolCalls.trans hcalls
  · exact henv.gapRounds.trans_le hrounds
  · exact henv.stopped

theorem finalizeIteration_bounded (texts : ChatTexts) (htracks : W.Tracks past query maxRounds since t)
    (hcalls : s.calls = past ++ since) (hjudged : t.coverage.isSome = true) {reason : String}
    (hreason : t.finalReason = some reason) (hstops : reason ≠ "continue" ∧ reason ≠ "no_evidence")
    (hfirst : run.firstResult.sufficiency ≠ .insufficient) :
    (finalizeIteration texts ctx run).Meets W.eval (W.Bounded past query maxRounds) t s := by
  have hcovered : t.finalCoverage.isSome = true := by
    unfold IterationState.finalCoverage
    split
    · rfl
    · exact hjudged
  unfold finalizeIteration
  rw [Method.meets_self_bind]
  unfold synthesize
  rw [Method.meets_bind, Method.meets_tryCatch, Method.meets_perform]
  generalize buildMessages run.query t.finalEvidence t.finalReport = messages
  have hlogged : W.Logged past query maxRounds (since ++ [.invocation messages]) := htracks.logged.snoc rfl
  have hcalls' : s.calls ++ [.invocation messages] = past ++ (since ++ [.invocation messages]) := by
    rw [hcalls, List.append_assoc]
  have hexecuted : ChatCall.executed (since ++ [.invocation messages]) = ChatCall.executed since := by
    simp [ChatCall.executed, ChatCall.retrieval?]
  cases hmodel : W.model s.calls messages with
  | error e =>
    simp only [eval, hmodel]
    exact ⟨_, hcalls', hlogged.raised trivial⟩
  | ok extraction =>
    simp only [eval, hmodel]
    rw [Method.meets_ofExcept, if_pos ⟨hcovered, trivial⟩, hreason]
    refine ⟨_, hcalls', ?_⟩
    rcases buildAnswerEnvelope_reports ctx hfirst texts.checkClaim extraction.claims t.finalCoverage
      t.accounting t.finalEvidence hstops t.finalReport with ⟨env, hbuilt, henv⟩ | ⟨e, hbuilt, he⟩
    · rw [hbuilt]
      refine hlogged.answered henv ?_ htracks.rounds
      rw [hexecuted]
      exact htracks.calls
    · rw [hbuilt]
      exact hlogged.raised he.endsIteration

/-- Saving and marking leave the calls and the attributes as they are. -/
theorem saveCheckpoint_meets {args : CheckpointArgs} (roundIndex : Int) (t : IterationState) (s : ChatStores) :
    (saveCheckpoint ctx args roundIndex).Meets W.eval (fun r t' s' =>
      t' = t ∧ s'.calls = s.calls ∧ RaisesOnly ChatError.EndsIteration r) t s := by
  unfold saveCheckpoint
  rw [Method.meets_self_bind]
  split
  · refine ⟨rfl, rfl, ?_⟩
    intro e he
    change (CheckpointTable.saveRunCheckpoint s.checkpoints (checkpointOf ctx args roundIndex t)).1 = .error e at he
    unfold CheckpointTable.saveRunCheckpoint at he
    split at he
    · split at he
      · obtain rfl := Except.error.inj he
        trivial
      · cases he
    · cases he
  · exact ⟨rfl, rfl, .ok ()⟩

theorem markDone_meets {args : CheckpointArgs} (t : IterationState) (s : ChatStores) :
    (markDone args).Meets W.eval (fun r t' s' => r = .ok () ∧ t' = t ∧ s'.calls = s.calls) t s := by
  unfold markDone
  split
  · exact ⟨rfl, rfl, rfl⟩
  · exact ⟨rfl, rfl, rfl⟩

/-- What follows a save: nothing if it is refused. -/
theorem saved_bounded {args : CheckpointArgs} {roundIndex : Int} {f : ChatMethod AnswerEnvelope}
    (hlogged : W.Logged past query maxRounds since) (hcalls : s.calls = past ++ since)
    (hf : ∀ s', s'.calls = past ++ since → f.Meets W.eval (W.Bounded past query maxRounds) t s') :
    (saveCheckpoint ctx args roundIndex >>= fun _ => f).Meets W.eval (W.Bounded past query maxRounds) t s := by
  rw [Method.meets_bind]
  apply (saveCheckpoint_meets roundIndex t s).mono
  rintro r t' s' ⟨rfl, hsame, hraises⟩
  cases r with
  | ok u => exact hf s' (hsame.trans hcalls)
  | error e => exact ⟨since, hsame.trans hcalls, hlogged.raised (hraises e rfl)⟩

theorem marked_bounded {args : CheckpointArgs} {f : ChatMethod AnswerEnvelope} (hcalls : s.calls = past ++ since)
    (hf : ∀ s', s'.calls = past ++ since → f.Meets W.eval (W.Bounded past query maxRounds) t s') :
    (markDone args >>= fun _ => f).Meets W.eval (W.Bounded past query maxRounds) t s := by
  rw [Method.meets_bind]
  apply (markDone_meets t s).mono
  rintro r t' s' ⟨rfl, rfl, hsame⟩
  exact hf s' (hsame.trans hcalls)

/-- From the end of a round to the end of the run. -/
theorem loopRounds_of_round (texts : ChatTexts) (rounds : Nat)
    (hfirst : run.firstResult.sufficiency ≠ .insufficient)
    (hround : (runRound texts ctx run roundIdx).Meets W.eval (RoundDone W past query maxRounds roundIdx) t s)
    (hnext : ∀ since t s, s.calls = past ++ since → W.Between past query maxRounds (roundIdx + 1) since t →
      roundIdx + 1 < maxRounds →
      (loopRounds texts ctx run rounds (roundIdx + 1)).Meets W.eval (W.Bounded past query maxRounds) t s) :
    (loopRounds texts ctx run (rounds + 1) roundIdx).Meets W.eval (W.Bounded past query maxRounds) t s := by
  unfold loopRounds
  rw [Method.meets_bind]
  apply hround.mono
  intro r t s hdone
  cases hdone with
  | raises hcalls hlogged he => exact ⟨_, hcalls, hlogged.raised he⟩
  | terminal hcalls htracks henv =>
    refine saved_bounded htracks.logged hcalls fun s' hcalls => marked_bounded hcalls fun s'' hcalls => ?_
    exact ⟨_, hcalls, htracks.logged.answered henv htracks.calls htracks.rounds⟩
  | broken hcalls htracks hjudged hreason hstops =>
    refine saved_bounded htracks.logged hcalls fun s' hcalls => marked_bounded hcalls fun s'' hcalls => ?_
    exact finalizeIteration_bounded texts htracks hcalls hjudged hreason hstops hfirst
  | proceeds hcalls hbetween hmore =>
    exact saved_bounded hbetween.tracks.logged hcalls fun s' hcalls => hnext _ _ s' hcalls hbetween hmore

/-- The rounds after the first one. -/
theorem loopRounds_bounded (hjudge : W.JudgeRaisesFaults) (texts : ChatTexts)
    (hfirst : run.firstResult.sufficiency ≠ .insufficient) (hrun : run.maxRounds = maxRounds) (rounds : Nat)
    (hpositive : 0 < roundIdx) (hlast : roundIdx + rounds = maxRounds) (hmore : roundIdx < maxRounds)
    (hbetween : W.Between past query maxRounds roundIdx since t) (hcalls : s.calls = past ++ since) :
    (loopRounds texts ctx run rounds roundIdx).Meets W.eval (W.Bounded past query maxRounds) t s := by
  induction rounds generalizing roundIdx since t s with
  | zero => omega
  | succ rounds ih =>
    refine loopRounds_of_round texts rounds hfirst
      (runRound_next hjudge texts hbetween hrun hpositive.ne' hmore hcalls) ?_
    intro since t s hcalls hbetween hmore
    exact ih (by omega) (by push_cast at hlast; omega) hmore hbetween hcalls

end Loop

section Main

/-- The bounds of a call of `answer_with_iteration` that makes the calls `since`, among them the
retrievals for `gaps`, and ends with `r`. -/
structure WithinBounds (W : ChatWorld) (request : IterationRequest) (past since : List ChatCall)
    (gaps : List String) (r : Except ChatError AnswerEnvelope) : Prop where
  executed : ChatCall.executed since = request.query :: gaps
  distinct : (request.query :: gaps).Nodup
  orderly : W.Orderly past since
  within : (1 + gaps.length : Int) ≤ request.maxRounds
  toolCalls : ∀ env, r = .ok env → env.toolCalls = 1 + gaps.length
  gapRounds : ∀ env, r = .ok env → env.gapRounds ≤ request.maxRounds
  stopped : ∀ env, r = .ok env → env.stopReason ≠ "continue"
  raises : RaisesOnly ChatError.EndsIteration r

variable {W : ChatWorld} {past since : List ChatCall}

theorem Ended.withinBounds {request : IterationRequest} {r : Except ChatError AnswerEnvelope}
    (h : W.Ended past request.query request.maxRounds since r) :
    ∃ gaps, W.WithinBounds request past since gaps r := by
  obtain ⟨gaps, hgaps⟩ := h.logged.first
  have hlength : ((ChatCall.executed since).length : Int) = 1 + gaps.length := by
    rw [hgaps, List.length_cons]
    push_cast
    omega
  refine ⟨gaps, hgaps, hgaps ▸ h.logged.distinct, h.logged.orderly, hlength ▸ h.logged.within, ?_, h.gapRounds,
    h.stopped, h.raises⟩
  intro env henv
  rw [h.toolCalls env henv, hlength]

theorem logged_first {query : String} {maxRounds : Int} (hpositive : 1 ≤ maxRounds) {corpus : CorpusConfig}
    {iteration : Int} : W.Logged past query maxRounds [.retrieval query corpus iteration] := by
  constructor
  · exact ⟨[], rfl⟩
  · simp [ChatCall.executed, ChatCall.retrieval?]
  · simpa [ChatCall.executed, ChatCall.retrieval?] using hpositive
  · exact Orderly.snoc orderly_nil fun _ => not_twoGainless_nil

/-- The first retrieval has found something. -/
theorem initial_assessing {query : String} {corpus : CorpusConfig} {evidence : List Evidence} (tenantId : String)
    (scope : TemporalScope) {maxRounds : Int} (hpositive : 1 ≤ maxRounds)
    (hretrieved : W.retrieve past query corpus 0 = .ok evidence) (hfound : evidence ≠ []) :
    W.Assessing past query maxRounds 0 [] (.retrieval query corpus 0)
      ⟨(IterationState.initial query ⟨query, corpus.corpusId, tenantId, evidence⟩ scope).seenIds, false⟩
      (.initial query ⟨query, corpus.corpusId, tenantId, evidence⟩ scope) := by
  have hretrieved' : W.retrieve (past ++ []) query corpus 0 = .ok evidence := by simpa using hretrieved
  have hlogged : W.Logged past query maxRounds ([] ++ [.retrieval query corpus 0]) := logged_first hpositive
  refine ⟨rfl, ⟨hlogged, rfl, rfl, by simp [IterationState.initial]; omega, ?_⟩, rfl, not_twoGainless_nil, rfl, ?_, ?_⟩
  · rw [gathered_retrieval hretrieved']
    intro ev hev
    have hmem : ev ∈ evidence := by simpa [gathered] using hev
    simp only [IterationState.Knows, IterationState.initial, List.mem_eraseDups, List.mem_map]
    exact ⟨⟨ev, hmem, rfl⟩, ⟨ev, hmem, rfl⟩⟩
  · intro before round hsplit
    simp [RoundCalls.calls] at hsplit
  · intro round hretrieval hgainless
    -- the first evidence is new
    simp only [RoundCalls.retrieval, ChatCall.retrieval.injEq] at hretrieval
    obtain ⟨rfl, rfl, hiteration⟩ := hretrieval
    obtain ⟨ev, hev⟩ := List.exists_mem_of_ne_nil _ hfound
    obtain ⟨old, hold, -⟩ := hgainless.ids evidence (hiteration ▸ hretrieved') ev hev
    simp [gathered] at hold

/-- For every judge that raises only faults of a judge, and whatever else the surroundings do, a call with
a judge and rounds for a corpus that is resolved stays within its bounds: no more retrievals than rounds,
no gap searched twice, and an envelope that counts what was executed. -/
theorem iteration_bounded (W : ChatWorld) (texts : ChatTexts) (ctx : SecurityContext) (request : IterationRequest)
    (s : ChatStores) (hjudge : W.JudgeRaisesFaults) (hjudged : request.judged = true)
    (hrounds : 1 ≤ request.maxRounds) {corpus : CorpusConfig}
    (hcorpus : W.resolveCorpus request.corpusId = .ok corpus) :
    ∃ since gaps, (W.answer texts ctx request s).2.calls = s.calls ++ since ∧
      W.WithinBounds request s.calls since gaps (W.answer texts ctx request s).1.1 := by
  suffices h : (answerWithIteration texts ctx request).Meets W.eval
      (W.Bounded s.calls request.query request.maxRounds) .empty s by
    obtain ⟨since, hcalls, hended⟩ := h
    obtain ⟨gaps, hbounds⟩ := hended.withinBounds
    exact ⟨since, gaps, hcalls, hbounds⟩
  unfold answerWithIteration
  rw [if_neg (by simp [hjudged]), if_neg (by omega), Method.meets_bind, Method.meets_perform]
  simp only [eval, hcorpus]
  unfold runFastPath
  rw [Method.meets_bind, Method.meets_bind, Method.meets_tryCatch, Method.meets_perform]
  have hlogged : W.Logged s.calls request.query request.maxRounds [.retrieval request.query corpus 0] :=
    logged_first hrounds
  cases hretrieved : W.retrieve s.calls request.query corpus 0 with
  | error e =>
    simp only [eval, hretrieved]
    exact ⟨_, rfl, hlogged.raised trivial⟩
  | ok evidence =>
    simp only [eval, hretrieved]
    rw [Method.meets_pure]
    dsimp only
    split
    · rename_i hnothing
      have hempty : evidence = [] := by
        by_contra hsome
        simp [FastPathResult.sufficiency, hsome] at hnothing
      subst hempty
      have hrefusal : conservativeRefusal ⟨request.query, corpus.corpusId, ctx.tenantId, []⟩ ctx none ⟨1, 1, 1⟩ =
          .ok (refusal ctx [corpus.corpusId] none ⟨1, 1, 1⟩) := by
        simp [conservativeRefusal, checkTenantBinding, checkEvidenceBinding, FastPathResult.sufficiency, bind,
          Except.bind]
      rw [hrefusal]
      exact ⟨_, rfl, hlogged.answered (refusal_reports _ _ _) rfl hrounds⟩
    · rename_i hsome
      have hfound : evidence ≠ [] := by
        rintro rfl
        exact hsome rfl
      rw [Method.meets_assign_bind]
      refine saved_bounded hlogged rfl fun s' hcalls => ?_
      obtain ⟨rounds, hcount⟩ : ∃ rounds, request.maxRounds.toNat = rounds + 1 :=
        ⟨request.maxRounds.toNat - 1, by omega⟩
      rw [hcount]
      have hassessing := initial_assessing ctx.tenantId (texts.parseTemporalScope request.query) hrounds hretrieved
        hfound
      refine loopRounds_of_round texts rounds hsome (runRound_first hjudge texts hassessing rfl hrounds hcalls) ?_
      intro since t s hcalls hbetween hmore
      have hlast : (0 + 1 : Int) + rounds = request.maxRounds := by omega
      exact loopRounds_bounded hjudge texts hsome rfl rounds (by omega) hlast hmore hbetween hcalls

end Main

namespace WithinBounds.Sample

open Honest.Sample

/-- A verdict that asks for one thing more. -/
def coverage : SufficiencyResult :=
  { SufficiencyResult.verdict .insufficient false with
    factCoverage := [⟨"city", .missing, true, [], "", none, ["Which city?"], []⟩]
    canContinueRetrieval := true }

/-- Every query brings the same snapshot, and the judge is never content. -/
def world : ChatWorld where
  resolveCorpus corpusId := .ok ⟨corpusId, "acme", none, true, true⟩
  registryGet corpusId := .ok ⟨corpusId, "acme", none, true, true⟩
  activeDocument _ := none
  now _ := ⟨1717200000000000, none⟩
  retrieve _ _ _ _ := .ok [office]
  judge _ _ _ _ := .ok coverage
  model _ _ := .ok ⟨"", []⟩

def texts : ChatTexts where
  parseTemporalScope _ := .unspecified
  resolveConflicts evidence scope _ := ⟨scope, .none, [], evidence.map (·.evidenceId)⟩
  normalizeTopicKey query := query
  extractFacts _ := []
  checkClaim _ _ := .entailed

def request : IterationRequest := ⟨"Where is the office?", "hr", 3, true, [], none, false⟩

theorem judge_raises : world.JudgeRaisesFaults := by
  intro past query requiredFacts evidence e h
  cases h

end WithinBounds.Sample

open WithinBounds.Sample in
theorem iteration_bounded_unsatisfied :
    ∃ since gaps, (world.answer texts Honest.Sample.ctx request ⟨[], [], []⟩).2.calls = [] ++ since ∧
      world.WithinBounds request [] since gaps (world.answer texts Honest.Sample.ctx request ⟨[], [], []⟩).1.1 :=
  iteration_bounded world texts Honest.Sample.ctx request ⟨[], [], []⟩ judge_raises rfl (by decide) rfl

end ChatWorld

end AgenticRag
