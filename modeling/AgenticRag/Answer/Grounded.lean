import AgenticRag.Answer.Completeness

/-!
# Grounded answers

Whatever reaches the builders of envelopes, an envelope that they return belongs to the request:
its evidence is that of the tenant and of the corpora it names, its claims and citations point into
this evidence, and its text is rendered from them. The draft of the model is no part of it.
-/

namespace AgenticRag

namespace AnswerEnvelope

/-- The text as the claims and the evidence of the envelope have it. -/
def rendering (env : AnswerEnvelope) : String :=
  if env.abstained = true then abstainMessage
  else match env.conflictReport.filter fun report => decide (report.conflictStatus = .contradicted) with
    | some report => renderConflictAnswer report env.evidence
    | none => renderAnswerFromClaims env.claims

structure Grounded (ctx : SecurityContext) (env : AnswerEnvelope) : Prop where
  request : env.requestId = ctx.requestId ∧ env.sessionId = ctx.sessionId
  owned : ∀ ev ∈ env.evidence, ev.tenantId = ctx.tenantId ∧ ev.corpusId ∈ env.corporaUsed
  cited : env.Cited
  citations : env.citations = renderCitations env.evidence
  locked : env.Locked
  rendered : env.answerMarkdown = env.rendering
  abstains : env.abstained = true → env.claims = [] ∧ env.evidence = []
  conflicted : isContradicted env.conflictReport → env.completeness = .conflicted ∧ env.claims = []

variable {env env' : AnswerEnvelope}

/-- What the validation has found of an envelope that does not abstain. -/
theorem lockState_answered (habstained : env.abstained = false) (h : env.lockState = .ok env') :
    env.Cited ∧ env.completeness ≠ .insufficient ∧ env.stopReason ≠ "no_evidence" := by
  have hchecked : env.checkState = .ok () := by
    unfold lockState at h
    cases hresult : env.checkState with
    | ok checked => rfl
    | error e => simp [hresult, Except.map] at h
  unfold checkState at hchecked
  dsimp only at hchecked
  split at hchecked
  · cases hchecked
  rename_i hclaims
  simp only [bind, Except.bind, pure, Except.pure, habstained, Bool.false_eq_true, if_false, and_true, true_and]
    at hchecked
  split at hchecked
  · cases hchecked
  split at hchecked
  · cases hchecked
  rename_i hcomplete
  split at hchecked
  · cases hchecked
  rename_i hreason
  refine ⟨fun claim hclaim id hid => ?_, hcomplete, hreason⟩
  have hknown := List.find?_eq_none.mp hclaims claim hclaim
  by_contra hunknown
  exact hknown (decide_eq_true ⟨id, hid, hunknown⟩)

end AnswerEnvelope

section Refusals

variable {ctx : SecurityContext}

theorem refusal_grounded (corporaUsed : List String) (coverage : Option SufficiencyResult) (accounting : Accounting) :
    (refusal ctx corporaUsed coverage accounting).Grounded ctx where
  request := ⟨rfl, rfl⟩
  owned := by simp [refusal]
  cited := refusal_cited corporaUsed coverage accounting
  citations := rfl
  locked := refusal_locked corporaUsed coverage accounting
  rendered := rfl
  abstains := by simp [refusal]
  conflicted := by simp [refusal, isContradicted]

end Refusals

/-- The envelope is grounded, and its evidence is a part of the given. -/
structure AnswerEnvelope.GroundedIn (ctx : SecurityContext) (evidence : List Evidence) (env : AnswerEnvelope) :
    Prop where
  grounded : env.Grounded ctx
  evidence : env.evidence.Sublist evidence

section Builders

variable {ctx : SecurityContext} {evidence : List Evidence} {env : AnswerEnvelope}

theorem refusal_groundedIn (corporaUsed : List String) (coverage : Option SufficiencyResult) (accounting : Accounting) :
    (refusal ctx corporaUsed coverage accounting).GroundedIn ctx evidence where
  grounded := refusal_grounded corporaUsed coverage accounting
  evidence := List.nil_sublist evidence

theorem buildEnvelopeFromEvidence_grounded {claims : List Claim} {parts : AnswerParts}
    (howned : ∀ ev ∈ evidence, ev.tenantId = ctx.tenantId ∧ ev.corpusId ∈ parts.corporaUsed)
    (h : buildEnvelopeFromEvidence ctx evidence claims parts = .ok env) : env.GroundedIn ctx evidence := by
  unfold buildEnvelopeFromEvidence at h
  rw [show parts.claimVerification.getD (verifyClaims claims (evidence.map (·.evidenceId))) =
    parts.verification claims evidence from rfl] at h
  rcases hverdict : parts.verdict (parts.verification claims evidence) with ⟨completeness, confidence⟩
  dsimp only at h
  rw [hverdict] at h
  dsimp only at h
  split at h
  · rw [buildRefusal_eq] at h
    obtain rfl := Except.ok.inj h
    exact refusal_groundedIn _ _ _
  obtain ⟨hcited, hcomplete, hreason⟩ := AnswerEnvelope.lockState_answered rfl h
  have henv := AnswerEnvelope.lockState_ok h
  have hconflicted : isContradicted parts.conflictReport → completeness = .conflicted := by
    intro hreport
    have hverdict' := AnswerParts.verdict_conflicted (parts.verification claims evidence) hreport
    rwa [hverdict] at hverdict'
  refine ⟨?_, by simp [henv]⟩
  subst henv
  constructor
  · exact ⟨rfl, rfl⟩
  · exact howned
  · exact hcited
  · rfl
  · exact ⟨by simp [hcomplete], by simp [hreason]⟩
  · unfold AnswerEnvelope.rendering
    dsimp only
    cases parts.conflictReport.filter fun report => decide (report.conflictStatus = .contradicted) with
    | none => rfl
    | some report => rfl
  · simp
  · intro (hreport : isContradicted parts.conflictReport)
    have hshown : (parts.conflictReport.filter fun report =>
        decide (report.conflictStatus = .contradicted)).isSome = true := by
      obtain ⟨report, hsome, hstatus⟩ := Option.map_eq_some_iff.mp hreport
      simp only [hsome, Option.filter, hstatus, decide_true, if_true, Option.isSome_some]
    dsimp only
    rw [hconflicted hreport, if_pos hshown]
    simp

/-- What an envelope tells of the retrieval: the corpora and the calls always, the limitations and a
partial retrieval where it answers. -/
theorem buildEnvelopeFromEvidence_tells {claims : List Claim} {parts : AnswerParts}
    (h : buildEnvelopeFromEvidence ctx evidence claims parts = .ok env) :
    env.corporaUsed = parts.corporaUsed ∧ env.toolCalls = parts.accounting.toolCalls ∧
      (env.abstained = false → env.limitations = parts.limitations ∧
        (parts.partialRetrieval = true → env.completeness ≠ .complete)) := by
  unfold buildEnvelopeFromEvidence at h
  rcases hverdict : parts.verdict (parts.claimVerification.getD (verifyClaims claims (evidence.map (·.evidenceId))))
    with ⟨completeness, confidence⟩
  dsimp only at h
  rw [hverdict] at h
  dsimp only at h
  split at h
  · rw [buildRefusal_eq] at h
    obtain rfl := Except.ok.inj h
    exact ⟨rfl, rfl, by simp [refusal]⟩
  have henv := AnswerEnvelope.lockState_ok h
  subst henv
  refine ⟨rfl, rfl, fun _ => ⟨rfl, fun hspare => ?_⟩⟩
  dsimp only
  rw [hspare]
  by_cases hcomplete : completeness = .complete
  · simp [hcomplete]
  · simp [hcomplete]

theorem conservativeRefusal_grounded {result : FastPathResult} {coverage : Option SufficiencyResult}
    {accounting : Accounting} (h : conservativeRefusal result ctx coverage accounting = .ok env) :
    env.GroundedIn ctx evidence := by
  unfold conservativeRefusal at h
  simp only [bind, Except.bind] at h
  split at h
  · cases h
  split at h
  · cases h
  · rw [refusal_lockState] at h
    obtain rfl := Except.ok.inj h
    exact refusal_groundedIn _ _ _

theorem checkEvidenceBinding_bound {corpusId : String} {evs : List Evidence}
    (h : checkEvidenceBinding ctx corpusId evs = .ok ()) :
    ∀ ev ∈ evs, ev.tenantId = ctx.tenantId ∧ ev.corpusId = corpusId := by
  induction evs with
  | nil => simp
  | cons ev rest ih =>
    unfold checkEvidenceBinding at h
    split at h
    · cases h
    rename_i htenant
    split at h
    · cases h
    rename_i hcorpus
    intro other hother
    rcases List.mem_cons.mp hother with rfl | hrest
    · exact ⟨not_not.mp htenant, not_not.mp hcorpus⟩
    · exact ih h other hrest

/-- An answer over one corpus. -/
theorem buildAnswerEnvelope_grounded {result : FastPathResult} {claims : List Claim}
    {coverage : Option SufficiencyResult} {verification : Option ClaimVerificationResult} {accounting : Accounting}
    {stopReason : Option String} {report : Option ConflictReport}
    (h : buildAnswerEnvelope result ctx claims coverage verification accounting (some evidence) stopReason report =
      .ok env) : env.GroundedIn ctx evidence := by
  unfold buildAnswerEnvelope at h
  simp only [bind, Except.bind, Option.getD_some] at h
  split at h
  · cases h
  split at h
  · exact conservativeRefusal_grounded h
  split at h
  · cases h
  · rename_i hbound
    refine buildEnvelopeFromEvidence_grounded (fun ev hev => ?_) h
    obtain ⟨htenant, hcorpus⟩ := checkEvidenceBinding_bound hbound ev hev
    exact ⟨htenant, List.mem_singleton.mpr hcorpus⟩

theorem checkCorporaBinding_bound {corporaUsed : List String} {evs : List Evidence}
    (h : checkCorporaBinding ctx corporaUsed evs = .ok ()) :
    ∀ ev ∈ evs, ev.tenantId = ctx.tenantId ∧ ev.corpusId ∈ corporaUsed := by
  induction evs with
  | nil => simp
  | cons ev rest ih =>
    unfold checkCorporaBinding at h
    split at h
    · cases h
    rename_i htenant
    split at h
    · cases h
    rename_i hcorpus
    intro other hother
    rcases List.mem_cons.mp hother with rfl | hrest
    · exact ⟨not_not.mp htenant, not_not.mp hcorpus⟩
    · exact ih h other hrest

/-- An answer over several corpora. -/
theorem buildMultiCorpusEnvelope_grounded {corporaUsed : List String} {claims : List Claim}
    {coverage : Option SufficiencyResult} {accounting : Accounting} {limitations : List String}
    {partialRetrieval : Bool} {stopReason : Option String} {report : Option ConflictReport}
    (h : buildMultiCorpusEnvelope ctx evidence corporaUsed claims coverage accounting limitations partialRetrieval
      stopReason report = .ok env) : env.GroundedIn ctx evidence := by
  unfold buildMultiCorpusEnvelope at h
  simp only [bind, Except.bind] at h
  split at h
  · cases h
  rename_i hbound
  split at h
  · rw [buildRefusal_eq] at h
    obtain rfl := Except.ok.inj h
    exact refusal_groundedIn _ _ _
  · exact buildEnvelopeFromEvidence_grounded (checkCorporaBinding_bound hbound) h

end Builders

end AgenticRag
