import AgenticRag.Answer.Builder
import AgenticRag.Judge.ClaimEvidenceVerifier

/-!
# What a built envelope promises

The builder never trips over the validation of the envelope: what it keeps of the claims is
bound to the evidence, and completeness, abstention and stop reason go together. A complete
answer may however render a claim that the verification found to be contradicted.
-/

namespace AgenticRag

section Lock

variable {env : AnswerEnvelope}

def AnswerEnvelope.Cited (env : AnswerEnvelope) : Prop :=
  ∀ claim ∈ env.claims, ∀ id ∈ claim.evidenceIds, id ∈ env.evidence.map (·.evidenceId)

/-- The validation of an answer that cites its own evidence looks at the stop reason only. -/
theorem AnswerEnvelope.lockState_answering (hcited : env.Cited)
    (hcitations : env.citations = renderCitations env.evidence) (habstained : env.abstained = false)
    (hcomplete : env.completeness ≠ .insufficient)
    (hconflicted : isContradicted env.conflictReport → env.completeness = .conflicted) :
    env.lockState = if env.stopReason = "no_evidence" then
        .error (.valueError "stop_reason 'no_evidence' requires abstained=True")
      else .ok env := by
  have hclaims : env.claims.find? (fun claim =>
      decide (∃ id ∈ claim.evidenceIds, id ∉ env.evidence.map (·.evidenceId))) = none := by
    simp only [List.find?_eq_none, decide_eq_true_eq, not_exists, not_and, not_not]
    exact hcited
  have hcites : env.citations.find? (fun citation =>
      decide (citation.evidenceId ∉ env.evidence.map (·.evidenceId))) = none := by
    simp only [List.find?_eq_none, decide_eq_true_eq, not_not]
    intro citation hcitation
    rw [hcitations, renderCitations] at hcitation
    obtain ⟨⟨ev, position⟩, hmem, rfl⟩ := List.mem_map.mp hcitation
    exact List.mem_map.mpr ⟨ev, List.fst_mem_of_mem_zipIdx hmem, rfl⟩
  unfold AnswerEnvelope.lockState AnswerEnvelope.checkState
  simp only [hclaims, hcites]
  by_cases hreason : env.stopReason = "no_evidence"
  · simp [habstained, hcomplete, hreason, Except.map, bind, Except.bind, throw, throwThe,
      MonadExceptOf.throw]
  · simp only [habstained, hcomplete, hreason, Bool.false_eq_true, if_false, and_true, true_and, pure,
      Except.pure, bind, Except.bind]
    rw [if_neg (fun h => h.2 (hconflicted h.1))]
    rfl

end Lock

section Verification

variable {check : Claim → List Evidence → ClaimSupport} {claims : List Claim} {evidence : List Evidence}
  {claim : Claim}

theorem partitionClaims_kept {support : Claim → ClaimSupport}
    (h : claim ∈ (partitionClaims support claims).keptClaims) :
    ∃ old ∈ claims, support old ≠ .unsupported ∧ claim = old.marked (support old) := by
  simp only [partitionClaims, List.mem_map, List.mem_filter, decide_eq_true_eq] at h
  obtain ⟨old, ⟨hold, hkept⟩, rfl⟩ := h
  exact ⟨old, hold, hkept, rfl⟩

/-- A claim that is kept cites known evidence. -/
theorem verifyAgainstEvidence_cited (h : claim ∈ (verifyAgainstEvidence check claims evidence).keptClaims) :
    ∀ id ∈ claim.evidenceIds, id ∈ evidence.map (·.evidenceId) := by
  obtain ⟨old, -, hkept, rfl⟩ := partitionClaims_kept h
  intro id hid
  by_contra hunknown
  have hunbound : old.isUnbound (evidence.map (·.evidenceId)) = true := by
    simp only [Claim.isUnbound, decide_eq_true_eq]
    exact .inr (.inr ⟨id, hid, hunknown⟩)
  simp only [hunbound, if_true, ne_eq, not_true_eq_false] at hkept

/-- The flag of a verification is raised by a removed critical claim. -/
theorem partitionClaims_critical {support : Claim → ClaimSupport} :
    (partitionClaims support claims).anyCriticalUnsupported = true ↔
      ∃ claim ∈ (partitionClaims support claims).removedClaims, claim.importance = .critical := by
  simp only [partitionClaims, List.any_eq_true, decide_eq_true_eq]

end Verification

section Build

variable {ctx : SecurityContext} {parts : AnswerParts}

/-- The verification that an envelope is built with. -/
def AnswerParts.verification (parts : AnswerParts) (claims : List Claim) (evidence : List Evidence) :
    ClaimVerificationResult :=
  parts.claimVerification.getD (verifyClaims claims (evidence.map (·.evidenceId)))

/-- Abstention, an insufficient answer and the stop reason of a refusal go together. -/
structure AnswerEnvelope.Locked (env : AnswerEnvelope) : Prop where
  insufficient : env.abstained = true ↔ env.completeness = .insufficient
  noEvidence : env.abstained = true ↔ env.stopReason = "no_evidence"

theorem refusal_locked (corporaUsed : List String) (coverage : Option SufficiencyResult)
    (accounting : Accounting) : (refusal ctx corporaUsed coverage accounting).Locked where
  insufficient := by simp [refusal]
  noEvidence := by simp [refusal]

theorem refusal_cited (corporaUsed : List String) (coverage : Option SufficiencyResult)
    (accounting : Accounting) : (refusal ctx corporaUsed coverage accounting).Cited := by
  intro claim hclaim
  simp [refusal] at hclaim

/-- A contradicted report makes the answer conflicted. -/
theorem AnswerParts.verdict_conflicted (verification : ClaimVerificationResult)
    (h : isContradicted parts.conflictReport) : (parts.verdict verification).1 = .conflicted := by
  rw [AnswerParts.verdict, if_pos h]

/-- From claims that cite the evidence and a loop's stop reason an envelope is built, which is
complete exactly if the verdict is and the retrieval was not partial. -/
theorem buildEnvelopeFromEvidence_ok (ctx : SecurityContext) (evidence : List Evidence)
    (claims : List Claim) (parts : AnswerParts)
    (hcited : ∀ claim ∈ (parts.verification claims evidence).keptClaims, ∀ id ∈ claim.evidenceIds,
      id ∈ evidence.map (·.evidenceId))
    (hreason : parts.stopReason.getD parts.abstainStopReason ≠ "no_evidence") :
    ∃ env, buildEnvelopeFromEvidence ctx evidence claims parts = .ok env ∧ env.Cited ∧ env.Locked ∧
      (env.completeness = .complete ↔
        (parts.verdict (parts.verification claims evidence)).1 = .complete ∧ parts.partialRetrieval = false) := by
  unfold buildEnvelopeFromEvidence
  rw [show parts.claimVerification.getD (verifyClaims claims (evidence.map (·.evidenceId))) =
    parts.verification claims evidence from rfl]
  rcases hverdict : parts.verdict (parts.verification claims evidence) with ⟨completeness, confidence⟩
  dsimp only
  rw [hverdict]
  dsimp only
  by_cases hinsufficient : completeness = .insufficient
  · rw [if_pos hinsufficient, buildRefusal_eq]
    refine ⟨_, rfl, refusal_cited _ _ _, refusal_locked _ _ _, ?_⟩
    simp [refusal, hinsufficient]
  · simp only [if_neg hinsufficient]
    have hconflicted : isContradicted parts.conflictReport → completeness = .conflicted := by
      intro hreport
      have hverdict' := AnswerParts.verdict_conflicted (parts.verification claims evidence) hreport
      rwa [hverdict] at hverdict'
    rw [AnswerEnvelope.lockState_answering]
    · simp only [if_neg hreason]
      refine ⟨_, rfl, ?_, ⟨?_, ?_⟩, ?_⟩
      · intro claim hclaim
        dsimp only at hclaim
        split at hclaim
        · simp at hclaim
        · exact hcited claim hclaim
      · simp only [Bool.false_eq_true, false_iff]
        split <;> simp [hinsufficient]
      · simp only [Bool.false_eq_true, false_iff]
        exact hreason
      · by_cases hspare : parts.partialRetrieval = true
        · by_cases hcomplete : completeness = .complete <;> simp [hspare, hcomplete]
        · simp [hspare]
    · intro claim hclaim
      dsimp only at hclaim
      split at hclaim
      · simp at hclaim
      · exact hcited claim hclaim
    · rfl
    · rfl
    · dsimp only
      split <;> simp [hinsufficient]
    · intro hreport
      have hcompleteness := hconflicted hreport
      simp [hcompleteness]

end Build

section Answer

open DeterministicClaimEvidenceVerifier

variable {ctx : SecurityContext} {result : FastPathResult} {evidence : Option (List Evidence)}

/-- The evidence of the fast path and that of the answer belong to the request. -/
structure BoundTo (ctx : SecurityContext) (result : FastPathResult) (evidence : Option (List Evidence)) :
    Prop where
  tenant : ctx.tenantId = result.tenantId
  retrieved : ∀ ev ∈ result.evidence, ev.tenantId = ctx.tenantId ∧ ev.corpusId = result.corpusId
  answered : ∀ ev ∈ evidence.getD result.evidence, ev.tenantId = ctx.tenantId ∧ ev.corpusId = result.corpusId

theorem checkEvidenceBinding_ok {corpusId : String} {evs : List Evidence}
    (h : ∀ ev ∈ evs, ev.tenantId = ctx.tenantId ∧ ev.corpusId = corpusId) :
    checkEvidenceBinding ctx corpusId evs = .ok () := by
  induction evs with
  | nil => rfl
  | cons ev rest ih =>
    obtain ⟨htenant, hcorpus⟩ := h ev List.mem_cons_self
    simp only [checkEvidenceBinding, htenant, hcorpus, ne_eq, not_true_eq_false, if_false]
    exact ih fun other hother => h other (List.mem_cons_of_mem ev hother)

theorem BoundTo.checked (h : BoundTo ctx result evidence) : checkTenantBinding ctx result = .ok () := by
  rw [checkTenantBinding, if_neg (not_not.mpr h.tenant)]
  exact checkEvidenceBinding_ok h.retrieved

/-- What the envelope promises with a verification of its claims. -/
structure Honest (verification : ClaimVerificationResult) (env : AnswerEnvelope) : Prop where
  cited : env.Cited
  locked : env.Locked
  kept : env.completeness = .complete → verification.keptClaims ≠ []
  critical : env.completeness = .complete →
    ∀ claim ∈ verification.removedClaims, claim.importance ≠ .critical
  supported : env.completeness = .complete →
    ∀ claim ∈ verification.keptClaims, claim.supportStatus ≠ .contradicted

/-- Nothing but a contradicted claim that is kept speaks against a complete answer. -/
structure OverlooksContradiction (coverage : Option SufficiencyResult) (report : Option ConflictReport)
    (verification : ClaimVerificationResult) : Prop where
  noConflict : ¬isContradicted report
  contradicted : ∃ claim ∈ verification.keptClaims, claim.supportStatus = .contradicted
  covered : ∀ verdict ∈ coverage, verdict.overallStatus = .sufficient ∧
    ∀ claim ∈ verification.removedClaims, claim.importance ≠ .critical
  uncovered : coverage = none → verification.removedClaims = []

theorem mapCoverageToCompleteness_complete {status : OverallStatus} :
    (mapCoverageToCompleteness status).1 = .complete ↔ status = .sufficient := by
  cases status <;> simp [mapCoverageToCompleteness]

/-- When the verdict is complete. -/
theorem AnswerParts.verdict_complete {parts : AnswerParts} {claims : List Claim} {evs : List Evidence} :
    (parts.verdict (verify claims evs)).1 = .complete ↔
      ¬isContradicted parts.conflictReport ∧ (verify claims evs).keptClaims ≠ [] ∧
        (∀ verdict ∈ parts.coverage, verdict.overallStatus = .sufficient ∧
          ∀ claim ∈ (verify claims evs).removedClaims, claim.importance ≠ .critical) ∧
        (parts.coverage = none → (verify claims evs).removedClaims = []) := by
  have hcritical : (verify claims evs).anyCriticalUnsupported = true ↔
      ∃ claim ∈ (verify claims evs).removedClaims, claim.importance = .critical := partitionClaims_critical
  unfold AnswerParts.verdict
  by_cases hreport : isContradicted parts.conflictReport
  · simp [hreport]
  · simp only [hreport, if_false, not_false_eq_true, true_and]
    unfold AnswerParts.judged
    cases hcoverage : parts.coverage with
    | none =>
      simp only [Option.not_mem_none, false_imp_iff, implies_true, true_and, forall_const]
      split
      · rename_i hremoved
        simp only [reduceCtorEq, false_iff, not_and]
        intro hkept hnone
        rcases hremoved with hremoved | hnil
        · exact hremoved hnone
        · exact hkept hnil
      · rename_i hremoved
        simp only [not_or, ne_eq, not_not] at hremoved
        simp [hremoved.1, hremoved.2]
    | some coverage =>
      simp only [Option.mem_some_iff, forall_eq', reduceCtorEq, false_imp_iff, and_true,
        mapCoverageToCompleteness_complete]
      split
      · rename_i hlowered
        simp only [reduceCtorEq, false_iff, not_and]
        intro hkept hstatus hnone
        rcases hlowered.2 with hnil | hflag
        · exact hkept hnil
        · obtain ⟨claim, hclaim, himportance⟩ := hcritical.mp hflag
          exact hnone claim hclaim himportance
      · rename_i hlowered
        rw [mapCoverageToCompleteness_complete]
        constructor
        · intro hstatus
          have hrest : ¬((verify claims evs).keptClaims = [] ∨
              (verify claims evs).anyCriticalUnsupported = true) := fun h => hlowered ⟨hstatus, h⟩
          rw [not_or] at hrest
          refine ⟨hrest.1, hstatus, fun claim hclaim himportance => ?_⟩
          exact hrest.2 (hcritical.mpr ⟨claim, hclaim, himportance⟩)
        · exact fun h => h.2.1

/-- From evidence of the request and a loop's stop reason an envelope is built; it is honest unless a
contradicted claim is all that speaks against a complete answer. The result is sufficient and bound to
the caller, and the loop did not stop for want of evidence: the builder raises otherwise. -/
theorem buildAnswerEnvelope_honest_iff (ctx : SecurityContext) (result : FastPathResult)
    (claims : List Claim) (coverage : Option SufficiencyResult) (accounting : Accounting)
    (evidence : Option (List Evidence)) (stopReason : Option String) (report : Option ConflictReport)
    (hsufficient : result.sufficiency = .sufficient) (hbound : BoundTo ctx result evidence)
    (hreason : stopReason ≠ some "no_evidence") :
    (∃ env, buildAnswerEnvelope result ctx claims coverage
        (some (verify claims (evidence.getD result.evidence))) accounting evidence stopReason report = .ok env ∧
      Honest (verify claims (evidence.getD result.evidence)) env) ↔
    ¬OverlooksContradiction coverage report (verify claims (evidence.getD result.evidence)) := by
  have hevidence : result.evidence ≠ [] := by
    intro hnil
    simp [FastPathResult.sufficiency, hnil] at hsufficient
  have hstop : stopReason.getD result.stopReason ≠ "no_evidence" := by
    cases stopReason with
    | none => simp [FastPathResult.stopReason, hevidence]
    | some reason => simpa using hreason
  obtain ⟨env, hbuild, hcited, hlocked, hcomplete⟩ := buildEnvelopeFromEvidence_ok ctx
    (evidence.getD result.evidence) claims
    ⟨coverage, some (verify claims (evidence.getD result.evidence)), accounting, [], false, stopReason,
      result.stopReason, [result.corpusId], report⟩
    (fun claim hclaim => verifyAgainstEvidence_cited hclaim) hstop
  have hbuilt : buildAnswerEnvelope result ctx claims coverage
      (some (verify claims (evidence.getD result.evidence))) accounting evidence stopReason report = .ok env := by
    unfold buildAnswerEnvelope
    simp only [hbound.checked, hsufficient, reduceCtorEq, if_false, checkEvidenceBinding_ok hbound.answered]
    exact hbuild
  have hverdict := hcomplete.trans (and_congr_left fun _ => AnswerParts.verdict_complete)
  constructor
  · rintro ⟨env', hbuild', hhonest⟩ hoverlooks
    rw [hbuilt] at hbuild'
    cases hbuild'
    obtain ⟨claim, hclaim, hcontradicted⟩ := hoverlooks.contradicted
    have hkept : (verify claims (evidence.getD result.evidence)).keptClaims ≠ [] := List.ne_nil_of_mem hclaim
    have hcompleteness := hverdict.mpr
      ⟨⟨hoverlooks.noConflict, hkept, hoverlooks.covered, hoverlooks.uncovered⟩, rfl⟩
    exact hhonest.supported hcompleteness claim hclaim hcontradicted
  · intro hoverlooks
    refine ⟨env, hbuilt, hcited, hlocked, ?_, ?_, ?_⟩
    · exact fun h => (hverdict.mp h).1.2.1
    · intro h claim hclaim
      obtain ⟨⟨-, -, hcovered, huncovered⟩, -⟩ := hverdict.mp h
      cases coverage with
      | none =>
        rw [huncovered rfl] at hclaim
        cases hclaim
      | some verdict => exact (hcovered verdict rfl).2 claim hclaim
    · intro h claim hclaim hcontradicted
      obtain ⟨⟨hreport, -, hcovered, huncovered⟩, -⟩ := hverdict.mp h
      exact hoverlooks ⟨hreport, ⟨claim, hclaim, hcontradicted⟩, hcovered, huncovered⟩

end Answer

namespace Honest.Sample

/-- A snapshot that denies what the claim below says. -/
def office : Evidence where
  evidenceId := "e1"
  tenantId := "acme"
  corpusId := "hr"
  documentId := "handbook"
  documentVersion := "1"
  sourceUri := "file:///handbook.md"
  sourceFilename := "handbook.md"
  pageNumber := none
  sectionPath := ["Offices"]
  text := "The office is not in new york; it is in boston."
  textHash := "hash-office"
  authorityLevel := 50
  effectiveFrom := none
  effectiveTo := none
  deprecated := false
  retrievedAt := ⟨1717200000000000, none⟩
  aclPolicyId := "default"
  policyVersion := "v1"

def newYork : Claim := ⟨"c1", "office in new york", .critical, ["e1"], .entailed⟩

/-- A snapshot and a claim that it supports. -/
def move : Evidence := { office with evidenceId := "e2", text := "The main office has moved to boston." }

def boston : Claim := ⟨"c1", "main office boston", .critical, ["e2"], .entailed⟩

def ctx : SecurityContext where
  requestId := "r1"
  sessionId := "s1"
  tenantId := "acme"
  userId := "alice"
  roles := []
  groups := []
  allowedSecurityLevels := ["internal"]
  allowedCorpusIds := none
  policyVersion := "v1"
  isAdmin := false
  permissions := []

def result : FastPathResult := ⟨"Where is the office?", "hr", "acme", [office]⟩

theorem bound : BoundTo ctx result none where
  tenant := rfl
  retrieved := by simp [result, office, ctx]
  answered := by simp [result, office, ctx]

def moved : FastPathResult := ⟨"Where is the office?", "hr", "acme", [office, move]⟩

theorem bound_moved : BoundTo ctx moved none where
  tenant := rfl
  retrieved := by simp [moved, move, office, ctx]
  answered := by simp [moved, move, office, ctx]

end Honest.Sample

section Sample

open DeterministicClaimEvidenceVerifier Honest.Sample

/-- A claim that its evidence supports is rendered in an honest envelope. -/
theorem buildAnswerEnvelope_honest_sample :
    (verify [boston] [office, move]).keptClaims = [boston] ∧
      ∃ env, buildAnswerEnvelope moved ctx [boston] (some (.verdict .sufficient false))
          (some (verify [boston] [office, move])) ⟨1, 1, 1⟩ none (some "sufficient") none = .ok env ∧
        Honest (verify [boston] [office, move]) env := by
  have hkept : (verify [boston] [office, move]).keptClaims = [boston] := by decide +kernel
  refine ⟨hkept, ?_⟩
  refine (buildAnswerEnvelope_honest_iff ctx moved [boston] (some (.verdict .sufficient false)) ⟨1, 1, 1⟩ none
    (some "sufficient") none rfl bound_moved (by decide)).mpr fun hoverlooks => ?_
  obtain ⟨claim, hclaim, hcontradicted⟩ := hoverlooks.contradicted
  have hmem : claim ∈ (verify [boston] [office, move]).keptClaims := hclaim
  rw [hkept, List.mem_singleton] at hmem
  subst hmem
  cases hcontradicted

/-- A claim that its evidence denies is rendered in a complete answer. -/
theorem buildAnswerEnvelope_honest_counterexample :
    ¬∃ env, buildAnswerEnvelope result ctx [newYork] (some (.verdict .sufficient false))
        (some (verify [newYork] [office])) ⟨1, 1, 1⟩ none (some "sufficient") none = .ok env ∧
      Honest (verify [newYork] [office]) env := by
  have hkept : (verify [newYork] [office]).keptClaims = [newYork.marked .contradicted] := by decide +kernel
  have hbuilt : (buildAnswerEnvelope result ctx [newYork] (some (.verdict .sufficient false))
      (some (verify [newYork] [office])) ⟨1, 1, 1⟩ none (some "sufficient") none).toOption.map
        (·.completeness) = some .complete := by decide +kernel
  rintro ⟨env, hrun, hhonest⟩
  rw [hrun] at hbuilt
  have hcomplete : env.completeness = .complete := by simpa [Except.toOption] using hbuilt
  exact hhonest.supported hcomplete (newYork.marked .contradicted) (by simp [hkept]) rfl

end Sample

end AgenticRag
