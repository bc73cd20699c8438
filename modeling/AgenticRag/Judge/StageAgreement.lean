import AgenticRag.Judge.CoverageJudge

/-!
# The two stages on one text

A text judged as a fact and verified as a claim that cites the same evidence. Both stages
look for the item that shares most tokens with the text and for a negation near one of
them. The judge asks for half of the tokens, rounded up; the verifier rounds down.
-/

namespace AgenticRag

def FactStatus.claimSupport : FactStatus → ClaimSupport
  | .supported => .entailed
  | .contradicted => .contradicted
  | .partiallySupported => .partiallyEntailed
  | _ => .unsupported

namespace Overlap

def tokens (text : String) : List String := (tokenize text).eraseDups

/-- Those of them that occur in an item. -/
def matched (tokens : List String) (ev : Evidence) : List String :=
  tokens.filter fun token => decide (token ∈ tokenize ev.text)

/-- The most tokens that occur in one item. -/
def best (tokens : List String) (evidence : List Evidence) : Nat :=
  (evidence.map fun ev => (matched tokens ev).length).foldr max 0

/-- Some item has a negation near a common token. -/
def refuted (tokens : List String) (evidence : List Evidence) : Bool :=
  evidence.any fun ev => decide (matched tokens ev ≠ []) &&
    DeterministicClaimEvidenceVerifier.hasNegationNear ev.text (matched tokens ev)

/-- The items that the ids of the evidence stand for: of several with one id the last one. -/
def cited (evidence : List Evidence) : List Evidence :=
  (evidence.map (·.evidenceId)).filterMap fun evidenceId =>
    evidence.reverse.find? fun ev => decide (ev.evidenceId = evidenceId)

variable {toks : List String} {evidence evidence' : List Evidence}

theorem length_le_best {ev : Evidence} (hev : ev ∈ evidence) :
    (matched toks ev).length ≤ best toks evidence := by
  induction evidence with
  | nil => simp at hev
  | cons head evidence ih =>
    simp only [best, List.map_cons, List.foldr_cons]
    rcases List.mem_cons.mp hev with rfl | hev
    · exact Nat.le_max_left _ _
    · exact le_trans (ih hev) (Nat.le_max_right _ _)

theorem best_le {bound : Nat} (h : ∀ ev ∈ evidence, (matched toks ev).length ≤ bound) :
    best toks evidence ≤ bound := by
  induction evidence with
  | nil => exact Nat.zero_le _
  | cons head evidence ih =>
    simp only [best, List.map_cons, List.foldr_cons]
    apply Nat.max_le.mpr
    exact ⟨h head List.mem_cons_self, ih fun ev hev => h ev (List.mem_cons_of_mem _ hev)⟩

theorem best_mono (h : evidence ⊆ evidence') : best toks evidence ≤ best toks evidence' :=
  best_le fun _ hev => length_le_best (h hev)

theorem refuted_mono (h : evidence ⊆ evidence') (hrefuted : refuted toks evidence = true) :
    refuted toks evidence' = true := by
  obtain ⟨ev, hev, hnear⟩ := List.any_eq_true.mp hrefuted
  exact List.any_eq_true.mpr ⟨ev, h hev, hnear⟩

theorem cited_subset (evidence : List Evidence) : cited evidence ⊆ evidence := by
  intro ev hev
  obtain ⟨evidenceId, -, hfind⟩ := List.mem_filterMap.mp hev
  exact List.mem_reverse.mp (List.mem_of_find?_eq_some hfind)

/-- With distinct ids every id stands for its item. -/
theorem cited_of_nodup (h : (evidence.map (·.evidenceId)).Nodup) : cited evidence = evidence := by
  unfold cited
  rw [List.filterMap_map]
  have hsome : ∀ ev ∈ evidence, ((fun evidenceId =>
      evidence.reverse.find? fun ev => decide (ev.evidenceId = evidenceId)) ∘ (·.evidenceId)) ev =
        some ev := by
    intro ev hev
    cases hfind : evidence.reverse.find? fun other => decide (other.evidenceId = ev.evidenceId) with
    | none =>
      have hnot := List.find?_eq_none.mp hfind ev (List.mem_reverse.mpr hev)
      simp at hnot
    | some other =>
      have hmem := List.mem_reverse.mp (List.mem_of_find?_eq_some hfind)
      have hid : other.evidenceId = ev.evidenceId := by simpa using List.find?_some hfind
      rw [Function.comp_apply, hfind, List.inj_on_of_nodup_map h hmem hev hid]
  rw [List.filterMap_congr hsome, List.filterMap_some]

end Overlap

open Overlap

namespace DeterministicCoverageJudge

theorem Scan.look_eq (toks : List String) (scan : Scan) (ev : Evidence) :
    (Scan.look toks scan ev).bestMatched = max scan.bestMatched (matched toks ev).length ∧
      (Scan.look toks scan ev).contradiction = (scan.contradiction ||
        (decide (matched toks ev ≠ []) && hasNegationNear ev.text (matched toks ev))) := by
  have hlook : Scan.look toks scan ev = if matched toks ev = [] then scan else
      { bestMatched :=
          if scan.bestMatched < (matched toks ev).length then (matched toks ev).length else scan.bestMatched
        bestEvidenceIds :=
          if scan.bestMatched < (matched toks ev).length then [ev.evidenceId] else scan.bestEvidenceIds
        contradiction := hasNegationNear ev.text (matched toks ev) || scan.contradiction } := rfl
  rw [hlook]
  by_cases hnone : matched toks ev = []
  · simp [hnone]
  · simp only [hnone, if_false, ne_eq, not_false_eq_true, decide_true, Bool.true_and]
    refine ⟨?_, Bool.or_comm _ _⟩
    split <;> omega

/-- What the loop over the evidence adds to what it has seen. -/
theorem Scan.foldl_look (toks : List String) (evidence : List Evidence) (scan : Scan) :
    (evidence.foldl (Scan.look toks) scan).bestMatched = max scan.bestMatched (best toks evidence) ∧
      (evidence.foldl (Scan.look toks) scan).contradiction =
        (scan.contradiction || refuted toks evidence) := by
  induction evidence generalizing scan with
  | nil => simp [best, refuted]
  | cons ev evidence ih =>
    obtain ⟨hmatched, hnear⟩ := Scan.look_eq toks scan ev
    obtain ⟨hbest, hrefuted⟩ := ih (Scan.look toks scan ev)
    rw [List.foldl_cons, hbest, hrefuted, hmatched, hnear]
    constructor
    · simp only [best, List.map_cons, List.foldr_cons, max_assoc]
    · simp only [refuted, List.any_cons, Bool.or_assoc, hasNegationNear]

theorem judgeFact_status (fact : Judge.RequiredFact) (evidence : List Evidence) :
    (judgeFact fact evidence).status =
      if tokens fact.description = [] then .ambiguous
      else if refuted (tokens fact.description) evidence then .contradicted
      else if best (tokens fact.description) evidence = 0 then
        if evidence = [] then .notRetrievable else .missing
      else if (tokens fact.description).length ≤ best (tokens fact.description) evidence * 2 then .supported
      else .partiallySupported := by
  by_cases hnone : tokens fact.description = []
  · have hnone' : (tokenize fact.description).eraseDups = [] := hnone
    simp [judgeFact, hnone, hnone']
  · have hnone' : (tokenize fact.description).eraseDups ≠ [] := hnone
    simp only [judgeFact, hnone, hnone', if_false]
    obtain ⟨hbest, hrefuted⟩ := Scan.foldl_look (tokens fact.description) evidence ⟨0, [], false⟩
    simp only [Nat.zero_max, Bool.false_or] at hbest hrefuted
    rw [← hbest, ← hrefuted]
    rfl

end DeterministicCoverageJudge

namespace DeterministicClaimEvidenceVerifier

/-- Items without a common token do not count for the best one. -/
theorem best_filter (toks : List String) (evidence : List Evidence) :
    best toks (evidence.filter fun ev => decide (matched toks ev ≠ [])) = best toks evidence := by
  induction evidence with
  | nil => rfl
  | cons ev evidence ih =>
    by_cases hnone : matched toks ev = []
    · rw [List.filter_cons_of_neg (by simp [hnone]), ih]
      simp [best, hnone]
    · rw [List.filter_cons_of_pos (by simp [hnone])]
      simp only [best, List.map_cons, List.foldr_cons] at ih ⊢
      rw [ih]

theorem check_eq (claim : Claim) (evidence : List Evidence)
    (hcites : claim.evidenceIds = evidence.map (·.evidenceId)) :
    check claim evidence =
      if tokens claim.text = [] then .unsupported
      else if refuted (tokens claim.text) (cited evidence) then .contradicted
      else if max 1 ((tokens claim.text).length / 2) ≤ best (tokens claim.text) (cited evidence) then
        .entailed
      else if 0 < best (tokens claim.text) (cited evidence) then .partiallyEntailed
      else .unsupported := by
  have hcited : (claim.evidenceIds.filterMap (matchedTokens (tokens claim.text) evidence)).filter
      (fun entry => decide (entry.2 ≠ [])) =
        ((cited evidence).filter fun ev => decide (matched (tokens claim.text) ev ≠ [])).map
          fun ev => (ev, matched (tokens claim.text) ev) := by
    have hlookup : claim.evidenceIds.filterMap (matchedTokens (tokens claim.text) evidence) =
        (cited evidence).map fun ev => (ev, matched (tokens claim.text) ev) := by
      rw [hcites, cited, List.map_filterMap]
      rfl
    rw [hlookup, List.filter_map]
    rfl
  have hrefuted : (((cited evidence).filter fun ev => decide (matched (tokens claim.text) ev ≠ [])).map
      fun ev => (ev, matched (tokens claim.text) ev)).any
        (fun entry => hasNegationNear entry.1.text entry.2) =
          refuted (tokens claim.text) (cited evidence) := by
    rw [List.any_map, List.any_filter]
    rfl
  have hbest : ((((cited evidence).filter fun ev => decide (matched (tokens claim.text) ev ≠ [])).map
      fun ev => (ev, matched (tokens claim.text) ev)).map fun entry => entry.2.length).foldr max 0 =
        best (tokens claim.text) (cited evidence) := by
    rw [List.map_map]
    exact best_filter _ _
  unfold check
  simp only [← tokens.eq_1, hcited, hrefuted, hbest]

end DeterministicClaimEvidenceVerifier

section Stages

variable {fact : Judge.RequiredFact} {claim : Claim} {evidence : List Evidence}

/-- The best overlap is on the same side of both lines: there is none, the half is reached
in both stages, or neither stage comes near it. The verifier looks at the cited items. -/
def SameSide (toks : List String) (evidence : List Evidence) : Prop :=
  best toks evidence = 0 ∨
    (toks.length ≤ best toks evidence * 2 ∧ max 1 (toks.length / 2) ≤ best toks (cited evidence)) ∨
    (best toks evidence * 2 < toks.length ∧ 0 < best toks (cited evidence) ∧
      best toks (cited evidence) < toks.length / 2)

theorem verdicts_correspond_unrefuted (hsome : tokens claim.text ≠ [])
    (hfact : refuted (tokens claim.text) evidence = false) (hsame : fact.description = claim.text)
    (hcites : claim.evidenceIds = evidence.map (·.evidenceId)) :
    DeterministicClaimEvidenceVerifier.check claim evidence =
        (DeterministicCoverageJudge.judgeFact fact evidence).status.claimSupport ↔
      SameSide (tokens claim.text) evidence := by
  have hclaim : refuted (tokens claim.text) (cited evidence) = false := by
    by_contra hrefuted
    rw [Bool.not_eq_false] at hrefuted
    simp [refuted_mono (cited_subset evidence) hrefuted] at hfact
  have hle : best (tokens claim.text) (cited evidence) ≤ best (tokens claim.text) evidence :=
    best_mono (cited_subset evidence)
  have hsize : 0 < (tokens claim.text).length := List.length_pos_iff.mpr hsome
  rw [DeterministicClaimEvidenceVerifier.check_eq claim evidence hcites,
    DeterministicCoverageJudge.judgeFact_status, hsame]
  simp only [hsome, hfact, hclaim, if_false, Bool.false_eq_true]
  unfold SameSide
  generalize best (tokens claim.text) evidence = judged at hle ⊢
  generalize best (tokens claim.text) (cited evidence) = verified at hle ⊢
  generalize (tokens claim.text).length = size at hsize ⊢
  split_ifs <;> simp only [FactStatus.claimSupport, reduceCtorEq, true_iff, false_iff] <;> omega

theorem check_corresponds_iff (hsame : fact.description = claim.text)
    (hcites : claim.evidenceIds = evidence.map (·.evidenceId)) :
    DeterministicClaimEvidenceVerifier.check claim evidence =
        (DeterministicCoverageJudge.judgeFact fact evidence).status.claimSupport ↔
      tokens claim.text = [] ∨ refuted (tokens claim.text) (cited evidence) = true ∨
        (refuted (tokens claim.text) evidence = false ∧ SameSide (tokens claim.text) evidence) := by
  by_cases hnone : tokens claim.text = []
  · rw [DeterministicClaimEvidenceVerifier.check_eq claim evidence hcites,
      DeterministicCoverageJudge.judgeFact_status, hsame]
    simp [hnone, FactStatus.claimSupport]
  · cases hfact : refuted (tokens claim.text) evidence with
    | false =>
      have hclaim : refuted (tokens claim.text) (cited evidence) ≠ true := by
        intro hrefuted
        simp [refuted_mono (cited_subset evidence) hrefuted] at hfact
      rw [verdicts_correspond_unrefuted hnone hfact hsame hcites]
      simp [hnone, hclaim]
    | true =>
      rw [DeterministicClaimEvidenceVerifier.check_eq claim evidence hcites,
        DeterministicCoverageJudge.judgeFact_status, hsame]
      simp only [hnone, hfact, if_false, if_true, FactStatus.claimSupport, false_or, Bool.true_eq_false,
        false_and, or_false]
      cases hclaim : refuted (tokens claim.text) (cited evidence) with
      | true => simp
      | false =>
        simp only [Bool.false_eq_true, if_false]
        split_ifs <;> simp

/-- With distinct evidence ids the stages disagree in one case only: an odd number of
tokens of which one less than half is found. -/
theorem sameSide_of_nodup {toks : List String} (hids : (evidence.map (·.evidenceId)).Nodup) :
    SameSide toks evidence ↔ best toks evidence = 0 ∨ best toks evidence * 2 + 1 ≠ toks.length := by
  unfold SameSide
  rw [cited_of_nodup hids]
  omega

/-- `verify` of a single claim: it is kept with the result of the comparison, or removed. -/
theorem verify_single (hopen : claim.supportStatus ≠ .unsupported)
    (hcites : claim.evidenceIds = evidence.map (·.evidenceId)) :
    (DeterministicClaimEvidenceVerifier.verify [claim] evidence).keptClaims ++
        (DeterministicClaimEvidenceVerifier.verify [claim] evidence).removedClaims =
      [claim.marked (DeterministicClaimEvidenceVerifier.check claim evidence)] := by
  have hstatus : (if claim.isUnbound (evidence.map (·.evidenceId)) then .unsupported
      else DeterministicClaimEvidenceVerifier.check claim evidence) =
        DeterministicClaimEvidenceVerifier.check claim evidence := by
    by_cases hnone : evidence = []
    · subst hnone
      have hcheck : DeterministicClaimEvidenceVerifier.check claim [] = .unsupported := by
        rw [DeterministicClaimEvidenceVerifier.check_eq claim [] hcites]
        simp [cited, refuted, best]
      rw [hcheck, ite_self]
    · have hbound : claim.isUnbound (evidence.map (·.evidenceId)) = false := by
        unfold Claim.isUnbound
        rw [hcites]
        simp only [hopen, false_or, List.map_eq_nil_iff, hnone, decide_eq_false_iff_not]
        rintro ⟨id, hid, hunknown⟩
        exact hunknown hid
      rw [hbound]
      rfl
  unfold DeterministicClaimEvidenceVerifier.verify verifyAgainstEvidence partitionClaims
  simp only [List.filter_cons, List.filter_nil, hstatus]
  by_cases hunsupported : DeterministicClaimEvidenceVerifier.check claim evidence = .unsupported
  · simp [hunsupported]
  · simp [hunsupported, hstatus]

/-- When the two stages agree on a text, whatever its evidence: with distinct ids unless an odd number of
tokens is missed by one (`sameSide_of_nodup`). The claim cites all of the evidence; its importance and the
status it came with do not matter. -/
theorem stages_agree_iff (text : String) (evidence : List Evidence) (factId : String) (required : Bool)
    (claimId : String) (importance : ClaimImportance) (status : ClaimSupport) :
    DeterministicClaimEvidenceVerifier.check
        ⟨claimId, text, importance, evidence.map (·.evidenceId), status⟩ evidence =
        (DeterministicCoverageJudge.judgeFact ⟨factId, text, required⟩ evidence).status.claimSupport ↔
      tokens text = [] ∨ refuted (tokens text) (cited evidence) = true ∨
        (refuted (tokens text) evidence = false ∧ SameSide (tokens text) evidence) :=
  check_corresponds_iff rfl rfl

private def oneOfThree : Evidence where
  evidenceId := "e1"
  tenantId := "acme"
  corpusId := "policies"
  documentId := "leave"
  documentVersion := "v1"
  sourceUri := ""
  sourceFilename := "leave.md"
  pageNumber := none
  sectionPath := []
  text := "Employees are listed here."
  textHash := ""
  authorityLevel := 50
  effectiveFrom := none
  effectiveTo := none
  deprecated := false
  retrievedAt := ⟨0, some 0⟩
  aclPolicyId := ""
  policyVersion := "1"

/-- One token of three is partial support for the judge and entails the claim for the
verifier. -/
theorem stages_agree_counterexample :
    ¬∀ (text : String) (evidence : List Evidence) (factId : String) (required : Bool)
      (claimId : String) (importance : ClaimImportance) (status : ClaimSupport),
      DeterministicClaimEvidenceVerifier.check
          ⟨claimId, text, importance, evidence.map (·.evidenceId), status⟩ evidence =
        (DeterministicCoverageJudge.judgeFact ⟨factId, text, required⟩ evidence).status.claimSupport := by
  intro hclaim
  exact absurd (hclaim "employees receive bonuses" [oneOfThree] "f1" true "c1" .supporting .entailed)
    (by decide +kernel)

end Stages

end AgenticRag
