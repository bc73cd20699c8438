import AgenticRag.Judge.CoverageJudge

/-!
# Optional facts

The overall status is meant to depend on the coverages of the required facts alone. It
does as long as there is a required fact: without one the status is derived from the
optional facts after all.
-/

namespace AgenticRag

def Covers (facts : List Judge.RequiredFact) (coverages : List FactCoverage) : Prop :=
  List.Forall₂ (fun fact coverage => coverage.factId = fact.factId ∧ coverage.required = fact.required)
    facts coverages

/-- The ids of the required facts, as `judge` collects them. -/
def requiredIds (facts : List Judge.RequiredFact) : List String :=
  (facts.filter (·.required)).map (·.factId)

/-- What the optional facts are found to be neither changes the overall status nor stops
the retrieval. -/
structure IgnoresOptional (facts : List Judge.RequiredFact) (requiredFactIds : Option (List String)) :
    Prop where
  status : ∀ coverages coverages', Covers facts coverages → Covers facts coverages' →
    coverages.filter (·.required) = coverages'.filter (·.required) →
      (buildSufficiencyResult coverages requiredFactIds).overallStatus =
        (buildSufficiencyResult coverages' requiredFactIds).overallStatus
  retrieval : ∀ coverages, Covers facts coverages →
    (buildSufficiencyResult (coverages.filter (·.required)) requiredFactIds).canContinueRetrieval = true →
      (buildSufficiencyResult coverages requiredFactIds).canContinueRetrieval = true

theorem deriveOverallStatus_sufficient {coverages : List FactCoverage} :
    deriveOverallStatus coverages = .sufficient ↔
      ∀ coverage ∈ coverages, coverage.status = .supported := by
  have hstatuses : (∀ status ∈ coverages.map (·.status), status = FactStatus.supported) ↔
      ∀ coverage ∈ coverages, coverage.status = .supported := List.forall_mem_map
  unfold deriveOverallStatus
  dsimp only
  by_cases hall : ∀ coverage ∈ coverages, coverage.status = .supported
  · have hnone : ∀ status, status ≠ FactStatus.supported → status ∉ coverages.map (·.status) :=
      fun status hother hmem => hother (hstatuses.mpr hall status hmem)
    apply iff_of_true ?_ hall
    rw [if_neg (hnone .policyBlocked (by decide)), if_neg (hnone .ambiguous (by decide)),
      if_neg (hnone .contradicted (by decide)), if_pos (hstatuses.mpr hall), ite_self]
  · have hne : coverages ≠ [] := by
      rintro rfl
      simp at hall
    apply iff_of_false ?_ hall
    rw [if_neg hne, if_neg (mt hstatuses.mp hall)]
    split_ifs <;> simp

section Weighed

variable {facts : List Judge.RequiredFact} {coverages : List FactCoverage}

theorem Covers.exists_coverage (h : Covers facts coverages) {fact : Judge.RequiredFact}
    (hfact : fact ∈ facts) : ∃ coverage ∈ coverages, coverage.factId = fact.factId ∧
      coverage.required = fact.required := by
  induction h with
  | nil => simp at hfact
  | cons hhead _ ih =>
    rcases List.mem_cons.mp hfact with rfl | hfact
    · exact ⟨_, List.mem_cons_self, hhead⟩
    · obtain ⟨coverage, hcoverage, hsame⟩ := ih hfact
      exact ⟨coverage, List.mem_cons_of_mem _ hcoverage, hsame⟩

theorem Covers.exists_fact (h : Covers facts coverages) {coverage : FactCoverage}
    (hcoverage : coverage ∈ coverages) : ∃ fact ∈ facts, coverage.factId = fact.factId ∧
      coverage.required = fact.required := by
  induction h with
  | nil => simp at hcoverage
  | cons hhead _ ih =>
    rcases List.mem_cons.mp hcoverage with rfl | hcoverage
    · exact ⟨_, List.mem_cons_self, hhead⟩
    · obtain ⟨fact, hfact, hsame⟩ := ih hcoverage
      exact ⟨fact, List.mem_cons_of_mem _ hfact, hsame⟩

/-- The optional facts are told apart from the required ones. -/
def Separates (facts : List Judge.RequiredFact) (requiredFactIds : Option (List String)) : Prop :=
  ∀ ids, requiredFactIds = some ids → ∀ fact ∈ facts, (fact.factId ∈ ids ↔ fact.required = true)

theorem Covers.isRequired (h : Covers facts coverages) {requiredFactIds : Option (List String)}
    (hids : Separates facts requiredFactIds) :
    ∀ coverage ∈ coverages, isRequired requiredFactIds coverage = coverage.required := by
  intro coverage hcoverage
  cases requiredFactIds with
  | none => rfl
  | some ids =>
    obtain ⟨fact, hfact, hid, hflag⟩ := h.exists_fact hcoverage
    have hsame := hids ids rfl fact hfact
    rw [← hid, ← hflag] at hsame
    simp only [AgenticRag.isRequired, hsame, Bool.decide_eq_true]

/-- With a required fact the status is derived from the required coverages. -/
theorem weighedCoverages_required (h : Covers facts coverages)
    (hrequired : ∃ fact ∈ facts, fact.required = true) {requiredFactIds : Option (List String)}
    (hids : Separates facts requiredFactIds) :
    weighedCoverages coverages requiredFactIds = coverages.filter (·.required) := by
  obtain ⟨fact, hfact, hflag⟩ := hrequired
  obtain ⟨coverage, hcoverage, -, hsame⟩ := h.exists_coverage hfact
  have hmem : coverage ∈ coverages.filter (·.required) :=
    List.mem_filter.mpr ⟨hcoverage, hsame.trans hflag⟩
  unfold weighedCoverages
  rw [List.filter_congr (h.isRequired hids)]
  exact if_neg (List.ne_nil_of_mem hmem)

/-- Of the required coverages alone all are weighed. -/
theorem weighedCoverages_filter (h : Covers facts coverages) {requiredFactIds : Option (List String)}
    (hids : Separates facts requiredFactIds) :
    weighedCoverages (coverages.filter (·.required)) requiredFactIds =
      coverages.filter (·.required) := by
  have hall : (coverages.filter (·.required)).filter (isRequired requiredFactIds) =
      coverages.filter (·.required) := by
    apply List.filter_eq_self.mpr
    intro coverage hcoverage
    obtain ⟨hmem, hflag⟩ := List.mem_filter.mp hcoverage
    exact (h.isRequired hids coverage hmem).trans hflag
  unfold weighedCoverages
  rw [hall, ite_self]

/-- Every required fact supported, and every optional one found in one status. -/
def coverageWith (status : FactStatus) (fact : Judge.RequiredFact) : FactCoverage where
  factId := fact.factId
  status := if fact.required then .supported else status
  required := fact.required
  evidenceIds := []
  explanation := ""
  missingInformation := none
  nextQueries := []
  targetCorpusIds := []

theorem covers_coverageWith (facts : List Judge.RequiredFact) (status : FactStatus) :
    Covers facts (facts.map (coverageWith status)) := by
  unfold Covers
  rw [List.forall₂_map_right_iff, List.forall₂_same]
  exact fun _ _ => ⟨rfl, rfl⟩

theorem filter_coverageWith (facts : List Judge.RequiredFact) (status : FactStatus) :
    (facts.map (coverageWith status)).filter (·.required) =
      (facts.filter (·.required)).map (coverageWith .supported) := by
  rw [List.filter_map]
  apply List.map_congr_left
  intro fact hfact
  have hflag := (List.mem_filter.mp hfact).2
  simp only [Function.comp_apply, coverageWith] at hflag ⊢
  simp [hflag]

theorem mem_weighedCoverages {requiredFactIds : Option (List String)} {coverage : FactCoverage}
    (h : coverage ∈ weighedCoverages coverages requiredFactIds) : coverage ∈ coverages := by
  unfold weighedCoverages at h
  dsimp only at h
  split at h
  · exact h
  · exact (List.mem_filter.mp h).1

end Weighed

section Dependence

variable {facts : List Judge.RequiredFact} {requiredFactIds : Option (List String)}

theorem ignoresOptional_of_separates (hrequired : ∃ fact ∈ facts, fact.required = true)
    (hids : Separates facts requiredFactIds) : IgnoresOptional facts requiredFactIds := by
  constructor
  · intro coverages coverages' h h' hsame
    simp only [buildSufficiencyResult]
    rw [weighedCoverages_required h hrequired hids, weighedCoverages_required h' hrequired hids, hsame]
  · intro coverages h hgo
    simp only [buildSufficiencyResult, Bool.and_eq_true, List.any_eq_true] at hgo ⊢
    rw [weighedCoverages_filter h hids] at hgo
    rw [weighedCoverages_required h hrequired hids]
    obtain ⟨hoverall, coverage, hcoverage, hopen⟩ := hgo
    exact ⟨hoverall, coverage, (List.mem_filter.mp hcoverage).1, hopen⟩

/-- Where the optional facts have no influence, those weighed are the required ones. -/
theorem IgnoresOptional.supported (h : IgnoresOptional facts requiredFactIds) :
    ∀ coverage ∈ weighedCoverages (facts.map (coverageWith .missing)) requiredFactIds,
      coverage.required = true := by
  have hsame := h.status _ _ (covers_coverageWith facts .supported) (covers_coverageWith facts .missing)
    ((filter_coverageWith facts .supported).trans (filter_coverageWith facts .missing).symm)
  have hsufficient : deriveOverallStatus
      (weighedCoverages (facts.map (coverageWith .supported)) requiredFactIds) = .sufficient := by
    apply deriveOverallStatus_sufficient.mpr
    intro coverage hcoverage
    obtain ⟨fact, -, rfl⟩ := List.mem_map.mp (mem_weighedCoverages hcoverage)
    exact ite_self _
  simp only [buildSufficiencyResult] at hsame
  have hsupported := deriveOverallStatus_sufficient.mp (hsame.symm.trans hsufficient)
  intro coverage hcoverage
  have hstatus := hsupported coverage hcoverage
  obtain ⟨fact, -, rfl⟩ := List.mem_map.mp (mem_weighedCoverages hcoverage)
  by_contra hoptional
  simp only [coverageWith] at hstatus hoptional
  simp [hoptional] at hstatus

theorem IgnoresOptional.separates (h : IgnoresOptional facts requiredFactIds) (hne : facts ≠ [])
    (hids : ∀ ids, requiredFactIds = some ids → ∀ fact ∈ facts, fact.required = true → fact.factId ∈ ids) :
    (∃ fact ∈ facts, fact.required = true) ∧ Separates facts requiredFactIds := by
  have hsupported := h.supported
  unfold weighedCoverages at hsupported
  dsimp only at hsupported
  split at hsupported
  · rename_i hempty
    obtain ⟨fact, hfact⟩ := List.exists_mem_of_ne_nil facts hne
    have hflag := hsupported _ (List.mem_map_of_mem hfact)
    refine ⟨⟨fact, hfact, hflag⟩, fun ids hsome other hother => ⟨fun hid => ?_, hids ids hsome other hother⟩⟩
    exact hsupported _ (List.mem_map_of_mem hother)
  · rename_i hsome
    obtain ⟨coverage, hcoverage⟩ := List.exists_mem_of_ne_nil _ hsome
    have hflag := hsupported coverage hcoverage
    obtain ⟨fact, hfact, rfl⟩ := List.mem_map.mp (List.mem_filter.mp hcoverage).1
    refine ⟨⟨fact, hfact, hflag⟩, ?_⟩
    rintro ids rfl other hother
    refine ⟨fun hid => ?_, hids ids rfl other hother⟩
    exact hsupported _ (List.mem_filter.mpr ⟨List.mem_map_of_mem hother, decide_eq_true hid⟩)

/-- Optional facts have no influence exactly if there is a required fact, and no optional
one that passes for required by its id. -/
theorem ignoresOptional_iff
    (hids : ∀ ids, requiredFactIds = some ids → ∀ fact ∈ facts, fact.required = true → fact.factId ∈ ids) :
    IgnoresOptional facts requiredFactIds ↔
      facts = [] ∨ (∃ fact ∈ facts, fact.required = true) ∧ Separates facts requiredFactIds := by
  constructor
  · intro h
    by_cases hne : facts = []
    · exact Or.inl hne
    · exact Or.inr (h.separates hne hids)
  · rintro (rfl | ⟨hrequired, hseparates⟩)
    · have hnil : ∀ coverages, Covers [] coverages → coverages = [] := by
        intro coverages h
        exact List.forall₂_nil_left_iff.mp h
      refine ⟨fun coverages coverages' h h' _ => ?_, fun coverages h hgo => ?_⟩
      · rw [hnil coverages h, hnil coverages' h']
      · rw [hnil coverages h] at hgo ⊢
        exact hgo
    · exact ignoresOptional_of_separates hrequired hseparates

/-- When the optional facts have no influence on the verdict: by the flags of the coverages, and by the ids
that `judge` passes. No facts at all are harmless; beyond that some fact must be required, and for the ids
no optional fact may share one with it. -/
theorem optional_facts_ignored_iff (facts : List Judge.RequiredFact) :
    (IgnoresOptional facts none ↔ facts = [] ∨ ∃ fact ∈ facts, fact.required = true) ∧
      (IgnoresOptional facts (some (requiredIds facts)) ↔
        facts = [] ∨ (∃ fact ∈ facts, fact.required = true) ∧
          ∀ fact ∈ facts, fact.required = false → fact.factId ∉ requiredIds facts) := by
  have hcollected : ∀ fact ∈ facts, fact.required = true → fact.factId ∈ requiredIds facts :=
    fun fact hfact hflag => List.mem_map_of_mem (List.mem_filter.mpr ⟨hfact, hflag⟩)
  constructor
  · rw [ignoresOptional_iff (by simp)]
    simp [Separates]
  · rw [ignoresOptional_iff (by rintro ids ⟨⟩; exact hcollected)]
    have hseparates : Separates facts (some (requiredIds facts)) ↔
        ∀ fact ∈ facts, fact.required = false → fact.factId ∉ requiredIds facts := by
      constructor
      · intro h fact hfact hflag hid
        have hrequired := (h _ rfl fact hfact).mp hid
        simp [hflag] at hrequired
      · rintro h ids ⟨⟩ fact hfact
        refine ⟨fun hid => ?_, hcollected fact hfact⟩
        by_contra hflag
        exact h fact hfact (by simpa using hflag) hid
    rw [hseparates]

private def nicety : Judge.RequiredFact := ⟨"f1", "the colour of the cover", false⟩

/-- The only fact is optional: found it makes the verdict sufficient, missing insufficient. -/
theorem optional_facts_ignored_counterexample :
    ¬∀ facts : List Judge.RequiredFact, IgnoresOptional facts (some (requiredIds facts)) := by
  intro hclaim
  have hsame := (hclaim [nicety]).status _ _ (covers_coverageWith [nicety] .supported)
    (covers_coverageWith [nicety] .missing) rfl
  exact absurd hsame (by decide)

end Dependence

end AgenticRag
