import AgenticRag.Evidence.RetrievalOrder

/-!
# What the authority rule leaves

Phase 2 compares all survivors of the version rule, also those another pair has dropped.
So an unresolved pair may be overridden as a whole, and what overrode an item may itself
be overridden by one that agrees with it; but a chain of overrides always ends in an item
that is kept.
-/

namespace AgenticRag

/-- The finding without its number and topic. -/
def ConflictFinding.toCandidate (finding : ConflictFinding) : Candidate where
  conflictType := finding.conflictType
  sources := finding.sources
  resolvable := finding.resolvable
  resolution := finding.resolution
  chosenEvidenceIds := finding.chosenEvidenceIds
  explanation := finding.explanation

namespace ConflictReport

/-- The evidence fed to the answer. -/
def kept (report : ConflictReport) (evs : List Evidence) : List Evidence :=
  evs.filter fun ev => decide (ev.evidenceId ∈ report.resolvedEvidenceIds)

def UnresolvedAmong (report : ConflictReport) (items : List Evidence) : Prop :=
  ∃ finding ∈ report.findings, finding.resolvable = false ∧ ∃ a ∈ items, ∃ b ∈ items,
    a ≠ b ∧ a.toSource ∈ finding.sources ∧ b.toSource ∈ finding.sources

instance (report : ConflictReport) (items : List Evidence) :
    Decidable (report.UnresolvedAmong items) :=
  inferInstanceAs (Decidable (∃ finding ∈ report.findings, finding.resolvable = false ∧
    ∃ a ∈ items, ∃ b ∈ items, a ≠ b ∧ a.toSource ∈ finding.sources ∧ b.toSource ∈ finding.sources))

end ConflictReport

namespace ConflictResolver

open Evidence

variable (self : ConflictResolver) {scope : TemporalScope} {evs : List Evidence}

theorem number_toCandidate (topicKey : String) (candidates : List Candidate) :
    (number topicKey candidates).map (·.toCandidate) = candidates := by
  apply List.ext_getElem
  · simp [number]
  · intro i _ _
    simp [number, ConflictFinding.toCandidate]

/-- The findings are the candidates of the two phases. -/
theorem exists_finding_iff (topicKey : String) (P : Candidate → Prop) :
    (∃ finding ∈ (self.resolve evs scope topicKey).findings, P finding.toCandidate) ↔
      (∃ d ∈ versionPhase scope evs, P d.candidate) ∨
        ∃ d ∈ self.pairPhase scope (survivors scope evs), P d.candidate := by
  have hfindings := number_toCandidate topicKey
    ((versionPhase scope evs ++ self.pairPhase scope (survivors scope evs)).map (·.candidate))
  constructor
  · rintro ⟨finding, hfinding, hP⟩
    have hmem := List.mem_map_of_mem (f := ConflictFinding.toCandidate) hfinding
    simp only [resolve] at hmem
    rw [hfindings] at hmem
    obtain ⟨d, hd, heq⟩ := List.mem_map.mp hmem
    rw [← heq] at hP
    obtain hd | hd := List.mem_append.mp hd
    · exact .inl ⟨d, hd, hP⟩
    · exact .inr ⟨d, hd, hP⟩
  · intro h
    obtain ⟨d, hd, hP⟩ : ∃ d ∈ versionPhase scope evs ++ self.pairPhase scope (survivors scope evs),
        P d.candidate := by
      obtain ⟨d, hd, hP⟩ | ⟨d, hd, hP⟩ := h
      · exact ⟨d, List.mem_append_left _ hd, hP⟩
      · exact ⟨d, List.mem_append_right _ hd, hP⟩
    have hmem := List.mem_map_of_mem (f := Disposition.candidate) hd
    rw [← hfindings] at hmem
    obtain ⟨finding, hfinding, heq⟩ := List.mem_map.mp hmem
    exact ⟨finding, hfinding, heq ▸ hP⟩

theorem resolvePair_sources {a b : Evidence} {fa fb : AssertionExtraction} {d : Disposition}
    (h : self.resolvePair scope a b fa fb = some d) :
    d.candidate.sources = [a.toSource, b.toSource] := by
  unfold resolvePair at h
  split_ifs at h <;> simp only [Option.some.injEq] at h <;> subst h <;> rfl

/-- The version rule drops nothing of a document id it does not decide. -/
theorem mem_survivors_of_guard (hids : DistinctIds evs) {documentId : String}
    (hguard : GuardHolds scope evs documentId) {ev : Evidence} (hev : ev ∈ groupOf evs documentId) :
    ev ∈ survivors scope evs := by
  obtain ⟨hmem, rfl⟩ := mem_groupOf.mp hev
  refine (mem_survivors hids).mpr ⟨hmem, fun hdecides => ?_⟩
  have hfree := hdecides.2
  simp [hguard.2] at hfree

/-- A contradiction is between items that the version rule left. -/
theorem contradicted_iff_unresolvedAmong (hids : DistinctIds evs) (topicKey : String) :
    (self.resolve evs scope topicKey).conflictStatus = .contradicted ↔
      (self.resolve evs scope topicKey).UnresolvedAmong (survivors scope evs) := by
  have hsurvivors : DistinctIds (survivors scope evs) := hids.sublist survivors_sublist
  have hamong : (self.resolve evs scope topicKey).UnresolvedAmong (survivors scope evs) ↔ _ :=
    self.exists_finding_iff topicKey fun c => c.resolvable = false ∧
      ∃ a ∈ survivors scope evs, ∃ b ∈ survivors scope evs,
        a ≠ b ∧ a.toSource ∈ c.sources ∧ b.toSource ∈ c.sources
  rw [hamong, self.contradicted_iff hids]
  constructor
  · rintro (⟨documentId, hguard⟩ | ⟨a, ha, b, hb, hne, hclash⟩)
    · obtain ⟨a, ha, b, hb, hversions⟩ := two_le_versionCount.mp hguard.1
      refine .inl ⟨resolveVersionGroup scope (groupOf evs documentId), ?_, ?_⟩
      · obtain ⟨hmem, hid⟩ := mem_groupOf.mp ha
        exact List.mem_map.mpr ⟨_, List.mem_filter.mpr
          ⟨mem_groupsByDocument.mpr ⟨a, hmem, by rw [hid]⟩, by simpa using hguard.1⟩, rfl⟩
      · unfold resolveVersionGroup
        rw [if_pos hguard.2]
        exact ⟨rfl, a, mem_survivors_of_guard hids hguard ha, b, mem_survivors_of_guard hids hguard hb,
          fun h => hversions (h ▸ rfl), List.mem_map_of_mem ha, List.mem_map_of_mem hb⟩
    · have hpair : ∃ x y, [x, y].Sublist (survivors scope evs) ∧ self.Clashes scope x y :=
        (exists_pair_iff hsurvivors (fun _ _ => Clashes.symm)).mpr ⟨a, ha, b, hb, hne, hclash⟩
      obtain ⟨x, y, hsub, hclash⟩ := hpair
      obtain ⟨d, hd, hresolvable⟩ := (self.resolvePair_unresolved hclash.1).mpr hclash
      have hnodup : [x, y].Nodup := hsurvivors.nodup.sublist hsub
      refine .inr ⟨d, (self.mem_pairPhase hsurvivors).mpr ⟨x, y, hsub, hclash.1, hd⟩, hresolvable,
        x, hsub.subset (by simp), y, hsub.subset (by simp), by simpa using hnodup, ?_⟩
      rw [self.resolvePair_sources hd]
      exact ⟨by simp, by simp⟩
  · rintro (⟨d, hd, hresolvable, -⟩ | ⟨d, hd, hresolvable, -⟩)
    · exact .inl (versionPhase_unresolved.mp ⟨d, hd, hresolvable⟩)
    · obtain ⟨a, b, hsub, hcompared, hpair⟩ := (self.mem_pairPhase hsurvivors).mp hd
      have hclash := (self.resolvePair_unresolved hcompared).mp ⟨d, hpair, hresolvable⟩
      exact .inr ((exists_pair_iff hsurvivors (fun _ _ => Clashes.symm)).mp ⟨a, b, hsub, hclash⟩)

section Chains

variable {self}

def SameKey (a b : Evidence) : Prop :=
  a.assertion.isStructured = true ∧ b.assertion.isStructured = true ∧
    a.assertion.key = b.assertion.key

theorem Above.trans {a b c : Evidence} (hmargin : 0 < self.authorityMargin) (h : self.Above a b)
    (h' : self.Above b c) : self.Above a c := by
  unfold Above at *
  omega

/-- A chain of overrides ends in a kept item: every step gains authority, which is at
most 100. -/
theorem exists_kept_above (hmargin : 0 < self.authorityMargin) (n : Nat) :
    ∀ ev ∈ survivors scope evs, 100 - ev.authorityLevel.val ≤ n → ¬self.Kept scope evs ev →
      ∃ high, self.Kept scope evs high ∧ self.Above high ev ∧ SameKey high ev := by
  induction n with
  | zero =>
    intro ev hev hn hdropped
    refine absurd ⟨hev, fun high _ hover => ?_⟩ hdropped
    have habove := hover.2.2.2
    unfold Above at habove
    omega
  | succ n ih =>
    intro ev hev hn hdropped
    obtain ⟨high, hhigh, hover⟩ : ∃ high ∈ survivors scope evs, self.Overrides scope high ev := by
      by_contra hnone
      exact hdropped ⟨hev, fun high hhigh hover => hnone ⟨high, hhigh, hover⟩⟩
    obtain ⟨⟨hstructured, hstructured', hkey, -⟩, -, -, habove⟩ := hover
    by_cases hkept : self.Kept scope evs high
    · exact ⟨high, hkept, habove, hstructured, hstructured', hkey⟩
    · have hlower : 100 - high.authorityLevel.val ≤ n := by
        unfold Above at habove
        omega
      obtain ⟨top, htop, htopabove, htopstructured, -, htopkey⟩ := ih high hhigh hlower hkept
      exact ⟨top, htop, htopabove.trans hmargin habove, htopstructured, hstructured',
        htopkey.trans hkey⟩

end Chains

theorem mem_kept (hmargin : 0 < self.authorityMargin) (hids : DistinctIds evs) (topicKey : String)
    {ev : Evidence} :
    ev ∈ (self.resolve evs scope topicKey).kept evs ↔ self.Kept scope evs ev := by
  simp only [ConflictReport.kept, List.mem_filter, decide_eq_true_eq,
    self.mem_resolvedEvidenceIds hmargin hids]
  constructor
  · rintro ⟨hev, other, hother, hid⟩
    exact hids.eq (survivors_sublist.subset hother.1) hev hid ▸ hother
  · intro h
    exact ⟨survivors_sublist.subset h.1, ev, h, rfl⟩

theorem exists_survivor (scope : TemporalScope) (hids : DistinctIds evs) (hne : evs ≠ []) :
    ∃ ev, ev ∈ survivors scope evs := by
  obtain ⟨ev, hev⟩ := List.exists_mem_of_ne_nil _ hne
  by_cases hdecides : Decides scope evs ev.documentId
  · obtain ⟨winner, hwinner, hlast, -⟩ := ordered_split hdecides.group_ne_nil
    obtain ⟨hmem, hdoc⟩ := mem_groupOf.mp hwinner
    refine ⟨winner, (mem_survivors hids).mpr ⟨hmem, fun _ => ?_⟩⟩
    rw [hdoc]
    exact hlast
  · exact ⟨ev, (mem_survivors hids).mpr ⟨hev, fun h => absurd h hdecides⟩⟩

/-- The report contradicts exactly when an unresolved finding involves two items that the
version rule left. Each of these that is not kept has one among them of clearly higher
authority with another value on its key, and a kept one of clearly higher authority
on its key. Something is kept. -/
theorem authority_rule_report (scope : TemporalScope) (hmargin : 0 < self.authorityMargin)
    (hids : DistinctIds evs) (hne : evs ≠ []) (topicKey : String) :
    ((self.resolve evs scope topicKey).conflictStatus = .contradicted ↔
      (self.resolve evs scope topicKey).UnresolvedAmong (survivors scope evs)) ∧
    (∀ low ∈ survivors scope evs, low ∉ (self.resolve evs scope topicKey).kept evs →
      (∃ high ∈ survivors scope evs, self.Above high low ∧
        Contrary high.assertion low.assertion) ∧
      ∃ high ∈ (self.resolve evs scope topicKey).kept evs, self.Above high low ∧
        SameKey high low) ∧
    (self.resolve evs scope topicKey).kept evs ≠ [] := by
  refine ⟨self.contradicted_iff_unresolvedAmong hids topicKey, ?_, ?_⟩
  · intro low hlow hdropped
    rw [self.mem_kept hmargin hids] at hdropped
    constructor
    · by_contra hnone
      exact hdropped ⟨hlow, fun high hhigh hover => hnone ⟨high, hhigh, hover.2.2.2, hover.1⟩⟩
    · obtain ⟨high, hkept, habove, hkey⟩ := exists_kept_above hmargin _ low hlow (le_refl _) hdropped
      exact ⟨high, (self.mem_kept hmargin hids topicKey).mpr hkept, habove, hkey⟩
  · obtain ⟨ev, hev⟩ := exists_survivor scope hids hne
    by_cases hkept : self.Kept scope evs ev
    · exact List.ne_nil_of_mem ((self.mem_kept hmargin hids topicKey).mpr hkept)
    · obtain ⟨high, hhigh, -⟩ := exists_kept_above hmargin _ ev hev (le_refl _) hkept
      exact List.ne_nil_of_mem ((self.mem_kept hmargin hids topicKey).mpr hhigh)

namespace Chain

open Sample

/-- Two documents that disagree below a third one that disagrees with both. -/
def overridden : List Evidence :=
  [statement "e1" "travel" "v1" "timeout: 1" 40, statement "e2" "memo" "v1" "timeout: 2" 40,
    statement "e3" "policy" "v1" "timeout: 3" 80]

/-- The top of the chain agrees with its bottom. -/
def agreeing : List Evidence :=
  [statement "e1" "travel" "v1" "timeout: 1" 10, statement "e2" "memo" "v1" "timeout: 2" 40,
    statement "e3" "policy" "v1" "timeout: 1" 80]

end Chain

open Sample Chain in
/-- The report contradicts, and the first two documents are dropped below the third. -/
theorem authority_rule_report_overridden :
    (resolver.resolve overridden .current "timeout").conflictStatus = .contradicted ∧
    (resolver.resolve overridden .current "timeout").UnresolvedAmong (survivors .current overridden) ∧
    (∀ low ∈ overridden.take 2, ∃ high ∈ (resolver.resolve overridden .current "timeout").kept overridden,
      resolver.Above high low ∧ SameKey high low) ∧
    (resolver.resolve overridden .current "timeout").kept overridden ≠ [] := by
  obtain ⟨hstatus, hdropped, hkept⟩ := resolver.authority_rule_report .current (by decide)
    (show DistinctIds overridden by decide) (by decide) "timeout"
  have hcontradicted : (resolver.resolve overridden .current "timeout").conflictStatus = .contradicted := by decide
  have htwo : ∀ low ∈ overridden.take 2, low ∈ survivors .current overridden ∧
      low ∉ (resolver.resolve overridden .current "timeout").kept overridden := by decide
  refine ⟨hcontradicted, hstatus.mp hcontradicted, fun low hlow => ?_, hkept⟩
  exact (hdropped low (htwo low hlow).1 (htwo low hlow).2).2

open Sample Chain in
/-- A contradiction with only the third document kept, and an override whose only kept item
agrees with what it drops. -/
theorem authority_rule_report_counterexample :
    ¬((resolver.resolve overridden .current "timeout").conflictStatus = .contradicted ↔
      (resolver.resolve overridden .current "timeout").UnresolvedAmong
        ((resolver.resolve overridden .current "timeout").kept overridden)) ∧
    ¬∀ low ∈ survivors .current agreeing,
      low ∉ (resolver.resolve agreeing .current "timeout").kept agreeing →
      ∃ high ∈ (resolver.resolve agreeing .current "timeout").kept agreeing,
        resolver.Above high low ∧ Contrary high.assertion low.assertion := by
  decide

end ConflictResolver

end AgenticRag
