import AgenticRag.Evidence.VersionRule

/-!
# The pairwise rules of the conflict resolver

What phase 2 does with two items, and what `resolve` reports of evidence with distinct
ids: which items it keeps and which status it gives, each as a condition on the items that
the version rule leaves.
-/

namespace AgenticRag

open Evidence

/-- Two assertions that give one key different values. -/
def Contrary (fa fb : AssertionExtraction) : Prop :=
  fa.isStructured = true ∧ fb.isStructured = true ∧ fa.key = fb.key ∧ fa.value ≠ fb.value

instance : DecidableRel Contrary := fun _ _ => inferInstanceAs (Decidable (_ ∧ _ ∧ _ ∧ _))

theorem Contrary.symm {fa fb : AssertionExtraction} (h : Contrary fa fb) : Contrary fb fa :=
  ⟨h.2.1, h.1, h.2.2.1.symm, h.2.2.2.symm⟩

/-- Different ids for different items. -/
def DistinctIds (evs : List Evidence) : Prop := (evs.map (·.evidenceId)).Nodup

instance (evs : List Evidence) : Decidable (DistinctIds evs) :=
  inferInstanceAs (Decidable (List.Nodup _))

section Distinct

variable {evs : List Evidence} {a b : Evidence}

theorem DistinctIds.eq (h : DistinctIds evs) (ha : a ∈ evs) (hb : b ∈ evs)
    (hid : a.evidenceId = b.evidenceId) : a = b := List.inj_on_of_nodup_map h ha hb hid

theorem DistinctIds.nodup (h : DistinctIds evs) : evs.Nodup := List.Nodup.of_map _ h

theorem DistinctIds.sublist {evs' : List Evidence} (h : DistinctIds evs) (hsub : evs'.Sublist evs) :
    DistinctIds evs' := List.Nodup.sublist (hsub.map _) h

theorem DistinctIds.perm {evs' : List Evidence} (h : DistinctIds evs) (hperm : evs'.Perm evs) :
    DistinctIds evs' := (hperm.map _).nodup_iff.mpr h

end Distinct

/-- Two different members of a list form one of its pairs. -/
theorem pair_sublist_or {α : Type} {a b : α} {l : List α} (ha : a ∈ l) (hb : b ∈ l) (hne : a ≠ b) :
    [a, b].Sublist l ∨ [b, a].Sublist l := by
  induction l with
  | nil => exact absurd ha List.not_mem_nil
  | cons c l ih =>
    obtain rfl | ha' := List.mem_cons.mp ha
    · obtain rfl | hb' := List.mem_cons.mp hb
      · exact absurd rfl hne
      · exact .inl ((List.singleton_sublist.mpr hb').cons_cons _)
    · obtain rfl | hb' := List.mem_cons.mp hb
      · exact .inr ((List.singleton_sublist.mpr ha').cons_cons _)
      · exact (ih ha' hb').imp (fun h => h.cons _) fun h => h.cons _

namespace ConflictResolver

section Relations

def Compared (a b : Evidence) : Prop :=
  ¬(a.documentId = b.documentId ∧ a.documentVersion ≠ b.documentVersion)

instance : DecidableRel Compared := fun _ _ => inferInstanceAs (Decidable (¬(_ ∧ _)))

/-- The temporary-rollback guard of a pair. -/
def GuardsPair (scope : TemporalScope) (a b : Evidence) : Prop :=
  a.effectiveTo.isSome ≠ b.effectiveTo.isSome ∧ scope.effectiveNow = true

instance (scope : TemporalScope) : DecidableRel (GuardsPair scope) :=
  fun _ _ => inferInstanceAs (Decidable (_ ∧ _))

variable (self : ConflictResolver)

/-- Different documents with a clear authority margin. -/
def ClearMargin (a b : Evidence) : Prop :=
  a.documentId ≠ b.documentId ∧
    self.authorityMargin ≤ |(a.authorityLevel.val : Int) - b.authorityLevel.val|

instance : DecidableRel self.ClearMargin := fun _ _ => inferInstanceAs (Decidable (_ ∧ _))

/-- The first item is clearly above the second in authority. -/
def Above (high low : Evidence) : Prop :=
  self.authorityMargin ≤ (high.authorityLevel.val : Int) - low.authorityLevel.val

instance : DecidableRel self.Above := fun _ _ => inferInstanceAs (Decidable (_ ≤ _))

/-- The authority rule drops the second item of the two. -/
def Overrides (scope : TemporalScope) (high low : Evidence) : Prop :=
  Contrary high.assertion low.assertion ∧ ¬GuardsPair scope high low ∧
    high.documentId ≠ low.documentId ∧ self.Above high low

instance (scope : TemporalScope) : DecidableRel (self.Overrides scope) :=
  fun _ _ => inferInstanceAs (Decidable (_ ∧ _ ∧ _ ∧ _))

/-- The pair is left unresolved. -/
def Clashes (scope : TemporalScope) (a b : Evidence) : Prop :=
  Compared a b ∧ Contrary a.assertion b.assertion ∧
    (GuardsPair scope a b ∨ ¬self.ClearMargin a b)

instance (scope : TemporalScope) : DecidableRel (self.Clashes scope) :=
  fun _ _ => inferInstanceAs (Decidable (_ ∧ _ ∧ _))

/-- The pair gives a finding of some kind. -/
def Noted (a b : Evidence) : Prop :=
  Compared a b ∧ a.assertion.isStructured = true ∧ b.assertion.isStructured = true ∧
    (a.assertion.key = b.assertion.key → a.assertion.value ≠ b.assertion.value)

variable {self} {scope : TemporalScope} {a b : Evidence}

theorem Compared.symm (h : Compared a b) : Compared b a :=
  fun hversions => h ⟨hversions.1.symm, hversions.2.symm⟩

theorem GuardsPair.symm (h : GuardsPair scope a b) : GuardsPair scope b a := ⟨h.1.symm, h.2⟩

theorem ClearMargin.symm (h : self.ClearMargin a b) : self.ClearMargin b a := by
  refine ⟨h.1.symm, ?_⟩
  rw [abs_sub_comm]
  exact h.2

theorem Clashes.symm (h : self.Clashes scope a b) : self.Clashes scope b a :=
  ⟨h.1.symm, h.2.1.symm, h.2.2.imp GuardsPair.symm fun hmargin hclear => hmargin hclear.symm⟩

theorem Noted.symm (h : Noted a b) : Noted b a :=
  ⟨h.1.symm, h.2.2.1, h.2.1, fun hkey => (h.2.2.2 hkey.symm).symm⟩

theorem Overrides.compared (h : self.Overrides scope a b) : Compared a b :=
  fun hversions => h.2.2.1 hversions.1

theorem Overrides.ne (h : self.Overrides scope a b) : a ≠ b :=
  fun heq => h.2.2.1 (heq ▸ rfl)

/-- A clear margin is one in favour of the first or of the second. -/
theorem clearMargin_iff : self.ClearMargin a b ↔
    a.documentId ≠ b.documentId ∧ (self.Above a b ∨ self.Above b a) := by
  unfold ClearMargin Above
  rw [le_abs]
  constructor
  · rintro ⟨hdoc, h | h⟩
    · exact ⟨hdoc, .inl h⟩
    · exact ⟨hdoc, .inr (by omega)⟩
  · rintro ⟨hdoc, h | h⟩
    · exact ⟨hdoc, .inl h⟩
    · exact ⟨hdoc, .inr (by omega)⟩

end Relations

section ResolvePair

variable (self : ConflictResolver) {scope : TemporalScope} {a b : Evidence}
  {fa fb : AssertionExtraction}

/-- Contrary assertions always give a finding: the guard, then the margin, then none. -/
theorem resolvePair_contrary (scope : TemporalScope) (a b : Evidence) (h : Contrary fa fb) :
    ∃ d, self.resolvePair scope a b fa fb = some d ∧
      d.candidate.sources = [a.toSource, b.toSource] ∧
      ((GuardsPair scope a b ∧ d.candidate.conflictType = .timeConflict ∧
          d.candidate.resolvable = false ∧ d.drop = []) ∨
        (¬GuardsPair scope a b ∧ self.ClearMargin a b ∧ d.candidate.conflictType = .valueConflict ∧
          d.candidate.resolvable = true ∧
          d.drop = [(if b.authorityLevel < a.authorityLevel then b else a).evidenceId]) ∨
        (¬GuardsPair scope a b ∧ ¬self.ClearMargin a b ∧
          d.candidate.conflictType = .valueConflict ∧ d.candidate.resolvable = false ∧
          d.drop = [])) := by
  obtain ⟨ha, hb, hkey, hvalue⟩ := h
  unfold resolvePair
  rw [if_neg (by simp [ha, hb]), if_neg (not_not.mpr hkey), if_neg hvalue]
  by_cases hguard : a.effectiveTo.isSome ≠ b.effectiveTo.isSome ∧ scope.effectiveNow = true
  · rw [if_pos hguard]
    exact ⟨_, rfl, rfl, .inl ⟨hguard, rfl, rfl, rfl⟩⟩
  · rw [if_neg hguard]
    by_cases hmargin : a.documentId ≠ b.documentId ∧
        self.authorityMargin ≤ |(a.authorityLevel.val : Int) - b.authorityLevel.val|
    · rw [if_pos hmargin]
      by_cases hauthority : b.authorityLevel < a.authorityLevel
      · rw [if_pos hauthority, if_pos hauthority]
        exact ⟨_, rfl, rfl, .inr (.inl ⟨hguard, hmargin, rfl, rfl, rfl⟩)⟩
      · rw [if_neg hauthority, if_neg hauthority]
        exact ⟨_, rfl, rfl, .inr (.inl ⟨hguard, hmargin, rfl, rfl, rfl⟩)⟩
    · rw [if_neg hmargin]
      exact ⟨_, rfl, rfl, .inr (.inr ⟨hguard, hmargin, rfl, rfl, rfl⟩)⟩

/-- Other assertions give at most a note on their different keys. -/
theorem resolvePair_not_contrary (h : ¬Contrary fa fb) {d : Disposition}
    (hd : self.resolvePair scope a b fa fb = some d) :
    d.candidate.conflictType = .scopeConflict ∧ d.candidate.resolvable = true ∧ d.drop = [] := by
  unfold resolvePair at hd
  split_ifs at hd with hfree hkey hvalue
  · simp only [Option.some.injEq] at hd
    subst hd
    exact ⟨rfl, rfl, rfl⟩
  all_goals
    refine absurd ⟨?_, ?_, not_not.mp hkey, hvalue⟩ h
    all_goals simp only [Bool.or_eq_true, Bool.not_eq_true', not_or, Bool.not_eq_false] at hfree
    exacts [hfree.1, hfree.2]

/-- When there is a finding at all. -/
theorem resolvePair_isSome : (self.resolvePair scope a b fa fb).isSome = true ↔
    fa.isStructured = true ∧ fb.isStructured = true ∧ (fa.key = fb.key → fa.value ≠ fb.value) := by
  by_cases hcontrary : Contrary fa fb
  · obtain ⟨d, hd, -⟩ := self.resolvePair_contrary scope a b hcontrary
    rw [hd]
    exact iff_of_true rfl ⟨hcontrary.1, hcontrary.2.1, fun _ => hcontrary.2.2.2⟩
  · unfold resolvePair
    cases ha : fa.isStructured
    · simp
    · cases hb : fb.isStructured
      · simp
      · by_cases hkey : fa.key = fb.key
        · have hvalue : fa.value = fb.value := by
            by_contra hvalue
            exact hcontrary ⟨ha, hb, hkey, hvalue⟩
          simp [hkey, hvalue]
        · simp [hkey]

/-- With a positive margin the item of lower authority is the one dropped. -/
theorem resolvePair_drop (hmargin : 0 < self.authorityMargin) {evidenceId : String} :
    (∃ d, self.resolvePair scope a b a.assertion b.assertion = some d ∧ evidenceId ∈ d.drop) ↔
      (self.Overrides scope a b ∧ evidenceId = b.evidenceId) ∨
        (self.Overrides scope b a ∧ evidenceId = a.evidenceId) := by
  by_cases hcontrary : Contrary a.assertion b.assertion
  · obtain ⟨d, hd, -, hcases⟩ :=
      self.resolvePair_contrary scope a b hcontrary
    have hunique : (∃ d, self.resolvePair scope a b a.assertion b.assertion = some d ∧
        evidenceId ∈ d.drop) ↔ evidenceId ∈ d.drop := by
      rw [hd]
      simp
    rw [hunique]
    obtain ⟨hguard, -, -, hdrop⟩ | ⟨hguard, hclear, -, -, hdrop⟩ | ⟨-, hclear, -, -, hdrop⟩ := hcases
    · rw [hdrop]
      refine iff_of_false List.not_mem_nil ?_
      rintro (⟨h, -⟩ | ⟨h, -⟩)
      · exact h.2.1 hguard
      · exact h.2.1 hguard.symm
    · rw [hdrop, List.mem_singleton]
      obtain ⟨hdoc, habove⟩ := clearMargin_iff.mp hclear
      unfold Above at habove
      by_cases hauthority : b.authorityLevel < a.authorityLevel
      · have hlt : b.authorityLevel.val < a.authorityLevel.val := hauthority
        have hab : self.Overrides scope a b := ⟨hcontrary, hguard, hdoc, by unfold Above; omega⟩
        have hba : ¬self.Overrides scope b a := by
          rintro ⟨-, -, -, habove'⟩
          unfold Above at habove'
          omega
        simp only [hauthority, if_true, hab, hba, true_and, false_and, or_false]
      · have hle : a.authorityLevel.val ≤ b.authorityLevel.val := Fin.not_lt.mp hauthority
        have hba : self.Overrides scope b a :=
          ⟨hcontrary.symm, fun h => hguard h.symm, hdoc.symm, by unfold Above; omega⟩
        have hab : ¬self.Overrides scope a b := by
          rintro ⟨-, -, -, habove'⟩
          unfold Above at habove'
          omega
        simp only [hauthority, if_false, hab, hba, true_and, false_and, false_or]
    · rw [hdrop]
      refine iff_of_false List.not_mem_nil ?_
      rintro (⟨h, -⟩ | ⟨h, -⟩)
      · exact hclear (clearMargin_iff.mpr ⟨h.2.2.1, .inl h.2.2.2⟩)
      · exact hclear (clearMargin_iff.mpr ⟨h.2.2.1.symm, .inr h.2.2.2⟩)
  · constructor
    · rintro ⟨d, hd, hmem⟩
      rw [(self.resolvePair_not_contrary hcontrary hd).2.2] at hmem
      exact absurd hmem List.not_mem_nil
    · rintro (⟨h, -⟩ | ⟨h, -⟩)
      · exact absurd h.1 hcontrary
      · exact absurd h.1.symm hcontrary

end ResolvePair

section Report

variable (self : ConflictResolver) {scope : TemporalScope} {evs items : List Evidence}

/-- The item is left by the version rule and by the authority rule. -/
def Kept (scope : TemporalScope) (evs : List Evidence) (ev : Evidence) : Prop :=
  ev ∈ survivors scope evs ∧ ∀ high ∈ survivors scope evs, ¬self.Overrides scope high ev

/-- A document id with several versions that the guard holds back. -/
def GuardHolds (scope : TemporalScope) (evs : List Evidence) (documentId : String) : Prop :=
  2 ≤ versionCount (groupOf evs documentId) ∧ guardsGroup scope (groupOf evs documentId) = true

theorem survivors_sublist : (survivors scope evs).Sublist evs := List.filter_sublist

theorem assertionOf_eq (hids : DistinctIds items) {ev : Evidence} (h : ev ∈ items) :
    assertionOf items ev.evidenceId = ev.assertion := by
  unfold assertionOf
  obtain ⟨found, hfound⟩ : ∃ found, (items.reverse.find? fun other =>
      decide (other.evidenceId = ev.evidenceId)) = some found := by
    rw [← Option.isSome_iff_exists, List.find?_isSome]
    exact ⟨ev, List.mem_reverse.mpr h, by simp⟩
  have hmem : found ∈ items := List.mem_reverse.mp (List.mem_of_find?_eq_some hfound)
  have hid : found.evidenceId = ev.evidenceId := by simpa using List.find?_some hfound
  rw [hfound, hids.eq hmem h hid]
  rfl

/-- Phase 2 looks at every pair of compared items, by their own assertions. -/
theorem mem_pairPhase (hids : DistinctIds items) {d : Disposition} :
    d ∈ self.pairPhase scope items ↔ ∃ a b, [a, b].Sublist items ∧ Compared a b ∧
      self.resolvePair scope a b a.assertion b.assertion = some d := by
  simp only [pairPhase, List.mem_filterMap, List.mem_filter, Bool.not_eq_true',
    decide_eq_false_iff_not]
  constructor
  · rintro ⟨⟨a, b⟩, ⟨hpair, hcompared⟩, hd⟩
    have hsub := mem_pairsOf.mp hpair
    rw [assertionOf_eq hids (hsub.subset (by simp)), assertionOf_eq hids (hsub.subset (by simp))] at hd
    exact ⟨a, b, hsub, hcompared, hd⟩
  · rintro ⟨a, b, hsub, hcompared, hd⟩
    refine ⟨(a, b), ⟨mem_pairsOf.mpr hsub, hcompared⟩, ?_⟩
    rw [assertionOf_eq hids (hsub.subset (by simp)), assertionOf_eq hids (hsub.subset (by simp))]
    exact hd

/-- A fact about the pairs of phase 2 that does not depend on their order. -/
theorem exists_pair_iff (hids : DistinctIds items) {P : Evidence → Evidence → Prop}
    (hsymm : ∀ a b, P a b → P b a) :
    (∃ a b, [a, b].Sublist items ∧ P a b) ↔ ∃ a ∈ items, ∃ b ∈ items, a ≠ b ∧ P a b := by
  constructor
  · rintro ⟨a, b, hsub, hP⟩
    have hnodup : [a, b].Nodup := hids.nodup.sublist hsub
    exact ⟨a, hsub.subset (by simp), b, hsub.subset (by simp), by simpa using hnodup, hP⟩
  · rintro ⟨a, ha, b, hb, hne, hP⟩
    obtain hsub | hsub := pair_sublist_or ha hb hne
    · exact ⟨a, b, hsub, hP⟩
    · exact ⟨b, a, hsub, hsymm a b hP⟩

/-- What the authority rule drops. -/
theorem mem_pairDropped (hmargin : 0 < self.authorityMargin) (hids : DistinctIds items)
    {ev : Evidence} (hev : ev ∈ items) :
    (∃ d ∈ self.pairPhase scope items, ev.evidenceId ∈ d.drop) ↔
      ∃ high ∈ items, self.Overrides scope high ev := by
  constructor
  · rintro ⟨d, hd, hmem⟩
    obtain ⟨a, b, hsub, -, hpair⟩ := (self.mem_pairPhase hids).mp hd
    have ha : a ∈ items := hsub.subset (by simp)
    have hb : b ∈ items := hsub.subset (by simp)
    obtain ⟨hover, hid⟩ | ⟨hover, hid⟩ := (self.resolvePair_drop hmargin).mp ⟨d, hpair, hmem⟩
    · exact ⟨a, ha, (hids.eq hev hb hid) ▸ hover⟩
    · exact ⟨b, hb, (hids.eq hev ha hid) ▸ hover⟩
  · rintro ⟨high, hhigh, hover⟩
    obtain hsub | hsub := pair_sublist_or hhigh hev hover.ne
    · obtain ⟨d, hd, hmem⟩ := (self.resolvePair_drop hmargin).mpr (.inl ⟨hover, rfl⟩)
      exact ⟨d, (self.mem_pairPhase hids).mpr ⟨high, ev, hsub, hover.compared, hd⟩, hmem⟩
    · obtain ⟨d, hd, hmem⟩ := (self.resolvePair_drop hmargin).mpr (.inr ⟨hover, rfl⟩)
      exact ⟨d, (self.mem_pairPhase hids).mpr ⟨ev, high, hsub, hover.compared.symm, hd⟩, hmem⟩

/-- `resolve` keeps what neither rule drops. -/
theorem mem_resolvedEvidenceIds (hmargin : 0 < self.authorityMargin) (hids : DistinctIds evs)
    (topicKey : String) {evidenceId : String} :
    evidenceId ∈ (self.resolve evs scope topicKey).resolvedEvidenceIds ↔
      ∃ ev, self.Kept scope evs ev ∧ ev.evidenceId = evidenceId := by
  have hsurvivors : DistinctIds (survivors scope evs) := hids.sublist survivors_sublist
  have hkept : ∀ ev ∈ evs, (ev.evidenceId ∉ (versionPhase scope evs ++
      self.pairPhase scope (survivors scope evs)).flatMap (·.drop) ↔ self.Kept scope evs ev) := by
    intro ev hev
    have hmem : ev ∈ survivors scope evs ↔ ev.evidenceId ∉ versionDropped scope evs := by
      simp [survivors, hev]
    rw [List.flatMap_append, List.mem_append, not_or, Kept, hmem]
    apply and_congr_right
    intro hleft
    rw [List.mem_flatMap, self.mem_pairDropped hmargin hsurvivors (hmem.mpr hleft)]
    simp only [not_exists, not_and]
  simp only [resolve, List.mem_map, List.mem_filter, decide_eq_true_eq]
  constructor
  · rintro ⟨ev, ⟨hev, hdrop⟩, rfl⟩
    exact ⟨ev, (hkept ev hev).mp hdrop, rfl⟩
  · rintro ⟨ev, hkeptev, rfl⟩
    have hev : ev ∈ evs := survivors_sublist.subset hkeptev.1
    exact ⟨ev, ⟨hev, (hkept ev hev).mpr hkeptev⟩, rfl⟩

theorem statusOf_contradicted {candidates : List Candidate} :
    statusOf candidates = .contradicted ↔ ∃ c ∈ candidates, c.resolvable = false := by
  unfold statusOf
  split_ifs with hnil hany
  · simp [hnil]
  · simpa using hany
  · simpa using hany

theorem statusOf_none {candidates : List Candidate} : statusOf candidates = .none ↔ candidates = [] := by
  unfold statusOf
  split_ifs <;> simp_all

/-- An unresolved version group is one the guard holds back. -/
theorem versionPhase_unresolved : (∃ d ∈ versionPhase scope evs, d.candidate.resolvable = false) ↔
    ∃ documentId, GuardHolds scope evs documentId := by
  have hguard : ∀ group, (resolveVersionGroup scope group).candidate.resolvable = false ↔
      guardsGroup scope group = true := by
    intro group
    unfold resolveVersionGroup
    cases guardsGroup scope group
    · simp
    · simp
  simp only [versionPhase, List.mem_map, List.mem_filter, decide_eq_true_eq]
  constructor
  · rintro ⟨_, ⟨group, ⟨hgroup, hcount⟩, rfl⟩, hunresolved⟩
    obtain ⟨ev, -, rfl⟩ := mem_groupsByDocument.mp hgroup
    exact ⟨ev.documentId, hcount, (hguard _).mp hunresolved⟩
  · rintro ⟨documentId, hcount, hholds⟩
    obtain ⟨ev, hev, -⟩ := two_le_versionCount.mp hcount
    obtain ⟨hmem, hid⟩ := mem_groupOf.mp hev
    refine ⟨_, ⟨groupOf evs documentId, ⟨?_, hcount⟩, rfl⟩, (hguard _).mpr hholds⟩
    exact mem_groupsByDocument.mpr ⟨ev, hmem, by rw [hid]⟩

/-- An unresolved pair is a clash. -/
theorem resolvePair_unresolved {a b : Evidence} (hcompared : Compared a b) :
    (∃ d, self.resolvePair scope a b a.assertion b.assertion = some d ∧
      d.candidate.resolvable = false) ↔ self.Clashes scope a b := by
  by_cases hcontrary : Contrary a.assertion b.assertion
  · obtain ⟨d, hd, -, hcases⟩ :=
      self.resolvePair_contrary scope a b hcontrary
    have hunique : (∃ d, self.resolvePair scope a b a.assertion b.assertion = some d ∧
        d.candidate.resolvable = false) ↔ d.candidate.resolvable = false := by
      rw [hd]
      simp
    rw [hunique]
    obtain ⟨hguard, -, hresolvable, -⟩ | ⟨hguard, hclear, -, hresolvable, -⟩ |
      ⟨-, hclear, -, hresolvable, -⟩ := hcases
    · exact iff_of_true hresolvable ⟨hcompared, hcontrary, .inl hguard⟩
    · refine iff_of_false (by simp [hresolvable]) ?_
      rintro ⟨-, -, hguard' | hclear'⟩
      · exact hguard hguard'
      · exact hclear' hclear
    · exact iff_of_true hresolvable ⟨hcompared, hcontrary, .inr hclear⟩
  · constructor
    · rintro ⟨d, hd, hunresolved⟩
      rw [(self.resolvePair_not_contrary hcontrary hd).2.1] at hunresolved
      simp at hunresolved
    · intro h
      exact absurd h.2.1 hcontrary

/-- The status says `CONTRADICTED` for a guarded document or a clash of two survivors. -/
theorem contradicted_iff (hids : DistinctIds evs) (topicKey : String) :
    (self.resolve evs scope topicKey).conflictStatus = .contradicted ↔
      (∃ documentId, GuardHolds scope evs documentId) ∨
        ∃ a ∈ survivors scope evs, ∃ b ∈ survivors scope evs, a ≠ b ∧ self.Clashes scope a b := by
  have hsurvivors : DistinctIds (survivors scope evs) := hids.sublist survivors_sublist
  have hpairs : (∃ d ∈ self.pairPhase scope (survivors scope evs), d.candidate.resolvable = false) ↔
      ∃ a b, [a, b].Sublist (survivors scope evs) ∧ self.Clashes scope a b := by
    constructor
    · rintro ⟨d, hd, hunresolved⟩
      obtain ⟨a, b, hsub, hcompared, hpair⟩ := (self.mem_pairPhase hsurvivors).mp hd
      exact ⟨a, b, hsub, (self.resolvePair_unresolved hcompared).mp ⟨d, hpair, hunresolved⟩⟩
    · rintro ⟨a, b, hsub, hclash⟩
      obtain ⟨d, hpair, hunresolved⟩ := (self.resolvePair_unresolved hclash.1).mpr hclash
      exact ⟨d, (self.mem_pairPhase hsurvivors).mpr ⟨a, b, hsub, hclash.1, hpair⟩, hunresolved⟩
  rw [← exists_pair_iff hsurvivors (fun _ _ => Clashes.symm), ← hpairs, ← versionPhase_unresolved]
  simp only [resolve, statusOf_contradicted, List.map_append, List.mem_append, List.mem_map]
  constructor
  · rintro ⟨_, ⟨d, hd, rfl⟩ | ⟨d, hd, rfl⟩, hunresolved⟩
    · exact .inl ⟨d, hd, hunresolved⟩
    · exact .inr ⟨d, hd, hunresolved⟩
  · rintro (⟨d, hd, hunresolved⟩ | ⟨d, hd, hunresolved⟩)
    · exact ⟨_, .inl ⟨d, hd, rfl⟩, hunresolved⟩
    · exact ⟨_, .inr ⟨d, hd, rfl⟩, hunresolved⟩

/-- The status says `NONE` when no document id has two versions and no pair is noted. -/
theorem none_iff (hids : DistinctIds evs) (topicKey : String) :
    (self.resolve evs scope topicKey).conflictStatus = .none ↔
      (∀ documentId, versionCount (groupOf evs documentId) < 2) ∧
        ¬∃ a ∈ survivors scope evs, ∃ b ∈ survivors scope evs, a ≠ b ∧ Noted a b := by
  have hsurvivors : DistinctIds (survivors scope evs) := hids.sublist survivors_sublist
  have hversions : versionPhase scope evs = [] ↔
      ∀ documentId, versionCount (groupOf evs documentId) < 2 := by
    simp only [versionPhase, List.map_eq_nil_iff, List.filter_eq_nil_iff, decide_eq_true_eq, not_le]
    constructor
    · intro h documentId
      by_contra hcount
      obtain ⟨ev, hev, -⟩ := two_le_versionCount.mp (not_lt.mp hcount)
      obtain ⟨hmem, hid⟩ := mem_groupOf.mp hev
      exact hcount (h _ (mem_groupsByDocument.mpr ⟨ev, hmem, by rw [hid]⟩))
    · intro h group hgroup
      obtain ⟨ev, -, rfl⟩ := mem_groupsByDocument.mp hgroup
      exact h _
  have hpairs : self.pairPhase scope (survivors scope evs) = [] ↔
      ¬∃ a b, [a, b].Sublist (survivors scope evs) ∧ Noted a b := by
    rw [List.eq_nil_iff_forall_not_mem]
    constructor
    · rintro h ⟨a, b, hsub, hcompared, hnoted⟩
      have hsome : (self.resolvePair scope a b a.assertion b.assertion).isSome = true :=
        self.resolvePair_isSome.mpr hnoted
      obtain ⟨d, hd⟩ := Option.isSome_iff_exists.mp hsome
      exact h d ((self.mem_pairPhase hsurvivors).mpr ⟨a, b, hsub, hcompared, hd⟩)
    · intro h d hd
      obtain ⟨a, b, hsub, hcompared, hpair⟩ := (self.mem_pairPhase hsurvivors).mp hd
      exact h ⟨a, b, hsub, hcompared, self.resolvePair_isSome.mp (by rw [hpair]; rfl)⟩
  rw [← exists_pair_iff hsurvivors (fun _ _ => Noted.symm), ← hpairs, ← hversions]
  simp only [resolve, statusOf_none, List.map_eq_nil_iff, List.append_eq_nil_iff]

end Report

end ConflictResolver

end AgenticRag
