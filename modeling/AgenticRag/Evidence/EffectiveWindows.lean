import AgenticRag.Evidence.AuthorityRule

/-!
# Conflicts and effective windows

The resolver never compares the effective windows of two items. Where the temporal filter
has asked for one instant, all retained windows contain it. A range, or a date that is
missing, retains windows that are disjoint, and then a conflict is reported of statements
that were never valid together.
-/

namespace AgenticRag

/-- The filter has one instant to go by. -/
def TemporalScope.Anchored : TemporalScope → Prop
  | .current | .unspecified | .asOf (some _) => True
  | .asOf none | .range _ _ => False

namespace Evidence

/-- Some instant is in both effective windows. -/
def Overlap (a b : Evidence) : Prop := ∃ instant, a.inForceAt instant = true ∧ b.inForceAt instant = true

theorem Overlap.symm {a b : Evidence} (h : Overlap a b) : Overlap b a := by
  obtain ⟨instant, ha, hb⟩ := h
  exact ⟨instant, hb, ha⟩

/-- Both state a value, and not the same one. -/
def DifferentValues (a b : Evidence) : Prop :=
  a.assertion.isStructured = true ∧ b.assertion.isStructured = true ∧
    a.assertion.value ≠ b.assertion.value

def LastOfNewest (evs : List Evidence) (ev : Evidence) : Prop :=
  ∃ before after, ConflictResolver.groupOf evs ev.documentId = before ++ ev :: after ∧
    (∀ other ∈ before, other.NoNewer ev) ∧ ∀ other ∈ after, ¬ev.NoNewer other

end Evidence

theorem filterByTemporalScope_anchored (now : Datetime) (evidence : List Evidence)
    {scope : TemporalScope} (h : scope.Anchored) :
    ∃ instant, ∀ ev ∈ filterByTemporalScope now evidence scope, ev.inForceAt instant = true := by
  cases scope with
  | current =>
    refine ⟨now.naiveUtc, fun ev hev => ?_⟩
    simp only [filterByTemporalScope, List.mem_filter, Bool.and_eq_true] at hev
    exact hev.2.2
  | unspecified =>
    refine ⟨now.naiveUtc, fun ev hev => ?_⟩
    simp only [filterByTemporalScope, List.mem_filter, Bool.and_eq_true] at hev
    exact hev.2.2
  | asOf date =>
    cases date with
    | none => exact absurd h id
    | some date =>
      refine ⟨date.naiveUtc, fun ev hev => ?_⟩
      simp only [filterByTemporalScope, List.mem_filter] at hev
      exact hev.2
  | range start finish => exact absurd h id

namespace ConflictResolver

open Evidence

section LastWins

/-- An item newer than all of a list goes to its end. -/
theorem orderedInsert_newer (ev : Evidence) (l : List Evidence) (h : ∀ other ∈ l, ¬ev.NoNewer other) :
    List.orderedInsert NoNewer ev l = l ++ [ev] := by
  induction l with
  | nil => rfl
  | cons b l ih =>
    rw [List.orderedInsert_of_not_le _ _ (h b List.mem_cons_self),
      ih fun other hother => h other (List.mem_cons_of_mem _ hother), List.cons_append]

/-- The last item of a sorted group is the last of the newest ones. -/
theorem ordered_last (group : List Evidence) (hne : group ≠ []) :
    ∃ before last after, group = before ++ last :: after ∧ (∀ other ∈ before, other.NoNewer last) ∧
      (∀ other ∈ after, ¬last.NoNewer other) ∧ ∃ l, ordered group = l ++ [last] := by
  induction group with
  | nil => exact absurd rfl hne
  | cons ev group ih =>
    by_cases hgroup : group = []
    · subst hgroup
      exact ⟨[], ev, [], rfl, by simp, by simp, [], rfl⟩
    · obtain ⟨before, last, after, hsplit, hbefore, hafter, l, hl⟩ := ih hgroup
      have hinsert : ordered (ev :: group) = List.orderedInsert NoNewer ev (l ++ [last]) :=
        hl ▸ List.insertionSort_cons ..
      by_cases hev : ev.NoNewer last
      · obtain ⟨l', hl'⟩ := orderedInsert_concat ev last hev l
        refine ⟨ev :: before, last, after, by rw [hsplit, List.cons_append], ?_, hafter, l', ?_⟩
        · intro other hother
          obtain rfl | hother := List.mem_cons.mp hother
          · exact hev
          · exact hbefore other hother
        · rw [hinsert, hl']
      · have hnewest : ∀ other ∈ group, other.NoNewer last := by
          intro other hother
          rw [hsplit] at hother
          obtain hother | hother := List.mem_append.mp hother
          · exact hbefore other hother
          · obtain rfl | hother := List.mem_cons.mp hother
            · exact NoNewer.refl _
            · exact (NoNewer.total other last).resolve_right (hafter other hother)
        have hnewer : ∀ other ∈ group, ¬ev.NoNewer other :=
          fun other hother h => hev (h.trans (hnewest other hother))
        have hperm : (l ++ [last]).Perm group := hl ▸ List.perm_insertionSort _ _
        refine ⟨[], ev, group, rfl, by simp, hnewer, l ++ [last], ?_⟩
        rw [hinsert, orderedInsert_newer ev _ fun other hother => hnewer other (hperm.mem_iff.mp hother)]

/-- The order of the evidence chooses the last of the newest items. -/
theorem lastNewest_iff {evs : List Evidence} {ev : Evidence} :
    lastNewest evs ev.documentId = some ev ↔ LastOfNewest evs ev := by
  constructor
  · intro h
    have hne : groupOf evs ev.documentId ≠ [] := by
      intro hnil
      simp [lastNewest, hnil, ordered] at h
    obtain ⟨before, last, after, hsplit, hbefore, hafter, l, hl⟩ := ordered_last _ hne
    unfold lastNewest at h
    rw [hl, List.getLast?_concat, Option.some.injEq] at h
    subst h
    exact ⟨before, after, hsplit, hbefore, hafter⟩
  · rintro ⟨before, after, hsplit, hbefore, hafter⟩
    obtain ⟨before', last, after', hsplit', hbefore', hafter', l, hl⟩ :=
      ordered_last (groupOf evs ev.documentId) (by simp [hsplit])
    unfold lastNewest
    rw [hl, List.getLast?_concat, Option.some.injEq]
    -- the two splits of the group are the same one
    rw [hsplit] at hsplit'
    obtain ⟨common, hcommon, hrest⟩ | ⟨common, hcommon, hrest⟩ :=
      List.append_eq_append_iff.mp hsplit'
    · cases common with
      | nil =>
        simp only [List.nil_append, List.cons.injEq] at hrest
        exact hrest.1.symm
      | cons c common =>
        simp only [List.cons_append, List.cons.injEq] at hrest
        obtain ⟨rfl, rfl⟩ := hrest
        exact absurd (hbefore' ev (by simp [hcommon])) (hafter last (by simp))
    · cases common with
      | nil =>
        simp only [List.nil_append, List.cons.injEq] at hrest
        exact hrest.1
      | cons c common =>
        simp only [List.cons_append, List.cons.injEq] at hrest
        obtain ⟨rfl, rfl⟩ := hrest
        exact absurd (hbefore last (by simp [hcommon])) (hafter' ev (by simp))

end LastWins

/-- The version rule leaves the item. -/
def Left (scope : TemporalScope) (evs : List Evidence) (ev : Evidence) : Prop :=
  ev ∈ evs ∧ (Decides scope evs ev.documentId → LastOfNewest evs ev)

theorem mem_survivors_iff_left {scope : TemporalScope} {evs : List Evidence} (hids : DistinctIds evs)
    {ev : Evidence} : ev ∈ survivors scope evs ↔ Left scope evs ev := by
  rw [mem_survivors hids]
  simp only [Represented, lastNewest_iff, Left]

/-- A value or time conflict is found of items with different values only if their windows
overlap. -/
def ConflictsOverlap (self : ConflictResolver) (scope : TemporalScope) (topicKey : String)
    (evs : List Evidence) : Prop :=
  ∀ finding ∈ (self.resolve evs scope topicKey).findings,
    finding.conflictType = .valueConflict ∨ finding.conflictType = .timeConflict →
    ∀ a ∈ evs, ∀ b ∈ evs, a.toSource ∈ finding.sources → b.toSource ∈ finding.sources →
      DifferentValues a b → Overlap a b

/-- The windows overlap of every two items that are compared and contradict each other, and of
every two different-valued items of a document id that the guard holds back. -/
def WindowsOverlap (scope : TemporalScope) (evs : List Evidence) : Prop :=
  (∀ a b, Left scope evs a → Left scope evs b → Compared a b → Contrary a.assertion b.assertion →
    Overlap a b) ∧
  ∀ documentId, GuardHolds scope evs documentId → ∀ a ∈ groupOf evs documentId,
    ∀ b ∈ groupOf evs documentId, DifferentValues a b → Overlap a b

section Windows

variable (self : ConflictResolver) {scope : TemporalScope} {evs : List Evidence}

theorem toSource_mem (hids : DistinctIds evs) {items : List Evidence} (hitems : ∀ ev ∈ items, ev ∈ evs)
    {ev : Evidence} (hev : ev ∈ evs) (h : ev.toSource ∈ items.map (·.toSource)) : ev ∈ items := by
  obtain ⟨item, hitem, hsource⟩ := List.mem_map.mp h
  have hid : item.evidenceId = ev.evidenceId := congrArg SourceRef.evidenceId hsource
  exact hids.eq (hitems item hitem) hev hid ▸ hitem

/-- A candidate that names two items with different values and disjoint windows. -/
def NamesDisjoint (evs : List Evidence) (c : Candidate) : Prop :=
  (c.conflictType = .valueConflict ∨ c.conflictType = .timeConflict) ∧
    ∃ a ∈ evs, ∃ b ∈ evs, a.toSource ∈ c.sources ∧ b.toSource ∈ c.sources ∧
      DifferentValues a b ∧ ¬Overlap a b

/-- In phase 1 only a guarded group is such a candidate. -/
theorem versionPhase_disjoint (hids : DistinctIds evs) :
    (∃ d ∈ versionPhase scope evs, NamesDisjoint evs d.candidate) ↔
      ∃ documentId, GuardHolds scope evs documentId ∧ ∃ a ∈ groupOf evs documentId,
        ∃ b ∈ groupOf evs documentId, DifferentValues a b ∧ ¬Overlap a b := by
  have hgroup : ∀ documentId, NamesDisjoint evs
      (resolveVersionGroup scope (groupOf evs documentId)).candidate ↔
      guardsGroup scope (groupOf evs documentId) = true ∧ ∃ a ∈ groupOf evs documentId,
        ∃ b ∈ groupOf evs documentId, DifferentValues a b ∧ ¬Overlap a b := by
    intro documentId
    have hsub : ∀ ev ∈ groupOf evs documentId, ev ∈ evs := fun ev hev => (mem_groupOf.mp hev).1
    unfold resolveVersionGroup
    cases guardsGroup scope (groupOf evs documentId)
    · simp [NamesDisjoint]
    · simp only [NamesDisjoint, if_true, reduceCtorEq, or_true, true_and]
      constructor
      · rintro ⟨a, ha, b, hb, hasource, hbsource, hdifferent⟩
        exact ⟨a, toSource_mem hids hsub ha hasource, b, toSource_mem hids hsub hb hbsource, hdifferent⟩
      · rintro ⟨a, ha, b, hb, hdifferent⟩
        exact ⟨a, hsub a ha, b, hsub b hb, List.mem_map_of_mem ha, List.mem_map_of_mem hb, hdifferent⟩
  constructor
  · rintro ⟨d, hd, hdisjoint⟩
    obtain ⟨group, hmem, rfl⟩ := List.mem_map.mp hd
    obtain ⟨hgroups, hcount⟩ := List.mem_filter.mp hmem
    obtain ⟨ev, -, rfl⟩ := mem_groupsByDocument.mp hgroups
    obtain ⟨hguard, hpair⟩ := (hgroup _).mp hdisjoint
    exact ⟨ev.documentId, ⟨by simpa using hcount, hguard⟩, hpair⟩
  · rintro ⟨documentId, hguard, a, ha, hpair⟩
    obtain ⟨hmem, hid⟩ := mem_groupOf.mp ha
    refine ⟨resolveVersionGroup scope (groupOf evs documentId), ?_,
      (hgroup documentId).mpr ⟨hguard.2, a, ha, hpair⟩⟩
    exact List.mem_map.mpr ⟨_, List.mem_filter.mpr
      ⟨mem_groupsByDocument.mpr ⟨a, hmem, by rw [hid]⟩, by simpa using hguard.1⟩, rfl⟩

/-- In phase 2 every pair that contradicts itself is a value or a time conflict. -/
theorem pairPhase_disjoint (hids : DistinctIds evs) :
    (∃ d ∈ self.pairPhase scope (survivors scope evs), NamesDisjoint evs d.candidate) ↔
      ∃ a ∈ survivors scope evs, ∃ b ∈ survivors scope evs, a ≠ b ∧
        Compared a b ∧ Contrary a.assertion b.assertion ∧ ¬Overlap a b := by
  have hsurvivors : DistinctIds (survivors scope evs) := hids.sublist survivors_sublist
  rw [← exists_pair_iff hsurvivors fun a b h =>
    ⟨h.1.symm, h.2.1.symm, fun hoverlap => h.2.2 hoverlap.symm⟩]
  constructor
  · rintro ⟨d, hd, htype, x, hx, y, hy, hxsource, hysource, hdifferent, hoverlap⟩
    obtain ⟨a, b, hsub, hcompared, hpair⟩ := (self.mem_pairPhase hsurvivors).mp hd
    have hcontrary : Contrary a.assertion b.assertion := by
      by_contra hcontrary
      rw [(self.resolvePair_not_contrary hcontrary hpair).1] at htype
      simp at htype
    have hmem : ∀ ev ∈ [a, b], ev ∈ evs := fun ev hev => survivors_sublist.subset (hsub.subset hev)
    rw [self.resolvePair_sources hpair] at hxsource hysource
    have hxpair : x ∈ [a, b] := toSource_mem hids hmem hx hxsource
    have hypair : y ∈ [a, b] := toSource_mem hids hmem hy hysource
    refine ⟨a, b, hsub, hcompared, hcontrary, fun h => hoverlap ?_⟩
    simp only [List.mem_cons, List.not_mem_nil, or_false] at hxpair hypair
    obtain rfl | rfl := hxpair
    · obtain rfl | rfl := hypair
      · exact absurd rfl hdifferent.2.2
      · exact h
    · obtain rfl | rfl := hypair
      · exact h.symm
      · exact absurd rfl hdifferent.2.2
  · rintro ⟨a, b, hsub, hcompared, hcontrary, hoverlap⟩
    obtain ⟨d, hd, hsources, hcases⟩ := self.resolvePair_contrary scope a b hcontrary
    have ha : a ∈ evs := survivors_sublist.subset (hsub.subset (by simp))
    have hb : b ∈ evs := survivors_sublist.subset (hsub.subset (by simp))
    refine ⟨d, (self.mem_pairPhase hsurvivors).mpr ⟨a, b, hsub, hcompared, hd⟩, ?_, a, ha, b, hb,
      by simp [hsources], by simp [hsources], ⟨hcontrary.1, hcontrary.2.1, hcontrary.2.2.2⟩, hoverlap⟩
    obtain ⟨-, htype, -⟩ | ⟨-, -, htype, -⟩ | ⟨-, -, htype, -⟩ := hcases
    · exact .inr htype
    · exact .inl htype
    · exact .inl htype

/-- For any evidence given to `resolve`. -/
theorem conflictsOverlap_iff (hids : DistinctIds evs) (topicKey : String) :
    self.ConflictsOverlap scope topicKey evs ↔ WindowsOverlap scope evs := by
  have hfinding : self.ConflictsOverlap scope topicKey evs ↔
      ¬∃ finding ∈ (self.resolve evs scope topicKey).findings,
        NamesDisjoint evs finding.toCandidate := by
    constructor
    · rintro h ⟨finding, hfinding, htype, a, ha, b, hb, hasource, hbsource, hdifferent, hoverlap⟩
      exact hoverlap (h finding hfinding htype a ha b hb hasource hbsource hdifferent)
    · intro h finding hfinding htype a ha b hb hasource hbsource hdifferent
      by_contra hoverlap
      exact h ⟨finding, hfinding, htype, a, ha, b, hb, hasource, hbsource, hdifferent, hoverlap⟩
  rw [hfinding, self.exists_finding_iff topicKey (NamesDisjoint evs), versionPhase_disjoint hids,
    self.pairPhase_disjoint hids, not_or]
  constructor
  · rintro ⟨hgroups, hpairs⟩
    constructor
    · intro a b ha hb hcompared hcontrary
      by_contra hoverlap
      refine hpairs ⟨a, (mem_survivors_iff_left hids).mpr ha, b, (mem_survivors_iff_left hids).mpr hb,
        fun heq => ?_, hcompared, hcontrary, hoverlap⟩
      exact hcontrary.2.2.2 (heq ▸ rfl)
    · intro documentId hguard a ha b hb hdifferent
      by_contra hoverlap
      exact hgroups ⟨documentId, hguard, a, ha, b, hb, hdifferent, hoverlap⟩
  · rintro ⟨hpairs, hgroups⟩
    constructor
    · rintro ⟨documentId, hguard, a, ha, b, hb, hdifferent, hoverlap⟩
      exact hoverlap (hgroups documentId hguard a ha b hb hdifferent)
    · rintro ⟨a, ha, b, hb, -, hcompared, hcontrary, hoverlap⟩
      exact hoverlap (hpairs a b ((mem_survivors_iff_left hids).mp ha)
        ((mem_survivors_iff_left hids).mp hb) hcompared hcontrary)

theorem windowsOverlap_of_instant {instant : Int} (h : ∀ ev ∈ evs, ev.inForceAt instant = true) :
    WindowsOverlap scope evs := by
  constructor
  · intro a b ha hb _ _
    exact ⟨instant, h a ha.1, h b hb.1⟩
  · intro documentId _ a ha b hb _
    exact ⟨instant, h a (mem_groupOf.mp ha).1, h b (mem_groupOf.mp hb).1⟩

/-- Of retained evidence the conflicts are between overlapping windows exactly when the
windows overlap of the items that are compared and contradict each other. That is always
so for `current`, `unspecified` and an `as_of` with a date. -/
theorem conflicts_overlap_iff (now : Datetime) (evidence : List Evidence) (scope : TemporalScope)
    (topicKey : String) (hids : DistinctIds evidence) :
    (self.ConflictsOverlap scope topicKey (filterByTemporalScope now evidence scope) ↔
      WindowsOverlap scope (filterByTemporalScope now evidence scope)) ∧
    (scope.Anchored → WindowsOverlap scope (filterByTemporalScope now evidence scope)) := by
  constructor
  · exact self.conflictsOverlap_iff
      (hids.sublist (filterByTemporalScope_sublist now evidence scope)) topicKey
  · intro hanchored
    obtain ⟨instant, hinstant⟩ := filterByTemporalScope_anchored now evidence hanchored
    exact windowsOverlap_of_instant hinstant

end Windows

namespace Periods

open Sample

/-- A value of January and another one of March. -/
def january : Evidence :=
  { statement "e1" "travel" "v1" "timeout: 1" 40 with
    effectiveFrom := some ⟨1735689600000000, none⟩
    effectiveTo := some ⟨1738281600000000, none⟩ }

def march : Evidence :=
  { statement "e2" "memo" "v1" "timeout: 2" 40 with
    effectiveFrom := some ⟨1740787200000000, none⟩
    effectiveTo := some ⟨1743379200000000, none⟩ }

/-- A value of the first quarter. -/
def quarter : Evidence :=
  { statement "e3" "policy" "v1" "timeout: 3" 40 with
    effectiveFrom := some ⟨1735689600000000, none⟩
    effectiveTo := some ⟨1743379200000000, none⟩ }

def year : TemporalScope := .range (some ⟨1735689600000000, none⟩) (some ⟨1767139200000000, none⟩)

end Periods

open Sample Periods in
/-- In January its value contradicts that of the quarter, and both are in force. -/
theorem conflicts_overlap_current :
    filterByTemporalScope ⟨1736000000000000, none⟩ [january, march, quarter] .current = [january, quarter] ∧
      (∃ finding ∈ (resolver.resolve [january, quarter] .current "timeout").findings,
        finding.conflictType = .valueConflict ∧ january.toSource ∈ finding.sources ∧
          quarter.toSource ∈ finding.sources) ∧
      resolver.ConflictsOverlap .current "timeout" [january, quarter] := by
  have hretained : filterByTemporalScope ⟨1736000000000000, none⟩ [january, march, quarter] .current =
      [january, quarter] := by decide
  have h := resolver.conflicts_overlap_iff ⟨1736000000000000, none⟩ [january, march, quarter] .current
    "timeout" (by decide)
  refine ⟨hretained, by decide, ?_⟩
  exact hretained ▸ h.1.mpr (h.2 trivial)

open Sample Periods in
/-- A question about the year reports the two values as a contradiction. -/
theorem conflicts_overlap_counterexample :
    ¬resolver.ConflictsOverlap year "timeout"
      (filterByTemporalScope ⟨1736000000000000, none⟩ [january, march] year) := by
  have hretained : filterByTemporalScope ⟨1736000000000000, none⟩ [january, march] year =
      [january, march] := by decide
  rw [hretained]
  intro h
  obtain ⟨finding, hfinding, htype, hfirst, hsecond⟩ : ∃ finding ∈
      (resolver.resolve [january, march] year "timeout").findings,
      finding.conflictType = .valueConflict ∧ january.toSource ∈ finding.sources ∧
        march.toSource ∈ finding.sources := by decide
  obtain ⟨instant, hjanuary, hmarch⟩ := h finding hfinding (.inl htype) january (by simp) march
    (by simp) hfirst hsecond (by unfold DifferentValues; decide)
  simp only [inForceAt, january, march, statement, Datetime.naiveUtc, Bool.and_eq_true,
    decide_eq_true_eq, Option.mem_def, Option.some.injEq, forall_eq', Option.getD_none] at hjanuary hmarch
  omega

end ConflictResolver

end AgenticRag
