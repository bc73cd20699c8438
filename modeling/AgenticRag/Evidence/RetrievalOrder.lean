import AgenticRag.Evidence.PairwiseRules

/-!
# The order of the evidence

The version rule keeps the last of the newest items of a document id, so the order of the
evidence decides among those that tie. Nothing else in `resolve` depends on the order: its
verdict is the same for every order exactly when it is the same for every choice among
the tied items.
-/

namespace AgenticRag

namespace ConflictResolver

open Evidence

/-- One newest item for each document id the version rule decides. -/
def Represents (scope : TemporalScope) (evs : List Evidence) (chosen : String → Option Evidence) :
    Prop :=
  ∀ documentId, Decides scope evs documentId → ∃ newest ∈ groupOf evs documentId,
    chosen documentId = some newest ∧ ∀ ev ∈ groupOf evs documentId, ev.NoNewer newest

/-- What is left when the version rule keeps the chosen items. -/
def Represented (scope : TemporalScope) (evs : List Evidence) (chosen : String → Option Evidence)
    (ev : Evidence) : Prop :=
  ev ∈ evs ∧ (Decides scope evs ev.documentId → chosen ev.documentId = some ev)

section Verdict

variable (self : ConflictResolver) (scope : TemporalScope) (left : Evidence → Prop)

def ClashAmong : Prop := ∃ a, left a ∧ ∃ b, left b ∧ a ≠ b ∧ self.Clashes scope a b

/-- The item is left and none of the others overrides it. -/
def StandsAmong (ev : Evidence) : Prop := left ev ∧ ∀ high, left high → ¬self.Overrides scope high ev

end Verdict

/-- Whichever of the tied newest items are chosen, the items left clash or not alike, and
the same ones stand. -/
def TiesImmaterial (self : ConflictResolver) (scope : TemporalScope) (evs : List Evidence) : Prop :=
  ∀ chosen chosen', Represents scope evs chosen → Represents scope evs chosen' →
    ((∃ documentId, GuardHolds scope evs documentId) ∨
        self.ClashAmong scope (Represented scope evs chosen) ↔
      (∃ documentId, GuardHolds scope evs documentId) ∨
        self.ClashAmong scope (Represented scope evs chosen')) ∧
    ∀ ev ∈ evs, self.StandsAmong scope (Represented scope evs chosen) ev ↔
      self.StandsAmong scope (Represented scope evs chosen') ev

/-- The status and the resolved ids of a report do not depend on the order. -/
def OrderIndependent (self : ConflictResolver) (scope : TemporalScope) (evs : List Evidence) : Prop :=
  ∀ evs', evs'.Perm evs → ∀ topicKey,
    (self.resolve evs' scope topicKey).conflictStatus =
        (self.resolve evs scope topicKey).conflictStatus ∧
      ∀ evidenceId, evidenceId ∈ (self.resolve evs' scope topicKey).resolvedEvidenceIds ↔
        evidenceId ∈ (self.resolve evs scope topicKey).resolvedEvidenceIds

section Permutation

variable {scope : TemporalScope} {evs evs' : List Evidence}

theorem groupOf_perm (h : evs'.Perm evs) (documentId : String) :
    (groupOf evs' documentId).Perm (groupOf evs documentId) := h.filter _

theorem two_le_versionCount_perm {group group' : List Evidence} (h : group'.Perm group) :
    2 ≤ versionCount group' ↔ 2 ≤ versionCount group := by
  simp only [two_le_versionCount, h.mem_iff]

/-- With several versions the guard asks for a temporary and a permanent one. -/
theorem guardsGroup_iff {group : List Evidence} (h : 2 ≤ versionCount group) :
    guardsGroup scope group = true ↔ (∃ ev ∈ group, ev.effectiveTo.isSome = true) ∧
      (∃ ev ∈ group, ev.effectiveTo.isNone = true) ∧ scope.effectiveNow = true := by
  simp only [guardsGroup, valuesDiffer_of_versions h, Bool.and_true, Bool.and_eq_true,
    List.any_eq_true, and_assoc]

theorem guardsGroup_perm {group group' : List Evidence} (h : group'.Perm group)
    (hcount : 2 ≤ versionCount group) : guardsGroup scope group' = guardsGroup scope group := by
  have hcount' := (two_le_versionCount_perm h).mpr hcount
  rw [Bool.eq_iff_iff, guardsGroup_iff hcount, guardsGroup_iff hcount']
  simp only [h.mem_iff]

theorem decides_perm (h : evs'.Perm evs) (documentId : String) :
    Decides scope evs' documentId ↔ Decides scope evs documentId := by
  have hgroup := groupOf_perm h documentId
  unfold Decides
  rw [two_le_versionCount_perm hgroup]
  exact and_congr_right fun hcount => by rw [guardsGroup_perm hgroup hcount]

theorem guardHolds_perm (h : evs'.Perm evs) (documentId : String) :
    GuardHolds scope evs' documentId ↔ GuardHolds scope evs documentId := by
  have hgroup := groupOf_perm h documentId
  unfold GuardHolds
  rw [two_le_versionCount_perm hgroup]
  exact and_congr_right fun hcount => by rw [guardsGroup_perm hgroup hcount]

/-- The choice that the order of the evidence makes. -/
def lastNewest (evs : List Evidence) (documentId : String) : Option Evidence :=
  (ordered (groupOf evs documentId)).getLast?

theorem lastNewest_represents (h : evs'.Perm evs) : Represents scope evs (lastNewest evs') := by
  intro documentId hdecides
  have hgroup := groupOf_perm h documentId
  obtain ⟨winner, hwinner, hlast, -, hnewest⟩ :=
    ordered_split ((decides_perm h documentId).mpr hdecides).group_ne_nil
  exact ⟨winner, hgroup.mem_iff.mp hwinner, hlast, fun ev hev => hnewest ev (hgroup.mem_iff.mpr hev)⟩

/-- An item survives unless its group has another winner. -/
theorem mem_survivors (hids : DistinctIds evs) {ev : Evidence} :
    ev ∈ survivors scope evs ↔ Represented scope evs (lastNewest evs) ev := by
  simp only [survivors, List.mem_filter, decide_eq_true_eq, Represented, mem_versionDropped]
  apply and_congr_right
  intro hev
  have hgroup : ev ∈ groupOf evs ev.documentId := mem_groupOf.mpr ⟨hev, rfl⟩
  have hperm : (ordered (groupOf evs ev.documentId)).Perm (groupOf evs ev.documentId) :=
    List.perm_insertionSort _ _
  have hnodup : (ordered (groupOf evs ev.documentId)).Nodup :=
    hperm.nodup_iff.mpr (hids.nodup.filter _)
  constructor
  · intro hleft hdecides
    obtain ⟨winner, -, hlast, hsplit, -⟩ := ordered_split hdecides.group_ne_nil
    have hmem := hperm.mem_iff.mpr hgroup
    rw [hsplit] at hmem
    obtain hloser | hwinner := List.mem_append.mp hmem
    · exact absurd ⟨ev.documentId, hdecides, ev, hloser, rfl⟩ hleft
    · exact hlast.trans (congrArg some (List.mem_singleton.mp hwinner).symm)
  · rintro hwins ⟨documentId, hdecides, loser, hloser, hid⟩
    have hmem : loser ∈ groupOf evs documentId :=
      (List.perm_insertionSort _ _).mem_iff.mp (List.dropLast_subset _ hloser)
    obtain ⟨hloserevs, hdoc⟩ := mem_groupOf.mp hmem
    obtain rfl := hids.eq hloserevs hev hid
    subst hdoc
    obtain ⟨winner, -, hlast, hsplit, -⟩ := ordered_split hdecides.group_ne_nil
    have hsame : winner = loser := by
      have hchosen := hwins hdecides
      unfold lastNewest at hchosen
      rw [hlast] at hchosen
      exact Option.some.inj hchosen
    rw [hsplit, List.nodup_append] at hnodup
    exact hnodup.2.2 loser hloser winner List.mem_cons_self hsame.symm

/-- The survivors of any order are those of its choice. -/
theorem mem_survivors_perm (hids : DistinctIds evs) (h : evs'.Perm evs) {ev : Evidence} :
    ev ∈ survivors scope evs' ↔ Represented scope evs (lastNewest evs') ev := by
  rw [mem_survivors (hids.perm h), Represented, Represented, h.mem_iff, decides_perm h]

end Permutation

section Realize

variable {scope : TemporalScope} {evs : List Evidence}

/-- Sorting leaves an item last that was last and is not older than any other. -/
theorem orderedInsert_concat (ev last : Evidence) (h : ev.NoNewer last) (l : List Evidence) :
    ∃ l', List.orderedInsert NoNewer ev (l ++ [last]) = l' ++ [last] := by
  induction l with
  | nil => exact ⟨[ev], by simp [h]⟩
  | cons b l ih =>
    obtain ⟨l', hl'⟩ := ih
    by_cases hb : ev.NoNewer b
    · exact ⟨ev :: b :: l, by simp [hb]⟩
    · exact ⟨b :: l', by simp [hb, hl']⟩

theorem ordered_concat (last : Evidence) (l : List Evidence) (h : ∀ ev ∈ l, ev.NoNewer last) :
    (ordered (l ++ [last])).getLast? = some last := by
  have hconcat : ∃ l', ordered (l ++ [last]) = l' ++ [last] := by
    induction l with
    | nil => exact ⟨[], rfl⟩
    | cons ev l ih =>
      obtain ⟨l', hl'⟩ := ih fun other hother => h other (List.mem_cons_of_mem _ hother)
      unfold ordered at hl' ⊢
      rw [List.cons_append, List.insertionSort_cons, hl']
      exact orderedInsert_concat ev last (h ev List.mem_cons_self) l'
  obtain ⟨l', hl'⟩ := hconcat
  rw [hl']
  exact List.getLast?_concat

theorem eq_singleton {α : Type} {l : List α} {a : α} (hnodup : l.Nodup) (hmem : a ∈ l)
    (h : ∀ b ∈ l, b = a) : l = [a] := by
  match l with
  | [] => exact absurd hmem List.not_mem_nil
  | [b] => rw [h b List.mem_cons_self]
  | b :: c :: l =>
    have hsame : b = c := (h b (by simp)).trans (h c (by simp)).symm
    simp [hsame] at hnodup

/-- The evidence with the chosen items at the end. -/
def chosenLast (chosen : String → Option Evidence) (evs : List Evidence) : List Evidence :=
  (evs.filter fun ev => decide (chosen ev.documentId ≠ some ev)) ++
    evs.filter fun ev => !decide (chosen ev.documentId ≠ some ev)

theorem chosenLast_perm (chosen : String → Option Evidence) : (chosenLast chosen evs).Perm evs :=
  List.filter_append_perm _ _

/-- Every choice among the tied items is made by some order. -/
theorem lastNewest_chosenLast (hids : DistinctIds evs) {chosen : String → Option Evidence}
    (hchosen : Represents scope evs chosen) {documentId : String}
    (hdecides : Decides scope evs documentId) :
    lastNewest (chosenLast chosen evs) documentId = chosen documentId := by
  obtain ⟨newest, hmem, hsome, hnewest⟩ := hchosen documentId hdecides
  obtain ⟨hevs, hdoc⟩ := mem_groupOf.mp hmem
  have hsecond : groupOf (evs.filter fun ev => !decide (chosen ev.documentId ≠ some ev)) documentId =
      [newest] := by
    have hnodup : (groupOf (evs.filter fun ev => !decide (chosen ev.documentId ≠ some ev))
        documentId).Nodup := (hids.nodup.filter _).filter _
    apply eq_singleton hnodup
    · rw [mem_groupOf, List.mem_filter]
      exact ⟨⟨hevs, by simp [hdoc, hsome]⟩, hdoc⟩
    · intro ev hev
      rw [mem_groupOf, List.mem_filter] at hev
      obtain ⟨⟨-, hev⟩, hevdoc⟩ := hev
      rw [hevdoc, hsome] at hev
      simpa [eq_comm] using hev
  unfold lastNewest chosenLast groupOf
  rw [List.filter_append]
  change (ordered (groupOf _ documentId ++ groupOf _ documentId)).getLast? = _
  rw [hsecond, hsome]
  apply ordered_concat
  intro ev hev
  obtain ⟨hev, hevdoc⟩ := mem_groupOf.mp hev
  exact hnewest ev (mem_groupOf.mpr ⟨List.mem_of_mem_filter hev, hevdoc⟩)

theorem represented_chosenLast (hids : DistinctIds evs) {chosen : String → Option Evidence}
    (hchosen : Represents scope evs chosen) (ev : Evidence) :
    Represented scope evs (lastNewest (chosenLast chosen evs)) ev ↔
      Represented scope evs chosen ev := by
  unfold Represented
  apply and_congr_right
  intro _
  exact forall_congr' fun hdecides => by rw [lastNewest_chosenLast hids hchosen hdecides]

end Realize

section Order

variable (self : ConflictResolver) {scope : TemporalScope} {evs evs' : List Evidence}

theorem contradicted_perm (hids : DistinctIds evs) (h : evs'.Perm evs) (topicKey : String) :
    (self.resolve evs' scope topicKey).conflictStatus = .contradicted ↔
      (∃ documentId, GuardHolds scope evs documentId) ∨
        self.ClashAmong scope (Represented scope evs (lastNewest evs')) := by
  rw [self.contradicted_iff (hids.perm h)]
  simp only [guardHolds_perm h, ClashAmong, mem_survivors_perm hids h]

theorem none_perm (hids : DistinctIds evs) (h : evs'.Perm evs) (topicKey : String) :
    (self.resolve evs' scope topicKey).conflictStatus = .none ↔
      (self.resolve evs scope topicKey).conflictStatus = .none := by
  rw [self.none_iff (hids.perm h), self.none_iff hids]
  have hcounts : (∀ documentId, versionCount (groupOf evs' documentId) < 2) ↔
      ∀ documentId, versionCount (groupOf evs documentId) < 2 := by
    simp only [← not_le, two_le_versionCount_perm (groupOf_perm h _)]
  rw [hcounts]
  apply and_congr_right
  intro hsingle
  -- without a second version nothing is dropped
  have hall : ∀ chosen ev, Represented scope evs chosen ev ↔ ev ∈ evs := by
    intro chosen ev
    exact and_iff_left fun hdecides => absurd hdecides.1 (not_le.mpr (hsingle _))
  simp only [mem_survivors_perm hids h, mem_survivors hids, hall]

theorem resolved_perm (hmargin : 0 < self.authorityMargin) (hids : DistinctIds evs)
    (h : evs'.Perm evs) (topicKey : String) {evidenceId : String} :
    evidenceId ∈ (self.resolve evs' scope topicKey).resolvedEvidenceIds ↔
      ∃ ev, self.StandsAmong scope (Represented scope evs (lastNewest evs')) ev ∧
        ev.evidenceId = evidenceId := by
  rw [self.mem_resolvedEvidenceIds hmargin (hids.perm h)]
  simp only [Kept, StandsAmong, mem_survivors_perm hids h]

/-- The report of distinct evidence is the same in every order exactly when it is the same for every choice
among the newest items of a document id. The authority margin is positive, as the constructor's default. -/
theorem order_independent_iff (hmargin : 0 < self.authorityMargin) (hids : DistinctIds evs) :
    self.OrderIndependent scope evs ↔ self.TiesImmaterial scope evs := by
  constructor
  · intro hindependent chosen chosen' hchosen hchosen'
    have hleft : Represented scope evs (lastNewest (chosenLast chosen evs)) =
        Represented scope evs chosen :=
      funext fun ev => propext (represented_chosenLast hids hchosen ev)
    have hleft' : Represented scope evs (lastNewest (chosenLast chosen' evs)) =
        Represented scope evs chosen' :=
      funext fun ev => propext (represented_chosenLast hids hchosen' ev)
    obtain ⟨hstatus, hresolved⟩ := hindependent _ (chosenLast_perm chosen) ""
    obtain ⟨hstatus', hresolved'⟩ := hindependent _ (chosenLast_perm chosen') ""
    constructor
    · rw [← hleft, ← hleft', ← self.contradicted_perm hids (chosenLast_perm chosen) "",
        ← self.contradicted_perm hids (chosenLast_perm chosen') "", hstatus, hstatus']
    · intro ev hev
      have hstands : ∀ chosen, self.StandsAmong scope (Represented scope evs chosen) ev ↔
          ∃ other, self.StandsAmong scope (Represented scope evs chosen) other ∧
            other.evidenceId = ev.evidenceId := by
        intro chosen
        constructor
        · intro h
          exact ⟨ev, h, rfl⟩
        · rintro ⟨other, h, hid⟩
          exact hids.eq h.1.1 hev hid ▸ h
      rw [hstands chosen, hstands chosen', ← hleft, ← hleft',
        ← self.resolved_perm hmargin hids (chosenLast_perm chosen) "",
        ← self.resolved_perm hmargin hids (chosenLast_perm chosen') "", hresolved, hresolved']
  · intro hties evs' hperm topicKey
    obtain ⟨hclash, hstands⟩ := hties _ _ (lastNewest_represents hperm)
      (lastNewest_represents (List.Perm.refl evs))
    constructor
    · have hcontradicted : (self.resolve evs' scope topicKey).conflictStatus = .contradicted ↔
          (self.resolve evs scope topicKey).conflictStatus = .contradicted := by
        rw [self.contradicted_perm hids hperm, self.contradicted_perm hids (List.Perm.refl evs)]
        exact hclash
      have hnone : (self.resolve evs' scope topicKey).conflictStatus = .none ↔
          (self.resolve evs scope topicKey).conflictStatus = .none :=
        self.none_perm hids hperm topicKey
      cases hstatus : (self.resolve evs scope topicKey).conflictStatus with
      | none => exact hnone.mpr hstatus
      | contradicted => exact hcontradicted.mpr hstatus
      | resolved =>
        cases hstatus' : (self.resolve evs' scope topicKey).conflictStatus with
        | resolved => rfl
        | none => exact absurd (hnone.mp hstatus') (by simp [hstatus])
        | contradicted => exact absurd (hcontradicted.mp hstatus') (by simp [hstatus])
    · intro evidenceId
      rw [self.resolved_perm hmargin hids hperm,
        self.resolved_perm hmargin hids (List.Perm.refl evs)]
      constructor
      · rintro ⟨ev, hev, hid⟩
        exact ⟨ev, (hstands ev hev.1.1).mp hev, hid⟩
      · rintro ⟨ev, hev, hid⟩
        exact ⟨ev, (hstands ev hev.1.1).mpr hev, hid⟩

/-- Without ties there is nothing to choose. -/
theorem tiesImmaterial_of_unique (h : ∀ documentId, Decides scope evs documentId →
    ∀ a ∈ groupOf evs documentId, ∀ b ∈ groupOf evs documentId,
      a.NoNewer b → b.NoNewer a → a = b) : self.TiesImmaterial scope evs := by
  intro chosen chosen' hchosen hchosen'
  have hsame : Represented scope evs chosen = Represented scope evs chosen' := by
    funext ev
    apply propext
    apply and_congr_right
    intro _
    apply forall_congr'
    intro hdecides
    obtain ⟨a, ha, hsome, hnewest⟩ := hchosen _ hdecides
    obtain ⟨b, hb, hsome', hnewest'⟩ := hchosen' _ hdecides
    rw [hsome, hsome', h _ hdecides a ha b hb (hnewest' a ha) (hnewest b hb)]
  rw [hsame]
  exact ⟨Iff.rfl, fun _ _ => Iff.rfl⟩

end Order

open Sample in
/-- One chunk for each version: the order of the two does not matter. -/
theorem order_independent_versions : resolver.OrderIndependent .current
    [statement "e1" "travel" "v1" "" 50, statement "e2" "travel" "v2" "" 50] := by
  refine (resolver.order_independent_iff (by decide) (by decide)).mpr
    (resolver.tiesImmaterial_of_unique ?_)
  intro documentId _ a ha b hb hab hba
  have hversion := hab.sameVersion hba
  have ha' := (mem_groupOf.mp ha).1
  have hb' := (mem_groupOf.mp hb).1
  simp only [List.mem_cons, List.not_mem_nil, or_false] at ha' hb'
  obtain rfl | rfl := ha' <;> obtain rfl | rfl := hb' <;> first | rfl | simp [statement] at hversion

open Sample in
/-- Two chunks of the newest version: the one that comes last is kept. -/
theorem order_independent_counterexample : ¬resolver.OrderIndependent .current
    [statement "e1" "travel" "v1" "" 50, statement "e2" "travel" "v2" "" 50,
      statement "e3" "travel" "v2" "" 50] := by
  intro h
  obtain ⟨-, hresolved⟩ := h
    [statement "e1" "travel" "v1" "" 50, statement "e3" "travel" "v2" "" 50,
      statement "e2" "travel" "v2" "" 50] (by decide) ""
  exact absurd ((hresolved "e2").mp (by decide)) (by decide)

end ConflictResolver

end AgenticRag
