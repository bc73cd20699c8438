import AgenticRag.Evidence.ConflictResolver

/-!
# The version rule of the conflict resolver

Phase 1 groups by the document id alone and keeps one item of a group. What it drops is
of an older version exactly when the newest version of each such document id has one
item, from one corpus.
-/

namespace AgenticRag

namespace Evidence

theorem NoNewer.total (a b : Evidence) : a.NoNewer b ∨ b.NoNewer a := by
  unfold NoNewer
  obtain h | h | h := lt_trichotomy a.startOrMin b.startOrMin
  · exact .inl (.inl h)
  · obtain hversion | hversion := String.le_total a.documentVersion b.documentVersion
    · exact .inl (.inr ⟨h, hversion⟩)
    · exact .inr (.inr ⟨h.symm, hversion⟩)
  · exact .inr (.inl h)

theorem NoNewer.refl (a : Evidence) : a.NoNewer a := .inr ⟨rfl, String.le_refl _⟩

theorem NoNewer.trans {a b c : Evidence} (h : a.NoNewer b) (h' : b.NoNewer c) : a.NoNewer c := by
  obtain hlt | ⟨heq, hle⟩ := h
  · obtain hlt' | ⟨heq', -⟩ := h'
    · exact .inl (hlt.trans hlt')
    · exact .inl (heq' ▸ hlt)
  · obtain hlt' | ⟨heq', hle'⟩ := h'
    · exact .inl (heq ▸ hlt')
    · exact .inr ⟨heq.trans heq', String.le_trans hle hle'⟩

instance : Std.Total NoNewer := ⟨NoNewer.total⟩

instance : IsTrans Evidence NoNewer := ⟨fun _ _ _ => NoNewer.trans⟩

/-- Items that tie are of one version. -/
theorem NoNewer.sameVersion {a b : Evidence} (h : a.NoNewer b) (h' : b.NoNewer a) :
    a.documentVersion = b.documentVersion := by
  obtain hlt | ⟨heq, hle⟩ := h
  · obtain hlt' | ⟨heq', -⟩ := h'
    · omega
    · omega
  · obtain hlt' | ⟨-, hle'⟩ := h'
    · omega
    · exact String.le_antisymm hle hle'

def SameDocument (a b : Evidence) : Prop :=
  a.tenantId = b.tenantId ∧ a.corpusId = b.corpusId ∧ a.documentId = b.documentId

instance : DecidableRel SameDocument := fun _ _ => inferInstanceAs (Decidable (_ ∧ _ ∧ _))

def Newest (evs : List Evidence) (ev : Evidence) : Prop :=
  ∀ other ∈ evs, other.SameDocument ev → other.NoNewer ev

instance (evs : List Evidence) (ev : Evidence) : Decidable (Newest evs ev) :=
  inferInstanceAs (Decidable (∀ other ∈ evs, other.SameDocument ev → other.NoNewer ev))

/-- The newest version of the item's own document is another one. -/
def Superseded (evs : List Evidence) (ev : Evidence) : Prop :=
  ∃ newest ∈ evs, newest.SameDocument ev ∧ Newest evs newest ∧
    newest.documentVersion ≠ ev.documentVersion

instance (evs : List Evidence) (ev : Evidence) : Decidable (Superseded evs ev) :=
  inferInstanceAs (Decidable (∃ newest ∈ evs, newest.SameDocument ev ∧ Newest evs newest ∧
    newest.documentVersion ≠ ev.documentVersion))

/-- A newest item is of the newest version. -/
theorem Newest.not_superseded {evs : List Evidence} {ev : Evidence} (hmem : ev ∈ evs)
    (h : Newest evs ev) : ¬Superseded evs ev := by
  rintro ⟨newest, hnewest, hsame, hnewer, hversion⟩
  have hsame' : ev.SameDocument newest := ⟨hsame.1.symm, hsame.2.1.symm, hsame.2.2.symm⟩
  exact hversion ((h newest hnewest hsame).sameVersion (hnewer ev hmem hsame'))

end Evidence

namespace ConflictResolver

open Evidence

section Groups

variable {scope : TemporalScope} {evs : List Evidence} {documentId : String}

theorem mem_groupOf {ev : Evidence} :
    ev ∈ groupOf evs documentId ↔ ev ∈ evs ∧ ev.documentId = documentId := by
  simp only [groupOf, List.mem_filter, decide_eq_true_eq]

theorem mem_groupsByDocument {group : List Evidence} : group ∈ groupsByDocument evs ↔
    ∃ ev ∈ evs, group = groupOf evs ev.documentId := by
  simp only [groupsByDocument, List.mem_map, List.mem_eraseDups]
  constructor
  · rintro ⟨_, ⟨ev, hev, rfl⟩, rfl⟩
    exact ⟨ev, hev, rfl⟩
  · rintro ⟨ev, hev, rfl⟩
    exact ⟨_, ⟨ev, hev, rfl⟩, rfl⟩

theorem two_le_versionCount {group : List Evidence} : 2 ≤ versionCount group ↔
    ∃ a ∈ group, ∃ b ∈ group, a.documentVersion ≠ b.documentVersion := by
  have hnodup := List.nodup_dedup (group.map (·.documentVersion))
  unfold versionCount
  constructor
  · intro h
    obtain ⟨v, v', rest, hversions⟩ : ∃ v v' rest,
        (group.map (·.documentVersion)).dedup = v :: v' :: rest := by
      generalize (group.map (·.documentVersion)).dedup = versions at h
      match versions, h with
      | v :: v' :: rest, _ => exact ⟨v, v', rest, rfl⟩
    have hmem : ∀ x ∈ [v, v'], ∃ ev ∈ group, ev.documentVersion = x := by
      intro x hx
      have hx' : x ∈ (group.map (·.documentVersion)).dedup := by
        rw [hversions]
        simp only [List.mem_cons, List.not_mem_nil, or_false] at hx ⊢
        tauto
      exact List.mem_map.mp (List.mem_dedup.mp hx')
    obtain ⟨a, ha, hav⟩ := hmem v (by simp)
    obtain ⟨b, hb, hbv⟩ := hmem v' (by simp)
    rw [hversions, List.nodup_cons] at hnodup
    refine ⟨a, ha, b, hb, fun h => hnodup.1 ?_⟩
    rw [← hav, h, hbv]
    exact List.mem_cons_self
  · rintro ⟨a, ha, b, hb, hne⟩
    have hsubset : [a.documentVersion, b.documentVersion] ⊆
        (group.map (·.documentVersion)).dedup := by
      intro x hx
      simp only [List.mem_cons, List.not_mem_nil, or_false] at hx
      obtain rfl | rfl := hx
      · exact List.mem_dedup.mpr (List.mem_map_of_mem ha)
      · exact List.mem_dedup.mpr (List.mem_map_of_mem hb)
    have hpair : [a.documentVersion, b.documentVersion].Nodup := by simpa using hne
    exact (List.subperm_of_subset hpair hsubset).length_le

/-- Different versions always count as different values. -/
theorem valuesDiffer_of_versions {group : List Evidence} (h : 2 ≤ versionCount group) :
    valuesDiffer group = true := by
  unfold valuesDiffer
  simp only [Bool.or_eq_true, decide_eq_true_eq]
  exact .inr h

end Groups

/-- The version rule decides a document id: it has several versions, and the guard does
not hold it back. -/
def Decides (scope : TemporalScope) (evs : List Evidence) (documentId : String) : Prop :=
  2 ≤ versionCount (groupOf evs documentId) ∧ guardsGroup scope (groupOf evs documentId) = false

instance (scope : TemporalScope) (evs : List Evidence) (documentId : String) :
    Decidable (Decides scope evs documentId) := inferInstanceAs (Decidable (_ ∧ _))

section Winner

variable {scope : TemporalScope} {evs : List Evidence} {documentId : String}

/-- The last item of the sorted group, and the rest. -/
theorem ordered_split {group : List Evidence} (h : group ≠ []) :
    ∃ winner ∈ group, (ordered group).getLast? = some winner ∧
      ordered group = (ordered group).dropLast ++ [winner] ∧
      ∀ ev ∈ group, ev.NoNewer winner := by
  have hperm : (ordered group).Perm group := List.perm_insertionSort _ _
  have hne : ordered group ≠ [] := fun hnil => h (List.Perm.nil_eq (hnil ▸ hperm)).symm
  have hsplit := List.dropLast_append_getLast hne
  have hsorted : (ordered group).Pairwise NoNewer := List.pairwise_insertionSort _ _
  refine ⟨(ordered group).getLast hne, hperm.mem_iff.mp (List.getLast_mem hne),
    List.getLast?_eq_some_getLast hne, hsplit.symm, ?_⟩
  intro ev hev
  have hmem : ev ∈ (ordered group).dropLast ++ [(ordered group).getLast hne] :=
    hsplit.symm ▸ hperm.mem_iff.mpr hev
  rw [← hsplit, List.pairwise_append] at hsorted
  obtain hloser | hwinner := List.mem_append.mp hmem
  · exact hsorted.2.2 ev hloser _ List.mem_cons_self
  · rw [List.mem_singleton.mp hwinner]
    exact NoNewer.refl _

theorem Decides.group_ne_nil (h : Decides scope evs documentId) : groupOf evs documentId ≠ [] := by
  intro hnil
  have hcount := h.1
  rw [hnil] at hcount
  simp [versionCount] at hcount

/-- What the version rule drops. -/
theorem mem_versionDropped {evidenceId : String} : evidenceId ∈ versionDropped scope evs ↔
    ∃ documentId, Decides scope evs documentId ∧
      ∃ loser ∈ (ordered (groupOf evs documentId)).dropLast, loser.evidenceId = evidenceId := by
  have hdrop : ∀ group, evidenceId ∈ (resolveVersionGroup scope group).drop ↔
      guardsGroup scope group = false ∧
        ∃ loser ∈ (ordered group).dropLast, loser.evidenceId = evidenceId := by
    intro group
    unfold resolveVersionGroup
    cases guardsGroup scope group
    · simp only [Bool.false_eq_true, if_false, List.mem_map, true_and]
    · simp
  simp only [versionDropped, versionPhase, List.mem_flatMap, List.mem_map, List.mem_filter,
    decide_eq_true_eq]
  constructor
  · rintro ⟨_, ⟨group, ⟨hgroup, hcount⟩, rfl⟩, hmem⟩
    obtain ⟨ev, -, rfl⟩ := mem_groupsByDocument.mp hgroup
    obtain ⟨hguard, hloser⟩ := (hdrop _).mp hmem
    exact ⟨ev.documentId, ⟨hcount, hguard⟩, hloser⟩
  · rintro ⟨documentId, hdecides, hloser⟩
    obtain ⟨ev, hev⟩ := List.exists_mem_of_ne_nil _ hdecides.group_ne_nil
    obtain ⟨hmem, hid⟩ := mem_groupOf.mp hev
    refine ⟨_, ⟨groupOf evs documentId, ⟨?_, hdecides.1⟩, rfl⟩, (hdrop _).mpr ⟨hdecides.2, hloser⟩⟩
    exact mem_groupsByDocument.mpr ⟨ev, hmem, by rw [hid]⟩

/-- The winner is of the newest version of its own document. -/
theorem winner_not_superseded {winner : Evidence} (hmem : winner ∈ groupOf evs documentId)
    (hnewest : ∀ ev ∈ groupOf evs documentId, ev.NoNewer winner) : ¬Superseded evs winner := by
  obtain ⟨hevs, hid⟩ := mem_groupOf.mp hmem
  apply Newest.not_superseded hevs
  intro other hother hsame
  exact hnewest other (mem_groupOf.mpr ⟨hother, hsame.2.2.trans hid⟩)

end Winner

/-- The version rule drops nothing that is of the newest version of its own document. -/
def DropsOlderOnly (scope : TemporalScope) (evs : List Evidence) : Prop :=
  ∀ ev ∈ evs, ev.evidenceId ∈ versionDropped scope evs → Superseded evs ev

/-- The version rule drops older versions only exactly when each document id it decides
has a single item of a newest version, and that item shares its evidence id with none of
the others. -/
theorem drops_older_only_iff (scope : TemporalScope) (evs : List Evidence) :
    DropsOlderOnly scope evs ↔
      ∀ documentId, Decides scope evs documentId →
        (groupOf evs documentId).Pairwise (fun a b => Superseded evs a ∨ Superseded evs b) ∧
        ∀ older ∈ groupOf evs documentId, Superseded evs older →
          ∀ ev ∈ evs, ev.evidenceId = older.evidenceId → Superseded evs ev := by
  have hsymm : ∀ a b, Superseded evs a ∨ Superseded evs b → Superseded evs b ∨ Superseded evs a :=
    fun _ _ => Or.symm
  constructor
  · intro hdrops documentId hdecides
    obtain ⟨winner, hwinner, -, hsplit, hnewest⟩ := ordered_split hdecides.group_ne_nil
    have hperm : (ordered (groupOf evs documentId)).Perm (groupOf evs documentId) :=
      List.perm_insertionSort _ _
    have hloser : ∀ loser ∈ (ordered (groupOf evs documentId)).dropLast, ∀ ev ∈ evs,
        ev.evidenceId = loser.evidenceId → Superseded evs ev := by
      intro loser hloser ev hev hid
      exact hdrops ev hev (mem_versionDropped.mpr ⟨documentId, hdecides, loser, hloser, hid.symm⟩)
    have hself : ∀ loser ∈ (ordered (groupOf evs documentId)).dropLast, Superseded evs loser := by
      intro loser hmem
      have hgroup := hperm.mem_iff.mp (List.dropLast_subset _ hmem)
      exact hloser loser hmem loser (mem_groupOf.mp hgroup).1 rfl
    constructor
    · rw [← hperm.pairwise_iff (hsymm _ _), hsplit, List.pairwise_append]
      refine ⟨List.pairwise_of_forall_mem_list fun a ha _ _ => .inl (hself a ha), by simp, ?_⟩
      intro a ha _ _
      exact .inl (hself a ha)
    · intro older holder hsuperseded ev hev hid
      have hmem := hperm.mem_iff.mpr holder
      rw [hsplit] at hmem
      obtain hmem | hmem := List.mem_append.mp hmem
      · exact hloser older hmem ev hev hid
      · rw [List.mem_singleton.mp hmem] at hsuperseded
        exact absurd hsuperseded (winner_not_superseded hwinner hnewest)
  · intro hsingle ev hev hdropped
    obtain ⟨documentId, hdecides, loser, hloser, hid⟩ := mem_versionDropped.mp hdropped
    obtain ⟨hpairs, hothers⟩ := hsingle documentId hdecides
    obtain ⟨winner, hwinner, -, hsplit, hnewest⟩ := ordered_split hdecides.group_ne_nil
    have hperm : (ordered (groupOf evs documentId)).Perm (groupOf evs documentId) :=
      List.perm_insertionSort _ _
    rw [← hperm.pairwise_iff (hsymm _ _), hsplit, List.pairwise_append] at hpairs
    have hsuperseded : Superseded evs loser :=
      (hpairs.2.2 loser hloser winner List.mem_cons_self).resolve_right
        (winner_not_superseded hwinner hnewest)
    exact hothers loser (hperm.mem_iff.mp (List.dropLast_subset _ hloser)) hsuperseded ev hev hid.symm

open Sample in
/-- Of two chunks of the newest version only one is kept, and a document of another corpus
counts as an older version of the one with its document id. -/
theorem drops_older_only_counterexample :
    ¬DropsOlderOnly .current
      [statement "e1" "travel" "v1" "" 50, statement "e2" "travel" "v2" "" 50,
        statement "e3" "travel" "v2" "" 50] ∧
    ¬DropsOlderOnly .current
      [{ statement "e1" "travel" "v1" "" 50 with corpusId := "archive" },
        statement "e2" "travel" "v2" "" 50] := by
  unfold DropsOlderOnly
  decide

end ConflictResolver

end AgenticRag
