import AgenticRag.Foundations.FirstOccurrence
import AgenticRag.Retrieval.MultiCorpus

/-!
# What the merge keeps

`merge_evidence` drops an item whose id has occurred before, whatever its content. Of the
first occurrences that are left it keeps one for each text of a document version, the
first of those with the highest authority, in the place of the first one.
-/

namespace AgenticRag

/-- The items that stable-id deduplication leaves. -/
def firstOccurrences (order : List Evidence) : List Evidence := firstsBy (·.evidenceId) order

/-- Those of them with one text of one document version. -/
def occurrencesOf (order : List Evidence) (key : String × String × String) : List Evidence :=
  (firstOccurrences order).filter fun ev => decide (ev.textKey = key)

theorem firstOccurrences_concat (order : List Evidence) (ev : Evidence) :
    firstOccurrences (order ++ [ev]) =
      firstOccurrences order ++ if ev.evidenceId ∈ order.map (·.evidenceId) then [] else [ev] :=
  firstsBy_concat order ev

theorem occurrencesOf_concat {order : List Evidence} {ev : Evidence}
    (hnew : ev.evidenceId ∉ order.map (·.evidenceId)) (key : String × String × String) :
    occurrencesOf (order ++ [ev]) key =
      occurrencesOf order key ++ if ev.textKey = key then [ev] else [] := by
  unfold occurrencesOf
  rw [firstOccurrences_concat, if_neg hnew, List.filter_append]
  congr 1
  by_cases hkey : ev.textKey = key <;> simp [hkey]

theorem mem_occurrencesOf {order : List Evidence} {ev : Evidence} {key : String × String × String} :
    ev ∈ occurrencesOf order key ↔ ev ∈ firstOccurrences order ∧ ev.textKey = key := by
  simp [occurrencesOf]

section Positions

variable {κ : Type} [BEq κ] [LawfulBEq κ] {keys : List κ} {k : κ}

/-- A dictionary from keys to their positions. -/
theorem lookup_zipIdx_none : keys.zipIdx.lookup k = none ↔ k ∉ keys := by
  rw [List.lookup_eq_none_iff]
  constructor
  · intro h hmem
    obtain ⟨i, hi⟩ := List.mem_iff_getElem?.mp hmem
    have hne := h (k, i) (List.mk_mem_zipIdx_iff_getElem?.mpr hi)
    simp at hne
  · intro h entry hentry
    rw [bne_iff_ne]
    rintro rfl
    exact h (List.fst_mem_of_mem_zipIdx hentry)

theorem getElem?_of_lookup_zipIdx {i : Nat} (h : keys.zipIdx.lookup k = some i) : keys[i]? = some k := by
  obtain ⟨before, after, hsplit, -⟩ := List.lookup_eq_some_iff.mp h
  apply List.mk_mem_zipIdx_iff_getElem?.mp
  rw [hsplit]
  simp

end Positions

/-- The accumulator after the items of a list. -/
structure MergeState.Reached (order : List Evidence) (s : MergeState) : Prop where
  ids : ∀ id, (s.idKeys.lookup id).isSome ↔ id ∈ order.map (·.evidenceId)
  keys : s.survivors.map (·.textKey) = (firstsBy (·.textKey) (firstOccurrences order)).map (·.textKey)
  positions : s.textKeys = (s.survivors.map (·.textKey)).zipIdx
  leaders : ∀ survivor ∈ s.survivors,
    leader (·.authorityLevel) (occurrencesOf order survivor.textKey) = some survivor
  contributed : s.contributed = (firstOccurrences order).map (·.corpusId)

namespace MergeState.Reached

variable {order : List Evidence} {s : MergeState} {ev : Evidence}

theorem start : Reached [] MergeState.start where
  ids id := by simp [MergeState.start]
  keys := rfl
  positions := rfl
  leaders := by simp [MergeState.start]
  contributed := rfl

theorem mem_keys (h : Reached order s) (key : String × String × String) :
    key ∈ s.survivors.map (·.textKey) ↔ key ∈ (firstOccurrences order).map (·.textKey) := by
  rw [h.keys]
  exact map_mem_firstsBy

theorem lookup_concat {entries : List (String × Nat)} {id other : String} {position : Nat} :
    ((entries ++ [(id, position)]).lookup other).isSome ↔ (entries.lookup other).isSome ∨ other = id := by
  rw [List.lookup_append, Option.isSome_or, Bool.or_eq_true]
  by_cases hid : other = id
  · simp [hid]
  · simp [List.lookup_cons, beq_eq_false_iff_ne.mpr hid, hid]

/-- An id that has occurred before. -/
theorem repeated (h : Reached order s) (hold : ev.evidenceId ∈ order.map (·.evidenceId)) :
    Reached (order ++ [ev]) s := by
  have hfirsts : firstOccurrences (order ++ [ev]) = firstOccurrences order := by
    rw [firstOccurrences_concat, if_pos hold, List.append_nil]
  have hoccurrences : ∀ key, occurrencesOf (order ++ [ev]) key = occurrencesOf order key := by
    intro key
    unfold occurrencesOf
    rw [hfirsts]
  refine ⟨fun id => ?_, ?_, h.positions, fun survivor hsurvivor => ?_, ?_⟩
  · rw [h.ids id, List.map_append, List.mem_append, List.map_singleton, List.mem_singleton]
    constructor
    · exact Or.inl
    · rintro (hmem | rfl)
      · exact hmem
      · exact hold
  · rw [hfirsts]
    exact h.keys
  · rw [hoccurrences]
    exact h.leaders survivor hsurvivor
  · rw [hfirsts]
    exact h.contributed

/-- The first item with its text. -/
theorem appended (h : Reached order s) (hnew : ev.evidenceId ∉ order.map (·.evidenceId))
    (hkey : ev.textKey ∉ s.survivors.map (·.textKey)) :
    Reached (order ++ [ev])
      { survivors := s.survivors ++ [ev]
        idKeys := s.idKeys ++ [(ev.evidenceId, s.survivors.length)]
        textKeys := s.textKeys ++ [(ev.textKey, s.survivors.length)]
        contributed := s.contributed ++ [ev.corpusId] } := by
  have hfirsts : firstOccurrences (order ++ [ev]) = firstOccurrences order ++ [ev] := by
    rw [firstOccurrences_concat, if_neg hnew]
  have hfresh := mt (h.mem_keys _).mpr hkey
  refine ⟨fun id => ?_, ?_, ?_, fun survivor hsurvivor => ?_, ?_⟩
  · rw [lookup_concat, h.ids, List.map_append, List.mem_append, List.map_singleton, List.mem_singleton]
  · rw [hfirsts, firstsBy_concat, if_neg hfresh, List.map_append, List.map_append, h.keys]
  · rw [h.positions, List.map_append, List.zipIdx_append, List.length_map]
    simp
  · rw [occurrencesOf_concat hnew]
    rcases List.mem_append.mp hsurvivor with hold | hlast
    · rw [if_neg, List.append_nil]
      · exact h.leaders survivor hold
      · rintro hsame
        exact hkey (hsame ▸ List.mem_map_of_mem hold)
    · obtain rfl := List.mem_singleton.mp hlast
      have hnone : occurrencesOf order survivor.textKey = [] := by
        apply List.eq_nil_iff_forall_not_mem.mpr
        intro other hother
        obtain ⟨hmem, hsame⟩ := mem_occurrencesOf.mp hother
        exact hfresh (hsame ▸ List.mem_map_of_mem hmem)
      rw [if_pos rfl, hnone]
      rfl
  · rw [hfirsts, List.map_append, h.contributed]
    rfl

theorem textKeys_nodup (h : Reached order s) : (s.survivors.map (·.textKey)).Nodup := by
  rw [h.keys]
  exact firstsBy_nodup _

/-- A further item with a known text. -/
theorem folded (h : Reached order s) (hnew : ev.evidenceId ∉ order.map (·.evidenceId)) {position : Nat}
    (hposition : (s.survivors.map (·.textKey))[position]? = some ev.textKey) :
    Reached (order ++ [ev])
      { survivors :=
          if ∃ kept ∈ s.survivors[position]?, kept.authorityLevel < ev.authorityLevel then
            s.survivors.set position ev
          else s.survivors
        idKeys := s.idKeys ++ [(ev.evidenceId, position)]
        textKeys := s.textKeys
        contributed := s.contributed ++ [ev.corpusId] } := by
  have hfirsts : firstOccurrences (order ++ [ev]) = firstOccurrences order ++ [ev] := by
    rw [firstOccurrences_concat, if_neg hnew]
  have hknown := (h.mem_keys _).mp (List.mem_of_getElem? hposition)
  rw [List.getElem?_map] at hposition
  obtain ⟨kept, hkept, hsame⟩ := Option.map_eq_some_iff.mp hposition
  have hmem := List.mem_of_getElem? hkept
  -- the survivor of the text after the new item
  have hleader : leader (·.authorityLevel) (occurrencesOf (order ++ [ev]) ev.textKey) =
      some (if kept.authorityLevel < ev.authorityLevel then ev else kept) := by
    rw [occurrencesOf_concat hnew, if_pos rfl, leader_concat, ← hsame, h.leaders kept hmem]
    simp only [outdo]
    split <;> rfl
  have hothers : ∀ survivor ∈ s.survivors, survivor.textKey ≠ ev.textKey →
      leader (·.authorityLevel) (occurrencesOf (order ++ [ev]) survivor.textKey) = some survivor := by
    intro survivor hsurvivor hne
    rw [occurrencesOf_concat hnew, if_neg (Ne.symm hne), List.append_nil]
    exact h.leaders survivor hsurvivor
  have hkeys : (s.survivors.set position ev).map (·.textKey) = s.survivors.map (·.textKey) := by
    rw [List.map_set]
    apply List.ext_getElem?
    intro i
    rw [List.getElem?_set]
    split
    · rename_i hi
      subst hi
      rw [List.getElem?_map, hkept, Option.map_some, hsame]
      rw [if_pos (by rw [List.length_map]; exact (List.getElem?_eq_some_iff.mp hkept).1)]
    · rfl
  have hunique : ∀ survivor ∈ s.survivors, survivor.textKey = ev.textKey → survivor = kept :=
    fun survivor hsurvivor hkey =>
      List.inj_on_of_nodup_map h.textKeys_nodup hsurvivor hmem (hkey.trans hsame.symm)
  have hbetter : (∃ kept ∈ s.survivors[position]?, kept.authorityLevel < ev.authorityLevel) ↔
      kept.authorityLevel < ev.authorityLevel := by
    simp [hkept]
  simp only [hbetter]
  refine ⟨fun id => ?_, ?_, ?_, fun survivor hsurvivor => ?_, ?_⟩
  · rw [lookup_concat, h.ids, List.map_append, List.mem_append, List.map_singleton, List.mem_singleton]
  · rw [hfirsts, firstsBy_concat, if_pos hknown, List.append_nil, ← h.keys]
    dsimp only
    split
    · exact hkeys
    · rfl
  · rw [h.positions]
    dsimp only
    split
    · rw [hkeys]
    · rfl
  · dsimp only at hsurvivor
    split at hsurvivor
    · rename_i hless
      rw [if_pos hless] at hleader
      rcases List.mem_or_eq_of_mem_set hsurvivor with hold | rfl
      · by_cases hkey : survivor.textKey = ev.textKey
        · -- the old survivor of the text is not in the list any more
          have hset : ev ∈ s.survivors.set position ev :=
            List.mem_set (List.getElem?_eq_some_iff.mp hkept).1 ev
          have hnodup := h.textKeys_nodup
          rw [← hkeys] at hnodup
          rw [List.inj_on_of_nodup_map hnodup hsurvivor hset hkey]
          exact hleader
        · exact hothers survivor hold hkey
      · exact hleader
    · rename_i hless
      rw [if_neg hless] at hleader
      by_cases hkey : survivor.textKey = ev.textKey
      · rw [hkey, hleader, hunique survivor hsurvivor hkey]
      · exact hothers survivor hsurvivor hkey
  · rw [hfirsts, List.map_append, h.contributed]
    rfl

end MergeState.Reached

theorem MergeState.Reached.add {order : List Evidence} {s : MergeState} (h : Reached order s) (ev : Evidence) :
    Reached (order ++ [ev]) (s.add ev) := by
  unfold MergeState.add
  split
  · rename_i hold
    exact h.repeated ((h.ids _).mp hold)
  · rename_i hnew
    have hnew := mt (h.ids ev.evidenceId).mpr hnew
    split
    · rename_i hnone
      rw [h.positions] at hnone
      exact h.appended hnew (lookup_zipIdx_none.mp hnone)
    · rename_i position hsome
      rw [h.positions] at hsome
      exact h.folded hnew (getElem?_of_lookup_zipIdx hsome)

theorem MergeState.reached (order : List Evidence) : Reached order (order.foldl MergeState.add .start) := by
  induction order using List.reverseRecOn with
  | nil => exact .start
  | append_singleton order ev ih =>
    rw [List.foldl_append, List.foldl_cons, List.foldl_nil]
    exact ih.add ev

/-- The result of a merge, in terms of the order in which the evidence is looked at. -/
structure MergedFrom (order : List Evidence) (result : MergeResult) : Prop where
  ids : (result.evidence.map (·.evidenceId)).Nodup
  texts : (result.evidence.map (·.textKey)).Nodup
  ordered : result.evidence.map (·.textKey) =
    (firstsBy (·.textKey) (firstOccurrences order)).map (·.textKey)
  leading : ∀ survivor ∈ result.evidence, ∃ before after,
    occurrencesOf order survivor.textKey = before ++ survivor :: after ∧
      (∀ ev ∈ before, ev.authorityLevel < survivor.authorityLevel) ∧
        ∀ ev ∈ after, ev.authorityLevel ≤ survivor.authorityLevel
  corpora : result.contributingCorpora.Nodup ∧ ∀ corpusId,
    corpusId ∈ result.contributingCorpora ↔ ∃ ev ∈ firstOccurrences order, ev.corpusId = corpusId

theorem mergeEvidence_mergedFrom (perCorpus : PerCorpus) :
    MergedFrom (mergeOrder perCorpus) (mergeEvidence perCorpus) := by
  have h : (mergeState perCorpus).Reached (mergeOrder perCorpus) := MergeState.reached _
  have hleading : ∀ survivor ∈ (mergeState perCorpus).survivors, ∃ before after,
      occurrencesOf (mergeOrder perCorpus) survivor.textKey = before ++ survivor :: after ∧
        (∀ ev ∈ before, ev.authorityLevel < survivor.authorityLevel) ∧
          ∀ ev ∈ after, ev.authorityLevel ≤ survivor.authorityLevel :=
    fun survivor hsurvivor => leader_split (h.leaders survivor hsurvivor)
  have hfirst : ∀ survivor ∈ (mergeState perCorpus).survivors,
      survivor ∈ firstOccurrences (mergeOrder perCorpus) := by
    intro survivor hsurvivor
    obtain ⟨before, after, hsplit, -⟩ := hleading survivor hsurvivor
    have hmem : survivor ∈ occurrencesOf (mergeOrder perCorpus) survivor.textKey := by simp [hsplit]
    exact (mem_occurrencesOf.mp hmem).1
  refine ⟨?_, h.textKeys_nodup, h.keys, hleading, ?_, fun corpusId => ?_⟩
  · -- two survivors with one id would be one first occurrence, hence have one text
    have htexts := h.textKeys_nodup
    rw [List.Nodup, List.pairwise_map] at htexts ⊢
    apply htexts.imp_of_mem
    intro first second hfirstmem hsecondmem hne hid
    apply hne
    rw [List.inj_on_of_nodup_map (firstsBy_nodup _) (hfirst first hfirstmem) (hfirst second hsecondmem) hid]
  · exact (List.perm_insertionSort _ _).nodup_iff.mpr (nodup_eraseDups _)
  · change corpusId ∈ sortedStrings _ ↔ _
    rw [sortedStrings, List.mem_insertionSort, List.mem_eraseDups, h.contributed, List.mem_map]

private def snapshot (evidenceId corpusId textHash : String) (authorityLevel : Fin 101) : Evidence where
  evidenceId := evidenceId
  tenantId := "acme"
  corpusId := corpusId
  documentId := "leave"
  documentVersion := "v1"
  sourceUri := ""
  sourceFilename := "leave.md"
  pageNumber := none
  sectionPath := []
  text := textHash
  textHash := textHash
  authorityLevel := authorityLevel
  effectiveFrom := none
  effectiveTo := none
  deprecated := false
  retrievedAt := ⟨0, some 0⟩
  aclPolicyId := ""
  policyVersion := "1"

end AgenticRag
