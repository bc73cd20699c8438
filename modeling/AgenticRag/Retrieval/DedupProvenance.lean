import AgenticRag.Foundations.Gathering
import AgenticRag.Retrieval.Deduplication

/-!
# Provenance of deduplicated hits

Every pass folds candidates into one another and loses none: a survivor stands for a part
of the inputs, and the parts share no chunk.
-/

namespace AgenticRag

namespace DedupCandidate

/-- A survivor that an input has been folded into names it as its source or as a
duplicate. -/
def Records (survivor input : DedupCandidate) : Prop :=
  input.sourceRecord ∈ survivor.sourceRecord :: survivor.duplicateSources

/-- What a candidate holds of the inputs it stands for. -/
structure FoldedFrom (survivor : DedupCandidate) (inputs : List DedupCandidate) : Prop where
  origin : ∃ input ∈ inputs, input.hit = survivor.hit
  records : (survivor.sourceRecord :: survivor.duplicateSources).Perm (inputs.map sourceRecord)
  contexts : ∀ input ∈ inputs, ∀ context ∈ input.contexts, context ∈ survivor.contexts

variable {keep incoming : DedupCandidate} {kept others : List DedupCandidate}

theorem mem_fold_contexts {context : RetrievalContext} :
    context ∈ (keep.fold incoming).contexts ↔ context ∈ keep.contexts ∨ context ∈ incoming.contexts := by
  have hfold : ∀ (added contexts : List RetrievalContext),
      context ∈ added.foldl
        (fun contexts context => if context ∈ contexts then contexts else contexts ++ [context]) contexts ↔
          context ∈ contexts ∨ context ∈ added := by
    intro added
    induction added with
    | nil => simp
    | cons head added ih =>
      intro contexts
      rw [List.foldl_cons, ih]
      by_cases hhead : head ∈ contexts
      · rw [if_pos hhead, List.mem_cons]
        constructor
        · rintro (h | h)
          · exact Or.inl h
          · exact Or.inr (Or.inr h)
        · rintro (h | rfl | h)
          · exact Or.inl h
          · exact Or.inl hhead
          · exact Or.inr h
      · rw [if_neg hhead, List.mem_append, List.mem_singleton, List.mem_cons, or_assoc]
  exact hfold incoming.contexts keep.contexts

theorem FoldedFrom.fresh {cand : DedupCandidate} (h : cand.duplicateSources = []) :
    cand.FoldedFrom [cand] := by
  refine ⟨⟨cand, List.mem_singleton.mpr rfl, rfl⟩, ?_, ?_⟩
  · rw [h]
    exact List.Perm.refl _
  · intro input hinput
    obtain rfl := List.mem_singleton.mp hinput
    exact fun _ hcontext => hcontext

theorem FoldedFrom.perm {survivor : DedupCandidate} (h : survivor.FoldedFrom kept)
    (hperm : kept.Perm others) : survivor.FoldedFrom others := by
  obtain ⟨input, hinput, hhit⟩ := h.origin
  exact ⟨⟨input, hperm.mem_iff.mp hinput, hhit⟩, h.records.trans (hperm.map _),
    fun input hinput => h.contexts input (hperm.mem_iff.mpr hinput)⟩

/-- Folding puts the parts together. -/
theorem FoldedFrom.fold (hkeep : keep.FoldedFrom kept) (hincoming : incoming.FoldedFrom others) :
    (keep.fold incoming).FoldedFrom (kept ++ others) := by
  obtain ⟨input, hinput, hhit⟩ := hkeep.origin
  refine ⟨⟨input, List.mem_append_left _ hinput, hhit⟩, ?_, ?_⟩
  · rw [List.map_append]
    exact hkeep.records.append hincoming.records
  · intro other hother context hcontext
    rw [mem_fold_contexts]
    rcases List.mem_append.mp hother with hold | hnew
    · exact Or.inl (hkeep.contexts other hold context hcontext)
    · exact Or.inr (hincoming.contexts other hnew context hcontext)

end DedupCandidate

namespace Deduplicator

open DedupCandidate

section Passes

variable {μ κ : Type} [DecidableEq κ] {key : DedupCandidate → κ} {gathers : DedupCandidate → List μ → Prop}
  {apart : μ → μ → Prop} {candidates : List DedupCandidate} {items : List μ}

/-- A relation that survives when one candidate is folded into another. -/
structure Folds (gathers : DedupCandidate → List μ → Prop)
    (mayFold : DedupCandidate → DedupCandidate → Prop) : Prop where
  perm : ∀ {cand : DedupCandidate} {part part' : List μ}, part.Perm part' → gathers cand part →
    gathers cand part'
  fold : ∀ {keep incoming : DedupCandidate} {part part' : List μ}, mayFold keep incoming →
    gathers keep part → gathers incoming part' → gathers (keep.fold incoming) (part ++ part')

theorem collapse_keyUnique (candidates : List DedupCandidate) :
    Table.KeyUnique key (collapse key candidates) := by
  unfold collapse
  induction candidates using List.reverseRecOn with
  | nil => exact List.nodup_nil
  | append_singleton candidates last ih =>
    rw [List.foldl_append, List.foldl_cons, List.foldl_nil]
    unfold collapseOne
    split
    · exact ih.upsert _
    · split
      · exact ih.upsert _
      · exact ih.upsert _

/-- A table of candidates takes one more. -/
theorem gathered_collapseOne (hkey : ∀ cand cand' : DedupCandidate, cand.hit = cand'.hit → key cand = key cand')
    (hfolds : Folds gathers fun keep incoming => key keep = key incoming)
    (hsymm : ∀ m n, apart m n → apart n m) {groups : List DedupCandidate}
    (hunique : Table.KeyUnique key groups) (h : GatheredFrom gathers apart groups items)
    {cand : DedupCandidate} {part : List μ} (hcand : gathers cand part)
    (hnew : ∀ m ∈ items, ∀ n ∈ part, apart m n) :
    GatheredFrom gathers apart (collapseOne key groups cand) (items ++ part) := by
  have hboth : ∀ m ∈ items, ∀ n ∈ part, apart m n ∧ apart n m :=
    fun m hm n hn => ⟨hnew m hm n hn, hsymm m n (hnew m hm n hn)⟩
  unfold collapseOne
  split
  · rename_i hnone
    rw [Table.upsert_of_none hnone]
    exact h.add hcand hnew
  · rename_i existing hsome
    obtain ⟨hexisting, hsame⟩ := Table.selectOne_some hsome
    have hsame : key existing = key cand := of_decide_eq_true hsame
    have hwinner : key existing = key (cand.fold existing) := hsame.trans (hkey _ _ rfl)
    have hloser : key existing = key (existing.fold cand) := hkey _ _ rfl
    split
    · -- the newcomer wins and takes the place of the old survivor
      obtain ⟨before, after, rfl, hupsert⟩ := Table.upsert_of_some hunique hexisting hwinner
      rw [hupsert]
      apply h.merge ?_ hboth
      intro own hown
      exact hfolds.perm List.perm_append_comm (hfolds.fold hsame.symm hcand hown)
    · obtain ⟨before, after, rfl, hupsert⟩ := Table.upsert_of_some hunique hexisting hloser
      rw [hupsert]
      apply h.merge ?_ hboth
      exact fun own hown => hfolds.fold hsame hown hcand

/-- One pass by a key of the hit. -/
theorem gathered_collapse (hkey : ∀ cand cand' : DedupCandidate, cand.hit = cand'.hit → key cand = key cand')
    (hfolds : Folds gathers fun keep incoming => key keep = key incoming)
    (hsymm : ∀ m n, apart m n → apart n m) (h : GatheredFrom gathers apart candidates items) :
    GatheredFrom gathers apart (collapse key candidates) items := by
  obtain ⟨parts, rfl, hparts, hitems, hapart⟩ := h
  apply GatheredFrom.perm ?_ hitems
  clear hitems
  induction parts using List.reverseRecOn with
  | nil => exact .empty
  | append_singleton parts last ih =>
    rw [List.pairwise_append] at hapart
    have hgroups := ih (fun part hpart => hparts part (List.mem_append_left _ hpart)) hapart.1
    have hunique : Table.KeyUnique key (collapse key (parts.map Prod.fst)) := collapse_keyUnique _
    rw [List.map_append, List.map_singleton, List.flatMap_append, List.flatMap_singleton]
    unfold collapse at hgroups hunique ⊢
    rw [List.foldl_append, List.foldl_cons, List.foldl_nil]
    apply gathered_collapseOne hkey hfolds hsymm hunique hgroups (hparts last (by simp))
    intro m hm n hn
    obtain ⟨part, hpart, hm⟩ := List.mem_flatMap.mp hm
    exact hapart.2.2 part hpart last (by simp) m hm n hn

end Passes

section TextPass

variable {μ : Type} {dedup : Deduplicator} {gathers : DedupCandidate → List μ → Prop}
  {apart : μ → μ → Prop} {candidates : List DedupCandidate} {items : List μ}

/-- The groups of the last pass have distinct keys, each the text of its survivor. -/
structure TextGroups (dedup : Deduplicator) (groups : List (List Char × DedupCandidate)) : Prop where
  unique : Table.KeyUnique Prod.fst groups
  named : ∀ group ∈ groups, group.1 = dedup.normalizeText group.2.text

theorem TextGroups.upsert {groups : List (List Char × DedupCandidate)} (h : TextGroups dedup groups)
    {new : List Char × DedupCandidate} (hnew : new.1 = dedup.normalizeText new.2.text) :
    TextGroups dedup (Table.upsert Prod.fst groups new) := by
  refine ⟨h.unique.upsert new, fun group hgroup => ?_⟩
  rcases Table.mem_upsert.mp hgroup with rfl | ⟨hold, -⟩
  · exact hnew
  · exact h.named group hold

/-- With exact texts a group is found by its key. -/
theorem findTextMatch_exact (hexact : dedup.similar = none) (groups : List (List Char × DedupCandidate))
    (textKey : List Char) : dedup.findTextMatch groups textKey =
      Table.selectOne (fun group => decide (group.1 = textKey)) groups := by
  unfold findTextMatch
  rw [hexact]

theorem textGroups_collapseTextOne (hexact : dedup.similar = none)
    {groups : List (List Char × DedupCandidate)} (h : TextGroups dedup groups) (cand : DedupCandidate) :
    TextGroups dedup (dedup.collapseTextOne groups cand) := by
  unfold collapseTextOne
  simp only [findTextMatch_exact hexact]
  split
  · exact h.upsert rfl
  · rename_i matchedKey existing hsome
    obtain ⟨hmem, hsame⟩ := Table.selectOne_some hsome
    split
    · exact h.upsert (of_decide_eq_true hsame)
    · exact h.upsert (h.named (matchedKey, existing) hmem)

theorem gathered_collapseTextOne (hexact : dedup.similar = none) (hfolds : Folds gathers fun _ _ => True)
    (hsymm : ∀ m n, apart m n → apart n m) {groups : List (List Char × DedupCandidate)}
    (hgroups : TextGroups dedup groups)
    (h : GatheredFrom (fun group => gathers group.2) apart groups items)
    {cand : DedupCandidate} {part : List μ} (hcand : gathers cand part)
    (hnew : ∀ m ∈ items, ∀ n ∈ part, apart m n) :
    GatheredFrom (fun group => gathers group.2) apart (dedup.collapseTextOne groups cand) (items ++ part) := by
  have hboth : ∀ m ∈ items, ∀ n ∈ part, apart m n ∧ apart n m :=
    fun m hm n hn => ⟨hnew m hm n hn, hsymm m n (hnew m hm n hn)⟩
  unfold collapseTextOne
  simp only [findTextMatch_exact hexact]
  split
  · rename_i hnone
    rw [Table.upsert_of_none hnone]
    exact h.add hcand hnew
  · rename_i matchedKey existing hsome
    have hmem := (Table.selectOne_some hsome).1
    split
    · obtain ⟨before, after, rfl, hupsert⟩ := @Table.upsert_of_some _ _ _ Prod.fst groups
        (matchedKey, existing) (matchedKey, cand.fold existing) hgroups.unique hmem rfl
      rw [hupsert]
      apply h.merge ?_ hboth
      exact fun own hown => hfolds.perm List.perm_append_comm (hfolds.fold trivial hcand hown)
    · obtain ⟨before, after, rfl, hupsert⟩ := @Table.upsert_of_some _ _ _ Prod.fst groups
        (matchedKey, existing) (matchedKey, existing.fold cand) hgroups.unique hmem rfl
      rw [hupsert]
      apply h.merge ?_ hboth
      exact fun own hown => hfolds.fold trivial hown hcand

theorem textGroups_fold (hexact : dedup.similar = none) (candidates : List DedupCandidate) :
    TextGroups dedup (candidates.foldl dedup.collapseTextOne []) := by
  induction candidates using List.reverseRecOn with
  | nil => exact ⟨List.nodup_nil, by simp⟩
  | append_singleton candidates last ih =>
    rw [List.foldl_append, List.foldl_cons, List.foldl_nil]
    exact textGroups_collapseTextOne hexact ih last

theorem gathered_collapseText (hexact : dedup.similar = none) (hfolds : Folds gathers fun _ _ => True)
    (hsymm : ∀ m n, apart m n → apart n m) (h : GatheredFrom gathers apart candidates items) :
    GatheredFrom gathers apart (dedup.collapseText candidates) items := by
  obtain ⟨parts, rfl, hparts, hitems, hapart⟩ := h
  apply GatheredFrom.perm ?_ hitems
  clear hitems
  apply GatheredFrom.map
  induction parts using List.reverseRecOn with
  | nil => exact .empty
  | append_singleton parts last ih =>
    rw [List.pairwise_append] at hapart
    have hgroups := ih (fun part hpart => hparts part (List.mem_append_left _ hpart)) hapart.1
    rw [List.map_append, List.map_singleton, List.flatMap_append, List.flatMap_singleton,
      List.foldl_append, List.foldl_cons, List.foldl_nil]
    apply gathered_collapseTextOne hexact hfolds hsymm (textGroups_fold hexact _) hgroups
      (hparts last (by simp))
    intro m hm n hn
    obtain ⟨part, hpart, hm⟩ := List.mem_flatMap.mp hm
    exact hapart.2.2 part hpart last (by simp) m hm n hn

theorem collapseText_texts (hexact : dedup.similar = none) (candidates : List DedupCandidate) :
    ((dedup.collapseText candidates).map fun cand => dedup.normalizeText cand.text).Nodup := by
  have hgroups := textGroups_fold hexact candidates
  have hkeys : (dedup.collapseText candidates).map (fun cand => dedup.normalizeText cand.text) =
      (candidates.foldl dedup.collapseTextOne []).map Prod.fst := by
    unfold collapseText
    rw [List.map_map]
    apply List.map_congr_left
    exact fun group hgroup => (hgroups.named group hgroup).symm
  rw [hkeys]
  exact hgroups.unique

end TextPass

section Deduplicate

structure Accounts (dedup : Deduplicator) (candidates survivors : List DedupCandidate) : Prop where
  spans : (survivors.map spanKey).Nodup
  parents : (survivors.map (·.hit.parentId)).Nodup
  texts : (survivors.map fun survivor => dedup.normalizeText survivor.text).Nodup
  sorted : survivors.Pairwise fun first second => second.hit.score ≤ first.hit.score
  counted : (survivors.map fun survivor => 1 + survivor.duplicateSources.length).sum = candidates.length
  contexts : ∀ cand ∈ candidates, ∃ survivor ∈ survivors, survivor.Records cand ∧
    (∀ context ∈ cand.contexts, context ∈ survivor.contexts) ∧
      ∀ other ∈ survivors, other.Records cand → other = survivor

theorem spanKey_hit {cand cand' : DedupCandidate} (h : cand.hit = cand'.hit) :
    spanKey cand = spanKey cand' := by
  unfold spanKey
  rw [h]

theorem folds_foldedFrom {mayFold : DedupCandidate → DedupCandidate → Prop} : Folds FoldedFrom mayFold :=
  ⟨fun hperm h => h.perm hperm, fun _ h h' => h.fold h'⟩

/-- The survivors stand for the candidates, and share no chunk. -/
theorem gathered_deduplicate {dedup : Deduplicator} (hexact : dedup.similar = none)
    {candidates : List DedupCandidate} (hfresh : ∀ cand ∈ candidates, cand.duplicateSources = []) :
    GatheredFrom FoldedFrom (fun m n => spanKey m ≠ spanKey n) (dedup.deduplicate candidates) candidates := by
  have hsymm : ∀ m n : DedupCandidate, spanKey m ≠ spanKey n → spanKey n ≠ spanKey m := fun _ _ h => h.symm
  -- in the first pass a part holds one chunk only
  let ofOneSpan := fun (cand : DedupCandidate) part => cand.FoldedFrom part ∧ ∀ m ∈ part, spanKey m = spanKey cand
  have hfolds : Folds ofOneSpan fun keep incoming => spanKey keep = spanKey incoming := by
    constructor
    · exact fun hperm h => ⟨h.1.perm hperm, fun m hm => h.2 m (hperm.mem_iff.mpr hm)⟩
    · intro keep incoming part part' hsame h h'
      refine ⟨h.1.fold h'.1, fun m hm => ?_⟩
      rcases List.mem_append.mp hm with hold | hnew
      · exact h.2 m hold
      · exact (h'.2 m hnew).trans hsame.symm
  have hstart : GatheredFrom ofOneSpan (fun _ _ => True) candidates candidates := by
    apply GatheredFrom.single
    · intro cand hcand
      refine ⟨.fresh (hfresh cand hcand), fun m hm => ?_⟩
      rw [List.mem_singleton.mp hm]
    · exact List.pairwise_of_forall fun _ _ => trivial
  have hspan := gathered_collapse (fun _ _ => spanKey_hit) hfolds (fun _ _ _ => trivial) hstart
  have hseparate := (hspan.separate (collapse_keyUnique candidates) fun _ _ h => h.2).mono fun _ _ h => h.1
  have hkey : ∀ cand cand' : DedupCandidate, cand.hit = cand'.hit →
      cand.hit.parentId = cand'.hit.parentId := fun _ _ h => by rw [h]
  have hparent := gathered_collapse hkey folds_foldedFrom hsymm hseparate
  exact (gathered_collapseText hexact folds_foldedFrom hsymm hparent).insertionSort _ hsymm

/-- The survivors have the distinct parents that the second pass leaves. -/
theorem deduplicate_parents {dedup : Deduplicator} (hexact : dedup.similar = none)
    (candidates : List DedupCandidate) :
    ((dedup.deduplicate candidates).map (·.hit.parentId)).Nodup := by
  let sameHit := fun (cand : DedupCandidate) (part : List DedupCandidate) => ∃ m ∈ part, m.hit = cand.hit
  have hfolds : Folds sameHit fun _ _ => True := by
    constructor
    · rintro cand part part' hperm ⟨m, hm, hhit⟩
      exact ⟨m, hperm.mem_iff.mp hm, hhit⟩
    · rintro keep incoming part part' - ⟨m, hm, hhit⟩ -
      exact ⟨m, List.mem_append_left _ hm, hhit⟩
  have hunique : Table.KeyUnique (fun cand : DedupCandidate => cand.hit.parentId)
      (collapse (·.hit.parentId) (collapse spanKey candidates)) := collapse_keyUnique _
  have hstart : GatheredFrom sameHit (fun m n => m.hit.parentId ≠ n.hit.parentId)
      (collapse (·.hit.parentId) (collapse spanKey candidates))
      (collapse (·.hit.parentId) (collapse spanKey candidates)) := by
    apply GatheredFrom.single
    · exact fun cand _ => ⟨cand, List.mem_singleton.mpr rfl, rfl⟩
    · exact List.pairwise_map.mp hunique
  have hsymm : ∀ m n : DedupCandidate, m.hit.parentId ≠ n.hit.parentId → n.hit.parentId ≠ m.hit.parentId :=
    fun _ _ h => h.symm
  have hsorted := (gathered_collapseText hexact hfolds hsymm hstart).insertionSort
    (fun first second : DedupCandidate => second.hit.score ≤ first.hit.score) hsymm
  apply hsorted.keyUnique
  rintro cand part ⟨m, hm, hhit⟩
  exact ⟨m, hm, by rw [hhit]⟩

/-- Of candidates that have not been folded yet nothing is lost and nothing counted twice. Each candidate
comes with its own context and no duplicates, as the retriever builds it; texts are compared exactly, as
at the default threshold. -/
theorem deduplicate_accounts (dedup : Deduplicator) (hexact : dedup.similar = none)
    (candidates : List DedupCandidate)
    (hfresh : ∀ cand ∈ candidates, cand.contexts.length = 1 ∧ cand.duplicateSources = []) :
    Accounts dedup candidates (dedup.deduplicate candidates) := by
  have hgathered := gathered_deduplicate hexact fun cand hcand => (hfresh cand hcand).2
  constructor
  · apply hgathered.keyUnique
    intro survivor part hpart
    obtain ⟨m, hm, hhit⟩ := hpart.origin
    exact ⟨m, hm, spanKey_hit hhit⟩
  · exact deduplicate_parents hexact candidates
  · have hperm := List.perm_insertionSort (fun first second : DedupCandidate =>
      second.hit.score ≤ first.hit.score)
        (dedup.collapseText (collapse (·.hit.parentId) (collapse spanKey candidates)))
    exact (hperm.map _).nodup_iff.mpr (collapseText_texts hexact _)
  · have htotal : Std.Total fun first second : DedupCandidate => second.hit.score ≤ first.hit.score :=
      ⟨fun first second => le_total _ _⟩
    have htrans : IsTrans DedupCandidate fun first second => second.hit.score ≤ first.hit.score :=
      ⟨fun first second third h h' => le_trans h' h⟩
    exact List.pairwise_insertionSort _ _
  · apply hgathered.sum_size
    intro survivor part hpart
    have hlength := hpart.records.length_eq
    simp only [List.length_cons, List.length_map] at hlength
    omega
  · intro cand hcand
    have hsymm : ∀ m n : DedupCandidate, spanKey m ≠ spanKey n → spanKey n ≠ spanKey m :=
      fun _ _ h => h.symm
    obtain ⟨survivor, hsurvivor, ⟨part, hpart, hmem⟩, hothers⟩ := hgathered.exists_row hsymm hcand
    refine ⟨survivor, hsurvivor, ?_, hpart.contexts cand hmem, fun other hother hrecords => ?_⟩
    · exact hpart.records.mem_iff.mpr (List.mem_map_of_mem hmem)
    · refine (hothers other hother).resolve_right ?_
      rintro ⟨part', hpart', hapart⟩
      obtain ⟨m, hm, hsame⟩ := List.mem_map.mp (hpart'.records.mem_iff.mp hrecords)
      apply hapart m hm
      simp only [sourceRecord, DuplicateSource.mk.injEq] at hsame
      obtain ⟨-, hdocument, hversion, -, hchunk, -⟩ := hsame
      simp only [spanKey, hdocument, hversion, hchunk]

private def exactTexts : Deduplicator := ⟨id, none⟩

private def retrieved (documentId chunkId parentId query text : String) (score : Rat) : DedupCandidate where
  hit :=
    { chunkId := chunkId
      parentId := parentId
      ref := ⟨⟨"acme", "policies", documentId⟩, "v1"⟩
      text := text
      score := score
      sectionPath := []
      status := "active"
      deprecated := false
      acl := ⟨"public", .restricted, [], [], [], []⟩ }
  contexts := [⟨query, 0, none⟩]
  text := text
  authorityLevel := 50
  duplicateSources := []

/-- One chunk found by two queries, and its text again in another document. -/
private def foundThrice : List DedupCandidate :=
  [retrieved "a" "c1" "p1" "first" "text" 1, retrieved "a" "c1" "p1" "second" "text" 2,
    retrieved "b" "c2" "p2" "first" " text " 3]

theorem deduplicate_accounts_folded :
    Accounts exactTexts foundThrice (exactTexts.deduplicate foundThrice) ∧
      (exactTexts.deduplicate foundThrice).map (fun survivor =>
        (survivor.hit.chunkId, survivor.contexts.map (·.query))) = [("c2", ["first", "second"])] :=
  ⟨deduplicate_accounts exactTexts rfl foundThrice (by decide), by decide +kernel⟩

end Deduplicate

end Deduplicator

end AgenticRag
