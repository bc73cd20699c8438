import AgenticRag.Ingestion.IndexContents
import AgenticRag.Ingestion.IndexedVersion

/-!
# Rebuilding a version from its chunk rows

`rebuild_document` upserts the points of the child rows into the live collection and joins
the child rows of every parent id, in the order of their chunk ids, into a parent. The
children of a section overlap, lose the separators they were split at, and sort by a hash,
so the joined text is that of the section only in special cases.
-/

namespace AgenticRag.DocumentManager

open MetadataStore StoreProgram Method IngestionJob

variable {svc : Services} {req : IngestionRequest} {ref : VersionRef} {w w' : World}
  {rows : List ChunkRecord}

section Rebuild

/-- The parents put back, in the order their ids first appear. -/
def rebuiltParents (ref : VersionRef) (rows : List ChunkRecord) : List ParentChunk :=
  (parentIdsOf rows).filterMap fun parentId =>
    if parentId = "" then none else rebuiltParent ref parentId (childrenOfParent rows parentId)

theorem mem_parentIdsOf {parentId : String} :
    parentId ∈ parentIdsOf rows ↔ ∃ row ∈ rows, row.parentId.getD "" = parentId := by
  induction rows with
  | nil => simp [parentIdsOf]
  | cons row rows ih =>
    simp only [parentIdsOf, List.mem_cons, List.mem_filter, ih, decide_eq_true_eq,
      exists_eq_or_imp]
    constructor
    · rintro (rfl | ⟨hlater, -⟩)
      · exact Or.inl rfl
      · exact Or.inr hlater
    · rintro (rfl | hlater)
      · exact Or.inl rfl
      · by_cases hsame : parentId = row.parentId.getD ""
        · exact Or.inl hsame
        · exact Or.inr ⟨hlater, hsame⟩

theorem mem_childrenOfParent {parentId : String} {row : ChunkRecord} :
    row ∈ childrenOfParent rows parentId ↔ row ∈ rows ∧ row.parentId.getD "" = parentId := by
  simp [childrenOfParent]

/-- The parent put back from a first child row and the rest. -/
def rejoined (ref : VersionRef) (parentId : String) (first : ChunkRecord) (rest : List ChunkRecord) :
    ParentChunk where
  parentId := parentId
  ref := ref
  text := String.intercalate "\n\n" ((first :: rest).map (·.content))
  sectionPath := first.sectionPath
  metadata := { status := .active, deprecated := false, acl := first.acl }

theorem rebuiltParent_some {parentId : String} {children : List ChunkRecord} {parent : ParentChunk} :
    rebuiltParent ref parentId children = some parent ↔
      ∃ first rest, children = first :: rest ∧ parent = rejoined ref parentId first rest := by
  cases children with
  | nil => simp [rebuiltParent]
  | cons first rest =>
    constructor
    · intro h
      exact ⟨first, rest, rfl, (Option.some.inj h).symm⟩
    · rintro ⟨_, _, ⟨⟩, rfl⟩
      rfl

/-- A parent is put back under every parent id that is not empty. -/
theorem mem_rebuiltParents {parent : ParentChunk} :
    parent ∈ rebuiltParents ref rows ↔ parent.parentId ≠ "" ∧ ∃ first rest,
      childrenOfParent rows parent.parentId = first :: rest ∧
        parent = rejoined ref parent.parentId first rest := by
  simp only [rebuiltParents, List.mem_filterMap]
  constructor
  · rintro ⟨parentId, -, h⟩
    split at h
    · simp at h
    · rename_i hnamed
      obtain ⟨first, rest, hchildren, rfl⟩ := rebuiltParent_some.mp h
      exact ⟨hnamed, first, rest, hchildren, rfl⟩
  · rintro ⟨hnamed, first, rest, hchildren, hparent⟩
    have hfirst : first ∈ childrenOfParent rows parent.parentId := by
      rw [hchildren]
      exact List.mem_cons_self
    obtain ⟨hrow, hid⟩ := mem_childrenOfParent.mp hfirst
    refine ⟨parent.parentId, mem_parentIdsOf.mpr ⟨first, hrow, hid⟩, ?_⟩
    rw [if_neg hnamed, rebuiltParent_some]
    exact ⟨first, rest, hchildren, hparent⟩

theorem rebuildParents_finishes {u : Unit} :
    Finishes (rebuildParents ref rows) () w u () w' ↔
      w' = { w with parents := (rebuiltParents ref rows).foldl (fun store parent =>
        ParentStore.put parent store) w.parents } := by
  unfold rebuildParents rebuiltParents
  induction parentIdsOf rows generalizing w with
  | nil => simp
  | cons parentId parentIds ih =>
    refine completes_forEach_cons.trans ?_
    rw [List.filterMap_cons]
    by_cases hnamed : parentId = ""
    · simp [hnamed, ih]
    · cases hparent : rebuiltParent ref parentId (childrenOfParent rows parentId) with
      | none => simp [hnamed, ih]
      | some parent => simp [hnamed, ih, ParentOp.eval]

abbrev rebuildRows (ref : VersionRef) (w : World) : List ChunkRecord :=
  childChunksOf ref.doc.corpusId ref.doc.documentId ref.version w.metadata

theorem rebuildDocument_finishes {u : Unit} :
    Finishes (rebuildDocument svc ref) () w u () w' ↔
      ∃ v, VectorStore.upsert (w.resolveCollectionName ref.doc.corpusId)
          ((rebuildRows ref w).map svc.chunkRowToPoint) w.vectors = (.ok (), v) ∧
        w' = { w with
          vectors := v
          parents := (rebuiltParents ref (rebuildRows ref w)).foldl (fun store parent =>
            ParentStore.put parent store) w.parents } := by
  constructor
  · intro h
    obtain ⟨name, _, w₁, hname, h⟩ := completes_bind.mp h
    obtain ⟨rfl, -, rfl⟩ := finishes_read.mp hname
    obtain ⟨found, _, w₂, hfound, h⟩ := completes_bind.mp h
    obtain ⟨rfl, -, rfl⟩ := finishes_read.mp hfound
    obtain ⟨_, _, w₃, hupsert, h⟩ := completes_bind.mp h
    obtain ⟨-, v, hv, rfl⟩ := finishes_vectors.mp hupsert
    exact ⟨v, hv, rebuildParents_finishes.mp h⟩
  · rintro ⟨v, hv, hw'⟩
    refine completes_bind.mpr ⟨_, (), w, finishes_read.mpr ⟨rfl, rfl, rfl⟩, ?_⟩
    refine completes_bind.mpr ⟨_, (), w, finishes_read.mpr ⟨rfl, rfl, rfl⟩, ?_⟩
    refine completes_bind.mpr ⟨(), (), _, finishes_vectors.mpr ⟨rfl, v, hv, rfl⟩, ?_⟩
    exact rebuildParents_finishes.mpr hw'

end Rebuild

section RoundTrip

variable {parents : List ParentDraft} {children : List ChildChunk}

/-- The stores after every point and parent of the version has been lost. -/
def losing (ref : VersionRef) (w : World) : World :=
  { w with
    vectors := fun name =>
      (w.vectors name).map (Table.delete fun point => decide (point.payload.ref = ref))
    parents := ParentStore.deleteDocument ref w.parents }

/-- The version has the points that `_step_publish` upserts for its children, in the
collection it upserts them to, the parents of the chunker under the ACL of the request, and
no others. -/
structure Restored (svc : Services) (req : IngestionRequest) (parents : List ParentDraft)
    (children : List ChildChunk) (w : World) : Prop where
  points : ∀ name (point : Point), point.payload.ref = req.ref →
    (point ∈ w.vectors.points name ↔
      name = req.ref.doc.corpusId ∧ point ∈ childPoints svc req children .active)
  parents : ∀ (draft : ParentDraft) (acl : AclFields), draft.ref = req.ref →
    ((∃ parent ∈ w.parents, parent.toParentDraft = draft ∧ parent.metadata.acl = acl) ↔
      draft ∈ parents ∧ acl = req.acl.toAclFields)

/-- The row carries what a point of the child carries. -/
structure Transcribes (req : IngestionRequest) (child : ChildChunk) (row : ChunkRecord) : Prop where
  chunkId : row.chunkId = child.childId
  ref : row.ref = req.ref
  parentId : row.parentId = some child.parentId
  content : row.content = child.text
  sectionPath : row.sectionPath = child.sectionPath
  acl : row.acl = req.acl.toAclFields

/-- The child rows of the version are those of its children. -/
structure Transcribed (req : IngestionRequest) (children : List ChildChunk) (w : World) : Prop where
  rows : ∀ row ∈ rebuildRows req.ref w, row.ref = req.ref → ∃ child ∈ children, Transcribes req child row
  children : ∀ child ∈ children, ∃ row ∈ rebuildRows req.ref w, Transcribes req child row

/-- The rows under the id of the parent, joined in the order of their chunk ids, give its
text, and the first of them its section path and ACL. -/
def Rejoins (req : IngestionRequest) (rows : List ChunkRecord) (parent : ParentDraft) : Prop :=
  ∃ first rest, childrenOfParent rows parent.parentId = first :: rest ∧
    String.intercalate "\n\n" ((first :: rest).map (·.content)) = parent.text ∧
    first.sectionPath = parent.sectionPath ∧ first.acl = req.acl.toAclFields

/-- What a rebuild relies on: the live collection exists and is the one ingestion writes to, the
child rows are those of the children, no other row with the corpus, document id and version (of
whatever tenant) has a parent of its own, and joining the children gives the parents. -/
structure RoundTrips (req : IngestionRequest) (parents : List ParentDraft)
    (children : List ChildChunk) (w : World) : Prop where
  live : children ≠ [] → w.resolveCollectionName req.ref.doc.corpusId = req.ref.doc.corpusId
  stored : rebuildRows req.ref w ≠ [] →
    (w.vectors (w.resolveCollectionName req.ref.doc.corpusId)).isSome
  transcribed : Transcribed req children w
  owned : ∀ row ∈ rebuildRows req.ref w, row.parentId.getD "" ≠ "" →
    ∃ parent ∈ parents, parent.parentId = row.parentId.getD ""
  joined : ∀ parent ∈ parents, parent.parentId ≠ "" ∧ Rejoins req (rebuildRows req.ref w) parent

theorem losing_points {name : String} {point : Point} (h : point ∈ (losing ref w).vectors.points name) :
    point.payload.ref ≠ ref := by
  unfold losing VectorStore.points at h
  cases hname : w.vectors name with
  | none => simp [hname] at h
  | some points =>
    simp only [hname, Option.map_some, Option.getD_some] at h
    simpa using (Table.mem_delete.mp h).2

theorem losing_parents {parent : ParentChunk} (h : parent ∈ (losing ref w).parents) :
    parent.ref ≠ ref := by
  simpa [ParentStore.ofVersion] using (Table.mem_delete.mp h).2

theorem chunkRowToPoint_iff {child : ChildChunk} {row : ChunkRecord} (hchild : child.ref = req.ref) :
    svc.chunkRowToPoint row = svc.childChunkToPoint child req.acl.toAclFields .active false ↔
      Transcribes req child row := by
  simp only [Services.chunkRowToPoint, Services.childChunkToPoint, Point.mk.injEq, PointPayload.mk.injEq,
    true_and, hchild]
  constructor
  · rintro ⟨-, href, hparent, hid, hcontent, hpath, hacl⟩
    exact ⟨hid, href, hparent, hcontent, hpath, hacl⟩
  · rintro ⟨hid, href, hparent, hcontent, hpath, hacl⟩
    exact ⟨by rw [hid], href, hparent, hid, hcontent, hpath, hacl⟩

/-- The points a rebuild writes are those of the children exactly if the rows are. -/
theorem transcribed_iff (hrefs : ∀ child ∈ children, child.ref = req.ref) :
    Transcribed req children w ↔ ∀ point : Point, point.payload.ref = req.ref →
      (point ∈ (rebuildRows req.ref w).map svc.chunkRowToPoint ↔
        point ∈ childPoints svc req children .active) := by
  simp only [childPoints, List.mem_map]
  constructor
  · intro h point href
    constructor
    · rintro ⟨row, hrow, rfl⟩
      obtain ⟨child, hchild, hsame⟩ := h.rows row hrow href
      exact ⟨child, hchild, ((chunkRowToPoint_iff (hrefs child hchild)).mpr hsame).symm⟩
    · rintro ⟨child, hchild, rfl⟩
      obtain ⟨row, hrow, hsame⟩ := h.children child hchild
      exact ⟨row, hrow, (chunkRowToPoint_iff (hrefs child hchild)).mpr hsame⟩
  · intro h
    constructor
    · intro row hrow href
      obtain ⟨child, hchild, hsame⟩ := (h (svc.chunkRowToPoint row) href).mp ⟨row, hrow, rfl⟩
      exact ⟨child, hchild, (chunkRowToPoint_iff (hrefs child hchild)).mp hsame.symm⟩
    · intro child hchild
      obtain ⟨row, hrow, hsame⟩ := (h _ (hrefs child hchild)).mpr ⟨child, hchild, rfl⟩
      exact ⟨row, hrow, (chunkRowToPoint_iff (hrefs child hchild)).mp hsame⟩

/-- The parents a rebuild puts back are those of the version exactly if every row belongs to
one of them and their children join to their texts. -/
theorem rebuiltParents_iff (hrefs : ∀ parent ∈ parents, parent.ref = req.ref) :
    (∀ (draft : ParentDraft) (acl : AclFields), draft.ref = req.ref →
      ((∃ parent ∈ rebuiltParents req.ref rows, parent.toParentDraft = draft ∧
          parent.metadata.acl = acl) ↔ draft ∈ parents ∧ acl = req.acl.toAclFields)) ↔
      (∀ row ∈ rows, row.parentId.getD "" ≠ "" →
        ∃ parent ∈ parents, parent.parentId = row.parentId.getD "") ∧
      ∀ parent ∈ parents, parent.parentId ≠ "" ∧ Rejoins req rows parent := by
  constructor
  · intro h
    constructor
    · intro row hrow hnamed
      obtain ⟨first, rest, hchildren⟩ := List.exists_cons_of_ne_nil
        (List.ne_nil_of_mem (mem_childrenOfParent.mpr ⟨hrow, rfl⟩))
      have hput : rejoined req.ref (row.parentId.getD "") first rest ∈ rebuiltParents req.ref rows :=
        mem_rebuiltParents.mpr ⟨hnamed, first, rest, hchildren, rfl⟩
      exact ⟨_, ((h _ _ rfl).mp ⟨_, hput, rfl, rfl⟩).1, rfl⟩
    · intro draft hdraft
      obtain ⟨parent, hparent, rfl, hacl⟩ := (h draft _ (hrefs draft hdraft)).mpr ⟨hdraft, rfl⟩
      obtain ⟨hnamed, first, rest, hchildren, hput⟩ := mem_rebuiltParents.mp hparent
      refine ⟨hnamed, first, rest, hchildren, ?_, ?_, ?_⟩
      · exact (congrArg (fun chunk : ParentChunk => chunk.text) hput).symm
      · exact (congrArg (fun chunk : ParentChunk => chunk.sectionPath) hput).symm
      · rw [← hacl]
        exact (congrArg (fun chunk : ParentChunk => chunk.metadata.acl) hput).symm
  · rintro ⟨howned, hjoined⟩ draft acl href
    have hrejoined : ∀ parent ∈ parents, ∃ first rest,
        childrenOfParent rows parent.parentId = first :: rest ∧
          (rejoined req.ref parent.parentId first rest).toParentDraft = parent ∧
          first.acl = req.acl.toAclFields := by
      intro parent hparent
      obtain ⟨-, first, rest, hchildren, htext, hpath, hacl⟩ := hjoined parent hparent
      refine ⟨first, rest, hchildren, ?_, hacl⟩
      have hdraftref := hrefs parent hparent
      cases parent
      simp_all [rejoined]
    constructor
    · rintro ⟨put, hput, rfl, rfl⟩
      obtain ⟨hnamed, first, rest, hchildren, hputs⟩ := mem_rebuiltParents.mp hput
      have hfirst := mem_childrenOfParent.mp (hchildren ▸ List.mem_cons_self : first ∈ _)
      obtain ⟨parent, hparent, hid⟩ := howned first hfirst.1 (by rw [hfirst.2]; exact hnamed)
      obtain ⟨first', rest', hchildren', hdraft, hacl⟩ := hrejoined parent hparent
      rw [hid, hfirst.2] at hchildren' hdraft
      obtain ⟨rfl, rfl⟩ := List.cons.inj (hchildren.symm.trans hchildren')
      rw [← hputs] at hdraft
      rw [hdraft]
      refine ⟨hparent, ?_⟩
      rw [hputs]
      exact hacl
    · rintro ⟨hdraft, rfl⟩
      obtain ⟨first, rest, hchildren, hsame, hacl⟩ := hrejoined draft hdraft
      refine ⟨_, mem_rebuiltParents.mpr ⟨(hjoined draft hdraft).1, first, rest, hchildren, rfl⟩, hsame, hacl⟩

/-- Rows with different ids have points with different ids. -/
def PointsApart (svc : Services) (w : World) : Prop :=
  ∀ row ∈ w.metadata.chunks, ∀ other ∈ w.metadata.chunks,
    svc.childPointId row.chunkId = svc.childPointId other.chunkId → row.chunkId = other.chunkId

theorem rebuiltPoints_distinct (hkeys : Table.KeyUnique (·.chunkId) w.metadata.chunks)
    (hapart : PointsApart svc w) :
    ∀ first ∈ (rebuildRows ref w).map svc.chunkRowToPoint,
      ∀ second ∈ (rebuildRows ref w).map svc.chunkRowToPoint, first.id = second.id → first = second := by
  intro first hfirst second hsecond hid
  obtain ⟨row, hrow, rfl⟩ := List.mem_map.mp hfirst
  obtain ⟨other, hother, rfl⟩ := List.mem_map.mp hsecond
  have hmem := (List.mem_filter.mp hrow).1
  have hmem' := (List.mem_filter.mp hother).1
  rw [hkeys.eq_of_key hmem hmem' (hapart row hmem other hmem' hid)]

theorem rebuiltParents_distinct :
    ∀ first ∈ rebuiltParents ref rows, ∀ second ∈ rebuiltParents ref rows,
      first.parentId = second.parentId → first = second := by
  intro first hfirst second hsecond hid
  obtain ⟨-, row, rest, hchildren, hput⟩ := mem_rebuiltParents.mp hfirst
  obtain ⟨-, row', rest', hchildren', hput'⟩ := mem_rebuiltParents.mp hsecond
  rw [hid, hchildren'] at hchildren
  obtain ⟨rfl, rfl⟩ := List.cons.inj hchildren
  rw [hput, hput', hid]

/-- The points of the version after a rebuild are those of the rows, in the live collection. -/
theorem rebuilt_points (hkeys : Table.KeyUnique (·.chunkId) w.metadata.chunks)
    (hapart : PointsApart svc w)
    (h : Finishes (rebuildDocument svc ref) () (losing ref w) () () w') (name : String) (point : Point)
    (href : point.payload.ref = ref) :
    point ∈ w'.vectors.points name ↔ name = w.resolveCollectionName ref.doc.corpusId ∧
      point ∈ (rebuildRows ref w).map svc.chunkRowToPoint := by
  obtain ⟨v, hv, rfl⟩ := rebuildDocument_finishes.mp h
  obtain ⟨hlive, hothers⟩ := VectorStore.upsert_ok hv
  have hlost : ∀ name, point ∉ (losing ref w).vectors.points name :=
    fun name hmem => losing_points hmem href
  by_cases hname : name = w.resolveCollectionName ref.doc.corpusId
  · subst hname
    have hstored : point ∈ v.points (w.resolveCollectionName ref.doc.corpusId) ↔
        point ∈ ((rebuildRows ref w).map svc.chunkRowToPoint).foldl upsertPoint
          ((losing ref w).vectors.points (w.resolveCollectionName ref.doc.corpusId)) :=
      iff_of_eq (congrArg (point ∈ ·) hlive)
    rw [hstored, upsertPoint_eq, Table.mem_upsertAll_of_distinct (rebuiltPoints_distinct hkeys hapart)]
    simp [hlost]
  · have hkept : v.points name = (losing ref w).vectors.points name := by
      unfold VectorStore.points
      rw [hothers name hname]
    simp only [hkept, hlost, hname, false_and]

theorem rebuilt_parents (h : Finishes (rebuildDocument svc ref) () (losing ref w) () () w')
    (parent : ParentChunk) (href : parent.ref = ref) :
    parent ∈ w'.parents ↔ parent ∈ rebuiltParents ref (rebuildRows ref w) := by
  obtain ⟨v, -, rfl⟩ := rebuildDocument_finishes.mp h
  have hput : (fun store (parent : ParentChunk) => ParentStore.put parent store) =
      Table.upsert fun parent : ParentChunk => parent.parentId := rfl
  have hlost : parent ∉ (losing ref w).parents := fun hmem => losing_parents hmem href
  dsimp only
  rw [hput, Table.mem_upsertAll_of_distinct rebuiltParents_distinct]
  simp only [hlost, false_and, or_false]
  rfl

/-- An upsert into a collection that exists, or of nothing, returns. -/
theorem upsert_returns {name : String} {batch : List Point} {v : VectorStore}
    (h : batch ≠ [] → (v name).isSome) : ∃ v', VectorStore.upsert name batch v = (.ok (), v') := by
  unfold VectorStore.upsert
  rw [Routine.ite_apply]
  split
  · exact ⟨_, rfl⟩
  · rename_i hsome
    obtain ⟨points, hpoints⟩ := Option.isSome_iff_exists.mp (h (by simpa using hsome))
    simp [VectorStore.modifyCollection, hpoints]

theorem upsert_exists_of_ne_nil {name : String} {batch : List Point} {v v' : VectorStore}
    (h : VectorStore.upsert name batch v = (.ok (), v')) (hbatch : batch ≠ []) : (v name).isSome := by
  unfold VectorStore.upsert at h
  rw [Routine.ite_apply, if_neg (by simpa using hbatch)] at h
  rcases VectorStore.modifyCollection_cases h with ⟨points, hpoints, -, -⟩ | ⟨-, herr, -⟩
  · simp [hpoints]
  · simp at herr

/-- Rebuilding a version that has lost its points and parents returns and restores it if and
only if the chunk rows are those of the chunker and join to the texts of the parents. -/
theorem rebuild_restores (hkeys : Table.KeyUnique (·.chunkId) w.metadata.chunks)
    (hapart : PointsApart svc w) (hparents : ∀ parent ∈ parents, parent.ref = req.ref)
    (hchildren : ∀ child ∈ children, child.ref = req.ref) :
    (∃ w', Finishes (rebuildDocument svc req.ref) () (losing req.ref w) () () w' ∧
      Restored svc req parents children w') ↔ RoundTrips req parents children w := by
  have hpoints := fun w' => @rebuilt_points svc req.ref w w' hkeys hapart
  have hstored : ∀ w', Finishes (rebuildDocument svc req.ref) () (losing req.ref w) () () w' →
      ∀ (draft : ParentDraft) (acl : AclFields), draft.ref = req.ref →
        ((∃ parent ∈ w'.parents, parent.toParentDraft = draft ∧ parent.metadata.acl = acl) ↔
          ∃ parent ∈ rebuiltParents req.ref (rebuildRows req.ref w), parent.toParentDraft = draft ∧
            parent.metadata.acl = acl) := by
    intro w' h draft acl href
    apply exists_congr
    intro parent
    apply and_congr_left
    rintro ⟨rfl, -⟩
    exact rebuilt_parents h parent href
  constructor
  · rintro ⟨w', h, hrestored⟩
    have hrejoin := (rebuiltParents_iff hparents).mp fun draft acl href =>
      (hstored w' h draft acl href).symm.trans (hrestored.parents draft acl href)
    have hsame : ∀ name (point : Point), point.payload.ref = req.ref →
        ((name = w.resolveCollectionName req.ref.doc.corpusId ∧
          point ∈ (rebuildRows req.ref w).map svc.chunkRowToPoint) ↔
            name = req.ref.doc.corpusId ∧ point ∈ childPoints svc req children .active) :=
      fun name point href => (hpoints w' h name point href).symm.trans (hrestored.points name point href)
    refine ⟨?_, ?_, ?_, hrejoin.1, hrejoin.2⟩
    · intro hnonempty
      obtain ⟨child, hchild⟩ := List.exists_mem_of_ne_nil children hnonempty
      exact ((hsame _ _ (hchildren child hchild)).mpr ⟨rfl, List.mem_map_of_mem hchild⟩).1.symm
    · intro hrows
      obtain ⟨v, hv, -⟩ := rebuildDocument_finishes.mp h
      have hbatch : (rebuildRows req.ref (losing req.ref w)).map svc.chunkRowToPoint ≠ [] :=
        fun hnil => hrows (List.map_eq_nil_iff.mp hnil)
      have hlive := upsert_exists_of_ne_nil hv hbatch
      exact (Option.isSome_map ..).symm.trans hlive
    · apply (transcribed_iff hchildren).mpr
      intro point href
      constructor
      · exact fun hmem => ((hsame _ point href).mp ⟨rfl, hmem⟩).2
      · exact fun hmem => ((hsame _ point href).mpr ⟨rfl, hmem⟩).2
  · intro htrips
    have hreturns : ∃ v, VectorStore.upsert (w.resolveCollectionName req.ref.doc.corpusId)
        ((rebuildRows req.ref w).map svc.chunkRowToPoint) (losing req.ref w).vectors = (.ok (), v) := by
      apply upsert_returns
      intro hbatch
      have hlive := htrips.stored (by simpa using hbatch)
      exact (Option.isSome_map ..).trans hlive
    obtain ⟨v, hv⟩ := hreturns
    have hfinishes := (@rebuildDocument_finishes svc req.ref (losing req.ref w) _ ()).mpr ⟨v, hv, rfl⟩
    refine ⟨_, hfinishes, ?_, ?_⟩
    · intro name point href
      rw [hpoints _ hfinishes name point href, (transcribed_iff hchildren).mp htrips.transcribed point href]
      apply and_congr_left
      intro hmem
      have hnonempty : children ≠ [] := by
        rintro rfl
        simp [childPoints] at hmem
      rw [htrips.live hnonempty]
    · intro draft acl href
      rw [hstored _ hfinishes draft acl href]
      exact (rebuiltParents_iff hparents).mpr ⟨htrips.owned, htrips.joined⟩ draft acl href

end RoundTrip

end AgenticRag.DocumentManager

namespace AgenticRag.IngestionJob

open MetadataStore StoreProgram Method DocumentManager

section Ingested

variable {svc : Services} {req : IngestionRequest} {w w' : World} {parents : List ParentDraft} {children : List ChildChunk} {options : RunOptions}
  {result : IngestionResult}

theorem finishes_indexed {τ α : Type} {m : StoreProgram τ α} {t t' : τ} {a : α}
    (h : Finishes m t w a t' w') (hw : w.Indexed) : w'.Indexed := by
  have hruns : (m t).Runs StoreOp.Outcome w (.ok a, t') w' := h
  exact hruns.leads.keeps (fun _ _ _ _ hout hs => StoreOp.indexed hout hs) hw

theorem chunkRecords_ids : (chunkRecords svc req parents children).map (·.chunkId) =
    ownIds parents children := by
  simp only [chunkRecords, ownIds, List.map_append, List.map_map]
  rfl

theorem childRecord_transcribes {child : ChildChunk} :
    Transcribes req child (childRecord svc req child) :=
  ⟨rfl, rfl, rfl, rfl, rfl, rfl⟩

/-- What a run that writes and verifies the version leaves in the chunk table. -/
theorem BuildRun.chunks_verified {start finish : JobState × World} (run : BuildRun svc req start finish)
    (hchunks : svc.chunkMarkdown req.content req.ref = .ok (parents, children))
    (hwrite : ¬Marked req start.2 .writeQdrant) (hverify : ¬Marked req start.2 .verify) :
    finish.2.metadata.chunks = (chunkRecords svc req parents children).foldl
        (Table.upsert fun row => row.chunkId) start.2.metadata.chunks ∧
      (finish.2.metadata.listChunkRecords req.ref).length = (ownIds parents children).length := by
  obtain ⟨-, hwriteDue, hverifyDue, -, -, -⟩ := run.due
  have hafter : finish.2.metadata.chunks = run.uploaded.2.metadata.chunks := by
    rw [run.finished_passes.2.chunks (by simp), run.published_passes.2.chunks (by simp), run.chunks_after]
  constructor
  · rcases run.writeQdrant.cases with ⟨hmarked, -⟩ | ⟨-, w₁, hstep, ⟨steps, hstores⟩, -⟩
    · exact absurd (hwriteDue.mp hmarked) hwrite
    · obtain ⟨hfilled, -, v, -, rfl⟩ := stepWriteQdrant_finishes run.written_passes.1 hstep
      obtain ⟨hparents, hchildren⟩ := hfilled.lists hchunks
      rw [hafter, hstores, ← run.chunks_before, hparents, hchildren]
  · rcases run.verify.cases with ⟨hmarked, -⟩ | ⟨-, w₁, hstep, -, -⟩
    · exact absurd (hverifyDue.mp hmarked) hverify
    · obtain ⟨hfilled, -, -, hverified⟩ := stepVerify_finishes run.uploaded_passes.1 hstep
      obtain ⟨hparents, hchildren⟩ := hfilled.lists hchunks
      have hrecords := hverified.records
      simp only [listChunkRecords, hafter] at hrecords ⊢
      rw [hrecords, hparents, hchildren, ownIds, List.length_append, List.length_map, List.length_map]
      omega

/-- A run that writes and verifies a version that had no other chunk rows leaves it with the
rows of its chunks, whose ids are all different. -/
theorem Built.recorded (hinv : LifecycleInvariant w.metadata)
    (hkeys : Table.KeyUnique (·.chunkId) w'.metadata.chunks) (h : Built svc req options result w w')
    (hchunks : svc.chunkMarkdown req.content req.ref = .ok (parents, children))
    (hwrite : ¬Marked req w .writeQdrant) (hverify : ¬Marked req w .verify)
    (hown : ∀ row ∈ w.metadata.chunks, row.ref = req.ref → row.chunkId ∈ ownIds parents children) :
    (ownIds parents children).Nodup ∧ ∀ row, row.ref = req.ref →
      (row ∈ w'.metadata.chunks ↔ row ∈ chunkRecords svc req parents children) := by
  obtain ⟨acquired, me, me', hacquired, ⟨run⟩⟩ := h.acquired hinv
  obtain ⟨hrows, hcount⟩ := run.chunks_verified hchunks
    (fun hmarked => hwrite ((hacquired.marked _ (by simp)).mp hmarked))
    (fun hmarked => hverify ((hacquired.marked _ (by simp)).mp hmarked))
  dsimp only at hrows hcount
  rw [hacquired.chunks] at hrows
  have hlisted : ((w'.metadata.listChunkRecords req.ref).map (·.chunkId)).Nodup :=
    List.Nodup.sublist (List.Sublist.map _ List.filter_sublist) hkeys
  have hsubset : (w'.metadata.listChunkRecords req.ref).map (·.chunkId) ⊆ ownIds parents children := by
    intro id hid
    obtain ⟨row, hrow, rfl⟩ := List.mem_map.mp hid
    obtain ⟨hmem, href⟩ := Table.mem_select.mp hrow
    rw [hrows, Table.mem_upsertAll] at hmem
    rcases hmem with hlast | ⟨hold, -⟩
    · rw [← chunkRecords_ids]
      exact List.mem_map_of_mem (List.mem_reverse.mp (List.mem_of_find?_eq_some hlast))
    · exact hown row hold (of_decide_eq_true href)
  -- as many different ids as there are chunks: no two chunks share one
  have hperm := (hlisted.subperm hsubset).perm_of_length_le (by rw [List.length_map, hcount])
  have hnodup : (ownIds parents children).Nodup := hperm.nodup_iff.mp hlisted
  refine ⟨hnodup, fun row href => ?_⟩
  rw [hrows, Table.mem_upsertAll_of_distinct]
  · constructor
    · rintro (hnew | ⟨hold, hfresh⟩)
      · exact hnew
      · have hid := hown row hold href
        rw [← chunkRecords_ids] at hid
        obtain ⟨new, hnew, hsame⟩ := List.mem_map.mp hid
        exact absurd hsame (hfresh new hnew)
    · exact Or.inl
  · rw [← chunkRecords_ids] at hnodup
    exact fun first hfirst second hsecond hid => List.inj_on_of_nodup_map hnodup hfirst hsecond hid

/-- The collection the run has written to exists afterwards. -/
theorem BuildRun.collection_exists {start finish : JobState × World} (run : BuildRun svc req start finish)
    (hchunks : svc.chunkMarkdown req.content req.ref = .ok (parents, children))
    (hwrite : ¬Marked req start.2 .writeQdrant) (hnonempty : children ≠ []) :
    (finish.2.vectors req.ref.doc.corpusId).isSome := by
  have hkeeps : ∀ {batch : List Point} {v v' : VectorStore},
      VectorStore.upsert req.ref.doc.corpusId batch v = (.ok (), v') →
        (v req.ref.doc.corpusId).isSome → (v' req.ref.doc.corpusId).isSome := by
    intro batch v v' hv hsome
    obtain ⟨points, hpoints⟩ := Option.isSome_iff_exists.mp hsome
    have hrun : VectorOp.eval (.upsert req.ref.doc.corpusId batch) v = (.ok (), v') := hv
    obtain ⟨points', hkept, -⟩ := VectorOp.keeps_ids (by simp) hrun _ points hpoints
    simp [hkept]
  obtain ⟨-, hwriteDue, -, -, -, -⟩ := run.due
  have huploaded : (run.committed.2.vectors req.ref.doc.corpusId).isSome := by
    rw [run.vectors_between]
    rcases run.writeQdrant.cases with ⟨hmarked, -⟩ | ⟨-, w₁, hstep, ⟨steps, hstores⟩, -⟩
    · exact absurd (hwriteDue.mp hmarked) hwrite
    · obtain ⟨hfilled, -, v, hv, rfl⟩ := stepWriteQdrant_finishes run.written_passes.1 hstep
      rw [(hfilled.lists hchunks).2] at hv
      rw [hstores]
      exact hkeeps hv (upsert_exists_of_ne_nil hv (by simpa [childPoints] using hnonempty))
  rw [run.vectors_after]
  rcases run.publish.cases with ⟨-, hsame⟩ | ⟨-, w₁, hstep, ⟨steps, hstores⟩, -⟩
  · rw [hsame]
    exact huploaded
  · obtain ⟨-, v, v', hv, hv', rfl⟩ := stepPublish_finishes run.committed_passes.1 hstep
    rw [hstores]
    exact hkeeps hv' (hkeeps hv huploaded)

/-- The children of a parent in the order of their ids. -/
def siblings (children : List ChildChunk) (parentId : String) : List ChildChunk :=
  (children.filter fun child => decide (child.parentId = parentId)).insertionSort
    fun first second => first.childId ≤ second.childId

/-- The children of the parent, in the order of their ids, joined by blank lines give its text. -/
def ChildrenRejoin (children : List ChildChunk) (parent : ParentDraft) : Prop :=
  ∃ first rest, siblings children parent.parentId = first :: rest ∧
    String.intercalate "\n\n" ((first :: rest).map (·.text)) = parent.text ∧
    first.sectionPath = parent.sectionPath

theorem childrenOfParent_siblings {rows : List ChunkRecord} (hnodup : (children.map (·.childId)).Nodup)
    (hkeys : Table.KeyUnique (·.chunkId) rows)
    (hrows : ∀ row, row ∈ rows ↔ ∃ child ∈ children, childRecord svc req child = row)
    (parentId : String) :
    childrenOfParent rows parentId = (siblings children parentId).map (childRecord svc req) := by
  have hperm : rows.Perm (children.map (childRecord svc req)) := by
    apply (List.perm_ext_iff_of_nodup (List.Nodup.of_map _ hkeys) ?_).mpr
    · intro row
      rw [hrows, List.mem_map]
    · apply (List.Nodup.of_map _ hnodup).map_on
      intro first hfirst second hsecond hsame
      exact List.inj_on_of_nodup_map hnodup hfirst hsecond (congrArg ChunkRecord.chunkId hsame)
  have htotal : Std.Total fun first second : ChunkRecord => first.chunkId ≤ second.chunkId :=
    ⟨fun first second => String.le_total first.chunkId second.chunkId⟩
  have htrans : IsTrans ChunkRecord fun first second => first.chunkId ≤ second.chunkId :=
    ⟨fun _ _ _ => String.le_trans⟩
  have hsorted : (siblings children parentId).map (childRecord svc req) =
      ((children.map (childRecord svc req)).filter fun row =>
        decide (row.parentId.getD "" = parentId)).insertionSort
          fun first second => first.chunkId ≤ second.chunkId := by
    rw [List.filter_map]
    exact List.map_insertionSort _ _ _ _ fun _ _ _ _ => Iff.rfl
  rw [hsorted, childrenOfParent]
  apply List.Perm.eq_of_pairwise _ (List.pairwise_insertionSort _ _) (List.pairwise_insertionSort _ _)
  · have hfamily := hperm.filter fun row => decide (row.parentId.getD "" = parentId)
    exact (List.perm_insertionSort _ _).trans (hfamily.trans (List.perm_insertionSort _ _).symm)
  · intro first second hfirst hsecond hle hge
    have hfirst' := (List.mem_filter.mp ((List.mem_insertionSort _).mp hfirst)).1
    have hsecond' := (List.mem_filter.mp ((List.mem_insertionSort _).mp hsecond)).1
    exact hkeys.eq_of_key hfirst' (hperm.mem_iff.mpr hsecond') (String.le_antisymm hle hge)

/-- Every child belongs to a parent of the chunker. -/
theorem chunkMarkdown_parent (hchunks : svc.chunkMarkdown req.content req.ref = .ok (parents, children))
    {child : ChildChunk} (hchild : child ∈ children) :
    ∃ parent ∈ parents, parent.parentId = child.parentId := by
  unfold Services.chunkMarkdown at hchunks
  cases hsegs : svc.splitSections req.content with
  | error e => simp [hsegs, Except.map] at hchunks
  | ok segs =>
    simp only [hsegs, Except.map, Except.ok.injEq, Prod.mk.injEq] at hchunks
    obtain ⟨rfl, rfl⟩ := hchunks
    obtain ⟨seg, hseg, hchild⟩ := List.mem_flatMap.mp hchild
    obtain ⟨idx, hidx, rfl⟩ := List.mem_mapIdx.mp hchild
    exact ⟨_, List.mem_map_of_mem hseg, rfl⟩

/-- With the rows of its chunks and no others, a version survives the round trip if the
children of every parent join to its text. -/
theorem roundTrips_iff (hnodup : (ownIds parents children).Nodup) (hw : w.Indexed)
    (hchunks : svc.chunkMarkdown req.content req.ref = .ok (parents, children))
    (hrecords : ∀ row, row.ref = req.ref →
      (row ∈ w.metadata.chunks ↔ row ∈ chunkRecords svc req parents children))
    (halone : ∀ row ∈ rebuildRows req.ref w, row.ref = req.ref)
    (hstored : children ≠ [] → (w.vectors req.ref.doc.corpusId).isSome) :
    RoundTrips req parents children w ↔
      (children ≠ [] → w.resolveCollectionName req.ref.doc.corpusId = req.ref.doc.corpusId) ∧
      ∀ parent ∈ parents, parent.parentId ≠ "" ∧ ChildrenRejoin children parent := by
  have hchildIds : (children.map (·.childId)).Nodup := (List.nodup_append.mp hnodup).1
  have hrows : ∀ row, row ∈ rebuildRows req.ref w ↔ ∃ child ∈ children, childRecord svc req child = row := by
    intro row
    constructor
    · intro hrow
      have href := halone row hrow
      obtain ⟨hmem, hcolumns⟩ := List.mem_filter.mp hrow
      have hrecord := (hrecords row href).mp hmem
      rcases List.mem_append.mp hrecord with hchild | hparent
      · exact List.mem_map.mp hchild
      · obtain ⟨parent, -, rfl⟩ := List.mem_map.mp hparent
        simp [parentRecord, makeChunkRecord] at hcolumns
    · rintro ⟨child, hchild, rfl⟩
      refine List.mem_filter.mpr ⟨(hrecords _ rfl).mpr ?_, by simp [childRecord, makeChunkRecord]⟩
      exact List.mem_append_left _ (List.mem_map_of_mem hchild)
  have hkeys : Table.KeyUnique (·.chunkId) (rebuildRows req.ref w) :=
    List.Nodup.sublist (List.Sublist.map _ List.filter_sublist) hw.chunks
  have hrejoins : ∀ parent, Rejoins req (rebuildRows req.ref w) parent ↔ ChildrenRejoin children parent := by
    intro parent
    unfold Rejoins ChildrenRejoin
    rw [childrenOfParent_siblings hchildIds hkeys hrows]
    cases siblings children parent.parentId with
    | nil => simp
    | cons first rest =>
      have htexts : ((first :: rest).map (childRecord svc req)).map (·.content) =
          (first :: rest).map (·.text) := by
        rw [List.map_map]
        rfl
      constructor
      · rintro ⟨_, _, ⟨⟩, htext, hpath, -⟩
        exact ⟨first, rest, rfl, htexts ▸ htext, hpath⟩
      · rintro ⟨_, _, ⟨⟩, htext, hpath⟩
        exact ⟨_, _, rfl, htexts.symm ▸ htext, hpath, rfl⟩
  constructor
  · intro htrips
    exact ⟨htrips.live, fun parent hparent => ⟨(htrips.joined parent hparent).1,
      (hrejoins parent).mp (htrips.joined parent hparent).2⟩⟩
  · rintro ⟨hlive, hjoined⟩
    refine ⟨hlive, ?_, ⟨?_, ?_⟩, ?_, ?_⟩
    · intro hnonempty
      have hchildren : children ≠ [] := by
        obtain ⟨row, hrow⟩ := List.exists_mem_of_ne_nil _ hnonempty
        obtain ⟨child, hchild, -⟩ := (hrows row).mp hrow
        exact List.ne_nil_of_mem hchild
      rw [hlive hchildren]
      exact hstored hchildren
    · intro row hrow _
      obtain ⟨child, hchild, rfl⟩ := (hrows row).mp hrow
      exact ⟨child, hchild, childRecord_transcribes⟩
    · intro child hchild
      exact ⟨_, (hrows _).mpr ⟨child, hchild, rfl⟩, childRecord_transcribes⟩
    · intro row hrow _
      obtain ⟨child, hchild, rfl⟩ := (hrows row).mp hrow
      exact chunkMarkdown_parent hchunks hchild
    · exact fun parent hparent => ⟨(hjoined parent hparent).1, (hrejoins parent).mpr (hjoined parent hparent).2⟩

end Ingested

end AgenticRag.IngestionJob

namespace AgenticRag

open StoreProgram Method IngestionJob DocumentManager

/-- In every state that calls reach, let a run ingest the version and be reported as indexed,
and let the points and parents of the version then be lost: the rebuild returns and restores
the published points and the parents exactly if the chunk rows round-trip. If the run itself
has written and verified the version, the version had no other chunk rows, and no other tenant
has child rows with its corpus, document id and version, that comes down to the texts: the
children of every parent, joined in the order of their ids, must give its text. -/
theorem rebuild_restores_iff (svc : Services) (req : IngestionRequest) (options : RunOptions)
    (hfull : options.maxStep = none) {w₀ w : World} (hfresh : w₀.Fresh) (hempty : w₀.metadata.chunks = [])
    {P : Pool World StoreOp PyError ManagerCall Unit}
    (hreached : (managerSystem svc).Reaches (fun _ _ _ => True) ⟨w₀, []⟩ P)
    {result : IngestionResult} {me : JobState}
    (hrun : Finishes (runBody svc req options) initial P.store result me w)
    (hindexed : result.status = .indexed) {parents : List ParentDraft} {children : List ChildChunk}
    (hchunks : svc.chunkMarkdown req.content req.ref = .ok (parents, children))
    (hapart : PointsApart svc w) :
    ((∃ w', Finishes (rebuildDocument svc req.ref) () (losing req.ref w) () () w' ∧
        Restored svc req parents children w') ↔ RoundTrips req parents children w) ∧
    (¬Marked req P.store .writeQdrant → ¬Marked req P.store .verify →
      (∀ row ∈ P.store.metadata.chunks, row.ref = req.ref → row.chunkId ∈ ownIds parents children) →
      (∀ row ∈ rebuildRows req.ref w, row.ref = req.ref) →
      (RoundTrips req parents children w ↔
        (children ≠ [] → w.resolveCollectionName req.ref.doc.corpusId = req.ref.doc.corpusId) ∧
        ∀ parent ∈ parents, parent.parentId ≠ "" ∧ ChildrenRejoin children parent)) := by
  have hstart : w₀.Indexed := ⟨hfresh.ordered.points, by simp [hempty, Table.KeyUnique]⟩
  have hw : w.Indexed := finishes_indexed hrun (managerSystem_indexed hstart hreached)
  obtain ⟨hparents, hchildren⟩ := svc.chunkMarkdown_ref hchunks
  refine ⟨rebuild_restores hw.chunks hapart hparents hchildren, ?_⟩
  intro hwrite hverify hown halone
  have hbuilt := runBody_indexed hfull hindexed hrun
  have hinv := (managerSystem_ordered hfresh hreached).lifecycle
  obtain ⟨hnodup, hrecords⟩ := hbuilt.recorded hinv hw.chunks hchunks hwrite hverify hown
  apply roundTrips_iff hnodup hw hchunks hrecords halone
  intro hnonempty
  obtain ⟨acquired, me, me', hacquired, ⟨run⟩⟩ := hbuilt.acquired hinv
  exact run.collection_exists hchunks
    (fun hmarked => hwrite ((hacquired.marked _ (by simp)).mp hmarked)) hnonempty

/-- Children of five characters without overlap, for the content of the runs below. -/
private def splitting : Services where
  sha256 := fun text => String.ofList text.toList.reverse
  childPointId := Sample.services.childPointId
  splitSections := Sample.services.splitSections
  splitChildren := fun text => if text = "aa bb cc" then ["aa bb", "cc"] else [text]

private def ingestContent (content : String) : (Except PyError IngestionResult × JobState) × World :=
  (runBody splitting (Sample.request "job-1" "v1" content) (Sample.attempt "b") initial).exec
    StoreOp.eval Sample.world

private def chunksFor (content : String) : List ParentDraft × List ChildChunk :=
  match splitting.chunkMarkdown content ⟨Sample.doc, "v1"⟩ with
  | .ok chunks => chunks
  | .error _ => ([], [])

private def rebuildLost (content : String) : (Except PyError Unit × Unit) × World :=
  (rebuildDocument splitting ⟨Sample.doc, "v1"⟩ ()).exec StoreOp.eval
    (losing ⟨Sample.doc, "v1"⟩ (ingestContent content).2)

/-- A section with one child that is the section survives. -/
theorem rebuild_restores_single_child :
    ∃ w', Finishes (rebuildDocument splitting ⟨Sample.doc, "v1"⟩) ()
        (losing ⟨Sample.doc, "v1"⟩ (ingestContent "text").2) () () w' ∧
      Restored splitting (Sample.request "job-1" "v1" "text") (chunksFor "text").1 (chunksFor "text").2 w' := by
  have hresult : (ingestContent "text").1.1 =
      .ok { status := .indexed, parentCount := 1, childCount := 1, errorCode := none } := by
    decide +kernel
  have hapart : PointsApart splitting (ingestContent "text").2 := by
    unfold PointsApart
    decide +kernel
  have hjoined : ∀ parent ∈ (chunksFor "text").1, parent.parentId ≠ "" ∧
      ∃ only ∈ (chunksFor "text").2, siblings (chunksFor "text").2 parent.parentId = [only] ∧
        String.intercalate "\n\n" [only.text] = parent.text ∧ only.sectionPath = parent.sectionPath := by
    decide +kernel
  have hchunks : splitting.chunkMarkdown "text" ⟨Sample.doc, "v1"⟩ = .ok (chunksFor "text") := rfl
  obtain ⟨hrestores, htexts⟩ := rebuild_restores_iff splitting (Sample.request "job-1" "v1" "text")
    (Sample.attempt "b") rfl sampleWorld_fresh rfl ((managerMachine splitting).play_reaches ⟨Sample.world, []⟩ [])
    (finishes_exec hresult) rfl hchunks hapart
  apply hrestores.mpr
  apply (htexts (by decide +kernel) (by decide +kernel) (by decide +kernel) (by decide +kernel)).mpr
  refine ⟨fun _ => by decide +kernel, fun parent hparent => ?_⟩
  obtain ⟨hnamed, only, -, hsiblings, htext, hpath⟩ := hjoined parent hparent
  exact ⟨hnamed, only, [], hsiblings, htext, hpath⟩

/-- The parent of two children comes back as `aa bb`, a blank line and `cc`. -/
theorem rebuild_restores_counterexample :
    ∃ result me w w', Sample.world.Fresh ∧
      Finishes (runBody splitting (Sample.request "job-1" "v1" "aa bb cc") (Sample.attempt "b")) initial
        Sample.world result me w ∧ result.status = .indexed ∧
      Finishes (rebuildDocument splitting ⟨Sample.doc, "v1"⟩) () (losing ⟨Sample.doc, "v1"⟩ w) () () w' ∧
      splitting.chunkMarkdown "aa bb cc" ⟨Sample.doc, "v1"⟩ = .ok (chunksFor "aa bb cc") ∧
      ¬Restored splitting (Sample.request "job-1" "v1" "aa bb cc") (chunksFor "aa bb cc").1
        (chunksFor "aa bb cc").2 w' := by
  have hresult : (ingestContent "aa bb cc").1.1 =
      .ok { status := .indexed, parentCount := 1, childCount := 2, errorCode := none } := by
    decide +kernel
  have hreturned : (rebuildLost "aa bb cc").1.1 = .ok () := by decide +kernel
  refine ⟨_, _, _, (rebuildLost "aa bb cc").2, sampleWorld_fresh, finishes_exec hresult, rfl,
    finishes_exec hreturned, rfl, fun hrestored => ?_⟩
  have hlost : ∃ draft ∈ (chunksFor "aa bb cc").1, draft.ref = ⟨Sample.doc, "v1"⟩ ∧
      ∀ parent ∈ (rebuildLost "aa bb cc").2.parents, parent.toParentDraft ≠ draft := by
    decide +kernel
  obtain ⟨draft, hdraft, href, hmissing⟩ := hlost
  obtain ⟨parent, hparent, hsame, -⟩ := (hrestored.parents draft _ href).mpr ⟨hdraft, rfl⟩
  exact hmissing parent hparent hsame

end AgenticRag
