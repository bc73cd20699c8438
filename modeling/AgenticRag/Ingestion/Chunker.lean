import AgenticRag.Storage.DataPlane

/-!
# Chunk identities

`_create_child_chunks` of `ingestion/chunker.py` and the mappings from a child
chunk to a Qdrant point. The hash functions and the text splitting that comes
before (`split_text`, merging and rebalancing of sections) are parameters.
-/

namespace AgenticRag

/-- A section after rebalancing, with the headings above it. -/
structure Section where
  text : String
  headings : List (String × String)
  deriving DecidableEq, Repr

/-- The pure services ingestion relies on. -/
structure Services where
  /-- `hashlib.sha256(·).hexdigest()` -/
  sha256 : String → String
  /-- `str(uuid5(_CHUNK_NAMESPACE, ·))` -/
  childPointId : String → String
  /-- the sections of a document, or the `ValueError` of an oversized parent -/
  splitSections : String → Except PyError (List Section)
  /-- `_child_splitter.split_text` -/
  splitChildren : String → List String

namespace Services

variable (svc : Services)

/-- `hexdigest()[:_PARENT_ID_LEN]`. -/
def contentId (blob : String) : String :=
  String.ofList ((svc.sha256 blob).toList.take 32)

def sectionPath (seg : Section) : List String :=
  ["H1", "H2", "H3"].filterMap fun level =>
    match seg.headings.lookup level with
    | some value => if value = "" then none else some value
    | none => none

def makeParentId (ref : VersionRef) (path : List String) (text : String) : String :=
  svc.contentId <| String.intercalate "|"
    [ref.doc.tenantId, ref.doc.corpusId, ref.doc.documentId, ref.version,
      String.intercalate " > " path, text]

def makeChildId (parentId : String) (idx : Nat) (text : String) : String :=
  svc.contentId (String.intercalate "|" [parentId, toString idx, text])

def parentOf (ref : VersionRef) (seg : Section) : ParentDraft where
  parentId := svc.makeParentId ref (sectionPath seg) seg.text
  ref := ref
  text := seg.text
  sectionPath := sectionPath seg

def childrenOf (ref : VersionRef) (seg : Section) : List ChildChunk :=
  let parentId := svc.makeParentId ref (sectionPath seg) seg.text
  (svc.splitChildren seg.text).mapIdx fun idx text =>
    { childId := svc.makeChildId parentId idx text
      parentId := parentId
      ref := ref
      text := text
      sectionPath := sectionPath seg }

def chunkMarkdown (content : String) (ref : VersionRef) :
    Except PyError (List ParentDraft × List ChildChunk) :=
  (svc.splitSections content).map fun segs =>
    (segs.map (svc.parentOf ref), segs.flatMap (svc.childrenOf ref))

/-- Every chunk carries the identity it was made for. -/
theorem chunkMarkdown_ref {content : String} {ref : VersionRef} {parents : List ParentDraft}
    {children : List ChildChunk} (h : svc.chunkMarkdown content ref = .ok (parents, children)) :
    (∀ parent ∈ parents, parent.ref = ref) ∧ ∀ child ∈ children, child.ref = ref := by
  unfold chunkMarkdown at h
  cases hsegs : svc.splitSections content with
  | error e => simp [hsegs, Except.map] at h
  | ok segs =>
    simp only [hsegs, Except.map, Except.ok.injEq, Prod.mk.injEq] at h
    obtain ⟨rfl, rfl⟩ := h
    constructor
    · intro parent hparent
      obtain ⟨seg, -, rfl⟩ := List.mem_map.mp hparent
      rfl
    · intro child hchild
      obtain ⟨seg, -, hchild⟩ := List.mem_flatMap.mp hchild
      obtain ⟨idx, hidx, rfl⟩ := List.mem_mapIdx.mp hchild
      rfl

/-- `child_chunk_to_point`. The caller's ACL belongs to the child's tenant, which
`IngestionJob.__init__` has checked. -/
def childChunkToPoint (child : ChildChunk) (acl : AclFields) (status : PayloadStatus)
    (deprecated : Bool) : Point where
  id := svc.childPointId child.childId
  payload :=
    { ref := child.ref
      parentId := some child.parentId
      chunkId := child.childId
      text := child.text
      sectionPath := child.sectionPath
      status := status
      deprecated := deprecated
      acl := acl }

/-- `_chunk_row_to_point`: a point rebuilt from a child row, always active. -/
def chunkRowToPoint (row : ChunkRecord) : Point where
  id := svc.childPointId row.chunkId
  payload :=
    { ref := row.ref
      parentId := row.parentId
      chunkId := row.chunkId
      text := row.content
      sectionPath := row.sectionPath
      status := .active
      deprecated := false
      acl := row.acl }

end Services

end AgenticRag
