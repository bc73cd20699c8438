import AgenticRag.Ingestion.Job
import AgenticRag.Security.Policy

/-!
# Document mutations

`DocumentManager` of `ingestion/job.py`: update, logical delete, purge, ACL
tightening, rollback, and the two callbacks the reconciler is wired to. The
manager holds no attributes of its own; its collection is the one the live
registry points to.
-/

namespace AgenticRag

abbrev ManagerProgram := StoreProgram Unit

namespace DocumentManager

open StoreProgram Method

def collection (corpusId : String) : ManagerProgram String :=
  read fun w => w.resolveCollectionName corpusId

/-- `list_point_ids_by_document` on the live collection. -/
def listPointIds (name : String) (ref : VersionRef) : ManagerProgram (List String) :=
  tryRead fun w => w.vectors.listPointIdsByDocument name ref

def resolveActive (ctx : SecurityContext) (corpusId documentId : String) :
    ManagerProgram SourceDocument := do
  let found ← tryRead fun w => w.metadata.getActiveDocument ⟨ctx.tenantId, corpusId, documentId⟩
  match found with
  | none => raise (.documentMutationError "no active document")
  | some document =>
    if canManageDocument ctx document then pure document
    else raise (.documentMutationError "caller not authorized to mutate document")

/-- `ingest`: a fresh job for the request, whose ACL must belong to its tenant. -/
def ingest (svc : Services) (ref : VersionRef) (content : String) (acl : ResourceAcl)
    (jobId : String) (source : SourceMeta) (options : RunOptions) :
    ManagerProgram IngestionResult :=
  if h : acl.tenantId = ref.doc.tenantId then
    onObject (IngestionJob.runBody svc ⟨ref, content, acl, jobId, source, h⟩ options)
      IngestionJob.initial
  else
    raise (.valueError "ACL tenant != document tenant")

/-- The keyword arguments of `update`. `**meta` sets attributes of the request that is built
from the active document: its tenant, if it is among them, and source and pipeline attributes.
The other attributes are parameters of their own. `attemptId` is the `uuid4` of the run. -/
structure UpdateArgs where
  content : String
  jobId : String
  documentVersion : Option String
  acl : Option ResourceAcl
  tenantId : Option String
  overrides : SourceMeta → SourceMeta
  attemptId : String

/-- `document_version or _sha256(content)`. -/
def UpdateArgs.version (svc : Services) (args : UpdateArgs) : String :=
  match args.documentVersion with
  | some version => if version = "" then svc.sha256 args.content else version
  | none => svc.sha256 args.content

/-- `update`: ingest the content as a version of its own, with the attributes of the active
one. -/
def update (svc : Services) (ctx : SecurityContext) (corpusId documentId : String)
    (args : UpdateArgs) : ManagerProgram IngestionResult := do
  let document ← resolveActive ctx corpusId documentId
  ingest svc ⟨⟨args.tenantId.getD document.ref.doc.tenantId, corpusId, documentId⟩, args.version svc⟩
    args.content (args.acl.getD (aclFromDoc document)) args.jobId (args.overrides document.source)
    { maxStep := none, recover := false, attemptId := args.attemptId }

/-- `delete`: control plane first, then the payloads and the parents. -/
def delete (ctx : SecurityContext) (corpusId documentId : String) : ManagerProgram Unit := do
  let found ← tryRead fun w => w.metadata.getDocumentLatest ⟨ctx.tenantId, corpusId, documentId⟩
  match found with
  | none => raise (.documentMutationError "no document")
  | some document =>
    if !canManageDocument ctx document then
      raise (.documentMutationError "caller not authorized to mutate document")
    else if document.status = .deleted then
      pure ()
    else
      let _ ← metadata (.logicalDelete document.ref)
      let name ← collection corpusId
      let pointIds ← listPointIds name document.ref
      vectors (.updatePayload name pointIds (.lifecycle .deleted true))
      parents (.deprecateDocument document.ref)

/-- One version of `purge` and `reconcile_purge`. -/
def purgeVersion (name : String) (ref : VersionRef) : ManagerProgram Unit := do
  let pointIds ← listPointIds name ref
  vectors (.delete name pointIds)
  parents (.deleteDocument ref)
  metadata (.deleteChunkRecords ref)

/-- `reconcile_purge`: every version of the document, whatever its status. -/
def reconcilePurge (doc : DocRef) : ManagerProgram Unit := do
  let name ← collection doc.corpusId
  let versions ← read fun w => w.metadata.listDocumentVersions doc
  forEach versions fun version => purgeVersion name ⟨doc, version⟩
  metadata (.deleteDocument doc)

/-- `purge`: only for a document whose latest version is deleted. -/
def purge (ctx : SecurityContext) (corpusId documentId : String) : ManagerProgram Unit := do
  let found ← tryRead fun w => w.metadata.getDocumentLatest ⟨ctx.tenantId, corpusId, documentId⟩
  match found with
  | none => pure ()
  | some document =>
    if !canManageDocument ctx document then
      raise (.documentMutationError "caller not authorized to purge document")
    else if document.status ≠ .deleted then
      raise (.documentMutationError "refuse to purge non-deleted document")
    else
      reconcilePurge document.ref.doc

/-- `tighten_acl`: control plane first, then the payloads and the parents. -/
def tightenAcl (ctx : SecurityContext) (corpusId documentId : String) (acl : ResourceAcl) :
    ManagerProgram Unit := do
  let document ← resolveActive ctx corpusId documentId
  if !isAclTightening (aclFromDoc document) acl then
    raise (.documentMutationError "ACL change is a widening, not a tightening")
  else
    metadata (.updateDocumentAcl document.ref acl.toAclFields)
    let name ← collection corpusId
    let pointIds ← listPointIds name document.ref
    vectors (.updatePayload name pointIds (.access acl.toAclFields))
    parents (.updateAclDocument document.ref acl.toAclFields)

def syncVersionStatus (name : String) (ref : VersionRef) (active : Bool) : ManagerProgram Unit := do
  let pointIds ← listPointIds name ref
  if active then
    vectors (.updatePayload name pointIds (.lifecycle .active false))
    parents (.activateDocument ref)
  else
    vectors (.updatePayload name pointIds (.lifecycle .deprecated true))
    parents (.deprecateDocument ref)

/-- `_sync_version_status` of a version that may be missing. -/
def syncVersion (name : String) (doc : DocRef) (version : Option String) (active : Bool) :
    ManagerProgram Unit :=
  match version with
  | some version => syncVersionStatus name ⟨doc, version⟩ active
  | none => pure ()

/-- The data-plane half of a rollback: show the target, hide the version that was
active before unless it is the target. -/
def syncRollback (name : String) (doc : DocRef) (target previous : Option String) :
    ManagerProgram Unit := do
  syncVersion name doc target true
  syncVersion name doc (previous.filter fun version => decide (some version ≠ target)) false

def rolledBackTo (doc : DocRef) (toVersion : Option String) : ManagerProgram (Option String) :=
  match toVersion with
  | some version => pure (some version)
  | none => read fun w => w.metadata.getActiveVersion doc

/-- A failed synchronisation leaves a finding and is raised again. -/
def recordSyncFailure (doc : DocRef) (target : Option String) (e : PyError) :
    ManagerProgram Unit := do
  recordFinding
    { kind := "rollback_data_plane_sync_failed"
      corpusId := doc.corpusId
      tenantId := some doc.tenantId
      documentId := some doc.documentId
      documentVersion := target }
  reraise e

def rollbackActiveVersion (doc : DocRef) (toVersion : Option String)
    (expectedRevision : Option Nat) : ManagerProgram (Nat × Option String) := do
  let switched ← metadata (.rollbackActiveVersion doc toVersion expectedRevision)
  let target ← rolledBackTo doc toVersion
  let name ← collection doc.corpusId
  tryCatch (syncRollback name doc target switched.2) (recordSyncFailure doc target)
  pure switched

section Rebuild

/-- The child rows `iter_child_chunks` yields for one version: the tenant is not
part of the filter. -/
def childChunksOf (corpusId documentId version : String) (s : MetadataStore) :
    List ChunkRecord :=
  s.chunks.filter fun row =>
    decide (row.ref.doc.corpusId = corpusId ∧ row.chunkType = .child ∧
      row.ref.doc.documentId = documentId ∧ row.ref.version = version)

/-- The parent ids of the rows, in the order they first appear. -/
def parentIdsOf : List ChunkRecord → List String
  | [] => []
  | row :: rows =>
    let parentId := row.parentId.getD ""
    parentId :: (parentIdsOf rows).filter fun other => decide (other ≠ parentId)

def childrenOfParent (rows : List ChunkRecord) (parentId : String) : List ChunkRecord :=
  (rows.filter fun row => decide (row.parentId.getD "" = parentId)).insertionSort
    fun first second => first.chunkId ≤ second.chunkId

/-- The parent put back from its child rows; ACL and section path come from the
first child. -/
def rebuiltParent (ref : VersionRef) (parentId : String) (children : List ChunkRecord) :
    Option ParentChunk :=
  match children with
  | [] => none
  | first :: _ =>
    some
      { parentId := parentId
        ref := ref
        text := String.intercalate "\n\n" (children.map (·.content))
        sectionPath := first.sectionPath
        metadata := { status := .active, deprecated := false, acl := first.acl } }

def rebuildParents (ref : VersionRef) (rows : List ChunkRecord) : ManagerProgram Unit :=
  forEach (parentIdsOf rows) fun parentId =>
    if parentId = "" then
      pure ()
    else
      match rebuiltParent ref parentId (childrenOfParent rows parentId) with
      | some parent => parents (.put parent)
      | none => pure ()

def rebuildDocument (svc : Services) (ref : VersionRef) : ManagerProgram Unit := do
  let name ← collection ref.doc.corpusId
  let rows ← read fun w =>
    childChunksOf ref.doc.corpusId ref.doc.documentId ref.version w.metadata
  vectors (.upsert name (rows.map svc.chunkRowToPoint))
  rebuildParents ref rows

end Rebuild

end DocumentManager

end AgenticRag
