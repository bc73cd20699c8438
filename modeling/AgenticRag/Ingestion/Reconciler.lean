import AgenticRag.Foundations.Execution
import AgenticRag.Ingestion.DocumentManager
import Mathlib.Data.String.Basic

/-!
# The reconciler

`Reconciler` of `ingestion/reconciler.py`, not in dry-run mode, with the purge and
rebuild callbacks of `DocumentManager` and no callback for dead-letter jobs. The
findings are collected and written at the end; their detail texts and the rows of
`reconciliation_runs` are left out. Versions of one corpus are compared by tenant,
document and version: the corpus a point names is not part of the key.
-/

namespace AgenticRag

/-- `(tenant_id, document_id, version)`. -/
abbrev VersionKey := String × String × String

def VersionRef.key (ref : VersionRef) : VersionKey :=
  (ref.doc.tenantId, ref.doc.documentId, ref.version)

def VersionKey.within (key : VersionKey) (corpusId : String) : VersionRef :=
  ⟨⟨key.1, corpusId, key.2.1⟩, key.2.2⟩

/-- The order of Python tuples. -/
def VersionKey.le (first second : VersionKey) : Prop :=
  first.1 < second.1 ∨ (first.1 = second.1 ∧
    (first.2.1 < second.2.1 ∨ (first.2.1 = second.2.1 ∧ first.2.2 ≤ second.2.2)))

instance : DecidableRel VersionKey.le := fun _ _ => inferInstanceAs (Decidable (_ ∨ _))

/-- `sorted` of a set. -/
def sortedKeys (keys : List VersionKey) : List VersionKey := keys.dedup.insertionSort VersionKey.le

@[simp] theorem mem_sortedKeys {keys : List VersionKey} {key : VersionKey} :
    key ∈ sortedKeys keys ↔ key ∈ keys := by
  simp [sortedKeys]

namespace MetadataStore

/-- The `corpus_registry` row that `WHERE corpus_id=?` finds. Several tenants can have a corpus of
that id; the query walks the primary key `(corpus_id, tenant_id)` and takes the first. -/
def registeredRow (corpora : List CorpusRow) (corpusId : String) : Option CorpusRow :=
  Table.selectFirst (·.tenantId) (fun row => decide (row.corpusId = corpusId)) corpora

def getActiveCollection (s : MetadataStore) (corpusId : String) : Option String :=
  (registeredRow s.corpora corpusId).bind (·.vectorCollection)

def iterKnownDocumentVersions (s : MetadataStore) (corpusId : String) : List VersionKey :=
  (Table.select (fun row => decide (row.ref.doc.corpusId = corpusId)) s.documents).map (·.ref.key)

def iterInStatus (status : DocumentStatus) (s : MetadataStore) (corpusId : String) :
    List VersionKey :=
  (Table.select (fun row => decide (row.ref.doc.corpusId = corpusId ∧ row.status = status))
    s.documents).map (·.ref.key)

def iterActiveDocumentVersions : MetadataStore → String → List VersionKey := iterInStatus .active

def iterDeletedDocumentIds : MetadataStore → String → List VersionKey := iterInStatus .deleted

def iterFailedJobIds (s : MetadataStore) (corpusId : String) : List String :=
  (Table.select (fun row => decide (row.ref.doc.corpusId = corpusId ∧ row.status = .failed))
    s.jobs).map (·.jobId)

end MetadataStore

namespace Reconciler

open StoreProgram Method

/-- A finding about the corpus as a whole. -/
def corpusFinding (kind corpusId : String) : Finding :=
  { kind, corpusId, tenantId := none, documentId := none, documentVersion := none }

def versionFinding (kind corpusId : String) (key : VersionKey) : Finding :=
  { kind, corpusId, tenantId := some key.1, documentId := some key.2.1,
    documentVersion := some key.2.2 }

/-- `persisted_collection or corpus_id`. -/
def effectiveCollection (corpusId : String) (persisted : Option String) : String :=
  match persisted with
  | some name => if name = "" then corpusId else name
  | none => corpusId

/-- The live pointer follows the persisted one. -/
def realignPointer (corpusId : String) : ManagerProgram (List Finding) := do
  let persisted ← read fun w => w.metadata.getActiveCollection corpusId
  let live ← read fun w => w.resolveCollectionName corpusId
  if live ≠ effectiveCollection corpusId persisted then do
    setPointer corpusId (effectiveCollection corpusId persisted)
    pure [corpusFinding "registry_mismatch" corpusId]
  else
    pure []

/-- `scroll_all` of a collection that may be missing. -/
def scanCollection (name : String) : ManagerProgram (List Point) := do
  let present ← read fun w => (w.vectors name).isSome
  if present then tryRead fun w => w.vectors.scrollAll name else pure []

/-- One point: an orphan is removed, a stale status rewritten. -/
def reconcilePoint (name corpusId : String) (active known : List VersionKey) (point : Point) :
    ManagerProgram (List Finding) :=
  let key := point.payload.ref.key
  if key ∉ known then do
    vectors (.delete name [point.id])
    pure [versionFinding "orphan_qdrant_point" corpusId key]
  else if key ∈ active ∧ point.payload.status ≠ .active then do
    vectors (.updatePayload name [point.id] (.lifecycle .active false))
    pure [versionFinding "stale_qdrant_status" corpusId key]
  else if key ∉ active ∧ point.payload.status = .active then do
    vectors (.updatePayload name [point.id] (.lifecycle .deprecated true))
    pure [versionFinding "stale_qdrant_status" corpusId key]
  else
    pure []

/-- The `rebuild_document` callback with its finding. -/
def rebuild (svc : Services) (corpusId kind : String) (key : VersionKey) :
    ManagerProgram (List Finding) := do
  DocumentManager.rebuildDocument svc (key.within corpusId)
  pure [versionFinding kind corpusId key]

/-- A version with points is rebuilt if it has no parents. -/
def reconcileParents (svc : Services) (corpusId : String) (key : VersionKey) :
    ManagerProgram (List Finding) := do
  let parentIds ← read fun w => w.parents.listParentIds (key.within corpusId)
  if parentIds = [] then rebuild svc corpusId "missing_parent_chunk" key else pure []

/-- One active version; `present` are the keys of the scanned points. -/
def reconcileActive (svc : Services) (corpusId : String) (present : List VersionKey)
    (key : VersionKey) : ManagerProgram (List Finding) :=
  if key ∉ present then rebuild svc corpusId "missing_qdrant_point" key
  else reconcileParents svc corpusId key

/-- The points of one version, none if the collection is missing. -/
def lingeringPointIds (name : String) (ref : VersionRef) : ManagerProgram (List String) := do
  let present ← read fun w => (w.vectors name).isSome
  if present then DocumentManager.listPointIds name ref else pure []

/-- One deleted version: what lingers is purged, with the whole document. -/
def reconcileDeleted (name corpusId : String) (key : VersionKey) :
    ManagerProgram (List Finding) := do
  let pointIds ← lingeringPointIds name (key.within corpusId)
  let parentIds ← read fun w => w.parents.listParentIds (key.within corpusId)
  if pointIds ≠ [] ∨ parentIds ≠ [] then do
    DocumentManager.reconcilePurge (key.within corpusId).doc
    pure [versionFinding "post_commit_cleanup_failure" corpusId key]
  else
    pure []

/-- The stored parent should be shown exactly if its version is active. -/
def syncParent (corpusId : String) (active : List VersionKey) (ref : VersionRef)
    (stored : Option ParentChunk) : ManagerProgram (List Finding) :=
  let shown := decide (stored.map (·.metadata.status) = some .active)
  let hidden := (stored.map (·.metadata.deprecated)).getD false
  if ref.key ∈ active ∧ (!shown || hidden) then do
    parents (.activateDocument ref)
    pure [versionFinding "stale_parent_status" corpusId ref.key]
  else if ref.key ∉ active ∧ shown ∧ !hidden then do
    parents (.deprecateDocument ref)
    pure [versionFinding "stale_parent_status" corpusId ref.key]
  else
    pure []

/-- One parent: an orphan is removed, a stale status rewritten. -/
def reconcileParent (corpusId : String) (active known : List VersionKey) (parent : ParentChunk) :
    ManagerProgram (List Finding) :=
  if parent.ref.doc.corpusId ≠ corpusId then
    pure []
  else if parent.ref.key ∉ known then do
    parents (.delete parent.parentId)
    pure [versionFinding "orphan_parent_chunk" corpusId parent.ref.key]
  else do
    let stored ← read fun w => w.parents.get parent.parentId
    syncParent corpusId active parent.ref stored

/-- The sweep over points, active versions, deleted versions and parents. -/
def sweep (svc : Services) (name corpusId : String) (active known deleted : List VersionKey) :
    ManagerProgram (List Finding) := do
  let points ← scanCollection name
  let stale ← collect points (reconcilePoint name corpusId active known)
  let missing ← collect (sortedKeys active)
    (reconcileActive svc corpusId (points.map (·.payload.ref.key)))
  let lingering ← collect (sortedKeys deleted) (reconcileDeleted name corpusId)
  let allParents ← read fun w => w.parents
  let orphans ← collect allParents (reconcileParent corpusId active known)
  pure (stale ++ missing ++ lingering ++ orphans)

def reconcile (svc : Services) (corpusId : String) : ManagerProgram Unit := do
  let mismatch ← realignPointer corpusId
  let name ← DocumentManager.collection corpusId
  let active ← read fun w => w.metadata.iterActiveDocumentVersions corpusId
  let known ← read fun w => w.metadata.iterKnownDocumentVersions corpusId
  let deleted ← read fun w => w.metadata.iterDeletedDocumentIds corpusId
  let found ← sweep svc name corpusId active known deleted
  let failedJobs ← read fun w => w.metadata.iterFailedJobIds corpusId
  forEach (mismatch ++ found ++ failedJobs.map fun _ => corpusFinding "dead_letter_orphan" corpusId)
    recordFinding

/-- `reconcile_corpus`; `leased` is the answer of `acquire_reconciler_lease`. -/
def reconcileCorpus (svc : Services) (corpusId : String) (leased : Bool) : ManagerProgram Unit :=
  if leased then reconcile svc corpusId else pure ()

end Reconciler

end AgenticRag
