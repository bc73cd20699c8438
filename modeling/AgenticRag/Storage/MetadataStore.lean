import AgenticRag.Foundations.Routine
import AgenticRag.Foundations.Table
import AgenticRag.Domain

/-!
# The metadata store

`storage/metadata_store.py`: the control-plane tables and the statements and
transactions on them. Each definition is the method of the same name. A method
whose body runs between `BEGIN IMMEDIATE` and `COMMIT` is a `transaction`; a bare
statement commits by itself. Constraint violations (the foreign keys and the
partial unique index `idx_documents_active_version`) raise `integrityError`.

Left out: columns no modelled method reads back (`started_at`, `error_message`,
the pipeline versions of a job, audit timestamps), schema migrations and the
tables of later modules.
-/

namespace AgenticRag

/-- The reason carried by `ActiveVersionConflict`. -/
inductive SwitchConflict where
  | staleRevision (expected current : Nat)
  | newVersionNotFound (version : String)
  | noActiveVersion (documentId : String)
  | noRollbackCandidate (documentId : String)
  | targetNotFound (version : String)
  | purgedTarget (version : String)
  | targetVanished (version : String)
  deriving DecidableEq, Repr

/-- The reason carried by `BuildConflict`. -/
inductive LeaseConflict where
  | ownedByInFlightJob (ref : VersionRef) (owner : String)
  | liveAttempt (jobId : String) (leaseAttempt attemptId : String)
  | leaseLost (ref : VersionRef) (owner : Option String) (expectedOwner : String)
      (generation expectedGeneration : Nat)
  deriving DecidableEq, Repr

/-- The exceptions the modelled methods raise. `fault` stands for any exception
of the environment (a lost connection, an encoder that raises). -/
inductive PyError where
  | activeVersionConflict (reason : SwitchConflict)
  | jobIdentityConflict (jobId : String) (bound : VersionRef)
  | versionContentConflict (version : String)
  | buildConflict (reason : LeaseConflict)
  | documentMutationError (reason : String)
  | runtimeError (reason : String)
  | valueError (reason : String)
  | validationError
  | integrityError
  | collectionNotFound (name : String)
  | fault
  deriving DecidableEq, Repr

/-- A row of `documents`. -/
structure DocumentRow extends DocumentColumns where
  lifecycleRevision : Nat
  deriving DecidableEq, Repr

/-- A row of `document_builds`, the build lease. -/
structure BuildRow where
  ref : VersionRef
  ownerJobId : String
  status : LeaseStatus
  baseRevision : Nat
  leaseGeneration : Nat
  previousActiveVersion : Option String
  attemptId : String
  deriving DecidableEq, Repr

/-- The counts and hashes `_step_finalize` stores as the job's manifest. -/
structure Manifest where
  rawHash : String
  parsedHash : Option String
  parentCount : Nat
  childCount : Nat
  deriving DecidableEq, Repr

/-- A row of `ingestion_jobs`. -/
structure JobRow where
  jobId : String
  ref : VersionRef
  status : JobStatus
  rawHash : String
  baseRevision : Nat
  previousActiveVersion : Option String
  parentCount : Nat
  childCount : Nat
  errorCode : Option String
  manifest : Option Manifest
  deriving DecidableEq, Repr

/-- `IngestionJob.STEPS`. -/
inductive Step where
  | acquire
  | parse
  | chunk
  | writeParents
  | writeQdrant
  | verify
  | commit
  | publish
  | finalize
  deriving DecidableEq, Repr

/-- A row of `job_steps`. -/
structure StepRow where
  jobId : String
  stepName : Step
  status : String
  deriving DecidableEq, Repr

/-- A row of `corpus_registry`. -/
structure CorpusRow where
  corpusId : String
  tenantId : String
  vectorCollection : Option String
  deriving DecidableEq, Repr

structure MetadataStore where
  documents : List DocumentRow
  builds : List BuildRow
  jobs : List JobRow
  steps : List StepRow
  chunks : List ChunkRecord
  corpora : List CorpusRow
  deriving DecidableEq, Repr

abbrev StoreMethod := Routine MetadataStore PyError

namespace MetadataStore

open Routine

section Lookups

/-- `WHERE tenant_id=? AND corpus_id=? AND document_id=?`. -/
def ofDoc (doc : DocRef) (row : DocumentRow) : Bool :=
  decide (row.ref.doc = doc)

/-- `WHERE … AND version=?`. -/
def ofVersion (ref : VersionRef) (row : DocumentRow) : Bool :=
  decide (row.ref = ref)

/-- `WHERE … AND status='active'`. -/
def activeOf (doc : DocRef) (row : DocumentRow) : Bool :=
  ofDoc doc row && decide (row.status = .active)

def documentRow (s : MetadataStore) (ref : VersionRef) : Option DocumentRow :=
  Table.selectOne (ofVersion ref) s.documents

def buildRow (s : MetadataStore) (ref : VersionRef) : Option BuildRow :=
  Table.selectOne (fun row => decide (row.ref = ref)) s.builds

def jobRow (s : MetadataStore) (jobId : String) : Option JobRow :=
  Table.selectOne (fun row => decide (row.jobId = jobId)) s.jobs

def getActiveVersion (s : MetadataStore) (doc : DocRef) : Option String :=
  (Table.selectOne (activeOf doc) s.documents).map (·.ref.version)

/-- `get_current_revision`: the maximum over all versions of the document. -/
def getCurrentRevision (s : MetadataStore) (doc : DocRef) : Nat :=
  Table.maximum (ofDoc doc) (·.lifecycleRevision) s.documents

def getBuildOwner (s : MetadataStore) (ref : VersionRef) : Option String :=
  (s.buildRow ref).map (·.ownerJobId)

def getLeaseGeneration (s : MetadataStore) (ref : VersionRef) : Nat :=
  match s.buildRow ref with
  | some row => row.leaseGeneration
  | none => 0

def getJobStatus (s : MetadataStore) (jobId : String) : Option JobStatus :=
  (s.jobRow jobId).map (·.status)

def getJobIdentity (s : MetadataStore) (jobId : String) : Option (VersionRef × String) :=
  (s.jobRow jobId).map fun row => (row.ref, row.rawHash)

def getJobBaseRevision (s : MetadataStore) (jobId : String) : Nat :=
  match s.jobRow jobId with
  | some row => row.baseRevision
  | none => 0

def getJobPreviousVersion (s : MetadataStore) (jobId : String) : Option String :=
  (s.jobRow jobId).bind (·.previousActiveVersion)

def isStepDone (s : MetadataStore) (jobId : String) (step : Step) : Bool :=
  s.steps.any fun row =>
    decide (row.jobId = jobId ∧ row.stepName = step ∧ row.status = "done")

def listDocumentVersions (s : MetadataStore) (doc : DocRef) : List String :=
  (Table.select (ofDoc doc) s.documents).map (·.ref.version)

def listChunkRecords (s : MetadataStore) (ref : VersionRef) : List ChunkRecord :=
  Table.select (fun row => decide (row.ref = ref)) s.chunks

end Lookups

/-- `_row_to_document`: building the pydantic model re-runs its validators. -/
def rowToDocument (row : DocumentRow) : Except PyError SourceDocument :=
  if h : row.toDocumentColumns.Valid then
    .ok { row.toDocumentColumns with valid := h }
  else
    .error .validationError

def readDocument (row : Option DocumentRow) : Except PyError (Option SourceDocument) :=
  match row with
  | some row => (rowToDocument row).map some
  | none => .ok none

def getDocument (s : MetadataStore) (ref : VersionRef) : Except PyError (Option SourceDocument) :=
  readDocument (s.documentRow ref)

def getActiveDocument (s : MetadataStore) (doc : DocRef) :
    Except PyError (Option SourceDocument) :=
  readDocument (Table.selectOne (activeOf doc) s.documents)

/-- The first row of the largest revision when `later` is `false`
(`ORDER BY lifecycle_revision DESC`), the last one when it is `true`
(`… DESC, rowid DESC`). -/
def latestBy (later : Bool) : List DocumentRow → Option DocumentRow
  | [] => none
  | row :: rows =>
    match latestBy later rows with
    | none => some row
    | some best =>
      if best.lifecycleRevision < row.lifecycleRevision ∨
          (best.lifecycleRevision = row.lifecycleRevision ∧ later = false) then
        some row
      else
        some best

def getDocumentLatest (s : MetadataStore) (doc : DocRef) :
    Except PyError (Option SourceDocument) :=
  readDocument (latestBy true (Table.select (ofDoc doc) s.documents))

section Statements

/-- `UPDATE documents SET … WHERE …`, returning `rowcount`. Two active versions of
one document violate `idx_documents_active_version`. -/
def updateDocuments (p : DocumentRow → Bool) (f : DocumentRow → DocumentRow) :
    StoreMethod Nat := fun s =>
  let documents := Table.update p f s.documents
  if documents.Pairwise fun row other =>
      ¬(row.status = .active ∧ other.status = .active ∧ row.ref.doc = other.ref.doc) then
    (.ok (Table.select p s.documents).length, { s with documents })
  else
    (.error .integrityError, s)

/-- `INSERT INTO documents`: the corpus must be registered and no second active
version may appear. -/
def insertDocument (row : DocumentRow) : StoreMethod Unit := fun s =>
  if (∃ corpus ∈ s.corpora, corpus.corpusId = row.ref.doc.corpusId ∧
        corpus.tenantId = row.ref.doc.tenantId) ∧
      ¬(row.status = .active ∧ (s.getActiveVersion row.ref.doc).isSome) then
    (.ok (), { s with documents := Table.insert row s.documents })
  else
    (.error .integrityError, s)

def updateBuilds (p : BuildRow → Bool) (f : BuildRow → BuildRow) : StoreMethod Unit :=
  modify fun s => { s with builds := Table.update p f s.builds }

def updateJobs (p : JobRow → Bool) (f : JobRow → JobRow) : StoreMethod Unit :=
  modify fun s => { s with jobs := Table.update p f s.jobs }

/-- `INSERT INTO ingestion_jobs`: the version row must exist. -/
def insertJob (row : JobRow) : StoreMethod Unit := fun s =>
  if (s.documentRow row.ref).isSome then
    (.ok (), { s with jobs := Table.insert row s.jobs })
  else
    (.error .integrityError, s)

end Statements

/-- `mark_step`: insert or overwrite the marker of `(job_id, step_name)`; the job
row must exist. -/
def markStep (jobId : String) (step : Step) (status : String) : StoreMethod Unit := fun s =>
  let sameStep (row : StepRow) := decide (row.jobId = jobId ∧ row.stepName = step)
  if s.steps.any sameStep then
    (.ok (), { s with steps := Table.update sameStep (fun row => { row with status }) s.steps })
  else if (s.jobRow jobId).isSome then
    (.ok (), { s with steps := Table.insert ⟨jobId, step, status⟩ s.steps })
  else
    (.error .integrityError, s)

def clearSteps (jobId : String) : StoreMethod Unit :=
  modify fun s =>
    { s with steps := Table.delete (fun row => decide (row.jobId = jobId)) s.steps }

/-- `_upsert_document_build`: insert the row, or refresh one that was never
activated. The columns come from `_document_columns`, which sets the revision of
a new row to 0 and an update leaves the revision alone. -/
def upsertDocumentBuild (document : SourceDocument) : StoreMethod Unit := do
  let s ← get
  match s.documentRow document.ref with
  | none => insertDocument { document.toDocumentColumns with lifecycleRevision := 0 }
  | some existing =>
    if existing.status = .processing ∨ existing.status = .failed then
      let _ ← updateDocuments (ofVersion document.ref) fun row =>
        { document.toDocumentColumns with lifecycleRevision := row.lifecycleRevision }
      pure ()
    else
      pure ()

/-- `if document is not None: self._upsert_document_build(cur, document)`. -/
def upsertOptionalDocument : Option SourceDocument → StoreMethod Unit
  | some document => upsertDocumentBuild document
  | none => pure ()

/-- The arguments of `acquire_job`. -/
structure AcquireArgs where
  jobId : String
  ref : VersionRef
  rawHash : String
  baseRevision : Nat
  document : Option SourceDocument
  attemptId : String
  recover : Bool

/-- The lease part of `acquire_job`: claim, take over or renew. Returns the new
generation and the version this build replaces, which is captured by the first
claim and carried along afterwards. -/
def claimLease (args : AcquireArgs) : StoreMethod (Nat × Option String) := do
  let s ← get
  match s.buildRow args.ref with
  | none =>
    let previousVersion := s.getActiveVersion args.ref.doc
    modify fun s =>
      { s with
        builds := Table.insert
          { ref := args.ref
            ownerJobId := args.jobId
            status := .running
            baseRevision := args.baseRevision
            leaseGeneration := 1
            previousActiveVersion := previousVersion
            attemptId := args.attemptId } s.builds }
    pure (1, previousVersion)
  | some lease =>
    let generation := lease.leaseGeneration + 1
    let previousVersion := lease.previousActiveVersion
    -- both `UPDATE document_builds` statements set the same columns; for the
    -- owner itself `owner_job_id` keeps its value
    let renew : StoreMethod (Nat × Option String) := do
      updateBuilds (fun row => decide (row.ref = args.ref)) fun row =>
        { row with
          ownerJobId := args.jobId
          status := .running
          baseRevision := args.baseRevision
          leaseGeneration := generation
          previousActiveVersion := previousVersion
          attemptId := args.attemptId }
      pure (generation, previousVersion)
    if lease.ownerJobId ≠ args.jobId then
      if (s.getJobStatus lease.ownerJobId).any JobStatus.inFlight then
        raise (.buildConflict (.ownedByInFlightJob args.ref lease.ownerJobId))
      else
        renew
    else if lease.status = .running ∧ lease.attemptId ≠ args.attemptId ∧ args.recover = false then
      raise (.buildConflict (.liveAttempt args.jobId lease.attemptId args.attemptId))
    else
      renew

/-- The job-row part of `acquire_job`: insert the row, or check the immutable
binding and put a finished job back to running. -/
def bindJobRow (args : AcquireArgs) (previousVersion : Option String) : StoreMethod JobStatus := do
  let s ← get
  match s.jobRow args.jobId with
  | none =>
    insertJob
      { jobId := args.jobId
        ref := args.ref
        status := .running
        rawHash := args.rawHash
        baseRevision := args.baseRevision
        previousActiveVersion := previousVersion
        parentCount := 0
        childCount := 0
        errorCode := none
        manifest := none }
    pure .running
  | some row =>
    if row.ref ≠ args.ref ∨ row.rawHash ≠ args.rawHash then
      raise (.jobIdentityConflict args.jobId row.ref)
    else if row.status ≠ .running then
      updateJobs (fun row => decide (row.jobId = args.jobId)) fun row =>
        { row with
          status := .running
          errorCode := none
          previousActiveVersion := previousVersion }
      pure .running
    else
      pure row.status

/-- `acquire_job` up to its `COMMIT`. -/
def acquireJobTransaction (args : AcquireArgs) : StoreMethod (JobStatus × Nat) :=
  transaction do
    let (generation, previousVersion) ← claimLease args
    upsertOptionalDocument args.document
    let status ← bindJobRow args previousVersion
    pure (status, generation)

/-- `acquire_job`: the step marker is written after the `COMMIT`. -/
def acquireJob (args : AcquireArgs) : StoreMethod (JobStatus × Nat) := do
  let claimed ← acquireJobTransaction args
  markStep args.jobId .acquire "done"
  pure claimed

/-- `mark_job_terminal`: job row and lease in one transaction. -/
def markJobTerminal (jobId : String) (status : JobStatus) (parentCount childCount : Nat)
    (errorCode : Option String) : StoreMethod Unit :=
  transaction do
    updateJobs (fun row => decide (row.jobId = jobId)) fun row =>
      { row with status, parentCount, childCount, errorCode }
    match status with
    | .succeeded =>
      updateBuilds (fun row => decide (row.ownerJobId = jobId)) fun row =>
        { row with status := .done }
    | .failed =>
      updateBuilds (fun row => decide (row.ownerJobId = jobId)) fun row =>
        { row with status := .failed }
    | _ => pure ()

def setJobManifest (jobId : String) (manifest : Manifest) : StoreMethod Unit :=
  updateJobs (fun row => decide (row.jobId = jobId)) fun row =>
    { row with manifest := some manifest }

section ActiveVersion

/-- `SET status='deprecated', deprecated=1, effective_to=?, lifecycle_revision=?`. -/
def demoteRow (now : Timestamp) (revision : Nat) (row : DocumentRow) : DocumentRow :=
  { row with
    status := .deprecated
    deprecated := true
    effectiveTo := some now
    lifecycleRevision := revision }

/-- `SET status='active', deprecated=0, effective_from=?, indexed_at=?,
lifecycle_revision=?`. -/
def activateRow (now : Timestamp) (revision : Nat) (row : DocumentRow) : DocumentRow :=
  { row with
    status := .active
    deprecated := false
    effectiveFrom := some now
    indexedAt := some now
    lifecycleRevision := revision }

/-- The previously active version must leave the active state before the new one
enters it. -/
def demotePrevious (now : Timestamp) (doc : DocRef) (revision : Nat) :
    Option String → StoreMethod Unit
  | some previous => do
    let _ ← updateDocuments (ofVersion ⟨doc, previous⟩) (demoteRow now revision)
    pure ()
  | none => pure ()

/-- `commit_active_version`: the compare-and-swap on `lifecycle_revision`. -/
def commitActiveVersion (now : Timestamp) (doc : DocRef) (newVersion : String)
    (expectedRevision : Nat) : StoreMethod (Nat × Option String) :=
  transaction do
    let s ← get
    let currentRev := s.getCurrentRevision doc
    let previousVersion := s.getActiveVersion doc
    if previousVersion = some newVersion then
      -- a resumed commit: the switch already happened
      pure (currentRev, previousVersion)
    else if currentRev ≠ expectedRevision then
      raise (.activeVersionConflict (.staleRevision expectedRevision currentRev))
    else
      let newRev := currentRev + 1
      demotePrevious now doc newRev previousVersion
      let rowcount ← updateDocuments (ofVersion ⟨doc, newVersion⟩) (activateRow now newRev)
      if rowcount = 0 then
        raise (.activeVersionConflict (.newVersionNotFound newVersion))
      else
        pure (newRev, previousVersion)

/-- Rows in the order of the primary key `(document_id, tenant_id, corpus_id, version)`, for
rows of one document. -/
def DocumentRow.ByVersion (row other : DocumentRow) : Prop :=
  row.ref.version ≤ other.ref.version

instance : DecidableRel DocumentRow.ByVersion := fun row other =>
  inferInstanceAs (Decidable (row.ref.version ≤ other.ref.version))

/-- The version `rollback_active_version` goes back to when none is named. The query walks the
primary key, so that of several rows of the largest revision the least version comes first. -/
def rollbackCandidate (s : MetadataStore) (doc : DocRef) : Option DocumentRow :=
  let rows := Table.select
    (fun row => ofDoc doc row && decide (row.status ≠ .active ∧ row.status ≠ .deleted)) s.documents
  latestBy false (rows.insertionSort DocumentRow.ByVersion)

/-- The rollback target: the named version, or the latest eligible one. -/
def resolveRollbackTarget (doc : DocRef) (toVersion : Option String) : StoreMethod String := do
  let s ← get
  match toVersion with
  | some version => pure version
  | none =>
    match s.rollbackCandidate doc with
    | some row => pure row.ref.version
    | none => raise (.activeVersionConflict (.noRollbackCandidate doc.documentId))

def rollbackActiveVersion (now : Timestamp) (doc : DocRef) (toVersion : Option String)
    (expectedRevision : Option Nat) : StoreMethod (Nat × Option String) :=
  transaction do
    let s ← get
    let currentRev := s.getCurrentRevision doc
    match s.getActiveVersion doc with
    | none => raise (.activeVersionConflict (.noActiveVersion doc.documentId))
    | some previous =>
      let target ← resolveRollbackTarget doc toVersion
      match s.documentRow ⟨doc, target⟩ with
      | none => raise (.activeVersionConflict (.targetNotFound target))
      | some targetRow =>
        if targetRow.status = .deleted then
          raise (.activeVersionConflict (.purgedTarget target))
        else if target = previous then
          pure (currentRev, some previous)
        else if expectedRevision ≠ none ∧ expectedRevision ≠ some currentRev then
          raise (.activeVersionConflict (.staleRevision (expectedRevision.getD 0) currentRev))
        else
          let newRev := currentRev + 1
          demotePrevious now doc newRev (some previous)
          let rowcount ← updateDocuments (ofVersion ⟨doc, target⟩) (activateRow now newRev)
          if rowcount = 0 then
            raise (.activeVersionConflict (.targetVanished target))
          else
            pure (newRev, some previous)

/-- `SET status='deleted', deprecated=1, deleted_at=?, lifecycle_revision=?`. -/
def deleteRow (deletedAt : Timestamp) (revision : Nat) (row : DocumentRow) : DocumentRow :=
  { row with
    status := .deleted
    deprecated := true
    deletedAt := some deletedAt
    lifecycleRevision := revision }

/-- `logical_delete`: deletes `ref` when it is active, and otherwise whichever
version of the document is active. -/
def logicalDelete (deletedAt : Timestamp) (ref : VersionRef) : StoreMethod Nat :=
  transaction do
    let s ← get
    match s.documentRow ref with
    | none => pure (s.getCurrentRevision ref.doc)
    | some target =>
      if target.status = .deleted then
        pure target.lifecycleRevision
      else
        let victim :=
          if target.status = .active then some target
          else latestBy true (Table.select (activeOf ref.doc) s.documents)
        match victim with
        | none => pure (s.getCurrentRevision ref.doc)
        | some row =>
          let newRev := row.lifecycleRevision + 1
          let _ ← updateDocuments (ofVersion ⟨ref.doc, row.ref.version⟩) (deleteRow deletedAt newRev)
          pure newRev

/-- `update_document_acl`: a no-op unless the version is active. -/
def updateDocumentAcl (ref : VersionRef) (acl : AclFields) : StoreMethod Unit :=
  transaction do
    let s ← get
    match s.documentRow ref with
    | none => pure ()
    | some row =>
      if row.status ≠ .active then
        pure ()
      else
        let newRev := row.lifecycleRevision + 1
        let _ ← updateDocuments (ofVersion ref) fun row =>
          { row with acl, lifecycleRevision := newRev }
        pure ()

/-- `mark_document_failed`: only a row that was never activated. -/
def markDocumentFailed (ref : VersionRef) : StoreMethod Unit := do
  let _ ← updateDocuments
    (fun row => ofVersion ref row && decide (row.status = .processing ∨ row.status = .failed))
    fun row => { row with status := .failed, deprecated := false }
  pure ()

end ActiveVersion

section Chunks

/-- `upsert_chunk_record`: the version row must exist. -/
def upsertChunkRecord (chunk : ChunkRecord) : StoreMethod Unit := fun s =>
  if (s.documentRow chunk.ref).isSome then
    if s.chunks.any (fun row => decide (row.chunkId = chunk.chunkId)) then
      (.ok (), { s with
        chunks := Table.update (fun row => decide (row.chunkId = chunk.chunkId))
          (fun _ => chunk) s.chunks })
    else
      (.ok (), { s with chunks := Table.insert chunk s.chunks })
  else
    (.error .integrityError, s)

def deleteChunkRecords (ref : VersionRef) : StoreMethod Unit :=
  modify fun s => { s with chunks := Table.delete (fun row => decide (row.ref = ref)) s.chunks }

end Chunks

/-- `delete_document`: four statements that commit one by one. The last one fails
while a chunk row still refers to a version of the document. -/
def deleteDocument (doc : DocRef) : StoreMethod Unit := do
  modify fun s =>
    { s with builds := Table.delete (fun row => decide (row.ref.doc = doc)) s.builds }
  let s ← get
  let jobIds := (Table.select (fun row => decide (row.ref.doc = doc)) s.jobs).map (·.jobId)
  modify fun s => { s with steps := Table.delete (fun row => decide (row.jobId ∈ jobIds)) s.steps }
  modify fun s => { s with jobs := Table.delete (fun row => decide (row.ref.doc = doc)) s.jobs }
  let s ← get
  if s.chunks.any (fun row => decide (row.ref.doc = doc)) then
    raise .integrityError
  else
    modify fun s => { s with documents := Table.delete (ofDoc doc) s.documents }

end MetadataStore

/-! A one-document tenant for the concrete runs of later modules. -/

namespace Sample

def doc : DocRef := ⟨"acme", "policies", "travel"⟩

def acl : AclFields := ⟨"internal", .tenant, [], [], [], []⟩

def sourceMeta : SourceMeta where
  sourceUri := "inline://travel"
  sourceConnector := "file"
  sourceNativeId := none
  title := "travel"
  sourceFilename := ""
  mimeType := "text/markdown"
  aclPolicyId := "default"
  parserName := "markdown"
  parserVersion := "1.0"
  chunkingVersion := "1.0"
  embeddingModel := "fake"
  embeddingVersion := "1.0"
  authorityLevel := 50

/-- The processing row `_build_source_document` makes for a version. -/
def processing (version : String) : SourceDocument where
  ref := ⟨doc, version⟩
  source := sourceMeta
  contentHash := "hash of " ++ version
  status := .processing
  effectiveFrom := none
  effectiveTo := none
  deprecated := false
  acl := acl
  indexedAt := none
  deletedAt := none
  valid := ⟨by simp [sourceMeta], by simp, by simp, by simp⟩

/-- A store with a registered corpus and nothing else. -/
def store : MetadataStore where
  documents := []
  builds := []
  jobs := []
  steps := []
  chunks := []
  corpora := [⟨"policies", "acme", none⟩]

def acquire (jobId version attemptId : String) (baseRevision : Nat) :
    MetadataStore.AcquireArgs where
  jobId := jobId
  ref := ⟨doc, version⟩
  rawHash := "hash of " ++ version
  baseRevision := baseRevision
  document := some (processing version)
  attemptId := attemptId
  recover := false

theorem acquire_first :
    ∀ document ∈ (acquire "job-1" "v1" "attempt-1" 0).document, document.status = .processing := by
  simp [acquire, processing]

theorem acquire_second :
    ∀ document ∈ (acquire "job-2" "v2" "attempt-2" 1).document, document.status = .processing := by
  simp [acquire, processing]

end Sample

end AgenticRag
