import AgenticRag.Ingestion.Chunker
import AgenticRag.Storage.World

/-!
# The ingestion job

`IngestionJob` of `ingestion/job.py`: nine steps with a marker each, the build
lease as fencing token, and compensation on a failure before the commit. Every
access to a store is one operation of the program, so a run can be suspended,
crash or see a fault between any two of them. The in-process guard of `run` is
left out: two processes do not share it.
-/

namespace AgenticRag

/-- `IngestionRequest`, with the tenant binding `IngestionJob.__init__` checks. -/
structure IngestionRequest where
  ref : VersionRef
  content : String
  acl : ResourceAcl
  jobId : String
  source : SourceMeta
  tenant : acl.tenantId = ref.doc.tenantId

inductive IngestionStatus where
  | indexed
  | alreadyIndexed
  | inProgress
  | failed
  | buildConflict
  deriving DecidableEq, Repr

structure IngestionResult where
  status : IngestionStatus
  parentCount : Nat
  childCount : Nat
  errorCode : Option String
  deriving DecidableEq, Repr

/-- A result that carries no counts. -/
def IngestionResult.plain (status : IngestionStatus) (errorCode : Option String) :
    IngestionResult :=
  { status, parentCount := 0, childCount := 0, errorCode }

/-- The arguments of one `run`; `attemptId` is the fresh `uuid4` of the attempt. -/
structure RunOptions where
  maxStep : Option Step
  recover : Bool
  attemptId : String
  deriving DecidableEq, Repr

/-- The attributes of an `IngestionJob` object. -/
structure JobState where
  parentsList : List ParentDraft
  childrenList : List ChildChunk
  parsedHash : String
  leaseGeneration : Nat
  commitPerformed : Bool
  deriving DecidableEq, Repr

abbrev JobProgram := StoreProgram JobState

namespace IngestionJob

open StoreProgram Method

def initial : JobState :=
  { parentsList := [], childrenList := [], parsedHash := "", leaseGeneration := 0,
    commitPerformed := false }

/-- `STEPS` after `acquire`, which `_run_body` performs first on its own. -/
def buildSteps : List Step :=
  [.parse, .chunk, .writeParents, .writeQdrant, .verify, .commit, .publish, .finalize]

/-- The steps up to and including `max_step`. -/
def stepsUpTo : Option Step → List Step
  | none => buildSteps
  | some .acquire => []
  | some step => buildSteps.takeWhile (fun other => decide (other ≠ step)) ++ [step]

def stoppedEarly (options : RunOptions) : Bool :=
  decide (options.maxStep ≠ none ∧ options.maxStep ≠ some .finalize)

variable (svc : Services) (req : IngestionRequest)

def rawHash : String := svc.sha256 req.content

/-- The columns `_build_source_document` fills for a version in processing. -/
def sourceColumns : DocumentColumns where
  ref := req.ref
  source := { req.source with
    sourceUri := if req.source.sourceUri = "" then "inline://" ++ req.ref.doc.documentId
      else req.source.sourceUri
    title := if req.source.title = "" then req.ref.doc.documentId else req.source.title }
  contentHash := rawHash svc req
  status := .processing
  effectiveFrom := none
  effectiveTo := none
  deprecated := false
  acl := req.acl.toAclFields
  indexedAt := none
  deletedAt := none

/-- `_build_source_document`: pydantic checks the authority. -/
def buildSourceDocument : Except PyError SourceDocument :=
  if h : (sourceColumns svc req).Valid then
    .ok { sourceColumns svc req with valid := h }
  else
    .error .validationError

theorem buildSourceDocument_columns {document : SourceDocument}
    (h : buildSourceDocument svc req = .ok document) :
    document.toDocumentColumns = sourceColumns svc req := by
  unfold buildSourceDocument at h
  split at h
  · rw [← Except.ok.inj h]
  · simp at h

def makeChunkRecord (chunkId : String) (parentId : Option String) (chunkType : ChunkType)
    (content : String) (sectionPath : List String) : ChunkRecord :=
  { chunkId, parentId, chunkType, content, sectionPath
    ref := req.ref
    contentHash := svc.sha256 content
    authorityLevel := req.source.authorityLevel
    aclPolicyId := req.source.aclPolicyId
    acl := req.acl.toAclFields }

def childRecord (child : ChildChunk) : ChunkRecord :=
  makeChunkRecord svc req child.childId (some child.parentId) .child child.text child.sectionPath

def parentRecord (parent : ParentDraft) : ChunkRecord :=
  makeChunkRecord svc req parent.parentId none .parent parent.text parent.sectionPath

/-- A parent with `_auth_metadata`, which says `active` from the start. -/
def authorizedParent (parent : ParentDraft) : ParentChunk :=
  { parent with metadata := { status := .active, deprecated := false, acl := req.acl.toAclFields } }

section Checks

/-- The second half of `_assert_owns_build`, with the owner already read. -/
def compareLease (owner : Option String) : JobProgram Unit := do
  let generation ← read fun w => w.metadata.getLeaseGeneration req.ref
  let me ← self
  if owner ≠ some req.jobId ∨ generation ≠ me.leaseGeneration then
    raise (.buildConflict
      (.leaseLost req.ref owner req.jobId generation me.leaseGeneration))
  else
    pure ()

/-- `_assert_owns_build`: owner and generation are read one after the other. -/
def assertOwnsBuild : JobProgram Unit := do
  let owner ← read fun w => w.metadata.getBuildOwner req.ref
  compareLease req owner

/-- The job row is bound to another request. -/
def identityMismatch (identity : Option (VersionRef × String)) : Bool :=
  identity.any fun bound => decide (bound ≠ (req.ref, rawHash svc req))

def validateJobIdentity : JobProgram Unit := do
  let identity ← read fun w => w.metadata.getJobIdentity req.jobId
  if identityMismatch svc req identity then
    raise (.jobIdentityConflict req.jobId ((identity.map (·.1)).getD req.ref))
  else
    pure ()

end Checks

section Steps

def stepAcquire (options : RunOptions) : JobProgram Unit := do
  let baseRevision ← read fun w => w.metadata.getCurrentRevision req.ref.doc
  match buildSourceDocument svc req with
  | .error e => raise e
  | .ok document =>
    let claimed ← metadata (.acquireJobTransaction
      { jobId := req.jobId
        ref := req.ref
        rawHash := rawHash svc req
        baseRevision := baseRevision
        document := some document
        attemptId := options.attemptId
        recover := options.recover })
    metadata (.markStep req.jobId .acquire "done")
    assign fun me => { me with leaseGeneration := claimed.2 }

def stepParse : JobProgram Unit :=
  assign fun me => { me with parsedHash := svc.sha256 req.content }

def ensureChunked : JobProgram Unit := do
  let me ← self
  if me.childrenList ≠ [] then
    pure ()
  else
    match svc.chunkMarkdown req.content req.ref with
    | .error e => raise e
    | .ok (parents, children) =>
      assign fun me => { me with
        parentsList := parents
        childrenList := children
        parsedHash := svc.sha256 (String.join (children.map (·.text))) }

def stepChunk : JobProgram Unit := ensureChunked svc req

def stepWriteParents : JobProgram Unit := do
  ensureChunked svc req
  let me ← self
  forEach me.parentsList fun parent => parents (.put (authorizedParent req parent))

def stepWriteQdrant : JobProgram Unit := do
  ensureChunked svc req
  let me ← self
  vectors (.upsert req.ref.doc.corpusId
    (me.childrenList.map fun child =>
      svc.childChunkToPoint child req.acl.toAclFields .processing false))
  forEach me.childrenList fun child => metadata (.upsertChunkRecord (childRecord svc req child))
  forEach me.parentsList fun parent => metadata (.upsertChunkRecord (parentRecord svc req parent))

/-- A stored parent as `_step_verify` expects it. -/
def verifyParent (parent : ParentDraft) : JobProgram Unit := do
  let stored ← read fun w => w.parents.get parent.parentId
  match stored with
  | none => raise (.runtimeError "parent missing from Parent Store")
  | some stored =>
    if stored.ref ≠ req.ref ∨ stored.parentId ≠ parent.parentId then
      raise (.runtimeError "identity mismatch on parent")
    else
      pure ()

/-- `expected_by_point_id`: the last child with the id wins. -/
def expectedByPointId (children : List ChildChunk) (pointId : String) : Option ChildChunk :=
  children.reverse.find? fun child => decide (svc.childPointId child.childId = pointId)

/-- The exact comparison of one retrieved point with the chunker output. -/
def pointMatches (children : List ChildChunk) (point : Point) : Bool :=
  match expectedByPointId svc children point.id with
  | none => false
  | some child =>
    decide (point.payload.ref = req.ref ∧ point.payload.parentId = some child.parentId ∧
      point.payload.chunkId = child.childId ∧ point.payload.status = .processing ∧
      point.payload.deprecated = false)

/-- The points of the chunker output, read back from the collection. -/
def verifyPoints (children : List ChildChunk) : JobProgram Unit := do
  let pointIds := children.map fun child => svc.childPointId child.childId
  if pointIds = [] then
    pure ()
  else
    let found ← tryRead fun w => w.vectors.retrieve req.ref.doc.corpusId pointIds
    if pointIds.any fun id => !found.any fun point => decide (point.id = id) then
      raise (.runtimeError "Qdrant point(s) missing")
    else if found.all (pointMatches svc req children) then
      pure ()
    else
      raise (.runtimeError "identity mismatch on Qdrant point")

/-- The version row must still be committable. -/
def verifyCommittable : JobProgram Unit := do
  let current ← tryRead fun w => w.metadata.getDocument req.ref
  match current with
  | none => raise (.runtimeError "new version missing before commit")
  | some document =>
    if document.status = .processing ∨ document.status = .failed ∨ document.status = .active then
      pure ()
    else
      raise (.runtimeError "unexpected status")

def stepVerify : JobProgram Unit := do
  ensureChunked svc req
  let me ← self
  forEach me.parentsList (verifyParent req)
  verifyPoints svc req me.childrenList
  let records ← read fun w => w.metadata.listChunkRecords req.ref
  if records.length ≠ me.parentsList.length + me.childrenList.length then
    raise (.runtimeError "chunk record count")
  else
    verifyCommittable req

/-- `_step_commit` after its lease check. -/
def switchActiveVersion : JobProgram Unit := do
  let expectedRev ← read fun w => w.metadata.getJobBaseRevision req.jobId
  let _ ← metadata (.commitActiveVersion req.ref.doc req.ref.version expectedRev)
  assign fun me => { me with commitPerformed := true }

def stepCommit : JobProgram Unit := do
  assertOwnsBuild req
  switchActiveVersion req

/-- Promote one parent of this version. -/
def publishParent (parent : ParentDraft) : JobProgram Unit := do
  let stored ← read fun w => w.parents.get parent.parentId
  match stored with
  | none => pure ()
  | some chunk => parents (.put (ParentStore.setLifecycle .active false chunk))

/-- The point that replaces a child of the superseded version. -/
def supersededPoint (record : ChunkRecord) : Point :=
  svc.childChunkToPoint
    { childId := record.chunkId
      parentId := record.parentId.getD ""
      ref := record.ref
      text := record.content
      sectionPath := record.sectionPath }
    req.acl.toAclFields .inactive false

/-- Deprecate the version the commit replaced. -/
def publishSuperseded (previousVersion : String) : JobProgram Unit := do
  let oldChunks ← read fun w => w.metadata.listChunkRecords ⟨req.ref.doc, previousVersion⟩
  forEach (oldChunks.filter fun record => decide (record.chunkType = .parent)) fun record =>
    parents (.deprecateParent record.chunkId)
  let oldPoints := (oldChunks.filter fun record => decide (record.chunkType = .child)).map
    (supersededPoint svc req)
  if oldPoints = [] then pure ()
  else vectors (.upsert req.ref.doc.corpusId oldPoints)

/-- `_step_publish` after its lease check. -/
def publishArtifacts : JobProgram Unit := do
  ensureChunked svc req
  let me ← self
  vectors (.upsert req.ref.doc.corpusId
    (me.childrenList.map fun child =>
      svc.childChunkToPoint child req.acl.toAclFields .active false))
  forEach me.parentsList publishParent
  let previousVersion ← read fun w => w.metadata.getJobPreviousVersion req.jobId
  match previousVersion with
  | none => pure ()
  | some version =>
    if version = "" ∨ version = req.ref.version then pure ()
    else publishSuperseded svc req version

def stepPublish : JobProgram Unit := do
  assertOwnsBuild req
  publishArtifacts svc req

def stepFinalize : JobProgram Unit := do
  let me ← self
  metadata (.setJobManifest req.jobId
    { rawHash := rawHash svc req
      parsedHash := if me.parsedHash = "" then none else some me.parsedHash
      parentCount := me.parentsList.length
      childCount := me.childrenList.length })
  metadata (.markJobTerminal req.jobId .succeeded me.parentsList.length me.childrenList.length none)

/-- `getattr(self, f"_step_{step}")`. -/
def step : Step → JobProgram Unit
  | .acquire => pure ()
  | .parse => stepParse svc req
  | .chunk => stepChunk svc req
  | .writeParents => stepWriteParents svc req
  | .writeQdrant => stepWriteQdrant svc req
  | .verify => stepVerify svc req
  | .commit => stepCommit req
  | .publish => stepPublish svc req
  | .finalize => stepFinalize svc req

end Steps

/-- The fencing check of `_compensate`, which skips a lost lease silently. -/
def stillOwnsBuild : JobProgram Bool :=
  tryCatch (do assertOwnsBuild req; pure true) fun e =>
    match e with
    | .buildConflict _ => pure false
    | e => reraise e

/-- `_compensate` once the lease is known to be held. -/
def removeArtifacts : JobProgram Unit := do
  ensureChunked svc req
  let me ← self
  let pointIds := me.childrenList.map fun child => svc.childPointId child.childId
  vectors (.delete req.ref.doc.corpusId pointIds)
  forEach me.parentsList fun parent => parents (.delete parent.parentId)
  metadata (.deleteChunkRecords req.ref)
  metadata (.clearSteps req.jobId)
  metadata (.markDocumentFailed req.ref)

def compensate : JobProgram Unit := do
  let owns ← stillOwnsBuild req
  if owns then removeArtifacts svc req else pure ()

def shortCircuitAlreadyIndexed : JobProgram IngestionResult := do
  let identity ← read fun w => w.metadata.getJobIdentity req.jobId
  if identityMismatch svc req identity then
    raise (.jobIdentityConflict req.jobId ((identity.map (·.1)).getD req.ref))
  else
    let status ← read fun w => w.metadata.getJobStatus req.jobId
    if status ≠ none then
      metadata (.markJobTerminal req.jobId .succeeded 0 0 none)
      pure (.plain .alreadyIndexed none)
    else
      pure (.plain .alreadyIndexed none)

/-- One iteration of the step loop. -/
def runStep (name : Step) : JobProgram Unit := do
  let done ← read fun w => w.metadata.isStepDone req.jobId name
  if done then
    pure ()
  else
    step svc req name
    metadata (.markStep req.jobId name "done")

/-- The result of a run that performed all its steps. -/
def finishBuild (options : RunOptions) : JobProgram IngestionResult :=
  if stoppedEarly options then
    pure (.plain .inProgress none)
  else do
    let me ← self
    pure
      { status := .indexed
        parentCount := me.parentsList.length
        childCount := me.childrenList.length
        errorCode := none }

/-- The `try` body: acquire, then every step without a marker. -/
def build (options : RunOptions) : JobProgram IngestionResult := do
  stepAcquire svc req options
  forEach (stepsUpTo options.maxStep) (runStep svc req)
  finishBuild options

/-- `error_code` of a failed run. -/
def errorCode : PyError → String
  | .activeVersionConflict _ => "active_version_conflict"
  | _ => "ingestion_error"

/-- Once the active version was switched nothing is compensated. -/
def compensateUncommitted : JobProgram Unit := do
  let me ← self
  if me.commitPerformed then pure () else compensate svc req

/-- `except Exception`: compensate and leave a failed record. -/
def fail (e : PyError) : JobProgram IngestionResult := do
  compensateUncommitted svc req
  metadata (.markJobTerminal req.jobId .failed 0 0 (some (errorCode e)))
  pure (.plain .failed (some (errorCode e)))

/-- The two `except` clauses of `_run_body`. -/
def onException : PyError → JobProgram IngestionResult
  | .buildConflict _ => pure (.plain .buildConflict (some "build_conflict"))
  | e => fail svc req e

def guardedBuild (options : RunOptions) : JobProgram IngestionResult :=
  tryCatch (build svc req options) (onException svc req)

/-- An active version whose build has finished is not built again. -/
def resumeActive (options : RunOptions) : JobProgram IngestionResult := do
  let owner ← read fun w => w.metadata.getBuildOwner req.ref
  match owner with
  | none => guardedBuild svc req options
  | some owner =>
    if owner = "" then
      guardedBuild svc req options
    else
      let ownerStatus ← read fun w => w.metadata.getJobStatus owner
      if ownerStatus = some .succeeded then
        shortCircuitAlreadyIndexed svc req
      else
        guardedBuild svc req options

def runBody (options : RunOptions) : JobProgram IngestionResult := do
  validateJobIdentity svc req
  let existing ← tryRead fun w => w.metadata.getDocument req.ref
  match existing with
  | none => guardedBuild svc req options
  | some document =>
    if document.contentHash ≠ rawHash svc req then
      raise (.versionContentConflict req.ref.version)
    else if document.status = .active then
      resumeActive svc req options
    else if document.status = .deprecated then
      shortCircuitAlreadyIndexed svc req
    else
      guardedBuild svc req options

/-- `run` of a fresh `IngestionJob`. -/
def run (options : RunOptions) : Prog StoreOp PyError Unit :=
  (runBody svc req options).launch initial

end IngestionJob

/-! Readable identifiers and one chunk per document for concrete runs. -/

namespace Sample

def services : Services where
  sha256 := fun text => "#" ++ text
  childPointId := fun id => "point of " ++ id
  splitSections := fun content => if content = "" then .ok [] else .ok [⟨content, []⟩]
  splitChildren := fun text => [text]

def request (jobId version content : String) : IngestionRequest where
  ref := ⟨doc, version⟩
  content := content
  acl := { acl with tenantId := "acme" }
  jobId := jobId
  source := sourceMeta
  tenant := rfl

def attempt (attemptId : String) : RunOptions :=
  { maxStep := none, recover := false, attemptId }

def recovery (attemptId : String) : RunOptions :=
  { maxStep := none, recover := true, attemptId }

/-- A registered corpus with its collection, and nothing ingested yet. -/
def world : World where
  clock := 7
  metadata := store
  vectors := fun name => if name = "policies" then some [] else none
  parents := []
  pointers := fun name => if name = "policies" then some "" else none
  findings := []

def admin : SecurityContext where
  requestId := "r"
  sessionId := "s"
  tenantId := "acme"
  userId := "root"
  roles := []
  groups := []
  allowedSecurityLevels := ["public", "internal"]
  allowedCorpusIds := none
  policyVersion := "1"
  isAdmin := true
  permissions := []

end Sample

end AgenticRag
