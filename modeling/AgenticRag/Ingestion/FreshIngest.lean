import AgenticRag.Ingestion.ParentIdentity
import AgenticRag.Ingestion.ParentSizes
import AgenticRag.Ingestion.RebuildRoundTrip
import AgenticRag.Storage.Evaluation

/-!
# The first ingest of a document

A run without faults and without other writers, on stores into which nothing was ingested.
The chunk rows are keyed by content, so the verification finds as many of them as there are
parents and children only if no two of these were made of the same string.
-/

namespace AgenticRag

/-- Stores with the corpus of the document and its collection, and nothing ingested. -/
structure World.FreshFor (w : World) (doc : DocRef) : Prop where
  documents : w.metadata.documents = []
  builds : w.metadata.builds = []
  jobs : w.metadata.jobs = []
  steps : w.metadata.steps = []
  chunks : w.metadata.chunks = []
  registered : ∃ corpus ∈ w.metadata.corpora,
    corpus.corpusId = doc.corpusId ∧ corpus.tenantId = doc.tenantId
  collection : w.vectors doc.corpusId = some []
  parents : w.parents = []

namespace Services

variable (svc : Services) (ref : VersionRef) (segs : List Section)

/-- The string `_make_child_id` hashes. -/
def childBlob (parentId : String) (idx : Nat) (text : String) : String :=
  String.intercalate "|" [parentId, toString idx, text]

def childBlobs (seg : Section) : List String :=
  (svc.splitChildren seg.text).mapIdx fun idx text =>
    childBlob (svc.makeParentId ref (sectionPath seg) seg.text) idx text

/-- The strings the ids of a document are made of, in the order of its chunk rows. -/
def chunkBlobs : List String :=
  segs.flatMap (svc.childBlobs ref) ++
    segs.map fun seg => parentBlob ref (sectionPath seg) seg.text

/-- Different strings of the document have different ids, and so have its points. -/
structure NoCollision : Prop where
  chunks : ∀ first ∈ svc.chunkBlobs ref segs, ∀ second ∈ svc.chunkBlobs ref segs,
    svc.contentId first = svc.contentId second → first = second
  points : ∀ first ∈ segs.flatMap (svc.childrenOf ref), ∀ second ∈ segs.flatMap (svc.childrenOf ref),
    svc.childPointId first.childId = svc.childPointId second.childId → first.childId = second.childId

variable {svc ref segs}

theorem childIds_eq : (segs.flatMap (svc.childrenOf ref)).map (·.childId) =
    (segs.flatMap (svc.childBlobs ref)).map svc.contentId := by
  simp only [List.map_flatMap]
  apply List.flatMap_congr
  intro seg _
  apply List.ext_getElem
  · simp [childrenOf, childBlobs]
  · intro idx _ _
    simp [childrenOf, childBlobs, makeChildId, childBlob]

theorem parentIds_eq : (segs.map (svc.parentOf ref)).map (·.parentId) =
    (segs.map fun seg => parentBlob ref (sectionPath seg) seg.text).map svc.contentId := by
  simp only [List.map_map]
  rfl

/-- The ids of the chunk rows. -/
theorem chunkIds_eq : (segs.flatMap (svc.childrenOf ref)).map (·.childId) ++
      (segs.map (svc.parentOf ref)).map (·.parentId) =
    (svc.chunkBlobs ref segs).map svc.contentId := by
  rw [childIds_eq, parentIds_eq, chunkBlobs, List.map_append]

theorem NoCollision.nodup_iff (h : svc.NoCollision ref segs) :
    ((segs.flatMap (svc.childrenOf ref)).map (·.childId) ++
        (segs.map (svc.parentOf ref)).map (·.parentId)).Nodup ↔
      (svc.chunkBlobs ref segs).Nodup := by
  rw [chunkIds_eq]
  constructor
  · exact List.Nodup.of_map _
  · exact fun hnodup => hnodup.map_on h.chunks

end Services

namespace IngestionJob

open MetadataStore StoreProgram Method

variable (svc : Services) (req : IngestionRequest) (options : RunOptions)

section Stages

/-- The row of the version while it is built. -/
def firstRow : DocumentRow := { sourceColumns svc req with lifecycleRevision := 0 }

def firstLease : BuildRow where
  ref := req.ref
  ownerJobId := req.jobId
  status := .running
  baseRevision := 0
  leaseGeneration := 1
  previousActiveVersion := none
  attemptId := options.attemptId

def firstJob : JobRow where
  jobId := req.jobId
  ref := req.ref
  status := .running
  rawHash := rawHash svc req
  baseRevision := 0
  previousActiveVersion := none
  parentCount := 0
  childCount := 0
  errorCode := none
  manifest := none

/-- The markers of the steps performed so far. -/
def markers (done : List Step) : List StepRow := done.map fun name => ⟨req.jobId, name, "done"⟩

/-- The stores between two steps of the first build. -/
def stage (w : World) (row : DocumentRow) (done : List Step) (chunks : List ChunkRecord)
    (v : VectorStore) (p : ParentStore) : World :=
  { w with
    metadata :=
      { documents := [row]
        builds := [firstLease req options]
        jobs := [firstJob svc req]
        steps := markers req done
        chunks := chunks
        corpora := w.metadata.corpora }
    vectors := v
    parents := p }

variable {svc req options} {w : World} {row : DocumentRow} {done : List Step}
  {chunks : List ChunkRecord} {v : VectorStore} {p : ParentStore} {t t' : JobState}

theorem isStepDone_stage (name : Step) :
    (stage svc req options w row done chunks v p).metadata.isStepDone req.jobId name =
      decide (name ∈ done) := by
  rw [Bool.eq_iff_iff]
  simp only [isStepDone, stage, markers, List.any_map, List.any_eq_true, Function.comp_apply,
    decide_eq_true_eq, true_and, and_true]
  constructor
  · rintro ⟨other, hother, rfl⟩
    exact hother
  · exact fun h => ⟨name, h, rfl⟩

theorem markStep_stage {name : Step} (hnew : name ∉ done) :
    markStep req.jobId name "done" (stage svc req options w row done chunks v p).metadata =
      (.ok (), (stage svc req options w row (done ++ [name]) chunks v p).metadata) := by
  have hfresh : ((markers req done).any fun row =>
      decide (row.jobId = req.jobId ∧ row.stepName = name)) = false := by
    rw [List.any_eq_false]
    intro marker hmarker
    obtain ⟨other, hother, rfl⟩ := List.mem_map.mp hmarker
    simp only [true_and, decide_eq_true_eq]
    rintro rfl
    exact hnew hother
  have hjob : ((stage svc req options w row done chunks v p).metadata.jobRow req.jobId).isSome := by
    simp [jobRow, stage, firstJob, Table.selectOne]
  unfold markStep
  simp only [stage] at hjob ⊢
  simp only [hfresh, Bool.false_eq_true, if_false, hjob, if_true]
  simp [Table.insert, markers]

/-- A step that has no marker is performed and marked. -/
theorem runStep_stage {name : Step} {row' : DocumentRow} {chunks' : List ChunkRecord}
    {v' : VectorStore} {p' : ParentStore} (hnew : name ∉ done)
    (hstep : Returns StoreOp.eval (step svc req name) t
      (stage svc req options w row done chunks v p) () t'
      (stage svc req options w row' done chunks' v' p')) :
    Returns StoreOp.eval (runStep svc req name) t (stage svc req options w row done chunks v p) () t'
      (stage svc req options w row' (done ++ [name]) chunks' v' p') := by
  apply returns_read_bind
  simp only [isStepDone_stage, hnew, decide_false, Bool.false_eq_true, if_false]
  exact hstep.bind (returns_metadata (markStep_stage hnew))

end Stages

section Steps

variable {svc req options} {w : World} {row : DocumentRow} {done : List Step}
  {chunks : List ChunkRecord} {v : VectorStore} {p : ParentStore} {t t' : JobState}

/-- The first claim of a version enrols its row and its job. -/
theorem acquireJobTransaction_first (hfresh : w.FreshFor req.ref.doc) {document : SourceDocument}
    (hdocument : document.toDocumentColumns = sourceColumns svc req) :
    acquireJobTransaction (acquireArgs svc req options document w) w.metadata =
      (.ok (.running, 1),
        (stage svc req options w (firstRow svc req) [] [] w.vectors w.parents).metadata) := by
  obtain ⟨clock, ⟨documents, builds, jobs, steps, chunks, corpora⟩, vectors, parents, pointers,
    findings⟩ := w
  obtain ⟨hdocuments, hbuilds, hjobs, hsteps, hchunks, hregistered, -, -⟩ := hfresh
  dsimp only at hdocuments hbuilds hjobs hsteps hchunks hregistered
  subst hdocuments hbuilds hjobs hsteps hchunks
  let w : World := ⟨clock, ⟨[], [], [], [], [], corpora⟩, vectors, parents, pointers, findings⟩
  let leased : MetadataStore := ⟨[], [firstLease req options], [], [], [], corpora⟩
  let enrolled : MetadataStore :=
    ⟨[firstRow svc req], [firstLease req options], [], [], [], corpora⟩
  have hclaim : claimLease (acquireArgs svc req options document w) w.metadata =
      (.ok (1, none), leased) := by
    simp [claimLease, acquireArgs, buildRow, getActiveVersion, Table.selectOne, Table.insert,
      Routine.bind_apply, firstLease, getCurrentRevision, Table.maximum, Table.select, w, leased]
  have hupsert : upsertOptionalDocument (some document) leased = (.ok (), enrolled) := by
    simp [upsertOptionalDocument, upsertDocumentBuild, documentRow, Table.selectOne, insertDocument,
      Table.insert, hdocument, sourceColumns, firstRow, leased, enrolled, hregistered]
  have hbind : bindJobRow (acquireArgs svc req options document w) none enrolled =
      (.ok .running,
        (stage svc req options w (firstRow svc req) [] [] vectors parents).metadata) := by
    simp [bindJobRow, jobRow, Table.selectOne, insertJob, documentRow, ofVersion, Table.insert,
      Routine.bind_apply, acquireArgs, stage, markers, firstJob, firstRow, sourceColumns,
      getCurrentRevision, Table.maximum, Table.select, w, enrolled]
  apply Routine.transaction_ok.mpr
  exact (Routine.bind_ok hclaim).trans ((Routine.bind_ok hupsert).trans (Routine.bind_ok hbind))

theorem stepAcquire_first (hfresh : w.FreshFor req.ref.doc) (hvalid : (sourceColumns svc req).Valid) :
    Returns StoreOp.eval (stepAcquire svc req options) initial w ()
      { initial with leaseGeneration := 1 }
      (stage svc req options w (firstRow svc req) [.acquire] [] w.vectors w.parents) := by
  apply returns_read_bind
  simp only [buildSourceDocument, dif_pos hvalid]
  have hclaim : Returns StoreOp.eval (metadata (.acquireJobTransaction
      (acquireArgs svc req options { sourceColumns svc req with valid := hvalid } w)) :
        JobProgram (JobStatus × Nat)) initial w (.running, 1) initial
      (stage svc req options w (firstRow svc req) [] [] w.vectors w.parents) :=
    returns_metadata (acquireJobTransaction_first hfresh rfl)
  have hmark : Returns StoreOp.eval (metadata (.markStep req.jobId .acquire "done") :
        JobProgram Unit) initial
      (stage svc req options w (firstRow svc req) [] [] w.vectors w.parents) () initial
      (stage svc req options w (firstRow svc req) [.acquire] [] w.vectors w.parents) :=
    returns_metadata (@markStep_stage svc req options w _ [] [] _ _ .acquire List.not_mem_nil)
  exact hclaim.bind (hmark.bind rfl)

/-- The attributes with the chunker's output. -/
def chunked (svc : Services) (segs : List Section) (ref : VersionRef) (me : JobState) : JobState :=
  { me with
    parentsList := segs.map (svc.parentOf ref)
    childrenList := segs.flatMap (svc.childrenOf ref)
    parsedHash := svc.sha256 (String.join ((segs.flatMap (svc.childrenOf ref)).map (·.text))) }

variable {segs : List Section} {me : JobState}

theorem chunkMarkdown_eq (hchunk : svc.splitSections req.content = .ok segs) :
    svc.chunkMarkdown req.content req.ref =
      .ok (segs.map (svc.parentOf req.ref), segs.flatMap (svc.childrenOf req.ref)) := by
  rw [Services.chunkMarkdown, hchunk]
  rfl

/-- Chunking again gives the same lists. -/
theorem ensureChunked_again (hchunk : svc.splitSections req.content = .ok segs) :
    Returns StoreOp.eval (ensureChunked svc req) (chunked svc segs req.ref me) w ()
      (chunked svc segs req.ref me) w := by
  apply returns_self.bind
  split
  · exact returns_pure
  · simp only [chunkMarkdown_eq hchunk]
    rfl

theorem ensureChunked_first (hempty : me.childrenList = [])
    (hchunk : svc.splitSections req.content = .ok segs) :
    Returns StoreOp.eval (ensureChunked svc req) me w () (chunked svc segs req.ref me) w := by
  apply returns_self.bind
  rw [if_neg (not_not.mpr hempty)]
  simp only [chunkMarkdown_eq hchunk]
  rfl

theorem stepWriteParents_first (hchunk : svc.splitSections req.content = .ok segs) :
    Returns StoreOp.eval (stepWriteParents svc req) (chunked svc segs req.ref me)
      (stage svc req options w row done chunks v p) () (chunked svc segs req.ref me)
      (stage svc req options w row done chunks v (putParents req (segs.map (svc.parentOf req.ref)) p)) := by
  apply (ensureChunked_again hchunk).bind
  apply returns_self.bind
  have hloop := (@returns_forEach _ _ _ _ _ StoreOp.eval (chunked svc segs req.ref me)
    (stage svc req options w row done chunks v p) (fun _ => True)
    (fun w parent => { w with parents := ParentStore.put (authorizedParent req parent) w.parents })
    (fun parent => parents (.put (authorizedParent req parent)))
    (segs.map (svc.parentOf req.ref)) (fun parent _ s _ => ⟨returns_parents _, trivial⟩) trivial).1
  rw [foldl_parents fun parent store => ParentStore.put (authorizedParent req parent) store] at hloop
  exact hloop

/-- Writing to a collection that exists. -/
theorem returns_upsert {name : String} {points batch : List Point} (h : w.vectors name = some points) :
    Returns StoreOp.eval (vectors (.upsert name batch) : JobProgram Unit) me w () me
      { w with
        vectors := Function.update w.vectors name (some (batch.foldl upsertPoint points)) } := by
  apply returns_vectors
  simp only [VectorOp.eval, VectorStore.upsert, Routine.ite_apply]
  split
  · rename_i hempty
    rw [List.isEmpty_iff.mp hempty, List.foldl_nil, ← h, Function.update_eq_self]
    rfl
  · simp only [VectorStore.modifyCollection, h]

/-- The rows of a version that is present are written one by one. -/
theorem returns_upsertChunks {α : Type} {record : α → ChunkRecord} {xs : List α}
    (hrow : ∀ x ∈ xs, (w.metadata.documentRow (record x).ref).isSome) :
    Returns StoreOp.eval (forEach xs fun x => metadata (.upsertChunkRecord (record x)) : JobProgram Unit)
      me w () me
      { w with metadata := { w.metadata with
        chunks := (xs.map record).foldl (Table.upsert fun row => row.chunkId) w.metadata.chunks } } := by
  have hloop := (@returns_forEach _ _ _ _ _ StoreOp.eval me w
    (fun s => s.metadata.documents = w.metadata.documents)
    (fun s x => { s with metadata := { s.metadata with
      chunks := Table.upsert (fun row => row.chunkId) s.metadata.chunks (record x) } })
    (fun x => metadata (.upsertChunkRecord (record x))) xs ?_ rfl).1
  · rw [← foldl_chunks, List.foldl_map]
    exact hloop
  · intro x hx s hs
    refine ⟨?_, hs⟩
    apply returns_metadata
    have hpresent : (s.metadata.documentRow (record x).ref).isSome := by
      unfold documentRow at hrow ⊢
      rw [hs]
      exact hrow x hx
    simp only [MetadataOp.eval, upsertChunkRecord, hpresent, if_true, Table.upsert]
    split
    · rfl
    · rfl

theorem stepWriteQdrant_first (hchunk : svc.splitSections req.content = .ok segs)
    (hrow : row.ref = req.ref) {points : List Point} (hpoints : v req.ref.doc.corpusId = some points) :
    Returns StoreOp.eval (stepWriteQdrant svc req) (chunked svc segs req.ref me)
      (stage svc req options w row done chunks v p) () (chunked svc segs req.ref me)
      (stage svc req options w row done
        ((chunkRecords svc req (segs.map (svc.parentOf req.ref))
          (segs.flatMap (svc.childrenOf req.ref))).foldl (Table.upsert fun row => row.chunkId) chunks)
        (Function.update v req.ref.doc.corpusId
          (some ((childPoints svc req (segs.flatMap (svc.childrenOf req.ref)) .processing).foldl
            upsertPoint points))) p) := by
  apply (ensureChunked_again hchunk).bind
  apply returns_self.bind
  apply (returns_upsert hpoints).bind
  have hpresent : ∀ s : World, s.metadata.documents = [row] →
      (s.metadata.documentRow req.ref).isSome := by
    intro s hs
    simp [documentRow, hs, ofVersion, hrow, Table.selectOne]
  apply (returns_upsertChunks fun _ _ => hpresent _ rfl).bind
  rw [chunkRecords, List.foldl_append]
  exact returns_upsertChunks fun _ _ => hpresent _ rfl

theorem verifyParents_first {parents : List ParentDraft}
    (hstored : ∀ parent ∈ parents, ∃ stored, w.parents.get parent.parentId = some stored ∧
      stored.ref = req.ref) :
    Returns StoreOp.eval (forEach parents (verifyParent req)) me w () me w := by
  have hloop := (@returns_forEach _ _ _ _ _ StoreOp.eval me w (fun s => s = w) (fun s _ => s)
    (verifyParent req) parents ?_ rfl)
  · have hsame : parents.foldl (fun s _ => s) w = w := hloop.2
    rw [hsame] at hloop
    exact hloop.1
  · rintro parent hparent s rfl
    refine ⟨?_, rfl⟩
    obtain ⟨stored, hget, href⟩ := hstored parent hparent
    have hid : stored.parentId = parent.parentId := by
      have hkey := (Table.selectOne_some hget).2
      simpa [ParentStore.hasId] using hkey
    apply returns_read_bind
    simp only [hget, href, hid, ne_eq, not_true_eq_false, or_self, if_false]
    rfl

/-- Where the points have distinct ids, each is compared with its own child. -/
theorem pointMatches_own {children : List ChildChunk} {child : ChildChunk}
    (hids : (children.map fun child => svc.childPointId child.childId).Nodup)
    (hchild : child ∈ children) (href : child.ref = req.ref) :
    pointMatches svc req children
      (svc.childChunkToPoint child req.acl.toAclFields .processing false) = true := by
  have hexpected : expectedByPointId svc children (svc.childPointId child.childId) = some child := by
    unfold expectedByPointId
    cases hfound : children.reverse.find? fun other =>
        decide (svc.childPointId other.childId = svc.childPointId child.childId) with
    | none =>
      have hnone := List.find?_eq_none.mp hfound child (List.mem_reverse.mpr hchild)
      simp at hnone
    | some other =>
      have hother := List.mem_reverse.mp (List.mem_of_find?_eq_some hfound)
      have hsame : svc.childPointId other.childId = svc.childPointId child.childId := by
        simpa using List.find?_some hfound
      rw [List.inj_on_of_nodup_map hids hother hchild hsame]
  unfold pointMatches
  rw [show (svc.childChunkToPoint child req.acl.toAclFields .processing false).id =
    svc.childPointId child.childId from rfl, hexpected]
  simp [Services.childChunkToPoint, href]

theorem verifyPoints_first {children : List ChildChunk}
    (hids : (children.map fun child => svc.childPointId child.childId).Nodup)
    (hrefs : ∀ child ∈ children, child.ref = req.ref)
    (hpoints : w.vectors req.ref.doc.corpusId = some (childPoints svc req children .processing)) :
    Returns StoreOp.eval (verifyPoints svc req children) me w () me w := by
  unfold verifyPoints
  dsimp only
  split
  · exact returns_pure
  · have hfound : w.vectors.retrieve req.ref.doc.corpusId
        (children.map fun child => svc.childPointId child.childId) =
          .ok (childPoints svc req children .processing) := by
      simp only [VectorStore.retrieve, VectorStore.scrollAll, hpoints, Except.map]
      congr 1
      rw [List.filter_eq_self]
      intro point hpoint
      obtain ⟨child, hchild, rfl⟩ := List.mem_map.mp hpoint
      exact decide_eq_true (List.mem_map.mpr ⟨child, hchild, rfl⟩)
    have hmissing : ((children.map fun child => svc.childPointId child.childId).any fun id =>
        !(childPoints svc req children .processing).any fun point => decide (point.id = id)) = false := by
      rw [List.any_eq_false]
      intro id hid
      obtain ⟨child, hchild, rfl⟩ := List.mem_map.mp hid
      simp only [Bool.not_eq_true', Bool.not_eq_false]
      exact List.any_eq_true.mpr ⟨_, List.mem_map_of_mem hchild, decide_eq_true rfl⟩
    have hmatch : (childPoints svc req children .processing).all (pointMatches svc req children) := by
      rw [List.all_eq_true]
      intro point hpoint
      obtain ⟨child, hchild, rfl⟩ := List.mem_map.mp hpoint
      exact pointMatches_own hids hchild (hrefs child hchild)
    apply (returns_tryRead hfound).bind
    simp only [hmissing, hmatch, Bool.false_eq_true, if_false, if_true]
    exact returns_pure

theorem verifyCommittable_first (hrow : row.ref = req.ref) (hstatus : row.status = .processing)
    (hvalid : row.toDocumentColumns.Valid) :
    Returns StoreOp.eval (verifyCommittable req) me (stage svc req options w row done chunks v p) () me
      (stage svc req options w row done chunks v p) := by
  have hdocument : (stage svc req options w row done chunks v p).metadata.getDocument req.ref =
      .ok (some { row.toDocumentColumns with valid := hvalid }) := by
    simp [getDocument, documentRow, stage, ofVersion, hrow, Table.selectOne, readDocument,
      rowToDocument, hvalid, Except.map]
  apply (returns_tryRead hdocument).bind
  simp only [hstatus, true_or, if_true]
  exact returns_pure

/-- Where the ids of the document are distinct, its rows are what was written. -/
theorem upsertChunks_distinct {parents : List ParentDraft} {children : List ChildChunk}
    (hnodup : (children.map (·.childId) ++ parents.map (·.parentId)).Nodup) :
    (chunkRecords svc req parents children).foldl (Table.upsert fun row => row.chunkId) [] =
      chunkRecords svc req parents children := by
  have hkeys : Table.KeyUnique (fun row : ChunkRecord => row.chunkId)
      (chunkRecords svc req parents children) := by
    simp only [Table.KeyUnique, chunkRecords, List.map_append, List.map_map]
    exact hnodup
  rw [Table.upsertAll_of_nodup (by simpa using hkeys), List.nil_append]

theorem stepVerify_first (hchunk : svc.splitSections req.content = .ok segs)
    (hids : ((segs.flatMap (svc.childrenOf req.ref)).map fun child =>
      svc.childPointId child.childId).Nodup)
    (hrow : row.ref = req.ref) (hstatus : row.status = .processing)
    (hvalid : row.toDocumentColumns.Valid)
    (hpoints : v req.ref.doc.corpusId =
      some (childPoints svc req (segs.flatMap (svc.childrenOf req.ref)) .processing)) :
    Returns StoreOp.eval (stepVerify svc req) (chunked svc segs req.ref me)
      (stage svc req options w row done
        (chunkRecords svc req (segs.map (svc.parentOf req.ref)) (segs.flatMap (svc.childrenOf req.ref)))
        v (putParents req (segs.map (svc.parentOf req.ref)) p)) ()
      (chunked svc segs req.ref me)
      (stage svc req options w row done
        (chunkRecords svc req (segs.map (svc.parentOf req.ref)) (segs.flatMap (svc.childrenOf req.ref)))
        v (putParents req (segs.map (svc.parentOf req.ref)) p)) := by
  obtain ⟨hparentRefs, hchildRefs⟩ := svc.chunkMarkdown_ref (chunkMarkdown_eq hchunk)
  have hstored : ∀ parent ∈ segs.map (svc.parentOf req.ref), ∃ stored,
      (putParents req (segs.map (svc.parentOf req.ref)) p).get parent.parentId = some stored ∧
        stored.ref = req.ref := by
    intro parent hparent
    obtain ⟨other, hother, hget⟩ := @get_putParents req _ p _ hparent
    exact ⟨_, hget, hparentRefs other hother⟩
  apply (ensureChunked_again hchunk).bind
  apply returns_self.bind
  apply (verifyParents_first hstored).bind
  apply (verifyPoints_first hids hchildRefs hpoints).bind
  apply returns_read_bind
  have hcount : ((stage svc req options w row done
        (chunkRecords svc req (segs.map (svc.parentOf req.ref)) (segs.flatMap (svc.childrenOf req.ref)))
        v (putParents req (segs.map (svc.parentOf req.ref)) p)).metadata.listChunkRecords req.ref).length =
      (segs.map (svc.parentOf req.ref)).length + (segs.flatMap (svc.childrenOf req.ref)).length := by
    have hall : Table.select (fun record : ChunkRecord => decide (record.ref = req.ref))
        (chunkRecords svc req (segs.map (svc.parentOf req.ref)) (segs.flatMap (svc.childrenOf req.ref))) =
          chunkRecords svc req (segs.map (svc.parentOf req.ref)) (segs.flatMap (svc.childrenOf req.ref)) := by
      apply List.filter_eq_self.mpr
      intro record hrecord
      simp only [chunkRecords, List.mem_append, List.mem_map] at hrecord
      obtain ⟨child, -, rfl⟩ | ⟨parent, -, rfl⟩ := hrecord
      · exact decide_eq_true rfl
      · exact decide_eq_true rfl
    simp only [listChunkRecords, stage, hall]
    simp only [chunkRecords, List.length_append, List.length_map]
    exact Nat.add_comm _ _
  simp only [chunked, hcount, ne_eq, not_true_eq_false, if_false]
  exact verifyCommittable_first hrow hstatus hvalid

theorem assertOwnsBuild_first (hlease : me.leaseGeneration = 1) :
    Returns StoreOp.eval (assertOwnsBuild req) me (stage svc req options w row done chunks v p) () me
      (stage svc req options w row done chunks v p) := by
  have hbuild : (stage svc req options w row done chunks v p).metadata.buildRow req.ref =
      some (firstLease req options) := by
    simp [buildRow, stage, firstLease, Table.selectOne]
  apply returns_read_bind
  apply returns_read_bind
  apply returns_self.bind
  simp only [getBuildOwner, getLeaseGeneration, hbuild, hlease, firstLease, Option.map_some, ne_eq,
    not_true_eq_false, or_self, if_false]
  exact returns_pure

/-- Nothing was active, and no other version has taken a revision. -/
theorem stepCommit_first (hlease : me.leaseGeneration = 1) :
    Returns StoreOp.eval (stepCommit req) me
      (stage svc req options w (firstRow svc req) done chunks v p) ()
      { me with commitPerformed := true }
      (stage svc req options w (activateRow w.clock 1 (firstRow svc req)) done chunks v p) := by
  apply (assertOwnsBuild_first hlease).bind
  apply returns_read_bind
  have hbase : (stage svc req options w (firstRow svc req) done chunks v p).metadata.getJobBaseRevision
      req.jobId = 0 := by
    simp [getJobBaseRevision, jobRow, stage, firstJob, Table.selectOne]
  have hcommit : commitActiveVersion w.clock req.ref.doc req.ref.version 0
      (stage svc req options w (firstRow svc req) done chunks v p).metadata =
        (.ok (1, none), (stage svc req options w (activateRow w.clock 1 (firstRow svc req)) done chunks v
          p).metadata) := by
    apply Routine.transaction_ok.mpr
    simp [Routine.bind_apply, stage, getCurrentRevision, getActiveVersion, Table.maximum, Table.select,
      Table.selectOne, firstRow, sourceColumns, demotePrevious, updateDocuments, Table.update, ofVersion,
      activeOf, ofDoc]
  rw [hbase]
  have hreturns : Returns StoreOp.eval (metadata (.commitActiveVersion req.ref.doc req.ref.version 0) :
      JobProgram (Nat × Option String)) me
      (stage svc req options w (firstRow svc req) done chunks v p) (1, none) me
      (stage svc req options w (activateRow w.clock 1 (firstRow svc req)) done chunks v p) :=
    returns_metadata hcommit
  exact hreturns.bind rfl

theorem publishParents_first {parents : List ParentDraft} :
    Returns StoreOp.eval (forEach parents publishParent) me w () me
      { w with parents := parents.foldl promoteParent w.parents } := by
  have hloop := (@returns_forEach _ _ _ _ _ StoreOp.eval me w (fun _ => True)
    (fun s parent => { s with parents := promoteParent s.parents parent }) publishParent parents ?_
    trivial).1
  · rw [foldl_parents fun parent store => promoteParent store parent] at hloop
    exact hloop
  · intro parent _ s _
    refine ⟨?_, trivial⟩
    apply returns_read_bind
    unfold promoteParent
    cases s.parents.get parent.parentId with
    | none => exact returns_pure
    | some chunk => exact returns_parents _

/-- No version was replaced, so nothing is hidden. -/
theorem stepPublish_first (hchunk : svc.splitSections req.content = .ok segs)
    (hlease : me.leaseGeneration = 1) {points : List Point}
    (hpoints : v req.ref.doc.corpusId = some points) :
    Returns StoreOp.eval (stepPublish svc req) (chunked svc segs req.ref me)
      (stage svc req options w row done chunks v p) () (chunked svc segs req.ref me)
      (stage svc req options w row done chunks
        (Function.update v req.ref.doc.corpusId
          (some ((childPoints svc req (segs.flatMap (svc.childrenOf req.ref)) .active).foldl
            upsertPoint points)))
        ((segs.map (svc.parentOf req.ref)).foldl promoteParent p)) := by
  have howns : Returns StoreOp.eval (assertOwnsBuild req) (chunked svc segs req.ref me)
      (stage svc req options w row done chunks v p) () (chunked svc segs req.ref me)
      (stage svc req options w row done chunks v p) := assertOwnsBuild_first hlease
  apply howns.bind
  apply (ensureChunked_again hchunk).bind
  apply returns_self.bind
  apply (returns_upsert hpoints).bind
  apply publishParents_first.bind
  apply returns_read_bind
  have hprevious : (stage svc req options w row done chunks v p).metadata.getJobPreviousVersion
      req.jobId = none := by
    simp [getJobPreviousVersion, jobRow, stage, firstJob, Table.selectOne]
  simp only [stage] at hprevious ⊢
  simp only [hprevious]
  exact returns_pure

/-- A marker of a job that has its row is written. -/
theorem markStep_returns {name : Step} {s : MetadataStore} (hjob : (s.jobRow req.jobId).isSome) :
    ∃ steps, markStep req.jobId name "done" s = (.ok (), { s with steps := steps }) := by
  simp only [markStep, hjob, if_true]
  split
  · exact ⟨_, rfl⟩
  · exact ⟨_, rfl⟩

theorem finalize_first (hnew : .finalize ∉ done) :
    ∃ w', Returns StoreOp.eval (runStep svc req .finalize) me
      (stage svc req options w row done chunks v p) () me w' := by
  let before := stage svc req options w row done chunks v p
  let manifested : MetadataStore := { before.metadata with
    jobs := [{ firstJob svc req with manifest := some (finalManifest svc req me) }] }
  let finished : MetadataStore := { before.metadata with
    jobs := [{ firstJob svc req with
      status := .succeeded
      parentCount := me.parentsList.length
      childCount := me.childrenList.length
      manifest := some (finalManifest svc req me) }]
    builds := [{ firstLease req options with status := .done }] }
  have hmanifest : Returns StoreOp.eval
      (metadata (.setJobManifest req.jobId (finalManifest svc req me)) : JobProgram Unit) me before () me
      { before with metadata := manifested } := by
    apply returns_metadata
    simp [MetadataOp.eval, setJobManifest, updateJobs, Routine.modify, stage, Table.update, firstJob,
      before, manifested]
  have hterminal : Returns StoreOp.eval (metadata (.markJobTerminal req.jobId .succeeded
      me.parentsList.length me.childrenList.length none) : JobProgram Unit) me
      { before with metadata := manifested } () me { before with metadata := finished } := by
    apply returns_metadata
    simp [MetadataOp.eval, markJobTerminal_eq, stage, Table.update, firstJob, firstLease, terminalLease,
      before, manifested, finished]
  have hjob : (finished.jobRow req.jobId).isSome := by
    simp [jobRow, Table.selectOne, firstJob, finished]
  obtain ⟨steps, hsteps⟩ := @markStep_returns req .finalize finished hjob
  have hmark : Returns StoreOp.eval (metadata (.markStep req.jobId .finalize "done") : JobProgram Unit) me
      { before with metadata := finished } () me
      { before with metadata := { finished with steps := steps } } := returns_metadata hsteps
  have hstep : Returns StoreOp.eval (step svc req .finalize) me before () me
      { before with metadata := finished } := returns_self.bind (hmanifest.bind hterminal)
  refine ⟨{ before with metadata := { finished with steps := steps } }, ?_⟩
  apply returns_read_bind
  simp only [isStepDone_stage, hnew, decide_false, Bool.false_eq_true, if_false]
  exact hstep.bind hmark

end Steps

section FirstRun

variable {svc req options} {w w' : World} {segs : List Section} {t' : JobState}
  {result : IngestionResult}

/-- The steps of the first build, one after the other. -/
theorem buildSteps_first (hfresh : w.FreshFor req.ref.doc) (hvalid : (sourceColumns svc req).Valid)
    (hchunk : svc.splitSections req.content = .ok segs)
    (hnodup : (ownIds (segs.map (svc.parentOf req.ref)) (segs.flatMap (svc.childrenOf req.ref))).Nodup)
    (hids : ((segs.flatMap (svc.childrenOf req.ref)).map fun child =>
      svc.childPointId child.childId).Nodup) :
    ∃ w', Returns StoreOp.eval (forEach buildSteps (runStep svc req))
      { initial with leaseGeneration := 1 }
      (stage svc req options w (firstRow svc req) [.acquire] [] w.vectors w.parents) ()
      (chunked svc segs req.ref { initial with leaseGeneration := 1, commitPerformed := true }) w' := by
  let parents := segs.map (svc.parentOf req.ref)
  let children := segs.flatMap (svc.childrenOf req.ref)
  let parsed : JobState :=
    { initial with leaseGeneration := 1, parsedHash := svc.sha256 req.content }
  let me := chunked svc segs req.ref { initial with leaseGeneration := 1 }
  let points := Function.update w.vectors req.ref.doc.corpusId
    (some (childPoints svc req children .processing))
  have hpoints : (childPoints svc req children .processing).foldl upsertPoint [] =
      childPoints svc req children .processing := by
    rw [upsertPoint_eq, Table.upsertAll_of_nodup, List.nil_append]
    simp only [Table.KeyUnique, List.nil_append, childPoints, List.map_map]
    exact hids
  have hrecords := @upsertChunks_distinct svc req _ _ hnodup
  have hparse := @runStep_stage svc req options w (firstRow svc req) [.acquire] [] w.vectors w.parents
    { initial with leaseGeneration := 1 } parsed .parse _ _ _ _ (by decide) rfl
  have hchunked := @runStep_stage svc req options w (firstRow svc req) [.acquire, .parse] [] w.vectors
    w.parents parsed me .chunk _ _ _ _ (by decide) (ensureChunked_first rfl hchunk)
  have hparents := @runStep_stage svc req options w (firstRow svc req) [.acquire, .parse, .chunk] []
    w.vectors w.parents me me .writeParents _ _ _ _ (by decide) (stepWriteParents_first hchunk)
  have hwrite := @stepWriteQdrant_first svc req options w (firstRow svc req)
    [.acquire, .parse, .chunk, .writeParents] [] w.vectors (putParents req parents w.parents) segs
    { initial with leaseGeneration := 1 } hchunk rfl [] hfresh.collection
  rw [hpoints, hrecords] at hwrite
  have hwritten := @runStep_stage svc req options w (firstRow svc req)
    [.acquire, .parse, .chunk, .writeParents] [] w.vectors (putParents req parents w.parents) me me
    .writeQdrant _ _ _ _ (by decide) hwrite
  have hverified := @runStep_stage svc req options w (firstRow svc req)
    [.acquire, .parse, .chunk, .writeParents, .writeQdrant] (chunkRecords svc req parents children) points
    (putParents req parents w.parents) me me .verify _ _ _ _ (by decide)
    (stepVerify_first hchunk hids rfl rfl hvalid (Function.update_self ..))
  have hcommitted := @runStep_stage svc req options w (firstRow svc req)
    [.acquire, .parse, .chunk, .writeParents, .writeQdrant, .verify]
    (chunkRecords svc req parents children) points (putParents req parents w.parents) me
    { me with commitPerformed := true } .commit _ _ _ _ (by decide) (stepCommit_first rfl)
  have hpublished := @runStep_stage svc req options w (activateRow w.clock 1 (firstRow svc req))
    [.acquire, .parse, .chunk, .writeParents, .writeQdrant, .verify, .commit]
    (chunkRecords svc req parents children) points (putParents req parents w.parents)
    { me with commitPerformed := true } { me with commitPerformed := true } .publish _ _ _ _ (by decide)
    (@stepPublish_first svc req options w _ _ _ _ _ segs
      { initial with leaseGeneration := 1, commitPerformed := true } hchunk rfl _ (Function.update_self ..))
  obtain ⟨w', hfinished⟩ := @finalize_first svc req options w (activateRow w.clock 1 (firstRow svc req))
    [.acquire, .parse, .chunk, .writeParents, .writeQdrant, .verify, .commit, .publish]
    (chunkRecords svc req parents children) _ _ { me with commitPerformed := true } (by decide)
  exact ⟨w', hparse.bind (hchunked.bind (hparents.bind (hwritten.bind (hverified.bind
    (hcommitted.bind (hpublished.bind (hfinished.bind returns_pure)))))))⟩

/-- A version with distinct ids is indexed. -/
theorem runBody_first (hfresh : w.FreshFor req.ref.doc) (hfull : stoppedEarly options = false)
    (hvalid : (sourceColumns svc req).Valid) (hchunk : svc.splitSections req.content = .ok segs)
    (hnodup : (ownIds (segs.map (svc.parentOf req.ref)) (segs.flatMap (svc.childrenOf req.ref))).Nodup)
    (hids : ((segs.flatMap (svc.childrenOf req.ref)).map fun child =>
      svc.childPointId child.childId).Nodup) :
    ∃ result t' w', Returns StoreOp.eval (runBody svc req options) initial w result t' w' ∧
      result.status = .indexed := by
  obtain ⟨w', hsteps⟩ := @buildSteps_first svc req options _ _ hfresh hvalid hchunk hnodup hids
  have hstopped : ¬stoppedEarly options = true := by simp [hfull]
  let me := chunked svc segs req.ref { initial with leaseGeneration := 1, commitPerformed := true }
  let result : IngestionResult :=
    { status := .indexed
      parentCount := me.parentsList.length
      childCount := me.childrenList.length
      errorCode := none }
  have hfinish : Returns StoreOp.eval (finishBuild options) me w' result me w' := by
    rw [finishBuild, if_neg hstopped]
    exact returns_self.bind returns_pure
  rw [← stepsUpTo_full hstopped] at hsteps
  have hbuild : Returns StoreOp.eval (build svc req options) initial w result me w' :=
    (stepAcquire_first hfresh hvalid).bind (hsteps.bind hfinish)
  have hguarded : Returns StoreOp.eval (guardedBuild svc req options) initial w result me w' :=
    hbuild.tryCatch (onException svc req)
  have hidentity : identityMismatch svc req (w.metadata.getJobIdentity req.jobId) = false := by
    simp [getJobIdentity, jobRow, hfresh.jobs, Table.selectOne, identityMismatch]
  have hadmitted : Returns StoreOp.eval (validateJobIdentity svc req) initial w () initial w := by
    apply returns_read_bind
    simp only [hidentity, Bool.false_eq_true, if_false]
    exact returns_pure
  have hunknown : w.metadata.getDocument req.ref = .ok none := by
    simp [getDocument, documentRow, hfresh.documents, Table.selectOne, readDocument]
  refine ⟨result, me, w', hadmitted.bind ?_, rfl⟩
  apply (returns_tryRead hunknown).bind
  exact hguarded

/-- A run that says `indexed` has written a row for each chunk, under distinct ids. -/
theorem runBody_first_indexed (hfresh : w.FreshFor req.ref.doc) (hfull : stoppedEarly options = false)
    (hchunk : svc.splitSections req.content = .ok segs)
    (h : Returns StoreOp.eval (runBody svc req options) initial w result t' w')
    (hstatus : result.status = .indexed) :
    (sourceColumns svc req).Valid ∧
      (ownIds (segs.map (svc.parentOf req.ref)) (segs.flatMap (svc.childrenOf req.ref))).Nodup ∧
      (w'.metadata.listChunkRecords req.ref).length =
        segs.length + (segs.flatMap (svc.childrenOf req.ref)).length := by
  have hinv : LifecycleInvariant w.metadata := lifecycleInvariant_empty hfresh.documents
  have hfinishes := finishes_of_returns h
  have hbuilt : Built svc req options result w w' := by
    rcases runBody_finishes hfinishes with ⟨-, hshort⟩ | ⟨hadmits, hguarded⟩
    · rw [(shortCircuit_finishes hshort).1] at hstatus
      cases hstatus
    · rcases guardedBuild_outcome hadmits hguarded with hbuilt | ⟨-, hstopped, -⟩ | ⟨e, t₁, w₁, -, hfailed⟩
      · exact hbuilt
      · rw [hfull] at hstopped
        cases hstopped
      · rcases onException_finishes hfailed with hfailed | hfailed
        · rw [hfailed] at hstatus
          cases hstatus
        · rw [hfailed] at hstatus
          cases hstatus
  have hvalid : (sourceColumns svc req).Valid := by
    obtain ⟨document, -, -, -, -, hdocument, -⟩ := hbuilt.run
    rw [← buildSourceDocument_columns svc req hdocument]
    exact document.valid
  have hunmarked : ∀ name, ¬Marked req w name := by
    intro name hmarked
    simp [Marked, isStepDone, hfresh.steps] at hmarked
  obtain ⟨acquired, me, me', hacquired, ⟨run⟩⟩ := hbuilt.acquired hinv
  obtain ⟨hrows, hcount⟩ := run.chunks_verified (chunkMarkdown_eq hchunk)
    (fun hmarked => hunmarked _ ((hacquired.marked .writeQdrant (by decide)).mp hmarked))
    (fun hmarked => hunmarked _ ((hacquired.marked .verify (by decide)).mp hmarked))
  dsimp only at hrows hcount
  have hempty : Table.KeyUnique (·.chunkId) w.metadata.chunks := by
    rw [hfresh.chunks]
    exact List.nodup_nil
  have hkeys : Table.KeyUnique (·.chunkId) w'.metadata.chunks := by
    rw [hrows, hacquired.chunks]
    exact hempty.upsertAll _
  obtain ⟨hnodup, -⟩ := hbuilt.recorded hinv hkeys (chunkMarkdown_eq hchunk) (hunmarked _) (hunmarked _)
    (by simp [hfresh.chunks])
  refine ⟨hvalid, hnodup, ?_⟩
  rw [hcount, ownIds, List.length_append, List.length_map, List.length_map, List.length_map]
  exact Nat.add_comm _ _

/-- The first ingest of a document is indexed, with a row for each parent and child, exactly if its request
is valid and the ids of its chunks are made of distinct strings. No store knows the document, the run is
complete and meets no fault, and different strings of the document have different ids. -/
theorem runBody_first_iff (hfresh : w.FreshFor req.ref.doc) (hfull : stoppedEarly options = false)
    (hchunk : svc.splitSections req.content = .ok segs) (hcollision : svc.NoCollision req.ref segs) :
    (∃ result t' w', Returns StoreOp.eval (runBody svc req options) initial w result t' w' ∧
      result.status = .indexed ∧
      (ownIds (segs.map (svc.parentOf req.ref)) (segs.flatMap (svc.childrenOf req.ref))).Nodup ∧
      (w'.metadata.listChunkRecords req.ref).length =
        segs.length + (segs.flatMap (svc.childrenOf req.ref)).length) ↔
      (sourceColumns svc req).Valid ∧ (svc.chunkBlobs req.ref segs).Nodup := by
  constructor
  · rintro ⟨result, t', w', hrun, hstatus, hnodup, -⟩
    obtain ⟨hvalid, -, -⟩ := runBody_first_indexed hfresh hfull hchunk hrun hstatus
    exact ⟨hvalid, hcollision.nodup_iff.mp hnodup⟩
  · rintro ⟨hvalid, hblobs⟩
    have hnodup : (ownIds (segs.map (svc.parentOf req.ref))
        (segs.flatMap (svc.childrenOf req.ref))).Nodup := hcollision.nodup_iff.mpr hblobs
    have hids : ((segs.flatMap (svc.childrenOf req.ref)).map fun child =>
        svc.childPointId child.childId).Nodup := by
      have hpoints : (((segs.flatMap (svc.childrenOf req.ref)).map (·.childId)).map
          svc.childPointId).Nodup := by
        apply hnodup.of_append_left.map_on
        intro first hfirst second hsecond hsame
        obtain ⟨one, hone, rfl⟩ := List.mem_map.mp hfirst
        obtain ⟨other, hother, rfl⟩ := List.mem_map.mp hsecond
        exact hcollision.points one hone other hother hsame
      rwa [List.map_map] at hpoints
    obtain ⟨result, t', w', hrun, hstatus⟩ := runBody_first hfresh hfull hvalid hchunk hnodup hids
    obtain ⟨-, hdistinct, hrows⟩ := runBody_first_indexed hfresh hfull hchunk hrun hstatus
    exact ⟨result, t', w', hrun, hstatus, hdistinct, hrows⟩

end FirstRun

end IngestionJob

/-! Headings of one level, and sections of one child each. -/

namespace Sample

private def repeated : String := "# A\nX\n# B\nY\n# A\nX"

private def twoHeadings : String := "# A\nX\n# B\nY"

private def headingSplitters : TextSplitters where
  splitHeaders text :=
    if text = repeated.toList then
      [⟨"# A\nX".toList, [("H1", "A")]⟩, ⟨"# B\nY".toList, [("H1", "B")]⟩,
        ⟨"# A\nX".toList, [("H1", "A")]⟩]
    else if text = twoHeadings.toList then
      [⟨"# A\nX".toList, [("H1", "A")]⟩, ⟨"# B\nY".toList, [("H1", "B")]⟩]
    else if text = [] then [] else [⟨text, []⟩]
  splitText _ _ text := if text = [] then [] else [text]

private def headingServices : Services :=
  ParentChildChunker.services
    { ParentChildChunker.overlapping with maxParentSize := 4000, min_le_max := by decide }
    headingSplitters (fun text => String.ofList text.toList.reverse) Sample.services.childPointId

private theorem world_freshFor : Sample.world.FreshFor Sample.doc where
  documents := rfl
  builds := rfl
  jobs := rfl
  steps := rfl
  chunks := rfl
  registered := by decide
  collection := rfl
  parents := rfl

end Sample

namespace IngestionJob

open Sample Method

/-- Two sections of one child each, under headings of their own. -/
theorem runBody_first_iff_sections :
    ∃ result t' w', Returns StoreOp.eval
        (runBody headingServices (request "job" "v1" twoHeadings) (attempt "a")) initial world result t' w' ∧
      result.status = .indexed ∧ (w'.metadata.listChunkRecords ⟨doc, "v1"⟩).length = 4 := by
  let segs : List Section := [⟨"# A\nX", [("H1", "A")]⟩, ⟨"# B\nY", [("H1", "B")]⟩]
  have hvalid : (sourceColumns headingServices (request "job" "v1" twoHeadings)).Valid := by decide +kernel
  have hblobs : (headingServices.chunkBlobs ⟨doc, "v1"⟩ segs).Nodup := by decide +kernel
  obtain ⟨result, t', w', hrun, hstatus, -, hrows⟩ :=
    (@runBody_first_iff headingServices (request "job" "v1" twoHeadings) (attempt "a") world segs
      world_freshFor rfl (by decide +kernel) ⟨by decide +kernel, by decide +kernel⟩).mpr ⟨hvalid, hblobs⟩
  have hcount : segs.length + (segs.flatMap (headingServices.childrenOf ⟨doc, "v1"⟩)).length = 4 := by
    decide +kernel
  exact ⟨result, t', w', hrun, hstatus, hrows.trans hcount⟩

/-- A section that comes back later under the same heading. -/
theorem runBody_first_refuted :
    ¬∀ (svc : Services) (req : IngestionRequest) (options : RunOptions) (w : World) (segs : List Section),
      w.FreshFor req.ref.doc → stoppedEarly options = false → svc.splitSections req.content = .ok segs →
      svc.NoCollision req.ref segs → (sourceColumns svc req).Valid →
      ∃ result t' w', Returns StoreOp.eval (runBody svc req options) initial w result t' w' ∧
        result.status = .indexed := by
  intro h
  let segs : List Section := [⟨"# A\nX", [("H1", "A")]⟩, ⟨"# B\nY", [("H1", "B")]⟩, ⟨"# A\nX", [("H1", "A")]⟩]
  have hchunk : headingServices.splitSections repeated = .ok segs := by decide +kernel
  obtain ⟨result, t', w', hrun, hstatus⟩ := h headingServices (request "job" "v1" repeated) (attempt "a")
    world segs world_freshFor rfl hchunk ⟨by decide +kernel, by decide +kernel⟩ (by decide +kernel)
  obtain ⟨-, hnodup, -⟩ := runBody_first_indexed world_freshFor rfl hchunk hrun hstatus
  have hrepeats : ¬(ownIds (segs.map (headingServices.parentOf ⟨doc, "v1"⟩))
      (segs.flatMap (headingServices.childrenOf ⟨doc, "v1"⟩))).Nodup := by
    decide +kernel
  exact hrepeats hnodup

end IngestionJob

end AgenticRag
