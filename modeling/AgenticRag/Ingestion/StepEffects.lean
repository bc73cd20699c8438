import AgenticRag.Ingestion.Job
import AgenticRag.Storage.Completions

/-!
# What the steps of a job do

The effect of each step that returned, as an equation for the stores it leaves. A
step writes the tables and stores its name says and leaves the rest alone; the
marker is written after it by the loop of `_run_body`.
-/

namespace AgenticRag.IngestionJob

open MetadataStore StoreProgram Method

variable (svc : Services) (req : IngestionRequest)

/-- The attributes hold the chunker's output for the request. -/
structure Filled (me : JobState) : Prop where
  chunks : svc.chunkMarkdown req.content req.ref = .ok (me.parentsList, me.childrenList)
  parsedHash : me.parsedHash = svc.sha256 (String.join (me.childrenList.map (·.text)))

/-- A list that was filled was filled by the chunker. -/
def Coherent (me : JobState) : Prop := me.childrenList ≠ [] → Filled svc req me

theorem Filled.coherent {svc : Services} {req : IngestionRequest} {me : JobState}
    (h : Filled svc req me) : Coherent svc req me := fun _ => h

/-- The parents of the request as `_step_write_parents` stores them, one after the other. -/
def putParents (parents : List ParentDraft) (store : ParentStore) : ParentStore :=
  parents.foldl (fun store parent => ParentStore.put (authorizedParent req parent) store) store

def childPoints (children : List ChildChunk) (status : PayloadStatus) : List Point :=
  children.map fun child => svc.childChunkToPoint child req.acl.toAclFields status false

/-- The chunk rows of the request, children first. -/
def chunkRecords (parents : List ParentDraft) (children : List ChildChunk) : List ChunkRecord :=
  children.map (childRecord svc req) ++ parents.map (parentRecord svc req)

def promoteParent (store : ParentStore) (parent : ParentDraft) : ParentStore :=
  match store.get parent.parentId with
  | none => store
  | some chunk => ParentStore.put (ParentStore.setLifecycle .active false chunk) store

/-- The chunk rows of the version a publish hides. -/
def supersededRows (s : MetadataStore) : List ChunkRecord :=
  match s.getJobPreviousVersion req.jobId with
  | none => []
  | some version =>
    if version = "" ∨ version = req.ref.version then []
    else s.listChunkRecords ⟨req.ref.doc, version⟩

def deprecateRows (rows : List ChunkRecord) (store : ParentStore) : ParentStore :=
  (rows.filter fun record => decide (record.chunkType = .parent)).foldl
    (fun store record => ParentStore.deprecateParent record.chunkId store) store

def hiddenPoints (rows : List ChunkRecord) : List Point :=
  (rows.filter fun record => decide (record.chunkType = .child)).map (supersededPoint svc req)

variable {svc req} {t t' : JobState} {w w' : World} {u : Unit}

theorem ensureChunked_finishes (hcoherent : Coherent svc req t)
    (h : Finishes (ensureChunked svc req) t w u t' w') :
    w' = w ∧ Filled svc req t' ∧ t'.leaseGeneration = t.leaseGeneration := by
  simp only [ensureChunked, completes_bind, completes_self] at h
  obtain ⟨me, t₁, w₁, ⟨rfl, rfl, rfl⟩, h⟩ := h
  rcases completes_ite.mp h with ⟨hfilled, h⟩ | ⟨hempty, h⟩
  · obtain ⟨-, rfl, rfl⟩ := completes_pure.mp h
    exact ⟨rfl, hcoherent hfilled, rfl⟩
  · cases hchunks : svc.chunkMarkdown req.content req.ref with
    | error e => simp [hchunks] at h
    | ok chunks =>
      simp only [hchunks, completes_assign] at h
      obtain ⟨rfl, rfl⟩ := h
      exact ⟨rfl, ⟨hchunks, rfl⟩, rfl⟩

theorem stepWriteParents_finishes (hcoherent : Coherent svc req t)
    (h : Finishes (stepWriteParents svc req) t w u t' w') :
    Filled svc req t' ∧ t'.leaseGeneration = t.leaseGeneration ∧
      w' = { w with parents := putParents req t'.parentsList w.parents } := by
  simp only [stepWriteParents, completes_bind, completes_self] at h
  obtain ⟨_, t₁, w₁, hchunked, me, t₂, w₂, ⟨rfl, rfl, rfl⟩, h⟩ := h
  obtain ⟨rfl, hdone, hlease⟩ := ensureChunked_finishes hcoherent hchunked
  obtain ⟨rfl, rfl⟩ := completes_forEach_fold
    (f := fun w parent =>
      { w with parents := ParentStore.put (authorizedParent req parent) w.parents })
    (fun parent _ s s' t' hput => finishes_parents.mp hput) h
  refine ⟨hdone, hlease, ?_⟩
  exact foldl_parents (fun parent store => ParentStore.put (authorizedParent req parent) store) _ _

theorem upsertChunks_finishes {α : Type} {record : α → ChunkRecord} {xs : List α}
    (h : Finishes (forEach xs fun x => metadata (.upsertChunkRecord (record x))) t w u t' w') :
    t' = t ∧ w' = { w with metadata := { w.metadata with
      chunks := (xs.map record).foldl (Table.upsert fun row => row.chunkId) w.metadata.chunks } } := by
  obtain ⟨rfl, rfl⟩ := completes_forEach_fold
    (f := fun w x => { w with metadata := { w.metadata with
      chunks := Table.upsert (fun row => row.chunkId) w.metadata.chunks (record x) } })
    (fun x _ s s' t' hput => by
      obtain ⟨ht, m, hm, rfl⟩ := finishes_metadata.mp hput
      exact ⟨ht, by rw [upsertChunkRecord_ok hm]⟩) h
  refine ⟨rfl, ?_⟩
  rw [← foldl_chunks, List.foldl_map]

theorem stepWriteQdrant_finishes (hcoherent : Coherent svc req t)
    (h : Finishes (stepWriteQdrant svc req) t w u t' w') :
    Filled svc req t' ∧ t'.leaseGeneration = t.leaseGeneration ∧ ∃ v,
      VectorStore.upsert req.ref.doc.corpusId (childPoints svc req t'.childrenList .processing)
        w.vectors = (.ok (), v) ∧
      w' = { w with
        vectors := v
        metadata := { w.metadata with
          chunks := (chunkRecords svc req t'.parentsList t'.childrenList).foldl
            (Table.upsert fun row => row.chunkId) w.metadata.chunks } } := by
  simp only [stepWriteQdrant, completes_bind, completes_self, finishes_vectors] at h
  obtain ⟨_, t₁, w₁, hchunked, me, t₂, w₂, ⟨rfl, rfl, rfl⟩, _, t₃, w₃, ⟨rfl, v, hv, rfl⟩,
    _, t₄, w₄, hchildren, hparents⟩ := h
  obtain ⟨rfl, hdone, hlease⟩ := ensureChunked_finishes hcoherent hchunked
  obtain ⟨rfl, rfl⟩ := upsertChunks_finishes hchildren
  obtain ⟨rfl, rfl⟩ := upsertChunks_finishes hparents
  refine ⟨hdone, hlease, v, hv, ?_⟩
  simp only [chunkRecords, List.foldl_append]

/-- What a verification that passed has seen. -/
structure Verified (svc : Services) (req : IngestionRequest) (me : JobState) (w : World) : Prop where
  parents : ∀ parent ∈ me.parentsList, ∃ stored, w.parents.get parent.parentId = some stored ∧
    stored.ref = req.ref
  points : ∀ child ∈ me.childrenList, ∃ point ∈ w.vectors.points req.ref.doc.corpusId,
    point.id = svc.childPointId child.childId ∧ point.payload.ref = req.ref
  records : (w.metadata.listChunkRecords req.ref).length =
    me.parentsList.length + me.childrenList.length
  committable : ∃ row, w.metadata.documentRow req.ref = some row ∧
    (row.status = .processing ∨ row.status = .failed ∨ row.status = .active)

theorem verifyParents_finishes {parents : List ParentDraft}
    (h : Finishes (forEach parents (verifyParent req)) t w u t' w') :
    t' = t ∧ w' = w ∧ ∀ parent ∈ parents, ∃ stored,
      w.parents.get parent.parentId = some stored ∧ stored.ref = req.ref := by
  induction parents with
  | nil =>
    obtain ⟨rfl, rfl⟩ := completes_forEach_nil.mp h
    exact ⟨rfl, rfl, by simp⟩
  | cons parent parents ih =>
    obtain ⟨t₁, w₁, hparent, hrest⟩ := completes_forEach_cons.mp h
    simp only [verifyParent, completes_bind, finishes_read] at hparent
    obtain ⟨found, t₂, w₂, ⟨rfl, rfl, rfl⟩, hparent⟩ := hparent
    cases hfound : w₂.parents.get parent.parentId with
    | none => simp [hfound] at hparent
    | some stored =>
      simp only [hfound, completes_ite, finishes_raise, and_false, false_or, completes_pure] at hparent
      obtain ⟨hmatch, -, rfl, rfl⟩ := hparent
      push Not at hmatch
      obtain ⟨rfl, rfl, hrest⟩ := ih hrest
      refine ⟨rfl, rfl, ?_⟩
      intro other hother
      rcases List.mem_cons.mp hother with rfl | hother
      · exact ⟨stored, hfound, hmatch.1⟩
      · exact hrest other hother

theorem verifyPoints_finishes {children : List ChildChunk}
    (h : Finishes (verifyPoints svc req children) t w u t' w') :
    t' = t ∧ w' = w ∧ ∀ child ∈ children, ∃ point ∈ w.vectors.points req.ref.doc.corpusId,
      point.id = svc.childPointId child.childId ∧ point.payload.ref = req.ref := by
  simp only [verifyPoints, completes_ite, completes_bind, finishes_tryRead, completes_pure,
    finishes_raise, and_false, false_or, or_false] at h
  rcases h with ⟨hempty, -, rfl, rfl⟩ | ⟨-, found, t₁, w₁, ⟨hread, rfl, rfl⟩, hpresent, hmatch, -,
    rfl, rfl⟩
  · refine ⟨rfl, rfl, fun child hchild => ?_⟩
    have hmem := List.mem_map_of_mem (f := fun child : ChildChunk => svc.childPointId child.childId)
      hchild
    rw [hempty] at hmem
    simp at hmem
  · refine ⟨rfl, rfl, fun child hchild => ?_⟩
    have hfound : found.any (fun point => decide (point.id = svc.childPointId child.childId)) = true := by
      by_contra hmissing
      apply hpresent
      rw [List.any_eq_true]
      exact ⟨svc.childPointId child.childId, List.mem_map_of_mem hchild, by simpa using hmissing⟩
    obtain ⟨point, hpoint, hid⟩ := List.any_eq_true.mp hfound
    simp only [decide_eq_true_eq] at hid
    have hstored : point ∈ w'.vectors.points req.ref.doc.corpusId := by
      unfold VectorStore.retrieve VectorStore.scrollAll at hread
      cases hpoints : w'.vectors req.ref.doc.corpusId with
      | none => simp [hpoints, Except.map] at hread
      | some points =>
        simp only [hpoints, Except.map, Except.ok.injEq] at hread
        rw [← hread] at hpoint
        simp only [VectorStore.points, hpoints, Option.getD_some]
        exact (List.mem_filter.mp hpoint).1
    refine ⟨point, hstored, hid, ?_⟩
    have hpointMatch := List.all_eq_true.mp hmatch point hpoint
    unfold pointMatches at hpointMatch
    split at hpointMatch
    · simp at hpointMatch
    · simp only [decide_eq_true_eq] at hpointMatch
      exact hpointMatch.1

theorem stepVerify_finishes (hcoherent : Coherent svc req t)
    (h : Finishes (stepVerify svc req) t w u t' w') :
    Filled svc req t' ∧ t'.leaseGeneration = t.leaseGeneration ∧ w' = w ∧
      Verified svc req t' w := by
  simp only [stepVerify, completes_bind, completes_self, finishes_read] at h
  obtain ⟨_, t₁, w₁, hchunked, me, t₂, w₂, ⟨rfl, rfl, rfl⟩, _, t₃, w₃, hparents,
    _, t₄, w₄, hpoints, records, t₅, w₅, ⟨rfl, rfl, rfl⟩, h⟩ := h
  obtain ⟨rfl, hdone, hlease⟩ := ensureChunked_finishes hcoherent hchunked
  obtain ⟨rfl, rfl, hparents⟩ := verifyParents_finishes hparents
  obtain ⟨rfl, rfl, hpoints⟩ := verifyPoints_finishes hpoints
  simp only [completes_ite, finishes_raise, and_false, false_or, verifyCommittable, completes_bind,
    finishes_tryRead] at h
  obtain ⟨hrecords, current, t₆, w₆, ⟨hcurrent, rfl, rfl⟩, h⟩ := h
  cases current with
  | none => simp at h
  | some document =>
    simp only [completes_ite, finishes_raise, and_false, or_false, completes_pure] at h
    obtain ⟨hstatus, -, rfl, rfl⟩ := h
    obtain ⟨row, hrow, hcolumns⟩ := getDocument_some hcurrent
    refine ⟨hdone, hlease, rfl, hparents, hpoints, not_not.mp hrecords, row, hrow, ?_⟩
    have hsame : document.status = row.status := congrArg DocumentColumns.status hcolumns
    rwa [hsame] at hstatus

theorem assertOwnsBuild_finishes (h : Finishes (assertOwnsBuild req) t w u t' w') :
    t' = t ∧ w' = w ∧ w.metadata.getBuildOwner req.ref = some req.jobId ∧
      w.metadata.getLeaseGeneration req.ref = t.leaseGeneration := by
  simp only [assertOwnsBuild, compareLease, completes_bind, finishes_read, completes_self,
    completes_ite, finishes_raise, and_false, false_or, completes_pure] at h
  obtain ⟨owner, t₁, w₁, ⟨rfl, rfl, rfl⟩, generation, t₂, w₂, ⟨rfl, rfl, rfl⟩, me, t₃, w₃,
    ⟨rfl, rfl, rfl⟩, hlease, -, rfl, rfl⟩ := h
  push Not at hlease
  exact ⟨rfl, rfl, hlease⟩

theorem stepCommit_finishes (h : Finishes (stepCommit req) t w u t' w') :
    t' = { t with commitPerformed := true } ∧ ∃ switched m,
      commitActiveVersion w.clock req.ref.doc req.ref.version
        (w.metadata.getJobBaseRevision req.jobId) w.metadata = (.ok switched, m) ∧
      w' = { w with metadata := m } := by
  simp only [stepCommit, switchActiveVersion, completes_bind, finishes_read, finishes_metadata,
    completes_assign] at h
  obtain ⟨_, t₁, w₁, howns, revision, t₂, w₂, ⟨rfl, rfl, rfl⟩, switched, t₃, w₃,
    ⟨rfl, m, hm, rfl⟩, rfl, rfl⟩ := h
  obtain ⟨rfl, rfl, -⟩ := assertOwnsBuild_finishes howns
  exact ⟨rfl, switched, m, hm, rfl⟩

theorem publishParents_finishes {parents : List ParentDraft}
    (h : Finishes (forEach parents publishParent) t w u t' w') :
    t' = t ∧ w' = { w with parents := parents.foldl promoteParent w.parents } := by
  obtain ⟨rfl, rfl⟩ := completes_forEach_fold
    (f := fun w parent => { w with parents := promoteParent w.parents parent })
    (fun parent _ s s' t' hparent => by
      simp only [publishParent, completes_bind, finishes_read] at hparent
      obtain ⟨stored, t₁, w₁, ⟨rfl, rfl, rfl⟩, hparent⟩ := hparent
      unfold promoteParent
      cases hstored : w₁.parents.get parent.parentId with
      | none =>
        simp only [hstored, completes_pure] at hparent
        exact ⟨hparent.2.1, hparent.2.2⟩
      | some chunk =>
        simp only [hstored] at hparent
        exact finishes_parents.mp hparent) h
  exact ⟨rfl, foldl_parents (fun parent store => promoteParent store parent) _ _⟩

theorem publishSuperseded_finishes {previousVersion : String}
    (h : Finishes (publishSuperseded svc req previousVersion) t w u t' w') :
    let rows := w.metadata.listChunkRecords ⟨req.ref.doc, previousVersion⟩
    t' = t ∧ ∃ v, VectorStore.upsert req.ref.doc.corpusId (hiddenPoints svc req rows) w.vectors =
        (.ok (), v) ∧
      w' = { w with vectors := v, parents := deprecateRows rows w.parents } := by
  simp only [publishSuperseded, completes_bind, finishes_read] at h
  obtain ⟨rows, t₁, w₁, ⟨rfl, rfl, rfl⟩, _, t₂, w₂, hparents, hpoints⟩ := h
  obtain ⟨rfl, rfl⟩ := completes_forEach_fold
    (f := fun w record =>
      { w with parents := ParentStore.deprecateParent record.chunkId w.parents })
    (fun record _ s s' t' hput => finishes_parents.mp hput) hparents
  rw [foldl_parents fun (record : ChunkRecord) store =>
    ParentStore.deprecateParent record.chunkId store] at hpoints
  simp only [completes_ite, completes_pure, finishes_vectors] at hpoints
  rcases hpoints with ⟨hempty, -, rfl, rfl⟩ | ⟨-, rfl, v, hv, rfl⟩
  · refine ⟨rfl, w₁.vectors, ?_, rfl⟩
    unfold hiddenPoints
    rw [hempty]
    rfl
  · exact ⟨rfl, v, hv, rfl⟩

theorem stepPublish_finishes (hcoherent : Coherent svc req t)
    (h : Finishes (stepPublish svc req) t w u t' w') :
    Filled svc req t' ∧ ∃ v v',
      VectorStore.upsert req.ref.doc.corpusId (childPoints svc req t'.childrenList .active)
        w.vectors = (.ok (), v) ∧
      VectorStore.upsert req.ref.doc.corpusId
        (hiddenPoints svc req (supersededRows req w.metadata)) v = (.ok (), v') ∧
      w' = { w with
        vectors := v'
        parents := deprecateRows (supersededRows req w.metadata)
          (t'.parentsList.foldl promoteParent w.parents) } := by
  simp only [stepPublish, publishArtifacts, completes_bind, completes_self, finishes_vectors,
    finishes_read] at h
  obtain ⟨_, t₁, w₁, howns, _, t₂, w₂, hchunked, me, t₃, w₃, ⟨rfl, rfl, rfl⟩, _, t₄, w₄,
    ⟨rfl, v, hv, rfl⟩, _, t₅, w₅, hparents, previous, t₆, w₆, ⟨rfl, rfl, rfl⟩, h⟩ := h
  obtain ⟨rfl, rfl, -⟩ := assertOwnsBuild_finishes howns
  obtain ⟨rfl, hdone, -⟩ := ensureChunked_finishes hcoherent hchunked
  obtain ⟨rfl, rfl⟩ := publishParents_finishes hparents
  unfold supersededRows
  cases hprevious : w₃.metadata.getJobPreviousVersion req.jobId with
  | none =>
    simp only [hprevious, completes_pure] at h
    obtain ⟨-, rfl, rfl⟩ := h
    exact ⟨hdone, v, v, hv, rfl, rfl⟩
  | some version =>
    simp only [hprevious] at h
    rcases completes_ite.mp h with ⟨hown, h⟩ | ⟨hother, h⟩
    · obtain ⟨-, rfl, rfl⟩ := completes_pure.mp h
      simp only [if_pos hown]
      exact ⟨hdone, v, v, hv, rfl, rfl⟩
    · obtain ⟨rfl, v', hv', rfl⟩ := publishSuperseded_finishes h
      simp only [if_neg hother]
      exact ⟨hdone, v, v', hv, hv', rfl⟩

/-- The manifest `_step_finalize` stores. -/
def finalManifest (svc : Services) (req : IngestionRequest) (me : JobState) : Manifest :=
  { rawHash := rawHash svc req
    parsedHash := if me.parsedHash = "" then none else some me.parsedHash
    parentCount := me.parentsList.length
    childCount := me.childrenList.length }

theorem stepFinalize_finishes (h : Finishes (stepFinalize svc req) t w u t' w') :
    t' = t ∧ w' = { w with metadata := { w.metadata with
      jobs := Table.update (fun row => decide (row.jobId = req.jobId))
        (fun row => { row with
          status := .succeeded
          parentCount := t.parentsList.length
          childCount := t.childrenList.length
          errorCode := none
          manifest := some (finalManifest svc req t) }) w.metadata.jobs
      builds := Table.update (fun row => decide (row.ownerJobId = req.jobId))
        (fun row => { row with status := .done }) w.metadata.builds } } := by
  simp only [stepFinalize, completes_bind, completes_self, finishes_metadata] at h
  obtain ⟨me, t₁, w₁, ⟨rfl, rfl, rfl⟩, _, t₂, w₂, ⟨rfl, m, hm, rfl⟩, rfl, m', hm', rfl⟩ := h
  have hterminal : markJobTerminal req.jobId .succeeded t'.parentsList.length
      t'.childrenList.length none m = (.ok u, m') := hm'
  rw [markJobTerminal_eq] at hterminal
  obtain ⟨-, rfl⟩ := Prod.mk.inj hterminal
  obtain ⟨-, rfl⟩ := Prod.mk.inj hm
  refine ⟨rfl, ?_⟩
  have hjobs : Table.update (fun row : JobRow => decide (row.jobId = req.jobId))
        (fun row => { row with
          status := .succeeded
          parentCount := t'.parentsList.length
          childCount := t'.childrenList.length
          errorCode := none })
        (Table.update (fun row => decide (row.jobId = req.jobId))
          (fun row => { row with manifest := some (finalManifest svc req t') }) w₁.metadata.jobs) =
      Table.update (fun row => decide (row.jobId = req.jobId))
        (fun row => { row with
          status := .succeeded
          parentCount := t'.parentsList.length
          childCount := t'.childrenList.length
          errorCode := none
          manifest := some (finalManifest svc req t') }) w₁.metadata.jobs := by
    simp only [Table.update, List.map_map]
    apply List.map_congr_left
    intro row _
    by_cases hjob : row.jobId = req.jobId
    · simp [hjob]
    · simp [hjob]
  rw [← hjobs]
  rfl

end AgenticRag.IngestionJob
