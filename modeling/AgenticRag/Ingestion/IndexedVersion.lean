import AgenticRag.Ingestion.CompletedRun
import AgenticRag.Ingestion.DeletedVersions
import AgenticRag.Storage.Acquisition

/-!
# What the result `indexed` promises

A run that returns `indexed` should leave the requested version active, its points and
parents stored and visible, and its job `SUCCEEDED`. A step whose marker an earlier run
left behind is not performed again, so whatever has undone its effect since then stays
undone; the condition below says, marker by marker, what must still be true when the
run starts.
-/

namespace AgenticRag

open MetadataStore StoreProgram Method

namespace IngestionJob

variable {svc : Services} {req : IngestionRequest} {w w' : World}

def PointVisible (svc : Services) (req : IngestionRequest) (w : World) (child : ChildChunk) : Prop :=
  ∃ point ∈ w.vectors.points req.ref.doc.corpusId, point.id = svc.childPointId child.childId ∧
    point.payload.ref = req.ref ∧ point.payload.Visible

def ParentStored (req : IngestionRequest) (w : World) (parent : ParentDraft) : Prop :=
  ∃ stored, w.parents.get parent.parentId = some stored ∧ stored.ref = req.ref

def ParentVisible (req : IngestionRequest) (w : World) (parent : ParentDraft) : Prop :=
  ∃ stored, w.parents.get parent.parentId = some stored ∧ stored.ref = req.ref ∧ stored.Visible

/-- The version is active, all its points and parents are stored and visible, and the job
has succeeded. -/
structure Delivered (svc : Services) (req : IngestionRequest) (w : World) : Prop where
  active : w.metadata.getActiveVersion req.ref.doc = some req.ref.version
  points : ∀ parents children, svc.chunkMarkdown req.content req.ref = .ok (parents, children) →
    ∀ child ∈ children, PointVisible svc req w child
  parents : ∀ parents children, svc.chunkMarkdown req.content req.ref = .ok (parents, children) →
    ∀ parent ∈ parents, ParentVisible req w parent
  job : w.metadata.getJobStatus req.jobId = some .succeeded

/-- A chunk row of the version the job will hide that is not one of its own by then. -/
structure Hides (req : IngestionRequest) (own : List String) (w : World) (row : ChunkRecord) :
    Prop where
  mem : row ∈ w.metadata.chunks
  replaced : ∃ version, w.metadata.replacedVersion req.jobId req.ref = some version ∧
    version ≠ "" ∧ version ≠ req.ref.version ∧ row.ref = ⟨req.ref.doc, version⟩
  foreign : ¬Marked req w .writeQdrant → row.chunkId ∉ own

/-- The ids under which the chunks of the request are recorded. -/
def ownIds (parents : List ParentDraft) (children : List ChildChunk) : List String :=
  children.map (·.childId) ++ parents.map (·.parentId)

/-- What must be true when the run starts: the steps whose markers are there have not been
undone, and publishing does not hide what it has just shown. -/
structure Deliverable (svc : Services) (req : IngestionRequest) (w : World) : Prop where
  finalize : ¬Marked req w .finalize
  commit : Marked req w .commit →
    w.metadata.getActiveVersion req.ref.doc = some req.ref.version
  points : ∀ parents children, svc.chunkMarkdown req.content req.ref = .ok (parents, children) →
    ∀ child ∈ children,
      (Marked req w .publish → Marked req w .writeQdrant ∧ PointVisible svc req w child) ∧
      (¬Marked req w .publish → ∀ row, Hides req (ownIds parents children) w row →
        row.chunkType = .child → svc.childPointId row.chunkId ≠ svc.childPointId child.childId)
  parents : ∀ parents children, svc.chunkMarkdown req.content req.ref = .ok (parents, children) →
    ∀ parent ∈ parents,
      (Marked req w .writeParents → ParentStored req w parent ∧
        (Marked req w .publish → ParentVisible req w parent)) ∧
      (¬Marked req w .publish → ∀ row, Hides req (ownIds parents children) w row →
        row.chunkType = .parent → row.chunkId ≠ parent.parentId)

section Points

variable {parents : List ParentDraft} {children : List ChildChunk}

theorem Filled.lists {me : JobState} (h : Filled svc req me)
    (hchunks : svc.chunkMarkdown req.content req.ref = .ok (parents, children)) :
    me.parentsList = parents ∧ me.childrenList = children := by
  have heq := h.chunks.symm.trans hchunks
  simpa using heq

/-- After the upsert of its batch a child's id holds a point of the batch. -/
theorem mem_childPoints {status : PayloadStatus} {child : ChildChunk} (points : List Point)
    (hchunks : svc.chunkMarkdown req.content req.ref = .ok (parents, children))
    (hchild : child ∈ children) :
    (∃ point ∈ (childPoints svc req children status).foldl upsertPoint points,
      point.id = svc.childPointId child.childId ∧ point.payload.ref = req.ref ∧
        point.payload.status = status ∧ point.payload.deprecated = false) ∧
    ∀ point ∈ (childPoints svc req children status).foldl upsertPoint points,
      point.id = svc.childPointId child.childId → point.payload.status = status := by
  have hnew : svc.childChunkToPoint child req.acl.toAclFields status false ∈
      childPoints svc req children status := List.mem_map_of_mem hchild
  constructor
  · have hlast : ∃ point ∈ childPoints svc req children status,
        point.id = svc.childPointId child.childId ∧
          point ∈ (childPoints svc req children status).foldl upsertPoint points :=
      Table.exists_mem_upsertAll hnew
    obtain ⟨point, hpoint, hid, hmem⟩ := hlast
    obtain ⟨other, hother, rfl⟩ := List.mem_map.mp hpoint
    exact ⟨_, hmem, hid, (svc.chunkMarkdown_ref hchunks).2 other hother, rfl, rfl⟩
  · intro point hpoint hid
    rcases mem_upsert.mp hpoint with hlast | ⟨-, hfresh⟩
    · obtain ⟨other, -, rfl⟩ :=
        List.mem_map.mp (List.mem_reverse.mp (List.mem_of_find?_eq_some hlast))
      rfl
    · exact absurd hid.symm (hfresh _ hnew)

/-- A point that is shown stays shown unless a hidden point has its id. -/
theorem visible_after_hiding {rows : List ChunkRecord} {points : List Point} {pointId : String}
    (hshown : ∃ point ∈ points, point.id = pointId ∧ point.payload.ref = req.ref ∧
      point.payload.Visible) :
    (∃ point ∈ (hiddenPoints svc req rows).foldl upsertPoint points, point.id = pointId ∧
        point.payload.ref = req.ref ∧ point.payload.Visible) ↔
      ∀ row ∈ rows, row.chunkType = .child → svc.childPointId row.chunkId ≠ pointId := by
  constructor
  · rintro ⟨point, hpoint, hid, -, hvisible⟩ row hrow htype hclash
    have hhidden : supersededPoint svc req row ∈ hiddenPoints svc req rows :=
      List.mem_map_of_mem (List.mem_filter.mpr ⟨hrow, by simpa using htype⟩)
    rcases mem_upsert.mp hpoint with hlast | ⟨-, hfresh⟩
    · obtain ⟨other, -, rfl⟩ :=
        List.mem_map.mp (List.mem_reverse.mp (List.mem_of_find?_eq_some hlast))
      simp [supersededPoint, Services.childChunkToPoint, PointPayload.Visible] at hvisible
    · exact hfresh _ hhidden (hclash.trans hid.symm)
  · intro hfresh
    obtain ⟨point, hpoint, hid, href, hvisible⟩ := hshown
    refine ⟨point, mem_upsert.mpr (Or.inr ⟨hpoint, fun new hnew => ?_⟩), hid, href, hvisible⟩
    obtain ⟨row, hrow, rfl⟩ := List.mem_map.mp hnew
    obtain ⟨hmem, htype⟩ := List.mem_filter.mp hrow
    rw [hid]
    exact hfresh row hmem (by simpa using htype)

/-- When a child's point is visible at the end of a pass through the steps. -/
theorem BuildRun.point_visible {start finish : JobState × World}
    (run : BuildRun svc req start finish)
    (hchunks : svc.chunkMarkdown req.content req.ref = .ok (parents, children)) {child : ChildChunk}
    (hchild : child ∈ children) :
    PointVisible svc req finish.2 child ↔
      (Marked req start.2 .publish →
        Marked req start.2 .writeQdrant ∧ PointVisible svc req start.2 child) ∧
      (¬Marked req start.2 .publish → ∀ row ∈ supersededRows req run.committed.2.metadata,
        row.chunkType = .child → svc.childPointId row.chunkId ≠ svc.childPointId child.childId) := by
  unfold PointVisible
  rw [run.vectors_after]
  obtain ⟨-, hwriteDue, -, -, hpublishDue, -⟩ := run.due
  rcases run.publish.cases with ⟨hmarked, hsame⟩ | ⟨hfresh, w₁, hstep, ⟨steps, hstores⟩, -⟩
  · have hpublish : Marked req start.2 .publish := hpublishDue.mp hmarked
    simp only [hpublish, forall_const, not_true_eq_false, false_implies, and_true]
    rw [hsame, run.vectors_between]
    rcases run.writeQdrant.cases with ⟨hwritten, hkept⟩ | ⟨hfresh, w₁, hstep, ⟨steps, hstores⟩, -⟩
    · have hwrite : Marked req start.2 .writeQdrant := hwriteDue.mp hwritten
      rw [hkept, run.vectors_before, and_iff_right hwrite]
    · have hwrite : ¬Marked req start.2 .writeQdrant := fun h => hfresh (hwriteDue.mpr h)
      obtain ⟨hchunked, -, v, hv, rfl⟩ := stepWriteQdrant_finishes run.written_passes.1 hstep
      rw [(hchunked.lists hchunks).2] at hv
      rw [hstores]
      simp only [(VectorStore.upsert_ok hv).1, hwrite, false_and, iff_false]
      rintro ⟨point, hpoint, hid, -, hvisible⟩
      have hprocessing := (mem_childPoints _ hchunks hchild).2 point hpoint hid
      simp [PointPayload.Visible, hprocessing] at hvisible
  · have hpublish : ¬Marked req start.2 .publish := fun h => hfresh (hpublishDue.mpr h)
    simp only [hpublish, false_implies, not_false_eq_true, forall_const, true_and]
    obtain ⟨hchunked, v, v', hv, hv', rfl⟩ := stepPublish_finishes run.committed_passes.1 hstep
    rw [(hchunked.lists hchunks).2] at hv
    rw [hstores]
    simp only [(VectorStore.upsert_ok hv').1, (VectorStore.upsert_ok hv).1]
    apply visible_after_hiding
    obtain ⟨point, hpoint, hid, href, hstatus, hdeprecated⟩ :=
      (mem_childPoints (run.committed.2.vectors.points req.ref.doc.corpusId) hchunks hchild).1
    exact ⟨point, hpoint, hid, href, hstatus, hdeprecated⟩

end Points

section Parents

variable {parents : List ParentDraft} {children : List ChildChunk}

/-- A loop that marks the parents with certain ids, each mark being made once. -/
theorem get_foldl_marks {ι : Type} {f : ParentStore → ι → ParentStore} {k : ι → String}
    {g : ParentChunk → ParentChunk} (hg : ∀ chunk, g (g chunk) = g chunk)
    (hf : ∀ store x parentId, (f store x).get parentId =
      (store.get parentId).map fun chunk => if k x = parentId then g chunk else chunk)
    (xs : List ι) (store : ParentStore) (parentId : String) :
    (xs.foldl f store).get parentId =
      (store.get parentId).map fun chunk => if parentId ∈ xs.map k then g chunk else chunk := by
  induction xs generalizing store with
  | nil => simp
  | cons x xs ih =>
    rw [List.foldl_cons, ih, hf]
    cases store.get parentId with
    | none => rfl
    | some chunk =>
      simp only [Option.map_some, List.map_cons, List.mem_cons]
      by_cases hx : k x = parentId
      · simp [hx, hg]
      · simp [hx, eq_comm (a := parentId)]

theorem get_promoteParent (store : ParentStore) (parent : ParentDraft) (parentId : String) :
    (promoteParent store parent).get parentId = (store.get parentId).map fun chunk =>
      if parent.parentId = parentId then ParentStore.setLifecycle .active false chunk else chunk := by
  unfold promoteParent
  by_cases hid : parent.parentId = parentId
  · subst hid
    cases hstored : store.get parent.parentId with
    | none => simp [hstored]
    | some chunk =>
      have hsame : chunk.parentId = parent.parentId := by
        have hkey := (Table.selectOne_some hstored).2
        simpa [ParentStore.hasId] using hkey
      simp only [ParentStore.get_put, if_true, Option.map_some]
      rw [if_pos]
      exact hsame
  · cases hstored : store.get parent.parentId with
    | none => simp [hid]
    | some chunk =>
      have hsame : chunk.parentId = parent.parentId := by
        have hkey := (Table.selectOne_some hstored).2
        simpa [ParentStore.hasId] using hkey
      have hother : ¬(ParentStore.setLifecycle .active false chunk).parentId = parentId := by
        rintro rfl
        exact hid hsame.symm
      simp [ParentStore.get_put, hother, hid]

theorem get_putParents {store : ParentStore} {parent : ParentDraft} (hparent : parent ∈ parents) :
    ∃ other ∈ parents,
      (putParents req parents store).get parent.parentId = some (authorizedParent req other) := by
  induction parents using List.reverseRecOn with
  | nil => simp at hparent
  | append_singleton parents last ih =>
    unfold putParents at ih ⊢
    rw [List.foldl_append, List.foldl_cons, List.foldl_nil, ParentStore.get_put]
    by_cases hid : (authorizedParent req last).parentId = parent.parentId
    · rw [if_pos hid]
      exact ⟨last, by simp, rfl⟩
    · rw [if_neg hid]
      rcases List.mem_append.mp hparent with hmem | hlast
      · obtain ⟨other, hother, hget⟩ := ih hmem
        exact ⟨other, List.mem_append_left _ hother, hget⟩
      · obtain rfl := List.mem_singleton.mp hlast
        exact absurd rfl hid

theorem get_promoteParents (parents : List ParentDraft) (store : ParentStore) (parentId : String) :
    (parents.foldl promoteParent store).get parentId = (store.get parentId).map fun chunk =>
      if parentId ∈ parents.map (·.parentId) then ParentStore.setLifecycle .active false chunk
      else chunk :=
  get_foldl_marks (g := ParentStore.setLifecycle .active false) (fun _ => rfl) get_promoteParent
    parents store parentId

theorem get_deprecateRows (rows : List ChunkRecord) (store : ParentStore) (parentId : String) :
    (deprecateRows rows store).get parentId = (store.get parentId).map fun chunk =>
      if parentId ∈ (rows.filter fun record => decide (record.chunkType = .parent)).map (·.chunkId)
      then ParentStore.setLifecycle .inactive true chunk else chunk := by
  have hmark : ∀ (store : ParentStore) (record : ChunkRecord) parentId,
      (ParentStore.deprecateParent record.chunkId store).get parentId =
        (store.get parentId).map fun chunk =>
          if record.chunkId = parentId then ParentStore.setLifecycle .inactive true chunk
          else chunk := by
    intro store record parentId
    rw [ParentStore.get_deprecateParent]
    simp only [eq_comm (a := parentId)]
  exact get_foldl_marks (g := ParentStore.setLifecycle .inactive true) (fun _ => rfl) hmark _ store
    parentId

/-- Publishing shows a stored parent, and hides it again if the hidden version has a parent
row with its id. -/
theorem parentVisible_published {rows : List ChunkRecord} {store : ParentStore}
    {parent : ParentDraft} (hparent : parent ∈ parents) :
    (∃ stored, (deprecateRows rows (parents.foldl promoteParent store)).get parent.parentId =
        some stored ∧ stored.ref = req.ref ∧ stored.Visible) ↔
      (∃ stored, store.get parent.parentId = some stored ∧ stored.ref = req.ref) ∧
        ∀ row ∈ rows, row.chunkType = .parent → row.chunkId ≠ parent.parentId := by
  have hmem : parent.parentId ∈ parents.map (·.parentId) := List.mem_map_of_mem hparent
  have hclash : (parent.parentId ∈ (rows.filter fun record =>
        decide (record.chunkType = .parent)).map (·.chunkId)) ↔
      ∃ row ∈ rows, row.chunkType = .parent ∧ row.chunkId = parent.parentId := by
    simp [List.mem_map, List.mem_filter, and_assoc]
  rw [get_deprecateRows, get_promoteParents]
  simp only [if_pos hmem, hclash]
  cases hstored : store.get parent.parentId with
  | none => simp
  | some chunk =>
    simp only [Option.map_some, Option.some.injEq, exists_eq_left']
    by_cases hhidden : ∃ row ∈ rows, row.chunkType = .parent ∧ row.chunkId = parent.parentId
    · rw [if_pos hhidden]
      obtain ⟨row, hrow, htype, hid⟩ := hhidden
      constructor
      · rintro ⟨-, hstatus, -⟩
        simp [ParentStore.setLifecycle] at hstatus
      · rintro ⟨-, hfresh⟩
        exact absurd hid (hfresh row hrow htype)
    · rw [if_neg hhidden]
      push Not at hhidden
      constructor
      · rintro ⟨href, -⟩
        exact ⟨href, hhidden⟩
      · rintro ⟨href, -⟩
        exact ⟨href, rfl, rfl⟩

/-- When a parent is visible at the end of a pass through the steps. -/
theorem BuildRun.parent_visible {start finish : JobState × World}
    (run : BuildRun svc req start finish)
    (hchunks : svc.chunkMarkdown req.content req.ref = .ok (parents, children))
    {parent : ParentDraft} (hparent : parent ∈ parents) :
    ParentVisible req finish.2 parent ↔
      (Marked req start.2 .writeParents → ParentStored req start.2 parent ∧
        (Marked req start.2 .publish → ParentVisible req start.2 parent)) ∧
      (¬Marked req start.2 .publish → ∀ row ∈ supersededRows req run.committed.2.metadata,
        row.chunkType = .parent → row.chunkId ≠ parent.parentId) := by
  obtain ⟨hdue, -, -, -, hpublishDue, -⟩ := run.due
  have hwriteDue := hdue .writeParents (by simp) (by simp)
  -- the parent as the publish step finds it
  have hwritten : (Marked req start.2 .writeParents ∧
        run.written.2.parents.get parent.parentId = start.2.parents.get parent.parentId) ∨
      (¬Marked req start.2 .writeParents ∧ ∃ other ∈ parents,
        run.written.2.parents.get parent.parentId = some (authorizedParent req other)) := by
    rcases run.writeParents.cases with ⟨hmarked, hkept⟩ | ⟨hfresh, w₁, hstep, ⟨steps, hstores⟩, -⟩
    · exact Or.inl ⟨hwriteDue.mp hmarked, by rw [hkept, run.parents_before]⟩
    · obtain ⟨hchunked, -, rfl⟩ := stepWriteParents_finishes run.chunked_passes.1 hstep
      refine Or.inr ⟨fun h => hfresh (hwriteDue.mpr h), ?_⟩
      rw [hstores, (hchunked.lists hchunks).1]
      exact get_putParents hparent
  have hown : ∀ other ∈ parents, other.ref = req.ref := (svc.chunkMarkdown_ref hchunks).1
  unfold ParentVisible ParentStored
  rw [run.parents_after]
  rcases run.publish.cases with ⟨hmarked, hsame⟩ | ⟨hfresh, w₁, hstep, ⟨steps, hstores⟩, -⟩
  · have hpublish : Marked req start.2 .publish := hpublishDue.mp hmarked
    simp only [hpublish, forall_const, not_true_eq_false, false_implies, and_true]
    rw [hsame, run.parents_between]
    rcases hwritten with ⟨hmark, hget⟩ | ⟨hmark, other, hother, hget⟩
    · rw [hget]
      simp only [hmark, forall_const]
      constructor
      · rintro ⟨stored, hstored, href, hvisible⟩
        exact ⟨⟨stored, hstored, href⟩, stored, hstored, href, hvisible⟩
      · exact And.right
    · simp only [hget, hmark, false_implies, iff_true]
      exact ⟨_, rfl, hown other hother, rfl, rfl⟩
  · have hpublish : ¬Marked req start.2 .publish := fun h => hfresh (hpublishDue.mpr h)
    simp only [hpublish, false_implies, not_false_eq_true, forall_const, and_true]
    obtain ⟨hchunked, v, v', -, -, rfl⟩ := stepPublish_finishes run.committed_passes.1 hstep
    rw [hstores, (hchunked.lists hchunks).1]
    refine (parentVisible_published hparent).trans (and_congr_left fun _ => ?_)
    rw [run.parents_between]
    rcases hwritten with ⟨hmark, hget⟩ | ⟨hmark, other, hother, hget⟩
    · rw [hget]
      simp only [hmark, forall_const]
    · simp only [hget, hmark, false_implies, iff_true]
      exact ⟨_, rfl, hown other hother⟩

end Parents

section Control

variable {parents : List ParentDraft} {children : List ChildChunk}

/-- The rows that publishing hides, read off the state in which the steps start. -/
theorem BuildRun.mem_supersededRows {start finish : JobState × World}
    (run : BuildRun svc req start finish)
    (hchunks : svc.chunkMarkdown req.content req.ref = .ok (parents, children))
    {row : ChunkRecord} :
    row ∈ supersededRows req run.committed.2.metadata ↔
      row ∈ start.2.metadata.chunks ∧
      (∃ version, start.2.metadata.getJobPreviousVersion req.jobId = some version ∧
        version ≠ "" ∧ version ≠ req.ref.version ∧ row.ref = ⟨req.ref.doc, version⟩) ∧
      (¬Marked req start.2 .writeQdrant → row.chunkId ∉ ownIds parents children) := by
  have hjobs : run.committed.2.metadata.jobs = start.2.metadata.jobs := by
    rw [← run.jobs_before, run.published_passes.2.jobs (by simp)]
  have hprevious : run.committed.2.metadata.getJobPreviousVersion req.jobId =
      start.2.metadata.getJobPreviousVersion req.jobId := by
    unfold getJobPreviousVersion jobRow
    rw [hjobs]
  obtain ⟨-, hwriteDue, -⟩ := run.due
  -- a row of another version survives unless the upload recorded a chunk under its id
  have hsurvives : row.ref ≠ req.ref → (row ∈ run.committed.2.metadata.chunks ↔
      row ∈ start.2.metadata.chunks ∧
        (¬Marked req start.2 .writeQdrant → row.chunkId ∉ ownIds parents children)) := by
    intro hforeign
    rw [run.chunks_after]
    rcases run.writeQdrant.cases with ⟨hmarked, hkept⟩ | ⟨hfresh, w₁, hstep, ⟨steps, hstores⟩, -⟩
    · have hmark : Marked req start.2 .writeQdrant := hwriteDue.mp hmarked
      rw [hkept, run.chunks_before]
      simp [hmark]
    · have hmark : ¬Marked req start.2 .writeQdrant := fun h => hfresh (hwriteDue.mpr h)
      obtain ⟨hchunked, -, v, -, rfl⟩ := stepWriteQdrant_finishes run.written_passes.1 hstep
      obtain ⟨hparents, hchildren⟩ := hchunked.lists hchunks
      rw [hstores, hparents, hchildren, ← run.chunks_before]
      simp only [hmark, not_false_eq_true, forall_const]
      have hids : row.chunkId ∉ ownIds parents children ↔
          ∀ new ∈ chunkRecords svc req parents children, new.chunkId ≠ row.chunkId := by
        simp only [ownIds, chunkRecords, List.mem_append, List.mem_map, not_or, not_exists, not_and]
        constructor
        · rintro ⟨hchild, hparent⟩ new (⟨child, hmem, rfl⟩ | ⟨parent, hmem, rfl⟩)
          · exact hchild child hmem
          · exact hparent parent hmem
        · intro h
          exact ⟨fun child hmem => h _ (Or.inl ⟨child, hmem, rfl⟩),
            fun parent hmem => h _ (Or.inr ⟨parent, hmem, rfl⟩)⟩
      rw [hids]
      refine Table.mem_upsertAll.trans (or_iff_right ?_)
      intro hlast
      apply hforeign
      have hmem := List.mem_reverse.mp (List.mem_of_find?_eq_some hlast)
      rcases List.mem_append.mp hmem with hchild | hparent
      · obtain ⟨child, -, rfl⟩ := List.mem_map.mp hchild
        rfl
      · obtain ⟨parent, -, rfl⟩ := List.mem_map.mp hparent
        rfl
  unfold supersededRows
  rw [hprevious]
  cases hversion : start.2.metadata.getJobPreviousVersion req.jobId with
  | none => simp
  | some version =>
    simp only [Option.some.injEq, exists_eq_left']
    by_cases hskip : version = "" ∨ version = req.ref.version
    · simp only [if_pos hskip, List.not_mem_nil, false_iff]
      rintro ⟨-, ⟨hnamed, hother, -⟩, -⟩
      rcases hskip with h | h
      · exact hnamed h
      · exact hother h
    · rw [if_neg hskip]
      push Not at hskip
      simp only [listChunkRecords, Table.mem_select, decide_eq_true_eq]
      constructor
      · rintro ⟨hrow, href⟩
        have hforeign : row.ref ≠ req.ref := by
          rw [href]
          rintro heq
          exact hskip.2 (congrArg VersionRef.version heq)
        obtain ⟨hmem, hown⟩ := (hsurvives hforeign).mp hrow
        exact ⟨hmem, ⟨hskip.1, hskip.2, href⟩, hown⟩
      · rintro ⟨hmem, ⟨-, -, href⟩, hown⟩
        have hforeign : row.ref ≠ req.ref := by
          rw [href]
          rintro heq
          exact hskip.2 (congrArg VersionRef.version heq)
        exact ⟨(hsurvives hforeign).mpr ⟨hmem, hown⟩, href⟩

/-- The version that is active at the end: the requested one if the commit took place. -/
theorem BuildRun.active {start finish : JobState × World} (run : BuildRun svc req start finish)
    (hinv : LifecycleInvariant start.2.metadata) :
    finish.2.metadata.getActiveVersion req.ref.doc = some req.ref.version ↔
      (Marked req start.2 .commit →
        start.2.metadata.getActiveVersion req.ref.doc = some req.ref.version) := by
  have hafter : finish.2.metadata.getActiveVersion req.ref.doc =
      run.committed.2.metadata.getActiveVersion req.ref.doc := by
    unfold getActiveVersion
    rw [run.documents_after]
  have hbefore : run.verified.2.metadata.getActiveVersion req.ref.doc =
      start.2.metadata.getActiveVersion req.ref.doc := by
    unfold getActiveVersion
    rw [run.documents_before]
  obtain ⟨-, -, -, hcommitDue, -⟩ := run.due
  rw [hafter]
  rcases run.commit.cases with ⟨hmarked, hkept⟩ | ⟨hfresh, w₁, hstep, ⟨steps, hstores⟩, -⟩
  · have hmark : Marked req start.2 .commit := hcommitDue.mp hmarked
    rw [hkept, hbefore]
    simp [hmark]
  · have hmark : ¬Marked req start.2 .commit := fun h => hfresh (hcommitDue.mpr h)
    obtain ⟨-, switched, m, hm, rfl⟩ := stepCommit_finishes hstep
    have hactive := commitActiveVersion_active (hinv.congr run.documents_before) hm
    simp only [hmark, false_implies, iff_true]
    rw [hstores]
    exact hactive

/-- The content hashes of the requested version are those it started with. -/
theorem BuildRun.content {start finish : JobState × World} (run : BuildRun svc req start finish)
    {hash : String}
    (hold : ∀ row ∈ start.2.metadata.documents, row.ref = req.ref → row.contentHash = hash) :
    ∀ row ∈ finish.2.metadata.documents, row.ref = req.ref → row.contentHash = hash := by
  rw [run.documents_after]
  rcases run.commit.cases with ⟨-, hkept⟩ | ⟨-, w₁, hstep, ⟨steps, hstores⟩, -⟩
  · rw [hkept, run.documents_before]
    exact hold
  · obtain ⟨-, switched, m, hm, rfl⟩ := stepCommit_finishes hstep
    rw [hstores]
    intro row hrow href
    obtain ⟨old, hmem, holdRef, hhash⟩ := commitActiveVersion_content hm row hrow
    rw [← hhash]
    rw [run.documents_before] at hmem
    exact hold old hmem (holdRef.trans href)

/-- Skipping the commit leaves the version rows alone. -/
theorem BuildRun.documents_skipped {start finish : JobState × World}
    (run : BuildRun svc req start finish) (hmarked : Marked req start.2 .commit) :
    finish.2.metadata.documents = start.2.metadata.documents := by
  obtain ⟨-, -, -, hcommitDue, -⟩ := run.due
  rw [run.documents_after]
  rcases run.commit.cases with ⟨-, hkept⟩ | ⟨hfresh, -⟩
  · rw [hkept, run.documents_before]
  · exact absurd (hcommitDue.mpr hmarked) hfresh

theorem BuildRun.invariant {start finish : JobState × World} (run : BuildRun svc req start finish)
    (hinv : LifecycleInvariant start.2.metadata) : LifecycleInvariant finish.2.metadata := by
  refine LifecycleInvariant.congr ?_ run.documents_after
  rcases run.commit.cases with ⟨-, hkept⟩ | ⟨-, w₁, hstep, ⟨steps, hstores⟩, -⟩
  · rw [hkept]
    exact hinv.congr run.documents_before
  · obtain ⟨-, switched, m, hm, rfl⟩ := stepCommit_finishes hstep
    rw [hstores]
    exact ((commitActiveVersion_lifecycle hm).invariant (hinv.congr run.documents_before)).congr rfl

/-- The job has succeeded at the end exactly if the finalization took place. -/
theorem BuildRun.job {start finish : JobState × World} (run : BuildRun svc req start finish)
    {job : JobRow} (hjob : start.2.metadata.jobRow req.jobId = some job)
    (hrunning : job.status = .running) :
    finish.2.metadata.getJobStatus req.jobId = some .succeeded ↔ ¬Marked req start.2 .finalize := by
  obtain ⟨-, -, -, -, -, hfinalizeDue⟩ := run.due
  have hbefore : run.published.2.metadata.jobRow req.jobId = some job := by
    rw [← hjob]
    unfold jobRow
    rw [run.jobs_before]
  unfold getJobStatus
  rcases run.finalize.cases with ⟨hmarked, hkept⟩ | ⟨hfresh, w₁, hstep, ⟨steps, hstores⟩, -⟩
  · have hmark : Marked req start.2 .finalize := hfinalizeDue.mp hmarked
    rw [hkept, hbefore]
    simp [hmark, hrunning]
  · have hmark : ¬Marked req start.2 .finalize := fun h => hfresh (hfinalizeDue.mpr h)
    obtain ⟨-, rfl⟩ := stepFinalize_finishes hstep
    simp only [hmark, not_false_eq_true, iff_true]
    rw [hstores]
    have hfound : Table.selectOne (fun row : JobRow => decide (row.jobId = req.jobId))
        run.published.2.metadata.jobs = some job := hbefore
    have hid : job.jobId = req.jobId := (jobRow_mem hjob).2
    simp only [jobRow]
    rw [Table.selectOne_update, hfound]
    · simp [hid]
    · intro row _
      split <;> rfl

end Control

section Run

variable {options : RunOptions} {result : IngestionResult}

/-- The stores right after the acquire step, compared with those it found. -/
structure JustAcquired (svc : Services) (req : IngestionRequest) (w acquired : World) : Prop where
  invariant : LifecycleInvariant acquired.metadata
  activeRows : ∀ row : DocumentRow, row.status = .active →
    (row ∈ acquired.metadata.documents ↔ row ∈ w.metadata.documents)
  content : ∀ hash, hash = rawHash svc req →
    (∀ row ∈ w.metadata.documents, row.ref = req.ref → row.contentHash = hash) →
      ∀ row ∈ acquired.metadata.documents, row.ref = req.ref → row.contentHash = hash
  active : acquired.metadata.getActiveVersion req.ref.doc =
    w.metadata.getActiveVersion req.ref.doc
  job : ∃ job, acquired.metadata.jobRow req.jobId = some job ∧ job.status = .running ∧
    job.previousActiveVersion = w.metadata.replacedVersion req.jobId req.ref
  chunks : acquired.metadata.chunks = w.metadata.chunks
  vectors : acquired.vectors = w.vectors
  parents : acquired.parents = w.parents
  marked : ∀ name ≠ .acquire, Marked req acquired name ↔ Marked req w name

theorem Built.acquired (hinv : LifecycleInvariant w.metadata)
    (h : Built svc req options result w w') :
    ∃ acquired me me', JustAcquired svc req w acquired ∧
      Nonempty (BuildRun svc req (me, acquired) (me', w')) := by
  obtain ⟨document, claimed, m, acquired, me', hdocument, htxn, ⟨⟨steps, rfl⟩, hmarked⟩, hrun, -⟩ :=
    h.run
  have hprocessing : ∀ other ∈ some document, other.status = .processing := by
    intro other hother
    obtain rfl := Option.some.inj hother
    rw [buildSourceDocument_columns svc req hdocument]
    rfl
  have hframe := @MetadataOp.frame _
    (.acquireJobTransaction (acquireArgs svc req options document w)) w.clock _ _ _ htxn
  refine ⟨_, _, me', ?_, hrun⟩
  constructor
  · exact ((acquireJobTransaction_lifecycle hprocessing htxn).invariant hinv).congr rfl
  · exact fun row => acquireJobTransaction_activeRows hinv hprocessing htxn
  · rintro hash rfl hold
    refine acquireJobTransaction_content ?_ hold htxn
    intro other hother
    obtain rfl := Option.some.inj hother
    rw [buildSourceDocument_columns svc req hdocument]
    rfl
  · exact acquireJobTransaction_active hinv hprocessing htxn req.ref.doc
  · exact acquireJobTransaction_job htxn
  · exact hframe.chunks (by simp [MetadataOp.writes])
  · rfl
  · rfl
  · intro name hname
    rw [hmarked name, or_iff_left hname]
    simp only [Marked, isStepDone, hframe.steps (by simp [MetadataOp.writes])]

/-- The rows a publish hides, read off the state in which the run starts. -/
theorem JustAcquired.mem_supersededRows {acquired : World} {me me' : JobState}
    {parents : List ParentDraft} {children : List ChildChunk} (h : JustAcquired svc req w acquired)
    (run : BuildRun svc req (me, acquired) (me', w'))
    (hchunks : svc.chunkMarkdown req.content req.ref = .ok (parents, children)) {row : ChunkRecord} :
    row ∈ supersededRows req run.committed.2.metadata ↔
      Hides req (ownIds parents children) w row := by
  obtain ⟨job, hjob, -, hprevious⟩ := h.job
  have hreplaced : acquired.metadata.getJobPreviousVersion req.jobId =
      w.metadata.replacedVersion req.jobId req.ref := by
    simp [getJobPreviousVersion, hjob, hprevious]
  rw [run.mem_supersededRows hchunks]
  dsimp only
  rw [h.chunks, hreplaced, h.marked .writeQdrant (by simp)]
  constructor
  · rintro ⟨hmem, hversion, hown⟩
    exact ⟨hmem, hversion, hown⟩
  · rintro ⟨hmem, hversion, hown⟩
    exact ⟨hmem, hversion, hown⟩

/-- Whether a build that returned `indexed` delivered is decided by the state in which it
started. -/
theorem Built.delivers_iff (hinv : LifecycleInvariant w.metadata)
    (h : Built svc req options result w w') : Delivered svc req w' ↔ Deliverable svc req w := by
  obtain ⟨acquired, me, me', hacquired, ⟨run⟩⟩ := h.acquired hinv
  obtain ⟨job, hjob, hrunning, -⟩ := hacquired.job
  have hactive := run.active hacquired.invariant
  have hfinal := run.job hjob hrunning
  dsimp only at hactive hfinal
  rw [hacquired.active, hacquired.marked .commit (by simp)] at hactive
  rw [hacquired.marked .finalize (by simp)] at hfinal
  have hpoint : ∀ parents children, svc.chunkMarkdown req.content req.ref = .ok (parents, children) →
      ∀ child ∈ children, (PointVisible svc req w' child ↔
        (Marked req w .publish → Marked req w .writeQdrant ∧ PointVisible svc req w child) ∧
        (¬Marked req w .publish → ∀ row, Hides req (ownIds parents children) w row →
          row.chunkType = .child →
            svc.childPointId row.chunkId ≠ svc.childPointId child.childId)) := by
    intro parents children hchunks child hchild
    have hvisible := run.point_visible hchunks hchild
    simp only [hacquired.mem_supersededRows run hchunks, hacquired.marked .publish (by simp),
      hacquired.marked .writeQdrant (by simp), PointVisible, hacquired.vectors] at hvisible
    exact hvisible
  have hparent : ∀ parents children,
      svc.chunkMarkdown req.content req.ref = .ok (parents, children) →
      ∀ parent ∈ parents, (ParentVisible req w' parent ↔
        (Marked req w .writeParents → ParentStored req w parent ∧
          (Marked req w .publish → ParentVisible req w parent)) ∧
        (¬Marked req w .publish → ∀ row, Hides req (ownIds parents children) w row →
          row.chunkType = .parent → row.chunkId ≠ parent.parentId)) := by
    intro parents children hchunks parent hmem
    have hvisible := run.parent_visible hchunks hmem
    simp only [hacquired.mem_supersededRows run hchunks, hacquired.marked .publish (by simp),
      hacquired.marked .writeParents (by simp), ParentVisible, ParentStored,
      hacquired.parents] at hvisible
    exact hvisible
  constructor
  · intro hdelivered
    exact ⟨hfinal.mp hdelivered.job, hactive.mp hdelivered.active,
      fun parents children hchunks child hchild =>
        (hpoint parents children hchunks child hchild).mp
          (hdelivered.points parents children hchunks child hchild),
      fun parents children hchunks parent hmem =>
        (hparent parents children hchunks parent hmem).mp
          (hdelivered.parents parents children hchunks parent hmem)⟩
  · intro hdeliverable
    exact ⟨hactive.mpr hdeliverable.commit,
      fun parents children hchunks child hchild =>
        (hpoint parents children hchunks child hchild).mpr
          (hdeliverable.points parents children hchunks child hchild),
      fun parents children hchunks parent hmem =>
        (hparent parents children hchunks parent hmem).mpr
          (hdeliverable.parents parents children hchunks parent hmem),
      hfinal.mpr hdeliverable.finalize⟩

end Run

end IngestionJob

/-- The states the requests of the system can lead to, from stores without documents and
jobs, whatever is suspended or crashed in between. -/
def ReachableStores (svc : Services) (w : World) : Prop :=
  ∃ (w₀ : World) (P : Pool World StoreOp PyError LifecycleRequest Unit),
    w₀.metadata.documents = [] ∧ w₀.metadata.jobs = [] ∧ w₀.metadata.steps = [] ∧
      (lifecycleSystem svc).Reaches (fun _ _ _ => True) ⟨w₀, []⟩ P ∧ P.store = w

theorem ReachableStores.invariant {svc : Services} {w : World} (h : ReachableStores svc w) :
    DeletionInvariant w.metadata := by
  obtain ⟨w₀, P, hdocuments, hjobs, hsteps, hrun, rfl⟩ := h
  have hinv := deletionInvariant_empty hdocuments hjobs hsteps
  exact (((lifecycleSystem_disciplined svc hinv).sound hrun).1 hinv).1

open IngestionJob

/-- Whatever happened before, a complete run that returns `indexed` leaves the version
active, visible and its job `SUCCEEDED` exactly if the steps it skips have not been
undone. -/
theorem indexed_run_delivers (svc : Services) (req : IngestionRequest) (options : RunOptions)
    (hfull : options.maxStep = none) {w w' : World} (hreachable : ReachableStores svc w)
    {result : IngestionResult} {me : JobState}
    (hrun : Finishes (runBody svc req options) initial w result me w')
    (hindexed : result.status = .indexed) :
    Delivered svc req w' ↔ Deliverable svc req w :=
  (runBody_indexed hfull hindexed hrun).delivers_iff hreachable.invariant.lifecycle

/-- `v1` was ingested by `job-1` and deleted. -/
private def deletedVersion : World :=
  ((lifecycleMachine Sample.services).play ⟨Sample.world, []⟩
    (.spawn (.ingest (Sample.request "job-1" "v1" "text") (Sample.attempt "a")) :: advance 0 60 ++
      .spawn (.delete Sample.admin "policies" "travel") :: advance 0 8)).store

/-- A run of `job-1` for `v1` on its own. -/
private def deliver (w : World) : (Except PyError IngestionResult × JobState) × World :=
  (runBody Sample.services (Sample.request "job-1" "v1" "text") (Sample.attempt "b") initial).exec
    StoreOp.eval w

/-- Delivered again after the deletion, `v1` is reported as indexed and stays deleted. -/
theorem indexed_run_counterexample :
    ∃ w result me w', ReachableStores Sample.services w ∧
      Finishes (runBody Sample.services (Sample.request "job-1" "v1" "text") (Sample.attempt "b"))
        initial w result me w' ∧
      result.status = .indexed ∧
      ¬Delivered Sample.services (Sample.request "job-1" "v1" "text") w' := by
  have hresult : (deliver deletedVersion).1.1 =
      .ok { status := .indexed, parentCount := 0, childCount := 0, errorCode := none } := by
    decide +kernel
  have hactive : (deliver deletedVersion).2.metadata.getActiveVersion Sample.doc = none := by
    decide +kernel
  refine ⟨deletedVersion, _, _, (deliver deletedVersion).2, ?_, finishes_exec hresult, rfl, ?_⟩
  · exact ⟨Sample.world, _, rfl, rfl, rfl, (lifecycleMachine Sample.services).play_reaches _ _, rfl⟩
  · intro h
    have hversion := hactive.symm.trans h.active
    simp at hversion

/-- `v1` was ingested by `job-1`. -/
private def ingestedVersion : World :=
  ((lifecycleMachine Sample.services).play ⟨Sample.world, []⟩
    (.spawn (.ingest (Sample.request "job-1" "v1" "text") (Sample.attempt "a")) :: advance 0 60)).store

private def replacement : IngestionRequest := Sample.request "job-2" "v2" "new text"

/-- A run of `job-2` for `v2` on its own. -/
private def replace (w : World) : (Except PyError IngestionResult × JobState) × World :=
  (runBody Sample.services replacement (Sample.attempt "b") initial).exec StoreOp.eval w

/-- `v2` is delivered over `v1`. -/
theorem indexed_run_delivers_next :
    ingestedVersion.metadata.getActiveVersion Sample.doc = some "v1" ∧
      Delivered Sample.services replacement (replace ingestedVersion).2 := by
  have hactive : ingestedVersion.metadata.getActiveVersion Sample.doc = some "v1" := by decide +kernel
  have hresult : (replace ingestedVersion).1.1 =
      .ok { status := .indexed, parentCount := 1, childCount := 1, errorCode := none } := by
    decide +kernel
  have hreachable : ReachableStores Sample.services ingestedVersion :=
    ⟨Sample.world, _, rfl, rfl, rfl, (lifecycleMachine Sample.services).play_reaches _ _, rfl⟩
  have hunmarked : ∀ name, ¬Marked replacement ingestedVersion name := by
    intro name
    cases name <;> decide +kernel
  -- the chunk rows of `v1` have other ids
  obtain ⟨⟨drafts, chunks⟩, hchunked, hapart⟩ : ∃ chunked,
      Sample.services.chunkMarkdown replacement.content replacement.ref = .ok chunked ∧
        ∀ row ∈ ingestedVersion.metadata.chunks,
          (∀ child ∈ chunked.2,
            Sample.services.childPointId row.chunkId ≠ Sample.services.childPointId child.childId) ∧
          ∀ parent ∈ chunked.1, row.chunkId ≠ parent.parentId :=
    ⟨_, rfl, by decide +kernel⟩
  refine ⟨hactive, (indexed_run_delivers Sample.services replacement (Sample.attempt "b") rfl hreachable
    (finishes_exec hresult) rfl).mpr ⟨hunmarked _, fun h => absurd h (hunmarked _), ?_, ?_⟩⟩
  · intro parents children hchunks child hchild
    obtain ⟨rfl, rfl⟩ := Prod.mk.inj (Except.ok.inj (hchunked.symm.trans hchunks))
    exact ⟨fun h => absurd h (hunmarked _), fun _ row hides _ => (hapart row hides.mem).1 child hchild⟩
  · intro parents children hchunks parent hparent
    obtain ⟨rfl, rfl⟩ := Prod.mk.inj (Except.ok.inj (hchunked.symm.trans hchunks))
    exact ⟨fun h => absurd h (hunmarked _), fun _ row hides _ => (hapart row hides.mem).2 parent hparent⟩

end AgenticRag
