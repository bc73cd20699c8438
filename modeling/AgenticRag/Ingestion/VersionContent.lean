import AgenticRag.Ingestion.Compensation
import AgenticRag.Ingestion.StepEffects

/-!
# The content a version was built from

Nothing in a store says which submission it came from, except that the ids and texts of
the artifacts are those the chunker makes of the content. What a job writes between its
acquire and its end, other than the commit and the final status, is made from its own
request; what it removes are artifacts of its version.
-/

namespace AgenticRag.IngestionJob

open MetadataStore StoreProgram Method

section Content

variable (svc : Services) (req : IngestionRequest)

/-- A point of one of the request's children. -/
def ChildPoint (point : Point) : Prop :=
  ∃ child ∈ (chunksOf svc req).2, ∃ status,
    point = svc.childChunkToPoint child req.acl.toAclFields status false

/-- The chunk rows of the request. -/
def ownRecords : List ChunkRecord :=
  chunkRecords svc req (chunksOf svc req).1 (chunksOf svc req).2

/-- Whatever the stores hold for the version was made from the request. -/
structure BuiltFrom (w : World) : Prop where
  rows : ∀ row ∈ w.metadata.documents, row.ref = req.ref → row.contentHash = rawHash svc req
  chunks : ∀ row ∈ w.metadata.chunks, row.ref = req.ref → row ∈ ownRecords svc req
  points : ∀ name points, w.vectors name = some points → ∀ point ∈ points,
    point.payload.ref = req.ref → name = req.ref.doc.corpusId ∧ ChildPoint svc req point
  parents : ∀ parent ∈ w.parents, parent.ref = req.ref →
    parent.toParentDraft ∈ (chunksOf svc req).1

/-- The methods of the metadata store a job calls between its acquire and its end; its
commit is marked once it has taken place. -/
def OwnMethod (committed : Bool) {β : Type} : MetadataOp β → Prop
  | .markStep jobId name _ => jobId = req.jobId ∧ (name = .commit → committed = true)
  | .clearSteps jobId => jobId = req.jobId
  | .setJobManifest _ _ => True
  | .upsertChunkRecord chunk => chunk.ref = req.ref → chunk ∈ ownRecords svc req
  | .deleteChunkRecords _ => True
  | .markDocumentFailed _ => True
  | _ => False

/-- The accesses of a job between its acquire and its end, apart from the commit: what
it writes for its version is made from its request. -/
def OwnAccess (committed : Bool) {β : Type} : StoreOp β → Prop
  | .read _ => True
  | .raise _ => True
  | .metadata op => OwnMethod svc req committed op
  | .vectors (.upsert name points) _ => name = req.ref.doc.corpusId ∧
      ∀ point ∈ points, point.payload.ref = req.ref → ChildPoint svc req point
  | .vectors (.delete _ _) _ => True
  | .parents (.put chunk) _ => chunk.ref = req.ref → chunk.toParentDraft ∈ (chunksOf svc req).1
  | .parents (.delete _) _ => True
  | .parents (.deprecateParent _) _ => True
  | _ => False

/-- What such an access leaves as it was: the leases, the job statuses, the markers of
others, and each version row up to a failure. -/
structure Served (committed : Bool) (w w' : World) : Prop where
  builds : w'.metadata.builds = w.metadata.builds
  jobs : ∀ jobId, w'.metadata.getJobStatus jobId = w.metadata.getJobStatus jobId
  steps : ∀ row ∈ w'.metadata.steps, row ∈ w.metadata.steps ∨
    (row.jobId = req.jobId ∧ (row.stepName = .commit → committed = true))
  rows : ∀ row ∈ w'.metadata.documents, ∃ old ∈ w.metadata.documents, old.ref = row.ref ∧
    old.contentHash = row.contentHash ∧ (row.status = old.status ∨ row.status = .failed)
  kept : ∀ row ∈ w.metadata.documents, ∃ row' ∈ w'.metadata.documents, row'.ref = row.ref
  active : ∀ ref, w.Active ref → w'.Active ref

variable {svc req} {committed : Bool} {w w' : World}

theorem Served.refl (w : World) : Served req committed w w :=
  ⟨rfl, fun _ => rfl, fun _ h => Or.inl h, fun row h => ⟨row, h, rfl, rfl, Or.inl rfl⟩,
    fun row h => ⟨row, h, rfl⟩, fun _ h => h⟩

/-- An access that writes no table of the control plane but the chunk rows. -/
theorem Served.of_metadata (h : w'.metadata = { w.metadata with chunks := w'.metadata.chunks }) :
    Served req committed w w' := by
  constructor
  · rw [h]
  · intro jobId
    rw [h]
    rfl
  · intro row hrow
    rw [h] at hrow
    exact Or.inl hrow
  · intro row hrow
    rw [h] at hrow
    exact ⟨row, hrow, rfl, rfl, Or.inl rfl⟩
  · intro row hrow
    refine ⟨row, ?_, rfl⟩
    rw [h]
    exact hrow
  · rintro ref ⟨row, hrow, hactive⟩
    refine ⟨row, ?_, hactive⟩
    rw [h]
    exact hrow

theorem getJobStatus_setJobManifest (s : MetadataStore) (jobId other : String)
    (manifest : Manifest) :
    (setJobManifest jobId manifest s).2.getJobStatus other = s.getJobStatus other := by
  have hrow : (setJobManifest jobId manifest s).2.jobRow other =
      (s.jobRow other).map fun row =>
        if decide (row.jobId = jobId) then { row with manifest := some manifest } else row := by
    apply Table.selectOne_update
    intro row _
    split <;> rfl
  unfold getJobStatus
  rw [hrow, Option.map_map]
  congr 1
  funext row
  simp only [Function.comp_apply]
  split <;> rfl

/-- A method called between the acquire and the end of a job. -/
theorem OwnMethod.served {β : Type} {op : MetadataOp β} (hop : OwnMethod svc req committed op) {r : Except PyError β}
    {s : MetadataStore} (h : op.eval w.clock w.metadata = (r, s)) :
    Served req committed w { w with metadata := s } := by
  cases op with
  | markStep jobId name status =>
    obtain ⟨rfl, hname⟩ := hop
    rcases markStep_cases h with ⟨-, hs, hrows⟩ | ⟨-, rfl, -⟩
    · have hrefl : Served req committed w w := .refl w
      refine ⟨by rw [hs], fun jobId => by rw [hs]; rfl, fun row hrow => ?_, fun row hrow => ?_,
        fun row hrow => ⟨row, by rw [hs]; exact hrow, rfl⟩, ?_⟩
      · rcases hrows row hrow with hold | ⟨rfl, -⟩
        · exact Or.inl hold
        · exact Or.inr ⟨rfl, fun hcommit => hname hcommit⟩
      · rw [hs] at hrow
        exact hrefl.rows row hrow
      · rintro ref ⟨row, hrow, hactive⟩
        exact ⟨row, by rw [hs]; exact hrow, hactive⟩
    · exact .refl w
  | clearSteps jobId =>
    obtain ⟨-, rfl⟩ := Prod.mk.inj h
    have hrefl : Served req committed w w := .refl w
    exact ⟨rfl, fun _ => rfl, fun row hrow => Or.inl (Table.mem_delete.mp hrow).1, hrefl.rows,
      hrefl.kept, hrefl.active⟩
  | setJobManifest jobId manifest =>
    obtain ⟨-, rfl⟩ := Prod.mk.inj h
    have hrefl : Served req committed w w := .refl w
    exact ⟨rfl, fun other => getJobStatus_setJobManifest _ jobId other manifest, hrefl.steps,
      hrefl.rows, hrefl.kept, hrefl.active⟩
  | upsertChunkRecord chunk =>
    rcases upsertChunkRecord_cases h with ⟨-, -, hs, -⟩ | ⟨-, rfl⟩
    · exact .of_metadata hs
    · exact .refl w
  | deleteChunkRecords ref =>
    obtain ⟨-, rfl⟩ := Prod.mk.inj h
    exact .of_metadata rfl
  | markDocumentFailed ref =>
    rcases markDocumentFailed_cases h with ⟨-, rfl⟩ | ⟨-, rfl⟩
    · refine ⟨rfl, fun _ => rfl, fun _ hrow => Or.inl hrow, fun row hrow => ?_, ?_, ?_⟩
      · rcases Table.mem_update.mp hrow with ⟨old, hold, -, rfl⟩ | ⟨hold, -⟩
        · exact ⟨old, hold, rfl, rfl, Or.inr rfl⟩
        · exact ⟨row, hold, rfl, rfl, Or.inl rfl⟩
      · apply update_keeps_keys fun row : DocumentRow => row.ref
        exact fun _ _ => rfl
      · rintro other ⟨row, hrow, href, hactive⟩
        refine ⟨row, Table.mem_update.mpr (Or.inr ⟨hrow, ?_⟩), href, hactive⟩
        simp [openOf, hactive]
    · exact .refl w
  | _ => exact hop.elim

theorem OwnAccess.served {β : Type} {op : StoreOp β} (hop : OwnAccess svc req committed op)
    {r : Except PyError β} (h : op.Outcome w r w') : Served req committed w w' := by
  rcases h.state with rfl | rfl
  · exact .refl _
  · cases op with
    | metadata op => exact OwnMethod.served hop rfl
    | _ => exact .of_metadata rfl

/-- A batch sent to a collection. -/
theorem BuiltFrom.upsert {batch : List Point} (hw : BuiltFrom svc req w)
    (hbatch : ∀ point ∈ batch, point.payload.ref = req.ref → ChildPoint svc req point)
    {name : String} {points : List Point}
    (hpoints : (VectorStore.upsert req.ref.doc.corpusId batch w.vectors).2 name = some points) :
    ∀ point ∈ points, point.payload.ref = req.ref →
      name = req.ref.doc.corpusId ∧ ChildPoint svc req point := by
  unfold VectorStore.upsert at hpoints
  rw [Routine.ite_apply] at hpoints
  split at hpoints
  · exact hw.points name points hpoints
  · obtain ⟨r, v, hrun⟩ : ∃ r v, VectorStore.modifyCollection req.ref.doc.corpusId
        (fun points => batch.foldl upsertPoint points) w.vectors = (r, v) := ⟨_, _, rfl⟩
    rw [hrun] at hpoints
    rcases VectorStore.modifyCollection_cases hrun with ⟨found, hfound, -, rfl⟩ | ⟨-, -, rfl⟩
    · by_cases hname : name = req.ref.doc.corpusId
      · subst hname
        simp only [Function.update_self, Option.some.injEq] at hpoints
        subst hpoints
        intro point hpoint href
        rcases mem_upsert.mp hpoint with hnew | ⟨hold, -⟩
        · have hmem : point ∈ batch := List.mem_reverse.mp (List.mem_of_find?_eq_some hnew)
          exact ⟨rfl, hbatch point hmem href⟩
        · exact hw.points _ found hfound point hold href
      · simp only [Function.update_of_ne hname] at hpoints
        exact hw.points name points hpoints
    · exact hw.points name points hpoints

/-- Removing points leaves points that were there. -/
theorem delete_subset {collection name : String} {ids : List String} {v : VectorStore}
    {points : List Point} (h : (VectorStore.delete collection ids v).2 name = some points) :
    ∃ found, v name = some found ∧ ∀ point ∈ points, point ∈ found ∧
      (name = collection → point.id ∉ ids) := by
  unfold VectorStore.delete at h
  rw [Routine.ite_apply] at h
  split at h
  · rename_i hempty
    refine ⟨points, h, fun point hpoint => ⟨hpoint, fun _ => ?_⟩⟩
    rw [List.isEmpty_iff.mp hempty]
    simp
  · obtain ⟨r, v', hrun⟩ : ∃ r v', VectorStore.modifyCollection collection
        (Table.delete fun point => decide (point.id ∈ ids)) v = (r, v') := ⟨_, _, rfl⟩
    rw [hrun] at h
    rcases VectorStore.modifyCollection_cases hrun with ⟨found, hfound, -, rfl⟩ | ⟨hnone, -, rfl⟩
    · by_cases hname : name = collection
      · subst hname
        simp only [Function.update_self, Option.some.injEq] at h
        subst h
        refine ⟨found, hfound, fun point hpoint => ?_⟩
        obtain ⟨hmem, hkept⟩ := Table.mem_delete.mp hpoint
        exact ⟨hmem, fun _ => of_decide_eq_false hkept⟩
      · simp only [Function.update_of_ne hname] at h
        exact ⟨points, h, fun point hpoint => ⟨hpoint, fun hsame => absurd hsame hname⟩⟩
    · refine ⟨points, h, fun point hpoint => ⟨hpoint, ?_⟩⟩
      rintro rfl
      simp [hnone] at h

/-- Every own access keeps what is stored for the version made from the request. -/
theorem BuiltFrom.own {β : Type} {op : StoreOp β} (hw : BuiltFrom svc req w)
    (hop : OwnAccess svc req committed op) {r : Except PyError β} (h : op.Outcome w r w') :
    BuiltFrom svc req w' := by
  have hserved := hop.served h
  have hrows : ∀ row ∈ w'.metadata.documents, row.ref = req.ref →
      row.contentHash = rawHash svc req := by
    intro row hrow href
    obtain ⟨old, hold, hsame, hhash, -⟩ := hserved.rows row hrow
    exact hhash.symm.trans (hw.rows old hold (hsame.trans href))
  rcases h.state with rfl | rfl
  · exact hw
  · cases op with
    | metadata op =>
      refine ⟨hrows, fun row hrow href => ?_, hw.points, hw.parents⟩
      obtain ⟨r, s, hrun⟩ : ∃ r s, op.eval w.clock w.metadata = (r, s) := ⟨_, _, rfl⟩
      simp only [StoreOp.eval, hrun] at hrow
      cases op with
      | upsertChunkRecord chunk =>
        rcases upsertChunkRecord_cases hrun with ⟨-, -, -, hmem⟩ | ⟨-, rfl⟩
        · rcases (hmem row).mp hrow with rfl | ⟨hold, -⟩
          · exact hop href
          · exact hw.chunks row hold href
        · exact hw.chunks row hrow href
      | deleteChunkRecords ref =>
        obtain ⟨-, rfl⟩ := Prod.mk.inj hrun
        exact hw.chunks row (Table.mem_delete.mp hrow).1 href
      | _ =>
        have hchunks := (MetadataOp.frame hrun).chunks (by simp [MetadataOp.writes])
        exact hw.chunks row (hchunks ▸ hrow) href
    | vectors op done =>
      refine ⟨hrows, hw.chunks, fun name points hpoints => ?_, hw.parents⟩
      cases op with
      | upsert collection batch =>
        obtain ⟨rfl, hbatch⟩ := hop
        exact hw.upsert hbatch hpoints
      | delete collection ids =>
        obtain ⟨found, hfound, hsub⟩ := delete_subset hpoints
        exact fun point hpoint href => hw.points name found hfound point (hsub point hpoint).1 href
      | _ => exact hop.elim
    | parents op done =>
      refine ⟨hrows, hw.chunks, hw.points, fun parent hparent href => ?_⟩
      cases op with
      | put chunk =>
        simp only [StoreOp.eval, ParentOp.eval, ParentStore.put_eq, Table.mem_upsert] at hparent
        rcases hparent with rfl | ⟨hold, -⟩
        · exact hop href
        · exact hw.parents parent hold href
      | delete parentId => exact hw.parents parent (Table.mem_delete.mp hparent).1 href
      | deprecateParent parentId =>
        rcases Table.mem_update.mp hparent with ⟨old, hold, -, rfl⟩ | ⟨hold, -⟩
        · exact hw.parents old hold href
        · exact hw.parents parent hold href
      | _ => exact hop.elim
    | setPointer corpusId name done => exact hop.elim
    | recordFinding finding done => exact hop.elim
    | _ => exact hw

end Content

section Rules

variable (svc : Services) (req : IngestionRequest)

/-- A list of children that was filled was filled by the chunker, with its parents. -/
def Coherently (me : JobState) : Prop :=
  me.childrenList ≠ [] → svc.chunkMarkdown req.content req.ref = .ok (me.parentsList, me.childrenList)

/-- An assertion of a job at work: its own accesses keep it, whether they return or
raise, and as long as it holds the version was built from the request. -/
structure ContentRules (committed : Bool) (R : Regime World StoreOp PyError) (I : JobState → World → Prop) : Prop where
  onStores : OnStores R
  stable : Stable R I (fun _ : PyError => I)
  perform : ∀ {β : Type} (op : StoreOp β), OwnAccess svc req committed op →
    Maintains R I (fun _ => I) (Method.perform op : JobProgram β)
  assign : ∀ f, ChunkAssignment svc req f → ∀ me w, I me w → I (f me) w
  coherent : ∀ me w, I me w → Coherently svc req me
  built : ∀ me w, I me w → BuiltFrom svc req w

variable {svc req} {committed : Bool} {R : Regime World StoreOp PyError} {I : JobState → World → Prop}

theorem Coherently.assign {f : JobState → JobState} (hf : ChunkAssignment svc req f)
    {me : JobState} (hme : Coherently svc req me) : Coherently svc req (f me) := by
  cases hf with
  | parsed hash => exact hme
  | chunked hchunks hash => exact fun _ => hchunks

theorem chunksOf_eq {me : JobState}
    (h : svc.chunkMarkdown req.content req.ref = .ok (me.parentsList, me.childrenList)) :
    chunksOf svc req = (me.parentsList, me.childrenList) := by
  unfold chunksOf
  rw [h]

/-- The points of the request's children, in any status. -/
theorem childPoints_own {me : JobState} (hchunks : chunksOf svc req = (me.parentsList, me.childrenList))
    (status : PayloadStatus) : ∀ point ∈ me.childrenList.map (fun child =>
      svc.childChunkToPoint child req.acl.toAclFields status false),
      point.payload.ref = req.ref → ChildPoint svc req point := by
  intro point hpoint _
  obtain ⟨child, hchild, rfl⟩ := List.mem_map.mp hpoint
  exact ⟨child, by rw [hchunks]; exact hchild, status, rfl⟩

section Steps

variable (rules : ContentRules svc req committed R I)

include rules

theorem ContentRules.read {β : Type} (view : World → β) :
    Maintains R I (fun _ => I) (StoreProgram.read view : JobProgram β) :=
  rules.perform _ trivial

theorem ContentRules.tryRead {β : Type} (view : World → Except PyError β) :
    Maintains R I (fun _ => I) (StoreProgram.tryRead view : JobProgram β) :=
  rules.perform _ trivial

theorem ContentRules.raise {β : Type} (e : PyError) :
    Maintains R I (fun _ => I) (StoreProgram.raise e : JobProgram β) :=
  rules.perform _ trivial

theorem ContentRules.assertOwnsBuild : Maintains R I (fun _ => I) (assertOwnsBuild req) := by
  refine .bind rules.stable (rules.read _) fun owner => ?_
  refine .bind rules.stable (rules.read _) fun generation => ?_
  refine .bind rules.stable (.self rules.stable) fun me => ?_
  exact .ite (rules.raise _) (.pure rules.stable ())

/-- After `_ensure_chunked` the lists are the chunker's output. -/
theorem ContentRules.ensureChunked {me : JobState} {w : World} (hI : I me w) :
    (ensureChunked svc req).wp R (fun r me w => I me w ∧ ∀ u, r = .ok u →
      svc.chunkMarkdown req.content req.ref = .ok (me.parentsList, me.childrenList)) me w := by
  apply wp_bind
  refine wp_self fun w₁ hw₁ => ?_
  have hI₁ := rules.stable.inv hw₁ hI
  dsimp only
  split
  · rename_i hfilled
    exact wp_pure fun w₂ hw₂ => ⟨rules.stable.inv hw₂ hI₁, fun _ _ => rules.coherent _ _ hI₁ hfilled⟩
  · cases hchunks : svc.chunkMarkdown req.content req.ref with
    | error e =>
      apply wp_raise rules.onStores
      exact fun e' w₂ hw₂ => ⟨rules.stable.inv hw₂ hI₁, fun _ h => by simp at h⟩
    | ok chunks =>
      obtain ⟨parents, children⟩ := chunks
      refine wp_assign fun w₂ hw₂ => ⟨?_, fun _ _ => rfl⟩
      exact rules.stable.inv hw₂ (rules.assign _ (.chunked hchunks _) _ _ hI₁)

/-- A step that works on the chunks. -/
theorem ContentRules.withChunks {α : Type} {f : JobState → JobProgram α}
    (hf : ∀ me, chunksOf svc req = (me.parentsList, me.childrenList) →
      Maintains R I (fun _ => I) (f me)) :
    Maintains R I (fun _ => I)
      (IngestionJob.ensureChunked svc req >>= fun _ => self >>= fun me => f me) := by
  intro me w hI
  apply wp_bind
  refine wp_mono ?_ (rules.ensureChunked hI)
  rintro r me w ⟨hI, hdone⟩
  cases r with
  | error e => exact fun w' hw' => rules.stable.inv hw' hI
  | ok u =>
    have hchunks := chunksOf_eq (hdone u rfl)
    apply wp_bind
    exact wp_self fun w₁ hw₁ => hf me hchunks me w₁ (rules.stable.inv hw₁ hI)

theorem ContentRules.stepChunk : Maintains R I (fun _ => I) (stepChunk svc req) := by
  intro me w hI
  refine wp_mono ?_ (rules.ensureChunked hI)
  rintro r me w ⟨hI, -⟩
  cases r with
  | ok _ => exact hI
  | error _ => exact hI

theorem ContentRules.stepWriteParents : Maintains R I (fun _ => I) (stepWriteParents svc req) := by
  refine rules.withChunks fun me hchunks => ?_
  refine .forEach rules.stable fun parent hparent => rules.perform _ ?_
  intro _
  rw [hchunks]
  exact hparent

theorem ContentRules.stepWriteQdrant : Maintains R I (fun _ => I) (stepWriteQdrant svc req) := by
  refine rules.withChunks fun me hchunks => ?_
  have hrecords : ownRecords svc req = chunkRecords svc req me.parentsList me.childrenList := by
    unfold ownRecords
    rw [hchunks]
  refine .bind rules.stable (rules.perform _ ⟨rfl, childPoints_own hchunks .processing⟩) fun _ => ?_
  refine .bind rules.stable (.forEach rules.stable fun child hchild => rules.perform _ ?_) fun _ => ?_
  · intro _
    rw [hrecords]
    exact List.mem_append_left _ (List.mem_map_of_mem hchild)
  · refine .forEach rules.stable fun parent hparent => rules.perform _ ?_
    intro _
    rw [hrecords]
    exact List.mem_append_right _ (List.mem_map_of_mem hparent)

theorem ContentRules.stepVerify : Maintains R I (fun _ => I) (stepVerify svc req) := by
  refine rules.withChunks fun me _ => ?_
  refine .bind rules.stable (.forEach rules.stable fun parent _ => ?_) fun _ => ?_
  · refine .bind rules.stable (rules.read _) fun stored => ?_
    cases stored with
    | none => exact rules.raise _
    | some stored => exact .ite (rules.raise _) (.pure rules.stable ())
  refine .bind rules.stable ?_ fun _ => ?_
  · refine .ite (.pure rules.stable ()) (.bind rules.stable (rules.tryRead _) fun found => ?_)
    exact .ite (rules.raise _) (.ite (.pure rules.stable ()) (rules.raise _))
  refine .bind rules.stable (rules.read _) fun records => .ite (rules.raise _) ?_
  refine .bind rules.stable (rules.tryRead _) fun current => ?_
  cases current with
  | none => exact rules.raise _
  | some document => exact .ite (.pure rules.stable ()) (rules.raise _)

/-- A promoted parent was stored before, hence is one of the request's if it is one of
the version's. -/
theorem ContentRules.publishParent (parent : ParentDraft) :
    Maintains R I (fun _ => I) (publishParent parent) := by
  intro me w hI
  apply wp_bind
  refine wp_read rules.onStores ?_ fun e w' hw' w'' hw'' =>
    rules.stable.inv hw'' (rules.stable.inv hw' hI)
  intro w₁ w₂ hw₁ hw₂
  have hI₁ := rules.stable.inv hw₁ hI
  have hI₂ := rules.stable.inv hw₂ hI₁
  cases hstored : w₁.parents.get parent.parentId with
  | none => exact wp_pure fun w' hw' => rules.stable.inv hw' hI₂
  | some chunk =>
    refine rules.perform (.parents (.put (ParentStore.setLifecycle .active false chunk)) id) ?_ me w₂ hI₂
    exact (rules.built me w₁ hI₁).parents chunk (Table.selectOne_some hstored).1

/-- The points of another version are hidden under that version. -/
theorem ContentRules.hideRows {rows : List ChunkRecord} (hforeign : ∀ row ∈ rows, row.ref ≠ req.ref) :
    Maintains R I (fun _ => I) (do
      forEach (rows.filter fun record => decide (record.chunkType = .parent)) fun record =>
        parents (.deprecateParent record.chunkId)
      if hiddenPoints svc req rows = [] then pure ()
      else vectors (.upsert req.ref.doc.corpusId (hiddenPoints svc req rows))) := by
  refine .bind rules.stable (.forEach rules.stable fun record _ => ?_) fun _ => ?_
  · exact rules.perform _ trivial
  · refine .ite (.pure rules.stable ()) (rules.perform _ ⟨rfl, ?_⟩)
    intro point hpoint href
    obtain ⟨record, hrecord, rfl⟩ := List.mem_map.mp hpoint
    exact absurd href (hforeign record (List.mem_filter.mp hrecord).1)

theorem ContentRules.publishSuperseded {version : String} (hother : version ≠ req.ref.version) :
    Maintains R I (fun _ => I) (publishSuperseded svc req version) := by
  intro me w hI
  apply wp_bind
  refine wp_read rules.onStores ?_ fun e w' hw' w'' hw'' =>
    rules.stable.inv hw'' (rules.stable.inv hw' hI)
  intro w₁ w₂ hw₁ hw₂
  have hforeign : ∀ record ∈ w₁.metadata.listChunkRecords ⟨req.ref.doc, version⟩,
      record.ref ≠ req.ref := by
    intro record hrecord hsame
    have href := of_decide_eq_true (Table.mem_select.mp hrecord).2
    rw [href] at hsame
    exact hother (congrArg VersionRef.version hsame)
  exact rules.hideRows hforeign me w₂ (rules.stable.inv hw₂ (rules.stable.inv hw₁ hI))

theorem ContentRules.stepPublish : Maintains R I (fun _ => I) (stepPublish svc req) := by
  refine .bind rules.stable rules.assertOwnsBuild fun _ => ?_
  refine rules.withChunks fun me hchunks => ?_
  refine .bind rules.stable (rules.perform _ ⟨rfl, childPoints_own hchunks .active⟩) fun _ => ?_
  refine .bind rules.stable (.forEach rules.stable fun parent _ => rules.publishParent parent)
    fun _ => ?_
  refine .bind rules.stable (rules.read _) fun previousVersion => ?_
  cases previousVersion with
  | none => exact .pure rules.stable ()
  | some version =>
    dsimp only
    split
    · exact .pure rules.stable ()
    · rename_i hversion
      push Not at hversion
      exact rules.publishSuperseded hversion.2

/-- The steps that neither switch the version nor end the job. -/
theorem ContentRules.step {name : Step} (hcommit : name ≠ .commit) (hfinalize : name ≠ .finalize) :
    Maintains R I (fun _ => I) (step svc req name) := by
  cases name with
  | acquire => exact .pure rules.stable ()
  | parse => exact .assign rules.stable (rules.assign _ (.parsed _))
  | chunk => exact rules.stepChunk
  | writeParents => exact rules.stepWriteParents
  | writeQdrant => exact rules.stepWriteQdrant
  | verify => exact rules.stepVerify
  | commit => exact absurd rfl hcommit
  | publish => exact rules.stepPublish
  | finalize => exact absurd rfl hfinalize

end Steps

end Rules

section Runs

variable (svc : Services) (req : IngestionRequest)

structure AcquiresFor (svc : Services) (req : IngestionRequest) (args : AcquireArgs) : Prop where
  jobId : args.jobId = req.jobId
  ref : args.ref = req.ref
  rawHash : args.rawHash = rawHash svc req
  document : ∃ document, args.document = some document ∧
    document.toDocumentColumns = sourceColumns svc req

/-- An assertion that a whole run keeps: also its acquire, its commit and its final
status do. -/
structure BuildRules (R : Regime World StoreOp PyError) (I : JobState → World → Prop) : Prop
    extends ContentRules svc req true R I where
  acquire : ∀ args, AcquiresFor svc req args →
    Maintains R I (fun _ => I) (metadata (.acquireJobTransaction args) : JobProgram (JobStatus × Nat))
  commit : ∀ expectedRev, Maintains R I (fun _ => I)
    (metadata (.commitActiveVersion req.ref.doc req.ref.version expectedRev) :
      JobProgram (Nat × Option String))
  terminal : ∀ status parentCount childCount errorCode, Maintains R I (fun _ => I)
    (metadata (.markJobTerminal req.jobId status parentCount childCount errorCode) : JobProgram Unit)
  token : ∀ generation me w, I me w → I { me with leaseGeneration := generation } w
  flag : ∀ me w, I me w → I { me with commitPerformed := true } w

variable {svc req} {R : Regime World StoreOp PyError} {I : JobState → World → Prop}
  (rules : BuildRules svc req R I)

include rules

theorem BuildRules.markStep (name : Step) : Maintains R I (fun _ => I)
    (metadata (.markStep req.jobId name "done") : JobProgram Unit) := by
  have hmark : OwnAccess svc req true (.metadata (.markStep req.jobId name "done")) :=
    ⟨rfl, fun _ => rfl⟩
  exact rules.perform _ hmark

theorem BuildRules.stepAcquire (options : RunOptions) :
    Maintains R I (fun _ => I) (stepAcquire svc req options) := by
  refine .bind rules.stable (rules.read _) fun baseRevision => ?_
  cases hdocument : buildSourceDocument svc req with
  | error e => exact rules.raise e
  | ok document =>
    have hcolumns := buildSourceDocument_columns svc req hdocument
    refine .bind rules.stable (rules.acquire _ ⟨rfl, rfl, rfl, document, rfl, hcolumns⟩) fun claimed => ?_
    refine .bind rules.stable (rules.markStep .acquire) fun _ => ?_
    exact .assign rules.stable (rules.token claimed.2)

theorem BuildRules.runStep (name : Step) : Maintains R I (fun _ => I) (runStep svc req name) := by
  refine .bind rules.stable (rules.read _) fun done => .ite (.pure rules.stable ()) ?_
  refine .bind rules.stable ?_ fun _ => rules.markStep name
  by_cases hcommit : name = .commit
  · subst hcommit
    refine .bind rules.stable rules.assertOwnsBuild fun _ => ?_
    refine .bind rules.stable (rules.read _) fun expectedRev => ?_
    exact .bind rules.stable (rules.commit expectedRev) fun _ => .assign rules.stable rules.flag
  · by_cases hfinalize : name = .finalize
    · subst hfinalize
      refine .bind rules.stable (.self rules.stable) fun me => ?_
      refine .bind rules.stable (rules.perform _ trivial) fun _ => ?_
      exact rules.terminal _ _ _ _
    · exact rules.step hcommit hfinalize

theorem BuildRules.compensate : Maintains R I (fun _ => I) (compensate svc req) := by
  have hI : ∀ (_ : PyError) (me : JobState) (w : World), I me w → I me w := fun _ _ _ h => h
  refine .bind rules.stable (.tryCatch rules.stable ?_ hI fun e => ?_) fun owns => ?_
  · exact .bind rules.stable rules.assertOwnsBuild fun _ => .pure rules.stable true
  · cases e with
    | buildConflict reason => exact .pure rules.stable false
    | _ => exact fun me w h w' hw' => rules.stable.inv hw' h
  · refine .ite ?_ (.pure rules.stable ())
    refine rules.withChunks fun me _ => ?_
    refine .bind rules.stable (rules.perform _ trivial) fun _ => ?_
    refine .bind rules.stable (.forEach rules.stable fun parent _ => ?_) fun _ => ?_
    · exact rules.perform _ trivial
    have hdelete : OwnAccess svc req true (.metadata (.deleteChunkRecords req.ref)) := trivial
    have hclear : OwnAccess svc req true (.metadata (.clearSteps req.jobId)) := rfl
    have hfailed : OwnAccess svc req true (.metadata (.markDocumentFailed req.ref)) := trivial
    refine .bind rules.stable (rules.perform _ hdelete) fun _ => ?_
    exact .bind rules.stable (rules.perform _ hclear) fun _ => rules.perform _ hfailed

theorem BuildRules.onException (e : PyError) : Maintains R I (fun _ => I) (onException svc req e) := by
  have hfail : ∀ e, Maintains R I (fun _ => I) (fail svc req e) := by
    intro e
    refine .bind rules.stable ?_ fun _ => ?_
    · refine .bind rules.stable (.self rules.stable) fun me => ?_
      exact .ite (.pure rules.stable ()) rules.compensate
    · exact .bind rules.stable (rules.terminal _ _ _ _) fun _ => .pure rules.stable _
  cases e with
  | buildConflict reason => exact .pure rules.stable _
  | _ => exact hfail _

theorem BuildRules.guardedBuild (options : RunOptions) :
    Maintains R I (fun _ => I) (guardedBuild svc req options) := by
  refine .tryCatch rules.stable ?_ (fun _ _ _ h => h) rules.onException
  refine .bind rules.stable (rules.stepAcquire options) fun _ => ?_
  refine .bind rules.stable (.forEach rules.stable fun name _ => rules.runStep name) fun _ => ?_
  refine .ite (.pure rules.stable _) ?_
  exact .bind rules.stable (.self rules.stable) fun me => .pure rules.stable _

theorem BuildRules.shortCircuitAlreadyIndexed :
    Maintains R I (fun _ => I) (shortCircuitAlreadyIndexed svc req) := by
  refine .bind rules.stable (rules.read _) fun identity => .ite (rules.raise _) ?_
  refine .bind rules.stable (rules.read _) fun status => .ite ?_ (.pure rules.stable _)
  exact .bind rules.stable (rules.terminal _ _ _ _) fun _ => .pure rules.stable _

/-- A whole run keeps the assertion. -/
theorem BuildRules.runBody (options : RunOptions) :
    Maintains R I (fun _ => I) (runBody svc req options) := by
  have hbuild := rules.guardedBuild options
  have hshort := rules.shortCircuitAlreadyIndexed
  refine .bind rules.stable ?_ fun _ => ?_
  · refine .bind rules.stable (rules.read _) fun identity => ?_
    exact .ite (rules.raise _) (.pure rules.stable ())
  refine .bind rules.stable (rules.tryRead _) fun existing => ?_
  cases existing with
  | none => exact hbuild
  | some document =>
    refine .ite (rules.raise _) (.ite ?_ (.ite hshort hbuild))
    refine .bind rules.stable (rules.read _) fun owner => ?_
    cases owner with
    | none => exact hbuild
    | some owner =>
      refine .ite hbuild (.bind rules.stable (rules.read _) fun status => ?_)
      exact .ite hshort hbuild

end Runs

end AgenticRag.IngestionJob
