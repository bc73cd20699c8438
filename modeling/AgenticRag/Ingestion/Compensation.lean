import AgenticRag.Ingestion.DeletedVersions
import AgenticRag.Storage.Artifacts
import AgenticRag.Storage.BuildLease

/-!
# Compensation of failed runs

Runs of `IngestionJob` one after the other, with a crash or a fault at any access.
A failed run removes what it built. Whether it may do so is decided by the flag
`_commit_performed`, which lives in the object: a run that resumes a committed
build, takes it over or delivers it again starts with the flag down. The removal
spares every active version exactly as long as a run fails, between its acquire
and its own commit, only while its version is not active.
-/

namespace AgenticRag

open MetadataStore StoreProgram Method

section OrdinaryAccesses

variable {w w' : World} {β : Type}

theorem MetadataOp.Ordinary.keeps_chunks {op : MetadataOp β} (hop : op.Ordinary)
    {now : Timestamp} {s t : MetadataStore} {r : Except PyError β} (h : op.eval now s = (r, t)) :
    ∀ row ∈ s.chunks, ∃ kept ∈ t.chunks, kept.chunkId = row.chunkId := by
  intro row hrow
  cases op with
  | upsertChunkRecord chunk =>
    rcases upsertChunkRecord_cases h with ⟨-, -, -, hmem⟩ | ⟨-, rfl⟩
    · by_cases hid : row.chunkId = chunk.chunkId
      · exact ⟨chunk, (hmem chunk).mpr (Or.inl rfl), hid.symm⟩
      · exact ⟨row, (hmem row).mpr (Or.inr ⟨hrow, hid⟩), rfl⟩
    · exact ⟨row, hrow, rfl⟩
  | deleteChunkRecords ref => exact hop.elim
  | _ =>
    have hchunks := (MetadataOp.frame h).chunks (by simp [MetadataOp.writes])
    exact ⟨row, by rw [hchunks]; exact hrow, rfl⟩

theorem MetadataOp.Ordinary.positive {op : MetadataOp β} (hop : op.Ordinary) {now : Timestamp}
    {s t : MetadataStore} {r : Except PyError β} (h : op.eval now s = (r, t))
    (hs : PositiveGenerations s) : PositiveGenerations t := by
  cases op with
  | acquireJobTransaction args => exact hs.acquire h
  | markJobTerminal jobId status parentCount childCount errorCode =>
    have ht := hs.markJobTerminal jobId status parentCount childCount errorCode
    have heq : (MetadataStore.markJobTerminal jobId status parentCount childCount errorCode s).2 =
        t := congrArg Prod.snd h
    rwa [heq] at ht
  | deleteDocument doc => exact hop.elim
  | _ =>
    have hbuilds := (MetadataOp.frame h).builds (by simp [MetadataOp.writes])
    rw [PositiveGenerations, hbuilds]
    exact hs

theorem StoreOp.Ordinary.positive {op : StoreOp β} (hop : op.Ordinary) {r : Except PyError β}
    (h : op.Outcome w r w') (hw : PositiveGenerations w.metadata) :
    PositiveGenerations w'.metadata := by
  rcases h.state with rfl | rfl
  · exact hw
  · cases op with
    | metadata op => exact MetadataOp.Ordinary.positive hop rfl hw
    | _ => exact hw

/-- An ordinary access removes no artifact of any version. -/
theorem StoreOp.Ordinary.keepsArtifacts {op : StoreOp β} (hop : op.Ordinary)
    {r : Except PyError β} (h : op.Outcome w r w') (ref : VersionRef) :
    KeepsArtifacts ref w w' := by
  have hrefl := KeepsArtifacts.refl ref w
  rcases h.state with rfl | rfl
  · exact hrefl
  · cases op with
    | read view => exact hrefl
    | raise e => exact hrefl
    | setPointer corpusId name done => exact ⟨hrefl.points, hrefl.parents, hrefl.chunks⟩
    | recordFinding finding done => exact ⟨hrefl.points, hrefl.parents, hrefl.chunks⟩
    | metadata op =>
      refine ⟨hrefl.points, hrefl.parents, fun row hrow _ => ?_⟩
      exact MetadataOp.Ordinary.keeps_chunks hop rfl row hrow
    | vectors op done =>
      refine ⟨fun name points hpoints => ?_, hrefl.parents, hrefl.chunks⟩
      have hdelete : ∀ name ids, op ≠ .delete name ids := by
        rintro name ids rfl
        exact hop
      obtain ⟨points', hpoints', hkept⟩ := VectorOp.keeps_ids hdelete rfl name points hpoints
      exact ⟨points', hpoints', fun point hpoint _ => hkept point hpoint⟩
    | parents op done =>
      refine ⟨hrefl.points, fun parent hparent _ => ?_, hrefl.chunks⟩
      refine ParentOp.keeps_ids ?_ ?_ w.parents parent hparent
      · rintro parentId rfl
        exact hop
      · rintro ref rfl
        exact hop

end OrdinaryAccesses

section Removal

/-- The version has no point, parent or chunk row. -/
structure World.Bare (w : World) (ref : VersionRef) : Prop where
  points : ∀ name points, w.vectors name = some points →
    ∀ point ∈ points, point.payload.ref ≠ ref
  parents : ∀ parent ∈ w.parents, parent.ref ≠ ref
  chunks : ∀ row ∈ w.metadata.chunks, row.ref ≠ ref

namespace IngestionJob

variable (svc : Services) (req : IngestionRequest)

/-- What the chunker makes of the request, nothing if it raises. -/
def chunksOf : List ParentDraft × List ChildChunk :=
  match svc.chunkMarkdown req.content req.ref with
  | .ok chunks => chunks
  | .error _ => ([], [])

def pointIds : List String := (chunksOf svc req).2.map fun child => svc.childPointId child.childId

def parentIds : List String := (chunksOf svc req).1.map (·.parentId)

/-- The version of the request is not active (or has no artifacts), and no other
active version owns a point or a parent with the id of one of its chunks. -/
structure Compensable (w : World) : Prop where
  own : w.Active req.ref → w.Bare req.ref
  points : ∀ points, w.vectors req.ref.doc.corpusId = some points → ∀ point ∈ points,
    point.id ∈ pointIds svc req → point.payload.ref = req.ref ∨ ¬w.Active point.payload.ref
  parents : ∀ parent ∈ w.parents, parent.parentId ∈ parentIds svc req →
    parent.ref = req.ref ∨ ¬w.Active parent.ref

/-- The job's chunk lists hold nothing but the chunker's output. -/
def Chunked (me : JobState) : Prop :=
  (∀ parent ∈ me.parentsList, parent ∈ (chunksOf svc req).1) ∧
    ∀ child ∈ me.childrenList, child ∈ (chunksOf svc req).2

/-- The methods a compensation calls on the metadata store. -/
def MetadataRemoval {β : Type} : MetadataOp β → Prop
  | .deleteChunkRecords ref => ref = req.ref
  | .clearSteps _ => True
  | .markDocumentFailed _ => True
  | _ => False

/-- The accesses of a compensation. -/
def Removal {β : Type} : StoreOp β → Prop
  | .read _ => True
  | .raise _ => True
  | .vectors (.delete name ids) _ => name = req.ref.doc.corpusId ∧ ∀ id ∈ ids, id ∈ pointIds svc req
  | .parents (.delete parentId) _ => parentId ∈ parentIds svc req
  | .metadata op => MetadataRemoval req op
  | _ => False

variable {svc req} {w w' : World}

/-- Nothing is added and no version becomes active. -/
structure Shrinks (w w' : World) : Prop where
  active : ∀ ref, w'.Active ref → w.Active ref
  points : ∀ name points', w'.vectors name = some points' →
    ∃ points, w.vectors name = some points ∧ ∀ point ∈ points', point ∈ points
  parents : ∀ parent ∈ w'.parents, parent ∈ w.parents
  chunks : ∀ row ∈ w'.metadata.chunks, row ∈ w.metadata.chunks

theorem Shrinks.refl (w : World) : Shrinks w w :=
  ⟨fun _ h => h, fun _ points h => ⟨points, h, fun _ hpoint => hpoint⟩, fun _ h => h, fun _ h => h⟩

theorem Compensable.shrinks (hw : Compensable svc req w) (h : Shrinks w w') :
    Compensable svc req w' := by
  constructor
  · intro hactive
    have hbare := hw.own (h.active _ hactive)
    refine ⟨?_, fun parent hparent => hbare.parents parent (h.parents parent hparent),
      fun row hrow => hbare.chunks row (h.chunks row hrow)⟩
    intro name points' hpoints' point hpoint
    obtain ⟨points, hpoints, hsub⟩ := h.points name points' hpoints'
    exact hbare.points name points hpoints point (hsub point hpoint)
  · intro points' hpoints' point hpoint hid
    obtain ⟨points, hpoints, hsub⟩ := h.points _ points' hpoints'
    exact (hw.points points hpoints point (hsub point hpoint) hid).imp id
      fun hinactive hactive => hinactive (h.active _ hactive)
  · intro parent hparent hid
    exact (hw.parents parent (h.parents parent hparent) hid).imp id
      fun hinactive hactive => hinactive (h.active _ hactive)

/-- A point of an active version is not among those the compensation removes. -/
theorem Compensable.spares_point (hw : Compensable svc req w) {points : List Point}
    (hpoints : w.vectors req.ref.doc.corpusId = some points) {point : Point}
    (hpoint : point ∈ points) (hactive : w.Active point.payload.ref) :
    point.id ∉ pointIds svc req := by
  intro hid
  rcases hw.points points hpoints point hpoint hid with hown | hinactive
  · rw [hown] at hactive
    exact (hw.own hactive).points _ points hpoints point hpoint hown
  · exact hinactive hactive

theorem Compensable.spares_parent (hw : Compensable svc req w) {parent : ParentChunk}
    (hparent : parent ∈ w.parents) (hactive : w.Active parent.ref) :
    parent.parentId ∉ parentIds svc req := by
  intro hid
  rcases hw.parents parent hparent hid with hown | hinactive
  · rw [hown] at hactive
    exact (hw.own hactive).parents parent hparent hown
  · exact hinactive hactive

theorem Compensable.spares_chunk (hw : Compensable svc req w) {row : ChunkRecord}
    (hrow : row ∈ w.metadata.chunks) (hactive : w.Active row.ref) : row.ref ≠ req.ref := by
  intro hown
  rw [hown] at hactive
  exact (hw.own hactive).chunks row hrow hown

/-- `delete` of points the compensation may remove. -/
theorem Removal.vectors {ids : List String} (hids : ∀ id ∈ ids, id ∈ pointIds svc req)
    (hw : Compensable svc req w) :
    Shrinks w { w with vectors := (VectorStore.delete req.ref.doc.corpusId ids w.vectors).2 } ∧
      ∀ ref, w.Active ref → KeepsArtifacts ref w
        { w with vectors := (VectorStore.delete req.ref.doc.corpusId ids w.vectors).2 } := by
  have hkeep := fun ref => KeepsArtifacts.refl ref w
  by_cases hempty : ids.isEmpty = true
  · simp only [VectorStore.delete, hempty, if_true]
    exact ⟨Shrinks.refl w, fun ref _ => hkeep ref⟩
  · simp only [VectorStore.delete, hempty, Bool.false_eq_true, if_false,
      VectorStore.modifyCollection]
    cases hfound : w.vectors req.ref.doc.corpusId with
    | none => exact ⟨Shrinks.refl w, fun ref _ => hkeep ref⟩
    | some found =>
      constructor
      · refine ⟨fun _ h => h, fun name points' hpoints' => ?_, fun _ h => h, fun _ h => h⟩
        by_cases hname : name = req.ref.doc.corpusId
        · subst hname
          simp only [Function.update_self, Option.some.injEq] at hpoints'
          subst hpoints'
          exact ⟨found, hfound, fun point hpoint => (Table.mem_delete.mp hpoint).1⟩
        · simp only [Function.update_of_ne hname] at hpoints'
          exact ⟨points', hpoints', fun _ h => h⟩
      · intro ref hactive
        refine ⟨fun name points hpoints => ?_, (hkeep ref).parents, (hkeep ref).chunks⟩
        by_cases hname : name = req.ref.doc.corpusId
        · subst hname
          obtain rfl := Option.some.inj (hfound.symm.trans hpoints)
          refine ⟨_, Function.update_self .., fun point hpoint href => ?_⟩
          have hspared : point.id ∉ ids := fun hid =>
            hw.spares_point hfound hpoint (href ▸ hactive) (hids _ hid)
          exact ⟨point, Table.mem_delete.mpr ⟨hpoint, by simp [hspared]⟩, rfl⟩
        · exact ⟨points, by simp [hname, hpoints], fun point hpoint _ => ⟨point, hpoint, rfl⟩⟩

/-- Marking a version failed deactivates at most. -/
theorem Shrinks.markDocumentFailed {ref : VersionRef} {r : Except PyError Unit}
    {s : MetadataStore}
    (h : MetadataOp.eval w.clock (.markDocumentFailed ref) w.metadata = (r, s)) :
    Shrinks w { w with metadata := s } := by
  have hchunks := (MetadataOp.frame h).chunks (by simp [MetadataOp.writes])
  refine ⟨?_, fun _ points hpoints => ⟨points, hpoints, fun _ h => h⟩, fun _ h => h,
    fun row hrow => hchunks ▸ hrow⟩
  rintro other ⟨row, hrow, href, hactive⟩
  rcases markDocumentFailed_cases h with ⟨-, rfl⟩ | ⟨-, rfl⟩
  · rcases Table.mem_update.mp hrow with ⟨old, -, -, rfl⟩ | ⟨hold, -⟩
    · simp at hactive
    · exact ⟨row, hold, href, hactive⟩
  · exact ⟨row, hrow, href, hactive⟩

/-- A method of the metadata store that a compensation calls. -/
theorem MetadataRemoval.step {β : Type} {op : MetadataOp β} (hop : MetadataRemoval req op)
    (hw : Compensable svc req w) :
    Shrinks w { w with metadata := (op.eval w.clock w.metadata).2 } ∧
      ∀ ref, w.Active ref →
        KeepsArtifacts ref w { w with metadata := (op.eval w.clock w.metadata).2 } := by
  have hkeep := fun ref => KeepsArtifacts.refl ref w
  cases op with
  | deleteChunkRecords ref =>
    obtain rfl : ref = req.ref := hop
    refine ⟨⟨fun _ h => h, fun _ points h => ⟨points, h, fun _ h => h⟩, fun _ h => h,
      fun row hrow => (Table.mem_delete.mp hrow).1⟩, fun ref hactive => ?_⟩
    refine ⟨(hkeep ref).points, (hkeep ref).parents, fun row hrow href => ?_⟩
    have hspared : row.ref ≠ req.ref := hw.spares_chunk hrow (href ▸ hactive)
    exact ⟨row, Table.mem_delete.mpr ⟨hrow, by simp [hspared]⟩, rfl⟩
  | clearSteps jobId =>
    exact ⟨⟨fun _ h => h, fun _ points h => ⟨points, h, fun _ h => h⟩, fun _ h => h, fun _ h => h⟩,
      fun ref _ => ⟨(hkeep ref).points, (hkeep ref).parents, (hkeep ref).chunks⟩⟩
  | markDocumentFailed ref =>
    obtain ⟨r, s, hrun⟩ : ∃ r s,
        MetadataOp.eval w.clock (.markDocumentFailed ref) w.metadata = (r, s) := ⟨_, _, rfl⟩
    rw [hrun]
    refine ⟨.markDocumentFailed hrun, fun other _ => ?_⟩
    refine ⟨(hkeep other).points, (hkeep other).parents, fun row hrow _ => ?_⟩
    have hordinary : (MetadataOp.markDocumentFailed ref).Ordinary := trivial
    exact hordinary.keeps_chunks hrun row hrow
  | _ => exact hop.elim

/-- An access of a compensation spares every active version, and it leaves a state
from which the compensation may go on. -/
theorem Removal.step {β : Type} {op : StoreOp β} (hop : Removal svc req op)
    {r : Except PyError β} (h : op.Outcome w r w') (hw : Compensable svc req w) :
    Shrinks w w' ∧ ∀ ref, w.Active ref → KeepsArtifacts ref w w' := by
  have hkeep := fun ref => KeepsArtifacts.refl ref w
  rcases h.state with rfl | rfl
  · exact ⟨Shrinks.refl _, fun ref _ => hkeep ref⟩
  · cases op with
    | read view => exact ⟨Shrinks.refl _, fun ref _ => hkeep ref⟩
    | raise e => exact ⟨Shrinks.refl _, fun ref _ => hkeep ref⟩
    | setPointer corpusId name done => exact hop.elim
    | recordFinding finding done => exact hop.elim
    | metadata op => exact MetadataRemoval.step hop hw
    | vectors op done =>
      cases op with
      | delete name ids =>
        obtain ⟨rfl, hids⟩ := hop
        exact Removal.vectors hids hw
      | _ => exact hop.elim
    | parents op done =>
      cases op with
      | delete parentId =>
        refine ⟨⟨fun _ h => h, fun _ points h => ⟨points, h, fun _ h => h⟩,
          fun parent hparent => (Table.mem_delete.mp hparent).1, fun _ h => h⟩, ?_⟩
        intro ref hactive
        refine ⟨(hkeep ref).points, fun parent hparent href => ?_, (hkeep ref).chunks⟩
        have hspared : parent.parentId ≠ parentId := by
          rintro rfl
          exact hw.spares_parent hparent (href ▸ hactive) hop
        exact ⟨parent, Table.mem_delete.mpr ⟨hparent, by simp [ParentStore.hasId, hspared]⟩, rfl⟩
      | _ => exact hop.elim

theorem Removal.positive {β : Type} {op : StoreOp β} (hop : Removal svc req op)
    {r : Except PyError β} (h : op.Outcome w r w') (hw : PositiveGenerations w.metadata) :
    PositiveGenerations w'.metadata := by
  rcases h.state with rfl | rfl
  · exact hw
  · cases op with
    | metadata op =>
      obtain ⟨r, s, hrun⟩ : ∃ r s, op.eval w.clock w.metadata = (r, s) := ⟨_, _, rfl⟩
      have hbuilds : s.builds = w.metadata.builds := by
        apply (MetadataOp.frame hrun).builds
        cases op with
        | deleteChunkRecords ref => simp [MetadataOp.writes]
        | clearSteps jobId => simp [MetadataOp.writes]
        | markDocumentFailed ref => simp [MetadataOp.writes]
        | _ => exact hop.elim
      simp only [StoreOp.eval, hrun, PositiveGenerations, hbuilds]
      exact hw
    | _ => exact hw

end IngestionJob

end Removal

section Runs

namespace IngestionJob

variable (svc : Services) (req : IngestionRequest)

/-- An event that marks `acquire` as done. -/
def marksAcquire : {β : Type} → StoreOp β → Except PyError β → Bool
  | _, .metadata (.markStep _ .acquire _), .ok _ => true
  | _, _, _ => false

/-- A `commit_active_version` that returned. -/
def commits : {β : Type} → StoreOp β → Except PyError β → Bool
  | _, .metadata (.commitActiveVersion _ _ _), .ok _ => true
  | _, _, _ => false

/-- The run has passed its acquire. -/
def Acquired (past : List (Event StoreOp PyError)) : Prop :=
  ∃ event ∈ past, marksAcquire event.op event.result = true

/-- The run's own commit has returned. -/
def Committed (past : List (Event StoreOp PyError)) : Prop :=
  ∃ event ∈ past, commits event.op event.result = true

/-- Where the run may raise: before its acquire is complete, with a lost lease, after
its own commit, or where a compensation spares the active versions. -/
def MayRaise (past : List (Event StoreOp PyError)) {β : Type} (r : Except PyError β)
    (w : World) : Prop :=
  ∀ e, r = .error e → (∀ reason, e ≠ .buildConflict reason) → Acquired past → ¬Committed past →
    Compensable svc req w

/-- One run at a time on the stores, with the record of what it did. -/
def runRegime : Regime (World × List (Event StoreOp PyError)) StoreOp PyError where
  out op s r s' := op.Outcome s.1 r s'.1 ∧ s'.2 = s.2 ++ [⟨op, r⟩] ∧ MayRaise svc req s.2 r s'.1
  rely s s' := s'.2 = s.2 ∧ ∃ clock, s'.1 = { s.1 with clock }
  guar s s' := (PositiveGenerations s.1.metadata → PositiveGenerations s'.1.metadata) ∧
    ∀ ref, s.1.Active ref → KeepsArtifacts ref s.1 s'.1
  rely_refl s := ⟨rfl, s.1.clock, rfl⟩
  rely_trans := by
    rintro s t u ⟨hpast, clock, hstore⟩ ⟨hpast', clock', hstore'⟩
    exact ⟨hpast'.trans hpast, clock', by rw [hstore', hstore]⟩

/-- Before the acquire: no lease is held and nothing was committed. -/
structure Starting (me : JobState) (s : World × List (Event StoreOp PyError)) : Prop where
  positive : PositiveGenerations s.1.metadata
  chunked : Chunked svc req me
  noLease : me.leaseGeneration = 0
  uncommitted : ¬Committed s.2

/-- In the step loop: a commit that returned has set the flag. -/
structure Building (me : JobState) (s : World × List (Event StoreOp PyError)) : Prop where
  positive : PositiveGenerations s.1.metadata
  chunked : Chunked svc req me
  acquired : Acquired s.2
  flag : Committed s.2 → me.commitPerformed = true

/-- A compensation may take place. -/
structure Removing (me : JobState) (s : World × List (Event StoreOp PyError)) : Prop where
  positive : PositiveGenerations s.1.metadata
  chunked : Chunked svc req me
  compensable : Compensable svc req s.1

/-- How a run may have failed: nothing is compensated, or it may be. -/
def Failed (e : PyError) (me : JobState) (s : World × List (Event StoreOp PyError)) : Prop :=
  (∃ reason, e = .buildConflict reason) ∨ me.commitPerformed = true ∨
    (PositiveGenerations s.1.metadata ∧ me.leaseGeneration = 0) ∨ Removing svc req me s

variable {svc req} {me : JobState} {s s' : World × List (Event StoreOp PyError)}

theorem Compensable.clock {w : World} (hw : Compensable svc req w) (clock : Timestamp) :
    Compensable svc req { w with clock } :=
  hw.shrinks ⟨fun _ h => h, fun _ points h => ⟨points, h, fun _ h => h⟩, fun _ h => h, fun _ h => h⟩

theorem Starting.rely (h : (runRegime svc req).rely s s') (hs : Starting svc req me s) :
    Starting svc req me s' := by
  obtain ⟨hpast, clock, hstore⟩ := h
  exact ⟨hstore ▸ hs.positive, hs.chunked, hs.noLease, hpast ▸ hs.uncommitted⟩

theorem Building.rely (h : (runRegime svc req).rely s s') (hs : Building svc req me s) :
    Building svc req me s' := by
  obtain ⟨hpast, clock, hstore⟩ := h
  exact ⟨hstore ▸ hs.positive, hs.chunked, hpast ▸ hs.acquired, hpast ▸ hs.flag⟩

theorem Removing.rely (h : (runRegime svc req).rely s s') (hs : Removing svc req me s) :
    Removing svc req me s' := by
  obtain ⟨-, clock, hstore⟩ := h
  exact ⟨hstore ▸ hs.positive, hs.chunked, hstore ▸ hs.compensable.clock clock⟩

theorem Failed.rely {e : PyError} (h : (runRegime svc req).rely s s')
    (hs : Failed svc req e me s) : Failed svc req e me s' := by
  rcases hs with hconflict | hflag | ⟨hpositive, hlease⟩ | hremoving
  · exact Or.inl hconflict
  · exact Or.inr (Or.inl hflag)
  · obtain ⟨-, clock, hstore⟩ := h
    exact Or.inr (Or.inr (Or.inl ⟨hstore ▸ hpositive, hlease⟩))
  · exact Or.inr (Or.inr (Or.inr (hremoving.rely h)))

theorem Chunked.assign {f : JobState → JobState} (hf : ChunkAssignment svc req f)
    (hme : Chunked svc req me) : Chunked svc req (f me) := by
  cases hf with
  | parsed hash => exact hme
  | @chunked parents children hchunks hash =>
    have hof : chunksOf svc req = (parents, children) := by rw [chunksOf, hchunks]
    exact ⟨fun parent hparent => by rw [hof]; exact hparent,
      fun child hchild => by rw [hof]; exact hchild⟩

theorem ChunkAssignment.leaseGeneration {f : JobState → JobState}
    (hf : ChunkAssignment svc req f) : (f me).leaseGeneration = me.leaseGeneration := by
  cases hf <;> rfl

theorem ChunkAssignment.commitPerformed {f : JobState → JobState}
    (hf : ChunkAssignment svc req f) : (f me).commitPerformed = me.commitPerformed := by
  cases hf <;> rfl

/-- An ordinary access is no commit. -/
theorem commits_ordinary {β : Type} {op : StoreOp β} (hop : op.Ordinary) (r : Except PyError β) :
    commits op r = false := by
  cases op with
  | metadata op =>
    cases op with
    | commitActiveVersion doc newVersion expectedRevision => exact hop.elim
    | _ => rfl
  | _ => rfl

theorem committed_append {past : List (Event StoreOp PyError)} {β : Type} {op : StoreOp β}
    {r : Except PyError β} (hop : commits op r = false) (h : Committed (past ++ [⟨op, r⟩])) :
    Committed past := by
  obtain ⟨event, hmem, hcommits⟩ := h
  rcases List.mem_append.mp hmem with hold | hnew
  · exact ⟨event, hold, hcommits⟩
  · obtain rfl := List.mem_singleton.mp hnew
    simp [hop] at hcommits

theorem Acquired.append {past : List (Event StoreOp PyError)} (h : Acquired past)
    (event : Event StoreOp PyError) : Acquired (past ++ [event]) := by
  obtain ⟨acquired, hmem, hmarks⟩ := h
  exact ⟨acquired, List.mem_append_left _ hmem, hmarks⟩

/-- An ordinary access respects the guarantee. -/
theorem ordinary_guar {β : Type} {op : StoreOp β} (hop : op.Ordinary) {r : Except PyError β}
    (h : (runRegime svc req).out op s r s') : (runRegime svc req).guar s s' :=
  ⟨hop.positive h.1, fun ref _ => hop.keepsArtifacts h.1 ref⟩

/-- A step that raises leaves the run where its exception may be handled. -/
theorem Building.raises {β : Type} {op : StoreOp β} {e : PyError}
    (hs : Building svc req me s) (hpositive : PositiveGenerations s'.1.metadata)
    (h : (runRegime svc req).out op s (.error e) s') : Failed svc req e me s' := by
  obtain ⟨-, -, hraise⟩ := h
  by_cases hconflict : ∃ reason, e = .buildConflict reason
  · exact Or.inl hconflict
  · by_cases hcommitted : Committed s.2
    · exact Or.inr (Or.inl (hs.flag hcommitted))
    · have hcompensable := hraise e rfl (fun reason h => hconflict ⟨reason, h⟩) hs.acquired
        hcommitted
      exact Or.inr (Or.inr (Or.inr ⟨hpositive, hs.chunked, hcompensable⟩))

theorem starting_stable : Stable (runRegime svc req) (Starting svc req) (Failed svc req) :=
  ⟨fun h hs => hs.rely h, fun h hs => hs.rely h⟩

theorem building_stable : Stable (runRegime svc req) (Building svc req) (Failed svc req) :=
  ⟨fun h hs => hs.rely h, fun h hs => hs.rely h⟩

theorem starting_rules : StepRules svc req (runRegime svc req) (Starting svc req)
    (Failed svc req) where
  stable := starting_stable
  perform op hop := by
    apply Maintains.perform starting_stable
    intro me s r s' hs hout
    have hpositive := hop.positive hout.1 hs.positive
    refine ⟨ordinary_guar hop hout, ?_⟩
    cases r with
    | ok a =>
      refine ⟨hpositive, hs.chunked, hs.noLease, fun hcommitted => hs.uncommitted ?_⟩
      rw [hout.2.1] at hcommitted
      exact committed_append (commits_ordinary hop _) hcommitted
    | error e => exact Or.inr (Or.inr (Or.inl ⟨hpositive, hs.noLease⟩))
  assign f hf me s hs :=
    ⟨hs.positive, hs.chunked.assign hf, hf.leaseGeneration.trans hs.noLease, hs.uncommitted⟩

theorem building_rules : StepRules svc req (runRegime svc req) (Building svc req)
    (Failed svc req) where
  stable := building_stable
  perform op hop := by
    apply Maintains.perform building_stable
    intro me s r s' hs hout
    have hpositive := hop.positive hout.1 hs.positive
    refine ⟨ordinary_guar hop hout, ?_⟩
    cases r with
    | ok a =>
      obtain ⟨-, hpast, -⟩ := hout
      refine ⟨hpositive, hs.chunked, hpast ▸ hs.acquired.append _, fun hcommitted => ?_⟩
      rw [hpast] at hcommitted
      exact hs.flag (committed_append (commits_ordinary hop _) hcommitted)
    | error e => exact hs.raises hpositive hout
  assign f hf me s hs :=
    ⟨hs.positive, hs.chunked.assign hf, hs.acquired, fun hcommitted =>
      hf.commitPerformed.trans (hs.flag hcommitted)⟩

/-- A raise does not return. -/
theorem raise_run {α : Type} {e : PyError}
    {post : Except PyError α → JobState → World × List (Event StoreOp PyError) → Prop}
    (hpost : ∀ e' s₁ s₂ s₃, (runRegime svc req).rely s s₁ →
      (runRegime svc req).out (StoreOp.raise e : StoreOp α) s₁ (.error e') s₂ →
      (runRegime svc req).rely s₂ s₃ → post (.error e') me s₃) :
    (raise e : JobProgram α).wp (runRegime svc req) post me s := by
  have hop : (StoreOp.raise e : StoreOp α).Ordinary := trivial
  refine wp_perform fun s₁ hs₁ r s₂ hout => ?_
  refine ⟨ordinary_guar hop hout, fun s₃ hs₃ => ?_⟩
  cases r with
  | ok a => exact absurd (Prod.mk.inj hout.1.ok).1 (by simp)
  | error e' => exact hpost e' s₁ s₂ s₃ hs₁ hout hs₃

/-- The marker of `acquire` and the token: the job holds its lease from here on. -/
theorem acquired_building (generation : Nat) (hs : Starting svc req me s) :
    (metadata (.markStep req.jobId .acquire "done") >>= fun _ =>
      assign fun me => { me with leaseGeneration := generation } : JobProgram Unit).wp
        (runRegime svc req) (fun r me s => match r with
          | .ok _ => Building svc req me s
          | .error e => Failed svc req e me s) me s := by
  have hop : (StoreOp.metadata (.markStep req.jobId .acquire "done")).Ordinary := trivial
  apply wp_bind
  refine wp_perform fun s₁ hs₁ r s₂ hout => ?_
  have hs := hs.rely hs₁
  have hpositive := hop.positive hout.1 hs.positive
  refine ⟨ordinary_guar hop hout, fun s₃ hs₃ => ?_⟩
  cases r with
  | error e =>
    have hfailed : Failed svc req e me s₂ := Or.inr (Or.inr (Or.inl ⟨hpositive, hs.noLease⟩))
    exact fun s₄ hs₄ => (hfailed.rely hs₃).rely hs₄
  | ok a =>
    have hbuilding : Building svc req { me with leaseGeneration := generation } s₂ := by
      refine ⟨hpositive, hs.chunked, ?_, fun hcommitted => absurd ?_ hs.uncommitted⟩
      · rw [hout.2.1]
        exact ⟨_, List.mem_append_right _ (List.mem_singleton.mpr rfl), rfl⟩
      · rw [hout.2.1] at hcommitted
        exact committed_append (commits_ordinary hop _) hcommitted
    exact wp_assign fun s₄ hs₄ => (hbuilding.rely hs₃).rely hs₄

/-- The acquire hands over to the step loop. -/
theorem stepAcquire_building (options : RunOptions) (hs : Starting svc req me s) :
    (stepAcquire svc req options).wp (runRegime svc req) (fun r me s => match r with
      | .ok _ => Building svc req me s
      | .error e => Failed svc req e me s) me s := by
  have hraise : ∀ (e : PyError) (me : JobState) (s : World × List (Event StoreOp PyError)),
      Failed svc req e me s → ∀ s', (runRegime svc req).rely s s' → Failed svc req e me s' :=
    fun e me s hfailed s' hrely => hfailed.rely hrely
  refine (starting_rules.read _).wp_bind (fun baseRevision me s hs => ?_) hraise hs
  cases buildSourceDocument svc req with
  | error e =>
    refine raise_run fun e' s₁ s₂ s₃ hs₁ hout hs₃ => ?_
    have hop : (StoreOp.raise e : StoreOp Unit).Ordinary := trivial
    have hs := hs.rely hs₁
    have hfailed : Failed svc req e' me s₂ :=
      Or.inr (Or.inr (Or.inl ⟨hop.positive hout.1 hs.positive, hs.noLease⟩))
    exact hfailed.rely hs₃
  | ok document =>
    have hclaim : ∀ args, Maintains (runRegime svc req) (Starting svc req) (Failed svc req)
        (metadata (.acquireJobTransaction args) : JobProgram (JobStatus × Nat)) :=
      fun args => starting_rules.perform (.metadata (.acquireJobTransaction args)) trivial
    exact (hclaim _).wp_bind (fun claimed me s hs => acquired_building claimed.2 hs) hraise hs

/-- `commit` sets the flag as soon as the version was switched. -/
theorem stepCommit_building : Maintains (runRegime svc req) (Building svc req) (Failed svc req)
    (stepCommit req) := by
  have hraise : ∀ (e : PyError) (me : JobState) (s : World × List (Event StoreOp PyError)),
      Failed svc req e me s → ∀ s', (runRegime svc req).rely s s' → Failed svc req e me s' :=
    fun e me s hfailed s' hrely => hfailed.rely hrely
  intro me s hs
  refine building_rules.assertOwnsBuild.wp_bind (fun _ me s hs => ?_) hraise hs
  refine (building_rules.read _).wp_bind (fun expectedRev me s hs => ?_) hraise hs
  apply wp_bind
  refine wp_perform fun s₁ hs₁ r s₂ hout => ?_
  have hs := hs.rely hs₁
  obtain ⟨hmetadata, -⟩ := hout.1.metadata
  obtain ⟨r', t, hrun⟩ : ∃ r' t, MetadataOp.eval s₁.1.clock
      (.commitActiveVersion req.ref.doc req.ref.version expectedRev) s₁.1.metadata = (r', t) :=
    ⟨_, _, rfl⟩
  have hframe := MetadataOp.frame hrun
  have hbuilds := hframe.builds (by simp [MetadataOp.writes])
  have hchunks := hframe.chunks (by simp [MetadataOp.writes])
  rw [hrun] at hmetadata
  have hpositive : PositiveGenerations s₂.1.metadata := by
    rcases hmetadata with heq | heq
    · exact heq ▸ hs.positive
    · rw [heq, PositiveGenerations, hbuilds]
      exact hs.positive
  have hkeeps : ∀ ref, KeepsArtifacts ref s₁.1 s₂.1 := by
    intro ref
    have hrefl := KeepsArtifacts.refl ref s₁.1
    rcases hmetadata with heq | heq
    · exact heq ▸ hrefl
    · rw [heq]
      exact ⟨hrefl.points, hrefl.parents, fun row hrow _ => ⟨row, by rw [hchunks]; exact hrow, rfl⟩⟩
  refine ⟨⟨fun _ => hpositive, fun ref _ => hkeeps ref⟩, fun s₃ hs₃ => ?_⟩
  cases r with
  | error e => exact fun s₄ hs₄ => ((hs.raises hpositive hout).rely hs₃).rely hs₄
  | ok switched =>
    have hbuilding : Building svc req { me with commitPerformed := true } s₂ :=
      ⟨hpositive, hs.chunked, hout.2.1 ▸ hs.acquired.append _, fun _ => rfl⟩
    exact wp_assign fun s₄ hs₄ => (hbuilding.rely hs₃).rely hs₄

theorem removing_stable :
    Stable (runRegime svc req) (Removing svc req) (fun _ => Removing svc req) :=
  ⟨fun h hs => hs.rely h, fun h hs => hs.rely h⟩

/-- An access of a compensation is permitted, and the compensation may go on. -/
theorem Removing.perform {β : Type} {op : StoreOp β} (hop : Removal svc req op) :
    Maintains (runRegime svc req) (Removing svc req) (fun _ => Removing svc req)
      (Method.perform op : JobProgram β) := by
  apply Maintains.perform removing_stable
  intro me s r s' hs hout
  obtain ⟨hshrinks, hkeeps⟩ := hop.step hout.1 hs.compensable
  have hremoving : Removing svc req me s' :=
    ⟨hop.positive hout.1 hs.positive, hs.chunked, hs.compensable.shrinks hshrinks⟩
  refine ⟨⟨fun _ => hremoving.positive, hkeeps⟩, ?_⟩
  cases r with
  | ok a => exact hremoving
  | error e => exact hremoving

/-- The chunks a compensation removes are those of the request. -/
theorem removing_ensureChunked :
    Maintains (runRegime svc req) (Removing svc req) (fun _ => Removing svc req)
      (ensureChunked svc req) := by
  refine .bind removing_stable (.self removing_stable) fun me =>
    .ite (.pure removing_stable ()) ?_
  cases hchunks : svc.chunkMarkdown req.content req.ref with
  | error e =>
    have hraise : Removal svc req (StoreOp.raise e : StoreOp Unit) := trivial
    exact Removing.perform hraise
  | ok chunks =>
    obtain ⟨parents, children⟩ := chunks
    refine .assign removing_stable fun me s hs => ?_
    exact ⟨hs.positive, hs.chunked.assign (.chunked hchunks _), hs.compensable⟩

/-- The removal of given chunks of the request. -/
theorem removing_chunks (hme : Chunked svc req me) :
    Maintains (runRegime svc req) (Removing svc req) (fun _ => Removing svc req) (do
      vectors (.delete req.ref.doc.corpusId
        (me.childrenList.map fun child => svc.childPointId child.childId))
      forEach me.parentsList fun parent => parents (.delete parent.parentId)
      metadata (.deleteChunkRecords req.ref)
      metadata (.clearSteps req.jobId)
      metadata (.markDocumentFailed req.ref)) := by
  have hperform : ∀ {β : Type} (op : StoreOp β), Removal svc req op →
      Maintains (runRegime svc req) (Removing svc req) (fun _ => Removing svc req)
        (Method.perform op : JobProgram β) := fun op hop => Removing.perform hop
  refine .bind removing_stable (hperform _ ⟨rfl, ?_⟩) fun _ => ?_
  · intro id hid
    obtain ⟨child, hchild, rfl⟩ := List.mem_map.mp hid
    exact List.mem_map.mpr ⟨child, hme.2 child hchild, rfl⟩
  refine .bind removing_stable (.forEach removing_stable fun parent hparent => ?_) fun _ => ?_
  · exact hperform (.parents (.delete parent.parentId) id)
      (List.mem_map.mpr ⟨parent, hme.1 parent hparent, rfl⟩)
  refine .bind removing_stable (hperform (.metadata (.deleteChunkRecords req.ref)) rfl) fun _ => ?_
  refine .bind removing_stable (hperform (.metadata (.clearSteps req.jobId)) trivial) fun _ => ?_
  exact hperform (.metadata (.markDocumentFailed req.ref)) trivial

/-- The removal spares every active version. -/
theorem removeArtifacts_removing :
    Maintains (runRegime svc req) (Removing svc req) (fun _ => Removing svc req)
      (removeArtifacts svc req) := by
  refine .bind removing_stable removing_ensureChunked fun _ => ?_
  intro me s hs
  apply wp_bind
  exact wp_self fun s₁ hs₁ => removing_chunks (hs.rely hs₁).chunked me s₁ (hs.rely hs₁)

/-- A read sees the stores as they are. -/
theorem read_run {α : Type} {view : World → α}
    {post : Except PyError α → JobState → World × List (Event StoreOp PyError) → Prop}
    (hok : ∀ s', s'.1.metadata = s.1.metadata → post (.ok (view s'.1)) me s')
    (herror : ∀ e s', post (.error e) me s')
    (hview : ∀ w clock, view { w with clock } = view w) :
    (read view : JobProgram α).wp (runRegime svc req) post me s := by
  have hop : (StoreOp.read fun w => Except.ok (view w) : StoreOp α).Ordinary := trivial
  refine wp_perform fun s₁ hs₁ r s₂ hout => ?_
  refine ⟨ordinary_guar hop hout, fun s₃ hs₃ => ?_⟩
  obtain ⟨hsame, hresult⟩ := hout.1.read
  obtain ⟨-, clock₁, hs₁⟩ := hs₁
  obtain ⟨-, clock₃, hs₃⟩ := hs₃
  cases r with
  | error e => exact herror e s₃
  | ok a =>
    have ha : view s₃.1 = a := by
      rw [hs₃, hview, hsame]
      exact Except.ok.inj (hresult a rfl)
    rw [← ha]
    exact hok s₃ (by rw [hs₃, hsame, hs₁])

/-- Without a token the lease check fails: a lease that has an owner also has a
positive generation. -/
theorem assertOwnsBuild_noLease (hpositive : PositiveGenerations s.1.metadata)
    (hlease : me.leaseGeneration = 0) :
    (assertOwnsBuild req).wp (runRegime svc req) (fun r _ _ => ∃ e, r = .error e ∧ True) me s := by
  apply wp_bind
  apply read_run _ (fun e _ _ _ => ⟨e, rfl, trivial⟩) (fun _ _ => rfl)
  intro s₁ hs₁
  apply wp_bind
  apply read_run _ (fun e _ _ _ => ⟨e, rfl, trivial⟩) (fun _ _ => rfl)
  intro s₂ hs₂
  apply wp_bind
  refine wp_self fun s₃ _ => ?_
  have hstale : s₁.1.metadata.getBuildOwner req.ref ≠ some req.jobId ∨
      s₂.1.metadata.getLeaseGeneration req.ref ≠ me.leaseGeneration := by
    rw [hs₂, hs₁, hlease]
    by_contra hheld
    push Not at hheld
    have := hpositive.of_owner hheld.1
    omega
  simp only [hstale, if_true]
  exact raise_run fun e _ _ _ _ _ _ => ⟨e, rfl, trivial⟩

theorem stillOwnsBuild_noLease (hpositive : PositiveGenerations s.1.metadata)
    (hlease : me.leaseGeneration = 0) :
    (stillOwnsBuild req).wp (runRegime svc req) (fun r _ _ => r ≠ .ok true) me s := by
  apply wp_tryCatch
  refine wp_mono ?_ (wp_bind_raises (assertOwnsBuild_noLease hpositive hlease))
  rintro r me s ⟨e, rfl, -⟩
  cases e with
  | buildConflict reason => exact wp_pure fun _ _ => by simp
  | _ => exact wp_reraise fun _ _ => by simp

/-- The lease check changes nothing. -/
theorem removing_stillOwnsBuild :
    Maintains (runRegime svc req) (Removing svc req) (fun _ => Removing svc req)
      (stillOwnsBuild req) := by
  have hread : ∀ {α : Type} (view : World → α),
      Maintains (runRegime svc req) (Removing svc req) (fun _ => Removing svc req)
        (read view : JobProgram α) :=
    fun view => Removing.perform (show Removal svc req (StoreOp.read _) from trivial)
  have hcheck : Maintains (runRegime svc req) (Removing svc req) (fun _ => Removing svc req)
      (do assertOwnsBuild req; pure true) := by
    refine .bind removing_stable ?_ fun _ => .pure removing_stable true
    refine .bind removing_stable (hread _) fun owner => ?_
    refine .bind removing_stable (hread _) fun generation => ?_
    refine .bind removing_stable (.self removing_stable) fun me => ?_
    refine .ite ?_ (.pure removing_stable ())
    exact Removing.perform (show Removal svc req (StoreOp.raise _ : StoreOp Unit) from trivial)
  intro me s hs
  apply wp_tryCatch
  refine wp_mono ?_ (hcheck me s hs)
  intro r me s hr
  cases r with
  | ok owns => exact fun s' hs' => hr.rely hs'
  | error e =>
    cases e with
    | buildConflict reason => exact wp_pure fun s' hs' => hr.rely hs'
    | _ => exact wp_reraise fun s' hs' => hr.rely hs'

/-- `_compensate` without a token or where it may take place. -/
theorem compensate_spares (hs : (PositiveGenerations s.1.metadata ∧ me.leaseGeneration = 0) ∨
    Removing svc req me s) :
    (compensate svc req).wp (runRegime svc req) (fun _ _ _ => True) me s := by
  apply wp_bind
  rcases hs with ⟨hpositive, hlease⟩ | hremoving
  · refine wp_mono ?_ (stillOwnsBuild_noLease hpositive hlease)
    intro r me s hr
    cases r with
    | error e => exact fun _ _ => trivial
    | ok owns =>
      cases owns with
      | true => exact absurd rfl hr
      | false => exact wp_pure fun _ _ => trivial
  · refine wp_mono ?_ (removing_stillOwnsBuild me s hremoving)
    intro r me s hr
    cases r with
    | error e => exact fun _ _ => trivial
    | ok owns =>
      cases owns with
      | true => exact wp_mono (fun _ _ _ _ => trivial) (removeArtifacts_removing me s hr)
      | false => exact wp_pure fun _ _ => trivial

/-- A failed run that is not a build conflict. -/
theorem fail_spares (e : PyError) (hs : me.commitPerformed = true ∨
    (PositiveGenerations s.1.metadata ∧ me.leaseGeneration = 0) ∨ Removing svc req me s) :
    (fail svc req e).wp (runRegime svc req) (fun _ _ _ => True) me s := by
  have hcompensate :
      (compensateUncommitted svc req).wp (runRegime svc req) (fun _ _ _ => True) me s := by
    apply wp_bind
    refine wp_self fun s₁ hs₁ => ?_
    dsimp only
    split
    · exact wp_pure fun _ _ => trivial
    · rename_i hflag
      exact wp_rely (compensate_spares (hs.resolve_left hflag)) hs₁
  apply wp_bind
  refine wp_mono ?_ hcompensate
  intro r me s _
  cases r with
  | error e => exact fun _ _ => trivial
  | ok _ =>
    apply wp_of_uses (fun op hop s r s' hout => ordinary_guar hop hout)
    refine Uses.bind (Uses.perform ?_) fun _ => Uses.pure _
    exact trivial

/-- However a run failed, what it does about it spares every active version. -/
theorem onException_spares {e : PyError} (hs : Failed svc req e me s) :
    (onException svc req e).wp (runRegime svc req) (fun _ _ _ => True) me s := by
  cases e with
  | buildConflict reason => exact wp_pure fun _ _ => trivial
  | _ =>
    apply fail_spares
    refine hs.resolve_left ?_
    rintro ⟨reason, hreason⟩
    simp at hreason

theorem guardedBuild_spares (options : RunOptions) (hs : Starting svc req me s) :
    (guardedBuild svc req options).wp (runRegime svc req) (fun _ _ _ => True) me s := by
  have hbuild : (build svc req options).wp (runRegime svc req) (fun r me s => match r with
      | .ok _ => True
      | .error e => Failed svc req e me s) me s := by
    apply wp_bind
    refine wp_mono ?_ (stepAcquire_building options hs)
    intro r me s hr
    cases r with
    | error e => exact fun s' hs' => hr.rely hs'
    | ok _ =>
      have hrules : StepRules svc req (runRegime svc req) (Building svc req) (Failed svc req) :=
        building_rules
      have hloop := hrules.loop stepCommit_building (stepsUpTo options.maxStep) options
      refine wp_mono ?_ (hloop me s hr)
      intro r me s hr
      cases r with
      | ok result => trivial
      | error e => exact hr
  apply wp_tryCatch
  refine wp_mono ?_ hbuild
  intro r me s hr
  cases r with
  | ok result => exact fun _ _ => trivial
  | error e => exact onException_spares hr

/-- Every access of a run spares every active version. -/
theorem runBody_spares (options : RunOptions) (hs : Starting svc req me s) :
    (runBody svc req options).wp (runRegime svc req) (fun _ _ _ => True) me s := by
  have hbuild := fun me s => @guardedBuild_spares svc req me s options
  have hshort : ∀ me s, Starting svc req me s →
      (shortCircuitAlreadyIndexed svc req).wp (runRegime svc req) (fun _ _ _ => True) me s :=
    fun me s hs => wp_mono (fun _ _ _ _ => trivial)
      (starting_rules.shortCircuitAlreadyIndexed me s hs)
  have hignore : ∀ (e : PyError) (me : JobState) (s : World × List (Event StoreOp PyError)),
      Failed svc req e me s → ∀ s', (runRegime svc req).rely s s' → True :=
    fun _ _ _ _ _ _ => trivial
  have hvalidate : Maintains (runRegime svc req) (Starting svc req) (Failed svc req)
      (validateJobIdentity svc req) :=
    .bind starting_stable (starting_rules.read _) fun identity =>
      .ite (starting_rules.raise _) (.pure starting_stable ())
  refine hvalidate.wp_bind (fun _ me s hs => ?_) hignore hs
  refine (starting_rules.tryRead _).wp_bind (fun existing me s hs => ?_) hignore hs
  cases existing with
  | none => exact hbuild me s hs
  | some document =>
    dsimp only
    split
    · exact raise_run fun _ _ _ _ _ _ _ => trivial
    split
    · refine (starting_rules.read _).wp_bind (fun owner me s hs => ?_) hignore hs
      cases owner with
      | none => exact hbuild me s hs
      | some owner =>
        dsimp only
        split
        · exact hbuild me s hs
        · refine (starting_rules.read _).wp_bind (fun status me s hs => ?_) hignore hs
          split
          · exact hshort me s hs
          · exact hbuild me s hs
    · split
      · exact hshort me s hs
      · exact hbuild me s hs

end IngestionJob

/-- One run of `IngestionJob`. -/
structure JobRun where
  req : IngestionRequest
  options : RunOptions

/-- Runs one after the other: the next one starts when no other is in progress. -/
def jobRuns (svc : Services) : System World StoreOp PyError JobRun Unit where
  out := StoreOp.Outcome
  env w w' := ∃ clock, w' = { w with clock }
  start run := IngestionJob.run svc run.req run.options
  mayStart P _ := P.threads = []

/-- A run that raises after its acquire and before its own commit returned does so only
where its compensation spares the active versions. -/
def RaisesCompensably (svc : Services) :
    System.StepCondition World StoreOp PyError JobRun Unit := fun _ label P' =>
  ∀ thread event, label = .perform thread event →
    IngestionJob.MayRaise svc thread.origin.req thread.past event.result P'.store

theorem jobRuns_oneAtATime (svc : Services) :
    System.OneAtATime (jobRuns svc) (RaisesCompensably svc)
      (fun run => IngestionJob.runRegime svc run.req)
      fun w => PositiveGenerations w.metadata where
  mayStart _ _ h := h
  out h hcond := ⟨h, rfl, hcond _ _ rfl⟩
  env := by
    rintro run past w w' ⟨clock, rfl⟩
    exact ⟨rfl, clock, rfl⟩
  envBetween := by
    rintro w w' ⟨clock, rfl⟩ hw
    exact hw
  guar _ _ _ _ _ h hw := h.1 hw
  start run w hw := by
    apply Method.wp_launch
    apply IngestionJob.runBody_spares
    exact ⟨hw, ⟨by simp [IngestionJob.initial], by simp [IngestionJob.initial]⟩, rfl,
      by simp [IngestionJob.Committed]⟩

/-- In every sequence of runs that raise only where a compensation spares the active
versions, no access of any run removes an artifact of a version that is active at that
moment. -/
theorem compensation_spares_active_versions (svc : Services) (w : World)
    (hgenerations : PositiveGenerations w.metadata)
    {P P' : Pool World StoreOp PyError JobRun Unit}
    (hrun : (jobRuns svc).Reaches (RaisesCompensably svc) ⟨w, []⟩ P)
    {thread : Thread StoreOp PyError JobRun Unit} {event : Event StoreOp PyError}
    (hstep : (jobRuns svc).Step P (.perform thread event) P')
    (hcond : RaisesCompensably svc P (.perform thread event) P') (ref : VersionRef)
    (hactive : P.store.Active ref) : KeepsArtifacts ref P.store P'.store :=
  ((jobRuns_oneAtATime svc).step_guar hgenerations hrun hstep hcond).2 ref hactive

/-- The schedulable part of the system. -/
def jobRunsMachine (svc : Services) : System.Machine (jobRuns svc) Choice where
  eval c op w := op.answer w c
  admits P _ := P.threads.isEmpty
  eval_out c op w := op.answer_outcome w c
  admits_mayStart _ _ h := List.isEmpty_iff.mp h

def activeTest (w : World) (ref : VersionRef) : Bool :=
  w.metadata.documents.any fun row => decide (row.ref = ref ∧ row.status = .active)

theorem activeTest_iff {w : World} {ref : VersionRef} : activeTest w ref = true ↔ w.Active ref := by
  simp [activeTest, World.Active]

/-- A test for states in which a compensation of the request spares the active versions. -/
def compensableTest (svc : Services) (req : IngestionRequest) (w : World) : Bool :=
  !activeTest w req.ref &&
    ((w.vectors req.ref.doc.corpusId).getD []).all (fun point =>
      !decide (point.id ∈ IngestionJob.pointIds svc req) || !activeTest w point.payload.ref) &&
    w.parents.all fun parent =>
      !decide (parent.parentId ∈ IngestionJob.parentIds svc req) || !activeTest w parent.ref

theorem compensableTest_sound {svc : Services} {req : IngestionRequest} {w : World}
    (h : compensableTest svc req w = true) : IngestionJob.Compensable svc req w := by
  simp only [compensableTest, Bool.and_eq_true, Bool.not_eq_true', Bool.or_eq_true,
    List.all_eq_true, Bool.eq_false_iff, ne_eq, activeTest_iff] at h
  obtain ⟨⟨hown, hpoints⟩, hparents⟩ := h
  constructor
  · exact fun hactive => absurd hactive hown
  · intro points hfound point hpoint hid
    rw [hfound] at hpoints
    exact Or.inr ((hpoints point hpoint).resolve_left fun hnot => hnot (decide_eq_true hid))
  · intro parent hparent hid
    exact Or.inr ((hparents parent hparent).resolve_left fun hnot => hnot (decide_eq_true hid))

/-- A test for steps that raise nothing, or where a compensation is harmless. -/
def raisesCompensablyTest (svc : Services) (_ : Pool World StoreOp PyError JobRun Unit)
    (label : Label StoreOp PyError JobRun Unit) (P' : Pool World StoreOp PyError JobRun Unit) :
    Bool :=
  match label with
  | .perform thread event =>
    match event.result with
    | .ok _ => true
    | .error _ => compensableTest svc thread.origin.req P'.store
  | _ => true

theorem raisesCompensablyTest_sound {svc : Services} {P P' : Pool World StoreOp PyError JobRun Unit}
    {label : Label StoreOp PyError JobRun Unit}
    (h : raisesCompensablyTest svc P label P' = true) : RaisesCompensably svc P label P' := by
  rintro thread event rfl e he _ _ _
  simp only [raisesCompensablyTest, he] at h
  exact compensableTest_sound h

private def firstRun (options : RunOptions) : JobRun := ⟨Sample.request "job-1" "v1" "text", options⟩

private def updateRun : JobRun := ⟨Sample.request "job-2" "v2" "new text", Sample.attempt "b"⟩

/-- The update to `v2` fails in `verify` and is about to remove its points. -/
private def failedUpdate : List (System.Move Choice JobRun) :=
  .spawn (firstRun (Sample.attempt "a")) :: advance 0 60 ++
    .spawn updateRun :: advance 0 20 ++ .step 0 .faultBefore :: advance 0 2

private def beforeRemoval (moves : List (System.Move Choice JobRun)) :
    Pool World StoreOp PyError JobRun Unit :=
  (jobRunsMachine Sample.services).play ⟨Sample.world, []⟩ moves

private def afterRemoval (moves : List (System.Move Choice JobRun)) :
    Pool World StoreOp PyError JobRun Unit :=
  (jobRunsMachine Sample.services).play (beforeRemoval moves) (advance 0 1)

/-- The compensation of the update spares `v1`. -/
theorem compensation_spares_active_versions_update :
    (beforeRemoval failedUpdate).store.Active ⟨Sample.doc, "v1"⟩ ∧
      (afterRemoval failedUpdate).store.vectors "policies" ≠
        (beforeRemoval failedUpdate).store.vectors "policies" ∧
      KeepsArtifacts ⟨Sample.doc, "v1"⟩ (beforeRemoval failedUpdate).store
        (afterRemoval failedUpdate).store := by
  have hactive : (beforeRemoval failedUpdate).store.Active ⟨Sample.doc, "v1"⟩ :=
    activeTest_iff.mp (by decide +kernel)
  refine ⟨hactive, by decide +kernel, ?_⟩
  have hrun : (jobRuns Sample.services).Reaches (RaisesCompensably Sample.services)
      ⟨Sample.world, []⟩ (beforeRemoval failedUpdate) :=
    (jobRunsMachine Sample.services).passes_reaches (fun _ _ _ => raisesCompensablyTest_sound) _ _
      (by decide +kernel)
  obtain ⟨thread, event, hmove, htest⟩ : ∃ thread event,
      (jobRunsMachine Sample.services).move (beforeRemoval failedUpdate) (.step 0 .normal) =
          some (.perform thread event, afterRemoval failedUpdate) ∧
        raisesCompensablyTest Sample.services (beforeRemoval failedUpdate) (.perform thread event)
          (afterRemoval failedUpdate) = true :=
    ⟨_, _, rfl, by decide +kernel⟩
  exact compensation_spares_active_versions Sample.services Sample.world
    (by simp [PositiveGenerations, Sample.world, Sample.store]) hrun
    ((jobRunsMachine Sample.services).move_step hmove) (raisesCompensablyTest_sound htest) _ hactive

/-- The first run crashes after `commit` was marked; its recovery cannot read the lease
owner in `publish` and is about to remove the points of the active version. -/
private def failedRecovery : List (System.Move Choice JobRun) :=
  .spawn (firstRun (Sample.attempt "a")) :: advance 0 29 ++
    .crash 0 :: .spawn (firstRun (Sample.recovery "b")) :: advance 0 14 ++
      .step 0 .faultBefore :: advance 0 2

/-- A recovery of a committed build that fails in `publish` removes the points of the
active version. -/
theorem compensation_spares_active_versions_counterexample :
    ¬∀ (svc : Services) (w : World) (P P' : Pool World StoreOp PyError JobRun Unit)
      (thread : Thread StoreOp PyError JobRun Unit) (event : Event StoreOp PyError)
      (ref : VersionRef), PositiveGenerations w.metadata →
      (jobRuns svc).Reaches (fun _ _ _ => True) ⟨w, []⟩ P →
      (jobRuns svc).Step P (.perform thread event) P' →
      IngestionJob.Removal svc thread.origin.req event.op → P.store.Active ref →
        KeepsArtifacts ref P.store P'.store := by
  intro hclaim
  obtain ⟨thread, event, hmove, hremoval⟩ : ∃ thread event,
      (jobRunsMachine Sample.services).move (beforeRemoval failedRecovery) (.step 0 .normal) =
          some (.perform thread event, afterRemoval failedRecovery) ∧
        IngestionJob.Removal Sample.services thread.origin.req event.op :=
    ⟨_, _, rfl, rfl, fun _ h => h⟩
  have hactive : (beforeRemoval failedRecovery).store.Active ⟨Sample.doc, "v1"⟩ :=
    activeTest_iff.mp (by decide +kernel)
  have hkeeps := hclaim Sample.services Sample.world _ _ thread event _
    (by simp [PositiveGenerations, Sample.world, Sample.store])
    ((jobRunsMachine Sample.services).play_reaches _ _)
    ((jobRunsMachine Sample.services).move_step hmove) hremoval hactive
  have hbefore : ∃ point, (beforeRemoval failedRecovery).store.vectors "policies" = some [point] ∧
      point.payload.ref = ⟨Sample.doc, "v1"⟩ := ⟨_, rfl, rfl⟩
  have hafter : (afterRemoval failedRecovery).store.vectors "policies" = some [] := rfl
  obtain ⟨point, hpoint, href⟩ := hbefore
  obtain ⟨points', hpoints', hkept⟩ := hkeeps.points "policies" _ hpoint
  obtain rfl := Option.some.inj (hafter.symm.trans hpoints')
  obtain ⟨kept, hmem, -⟩ := hkept point (List.mem_singleton.mpr rfl) href
  simp at hmem

end Runs

end AgenticRag
