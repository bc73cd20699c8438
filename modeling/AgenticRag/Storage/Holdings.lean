import AgenticRag.Storage.World

/-!
# What the stores hold of one tenant

The documents, leases, chunk rows, points and parents of a tenant, and the accesses that
leave them alone. A row is found by its tenant, but points, parents and chunk rows are
replaced by their ids: an access spares a tenant only if no id it writes is one of the
tenant's.
-/

namespace AgenticRag

/-- The rows, points and parents of one tenant. -/
structure Holdings where
  documents : List DocumentRow
  builds : List BuildRow
  chunks : List ChunkRecord
  points : String → List Point
  parents : List ParentChunk

def VersionRef.ofTenant (tenantId : String) (ref : VersionRef) : Bool := decide (ref.doc.tenantId = tenantId)

/-- What the stores hold of a tenant. -/
def World.holdings (tenantId : String) (w : World) : Holdings where
  documents := Table.select (·.ref.ofTenant tenantId) w.metadata.documents
  builds := Table.select (·.ref.ofTenant tenantId) w.metadata.builds
  chunks := Table.select (·.ref.ofTenant tenantId) w.metadata.chunks
  points name := Table.select (·.payload.ref.ofTenant tenantId) ((w.vectors name).getD [])
  parents := Table.select (·.ref.ofTenant tenantId) w.parents

namespace Holdings

variable (H : Holdings)

def ChunkFree (chunkId : String) : Prop := ∀ row ∈ H.chunks, row.chunkId ≠ chunkId

def PointFree (pointId : String) : Prop := ∀ name, ∀ point ∈ H.points name, point.id ≠ pointId

def ParentFree (parentId : String) : Prop := ∀ parent ∈ H.parents, parent.parentId ≠ parentId

/-- The point and the parents that are derived from a chunk row have ids of their own. -/
structure RowApart (pointIdOf : String → String) (row : ChunkRecord) : Prop where
  point : row.chunkType = .child → H.PointFree (pointIdOf row.chunkId)
  parentOf : row.chunkType = .child → row.parentId.getD "" ≠ "" → H.ParentFree (row.parentId.getD "")
  parent : row.chunkType = .parent → H.ParentFree row.chunkId

end Holdings

variable {tenantId : String} {H : Holdings} {pointIdOf : String → String}

section Held

variable (tenantId : String) (H : Holdings) (pointIdOf : String → String)

/-- The metadata store holds the tenant's rows, and the rows of others are apart from them. -/
structure MetadataStore.Holds (s : MetadataStore) : Prop where
  documents : Table.select (·.ref.ofTenant tenantId) s.documents = H.documents
  builds : Table.select (·.ref.ofTenant tenantId) s.builds = H.builds
  chunks : Table.select (·.ref.ofTenant tenantId) s.chunks = H.chunks
  apart : ∀ row ∈ s.chunks, row.ref.doc.tenantId ≠ tenantId → H.RowApart pointIdOf row

/-- The collections hold the tenant's points, and the points of others have ids of their own. -/
structure VectorStore.Holds (vectors : VectorStore) : Prop where
  points : ∀ name, Table.select (·.payload.ref.ofTenant tenantId) ((vectors name).getD []) = H.points name
  apart : ∀ name, ∀ point ∈ (vectors name).getD [], point.payload.ref.doc.tenantId ≠ tenantId →
    H.PointFree point.id

/-- The stores hold what the tenant has, apart from everything else. -/
structure World.Holds (w : World) : Prop where
  metadata : w.metadata.Holds tenantId H pointIdOf
  vectors : w.vectors.Holds tenantId H
  parents : Table.select (·.ref.ofTenant tenantId) w.parents = H.parents

end Held

theorem World.Holds.holdings {w : World} (h : w.Holds tenantId H pointIdOf) : w.holdings tenantId = H := by
  obtain ⟨hmetadata, hvectors, hparents⟩ := h
  have hpoints := funext hvectors.points
  unfold World.holdings
  rw [hmetadata.documents, hmetadata.builds, hmetadata.chunks, hpoints, hparents]

/-- What others have is stored apart from what the tenant has: the points of their chunk rows,
the parents of these and all their points have ids of their own. -/
structure World.OthersApart (pointIdOf : String → String) (tenantId : String) (w : World) : Prop where
  rows : ∀ row ∈ w.metadata.chunks, row.ref.doc.tenantId ≠ tenantId →
    (w.holdings tenantId).RowApart pointIdOf row
  points : ∀ name, ∀ point ∈ (w.vectors name).getD [], point.payload.ref.doc.tenantId ≠ tenantId →
    (w.holdings tenantId).PointFree point.id

theorem World.OthersApart.holds {w : World} (h : w.OthersApart pointIdOf tenantId) :
    w.Holds tenantId (w.holdings tenantId) pointIdOf where
  metadata := ⟨rfl, rfl, rfl, h.rows⟩
  vectors := ⟨fun _ => rfl, h.points⟩
  parents := rfl

section Metadata

open MetadataStore Routine

/-- The method keeps what the store holds of the tenant. -/
abbrev Avoids (tenantId : String) (H : Holdings) (pointIdOf : String → String) {α : Type}
    (m : StoreMethod α) : Prop :=
  Routine.Keeps (fun s s' => s.Holds tenantId H pointIdOf → s'.Holds tenantId H pointIdOf) m

variable {α β : Type}

theorem avoids_bind {m : StoreMethod α} {f : α → StoreMethod β} (hm : Avoids tenantId H pointIdOf m)
    (hf : ∀ a, Avoids tenantId H pointIdOf (f a)) : Avoids tenantId H pointIdOf (m >>= f) :=
  keeps_bind (fun _ _ _ h h' hs => h' (h hs)) hm hf

theorem avoids_transaction {m : StoreMethod α} (hm : Avoids tenantId H pointIdOf m) :
    Avoids tenantId H pointIdOf (transaction m) :=
  keeps_transaction (fun _ hs => hs) hm

/-- A method that does not write to the three tables. -/
theorem avoids_of_frame {m : StoreMethod α} (h : ∀ s, (m s).2.documents = s.documents ∧
    (m s).2.builds = s.builds ∧ (m s).2.chunks = s.chunks) : Avoids tenantId H pointIdOf m := by
  intro s hs
  obtain ⟨hdocuments, hbuilds, hchunks⟩ := h s
  exact ⟨hdocuments ▸ hs.documents, hbuilds ▸ hs.builds, hchunks ▸ hs.chunks, hchunks ▸ hs.apart⟩

theorem avoids_pure (a : α) : Avoids tenantId H pointIdOf (pure a) :=
  avoids_of_frame fun _ => ⟨rfl, rfl, rfl⟩

theorem avoids_raise (e : PyError) : Avoids tenantId H pointIdOf (raise e : StoreMethod α) :=
  avoids_of_frame fun _ => ⟨rfl, rfl, rfl⟩

theorem avoids_get : Avoids tenantId H pointIdOf (get : StoreMethod MetadataStore) :=
  avoids_of_frame fun _ => ⟨rfl, rfl, rfl⟩

theorem avoids_ite {c : Prop} [Decidable c] {m n : StoreMethod α} (hm : Avoids tenantId H pointIdOf m)
    (hn : Avoids tenantId H pointIdOf n) : Avoids tenantId H pointIdOf (if c then m else n) := by
  split
  · exact hm
  · exact hn

theorem ofTenant_false {ref : VersionRef} (h : ref.doc.tenantId ≠ tenantId) : ref.ofTenant tenantId = false :=
  decide_eq_false h

theorem avoids_updateDocuments {p : DocumentRow → Bool} {f : DocumentRow → DocumentRow}
    (hp : ∀ row, p row = true → row.ref.doc.tenantId ≠ tenantId)
    (hf : ∀ row, p row = true → (f row).ref.doc.tenantId ≠ tenantId) :
    Avoids tenantId H pointIdOf (updateDocuments p f) := by
  intro s hs
  unfold updateDocuments
  dsimp only
  split
  · refine ⟨?_, hs.builds, hs.chunks, hs.apart⟩
    rw [← hs.documents]
    apply Table.select_update_disjoint
    intro row _ hrow
    exact ⟨ofTenant_false (hp row hrow), ofTenant_false (hf row hrow)⟩
  · exact hs

theorem avoids_insertDocument {row : DocumentRow} (h : row.ref.doc.tenantId ≠ tenantId) :
    Avoids tenantId H pointIdOf (insertDocument row) := by
  intro s hs
  unfold insertDocument
  split
  · refine ⟨?_, hs.builds, hs.chunks, hs.apart⟩
    rw [← hs.documents]
    exact Table.select_insert_disjoint (ofTenant_false h)
  · exact hs

/-- The leases that are updated are not the tenant's. -/
theorem avoids_updateBuilds {p : BuildRow → Bool} {f : BuildRow → BuildRow}
    (hp : ∀ row, p row = true → row.ref.doc.tenantId = tenantId → row ∉ H.builds)
    (hf : ∀ row, (f row).ref = row.ref) : Avoids tenantId H pointIdOf (updateBuilds p f) := by
  intro s hs
  refine ⟨hs.documents, ?_, hs.chunks, hs.apart⟩
  rw [← hs.builds]
  apply Table.select_update_disjoint
  intro row hrow hupdated
  have hother : row.ref.ofTenant tenantId = false := by
    apply ofTenant_false
    intro htenant
    apply hp row hupdated htenant
    rw [← hs.builds]
    exact Table.mem_select.mpr ⟨hrow, decide_eq_true htenant⟩
  exact ⟨hother, (congrArg (VersionRef.ofTenant tenantId) (hf row)).trans hother⟩

theorem avoids_jobs {m : StoreMethod α} (h : ∀ s, ∃ jobs steps, (m s).2 = { s with jobs, steps }) :
    Avoids tenantId H pointIdOf m := by
  refine avoids_of_frame fun s => ?_
  obtain ⟨jobs, steps, heq⟩ := h s
  rw [heq]
  exact ⟨rfl, rfl, rfl⟩

theorem avoids_markStep (jobId : String) (step : Step) (status : String) :
    Avoids tenantId H pointIdOf (markStep jobId step status) := by
  refine avoids_jobs fun s => ?_
  unfold markStep
  dsimp only
  split
  · exact ⟨s.jobs, _, rfl⟩
  · split
    · exact ⟨s.jobs, _, rfl⟩
    · exact ⟨s.jobs, s.steps, rfl⟩

theorem avoids_claimLease {args : AcquireArgs} (h : args.ref.doc.tenantId ≠ tenantId) :
    Avoids tenantId H pointIdOf (claimLease args) := by
  have hrenew : ∀ f : BuildRow → BuildRow, (∀ row, (f row).ref = row.ref) →
      Avoids tenantId H pointIdOf (updateBuilds (fun row => decide (row.ref = args.ref)) f) := by
    intro f hf
    refine avoids_updateBuilds (fun row hrow htenant => ?_) hf
    rw [of_decide_eq_true hrow] at htenant
    exact absurd htenant h
  refine avoids_bind avoids_get fun s => ?_
  cases s.buildRow args.ref with
  | none =>
    refine avoids_bind ?_ fun _ => avoids_pure _
    intro s hs
    refine ⟨hs.documents, ?_, hs.chunks, hs.apart⟩
    rw [← hs.builds]
    exact Table.select_insert_disjoint (ofTenant_false h)
  | some lease =>
    refine avoids_ite (avoids_ite (avoids_raise _) ?_) (avoids_ite (avoids_raise _) ?_)
    · exact avoids_bind (hrenew _ fun _ => rfl) fun _ => avoids_pure _
    · exact avoids_bind (hrenew _ fun _ => rfl) fun _ => avoids_pure _

theorem avoids_upsertDocumentBuild {document : SourceDocument} (h : document.ref.doc.tenantId ≠ tenantId) :
    Avoids tenantId H pointIdOf (upsertDocumentBuild document) := by
  refine avoids_bind avoids_get fun s => ?_
  cases s.documentRow document.ref with
  | none => exact avoids_insertDocument h
  | some existing =>
    refine avoids_ite (avoids_bind (avoids_updateDocuments ?_ ?_) fun _ => avoids_pure _) (avoids_pure _)
    · intro row hrow
      rw [of_decide_eq_true hrow]
      exact h
    · intro row _
      exact h

theorem avoids_bindJobRow (args : AcquireArgs) (previousVersion : Option String) :
    Avoids tenantId H pointIdOf (bindJobRow args previousVersion) := by
  refine avoids_bind avoids_get fun s => ?_
  cases s.jobRow args.jobId with
  | none =>
    refine avoids_bind (avoids_jobs fun s => ?_) fun _ => avoids_pure _
    unfold insertJob
    split
    · exact ⟨_, s.steps, rfl⟩
    · exact ⟨s.jobs, s.steps, rfl⟩
  | some row =>
    refine avoids_ite (avoids_raise _) (avoids_ite ?_ (avoids_pure _))
    exact avoids_bind (avoids_jobs fun s => ⟨_, s.steps, rfl⟩) fun _ => avoids_pure _

theorem avoids_acquireJobTransaction {args : AcquireArgs} (h : args.ref.doc.tenantId ≠ tenantId)
    (hdocument : ∀ document ∈ args.document, document.ref.doc.tenantId ≠ tenantId) :
    Avoids tenantId H pointIdOf (acquireJobTransaction args) := by
  refine avoids_transaction (avoids_bind (avoids_claimLease h) fun claimed => ?_)
  refine avoids_bind ?_ fun _ => avoids_bind (avoids_bindJobRow args _) fun _ => avoids_pure _
  cases hargs : args.document with
  | none => exact avoids_pure ()
  | some document => exact avoids_upsertDocumentBuild (hdocument document hargs)

theorem avoids_markJobTerminal {jobId : String} (h : ∀ row ∈ H.builds, row.ownerJobId ≠ jobId)
    (status : JobStatus) (parentCount childCount : Nat) (errorCode : Option String) :
    Avoids tenantId H pointIdOf (markJobTerminal jobId status parentCount childCount errorCode) := by
  have hbuilds : ∀ f : BuildRow → BuildRow, (∀ row, (f row).ref = row.ref) →
      Avoids tenantId H pointIdOf (updateBuilds (fun row => decide (row.ownerJobId = jobId)) f) :=
    fun f hf => avoids_updateBuilds (fun row hrow _ hmem => h row hmem (of_decide_eq_true hrow)) hf
  refine avoids_transaction (avoids_bind (avoids_jobs fun s => ⟨_, s.steps, rfl⟩) fun _ => ?_)
  cases status with
  | succeeded => exact hbuilds _ fun _ => rfl
  | failed => exact hbuilds _ fun _ => rfl
  | _ => exact avoids_pure ()

theorem avoids_updateVersion (ref : VersionRef) (h : ref.doc.tenantId ≠ tenantId)
    {f : DocumentRow → DocumentRow} (hf : ∀ row, (f row).ref = row.ref) :
    Avoids tenantId H pointIdOf (updateDocuments (ofVersion ref) f) := by
  have hrows : ∀ row : DocumentRow, ofVersion ref row = true → row.ref.doc.tenantId ≠ tenantId := by
    intro row hrow
    rw [of_decide_eq_true hrow]
    exact h
  refine avoids_updateDocuments hrows fun row hrow => ?_
  rw [hf row]
  exact hrows row hrow

theorem avoids_demotePrevious {doc : DocRef} (h : doc.tenantId ≠ tenantId) (now : Timestamp) (revision : Nat)
    (previous : Option String) : Avoids tenantId H pointIdOf (demotePrevious now doc revision previous) := by
  cases previous with
  | none => exact avoids_pure ()
  | some version =>
    exact avoids_bind (avoids_updateVersion ⟨doc, version⟩ h fun _ => rfl) fun _ => avoids_pure _

theorem avoids_commitActiveVersion {doc : DocRef} (h : doc.tenantId ≠ tenantId) (now : Timestamp)
    (newVersion : String) (expectedRevision : Nat) :
    Avoids tenantId H pointIdOf (commitActiveVersion now doc newVersion expectedRevision) := by
  refine avoids_transaction (avoids_bind avoids_get fun s => ?_)
  refine avoids_ite (avoids_pure _) (avoids_ite (avoids_raise _) ?_)
  refine avoids_bind (avoids_demotePrevious h _ _ _) fun _ => ?_
  refine avoids_bind (avoids_updateVersion ⟨doc, newVersion⟩ h fun _ => rfl) fun rowcount => ?_
  exact avoids_ite (avoids_raise _) (avoids_pure _)

theorem avoids_rollbackActiveVersion {doc : DocRef} (h : doc.tenantId ≠ tenantId) (now : Timestamp)
    (toVersion : Option String) (expectedRevision : Option Nat) :
    Avoids tenantId H pointIdOf (rollbackActiveVersion now doc toVersion expectedRevision) := by
  refine avoids_transaction (avoids_bind avoids_get fun s => ?_)
  cases s.getActiveVersion doc with
  | none => exact avoids_raise _
  | some previous =>
    have htarget : Avoids tenantId H pointIdOf (resolveRollbackTarget doc toVersion) := by
      refine avoids_bind avoids_get fun s => ?_
      cases toVersion with
      | some version => exact avoids_pure _
      | none =>
        cases s.rollbackCandidate doc with
        | some row => exact avoids_pure _
        | none => exact avoids_raise _
    refine avoids_bind htarget fun target => ?_
    cases s.documentRow ⟨doc, target⟩ with
    | none => exact avoids_raise _
    | some row =>
      refine avoids_ite (avoids_raise _) (avoids_ite (avoids_pure _) (avoids_ite (avoids_raise _) ?_))
      refine avoids_bind (avoids_demotePrevious h _ _ _) fun _ => ?_
      refine avoids_bind (avoids_updateVersion ⟨doc, target⟩ h fun _ => rfl) fun rowcount => ?_
      exact avoids_ite (avoids_raise _) (avoids_pure _)

theorem avoids_logicalDelete {ref : VersionRef} (h : ref.doc.tenantId ≠ tenantId) (deletedAt : Timestamp) :
    Avoids tenantId H pointIdOf (logicalDelete deletedAt ref) := by
  refine avoids_transaction (avoids_bind avoids_get fun s => ?_)
  cases s.documentRow ref with
  | none => exact avoids_pure _
  | some target =>
    refine avoids_ite (avoids_pure _) ?_
    dsimp only
    split
    · exact avoids_pure _
    · rename_i row _
      refine avoids_bind ?_ fun _ => avoids_pure _
      exact avoids_updateVersion ⟨ref.doc, row.ref.version⟩ h fun _ => rfl

theorem avoids_updateDocumentAcl {ref : VersionRef} (h : ref.doc.tenantId ≠ tenantId) (acl : AclFields) :
    Avoids tenantId H pointIdOf (updateDocumentAcl ref acl) := by
  refine avoids_transaction (avoids_bind avoids_get fun s => ?_)
  cases s.documentRow ref with
  | none => exact avoids_pure ()
  | some row =>
    refine avoids_ite (avoids_pure ()) ?_
    exact avoids_bind (avoids_updateVersion ref h fun _ => rfl) fun _ => avoids_pure _

theorem avoids_markDocumentFailed {ref : VersionRef} (h : ref.doc.tenantId ≠ tenantId) :
    Avoids tenantId H pointIdOf (markDocumentFailed ref) := by
  have hrows : ∀ row : DocumentRow,
      (ofVersion ref row && decide (row.status = .processing ∨ row.status = .failed)) = true →
        row.ref.doc.tenantId ≠ tenantId := by
    intro row hrow
    rw [of_decide_eq_true (Bool.and_eq_true_iff.mp hrow).1]
    exact h
  exact avoids_bind (avoids_updateDocuments hrows hrows) fun _ => avoids_pure _

theorem avoids_deleteChunkRecords {ref : VersionRef} (h : ref.doc.tenantId ≠ tenantId) :
    Avoids tenantId H pointIdOf (deleteChunkRecords ref) := by
  intro s hs
  refine ⟨hs.documents, hs.builds, ?_, ?_⟩
  · rw [← hs.chunks]
    apply Table.select_delete_disjoint
    intro row _ hrow
    rw [of_decide_eq_true hrow]
    exact ofTenant_false h
  · intro row hrow
    exact hs.apart row (Table.mem_delete.mp hrow).1

/-- A chunk row of another tenant is written under an id that is none of the tenant's. -/
theorem avoids_upsertChunkRecord {chunk : ChunkRecord} (h : chunk.ref.doc.tenantId ≠ tenantId)
    (hid : H.ChunkFree chunk.chunkId) (hapart : H.RowApart pointIdOf chunk) :
    Avoids tenantId H pointIdOf (upsertChunkRecord chunk) := by
  intro s hs
  have hchunks : (upsertChunkRecord chunk s).2 = s ∨ (upsertChunkRecord chunk s).2 =
      { s with chunks := Table.upsert (·.chunkId) s.chunks chunk } := by
    unfold upsertChunkRecord Table.upsert
    split
    · right
      split <;> rfl
    · exact Or.inl rfl
  rcases hchunks with hsame | hwritten
  · rw [hsame]
    exact hs
  rw [hwritten]
  refine ⟨hs.documents, hs.builds, ?_, ?_⟩
  · rw [← hs.chunks]
    have hother : chunk.ref.ofTenant tenantId = false := ofTenant_false h
    refine Table.select_upsert_disjoint (fun row : ChunkRecord => row.chunkId) hother fun row hrow => ?_
    rw [hs.chunks] at hrow
    exact hid row hrow
  · intro row hrow htenant
    rcases Table.mem_upsert.mp hrow with rfl | ⟨hold, -⟩
    · exact hapart
    · exact hs.apart row hold htenant

theorem avoids_deleteDocument {doc : DocRef} (h : doc.tenantId ≠ tenantId) :
    Avoids tenantId H pointIdOf (deleteDocument doc) := by
  have hbuilds : Avoids tenantId H pointIdOf (modify fun s : MetadataStore =>
      { s with builds := Table.delete (fun row => decide (row.ref.doc = doc)) s.builds } : StoreMethod Unit) := by
    intro s hs
    refine ⟨hs.documents, ?_, hs.chunks, hs.apart⟩
    rw [← hs.builds]
    apply Table.select_delete_disjoint
    intro row _ hrow
    apply ofTenant_false
    rw [of_decide_eq_true hrow]
    exact h
  refine avoids_bind hbuilds fun _ => avoids_bind avoids_get fun s => ?_
  refine avoids_bind (avoids_jobs fun s => ⟨s.jobs, _, rfl⟩) fun _ => ?_
  refine avoids_bind (avoids_jobs fun s => ⟨_, s.steps, rfl⟩) fun _ => avoids_bind avoids_get fun s => ?_
  refine avoids_ite (avoids_raise _) ?_
  intro s hs
  refine ⟨?_, hs.builds, hs.chunks, hs.apart⟩
  rw [← hs.documents]
  apply Table.select_delete_disjoint
  intro row _ hrow
  apply ofTenant_false
  rw [of_decide_eq_true hrow]
  exact h

end Metadata

/-- The methods of the metadata store that leave the tenant alone. -/
def MetadataOp.Avoids (tenantId : String) (H : Holdings) (pointIdOf : String → String) {β : Type} :
    MetadataOp β → Prop
  | .acquireJobTransaction args => args.ref.doc.tenantId ≠ tenantId ∧
      ∀ document ∈ args.document, document.ref.doc.tenantId ≠ tenantId
  | .markJobTerminal jobId _ _ _ _ => ∀ row ∈ H.builds, row.ownerJobId ≠ jobId
  | .commitActiveVersion doc _ _ => doc.tenantId ≠ tenantId
  | .rollbackActiveVersion doc _ _ => doc.tenantId ≠ tenantId
  | .deleteDocument doc => doc.tenantId ≠ tenantId
  | .logicalDelete ref => ref.doc.tenantId ≠ tenantId
  | .updateDocumentAcl ref _ => ref.doc.tenantId ≠ tenantId
  | .markDocumentFailed ref => ref.doc.tenantId ≠ tenantId
  | .deleteChunkRecords ref => ref.doc.tenantId ≠ tenantId
  | .upsertChunkRecord chunk => chunk.ref.doc.tenantId ≠ tenantId ∧ H.ChunkFree chunk.chunkId ∧
      H.RowApart pointIdOf chunk
  | .markStep _ _ _ | .clearSteps _ | .setJobManifest _ _ => True

theorem MetadataOp.Avoids.eval {β : Type} {op : MetadataOp β} (h : op.Avoids tenantId H pointIdOf)
    (now : Timestamp) : AgenticRag.Avoids tenantId H pointIdOf (op.eval now) := by
  cases op with
  | acquireJobTransaction args => exact avoids_acquireJobTransaction h.1 h.2
  | markStep jobId step status => exact avoids_markStep jobId step status
  | clearSteps jobId => exact avoids_jobs fun s => ⟨s.jobs, _, rfl⟩
  | markJobTerminal jobId status parentCount childCount errorCode => exact avoids_markJobTerminal h _ _ _ _
  | setJobManifest jobId manifest => exact avoids_jobs fun s => ⟨_, s.steps, rfl⟩
  | commitActiveVersion doc newVersion expectedRevision => exact avoids_commitActiveVersion h _ _ _
  | rollbackActiveVersion doc toVersion expectedRevision => exact avoids_rollbackActiveVersion h _ _ _
  | logicalDelete ref => exact avoids_logicalDelete h _
  | updateDocumentAcl ref acl => exact avoids_updateDocumentAcl h _
  | markDocumentFailed ref => exact avoids_markDocumentFailed h
  | upsertChunkRecord chunk => exact avoids_upsertChunkRecord h.1 h.2.1 h.2.2
  | deleteChunkRecords ref => exact avoids_deleteChunkRecords h
  | deleteDocument doc => exact avoids_deleteDocument h

section Vectors

variable {vectors : VectorStore}

/-- A collection is rewritten so that the tenant's points stay and no other point gets one of
their ids. -/
theorem holds_modifyCollection (h : vectors.Holds tenantId H) {name : String} {f : List Point → List Point}
    (hpoints : ∀ points, Table.select (·.payload.ref.ofTenant tenantId) points = H.points name →
      Table.select (·.payload.ref.ofTenant tenantId) (f points) = H.points name)
    (hapart : ∀ points, Table.select (·.payload.ref.ofTenant tenantId) points = H.points name →
      (∀ point ∈ points, point.payload.ref.doc.tenantId ≠ tenantId → H.PointFree point.id) →
      ∀ point ∈ f points, point.payload.ref.doc.tenantId ≠ tenantId → H.PointFree point.id) :
    (VectorStore.modifyCollection name f vectors).2.Holds tenantId H := by
  unfold VectorStore.modifyCollection
  cases hname : vectors name with
  | none => exact h
  | some points =>
    have hheld := h.points name
    have hothers := h.apart name
    rw [hname] at hheld hothers
    constructor
    · intro other
      by_cases hother : other = name
      · subst hother
        simpa using hpoints points hheld
      · simpa [Function.update_of_ne hother] using h.points other
    · intro other
      by_cases hother : other = name
      · subst hother
        simpa using hapart points hheld hothers
      · simpa [Function.update_of_ne hother] using h.apart other

/-- A point of another tenant under an id that is none of the tenant's. -/
structure Point.Avoids (tenantId : String) (H : Holdings) (point : Point) : Prop where
  tenant : point.payload.ref.doc.tenantId ≠ tenantId
  id : H.PointFree point.id

theorem holds_upsert (h : vectors.Holds tenantId H) {name : String} {batch : List Point}
    (hbatch : ∀ point ∈ batch, point.Avoids tenantId H) :
    (VectorStore.upsert name batch vectors).2.Holds tenantId H := by
  unfold VectorStore.upsert
  rw [Routine.ite_apply]
  split
  · exact h
  apply holds_modifyCollection h
  · intro points hpoints
    refine (Table.select_upsertAll_disjoint Point.id ?_ ?_).trans hpoints
    · exact fun new hnew => ofTenant_false (hbatch new hnew).tenant
    · intro new hnew old hold
      rw [hpoints] at hold
      exact (hbatch new hnew).id name old hold
  · intro points _ hapart point hpoint htenant
    rcases Table.mem_upsertAll.mp hpoint with hnew | ⟨hold, -⟩
    · have hmem := List.mem_of_find?_eq_some hnew
      exact (hbatch point (List.mem_reverse.mp hmem)).id
    · exact hapart point hold htenant

/-- A point of the tenant has none of the ids. -/
theorem not_mem_of_pointFree {name : String} {pointIds : List String} {points : List Point}
    (hpoints : Table.select (·.payload.ref.ofTenant tenantId) points = H.points name)
    (hfree : ∀ pointId ∈ pointIds, H.PointFree pointId) {point : Point} (hpoint : point ∈ points)
    (hid : point.id ∈ pointIds) : point.payload.ref.ofTenant tenantId = false := by
  by_contra hown
  have hmem : point ∈ H.points name := hpoints ▸ Table.mem_select.mpr ⟨hpoint, by simpa using hown⟩
  exact hfree point.id hid name point hmem rfl

theorem holds_delete (h : vectors.Holds tenantId H) {name : String} {pointIds : List String}
    (hfree : ∀ pointId ∈ pointIds, H.PointFree pointId) :
    (VectorStore.delete name pointIds vectors).2.Holds tenantId H := by
  unfold VectorStore.delete
  rw [Routine.ite_apply]
  split
  · exact h
  apply holds_modifyCollection h
  · intro points hpoints
    refine (Table.select_delete_disjoint fun point hpoint hid => ?_).trans hpoints
    exact not_mem_of_pointFree hpoints hfree hpoint (of_decide_eq_true hid)
  · intro points _ hapart point hpoint
    exact hapart point (Table.mem_delete.mp hpoint).1

theorem holds_updatePayload (h : vectors.Holds tenantId H) {name : String} {pointIds : List String}
    (hfree : ∀ pointId ∈ pointIds, H.PointFree pointId) (patch : PayloadPatch) :
    (VectorStore.updatePayload name pointIds patch vectors).2.Holds tenantId H := by
  have hpatch : ∀ payload, (patch.apply payload).ref = payload.ref := by
    intro payload
    cases patch <;> rfl
  unfold VectorStore.updatePayload
  rw [Routine.ite_apply]
  split
  · exact h
  apply holds_modifyCollection h
  · intro points hpoints
    refine (Table.select_update_disjoint fun point hpoint hid => ?_).trans hpoints
    have hother := not_mem_of_pointFree hpoints hfree hpoint (of_decide_eq_true hid)
    exact ⟨hother, (congrArg (VersionRef.ofTenant tenantId) (hpatch point.payload)).trans hother⟩
  · intro points _ hapart point hpoint htenant
    rcases Table.mem_update.mp hpoint with ⟨old, hold, -, rfl⟩ | ⟨hold, -⟩
    · exact hapart old hold (by rwa [hpatch] at htenant)
    · exact hapart point hold htenant

theorem holds_createCollection (h : vectors.Holds tenantId H) (name : String) :
    (VectorStore.createCollection name vectors).2.Holds tenantId H := by
  unfold VectorStore.createCollection
  cases hname : vectors name with
  | some points => exact h
  | none =>
    have hsame : ∀ other, (Function.update vectors name (some []) other).getD [] = (vectors other).getD [] := by
      intro other
      by_cases hother : other = name
      · subst hother
        simp [hname]
      · simp [Function.update_of_ne hother]
    constructor
    · intro other
      rw [hsame]
      exact h.points other
    · intro other
      rw [hsame]
      exact h.apart other

/-- The methods of the vector store that leave the tenant alone. -/
def VectorOp.Avoids (tenantId : String) (H : Holdings) : VectorOp → Prop
  | .upsert _ points => ∀ point ∈ points, point.Avoids tenantId H
  | .delete _ pointIds => ∀ pointId ∈ pointIds, H.PointFree pointId
  | .updatePayload _ pointIds _ => ∀ pointId ∈ pointIds, H.PointFree pointId
  | .createCollection _ => True

theorem VectorOp.Avoids.eval {op : VectorOp} (h : op.Avoids tenantId H) (hvectors : vectors.Holds tenantId H) :
    (op.eval vectors).2.Holds tenantId H := by
  cases op with
  | upsert name points => exact holds_upsert hvectors h
  | delete name pointIds => exact holds_delete hvectors h
  | updatePayload name pointIds patch => exact holds_updatePayload hvectors h patch
  | createCollection name => exact holds_createCollection hvectors name

end Vectors

section Parents

/-- The methods of the Parent Store that leave the tenant alone. -/
def ParentOp.Avoids (tenantId : String) (H : Holdings) : ParentOp → Prop
  | .put chunk => chunk.ref.doc.tenantId ≠ tenantId ∧ H.ParentFree chunk.parentId
  | .delete parentId | .deprecateParent parentId => H.ParentFree parentId
  | .activateDocument ref | .deprecateDocument ref | .deleteDocument ref | .updateAclDocument ref _ =>
    ref.doc.tenantId ≠ tenantId

variable {parents : ParentStore}

theorem ParentOp.Avoids.eval {op : ParentOp} (h : op.Avoids tenantId H)
    (hparents : Table.select (·.ref.ofTenant tenantId) parents = H.parents) :
    Table.select (·.ref.ofTenant tenantId) (op.eval parents) = H.parents := by
  have hid : ∀ parentId, H.ParentFree parentId → ∀ chunk ∈ parents,
      ParentStore.hasId parentId chunk = true → chunk.ref.ofTenant tenantId = false := by
    intro parentId hfree chunk hchunk hsame
    by_contra hown
    have hmem : chunk ∈ H.parents := hparents ▸ Table.mem_select.mpr ⟨hchunk, by simpa using hown⟩
    exact hfree chunk hmem (of_decide_eq_true hsame)
  have hversion : ∀ ref : VersionRef, ref.doc.tenantId ≠ tenantId → ∀ chunk ∈ parents,
      ParentStore.ofVersion ref chunk = true → chunk.ref.ofTenant tenantId = false := by
    intro ref htenant chunk _ hsame
    rw [of_decide_eq_true hsame]
    exact ofTenant_false htenant
  cases op with
  | put chunk =>
    refine (Table.select_upsert_disjoint (fun chunk : ParentChunk => chunk.parentId)
      (ofTenant_false h.1) fun old hold => ?_).trans hparents
    rw [hparents] at hold
    exact h.2 old hold
  | delete parentId => exact (Table.select_delete_disjoint (hid parentId h)).trans hparents
  | deprecateParent parentId =>
    refine (Table.select_update_disjoint fun chunk hchunk hsame => ?_).trans hparents
    exact ⟨hid parentId h chunk hchunk hsame, hid parentId h chunk hchunk hsame⟩
  | activateDocument ref =>
    refine (Table.select_update_disjoint fun chunk hchunk hsame => ?_).trans hparents
    exact ⟨hversion ref h chunk hchunk hsame, hversion ref h chunk hchunk hsame⟩
  | deprecateDocument ref =>
    refine (Table.select_update_disjoint fun chunk hchunk hsame => ?_).trans hparents
    exact ⟨hversion ref h chunk hchunk hsame, hversion ref h chunk hchunk hsame⟩
  | deleteDocument ref => exact (Table.select_delete_disjoint (hversion ref h)).trans hparents
  | updateAclDocument ref acl =>
    refine (Table.select_update_disjoint fun chunk hchunk hsame => ?_).trans hparents
    exact ⟨hversion ref h chunk hchunk hsame, hversion ref h chunk hchunk hsame⟩

end Parents

/-- The accesses that leave the tenant alone. -/
def StoreOp.Avoids (tenantId : String) (H : Holdings) (pointIdOf : String → String) {β : Type} :
    StoreOp β → Prop
  | .metadata op => op.Avoids tenantId H pointIdOf
  | .vectors op _ => op.Avoids tenantId H
  | .parents op _ => op.Avoids tenantId H
  | .read _ | .raise _ | .setPointer _ _ _ | .recordFinding _ _ => True

/-- After such an access, also after a fault, the stores hold what the tenant has. -/
theorem StoreOp.Avoids.outcome {β : Type} {op : StoreOp β} (h : op.Avoids tenantId H pointIdOf) {w w' : World}
    {r : Except PyError β} (hout : op.Outcome w r w') (hw : w.Holds tenantId H pointIdOf) :
    w'.Holds tenantId H pointIdOf := by
  rcases hout.state with rfl | rfl
  · exact hw
  cases op with
  | read view => exact hw
  | raise e => exact hw
  | metadata op => exact ⟨h.eval w.clock w.metadata hw.metadata, hw.vectors, hw.parents⟩
  | vectors op done => exact ⟨hw.metadata, h.eval hw.vectors, hw.parents⟩
  | parents op done => exact ⟨hw.metadata, hw.vectors, h.eval hw.parents⟩
  | setPointer corpusId name done => exact ⟨hw.metadata, hw.vectors, hw.parents⟩
  | recordFinding finding done => exact ⟨hw.metadata, hw.vectors, hw.parents⟩

end AgenticRag
