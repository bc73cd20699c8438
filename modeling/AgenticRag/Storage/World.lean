import AgenticRag.Foundations.Pool
import AgenticRag.Storage.DataPlane

/-!
# The stores as one shared state

Everything a job, a manager call or a reconciler run touches: the metadata store,
the Qdrant collections, the Parent Store and the live collection pointers. A
`StoreOp` is one atomic access to it; programs are sequences of such accesses.
Any access may also fail with `fault`, before or after taking effect.
-/

namespace AgenticRag

/-- A persisted finding of the reconciler or of a failed rollback. -/
structure Finding where
  kind : String
  corpusId : String
  tenantId : Option String
  documentId : Option String
  documentVersion : Option String
  deriving DecidableEq, Repr

structure World where
  clock : Timestamp
  metadata : MetadataStore
  vectors : VectorStore
  parents : ParentStore
  /-- `vector_collection` of the corpora in the live registry, `some ""` if it is unset -/
  pointers : String → Option String
  findings : List Finding

/-- `resolve_collection_name`: an unknown corpus or an unset pointer falls back to the
corpus id. -/
def World.resolveCollectionName (w : World) (corpusId : String) : String :=
  match w.pointers corpusId with
  | some name => if name = "" then corpusId else name
  | none => corpusId

/-- `set_active_collection` of the live registry: unknown corpora are skipped. -/
def flipPointer (corpusId name : String) (pointers : String → Option String) :
    String → Option String :=
  match pointers corpusId with
  | some _ => Function.update pointers corpusId (some name)
  | none => pointers

/-- The writing methods of the metadata store. -/
inductive MetadataOp : Type → Type where
  | acquireJobTransaction (args : MetadataStore.AcquireArgs) : MetadataOp (JobStatus × Nat)
  | markStep (jobId : String) (step : Step) (status : String) : MetadataOp Unit
  | clearSteps (jobId : String) : MetadataOp Unit
  | markJobTerminal (jobId : String) (status : JobStatus) (parentCount childCount : Nat)
      (errorCode : Option String) : MetadataOp Unit
  | setJobManifest (jobId : String) (manifest : Manifest) : MetadataOp Unit
  | commitActiveVersion (doc : DocRef) (newVersion : String) (expectedRevision : Nat) :
      MetadataOp (Nat × Option String)
  | rollbackActiveVersion (doc : DocRef) (toVersion : Option String)
      (expectedRevision : Option Nat) : MetadataOp (Nat × Option String)
  | logicalDelete (ref : VersionRef) : MetadataOp Nat
  | updateDocumentAcl (ref : VersionRef) (acl : AclFields) : MetadataOp Unit
  | markDocumentFailed (ref : VersionRef) : MetadataOp Unit
  | upsertChunkRecord (chunk : ChunkRecord) : MetadataOp Unit
  | deleteChunkRecords (ref : VersionRef) : MetadataOp Unit
  | deleteDocument (doc : DocRef) : MetadataOp Unit

/-- The method, with the clock read for its timestamps. -/
def MetadataOp.eval (now : Timestamp) {β : Type} : MetadataOp β → StoreMethod β
  | .acquireJobTransaction args => MetadataStore.acquireJobTransaction args
  | .markStep jobId step status => MetadataStore.markStep jobId step status
  | .clearSteps jobId => MetadataStore.clearSteps jobId
  | .markJobTerminal jobId status parentCount childCount errorCode =>
    MetadataStore.markJobTerminal jobId status parentCount childCount errorCode
  | .setJobManifest jobId manifest => MetadataStore.setJobManifest jobId manifest
  | .commitActiveVersion doc newVersion expectedRevision =>
    MetadataStore.commitActiveVersion now doc newVersion expectedRevision
  | .rollbackActiveVersion doc toVersion expectedRevision =>
    MetadataStore.rollbackActiveVersion now doc toVersion expectedRevision
  | .logicalDelete ref => MetadataStore.logicalDelete now ref
  | .updateDocumentAcl ref acl => MetadataStore.updateDocumentAcl ref acl
  | .markDocumentFailed ref => MetadataStore.markDocumentFailed ref
  | .upsertChunkRecord chunk => MetadataStore.upsertChunkRecord chunk
  | .deleteChunkRecords ref => MetadataStore.deleteChunkRecords ref
  | .deleteDocument doc => MetadataStore.deleteDocument doc

/-- The writing methods of the vector store. -/
inductive VectorOp where
  | upsert (name : String) (points : List Point)
  | delete (name : String) (pointIds : List String)
  | updatePayload (name : String) (pointIds : List String) (patch : PayloadPatch)
  | createCollection (name : String)

def VectorOp.eval : VectorOp → Routine VectorStore PyError Unit
  | .upsert name points => VectorStore.upsert name points
  | .delete name pointIds => VectorStore.delete name pointIds
  | .updatePayload name pointIds patch => VectorStore.updatePayload name pointIds patch
  | .createCollection name => VectorStore.createCollection name

/-- The writing methods of the Parent Store. -/
inductive ParentOp where
  | put (chunk : ParentChunk)
  | delete (parentId : String)
  | deprecateParent (parentId : String)
  | activateDocument (ref : VersionRef)
  | deprecateDocument (ref : VersionRef)
  | deleteDocument (ref : VersionRef)
  | updateAclDocument (ref : VersionRef) (acl : AclFields)

def ParentOp.eval : ParentOp → ParentStore → ParentStore
  | .put chunk => ParentStore.put chunk
  | .delete parentId => ParentStore.delete parentId
  | .deprecateParent parentId => ParentStore.deprecateParent parentId
  | .activateDocument ref => ParentStore.activateDocument ref
  | .deprecateDocument ref => ParentStore.deprecateDocument ref
  | .deleteDocument ref => ParentStore.deleteDocument ref
  | .updateAclDocument ref acl => ParentStore.updateAclDocument ref acl

/-- One access to the shared state. A `raise` statement is an access that changes
nothing, so that every exception of a program is a step of it. -/
inductive StoreOp (β : Type) : Type where
  | read (view : World → Except PyError β)
  | raise (e : PyError)
  | metadata (op : MetadataOp β)
  | vectors (op : VectorOp) (done : Unit → β)
  | parents (op : ParentOp) (done : Unit → β)
  | setPointer (corpusId : String) (name : String) (done : Unit → β)
  | recordFinding (finding : Finding) (done : Unit → β)

def StoreOp.eval {β : Type} : StoreOp β → Routine World PyError β
  | .read view => fun w => (view w, w)
  | .raise e => fun w => (.error e, w)
  | .metadata op => fun w =>
    match op.eval w.clock w.metadata with
    | (r, m) => (r, { w with metadata := m })
  | .vectors op done => fun w =>
    match op.eval w.vectors with
    | (r, v) => (r.map done, { w with vectors := v })
  | .parents op done => fun w => (.ok (done ()), { w with parents := op.eval w.parents })
  | .setPointer corpusId name done => fun w =>
    (.ok (done ()), { w with pointers := flipPointer corpusId name w.pointers })
  | .recordFinding finding done => fun w =>
    (.ok (done ()), { w with findings := w.findings ++ [finding] })

/-- What an access may do: its effect, or a fault before or after the effect. -/
def StoreOp.Outcome {β : Type} (op : StoreOp β) (w : World) (r : Except PyError β)
    (w' : World) : Prop :=
  (r, w') = op.eval w ∨ (r = .error .fault ∧ (w' = w ∨ w' = (op.eval w).2))

namespace StoreOp.Outcome

variable {β : Type} {w w' : World} {r : Except PyError β}

theorem state {op : StoreOp β} (h : op.Outcome w r w') : w' = w ∨ w' = (op.eval w).2 := by
  rcases h with heval | ⟨-, h⟩
  · exact Or.inr (congrArg Prod.snd heval)
  · exact h

/-- An access that returns took effect. -/
theorem ok {op : StoreOp β} {a : β} (h : op.Outcome w (.ok a) w') : op.eval w = (.ok a, w') := by
  rcases h with heval | ⟨hfault, -⟩
  · exact heval.symm
  · simp at hfault

/-- A read changes nothing and returns what the accessor says. -/
theorem read {view : World → Except PyError β} (h : (StoreOp.read view).Outcome w r w') :
    w' = w ∧ ∀ a, r = .ok a → view w = .ok a := by
  constructor
  · rcases h.state with rfl | rfl <;> rfl
  · rintro a rfl
    exact (Prod.mk.inj h.ok).1

/-- A method of the metadata store leaves the other stores alone. -/
theorem metadata {op : MetadataOp β} (h : (StoreOp.metadata op).Outcome w r w') :
    (w' = w ∨ w' = { w with metadata := (op.eval w.clock w.metadata).2 }) ∧
      ∀ a, r = .ok a → op.eval w.clock w.metadata = (.ok a, w'.metadata) := by
  constructor
  · exact h.state
  · rintro a rfl
    obtain ⟨hr, hw⟩ := Prod.mk.inj h.ok
    exact Prod.ext hr (congrArg World.metadata hw)

end StoreOp.Outcome

/-- The outcomes of an access: it takes place, or a fault comes before or after its
effect. -/
inductive Choice where
  | normal
  | faultBefore
  | faultAfter
  deriving DecidableEq, Repr

def StoreOp.answer {β : Type} (op : StoreOp β) (w : World) : Choice → Except PyError β × World
  | .normal => op.eval w
  | .faultBefore => (.error .fault, w)
  | .faultAfter => (.error .fault, (op.eval w).2)

theorem StoreOp.answer_outcome {β : Type} (op : StoreOp β) (w : World) (c : Choice) :
    op.Outcome w (op.answer w c).1 (op.answer w c).2 := by
  cases c with
  | normal => exact Or.inl rfl
  | faultBefore => exact Or.inr ⟨rfl, Or.inl rfl⟩
  | faultAfter => exact Or.inr ⟨rfl, Or.inr rfl⟩

/-- A method of an object with attributes `τ` that works on the stores. -/
abbrev StoreProgram (τ α : Type) := Method StoreOp PyError τ α

namespace StoreProgram

variable {τ α : Type}

def read (view : World → α) : StoreProgram τ α :=
  Method.perform (.read fun w => .ok (view w))

/-- Read the stores through an accessor that may raise. -/
def tryRead (view : World → Except PyError α) : StoreProgram τ α :=
  Method.perform (.read view)

def raise (e : PyError) : StoreProgram τ α := Method.perform (.raise e)

def metadata (op : MetadataOp α) : StoreProgram τ α := Method.perform (.metadata op)

def vectors (op : VectorOp) : StoreProgram τ Unit := Method.perform (.vectors op id)

def parents (op : ParentOp) : StoreProgram τ Unit := Method.perform (.parents op id)

def setPointer (corpusId name : String) : StoreProgram τ Unit :=
  Method.perform (.setPointer corpusId name id)

def recordFinding (finding : Finding) : StoreProgram τ Unit :=
  Method.perform (.recordFinding finding id)

end StoreProgram

end AgenticRag
