import AgenticRag.Ingestion.DocumentManager
import AgenticRag.Storage.StoreLogic
import AgenticRag.Storage.Transactions

/-!
# The collection a mutation works on

`_collection` asks the live registry before every write to the vector store. A call of the
manager therefore leaves every other collection alone, whatever others do meanwhile, as long
as the pointer of the corpus stays where it is.
-/

namespace AgenticRag

/-- The collection a writing method names. -/
def VectorOp.name : VectorOp → String
  | .upsert name _ | .delete name _ | .updatePayload name _ _ | .createCollection name => name

/-- Accesses that write to no other collection and move no pointer. -/
def StoreOp.Targets (name : String) {β : Type} : StoreOp β → Prop
  | .vectors op _ => op.name = name
  | .setPointer _ _ _ => False
  | _ => True

instance (name : String) {β : Type} (op : StoreOp β) : Decidable (op.Targets name) := by
  cases op <;> unfold StoreOp.Targets <;> infer_instance

section Writes

variable {name other : String}

theorem modifyCollection_other {f : List Point → List Point} {v : VectorStore} (hother : other ≠ name) :
    (VectorStore.modifyCollection name f v).2 other = v other := by
  unfold VectorStore.modifyCollection
  split
  · exact Function.update_of_ne hother _ _
  · rfl

theorem VectorOp.eval_other {op : VectorOp} {v : VectorStore} (hother : other ≠ op.name) :
    (op.eval v).2 other = v other := by
  cases op with
  | upsert name points =>
    simp only [VectorOp.eval, VectorStore.upsert, Routine.ite_apply]
    split
    · rfl
    · exact modifyCollection_other hother
  | delete name pointIds =>
    simp only [VectorOp.eval, VectorStore.delete, Routine.ite_apply]
    split
    · rfl
    · exact modifyCollection_other hother
  | updatePayload name pointIds patch =>
    simp only [VectorOp.eval, VectorStore.updatePayload, Routine.ite_apply]
    split
    · rfl
    · exact modifyCollection_other hother
  | createCollection name =>
    simp only [VectorOp.eval, VectorStore.createCollection]
    cases hname : v name with
    | some existing => rfl
    | none => exact Function.update_of_ne hother _ _

/-- Neither the pointers nor the other collections change. -/
structure World.ChangesOnly (name : String) (w w' : World) : Prop where
  pointers : w'.pointers = w.pointers
  others : ∀ other, other ≠ name → w'.vectors other = w.vectors other

theorem StoreOp.Targets.outcome {β : Type} {op : StoreOp β} (hop : op.Targets name) {w w' : World}
    {r : Except PyError β} (h : op.Outcome w r w') : w.ChangesOnly name w' := by
  rcases h.state with rfl | rfl
  · exact ⟨rfl, fun _ _ => rfl⟩
  · cases op with
    | setPointer corpusId target done => exact absurd hop id
    | vectors op done =>
      refine ⟨rfl, fun other hother => VectorOp.eval_other ?_⟩
      rw [show op.name = name from hop]
      exact hother
    | read | raise | metadata | parents | recordFinding => exact ⟨rfl, fun _ _ => rfl⟩

end Writes

/-- Others may do anything but move the pointers; the program may write to one collection. -/
def confinedTo (name : String) : Regime World StoreOp PyError where
  out := fun op => op.Outcome
  rely w w' := w'.pointers = w.pointers
  guar w w' := w.ChangesOnly name w'
  rely_refl _ := rfl
  rely_trans h h' := h'.trans h

def Lives (corpusId name : String) (w : World) : Prop := w.resolveCollectionName corpusId = name

/-- Started with a live collection, a call writes to no other one. -/
abbrev WritesLive {α : Type} (corpusId name : String) (m : ManagerProgram α) : Prop :=
  Method.Keeps (confinedTo name) (Lives corpusId name) m

namespace DocumentManager

open StoreProgram Method

variable {α β : Type} {corpusId documentId name : String}

theorem lives_rely {w w' : World} (h : (confinedTo name).rely w w') (hw : Lives corpusId name w) :
    Lives corpusId name w' := by
  unfold Lives World.resolveCollectionName at hw ⊢
  rw [show w'.pointers = w.pointers from h]
  exact hw

theorem lives_stable : Stable (confinedTo name) (fun _ : Unit => Lives corpusId name)
    (fun _ _ => Lives corpusId name) :=
  Stable.of_rely lives_rely

theorem writesLive_of_uses {m : ManagerProgram α} (h : Uses (StoreOp.Targets name) m) :
    WritesLive corpusId name m := by
  refine Keeps.of_uses lives_rely ?_ h
  intro β op hop w r w' hw hout
  have hchanges := hop.outcome hout
  exact ⟨hchanges, lives_rely hchanges.pointers hw⟩

theorem writesLive_bind {m : ManagerProgram α} {f : α → ManagerProgram β} (hm : WritesLive corpusId name m)
    (hf : ∀ a, WritesLive corpusId name (f a)) : WritesLive corpusId name (m >>= f) :=
  Maintains.bind lives_stable hm hf

theorem writesLive_raise (e : PyError) : WritesLive corpusId name (raise e : ManagerProgram α) :=
  writesLive_of_uses (Uses.perform trivial)

theorem onStores_confinedTo : OnStores (confinedTo name) :=
  ⟨id, fun _ => ⟨rfl, fun _ _ => rfl⟩⟩

/-- What follows `_collection` works on the live collection. -/
theorem writesLive_collection {f : String → ManagerProgram β} (hf : WritesLive corpusId name (f name)) :
    WritesLive corpusId name (collection corpusId >>= f) := by
  intro t w hw
  apply wp_bind
  apply wp_read onStores_confinedTo
  · intro w₁ w₂ hw₁ hw₂
    have hlive : w₁.resolveCollectionName corpusId = name := lives_rely hw₁ hw
    rw [hlive]
    exact hf t w₂ (lives_rely hw₂ (lives_rely hw₁ hw))
  · intro e w₁ hw₁ w₂ hw₂
    exact lives_rely hw₂ (lives_rely hw₁ hw)

/-- What an accessor returns, it has read from some store. -/
theorem writesLive_tryRead {view : World → Except PyError α} {f : α → ManagerProgram β}
    (hf : ∀ a w, view w = .ok a → WritesLive corpusId name (f a)) :
    WritesLive corpusId name (tryRead view >>= f) := by
  intro t w hw
  apply wp_bind
  apply wp_tryRead onStores_confinedTo
  · intro a w₁ w₂ hw₁ hview hw₂
    exact hf a w₁ hview t w₂ (lives_rely hw₂ (lives_rely hw₁ hw))
  · intro e w₁ hw₁ w₂ hw₂
    exact lives_rely hw₂ (lives_rely hw₁ hw)

theorem purgeVersion_targets (ref : VersionRef) : Uses (StoreOp.Targets name) (purgeVersion name ref) := by
  refine Uses.bind (Uses.perform trivial) fun pointIds => ?_
  refine Uses.bind (Uses.perform rfl) fun _ => ?_
  exact Uses.bind (Uses.perform trivial) fun _ => Uses.perform trivial

theorem syncVersion_targets (doc : DocRef) (version : Option String) (active : Bool) :
    Uses (StoreOp.Targets name) (syncVersion name doc version active) := by
  cases version with
  | none => exact Uses.pure ()
  | some version =>
    refine Uses.bind (Uses.perform trivial) fun pointIds => Uses.ite ?_ ?_
    · exact Uses.bind (Uses.perform rfl) fun _ => Uses.perform trivial
    · exact Uses.bind (Uses.perform rfl) fun _ => Uses.perform trivial

theorem rebuildParents_targets (ref : VersionRef) (rows : List ChunkRecord) :
    Uses (StoreOp.Targets name) (rebuildParents ref rows) := by
  refine Uses.forEach (fun parentId => Uses.ite (Uses.pure ()) ?_) _
  cases rebuiltParent ref parentId (childrenOfParent rows parentId) with
  | some parent => exact Uses.perform trivial
  | none => exact Uses.pure ()

section Mutations

variable (ctx : SecurityContext)

theorem delete_writesLive : WritesLive corpusId name (delete ctx corpusId documentId) := by
  refine writesLive_tryRead fun found _ _ => ?_
  cases found with
  | none => exact writesLive_raise _
  | some document =>
    refine Maintains.ite (writesLive_raise _) (Maintains.ite (Maintains.pure lives_stable ()) ?_)
    refine writesLive_bind (writesLive_of_uses (Uses.perform trivial)) fun _ => ?_
    refine writesLive_collection (writesLive_of_uses ?_)
    refine Uses.bind (Uses.perform trivial) fun pointIds => ?_
    exact Uses.bind (Uses.perform rfl) fun _ => Uses.perform trivial

theorem reconcilePurge_writesLive (doc : DocRef) :
    WritesLive doc.corpusId name (reconcilePurge doc) := by
  refine writesLive_collection (writesLive_of_uses ?_)
  refine Uses.bind (Uses.perform trivial) fun versions => ?_
  exact Uses.bind (Uses.forEach (fun version => purgeVersion_targets _) _) fun _ => Uses.perform trivial

theorem purge_writesLive : WritesLive corpusId name (purge ctx corpusId documentId) := by
  refine writesLive_tryRead fun found w hfound => ?_
  cases found with
  | none => exact Maintains.pure lives_stable ()
  | some document =>
    refine Maintains.ite (writesLive_raise _) (Maintains.ite (writesLive_raise _) ?_)
    have hdoc : document.ref.doc = ⟨ctx.tenantId, corpusId, documentId⟩ :=
      MetadataStore.getDocumentLatest_doc hfound
    rw [hdoc]
    exact reconcilePurge_writesLive ⟨ctx.tenantId, corpusId, documentId⟩

theorem tightenAcl_writesLive (acl : ResourceAcl) :
    WritesLive corpusId name (tightenAcl ctx corpusId documentId acl) := by
  have hresolve : WritesLive corpusId name (resolveActive ctx corpusId documentId) := by
    refine writesLive_tryRead fun found _ _ => ?_
    cases found with
    | none => exact writesLive_raise _
    | some document => exact Maintains.ite (Maintains.pure lives_stable _) (writesLive_raise _)
  refine writesLive_bind hresolve fun document => Maintains.ite (writesLive_raise _) ?_
  refine writesLive_bind (writesLive_of_uses (Uses.perform trivial)) fun _ => ?_
  refine writesLive_collection (writesLive_of_uses ?_)
  refine Uses.bind (Uses.perform trivial) fun pointIds => ?_
  exact Uses.bind (Uses.perform rfl) fun _ => Uses.perform trivial

theorem rollbackActiveVersion_writesLive (doc : DocRef) (toVersion : Option String)
    (expectedRevision : Option Nat) :
    WritesLive doc.corpusId name (rollbackActiveVersion doc toVersion expectedRevision) := by
  refine writesLive_bind (writesLive_of_uses (Uses.perform trivial)) fun switched => ?_
  have htarget : WritesLive doc.corpusId name (rolledBackTo doc toVersion) := by
    cases toVersion with
    | none => exact writesLive_of_uses (Uses.perform trivial)
    | some version => exact Maintains.pure lives_stable _
  refine writesLive_bind htarget fun target => writesLive_collection (writesLive_of_uses ?_)
  refine Uses.bind (Uses.tryCatch ?_ fun e => ?_) fun _ => Uses.pure _
  · exact Uses.bind (syncVersion_targets _ _ _) fun _ => syncVersion_targets _ _ _
  · exact Uses.bind (Uses.perform trivial) fun _ => Uses.reraise e

theorem rebuildDocument_writesLive (svc : Services) (ref : VersionRef) :
    WritesLive ref.doc.corpusId name (rebuildDocument svc ref) := by
  refine writesLive_collection (writesLive_of_uses ?_)
  refine Uses.bind (Uses.perform trivial) fun rows => ?_
  exact Uses.bind (Uses.perform rfl) fun _ => rebuildParents_targets ref rows

end Mutations

end DocumentManager

end AgenticRag
