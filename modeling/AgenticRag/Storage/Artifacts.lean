import AgenticRag.Storage.Frames
import AgenticRag.Storage.StoreLogic

/-!
# The artifacts of a version

The points, parents and chunk rows that carry a version's identity, and the
accesses that may remove one. Every other access keeps the key of every artifact.
-/

namespace AgenticRag

/-- The control-plane row of the version is active. -/
def World.Active (w : World) (ref : VersionRef) : Prop :=
  ∃ row ∈ w.metadata.documents, row.ref = ref ∧ row.status = .active

/-- No point, parent or chunk row of the version disappears; its key stays. -/
structure KeepsArtifacts (ref : VersionRef) (w w' : World) : Prop where
  points : ∀ name points, w.vectors name = some points → ∃ points', w'.vectors name = some points' ∧
    ∀ point ∈ points, point.payload.ref = ref → ∃ kept ∈ points', kept.id = point.id
  parents : ∀ parent ∈ w.parents, parent.ref = ref →
    ∃ kept ∈ w'.parents, kept.parentId = parent.parentId
  chunks : ∀ row ∈ w.metadata.chunks, row.ref = ref →
    ∃ kept ∈ w'.metadata.chunks, kept.chunkId = row.chunkId

theorem KeepsArtifacts.refl (ref : VersionRef) (w : World) : KeepsArtifacts ref w w :=
  ⟨fun _ points h => ⟨points, h, fun point hpoint _ => ⟨point, hpoint, rfl⟩⟩,
    fun parent hparent _ => ⟨parent, hparent, rfl⟩, fun row hrow _ => ⟨row, hrow, rfl⟩⟩

namespace VectorStore

/-- A write to a collection takes place, or the collection does not exist. -/
theorem modifyCollection_cases {name : String} {f : List Point → List Point}
    {v v' : VectorStore} {r : Except PyError Unit} (h : modifyCollection name f v = (r, v')) :
    (∃ points, v name = some points ∧ r = .ok () ∧
        v' = Function.update v name (some (f points))) ∨
      (v name = none ∧ r = .error (.collectionNotFound name) ∧ v' = v) := by
  unfold modifyCollection at h
  cases hpoints : v name with
  | none =>
    simp only [hpoints] at h
    obtain ⟨rfl, rfl⟩ := Prod.mk.inj h
    exact Or.inr ⟨rfl, rfl, rfl⟩
  | some points =>
    simp only [hpoints] at h
    obtain ⟨rfl, rfl⟩ := Prod.mk.inj h
    exact Or.inl ⟨points, rfl, rfl, rfl⟩

/-- A write that satisfies a relation per collection satisfies it in all of them. -/
theorem modifyCollection_rel {name : String} {f : List Point → List Point} {v v' : VectorStore}
    {r : Except PyError Unit} (Rel : List Point → List Point → Prop)
    (h : modifyCollection name f v = (r, v')) (hrefl : ∀ points, Rel points points)
    (hf : ∀ points, v name = some points → Rel points (f points)) (other : String)
    (points : List Point) (hpoints : v other = some points) :
    ∃ points', v' other = some points' ∧ Rel points points' := by
  rcases modifyCollection_cases h with ⟨found, hfound, -, rfl⟩ | ⟨-, -, rfl⟩
  · by_cases hname : other = name
    · subst hname
      refine ⟨f found, by simp, ?_⟩
      have hsame : points = found := Option.some.inj (hpoints.symm.trans hfound)
      rw [hsame]
      exact hf found hfound
    · exact ⟨points, by simp [hname, hpoints], hrefl points⟩
  · exact ⟨points, hpoints, hrefl points⟩

end VectorStore

theorem upsertPoint_eq : upsertPoint = Table.upsert fun point : Point => point.id := rfl

theorem mem_upsertPoint {points : List Point} {new point : Point} :
    point ∈ upsertPoint points new ↔ point = new ∨ (point ∈ points ∧ point.id ≠ new.id) :=
  Table.mem_upsert

theorem upsert_unique {points : List Point} (h : Table.KeyUnique (·.id) points)
    (batch : List Point) : Table.KeyUnique (·.id) (batch.foldl upsertPoint points) := by
  rw [upsertPoint_eq]
  exact h.upsertAll batch

/-- Upserting keeps every id. -/
theorem upsert_keeps_ids (batch points : List Point) :
    ∀ point ∈ points, ∃ kept ∈ batch.foldl upsertPoint points, kept.id = point.id := by
  induction batch generalizing points with
  | nil => exact fun point hpoint => ⟨point, hpoint, rfl⟩
  | cons new batch ih =>
    intro point hpoint
    have hnext : ∃ kept ∈ upsertPoint points new, kept.id = point.id := by
      by_cases hid : point.id = new.id
      · exact ⟨new, mem_upsertPoint.mpr (Or.inl rfl), hid.symm⟩
      · exact ⟨point, mem_upsertPoint.mpr (Or.inr ⟨hpoint, hid⟩), rfl⟩
    obtain ⟨kept, hkept, hid⟩ := hnext
    obtain ⟨last, hlast, hlastid⟩ := ih (upsertPoint points new) kept hkept
    exact ⟨last, hlast, hlastid.trans hid⟩

/-- An update in place keeps every key it does not rewrite. -/
theorem update_keeps_keys {ρ κ : Type} {p : ρ → Bool} {f : ρ → ρ} (key : ρ → κ)
    (hf : ∀ row, p row = true → key (f row) = key row) (rows : List ρ) :
    ∀ row ∈ rows, ∃ kept ∈ Table.update p f rows, key kept = key row := by
  intro row hrow
  cases hp : p row with
  | true => exact ⟨f row, Table.mem_update.mpr (Or.inl ⟨row, hrow, hp, rfl⟩), hf row hp⟩
  | false => exact ⟨row, Table.mem_update.mpr (Or.inr ⟨hrow, hp⟩), rfl⟩

section Accesses

/-- The writes to the collections that keep every id. -/
theorem VectorOp.keeps_ids {op : VectorOp} {v v' : VectorStore} {r : Except PyError Unit}
    (hop : ∀ name ids, op ≠ .delete name ids) (h : op.eval v = (r, v')) (name : String)
    (points : List Point) (hpoints : v name = some points) :
    ∃ points', v' name = some points' ∧
      ∀ point ∈ points, ∃ kept ∈ points', kept.id = point.id := by
  have hstay : v' = v → ∃ points', v' name = some points' ∧
      ∀ point ∈ points, ∃ kept ∈ points', kept.id = point.id := by
    rintro rfl
    exact ⟨points, hpoints, fun point hpoint => ⟨point, hpoint, rfl⟩⟩
  cases op with
  | delete other ids => exact absurd rfl (hop other ids)
  | upsert other batch =>
    simp only [VectorOp.eval, VectorStore.upsert, Routine.ite_apply] at h
    split at h
    · exact hstay (Prod.mk.inj h).2.symm
    · exact VectorStore.modifyCollection_rel
        (fun points points' => ∀ point ∈ points, ∃ kept ∈ points', kept.id = point.id) h
        (fun _ point hpoint => ⟨point, hpoint, rfl⟩) (fun points _ => upsert_keeps_ids batch points)
        name points hpoints
  | updatePayload other ids patch =>
    simp only [VectorOp.eval, VectorStore.updatePayload, Routine.ite_apply] at h
    split at h
    · exact hstay (Prod.mk.inj h).2.symm
    · refine VectorStore.modifyCollection_rel
        (fun points points' => ∀ point ∈ points, ∃ kept ∈ points', kept.id = point.id) h
        (fun _ point hpoint => ⟨point, hpoint, rfl⟩) (fun points _ => ?_) name points hpoints
      apply update_keeps_keys fun point : Point => point.id
      exact fun _ _ => rfl
  | createCollection other =>
    simp only [VectorOp.eval, VectorStore.createCollection] at h
    cases hother : v other with
    | some existing =>
      simp only [hother] at h
      exact hstay (Prod.mk.inj h).2.symm
    | none =>
      simp only [hother] at h
      obtain ⟨-, rfl⟩ := Prod.mk.inj h
      have hname : name ≠ other := by
        rintro rfl
        simp [hother] at hpoints
      exact ⟨points, by simp [hname, hpoints], fun point hpoint => ⟨point, hpoint, rfl⟩⟩

/-- The writes to the Parent Store that keep every id. -/
theorem ParentOp.keeps_ids {op : ParentOp} (hdelete : ∀ parentId, op ≠ .delete parentId)
    (hdocument : ∀ ref, op ≠ .deleteDocument ref) (parents : ParentStore) :
    ∀ parent ∈ parents, ∃ kept ∈ op.eval parents, kept.parentId = parent.parentId := by
  have hupdate : ∀ (p : ParentChunk → Bool) (f : ParentChunk → ParentChunk),
      (∀ chunk, p chunk = true → (f chunk).parentId = chunk.parentId) → ∀ parent ∈ parents,
        ∃ kept ∈ Table.update p f parents, kept.parentId = parent.parentId :=
    fun p f hf => update_keeps_keys (fun chunk : ParentChunk => chunk.parentId) hf parents
  cases op with
  | delete parentId => exact absurd rfl (hdelete parentId)
  | deleteDocument ref => exact absurd rfl (hdocument ref)
  | put chunk =>
    simp only [ParentOp.eval, ParentStore.put]
    split
    · exact hupdate _ _ fun old hold => (of_decide_eq_true hold).symm
    · exact fun parent hparent => ⟨parent, Table.mem_insert.mpr (Or.inl hparent), rfl⟩
  | deprecateParent parentId => exact hupdate _ _ fun _ _ => rfl
  | activateDocument ref => exact hupdate _ _ fun _ _ => rfl
  | deprecateDocument ref => exact hupdate _ _ fun _ _ => rfl
  | updateAclDocument ref acl => exact hupdate _ _ fun _ _ => rfl

end Accesses

/-- After a batch an id holds the last point of the batch with that id, or what it held
before. -/
theorem mem_upsert {batch points : List Point} {point : Point} :
    point ∈ batch.foldl upsertPoint points ↔
      batch.reverse.find? (fun new => decide (new.id = point.id)) = some point ∨
        (point ∈ points ∧ ∀ new ∈ batch, new.id ≠ point.id) :=
  Table.mem_upsertAll

end AgenticRag
