import AgenticRag.Foundations.Completion
import AgenticRag.Storage.Artifacts

/-!
# What a call that returned has done

The accesses of a method that returns all took place: a fault would have been raised.
One rule per access says what it did, so that a completed method is executed by
rewriting.
-/

namespace AgenticRag

theorem StoreOp.outcome_ok {β : Type} {op : StoreOp β} {w w' : World} {a : β} :
    op.Outcome w (.ok a) w' ↔ op.eval w = (.ok a, w') :=
  ⟨StoreOp.Outcome.ok, fun h => Or.inl h.symm⟩

namespace StoreProgram

open Method

variable {τ α : Type} {t t' : τ} {w w' : World} {a : α}

/-- The call returns `a`, with attributes `t'` and stores `w'`. -/
abbrev Finishes (m : StoreProgram τ α) (t : τ) (w : World) (a : α) (t' : τ) (w' : World) : Prop :=
  Method.Completes StoreOp.Outcome m t w a t' w'

theorem finishes_perform {op : StoreOp α} :
    Finishes (perform op : StoreProgram τ α) t w a t' w' ↔ t' = t ∧ op.eval w = (.ok a, w') :=
  completes_perform.trans (and_congr_right fun _ => StoreOp.outcome_ok)

@[simp] theorem finishes_tryRead {view : World → Except PyError α} :
    Finishes (tryRead view : StoreProgram τ α) t w a t' w' ↔ view w = .ok a ∧ t' = t ∧ w' = w := by
  refine finishes_perform.trans ?_
  simp only [StoreOp.eval, Prod.mk.injEq]
  constructor
  · rintro ⟨rfl, hview, rfl⟩
    exact ⟨hview, rfl, rfl⟩
  · rintro ⟨hview, rfl, rfl⟩
    exact ⟨rfl, hview, rfl⟩

@[simp] theorem finishes_read {view : World → α} :
    Finishes (read view : StoreProgram τ α) t w a t' w' ↔ a = view w ∧ t' = t ∧ w' = w := by
  refine finishes_tryRead.trans ?_
  rw [Except.ok.injEq, eq_comm]

@[simp] theorem finishes_raise {e : PyError} :
    Finishes (raise e : StoreProgram τ α) t w a t' w' ↔ False := by
  refine finishes_perform.trans ?_
  simp [StoreOp.eval]

theorem finishes_metadata {op : MetadataOp α} :
    Finishes (metadata op : StoreProgram τ α) t w a t' w' ↔
      t' = t ∧ ∃ m, op.eval w.clock w.metadata = (.ok a, m) ∧ w' = { w with metadata := m } := by
  refine finishes_perform.trans (and_congr_right fun _ => ?_)
  simp only [StoreOp.eval, Prod.mk.injEq]
  constructor
  · rintro ⟨hresult, hw'⟩
    exact ⟨(op.eval w.clock w.metadata).2, Prod.ext hresult rfl, hw'.symm⟩
  · rintro ⟨m, hm, rfl⟩
    exact ⟨congrArg Prod.fst hm, by rw [hm]⟩

theorem finishes_vectors {op : VectorOp} {u : Unit} :
    Finishes (vectors op : StoreProgram τ Unit) t w u t' w' ↔
      t' = t ∧ ∃ v, op.eval w.vectors = (.ok (), v) ∧ w' = { w with vectors := v } := by
  refine finishes_perform.trans (and_congr_right fun _ => ?_)
  simp only [StoreOp.eval, Prod.mk.injEq]
  constructor
  · rintro ⟨hresult, hw'⟩
    refine ⟨(op.eval w.vectors).2, Prod.ext ?_ rfl, hw'.symm⟩
    cases hr : (op.eval w.vectors).1 with
    | ok x => rfl
    | error e => simp [hr, Except.map] at hresult
  · rintro ⟨v, hv, rfl⟩
    rw [hv]
    simp [Except.map]

@[simp] theorem finishes_parents {op : ParentOp} {u : Unit} :
    Finishes (parents op : StoreProgram τ Unit) t w u t' w' ↔
      t' = t ∧ w' = { w with parents := op.eval w.parents } := by
  refine finishes_perform.trans (and_congr_right fun _ => ?_)
  simp only [StoreOp.eval, Prod.mk.injEq]
  constructor
  · rintro ⟨-, hw'⟩
    exact hw'.symm
  · rintro rfl
    exact ⟨trivial, rfl⟩

theorem ends_tryRead {view : World → Except PyError α} {r : Except PyError α}
    (h : (tryRead view : StoreProgram τ α).Ends StoreOp.Outcome t w r t' w') : w' = w :=
  (ends_perform.mp h).2.read.1

theorem ends_raise {e : PyError} {r : Except PyError α}
    (h : (raise e : StoreProgram τ α).Ends StoreOp.Outcome t w r t' w') : w' = w := by
  rcases (ends_perform.mp h).2.state with rfl | rfl <;> rfl

section Raising

variable {E : PyError → Prop}

theorem reads_tryRead {view : World → Except PyError α} :
    Reads StoreOp.Outcome (tryRead view : StoreProgram τ α) := fun _ _ _ _ _ h => ends_tryRead h

theorem reads_read {view : World → α} :
    Reads StoreOp.Outcome (read view : StoreProgram τ α) := fun _ _ _ _ _ h => ends_tryRead h

theorem reads_raise {e : PyError} : Reads StoreOp.Outcome (raise e : StoreProgram τ α) :=
  fun _ _ _ _ _ h => ends_raise h

theorem spares_read {view : World → α} (hfault : ¬E .fault) :
    Spares StoreOp.Outcome E (read view : StoreProgram τ α) := by
  apply spares_perform
  rintro w e w' (heval | ⟨he, -⟩)
  · simp [StoreOp.eval] at heval
  · obtain rfl := Except.error.inj he
    exact hfault

theorem spares_metadata {op : MetadataOp α} (hfault : ¬E .fault)
    (hop : ∀ now s e m, op.eval now s = (.error e, m) → ¬E e) :
    Spares StoreOp.Outcome E (metadata op : StoreProgram τ α) := by
  apply spares_perform
  rintro w e w' (heval | ⟨he, -⟩)
  · simp only [StoreOp.eval, Prod.mk.injEq] at heval
    exact hop w.clock w.metadata e _ (Prod.ext heval.1.symm rfl)
  · obtain rfl := Except.error.inj he
    exact hfault

theorem spares_upsert {name : String} {batch : List Point} (hfault : ¬E .fault)
    (hmissing : ¬E (.collectionNotFound name)) :
    Spares StoreOp.Outcome E (vectors (.upsert name batch) : StoreProgram τ Unit) := by
  apply spares_perform
  rintro w e w' (heval | ⟨he, -⟩)
  · simp only [StoreOp.eval, Prod.mk.injEq] at heval
    have hresult : .error e = (VectorStore.upsert name batch w.vectors).1.map id := heval.1
    cases hupsert : VectorStore.upsert name batch w.vectors with
    | mk r v =>
      cases r with
      | ok done => simp [hupsert, Except.map] at hresult
      | error e' =>
        simp only [hupsert, Except.map, Except.error.injEq] at hresult
        subst hresult
        unfold VectorStore.upsert at hupsert
        rw [Routine.ite_apply] at hupsert
        split at hupsert
        · exact absurd (congrArg Prod.fst hupsert) (by simp)
        · rcases VectorStore.modifyCollection_cases hupsert with ⟨_, -, hok, -⟩ | ⟨-, herr, -⟩
          · simp at hok
          · obtain rfl := Except.error.inj herr
            exact hmissing
  · obtain rfl := Except.error.inj he
    exact hfault

theorem spares_parents {op : ParentOp} (hfault : ¬E .fault) :
    Spares StoreOp.Outcome E (parents op : StoreProgram τ Unit) := by
  apply spares_perform
  rintro w e w' (heval | ⟨he, -⟩)
  · simp [StoreOp.eval] at heval
  · obtain rfl := Except.error.inj he
    exact hfault

/-- A method that rolls back when it raises. -/
theorem unmoved_metadata {op : MetadataOp α} (hfault : ¬E .fault)
    (hop : ∀ now s e m, op.eval now s = (.error e, m) → m = s) :
    Unmoved StoreOp.Outcome E (metadata op : StoreProgram τ α) := by
  intro t w e t' w' hends he
  rcases (ends_perform.mp hends).2 with heval | ⟨herr, -⟩
  · simp only [StoreOp.eval, Prod.mk.injEq] at heval
    have hkept := hop w.clock w.metadata e _ (Prod.ext heval.1.symm rfl)
    exact heval.2.trans (congrArg (fun m => { w with metadata := m }) hkept)
  · obtain rfl := Except.error.inj herr
    exact absurd he hfault

end Raising

/-- A call that is seen to return when it is computed without faults. -/
theorem finishes_exec {m : StoreProgram τ α} (h : ((m t).exec StoreOp.eval w).1.1 = .ok a) :
    Finishes m t w a ((m t).exec StoreOp.eval w).1.2 ((m t).exec StoreOp.eval w).2 :=
  completes_exec (fun _ _ => Or.inl rfl) h

end StoreProgram

namespace VectorStore

/-- The points of a collection, none if it does not exist. -/
def points (vectors : VectorStore) (name : String) : List Point := (vectors name).getD []

/-- The collections with a batch stored in one of them. -/
def upserted (name : String) (batch : List Point) (v : VectorStore) : VectorStore :=
  Function.update v name ((v name).map fun points => batch.foldl upsertPoint points)

theorem upserted_nil (name : String) (v : VectorStore) : upserted name [] v = v := by
  unfold upserted
  simp

theorem upserted_append (name : String) (first second : List Point) (v : VectorStore) :
    upserted name second (upserted name first v) = upserted name (first ++ second) v := by
  unfold upserted
  simp only [Function.update_self, Function.update_idem, Option.map_map, Function.comp_def,
    List.foldl_append]

/-- Sending a batch again changes nothing. -/
theorem upserted_upserted (name : String) (batch : List Point) (v : VectorStore) :
    upserted name batch (upserted name batch v) = upserted name batch v := by
  unfold upserted
  simp only [Function.update_self, Function.update_idem, Option.map_map, Function.comp_def,
    upsertPoint_eq, Table.upsertAll_upsertAll]

theorem upsert_eq {name : String} {batch : List Point} {v v' : VectorStore}
    (h : upsert name batch v = (.ok (), v')) : v' = upserted name batch v := by
  unfold upsert at h
  rw [Routine.ite_apply] at h
  split at h
  · rename_i hempty
    obtain ⟨-, rfl⟩ := Prod.mk.inj h
    rw [List.isEmpty_iff.mp hempty, upserted_nil]
  · rcases modifyCollection_cases h with ⟨found, hfound, -, rfl⟩ | ⟨-, herr, -⟩
    · simp only [upserted, hfound, Option.map_some]
    · simp at herr

/-- A batch that was sent is stored in its collection, which exists. -/
theorem upsert_ok {name : String} {batch : List Point} {v v' : VectorStore}
    (h : upsert name batch v = (.ok (), v')) :
    v'.points name = batch.foldl upsertPoint (v.points name) ∧
      ∀ other ≠ name, v' other = v other := by
  unfold upsert at h
  rw [Routine.ite_apply] at h
  split at h
  · rename_i hempty
    obtain ⟨-, rfl⟩ := Prod.mk.inj h
    rw [List.isEmpty_iff.mp hempty]
    exact ⟨rfl, fun _ _ => rfl⟩
  · rcases modifyCollection_cases h with ⟨found, hfound, -, rfl⟩ | ⟨-, herr, -⟩
    · refine ⟨?_, fun other hother => Function.update_of_ne hother _ _⟩
      simp only [points, Function.update_self, hfound, Option.getD_some]
    · simp at herr

end VectorStore

namespace ParentStore

theorem put_eq (parents : ParentStore) (chunk : ParentChunk) :
    put chunk parents = Table.upsert (fun parent : ParentChunk => parent.parentId) parents chunk :=
  rfl

/-- A parent that was put is the one found under its id. -/
theorem get_put {parents : ParentStore} {chunk : ParentChunk} {parentId : String} :
    (put chunk parents).get parentId =
      if chunk.parentId = parentId then some chunk else parents.get parentId :=
  Table.selectOne_upsert

theorem get_deprecateParent {parents : ParentStore} {deprecated parentId : String} :
    (deprecateParent deprecated parents).get parentId =
      (parents.get parentId).map fun chunk =>
        if parentId = deprecated then setLifecycle .inactive true chunk else chunk := by
  unfold deprecateParent ParentStore.get
  rw [Table.selectOne_update]
  · cases hfound : Table.selectOne (hasId parentId) parents with
    | none => rfl
    | some found =>
      have hsame := (Table.selectOne_some hfound).2
      simp only [hasId, decide_eq_true_eq] at hsame
      simp only [Option.map_some, hasId, hsame, decide_eq_true_eq]
  · intro row _
    split <;> rfl

end ParentStore

namespace MetadataStore

theorem upsertChunkRecord_ok {chunk : ChunkRecord} {s s' : MetadataStore}
    (h : upsertChunkRecord chunk s = (.ok (), s')) :
    s' = { s with chunks := Table.upsert (fun row => row.chunkId) s.chunks chunk } := by
  unfold upsertChunkRecord at h
  split at h
  · unfold Table.upsert
    split at h
    · rename_i hexists
      rw [if_pos hexists]
      exact (Prod.mk.inj h).2.symm
    · rename_i hfresh
      rw [if_neg hfresh]
      exact (Prod.mk.inj h).2.symm
  · simp at h

/-- A marker that was written is done; the other markers stay. -/
theorem markStep_done {jobId : String} {name : Step} {s s' : MetadataStore}
    (h : markStep jobId name "done" s = (.ok (), s')) :
    s' = { s with steps := s'.steps } ∧ ∀ otherJob other, s'.isStepDone otherJob other =
      (s.isStepDone otherJob other || decide (otherJob = jobId ∧ other = name)) := by
  unfold markStep at h
  simp only at h
  split at h
  · rename_i hexists
    obtain ⟨-, rfl⟩ := Prod.mk.inj h
    refine ⟨rfl, fun otherJob other => ?_⟩
    rw [Bool.eq_iff_iff]
    simp only [isStepDone, List.any_eq_true, Bool.or_eq_true, decide_eq_true_eq, Table.mem_update]
    obtain ⟨old, hold, hsame⟩ := List.any_eq_true.mp hexists
    simp only [decide_eq_true_eq] at hsame
    constructor
    · rintro ⟨row, ⟨before, hbefore, ⟨hjob, hname⟩, rfl⟩ | ⟨hrow, hother⟩, hjob', hname', hdone⟩
      · exact Or.inr ⟨hjob'.symm.trans hjob, hname'.symm.trans hname⟩
      · exact Or.inl ⟨row, hrow, hjob', hname', hdone⟩
    · rintro (⟨row, hrow, hjob', hname', hdone⟩ | ⟨rfl, rfl⟩)
      · by_cases hsame' : row.jobId = jobId ∧ row.stepName = name
        · exact ⟨_, Or.inl ⟨row, hrow, hsame', rfl⟩, hjob', hname', rfl⟩
        · exact ⟨row, Or.inr ⟨hrow, by simpa using hsame'⟩, hjob', hname', hdone⟩
      · exact ⟨_, Or.inl ⟨old, hold, hsame, rfl⟩, hsame.1, hsame.2, rfl⟩
  · split at h
    · obtain ⟨-, rfl⟩ := Prod.mk.inj h
      refine ⟨rfl, fun otherJob other => ?_⟩
      rw [Bool.eq_iff_iff]
      simp only [isStepDone, Table.insert, List.any_append, List.any_cons, List.any_nil,
        Bool.or_false, Bool.or_eq_true, decide_eq_true_eq, and_true, eq_comm (a := jobId),
        eq_comm (a := name)]
    · simp at h

end MetadataStore

/-- Folding over one field of the stores. -/
theorem foldl_parents {ι : Type} (f : ι → ParentStore → ParentStore) (xs : List ι) (w : World) :
    xs.foldl (fun w x => { w with parents := f x w.parents }) w =
      { w with parents := xs.foldl (fun parents x => f x parents) w.parents } := by
  induction xs generalizing w with
  | nil => rfl
  | cons x xs ih => exact ih _

theorem foldl_chunks (xs : List ChunkRecord) (w : World) :
    xs.foldl (fun w row => { w with metadata := { w.metadata with
        chunks := Table.upsert (fun row => row.chunkId) w.metadata.chunks row } }) w =
      { w with metadata := { w.metadata with
        chunks := xs.foldl (Table.upsert fun row => row.chunkId) w.metadata.chunks } } := by
  induction xs generalizing w with
  | nil => rfl
  | cons x xs ih => exact ih _

end AgenticRag
