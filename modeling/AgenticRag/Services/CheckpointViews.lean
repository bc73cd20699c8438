import AgenticRag.Foundations.TwoRuns
import AgenticRag.Services.ChatWorld
import AgenticRag.Services.LoopOperations

/-!
# Views of checkpoints

A view takes something away from a checkpoint and keeps what the store looks at: its run, its
identity, its round and its status. Stores with the same view then answer every operation of a
run with the same, and have the same view afterwards.
-/

namespace AgenticRag

open Method CheckpointTable

structure CheckpointView where
  view : RunCheckpoint → RunCheckpoint
  runId : ∀ ck, (view ck).runId = ck.runId
  identity : ∀ ck, (view ck).identity = ck.identity
  roundIndex : ∀ ck, (view ck).roundIndex = ck.roundIndex
  status : ∀ ck status, view { ck with status := status } = { view ck with status := status }

namespace CheckpointView

def row (v : CheckpointView) (row : CheckpointRow) : CheckpointRow :=
  { row with state := v.view row.state }

/-- The checkpoints are viewed; calls and findings stay. -/
def stores (v : CheckpointView) (s : ChatStores) : ChatStores :=
  { s with checkpoints := s.checkpoints.map v.row }

variable {v : CheckpointView} {rows : CheckpointTable} {ck ck' : RunCheckpoint} {runId : String}
  {status : CheckpointStatus} {s s' : ChatStores} {W : ChatWorld}

theorem selectOne_viewed : Table.selectOne (ofRun runId) (rows.map v.row) =
    (Table.selectOne (ofRun runId) rows).map v.row :=
  Table.selectOne_map fun _ => rfl

/-- An update that the view does not disturb. -/
theorem update_viewed {p : CheckpointRow → Bool} {f g : CheckpointRow → CheckpointRow}
    (hp : ∀ row, p (v.row row) = p row) (hf : ∀ row, f (v.row row) = v.row (g row)) :
    Table.update p f (rows.map v.row) = (Table.update p g rows).map v.row := by
  unfold Table.update
  rw [List.map_map, List.map_map]
  apply List.map_congr_left
  intro row _
  simp only [Function.comp_apply, hp]
  split
  · exact hf row
  · rfl

theorem setStatus_viewed :
    setStatus (rows.map v.row) runId status = (setStatus rows runId status).map v.row :=
  update_viewed (fun _ => rfl) fun _ => rfl

/-- The view of a checkpoint is saved as the checkpoint itself is. -/
theorem saveRunCheckpoint_viewed (rows : CheckpointTable) (ck : RunCheckpoint) :
    saveRunCheckpoint (rows.map v.row) (v.view ck) =
      ((saveRunCheckpoint rows ck).1, (saveRunCheckpoint rows ck).2.map v.row) := by
  unfold saveRunCheckpoint
  rw [v.runId, v.identity, v.roundIndex, selectOne_viewed]
  cases Table.selectOne (ofRun ck.runId) rows with
  | none =>
    simp only [Option.map_none, Table.insert, List.map_append]
    rfl
  | some row =>
    have hidentity : ((v.row row).identity ≠ ck.identity) = (row.identity ≠ ck.identity) := rfl
    simp only [Option.map_some, hidentity]
    split
    · rfl
    · exact congrArg (Prod.mk _) (update_viewed (fun _ => rfl) fun _ => rfl)

theorem consistent_viewed (row : CheckpointRow) : Consistent (v.row row) ↔ Consistent row := by
  obtain ⟨htenant, huser, hsession, -, hcorpus, hpolicy⟩ := RunIdentity.mk.inj (v.identity row.state)
  unfold Consistent CheckpointView.row
  dsimp only
  rw [v.runId, htenant, huser, hsession, hcorpus, hpolicy]

theorem loadRunCheckpoint_viewed : loadRunCheckpoint (rows.map v.row) runId =
    (loadRunCheckpoint rows runId).map v.view := by
  unfold loadRunCheckpoint
  rw [selectOne_viewed]
  cases Table.selectOne (ofRun runId) rows with
  | none => rfl
  | some row =>
    simp only [Option.map_some, consistent_viewed]
    split
    · exact congrArg some (v.status row.state row.status).symm
    · rfl

/-- What stores with the same view have in common. -/
theorem stores_eq (h : v.stores s = v.stores s') :
    s.calls = s'.calls ∧ s.findings = s'.findings ∧
      s.checkpoints.map v.row = s'.checkpoints.map v.row := by
  obtain ⟨hcalls, hrows, hfindings⟩ := ChatStores.mk.inj h
  exact ⟨hcalls, hfindings, hrows⟩

/-- The loaded checkpoints have the same view as well. -/
theorem loaded_eq (h : v.stores s = v.stores s') (runId : String) :
    (loadRunCheckpoint s.checkpoints runId).map v.view = (loadRunCheckpoint s'.checkpoints runId).map v.view := by
  rw [← loadRunCheckpoint_viewed, (stores_eq h).2.2, loadRunCheckpoint_viewed]

/-- Saves of checkpoints with the same view have the same outcome. -/
theorem save_alike (hck : v.view ck = v.view ck') (h : v.stores s = v.stores s') :
    (W.eval (.saveRunCheckpoint ck) s).1 = (W.eval (.saveRunCheckpoint ck') s').1 ∧
      v.stores (W.eval (.saveRunCheckpoint ck) s).2 = v.stores (W.eval (.saveRunCheckpoint ck') s').2 := by
  obtain ⟨hcalls, hfindings, hrows⟩ := stores_eq h
  have hsave : saveRunCheckpoint (s.checkpoints.map v.row) (v.view ck) = _ :=
    saveRunCheckpoint_viewed s.checkpoints ck
  rw [hrows, hck, saveRunCheckpoint_viewed] at hsave
  obtain ⟨houtcome, hafter⟩ := Prod.mk.inj hsave
  refine ⟨houtcome.symm, ?_⟩
  simp only [stores, ChatWorld.eval, hcalls, hfindings, hafter]

/-- Stores with the same view answer every operation of a run with the same. -/
theorem answers_alike {β : Type} (op : ChatOp β) (hop : op.OfRun fun _ => True) (s s' : ChatStores)
    (h : v.stores s = v.stores s') :
    (W.eval op s).1 = (W.eval op s').1 ∧ v.stores (W.eval op s).2 = v.stores (W.eval op s').2 := by
  obtain ⟨hcalls, hfindings, hrows⟩ := stores_eq h
  have hmark (runId : String) (status : CheckpointStatus) :
      (setStatus s.checkpoints runId status).map v.row = (setStatus s'.checkpoints runId status).map v.row := by
    rw [← setStatus_viewed, hrows, setStatus_viewed]
  cases op with
  | loadRunCheckpoint runId => exact hop.elim
  | saveRunCheckpoint ck => exact save_alike rfl h
  | markRunCheckpointDone runId =>
    simp only [ChatWorld.eval, stores, markRunCheckpointDone, hcalls, hfindings, hmark, true_and]
  | markRunCheckpointRunning runId =>
    simp only [ChatWorld.eval, stores, markRunCheckpointRunning, hcalls, hfindings, hmark, true_and]
  | _ => simp only [ChatWorld.eval, stores, hcalls, hfindings, hrows, and_self]

/-- From attributes related by `P` the methods end alike, wherever the stores have the same
view. -/
abbrev Alike (v : CheckpointView) (W : ChatWorld) {α β : Type} (P : IterationState → IterationState → Prop)
    (Q : α → IterationState → β → IterationState → Prop) (m : ChatMethod α) (n : ChatMethod β) : Prop :=
  Method.Alike W.eval (fun s s' => v.stores s = v.stores s') P Q m n

theorem alike_of_serving {α : Type} {m : ChatMethod α} (hm : Serving (fun _ => True) m) :
    v.Alike W Eq Same m m :=
  Alike.of_uses answers_alike hm

/-- Both calls end in agreement, in stores with the same view. -/
def Ends (v : CheckpointView) {α β : Type} (Q : α → IterationState → β → IterationState → Prop)
    (x : (Except ChatError α × IterationState) × ChatStores) (y : (Except ChatError β × IterationState) × ChatStores) :
    Prop :=
  Agree Q x.1 y.1 ∧ v.stores x.2 = v.stores y.2

theorem Ends.bind {α β γ δ : Type} {Q : α → IterationState → β → IterationState → Prop}
    {Q' : γ → IterationState → δ → IterationState → Prop} {m : ChatMethod α} {n : ChatMethod β}
    {f : α → ChatMethod γ} {g : β → ChatMethod δ} {t t' : IterationState}
    (h : v.Ends Q ((m t).exec W.eval s) ((n t').exec W.eval s'))
    (hf : ∀ a c, v.Alike W (fun t t' => Q a t c t') Q' (f a) (g c)) :
    v.Ends Q' (((m >>= f) t).exec W.eval s) (((n >>= g) t').exec W.eval s') :=
  bind_agree (R := fun s s' => v.stores s = v.stores s') h hf

end CheckpointView

end AgenticRag
