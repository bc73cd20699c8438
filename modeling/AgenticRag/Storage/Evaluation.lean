import AgenticRag.Foundations.Execution
import AgenticRag.Storage.Completions

/-!
# Accesses without faults

What a method does when every access to the stores takes place and nobody else has access
to them: one rule per access.
-/

namespace AgenticRag

open StoreProgram Method

variable {τ α β : Type} {G : World → World → Prop} {t t' : τ} {w w' : World} {a : α} {b : β}

theorem returns_read (view : World → α) :
    Returns StoreOp.eval (read view : StoreProgram τ α) t w (view w) t w := rfl

theorem returns_read_bind {view : World → α} {f : α → StoreProgram τ β}
    (h : Returns StoreOp.eval (f (view w)) t w b t' w') :
    Returns StoreOp.eval (read view >>= f) t w b t' w' :=
  (returns_read view).bind h

theorem returns_tryRead {view : World → Except PyError α} (h : view w = .ok a) :
    Returns StoreOp.eval (tryRead view : StoreProgram τ α) t w a t w :=
  returns_perform (Prod.ext h rfl)

theorem returns_metadata {op : MetadataOp α} {m : MetadataStore}
    (h : op.eval w.clock w.metadata = (.ok a, m)) :
    Returns StoreOp.eval (metadata op : StoreProgram τ α) t w a t { w with metadata := m } := by
  apply returns_perform
  simp only [StoreOp.eval, h]

theorem returns_vectors {op : VectorOp} {v : VectorStore} (h : op.eval w.vectors = (.ok (), v)) :
    Returns StoreOp.eval (vectors op : StoreProgram τ Unit) t w () t { w with vectors := v } := by
  apply returns_perform
  simp only [StoreOp.eval, h]
  rfl

theorem returns_parents (op : ParentOp) :
    Returns StoreOp.eval (parents op : StoreProgram τ Unit) t w () t
      { w with parents := op.eval w.parents } :=
  returns_perform rfl

/-- A run without faults is one of the runs there are. -/
theorem finishes_of_returns {m : StoreProgram τ α} (h : Returns StoreOp.eval m t w a t' w') :
    Finishes m t w a t' w' := by
  unfold Returns at h
  have hrun := @finishes_exec _ _ t w a m (by rw [h])
  rwa [h] at hrun

end AgenticRag
