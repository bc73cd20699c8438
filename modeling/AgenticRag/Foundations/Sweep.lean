import AgenticRag.Foundations.Execution
import AgenticRag.Foundations.Table

/-!
# Sweeping a table

A sweep scans a copy of the rows and repairs the stored ones as it goes. With unique keys the
stored row of the scanned one is the one at its place, so a sweep that removes or rewrites single
rows is a filter and a map of the table; and a sweep that finds nothing to repair changes nothing.
-/

namespace AgenticRag

namespace Table

variable {ρ κ : Type} {key : ρ → κ} {before after : List ρ} {row : ρ}

/-- The rows around one have other keys. -/
theorem KeyUnique.around (h : KeyUnique key (before ++ row :: after)) :
    ∀ other ∈ before ++ after, key other ≠ key row := by
  intro other hother hsame
  have hnodup := h
  simp only [KeyUnique, List.map_append, List.map_cons] at hnodup
  apply (List.nodup_middle.mp hnodup).notMem
  rw [← hsame, ← List.map_append]
  exact List.mem_map_of_mem hother

/-- Of rows that are dropped or keep their keys, the keys that are left are in order. -/
theorem keys_filterMap {f : ρ → Option ρ} (hf : ∀ row new, f row = some new → key new = key row) (rows : List ρ) :
    ((rows.filterMap f).map key).Sublist (rows.map key) := by
  induction rows with
  | nil => exact List.Sublist.refl _
  | cons row rows ih =>
    cases hrow : f row with
    | none =>
      rw [List.filterMap_cons_none hrow]
      exact ih.cons _
    | some new =>
      rw [List.filterMap_cons_some hrow, List.map_cons, List.map_cons, hf row new hrow]
      exact ih.cons_cons _

theorem KeyUnique.filterMap {rows : List ρ} {f : ρ → Option ρ} (h : KeyUnique key rows)
    (hf : ∀ row new, f row = some new → key new = key row) : KeyUnique key (rows.filterMap f) :=
  List.Nodup.sublist (keys_filterMap hf rows) h

variable [DecidableEq κ]

theorem delete_of_around {rows : List ρ} {k : κ} (h : ∀ other ∈ rows, key other ≠ k) :
    delete (fun other => decide (key other = k)) rows = rows := by
  apply List.filter_eq_self.mpr
  intro other hother
  simp [h other hother]

theorem update_of_around {rows : List ρ} {k : κ} {f : ρ → ρ} (h : ∀ other ∈ rows, key other ≠ k) :
    update (fun other => decide (key other = k)) f rows = rows := by
  unfold update
  conv_rhs => rw [← List.map_id rows]
  apply List.map_congr_left
  intro other hother
  simp [h other hother]

/-- A row is removed from its place. -/
theorem KeyUnique.delete_middle (h : KeyUnique key (before ++ row :: after)) :
    Table.delete (fun other => decide (key other = key row)) (before ++ row :: after) = before ++ after := by
  have haround := h.around
  have hbefore := @delete_of_around _ _ key _ before (key row) fun other hother =>
    haround other (List.mem_append_left _ hother)
  have hafter := @delete_of_around _ _ key _ after (key row) fun other hother =>
    haround other (List.mem_append_right _ hother)
  unfold Table.delete at hbefore hafter ⊢
  rw [List.filter_append, List.filter_cons_of_neg (by simp), hbefore, hafter]

/-- A row is rewritten at its place. -/
theorem KeyUnique.update_middle (h : KeyUnique key (before ++ row :: after)) (f : ρ → ρ) :
    Table.update (fun other => decide (key other = key row)) f (before ++ row :: after) =
      before ++ f row :: after := by
  have haround := h.around
  have hbefore := @update_of_around _ _ key _ before (key row) f fun other hother =>
    haround other (List.mem_append_left _ hother)
  have hafter := @update_of_around _ _ key _ after (key row) f fun other hother =>
    haround other (List.mem_append_right _ hother)
  unfold Table.update at hbefore hafter ⊢
  rw [List.map_append, List.map_cons, hbefore, hafter]
  simp

/-- The scanned row is found under its key. -/
theorem KeyUnique.selectOne_middle (h : KeyUnique key (before ++ row :: after)) :
    selectOne (fun other => decide (key other = key row)) (before ++ row :: after) = some row :=
  selectOne_of_key h (List.mem_append_right before List.mem_cons_self)

end Table

namespace Method

variable {Op : Type → Type} {ε τ α β σ : Type} {eval : ∀ {β : Type}, Op β → σ → Except ε β × σ} {t : τ} {s : σ}
  {xs : List α}

/-- A loop each of whose iterations returns and passes the invariant on to the remaining elements. -/
theorem returns_collect {J : List α → σ → Prop} {body : α → Method Op ε τ (List β)}
    (hbody : ∀ x xs s, J (x :: xs) s → ∃ bs s', Returns eval (body x) t s bs t s' ∧ J xs s') (hs : J xs s) :
    ∃ bs s', Returns eval (collect xs body) t s bs t s' ∧ J [] s' := by
  induction xs generalizing s with
  | nil => exact ⟨[], s, returns_pure, hs⟩
  | cons x xs ih =>
    obtain ⟨here, s', hfirst, hnext⟩ := hbody x xs s hs
    obtain ⟨rest, s'', hrest, hlast⟩ := ih hnext
    exact ⟨here ++ rest, s'', hfirst.bind (hrest.bind returns_pure), hlast⟩

/-- A loop whose iterations find nothing and change nothing. -/
theorem returns_collect_nil {body : α → Method Op ε τ (List β)}
    (hbody : ∀ x ∈ xs, Returns eval (body x) t s [] t s) : Returns eval (collect xs body) t s [] t s := by
  induction xs with
  | nil => exact returns_pure
  | cons x xs ih =>
    have hrest := ih fun y hy => hbody y (List.mem_cons_of_mem _ hy)
    exact (hbody x List.mem_cons_self).bind (hrest.bind returns_pure)

end Method

end AgenticRag
