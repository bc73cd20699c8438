import Mathlib.Data.List.MinMax
import Mathlib.Data.List.Nodup
import Mathlib.Data.List.Perm.Basic
import Mathlib.Tactic

/-!
# Tables of rows

A relational table is a list of rows in insertion order. The four statements a
store issues (`SELECT`, `INSERT`, `UPDATE`, `DELETE`) are the list operations
below; a primary key is a projection whose values are pairwise distinct. Nothing
here depends on what the rows are.
-/

namespace AgenticRag.Table

variable {ρ κ : Type*}

/-- `UPDATE … SET f WHERE p`: rows keep their position. -/
def update (p : ρ → Bool) (f : ρ → ρ) (rows : List ρ) : List ρ :=
  rows.map fun row => if p row then f row else row

/-- `DELETE … WHERE p`. -/
def delete (p : ρ → Bool) (rows : List ρ) : List ρ :=
  rows.filter fun row => !p row

/-- `SELECT … WHERE p` followed by `fetchone`. -/
def selectOne (p : ρ → Bool) (rows : List ρ) : Option ρ :=
  rows.find? p

/-- `SELECT … WHERE p`. -/
def select (p : ρ → Bool) (rows : List ρ) : List ρ :=
  rows.filter p

/-- `SELECT … WHERE p` along an index, followed by `fetchone`: of the selected rows the one with
the least value of the indexed column. -/
def selectFirst [Preorder κ] [DecidableLT κ] (column : ρ → κ) (p : ρ → Bool) (rows : List ρ) :
    Option ρ :=
  (select p rows).argmin column

/-- `INSERT`: a new row goes to the end. -/
def insert (row : ρ) (rows : List ρ) : List ρ :=
  rows ++ [row]

/-- `SELECT MAX(f) … WHERE p`, with 0 for the empty selection. -/
def maximum (p : ρ → Bool) (f : ρ → Nat) (rows : List ρ) : Nat :=
  ((select p rows).map f).foldr max 0

/-- The rows have pairwise distinct keys. -/
def KeyUnique (key : ρ → κ) (rows : List ρ) : Prop :=
  (rows.map key).Nodup

/-- `INSERT … ON CONFLICT (key) DO UPDATE`: the new row replaces those with its key, or is
added. -/
def upsert [DecidableEq κ] (key : ρ → κ) (rows : List ρ) (row : ρ) : List ρ :=
  if rows.any (fun old => decide (key old = key row)) then
    update (fun old => decide (key old = key row)) (fun _ => row) rows
  else
    insert row rows

section Membership

theorem mem_update {p : ρ → Bool} {f : ρ → ρ} {rows : List ρ} {row : ρ} :
    row ∈ update p f rows ↔
      (∃ old ∈ rows, p old = true ∧ row = f old) ∨ (row ∈ rows ∧ p row = false) := by
  constructor
  · intro member
    obtain ⟨old, hold, heq⟩ := List.mem_map.mp member
    by_cases hp : p old = true
    · left
      exact ⟨old, hold, hp, by simpa [hp] using heq.symm⟩
    · right
      have hsame : old = row := by simpa [hp] using heq
      subst hsame
      exact ⟨hold, by simpa using hp⟩
  · rintro (⟨old, hold, hp, rfl⟩ | ⟨hmem, hp⟩)
    · exact List.mem_map.mpr ⟨old, hold, by simp [hp]⟩
    · exact List.mem_map.mpr ⟨row, hmem, by simp [hp]⟩

@[simp] theorem mem_delete {p : ρ → Bool} {rows : List ρ} {row : ρ} :
    row ∈ delete p rows ↔ row ∈ rows ∧ p row = false := by
  simp [delete]

@[simp] theorem mem_select {p : ρ → Bool} {rows : List ρ} {row : ρ} :
    row ∈ select p rows ↔ row ∈ rows ∧ p row = true := by
  simp [select]

@[simp] theorem mem_insert {new row : ρ} {rows : List ρ} :
    row ∈ insert new rows ↔ row ∈ rows ∨ row = new := by
  simp [insert]

section Disjoint

variable {p q : ρ → Bool} {f : ρ → ρ} {rows : List ρ}

/-- An update of other rows leaves a selection as it is. -/
theorem select_update_disjoint (h : ∀ row ∈ rows, q row = true → p row = false ∧ p (f row) = false) :
    select p (update q f rows) = select p rows := by
  induction rows with
  | nil => rfl
  | cons row rows ih =>
    have hrest := ih fun other hother => h other (List.mem_cons_of_mem row hother)
    unfold select update at hrest ⊢
    rw [List.map_cons, List.filter_cons, List.filter_cons, hrest]
    cases hq : q row with
    | false => simp
    | true =>
      obtain ⟨hold, hnew⟩ := h row List.mem_cons_self hq
      simp [hold, hnew]

/-- A deletion of other rows leaves a selection as it is. -/
theorem select_delete_disjoint (h : ∀ row ∈ rows, q row = true → p row = false) :
    select p (delete q rows) = select p rows := by
  unfold select delete
  rw [List.filter_filter]
  refine List.filter_congr fun row hrow => ?_
  cases hq : q row with
  | false => simp
  | true => simp [h row hrow hq]

theorem select_insert_disjoint {new : ρ} (h : p new = false) : select p (insert new rows) = select p rows := by
  simp [select, insert, List.filter_append, h]

/-- A new row with a key of its own leaves a selection as it is. -/
theorem select_upsert_disjoint [DecidableEq κ] (key : ρ → κ) {new : ρ} (hnew : p new = false)
    (hkey : ∀ row ∈ select p rows, key row ≠ key new) : select p (upsert key rows new) = select p rows := by
  unfold upsert
  split
  · apply select_update_disjoint
    intro row hrow hsame
    refine ⟨?_, hnew⟩
    by_contra hp
    exact hkey row (mem_select.mpr ⟨hrow, by simpa using hp⟩) (of_decide_eq_true hsame)
  · exact select_insert_disjoint hnew

/-- The same for a batch of new rows. -/
theorem select_upsertAll_disjoint [DecidableEq κ] (key : ρ → κ) {batch : List ρ}
    (hnew : ∀ new ∈ batch, p new = false)
    (hkey : ∀ new ∈ batch, ∀ row ∈ select p rows, key row ≠ key new) :
    select p (batch.foldl (upsert key) rows) = select p rows := by
  induction batch generalizing rows with
  | nil => rfl
  | cons new batch ih =>
    have hfirst : select p (upsert key rows new) = select p rows :=
      select_upsert_disjoint key (hnew new List.mem_cons_self) (hkey new List.mem_cons_self)
    rw [List.foldl_cons, ih, hfirst]
    · exact fun other hother => hnew other (List.mem_cons_of_mem new hother)
    · intro other hother
      rw [hfirst]
      exact hkey other (List.mem_cons_of_mem new hother)

end Disjoint

theorem selectOne_some {p : ρ → Bool} {rows : List ρ} {row : ρ}
    (h : selectOne p rows = some row) : row ∈ rows ∧ p row = true :=
  ⟨List.mem_of_find?_eq_some h, List.find?_some h⟩

theorem selectOne_none {p : ρ → Bool} {rows : List ρ} :
    selectOne p rows = none ↔ ∀ row ∈ rows, p row = false := by
  simp [selectOne, List.find?_eq_none]

variable [DecidableEq κ] {key : ρ → κ}

theorem mem_upsert {rows : List ρ} {new row : ρ} :
    row ∈ upsert key rows new ↔ row = new ∨ (row ∈ rows ∧ key row ≠ key new) := by
  unfold upsert
  split
  · rename_i hexists
    obtain ⟨old, hold, hkey⟩ := List.any_eq_true.mp hexists
    simp only [mem_update, decide_eq_true_eq, decide_eq_false_iff_not]
    constructor
    · rintro (⟨_, -, -, rfl⟩ | h)
      · exact Or.inl rfl
      · exact Or.inr h
    · rintro (rfl | h)
      · exact Or.inl ⟨old, hold, of_decide_eq_true hkey, rfl⟩
      · exact Or.inr h
  · rename_i hfresh
    simp only [List.any_eq_true, decide_eq_true_eq, not_exists, not_and] at hfresh
    simp only [mem_insert]
    constructor
    · rintro (hmem | rfl)
      · exact Or.inr ⟨hmem, hfresh row hmem⟩
      · exact Or.inl rfl
    · rintro (rfl | ⟨hmem, -⟩)
      · exact Or.inr rfl
      · exact Or.inl hmem

/-- After a batch a key holds the last row of the batch with that key, or what it held
before. -/
theorem mem_upsertAll {batch rows : List ρ} {row : ρ} :
    row ∈ batch.foldl (upsert key) rows ↔
      batch.reverse.find? (fun new => decide (key new = key row)) = some row ∨
        (row ∈ rows ∧ ∀ new ∈ batch, key new ≠ key row) := by
  induction batch using List.reverseRecOn with
  | nil => simp
  | append_singleton batch new ih =>
    rw [List.foldl_append, List.foldl_cons, List.foldl_nil, mem_upsert, ih]
    simp only [List.reverse_append, List.reverse_cons, List.reverse_nil, List.nil_append,
      List.singleton_append, List.find?_cons, List.mem_append, List.mem_singleton]
    by_cases hkey : key new = key row
    · simp only [hkey, decide_true, Option.some.injEq]
      constructor
      · rintro (rfl | ⟨-, hne⟩)
        · exact Or.inl rfl
        · exact absurd rfl hne
      · rintro (rfl | ⟨-, hfresh⟩)
        · exact Or.inl rfl
        · exact absurd hkey (hfresh new (Or.inr rfl))
    · have hne : ¬key row = key new := fun h => hkey h.symm
      have hnew : ¬row = new := fun h => hkey (by rw [h])
      simp only [hkey, decide_false, hnew, false_or, ne_eq, hne, not_false_eq_true, and_true]
      constructor
      · rintro (hlast | ⟨hmem, hfresh⟩)
        · exact Or.inl hlast
        · refine Or.inr ⟨hmem, ?_⟩
          rintro other (hold | rfl)
          · exact hfresh other hold
          · exact hkey
      · rintro (hlast | ⟨hmem, hfresh⟩)
        · exact Or.inl hlast
        · exact Or.inr ⟨hmem, fun other hold => hfresh other (Or.inl hold)⟩

/-- A key of the batch holds a row of the batch. -/
theorem exists_mem_upsertAll {batch rows : List ρ} {new : ρ} (hnew : new ∈ batch) :
    ∃ row ∈ batch, key row = key new ∧ row ∈ batch.foldl (upsert key) rows := by
  have hsome : (batch.reverse.find? fun row => decide (key row = key new)).isSome := by
    rw [List.find?_isSome]
    exact ⟨new, List.mem_reverse.mpr hnew, by simp⟩
  obtain ⟨row, hrow⟩ := Option.isSome_iff_exists.mp hsome
  have hkey : key row = key new := by simpa using List.find?_some hrow
  refine ⟨row, List.mem_reverse.mp (List.mem_of_find?_eq_some hrow), hkey, ?_⟩
  rw [mem_upsertAll, hkey]
  exact Or.inl hrow

/-- A batch in which a key belongs to one row only is stored as it is. -/
theorem mem_upsertAll_of_distinct {batch rows : List ρ} {row : ρ}
    (hbatch : ∀ first ∈ batch, ∀ second ∈ batch, key first = key second → first = second) :
    row ∈ batch.foldl (upsert key) rows ↔
      row ∈ batch ∨ (row ∈ rows ∧ ∀ new ∈ batch, key new ≠ key row) := by
  rw [mem_upsertAll]
  apply or_congr_left
  constructor
  · exact fun hlast => List.mem_reverse.mp (List.mem_of_find?_eq_some hlast)
  · intro hrow
    cases hfound : batch.reverse.find? (fun new => decide (key new = key row)) with
    | none =>
      have hmissing := List.find?_eq_none.mp hfound row (List.mem_reverse.mpr hrow)
      simp at hmissing
    | some found =>
      have hkey : key found = key row := by simpa using List.find?_some hfound
      have hmem : found ∈ batch := List.mem_reverse.mp (List.mem_of_find?_eq_some hfound)
      rw [hbatch found hmem row hrow hkey]

/-- A batch of rows whose keys are all there rewrites the rows in place. -/
theorem upsertAll_known {batch rows : List ρ}
    (hknown : ∀ new ∈ batch, ∃ row ∈ rows, key row = key new) :
    batch.foldl (upsert key) rows =
      rows.map fun row => (batch.reverse.find? fun new => decide (key new = key row)).getD row := by
  induction batch using List.reverseRecOn with
  | nil => simp
  | append_singleton batch new ih =>
    have hkey : ∀ row, key ((batch.reverse.find? fun new => decide (key new = key row)).getD row) =
        key row := by
      intro row
      cases hfound : batch.reverse.find? fun new => decide (key new = key row) with
      | none => rfl
      | some found => simpa using List.find?_some hfound
    rw [List.foldl_append, List.foldl_cons, List.foldl_nil,
      ih fun other hother => hknown other (List.mem_append_left _ hother)]
    obtain ⟨row, hrow, hsame⟩ := hknown new (by simp)
    unfold upsert
    rw [if_pos]
    · rw [update, List.map_map]
      apply List.map_congr_left
      intro row _
      simp only [Function.comp_apply, hkey, List.reverse_append, List.reverse_cons, List.reverse_nil,
        List.nil_append, List.singleton_append, List.find?_cons, decide_eq_true_eq,
        eq_comm (a := key row)]
      split <;> simp_all
    · rw [List.any_eq_true]
      refine ⟨_, List.mem_map_of_mem hrow, ?_⟩
      rw [decide_eq_true_eq]
      exact (hkey row).trans hsame

/-- Sending a batch twice is sending it once. -/
theorem upsertAll_upsertAll (batch rows : List ρ) :
    batch.foldl (upsert key) (batch.foldl (upsert key) rows) = batch.foldl (upsert key) rows := by
  have hknown : ∀ new ∈ batch, ∃ row ∈ batch.foldl (upsert key) rows, key row = key new := by
    intro new hnew
    have hstored : ∃ row ∈ batch, key row = key new ∧ row ∈ batch.foldl (upsert key) rows :=
      exists_mem_upsertAll hnew
    obtain ⟨row, -, hkey, hmem⟩ := hstored
    exact ⟨row, hmem, hkey⟩
  rw [upsertAll_known hknown]
  conv_rhs => rw [← List.map_id (batch.foldl (upsert key) rows)]
  apply List.map_congr_left
  intro row hrow
  rcases mem_upsertAll.mp hrow with hlast | ⟨-, hfresh⟩
  · rw [hlast]
    rfl
  · have hnone : batch.reverse.find? (fun new => decide (key new = key row)) = none := by
      rw [List.find?_eq_none]
      intro new hnew
      simpa using hfresh new (List.mem_reverse.mp hnew)
    rw [hnone]
    rfl

/-- What a batch writes over rows with the keys of the batch does not depend on the rows. -/
theorem upsertAll_of_keys {batch rows : List ρ}
    (hkeys : rows.map key = (batch.foldl (upsert key) []).map key) :
    batch.foldl (upsert key) rows = batch.foldl (upsert key) [] := by
  let written := batch.foldl (upsert key) []
  let last := fun k => batch.reverse.find? fun new => decide (key new = k)
  have hlast : ∀ row ∈ written, last (key row) = some row := by
    intro row hrow
    rcases mem_upsertAll.mp hrow with hlast | ⟨hmem, -⟩
    · exact hlast
    · cases hmem
  have hknown : ∀ new ∈ batch, ∃ row ∈ rows, key row = key new := by
    intro new hnew
    have hstored : ∃ row ∈ batch, key row = key new ∧ row ∈ written := exists_mem_upsertAll hnew
    obtain ⟨row, -, hkey, hmem⟩ := hstored
    have hlisted : key row ∈ rows.map key := hkeys ▸ List.mem_map_of_mem hmem
    obtain ⟨old, hold, hsame⟩ := List.mem_map.mp hlisted
    exact ⟨old, hold, hsame.trans hkey⟩
  have hrewritten : (rows.map fun row => (last (key row)).getD row).map some = rows.map (last ∘ key) := by
    rw [List.map_map]
    apply List.map_congr_left
    intro row hrow
    have hlisted : key row ∈ written.map key := hkeys ▸ List.mem_map_of_mem hrow
    obtain ⟨new, hnew, hsame⟩ := List.mem_map.mp hlisted
    simp only [Function.comp_apply, ← hsame, hlast new hnew, Option.getD_some]
  have hwritten : written.map some = written.map (last ∘ key) := by
    apply List.map_congr_left
    intro row hrow
    exact (hlast row hrow).symm
  rw [upsertAll_known hknown]
  apply List.map_injective_iff.mpr (Option.some_injective ρ)
  rw [hrewritten, hwritten, ← List.map_map, ← List.map_map, hkeys]

end Membership

section Keys

variable {key : ρ → κ}

theorem KeyUnique.eq_of_key {rows : List ρ} (h : KeyUnique key rows) {first second : ρ}
    (hfirst : first ∈ rows) (hsecond : second ∈ rows) (hkey : key first = key second) :
    first = second :=
  List.inj_on_of_nodup_map h hfirst hsecond hkey

theorem KeyUnique.update {p : ρ → Bool} {f : ρ → ρ} {rows : List ρ} (h : KeyUnique key rows)
    (hf : ∀ row ∈ rows, p row = true → key (f row) = key row) :
    KeyUnique key (update p f rows) := by
  have hkeys : (Table.update p f rows).map key = rows.map key := by
    simp only [Table.update, List.map_map]
    apply List.map_congr_left
    intro row hrow
    by_cases hp : p row = true
    · simp [hp, hf row hrow hp]
    · simp [hp]
  unfold KeyUnique
  rw [hkeys]
  exact h

theorem KeyUnique.delete {p : ρ → Bool} {rows : List ρ} (h : KeyUnique key rows) :
    KeyUnique key (delete p rows) :=
  List.Nodup.sublist (List.Sublist.map key List.filter_sublist) h

theorem KeyUnique.insert {new : ρ} {rows : List ρ} (h : KeyUnique key rows)
    (hnew : ∀ row ∈ rows, key row ≠ key new) : KeyUnique key (insert new rows) := by
  unfold KeyUnique Table.insert
  rw [List.map_append, List.nodup_append]
  refine ⟨h, by simp, ?_⟩
  intro k hk k' hk' heq
  obtain ⟨row, hrow, rfl⟩ := List.mem_map.mp hk
  simp only [List.map_cons, List.map_nil, List.mem_singleton] at hk'
  exact hnew row hrow (heq.trans hk')

/-- With a unique key, a lookup by key finds the row it should. -/
theorem selectOne_of_key [DecidableEq κ] {rows : List ρ} (h : KeyUnique key rows) {row : ρ}
    (hrow : row ∈ rows) : selectOne (fun r => decide (key r = key row)) rows = some row := by
  cases hfind : selectOne (fun r => decide (key r = key row)) rows with
  | none =>
    have hno := selectOne_none.mp hfind row hrow
    simp at hno
  | some found =>
    obtain ⟨hmem, hkey⟩ := selectOne_some hfind
    rw [h.eq_of_key hmem hrow (by simpa using hkey)]

end Keys

section Lookup

variable {p q : ρ → Bool} {f : ρ → ρ} {rows : List ρ}

/-- A lookup commutes with an update that keeps the looked-up column. -/
theorem selectOne_update (h : ∀ row ∈ rows, p (if q row then f row else row) = p row) :
    selectOne p (update q f rows) =
      (selectOne p rows).map fun row => if q row then f row else row := by
  induction rows with
  | nil => rfl
  | cons row rows ih =>
    have hhead := h row (by simp)
    have htail := ih fun other hother => h other (by simp [hother])
    simp only [selectOne, update] at htail ⊢
    rw [List.map_cons, List.find?_cons, List.find?_cons, hhead]
    cases p row with
    | true => rfl
    | false => exact htail

theorem selectOne_insert (new : ρ) :
    selectOne p (insert new rows) = (selectOne p rows).or (if p new then some new else none) := by
  simp only [selectOne, insert, List.find?_append, List.find?_singleton]

theorem selectOne_delete_disjoint (h : ∀ row ∈ rows, p row = true → q row = false) :
    selectOne p (delete q rows) = selectOne p rows := by
  simp only [selectOne, delete, List.find?_filter]
  apply List.find?_congr
  intro row hrow
  cases hp : p row with
  | true => simp [h row hrow hp]
  | false => simp

theorem selectOne_delete_covered (h : ∀ row ∈ rows, p row = true → q row = true) :
    selectOne p (delete q rows) = none := by
  rw [selectOne_none]
  intro row hrow
  obtain ⟨hmem, hq⟩ := mem_delete.mp hrow
  by_contra hp
  have hcovered := h row hmem (by simpa using hp)
  simp [hq] at hcovered

/-- The row that a lookup found is found again unless it is deleted. -/
theorem selectOne_delete_kept {row : ρ} (h : selectOne p rows = some row) (hkept : q row = false) :
    selectOne p (delete q rows) = some row := by
  induction rows with
  | nil => simp [selectOne] at h
  | cons first rows ih =>
    simp only [selectOne, delete, List.find?_cons, List.filter_cons] at h ih ⊢
    cases hp : p first with
    | true =>
      obtain rfl : first = row := by simpa [hp] using h
      simp [hkept, hp]
    | false =>
      have hrest := ih (by simpa [hp] using h)
      split
      · simpa [List.find?_cons, hp] using hrest
      · exact hrest

/-- A lookup commutes with a change of the rows that keeps the looked-up column. -/
theorem selectOne_map (h : ∀ row, p (f row) = p row) :
    selectOne p (rows.map f) = (selectOne p rows).map f := by
  have hcolumn : p ∘ f = p := funext h
  unfold selectOne
  rw [List.find?_map, hcolumn]

section Lookup

variable [DecidableEq κ] {key : ρ → κ} {k k₀ : κ} {new : ρ}

/-- A row with a new key is found under it. -/
theorem lookup_insert
    (habsent : selectOne (fun row => decide (key row = key new)) rows = none) :
    selectOne (fun row => decide (key row = k)) (insert new rows) =
      if k = key new then some new else selectOne (fun row => decide (key row = k)) rows := by
  rw [selectOne_insert]
  by_cases hsame : k = key new
  · simp [hsame, habsent]
  · simp [hsame, Ne.symm hsame]

/-- Rows with one key are changed, and keep it. -/
theorem lookup_update (hkey : ∀ row, key row = k₀ → key (f row) = k₀) :
    selectOne (fun row => decide (key row = k)) (update (fun row => decide (key row = k₀)) f rows) =
      if k = k₀ then (selectOne (fun row => decide (key row = k₀)) rows).map f
      else selectOne (fun row => decide (key row = k)) rows := by
  rw [selectOne_update]
  · by_cases hsame : k = k₀
    · subst hsame
      rw [if_pos rfl]
      cases hfound : selectOne (fun row => decide (key row = k)) rows with
      | none => rfl
      | some row =>
        have hcolumn : key row = k := by simpa using (selectOne_some hfound).2
        simp [hcolumn]
    · rw [if_neg hsame]
      cases hfound : selectOne (fun row => decide (key row = k)) rows with
      | none => rfl
      | some row =>
        have hcolumn : key row = k := by simpa using (selectOne_some hfound).2
        simp [hcolumn, hsame]
  · intro row _
    split
    · rename_i hrow
      simp only [decide_eq_true_eq] at hrow
      rw [hkey row hrow, hrow]
    · rfl

/-- Rows with one key are deleted. -/
theorem lookup_delete :
    selectOne (fun row => decide (key row = k)) (delete (fun row => decide (key row = k₀)) rows) =
      if k = k₀ then none else selectOne (fun row => decide (key row = k)) rows := by
  by_cases hsame : k = k₀
  · rw [if_pos hsame, selectOne_delete_covered]
    simp [hsame]
  · rw [if_neg hsame, selectOne_delete_disjoint]
    intro row _ hrow
    simp only [decide_eq_true_eq] at hrow
    simpa [hrow] using hsame

end Lookup

section Indexed

variable [LinearOrder κ] {column : ρ → κ}

/-- A change of the rows that keeps the indexed column keeps their order. -/
theorem argmin_map {g : ρ → ρ} (hcolumn : ∀ row, column (g row) = column row) :
    (rows.map g).argmin column = (rows.argmin column).map g := by
  induction rows with
  | nil => rfl
  | cons row rows ih =>
    rw [List.map_cons, List.argmin_cons, List.argmin_cons, ih]
    cases rows.argmin column with
    | none => rfl
    | some best =>
      by_cases hless : column best < column row
      · simp [hcolumn, hless]
      · simp [hcolumn, hless]

/-- An indexed lookup follows a change of the rows it selects. -/
theorem selectFirst_update (hp : ∀ row, p (f row) = p row)
    (hcolumn : ∀ row, column (f row) = column row) :
    selectFirst column p (update p f rows) = (selectFirst column p rows).map f := by
  have hselect : select p (update p f rows) = (select p rows).map f := by
    unfold select update
    rw [List.filter_map, List.filter_congr (q := p)]
    · exact List.map_congr_left fun row hrow => if_pos (List.mem_filter.mp hrow).2
    · intro row _
      by_cases hrow : p row = true
      · simp [hrow, hp]
      · simp [hrow]
  unfold selectFirst
  rw [hselect, argmin_map hcolumn]

/-- A changed row of another selection leaves an indexed lookup as it is. -/
theorem selectFirst_update_disjoint
    (h : ∀ row ∈ rows, q row = true → p row = false ∧ p (f row) = false) :
    selectFirst column p (update q f rows) = selectFirst column p rows := by
  unfold selectFirst
  rw [select_update_disjoint h]

theorem selectFirst_some {row : ρ} (h : selectFirst column p rows = some row) :
    row ∈ rows ∧ p row = true :=
  mem_select.mp (List.argmin_mem h)

theorem selectFirst_none : selectFirst column p rows = none ↔ ∀ row ∈ rows, ¬p row = true := by
  unfold selectFirst select
  rw [List.argmin_eq_none, List.filter_eq_nil_iff]

end Indexed

/-- A row that was upserted is the one found under its key. -/
theorem selectOne_upsert [DecidableEq κ] {key : ρ → κ} {new : ρ} {k : κ} :
    selectOne (fun row => decide (key row = k)) (upsert key rows new) =
      if key new = k then some new else selectOne (fun row => decide (key row = k)) rows := by
  by_cases hkey : key new = k
  · subst hkey
    rw [if_pos rfl]
    unfold upsert
    split
    · rename_i hexists
      induction rows with
      | nil => simp at hexists
      | cons first rest ih =>
        simp only [selectOne, update, List.map_cons, List.find?_cons] at ih ⊢
        by_cases hfirst : key first = key new
        · simp only [hfirst, decide_true, if_true]
        · have hrest : rest.any (fun old => decide (key old = key new)) = true := by
            simpa [hfirst] using hexists
          simp only [hfirst, decide_false, Bool.false_eq_true, if_false]
          exact ih hrest
    · rename_i hfresh
      have hnone : selectOne (fun row => decide (key row = key new)) rows = none := by
        rw [selectOne_none]
        simpa using hfresh
      rw [selectOne_insert, hnone]
      simp
  · rw [if_neg hkey]
    unfold upsert
    split
    · rw [selectOne_update]
      · cases hfound : selectOne (fun row => decide (key row = k)) rows with
        | none => rfl
        | some found =>
          have hsame : key found = k := by simpa using (selectOne_some hfound).2
          have hother : ¬key found = key new := fun h => hkey (h.symm.trans hsame)
          simp only [Option.map_some, hother, decide_false, Bool.false_eq_true, if_false]
      · intro row _
        split
        · rename_i hrow
          simp only [decide_eq_true_eq] at hrow
          rw [hrow]
        · rfl
    · rw [selectOne_insert]
      simp [hkey]

end Lookup

section Maximum

private theorem le_foldr_max {values : List Nat} {v : Nat} (h : v ∈ values) :
    v ≤ values.foldr max 0 := by
  induction values with
  | nil => simp at h
  | cons w values ih =>
    simp only [List.foldr_cons]
    rcases List.mem_cons.mp h with rfl | htail
    · exact le_max_left _ _
    · exact (ih htail).trans (le_max_right _ _)

private theorem foldr_max_le {values : List Nat} {bound : Nat} (h : ∀ v ∈ values, v ≤ bound) :
    values.foldr max 0 ≤ bound := by
  induction values with
  | nil => simp
  | cons w values ih =>
    simp only [List.foldr_cons]
    exact max_le (h w (by simp)) (ih fun v hv => h v (by simp [hv]))

theorem le_maximum {p : ρ → Bool} {f : ρ → Nat} {rows : List ρ} {row : ρ}
    (hrow : row ∈ rows) (hp : p row = true) : f row ≤ maximum p f rows :=
  le_foldr_max (List.mem_map.mpr ⟨row, mem_select.mpr ⟨hrow, hp⟩, rfl⟩)

theorem maximum_le {p : ρ → Bool} {f : ρ → Nat} {rows : List ρ} {bound : Nat}
    (h : ∀ row ∈ rows, p row = true → f row ≤ bound) : maximum p f rows ≤ bound := by
  apply foldr_max_le
  intro v hv
  obtain ⟨row, hrow, rfl⟩ := List.mem_map.mp hv
  exact h row (mem_select.mp hrow).1 (mem_select.mp hrow).2

/-- A bound some selected row attains is the maximum. -/
theorem maximum_eq {p : ρ → Bool} {f : ρ → Nat} {rows : List ρ} {row : ρ}
    (hrow : row ∈ rows) (hp : p row = true)
    (h : ∀ other ∈ rows, p other = true → f other ≤ f row) : maximum p f rows = f row :=
  le_antisymm (maximum_le h) (le_maximum hrow hp)

theorem maximum_map {p : ρ → Bool} {f : ρ → Nat} {g : ρ → ρ} {rows : List ρ}
    (hp : ∀ row, p (g row) = p row) (hf : ∀ row, f (g row) = f row) :
    maximum p f (rows.map g) = maximum p f rows := by
  have hcolumn : p ∘ g = p := funext hp
  have hvalue : f ∘ g = f := funext hf
  unfold maximum select
  rw [List.filter_map, List.map_map, hcolumn, hvalue]

end Maximum

section Upserts

variable [DecidableEq κ] {key : ρ → κ}

theorem KeyUnique.upsert {rows : List ρ} (h : KeyUnique key rows) (new : ρ) :
    KeyUnique key (upsert key rows new) := by
  unfold Table.upsert
  split
  · apply h.update
    exact fun row _ hsame => (of_decide_eq_true hsame).symm
  · rename_i hfresh
    apply h.insert
    intro row hrow hsame
    exact hfresh (List.any_eq_true.mpr ⟨row, hrow, decide_eq_true hsame⟩)

theorem upsert_of_none {rows : List ρ} {new : ρ}
    (h : selectOne (fun old => decide (key old = key new)) rows = none) :
    upsert key rows new = rows ++ [new] := by
  unfold upsert
  rw [if_neg]
  · rfl
  · rw [Bool.not_eq_true, List.any_eq_false]
    intro old hold
    simpa using selectOne_none.mp h old hold

/-- Where the keys are distinct, the row with the key is replaced in its place. -/
theorem upsert_of_some {rows : List ρ} {old new : ρ} (hunique : KeyUnique key rows)
    (hold : old ∈ rows) (hkey : key old = key new) :
    ∃ before after, rows = before ++ old :: after ∧ upsert key rows new = before ++ new :: after := by
  obtain ⟨before, after, rfl⟩ := List.append_of_mem hold
  refine ⟨before, after, rfl, ?_⟩
  have hnodup := hunique
  simp only [KeyUnique, List.map_append, List.map_cons] at hnodup
  have hfresh := (List.nodup_middle.mp hnodup).notMem
  have hkeep : ∀ row ∈ before ++ after, key row ≠ key new := by
    intro row hrow hsame
    apply hfresh
    rw [hkey, ← hsame, ← List.map_append]
    exact List.mem_map_of_mem hrow
  have hsame : ∀ part : List ρ, (∀ row ∈ part, key row ≠ key new) →
      update (fun row => decide (key row = key new)) (fun _ => new) part = part := by
    intro part hpart
    unfold update
    conv_rhs => rw [← List.map_id part]
    apply List.map_congr_left
    intro row hrow
    simp [hpart row hrow]
  unfold upsert
  rw [if_pos (List.any_eq_true.mpr ⟨old, hold, decide_eq_true hkey⟩)]
  have hbefore := hsame before fun row hrow => hkeep row (List.mem_append_left _ hrow)
  have hafter := hsame after fun row hrow => hkeep row (List.mem_append_right _ hrow)
  unfold update at hbefore hafter ⊢
  rw [List.map_append, List.map_cons, hbefore, hafter, if_pos (decide_eq_true hkey)]

/-- A batch with distinct keys that are all new is added as it is. -/
theorem upsertAll_of_nodup {rows batch : List ρ} (h : KeyUnique key (rows ++ batch)) :
    batch.foldl (upsert key) rows = rows ++ batch := by
  induction batch generalizing rows with
  | nil => simp
  | cons new batch ih =>
    have hfresh : selectOne (fun old => decide (key old = key new)) rows = none := by
      apply selectOne_none.mpr
      intro old hold
      have hnodup := h
      simp only [KeyUnique, List.map_append, List.map_cons] at hnodup
      have hnew := (List.nodup_middle.mp hnodup).notMem
      simp only [decide_eq_false_iff_not]
      intro hsame
      apply hnew
      rw [← hsame]
      exact List.mem_append_left _ (List.mem_map_of_mem hold)
    rw [List.foldl_cons, upsert_of_none hfresh, ih, List.append_assoc, List.singleton_append]
    rwa [List.append_assoc, List.singleton_append]

theorem KeyUnique.upsertAll {rows : List ρ} (h : KeyUnique key rows) (batch : List ρ) :
    KeyUnique key (batch.foldl (Table.upsert key) rows) := by
  induction batch generalizing rows with
  | nil => exact h
  | cons new batch ih => exact ih (h.upsert new)

end Upserts

end AgenticRag.Table
