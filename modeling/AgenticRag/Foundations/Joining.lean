import Mathlib.Tactic

/-!
# Joined records

Fields are joined with a separator between them, and the question is which records can be told
from the joined text. Between a fixed number of fields one symbol will do as long as no field
has it. A word between any number of fields tells one field from itself only.
-/

namespace AgenticRag.Joining

/-- No other member of `D` has the image of `a`. -/
def Determined {α β : Type*} (f : α → β) (D : α → Prop) (a : α) : Prop :=
  ∀ a', D a' → f a' = f a → a' = a

/-- A composition determines what both parts determine. -/
theorem determined_comp {α β γ : Type*} {g : β → γ} {f : α → β} {D : α → Prop} {a : α} :
    Determined (g ∘ f) D a ↔ Determined g (fun b => ∃ a', D a' ∧ f a' = b) (f a) ∧ Determined f D a := by
  constructor
  · intro h
    constructor
    · rintro b ⟨a', ha', rfl⟩ heq
      rw [h a' ha' heq]
    · intro a' ha' heq
      exact h a' ha' (congrArg g heq)
  · rintro ⟨hg, hf⟩ a' ha' heq
    exact hf a' ha' (hg (f a') ⟨a', ha', rfl⟩ heq)

/-- What is injective determines everything. -/
theorem determined_of_injective {α β : Type*} {f : α → β} {D : α → Prop} {a : α} (hf : Function.Injective f) :
    Determined f D a :=
  fun _ _ heq => hf heq

theorem determined_congr {α β : Type*} {f : α → β} {D E : α → Prop} {a : α} (h : ∀ a', D a' ↔ E a') :
    Determined f D a ↔ Determined f E a :=
  forall_congr' fun a' => imp_congr_left (h a')

section Groups

variable {α : Type*} {word : List α}

/-- What stands before a group of fields does not matter for the group. -/
theorem joined_append {front : List (List α)} {group group' : List (List α)}
    (hgroup : group ≠ []) (hgroup' : group' ≠ []) (heq : word.intercalate group' = word.intercalate group) :
    word.intercalate (front ++ group') = word.intercalate (front ++ group) := by
  induction front with
  | nil => exact heq
  | cons field rest ih =>
    have hne : rest ++ group ≠ [] := by simp [hgroup]
    have hne' : rest ++ group' ≠ [] := by simp [hgroup']
    rw [List.cons_append, List.cons_append, List.intercalate_cons_of_ne_nil hne,
      List.intercalate_cons_of_ne_nil hne', ih]

theorem joined_append_right {back : List (List α)} {first second first' second' : List α}
    (heq : first' ++ word ++ second' = first ++ word ++ second) :
    word.intercalate (first' :: second' :: back) = word.intercalate (first :: second :: back) := by
  cases back with
  | nil => simpa using heq
  | cons next rest =>
    simp only [List.intercalate_cons_cons, ← List.append_assoc] at heq ⊢
    rw [heq]

/-- The symbols of the joined text are those of the fields and of the word. -/
theorem mem_joined {x : α} (hx : x ∉ word) {fields : List (List α)} :
    x ∈ word.intercalate fields ↔ ∃ field ∈ fields, x ∈ field := by
  induction fields with
  | nil => simp
  | cons field rest ih =>
    cases rest with
    | nil => simp
    | cons next rest =>
      rw [List.intercalate_cons_cons, List.mem_append, List.mem_append, ih]
      simp [hx]

theorem joined_ne_nil {first : List α} {rest : List (List α)} (hfirst : first ≠ []) :
    word.intercalate (first :: rest) ≠ [] := by
  cases rest with
  | nil => simpa using hfirst
  | cons next rest => simp [hfirst]

end Groups

section Symbol

variable {α : Type*} [DecidableEq α] {x : α} {fields fields' : List (List α)}

/-- The separators between the fields and those within them. -/
theorem count_joined (hne : fields ≠ []) :
    ([x].intercalate fields).count x + 1 = fields.length + (fields.map (List.count x)).sum := by
  induction fields with
  | nil => exact absurd rfl hne
  | cons field rest ih =>
    cases rest with
    | nil => simp [Nat.add_comm]
    | cons next rest =>
      have hrest := ih (List.cons_ne_nil _ _)
      rw [List.intercalate_cons_cons, List.count_append, List.count_append, List.count_singleton_self,
        List.map_cons, List.sum_cons, List.length_cons]
      omega

/-- As many fields with the same joined text are as free of the separator. -/
theorem free_of_joined (hne : fields ≠ []) (hlength : fields'.length = fields.length)
    (heq : [x].intercalate fields' = [x].intercalate fields) (hfree : ∀ field ∈ fields, x ∉ field) :
    ∀ field ∈ fields', x ∉ field := by
  have hne' : fields' ≠ [] := by
    rintro rfl
    exact hne (List.length_eq_zero_iff.mp hlength.symm)
  have hzero : (fields.map (List.count x)).sum = 0 := by
    rw [List.sum_eq_zero_iff]
    intro n hn
    obtain ⟨field, hfield, rfl⟩ := List.mem_map.mp hn
    exact List.count_eq_zero.mpr (hfree field hfield)
  have hcount := count_joined (x := x) hne
  have hcount' := count_joined (x := x) hne'
  rw [heq] at hcount'
  have hzero' : (fields'.map (List.count x)).sum = 0 := by omega
  intro field hfield
  exact List.count_eq_zero.mp (List.sum_eq_zero_iff.mp hzero' _ (List.mem_map_of_mem hfield))

omit [DecidableEq α] in
/-- A separator within a field can change places with one beside the field. -/
theorem exists_other_fields (hlength : 2 ≤ fields.length) {field : List α} (hfield : field ∈ fields)
    (hx : x ∈ field) :
    ∃ fields', fields'.length = fields.length ∧ [x].intercalate fields' = [x].intercalate fields ∧
      fields' ≠ fields := by
  obtain ⟨front, back, rfl⟩ := List.append_of_mem hfield
  obtain ⟨before, after, rfl⟩ := List.append_of_mem hx
  cases back with
  | cons next back =>
    refine ⟨front ++ before :: (after ++ x :: next) :: back, by simp, ?_, ?_⟩
    · refine joined_append (List.cons_ne_nil _ _) (List.cons_ne_nil _ _) (joined_append_right ?_)
      simp
    · intro hsame
      have hfields := List.cons.inj (List.append_cancel_left hsame)
      have hlengths := congrArg List.length hfields.1
      simp at hlengths
  | nil =>
    -- the field is the last one, so there is one in front of it
    obtain ⟨front, previous, rfl⟩ : ∃ front' previous, front = front' ++ [previous] := by
      have hne : front ≠ [] := by
        rintro rfl
        simp at hlength
      exact ⟨front.dropLast, front.getLast hne, (List.dropLast_append_getLast hne).symm⟩
    refine ⟨front ++ (previous ++ x :: before) :: [after], by simp, ?_, ?_⟩
    · rw [List.append_assoc]
      refine joined_append (List.cons_ne_nil _ _) (List.cons_ne_nil _ _) (joined_append_right ?_)
      simp
    · intro hsame
      rw [List.append_assoc] at hsame
      have hfields := List.cons.inj (List.append_cancel_left hsame)
      have hlengths := congrArg List.length hfields.1
      simp at hlengths

/-- A fixed number of fields is told from the joined text exactly if none has the separator. -/
theorem joined_determined_iff (hlength : 2 ≤ fields.length) :
    Determined (List.intercalate [x]) (fun fields' => fields'.length = fields.length) fields ↔
      ∀ field ∈ fields, x ∉ field := by
  have hne : fields ≠ [] := by
    rintro rfl
    simp at hlength
  constructor
  · intro h field hfield hx
    obtain ⟨fields', hlength', heq, hother⟩ := exists_other_fields hlength hfield hx
    exact hother (h fields' hlength' heq)
  · intro hfree fields' hlength' heq
    have hfree' := free_of_joined hne hlength' heq hfree
    have hne' : fields' ≠ [] := by
      rintro rfl
      exact hne (List.length_eq_zero_iff.mp hlength'.symm)
    rw [← List.splitOn_intercalate x hfree' hne', heq, List.splitOn_intercalate x hfree hne]

end Symbol

section Word

variable {α : Type*} {word : List α} {fields : List (List α)}

/-- Two fields and more are joined to the text of one. -/
theorem not_determined_of_two {D : List (List α) → Prop} {first second : List α} {rest : List (List α)}
    (hD : D [word.intercalate (first :: second :: rest)]) :
    ¬Determined (List.intercalate word) D (first :: second :: rest) := by
  intro h
  have hsame := h _ hD List.intercalate_singleton
  simp at hsame

/-- One field is told among all records if it is neither empty nor has the word. -/
theorem word_determined_iff :
    Determined (List.intercalate word) (fun _ => True) fields ↔
      ∃ field, fields = [field] ∧ field ≠ [] ∧ ¬word <:+: field := by
  constructor
  · intro h
    match fields with
    | [] => exact absurd (h [[]] trivial List.intercalate_singleton) (by simp)
    | [field] =>
      refine ⟨field, rfl, ?_, ?_⟩
      · rintro rfl
        exact absurd (h [] trivial List.intercalate_singleton.symm) (by simp)
      · rintro ⟨before, after, rfl⟩
        exact absurd (h [before, after] trivial (by simp)) (by simp)
    | first :: second :: rest => exact absurd h (not_determined_of_two trivial)
  · rintro ⟨field, rfl, hfield, hword⟩ fields' - heq
    rw [List.intercalate_singleton] at heq
    match fields' with
    | [] => exact absurd heq.symm hfield
    | [field'] => rw [← heq, List.intercalate_singleton]
    | first :: second :: rest =>
      rw [List.intercalate_cons_cons] at heq
      exact absurd ⟨first, _, heq⟩ hword

/-- Among records of a few fields, none of them empty, a field may have the word at its ends. -/
theorem word_determined_nonempty_iff {n : Nat} (hn : 2 ≤ n) (hword : word ≠ []) (hfields : [] ∉ fields) :
    Determined (List.intercalate word) (fun fields => [] ∉ fields ∧ fields.length ≤ n) fields ↔
      fields = [] ∨ ∃ field, fields = [field] ∧
        ¬∃ before after, before ≠ [] ∧ after ≠ [] ∧ field = before ++ word ++ after := by
  constructor
  · intro h
    match fields with
    | [] => exact .inl rfl
    | [field] =>
      refine .inr ⟨field, rfl, ?_⟩
      rintro ⟨before, after, hbefore, hafter, rfl⟩
      have hsame := h [before, after] ⟨by simp [hbefore.symm, hafter.symm], by simpa using hn⟩ (by simp)
      simp at hsame
    | first :: second :: rest =>
      refine absurd h (not_determined_of_two ⟨?_, by simp; omega⟩)
      simp [hword]
  · rintro (rfl | ⟨field, rfl, hfield⟩) fields' ⟨hnonempty, -⟩ heq
    · match fields' with
      | [] => rfl
      | [field'] =>
        rw [List.intercalate_singleton, List.intercalate_nil] at heq
        exact absurd (List.mem_singleton.mpr heq.symm) hnonempty
      | first :: second :: rest =>
        rw [List.intercalate_cons_cons, List.intercalate_nil] at heq
        simp [hword] at heq
    · rw [List.intercalate_singleton] at heq
      match fields' with
      | [] => exact absurd (List.mem_singleton.mpr heq) hfields
      | [field'] => rw [← heq, List.intercalate_singleton]
      | first :: second :: rest =>
        simp only [List.mem_cons, not_or] at hnonempty
        rw [List.intercalate_cons_cons] at heq
        refine absurd ⟨first, _, Ne.symm hnonempty.1, ?_, heq.symm⟩ hfield
        exact joined_ne_nil (Ne.symm hnonempty.2.1)

end Word

end AgenticRag.Joining
