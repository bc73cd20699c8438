import Mathlib.Data.List.Nodup
import Mathlib.Order.Basic
import Mathlib.Tactic

/-!
# First occurrences and first maxima

The items of a list whose key does not occur before them, and the first item with the
largest value. Both grow by one item at a time, as a loop over the list meets them.
-/

namespace AgenticRag

variable {α β κ : Type*}

section Firsts

variable [DecidableEq κ] (key : α → κ)

/-- The items whose key does not occur before them. -/
def firstsBy : List α → List α
  | [] => []
  | a :: rest => a :: (firstsBy rest).filter fun b => decide (key b ≠ key a)

variable {key}

theorem firstsBy_sublist (l : List α) : (firstsBy key l).Sublist l := by
  induction l with
  | nil => exact List.Sublist.refl _
  | cons a l ih => exact (List.filter_sublist.trans ih).cons_cons a

/-- What one more item adds. -/
theorem firstsBy_concat (l : List α) (a : α) :
    firstsBy key (l ++ [a]) = firstsBy key l ++ if key a ∈ l.map key then [] else [a] := by
  induction l with
  | nil => rfl
  | cons b l ih =>
    rw [List.cons_append, firstsBy, ih, List.filter_append, firstsBy, List.cons_append]
    congr 2
    by_cases hsame : key a = key b
    · simp [hsame]
    · by_cases hold : key a ∈ l.map key
      · simp [hold]
      · simp only [hold, if_false, List.map_cons, List.mem_cons, hsame, or_self]
        simp [hsame]

theorem exists_mem_firstsBy {l : List α} {a : α} (h : a ∈ l) : ∃ b ∈ firstsBy key l, key b = key a := by
  induction l with
  | nil => simp at h
  | cons head l ih =>
    by_cases hhead : key head = key a
    · exact ⟨head, List.mem_cons_self, hhead⟩
    · have hmem : a ∈ l := by
        rcases List.mem_cons.mp h with rfl | hmem
        · exact absurd rfl hhead
        · exact hmem
      obtain ⟨b, hb, hkey⟩ := ih hmem
      refine ⟨b, List.mem_cons_of_mem _ (List.mem_filter.mpr ⟨hb, ?_⟩), hkey⟩
      rw [hkey]
      exact decide_eq_true (Ne.symm hhead)

theorem map_mem_firstsBy {l : List α} {k : κ} : k ∈ (firstsBy key l).map key ↔ k ∈ l.map key := by
  constructor
  · have hsub : (firstsBy key l).Sublist l := firstsBy_sublist l
    exact fun h => (hsub.map key).subset h
  · intro h
    obtain ⟨a, ha, rfl⟩ := List.mem_map.mp h
    have hfirst : ∃ b ∈ firstsBy key l, key b = key a := exists_mem_firstsBy ha
    obtain ⟨b, hb, hkey⟩ := hfirst
    exact hkey ▸ List.mem_map_of_mem hb

theorem firstsBy_nodup (l : List α) : ((firstsBy key l).map key).Nodup := by
  induction l with
  | nil => exact List.nodup_nil
  | cons a l ih =>
    rw [firstsBy, List.map_cons, List.nodup_cons]
    refine ⟨fun h => ?_, ih.sublist (List.filter_sublist.map key)⟩
    obtain ⟨b, hb, hkey⟩ := List.mem_map.mp h
    exact of_decide_eq_true (List.mem_filter.mp hb).2 hkey

/-- A lookup by key finds the same among the first occurrences. -/
theorem find?_firstsBy (l : List α) (k : κ) :
    (firstsBy key l).find? (fun a => decide (key a = k)) = l.find? fun a => decide (key a = k) := by
  induction l with
  | nil => rfl
  | cons a l ih =>
    rw [firstsBy, List.find?_cons, List.find?_cons, List.find?_filter]
    by_cases hkey : key a = k
    · simp [hkey]
    · have hkept : ∀ b, decide (decide (key b ≠ key a) = true ∧ decide (key b = k) = true) = decide (key b = k) := by
        intro b
        by_cases hb : key b = k
        · simp [hb, Ne.symm hkey]
        · simp [hb]
      simp only [hkey, decide_false, hkept, ih]

end Firsts

theorem nodup_eraseDups [BEq α] [LawfulBEq α] (l : List α) : l.eraseDups.Nodup := by
  induction hlength : l.length using Nat.strong_induction_on generalizing l with
  | _ n ih =>
    cases l with
    | nil => simp
    | cons a rest =>
      rw [List.eraseDups_cons, List.nodup_cons]
      have hshorter : (rest.filter fun other => !other == a).length < n := by
        have hle := List.length_filter_le (fun other => !other == a) rest
        simp only [List.length_cons] at hlength
        omega
      exact ⟨by simp, ih _ hshorter _ rfl⟩

section Leader

variable [LinearOrder β] (value : α → β)

/-- The first item with the largest value, one item later. -/
def outdo (best : Option α) (a : α) : Option α :=
  match best with
  | none => some a
  | some b => if value b < value a then some a else some b

/-- The first item with the largest value. -/
def leader (l : List α) : Option α := l.foldl (outdo value) none

variable {value}

theorem leader_concat (l : List α) (a : α) : leader value (l ++ [a]) = outdo value (leader value l) a := by
  unfold leader
  rw [List.foldl_append, List.foldl_cons, List.foldl_nil]

theorem leader_split {l : List α} {a : α} (h : leader value l = some a) :
    ∃ before after, l = before ++ a :: after ∧ (∀ b ∈ before, value b < value a) ∧
      ∀ b ∈ after, value b ≤ value a := by
  induction l using List.reverseRecOn generalizing a with
  | nil => simp [leader] at h
  | append_singleton l last ih =>
    rw [leader_concat] at h
    cases hbest : leader value l with
    | none =>
      have hnil : l = [] := by
        cases l using List.reverseRecOn with
        | nil => rfl
        | append_singleton l b =>
          rw [leader_concat] at hbest
          unfold outdo at hbest
          split at hbest
          · simp at hbest
          · split at hbest <;> simp at hbest
      subst hnil
      rw [hbest] at h
      obtain rfl := Option.some.inj h
      exact ⟨[], [], rfl, by simp, by simp⟩
    | some best =>
      obtain ⟨before, after, rfl, hbefore, hafter⟩ := ih hbest
      rw [hbest] at h
      simp only [outdo] at h
      split at h
      · rename_i hless
        obtain rfl := Option.some.inj h
        refine ⟨before ++ best :: after, [], by simp, fun b hb => ?_, by simp⟩
        rcases List.mem_append.mp hb with hfirst | hrest
        · exact (hbefore b hfirst).trans hless
        · rcases List.mem_cons.mp hrest with rfl | hlater
          · exact hless
          · exact (hafter b hlater).trans_lt hless
      · rename_i hless
        obtain rfl := Option.some.inj h
        refine ⟨before, after ++ [last], by simp, hbefore, fun b hb => ?_⟩
        rcases List.mem_append.mp hb with hlater | hlast
        · exact hafter b hlater
        · rw [List.mem_singleton.mp hlast]
          exact not_lt.mp hless

end Leader

end AgenticRag
