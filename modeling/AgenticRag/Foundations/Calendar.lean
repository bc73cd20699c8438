import Mathlib.Tactic.Common

/-!
# Days of the Gregorian calendar

Days are numbered from January 1 of the year 1. The first day of a month follows the last
one of the month before, and so do the years.
-/

namespace AgenticRag

namespace Calendar

def isLeap (year : Nat) : Bool :=
  decide (year % 4 = 0 ∧ (year % 100 ≠ 0 ∨ year % 400 = 0))

def daysInMonth (year : Nat) : Nat → Nat
  | 2 => if isLeap year then 29 else 28
  | 4 | 6 | 9 | 11 => 30
  | _ => 31

def daysBeforeYear (year : Nat) : Nat :=
  let past := year - 1
  past * 365 + past / 4 - past / 100 + past / 400

def daysBeforeMonth (year : Nat) : Nat → Nat
  | 0 | 1 => 0
  | month + 2 => daysBeforeMonth year (month + 1) + daysInMonth year (month + 1)

def ordinal (year month day : Nat) : Nat := daysBeforeYear year + daysBeforeMonth year month + day

/-- The years have at most four digits. -/
def ValidDate (year month day : Nat) : Prop :=
  (1 ≤ year ∧ year ≤ 9999) ∧ (1 ≤ month ∧ month ≤ 12) ∧ 1 ≤ day ∧ day ≤ daysInMonth year month

instance (year month day : Nat) : Decidable (ValidDate year month day) :=
  inferInstanceAs (Decidable ((_ ∧ _) ∧ (_ ∧ _) ∧ _ ∧ _))

variable {year month day : Nat}

theorem daysInMonth_ge (year month : Nat) : 28 ≤ daysInMonth year month := by
  unfold daysInMonth
  split
  · split
    · omega
    · omega
  all_goals omega

theorem ordinal_first_day (year month : Nat) :
    ordinal year month (daysInMonth year month) = ordinal year month 1 + (daysInMonth year month - 1) := by
  have hdays := daysInMonth_ge year month
  unfold ordinal
  omega

/-- The day after the last day of a month. -/
theorem ordinal_next_month (hmonth : 1 ≤ month) :
    ordinal year (month + 1) 1 = ordinal year month (daysInMonth year month) + 1 := by
  obtain ⟨before, rfl⟩ := Nat.exists_eq_add_of_le' hmonth
  simp only [ordinal, daysBeforeMonth]
  omega

theorem daysBeforeMonth_december (year : Nat) :
    daysBeforeMonth year 12 = if isLeap year then 335 else 334 := by
  simp only [daysBeforeMonth, daysInMonth]
  split
  · rfl
  · rfl

theorem daysBeforeYear_succ (hyear : 1 ≤ year) :
    daysBeforeYear (year + 1) = daysBeforeYear year + if isLeap year then 366 else 365 := by
  obtain ⟨past, rfl⟩ := Nat.exists_eq_add_of_le' hyear
  have hfour : (past + 1) / 4 = past / 4 + if 4 ∣ past + 1 then 1 else 0 := Nat.succ_div
  have hhundred : (past + 1) / 100 = past / 100 + if 100 ∣ past + 1 then 1 else 0 := Nat.succ_div
  have hcycle : (past + 1) / 400 = past / 400 + if 400 ∣ past + 1 then 1 else 0 := Nat.succ_div
  have hle : past / 100 ≤ past / 4 := Nat.div_le_div_left (by omega) (by omega)
  have hleap : isLeap (past + 1) = decide (4 ∣ past + 1 ∧ (¬100 ∣ past + 1 ∨ 400 ∣ past + 1)) := by
    simp only [isLeap, Nat.dvd_iff_mod_eq_zero, ne_eq]
  simp only [daysBeforeYear, hleap, Nat.add_sub_cancel, hfour, hhundred, hcycle]
  by_cases hfourth : 4 ∣ past + 1
  · by_cases hcentury : 100 ∣ past + 1
    · by_cases hfull : 400 ∣ past + 1
      · simp only [hfourth, hcentury, hfull, if_true, or_true, and_self, decide_true]
        omega
      · simp only [hfourth, hcentury, hfull, if_true, if_false, not_true_eq_false, or_self, and_false,
          decide_false, Bool.false_eq_true]
        omega
    · have hfull : ¬400 ∣ past + 1 := fun h => hcentury (Nat.dvd_trans (by decide) h)
      simp only [hfourth, hcentury, hfull, if_true, if_false, not_false_eq_true, or_false, and_self,
        decide_true]
      omega
  · have hcentury : ¬100 ∣ past + 1 := fun h => hfourth (Nat.dvd_trans (by decide) h)
    have hfull : ¬400 ∣ past + 1 := fun h => hfourth (Nat.dvd_trans (by decide) h)
    simp only [hfourth, hcentury, hfull, if_false, false_and, decide_false, Bool.false_eq_true]
    omega

/-- The day after the last day of a year. -/
theorem ordinal_next_year (hyear : 1 ≤ year) : ordinal (year + 1) 1 1 = ordinal year 12 31 + 1 := by
  have hfirst : daysBeforeMonth (year + 1) 1 = 0 := rfl
  rw [ordinal, ordinal, daysBeforeYear_succ hyear, daysBeforeMonth_december, hfirst]
  split
  · omega
  · omega

theorem ordinal_new_year_lt (year : Nat) : ordinal year 1 1 < ordinal year 12 31 := by
  simp only [ordinal, daysBeforeMonth]
  omega

end Calendar

end AgenticRag
