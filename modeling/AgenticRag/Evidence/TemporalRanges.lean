import AgenticRag.Evidence.TemporalParser

/-!
# The bounds of a range

A date token names a year, a month or a day. A token on its own becomes its period, from the
first instant to the last second. In an explicit range a time of the day is kept, and the
tokens are not put in order.
-/

namespace AgenticRag

namespace Pattern

/-- Every character the pattern takes satisfies `P`. -/
def Only (P : Char → Prop) : Pattern → Prop
  | empty => True
  | char accepts => ∀ c, accepts c = true → P c
  | seq first second | alt first second => Only P first ∧ Only P second
  | star body | group body => Only P body

variable {P : Char → Prop} {s next : State} {text : List Char}

theorem repeated_consumes {step : State → List State}
    (hstep : ∀ s next, next ∈ step s → ∃ taken, s.rest = taken ++ next.rest ∧ ∀ c ∈ taken, P c)
    {fuel : Nat} (h : next ∈ repeated step fuel s) :
    ∃ taken, s.rest = taken ++ next.rest ∧ ∀ c ∈ taken, P c := by
  induction fuel generalizing s with
  | zero =>
    obtain rfl := List.mem_singleton.mp h
    exact ⟨[], rfl, by simp⟩
  | succ fuel ih =>
    rcases List.mem_append.mp h with hmore | hstop
    · obtain ⟨middle, hmiddle, hnext⟩ := List.mem_flatMap.mp hmore
      obtain ⟨first, hfirst, hfirstP⟩ := hstep s middle (List.mem_filter.mp hmiddle).1
      obtain ⟨rest, hrest, hrestP⟩ := ih hnext
      refine ⟨first ++ rest, by rw [hfirst, hrest, List.append_assoc], ?_⟩
      intro c hc
      rcases List.mem_append.mp hc with hc | hc
      · exact hfirstP c hc
      · exact hrestP c hc
    · obtain rfl := List.mem_singleton.mp hstop
      exact ⟨[], rfl, by simp⟩

/-- A match takes a part of the text that stands in front. -/
theorem run_consumes {pattern : Pattern} (honly : pattern.Only P) (h : next ∈ pattern.run s) :
    ∃ taken, s.rest = taken ++ next.rest ∧ ∀ c ∈ taken, P c := by
  induction pattern generalizing s next with
  | empty =>
    obtain rfl := List.mem_singleton.mp h
    exact ⟨[], rfl, by simp⟩
  | char accepts =>
    simp only [run] at h
    split at h
    · cases h
    · rename_i c rest hrest
      split at h
      · rename_i haccepts
        obtain rfl := List.mem_singleton.mp h
        refine ⟨[c], hrest, ?_⟩
        intro d hd
        obtain rfl := List.mem_singleton.mp hd
        exact honly d haccepts
      · cases h
  | seq first second ihfirst ihsecond =>
    obtain ⟨middle, hmiddle, hnext⟩ := List.mem_flatMap.mp h
    obtain ⟨taken, htaken, htakenP⟩ := ihfirst honly.1 hmiddle
    obtain ⟨rest, hrest, hrestP⟩ := ihsecond honly.2 hnext
    refine ⟨taken ++ rest, by rw [htaken, hrest, List.append_assoc], ?_⟩
    intro c hc
    rcases List.mem_append.mp hc with hc | hc
    · exact htakenP c hc
    · exact hrestP c hc
  | alt first second ihfirst ihsecond =>
    rcases List.mem_append.mp h with h | h
    · exact ihfirst honly.1 h
    · exact ihsecond honly.2 h
  | star body ih => exact repeated_consumes (fun _ _ hstep => ih honly hstep) h
  | group body ih =>
    obtain ⟨inner, hinner, rfl⟩ := List.mem_map.mp h
    obtain ⟨taken, htaken, htakenP⟩ := ih honly hinner
    exact ⟨taken, htaken, htakenP⟩

theorem only_true (pattern : Pattern) : pattern.Only fun _ => True := by
  induction pattern with
  | empty => trivial
  | char accepts => exact fun _ _ => trivial
  | seq first second ihfirst ihsecond => exact ⟨ihfirst, ihsecond⟩
  | alt first second ihfirst ihsecond => exact ⟨ihfirst, ihsecond⟩
  | star body ih => exact ih
  | group body ih => exact ih

theorem run_rest_subset {pattern : Pattern} (h : next ∈ pattern.run s) : next.rest ⊆ s.rest := by
  obtain ⟨taken, htaken, -⟩ := run_consumes pattern.only_true h
  rw [htaken]
  exact List.subset_append_right ..

/-- A text that matches as a whole has only such characters. -/
theorem fullmatch_only {pattern : Pattern} (honly : pattern.Only P) (h : pattern.fullmatch text) :
    ∀ c ∈ text, P c := by
  obtain ⟨s, hs, hend⟩ := List.any_eq_true.mp h
  obtain ⟨taken, htaken, htakenP⟩ := run_consumes honly hs
  rw [List.isEmpty_iff.mp hend, List.append_nil] at htaken
  exact fun c hc => htakenP c (htaken ▸ hc)

/-- A character of a sequence is a character of what it matches. -/
theorem sequence_needs {patterns : List Pattern} {c : Char} (hc : oneOf [c] ∈ patterns)
    (h : next ∈ (sequence patterns).run s) : c ∈ s.rest := by
  induction patterns generalizing s with
  | nil => cases hc
  | cons pattern patterns ih =>
    obtain ⟨middle, hmiddle, hnext⟩ := List.mem_flatMap.mp h
    rcases List.mem_cons.mp hc with rfl | hc
    · simp only [oneOf, run] at hmiddle
      split at hmiddle
      · cases hmiddle
      · rename_i d rest hrest
        split at hmiddle
        · rename_i haccepts
          obtain rfl := List.mem_singleton.mp (of_decide_eq_true haccepts)
          rw [hrest]
          exact List.mem_cons_self ..
        · cases hmiddle
    · exact run_rest_subset hmiddle (ih hc hnext)

section Shapes

/-- A character that `\d` takes. -/
def IsDecimal (c : Char) : Prop :=
  (zeros.any fun first => decide (first ≤ c.toNat ∧ c.toNat < first + 10)) = true

instance (c : Char) : Decidable (IsDecimal c) := inferInstanceAs (Decidable (_ = _))

theorem only_sequence {patterns : List Pattern} (h : ∀ pattern ∈ patterns, pattern.Only P) :
    (sequence patterns).Only P := by
  induction patterns with
  | nil => trivial
  | cons pattern patterns ih =>
    exact ⟨h pattern (List.mem_cons_self ..), ih fun other hother => h other (List.mem_cons_of_mem _ hother)⟩

theorem only_literal {text : String} (h : ∀ c ∈ text.toList, P c) : (literal text).Only P := by
  unfold literal
  generalize text.toList = chars at h ⊢
  induction chars with
  | nil => trivial
  | cons c rest ih =>
    refine ⟨fun d hd => ?_, ih fun d hd => h d (List.mem_cons_of_mem _ hd)⟩
    rw [of_decide_eq_true hd]
    exact h c (List.mem_cons_self ..)

theorem only_fourDigits (h : ∀ c, IsDecimal c → P c) : fourDigits.Only P := ⟨h, h, h, h, trivial⟩

/-- The characters of a year, or of a month. -/
theorem yearRe_only : yearRe.Only fun c => IsDecimal c ∨ c ∈ ['年'] := by
  exact ⟨only_fourDigits fun c hc => .inl hc, only_literal fun c hc => .inr hc, trivial⟩

theorem monthRe_only : monthRe.Only fun c => IsDecimal c ∨ c ∈ ['年', '月'] := by
  apply only_sequence
  intro pattern hpattern
  simp only [List.mem_cons, List.not_mem_nil, or_false] at hpattern
  obtain rfl | rfl | rfl | rfl := hpattern
  · exact only_fourDigits fun c hc => .inl hc
  · exact only_literal fun c hc => .inr (List.mem_append_left ['月'] hc)
  · exact ⟨⟨fun c hc => .inl hc, fun c hc => .inl hc⟩, fun c hc => .inl hc⟩
  · exact only_literal fun c hc => .inr (List.mem_cons_of_mem '年' hc)

end Shapes

end Pattern

open Pattern

section Dates

variable {raw : String} {parsed : ParsedDate} {text : List Char} {format : List Directive}

theorem mem_strip {c : Char} (h : c ∈ Planner.strip text) : c ∈ text := by
  have hright := List.mem_reverse.mp h
  have hleft := (List.dropWhile_sublist _).subset hright
  exact (List.dropWhile_sublist _).subset (List.mem_reverse.mp hleft)

/-- The characters of the format occur in the text. -/
theorem strptime_needs (h : strptime format text = some parsed) {c : Char}
    (hc : .literal c ∈ format) : c ∈ text := by
  unfold strptime at h
  split at h
  · cases h
  · rename_i s hrun
    have hneeded : oneOf [c] ∈ format.map Directive.pattern := List.mem_map.mpr ⟨_, hc, rfl⟩
    exact sequence_needs hneeded (List.mem_of_head? hrun)

theorem lookup_zip_none {names : List Directive} {values : List Nat} {name : Directive}
    (h : name ∉ names) : (names.zip values).lookup name = none := by
  induction names generalizing values with
  | nil => rfl
  | cons other names ih =>
    cases values with
    | nil => rfl
    | cons value values =>
      rw [List.mem_cons, not_or] at h
      rw [List.zip_cons_cons, List.lookup_cons, beq_eq_false_iff_ne.mpr h.1]
      exact ih h.2

theorem make_some {year month day hour minute : Nat}
    (h : ParsedDate.make year month day hour minute = some parsed) :
    parsed.date.month = month ∧ parsed.date.day = day ∧ parsed.hour.val = hour ∧
      parsed.minute.val = minute := by
  unfold ParsedDate.make at h
  split at h
  · split at h
    · split at h
      · obtain rfl := Option.some.inj h
        exact ⟨rfl, rfl, rfl, rfl⟩
      · cases h
    · cases h
  · cases h

/-- What a format does not name has its default. -/
theorem strptime_defaults (h : strptime format text = some parsed) :
    (.month ∉ format → parsed.date.month = 1) ∧ (.day ∉ format → parsed.date.day = 1) ∧
      (.hour ∉ format → parsed.hour.val = 0) ∧ (.minute ∉ format → parsed.minute.val = 0) := by
  unfold strptime at h
  split at h
  · cases h
  · rename_i s hrun
    split at h
    · cases h
    · obtain ⟨hmonth, hday, hhour, hminute⟩ := make_some h
      have hlookup : ∀ name, name ∉ format →
          ((format.filter Directive.isField).zip (s.groups.map intOf)).lookup name = none :=
        fun name hname => lookup_zip_none fun hmem => hname (List.mem_filter.mp hmem).1
      refine ⟨fun h => ?_, fun h => ?_, fun h => ?_, fun h => ?_⟩
      · rw [hmonth, hlookup _ h, Option.getD_none]
      · rw [hday, hlookup _ h, Option.getD_none]
      · rw [hhour, hlookup _ h, Option.getD_none]
      · rw [hminute, hlookup _ h, Option.getD_none]

theorem parseDate_format (h : parseDate raw = some parsed) :
    ∃ format ∈ dateFormats, (∀ c, .literal c ∈ format → c ∈ raw.toList) ∧
      (.month ∉ format → parsed.date.month = 1) ∧ (.day ∉ format → parsed.date.day = 1) ∧
      (.hour ∉ format → parsed.hour.val = 0) ∧ (.minute ∉ format → parsed.minute.val = 0) := by
  obtain ⟨format, hformat, hparsed⟩ := List.exists_of_findSome?_eq_some h
  exact ⟨format, hformat, fun c hc => mem_strip (strptime_needs hparsed hc), strptime_defaults hparsed⟩

/-- A token that names a year has no month and no day. -/
theorem parseDate_year (h : parseDate raw = some parsed) (hyear : yearRe.fullmatch raw.toList) :
    parsed.date.month = 1 ∧ parsed.date.day = 1 := by
  obtain ⟨format, hformat, hneeds, hmonth, hday, -, -⟩ := parseDate_format h
  have hchars : ∀ c, .literal c ∈ format → IsDecimal c ∨ c ∈ ['年'] :=
    fun c hc => fullmatch_only yearRe_only hyear c (hneeds c hc)
  have hdash : .literal '-' ∉ format := fun hmem => absurd (hchars '-' hmem) (by decide)
  have hslash : .literal '/' ∉ format := fun hmem => absurd (hchars '/' hmem) (by decide)
  have hmonthSign : .literal '月' ∉ format := fun hmem => absurd (hchars '月' hmem) (by decide)
  have hplain : ∀ format ∈ dateFormats,
      .literal '-' ∉ format → .literal '/' ∉ format → .literal '月' ∉ format →
        .month ∉ format ∧ .day ∉ format := by
    decide
  obtain ⟨hnomonth, hnoday⟩ := hplain format hformat hdash hslash hmonthSign
  exact ⟨hmonth hnomonth, hday hnoday⟩

/-- A token that names a month has no day. -/
theorem parseDate_month (h : parseDate raw = some parsed) (hmonth : monthRe.fullmatch raw.toList) :
    parsed.date.day = 1 := by
  obtain ⟨format, hformat, hneeds, -, hday, -, -⟩ := parseDate_format h
  have hchars : ∀ c, .literal c ∈ format → IsDecimal c ∨ c ∈ ['年', '月'] :=
    fun c hc => fullmatch_only monthRe_only hmonth c (hneeds c hc)
  have hdash : .literal '-' ∉ format := fun hmem => absurd (hchars '-' hmem) (by decide)
  have hslash : .literal '/' ∉ format := fun hmem => absurd (hchars '/' hmem) (by decide)
  have hdaySign : .literal '日' ∉ format := fun hmem => absurd (hchars '日' hmem) (by decide)
  have hplain : ∀ format ∈ dateFormats,
      .literal '-' ∉ format → .literal '/' ∉ format → .literal '日' ∉ format → .day ∉ format := by
    decide
  exact hday (hplain format hformat hdash hslash hdaySign)

/-- A token without a colon has no time of the day. -/
theorem parseDate_untimed (h : parseDate raw = some parsed) (huntimed : namesTime raw = false) :
    parsed.hour.val = 0 ∧ parsed.minute.val = 0 := by
  obtain ⟨format, hformat, hneeds, -, -, hhour, hminute⟩ := parseDate_format h
  have hcolon : .literal ':' ∉ format := fun hmem => of_decide_eq_false huntimed (hneeds ':' hmem)
  have hplain : ∀ format ∈ dateFormats, .literal ':' ∉ format → .hour ∉ format ∧ .minute ∉ format := by
    decide
  obtain ⟨hnohour, hnominute⟩ := hplain format hformat hcolon
  exact ⟨hhour hnohour, hminute hnominute⟩

end Dates

/-- A year, a month or a day, as the days from the first one up to the one after the last. -/
inductive Period where
  | year (year : Nat)
  | month (year month : Nat)
  | day (date : CalendarDate)

namespace Period

def firstDay : Period → Nat
  | .year y => Calendar.ordinal y 1 1
  | .month y m => Calendar.ordinal y m 1
  | .day date => Calendar.ordinal date.year date.month date.day

def nextDay : Period → Nat
  | .year y => Calendar.ordinal (y + 1) 1 1
  | .month y m => if m = 12 then Calendar.ordinal (y + 1) 1 1 else Calendar.ordinal y (m + 1) 1
  | .day date => Calendar.ordinal date.year date.month date.day + 1

/-- Midnight of a day, in microseconds since 1970. -/
def midnight (day : Nat) : Int := ((day : Int) - 719163) * 86400000000

def firstInstant (period : Period) : Datetime := ⟨midnight period.firstDay, none⟩

/-- One second before the period is over. -/
def lastSecond (period : Period) : Datetime := ⟨midnight period.nextDay - 1000000, none⟩

def ofToken (raw : String) (parsed : ParsedDate) : Period :=
  if yearRe.fullmatch raw.toList then .year parsed.date.year
  else if monthRe.fullmatch raw.toList then .month parsed.date.year parsed.date.month
  else .day parsed.date

end Period

section Expansion

open Period

variable {raw : String} {parsed : ParsedDate}

theorem time_eq (date : CalendarDate) (hour minute second : Nat) : date.time hour minute second =
    ⟨midnight (Calendar.ordinal date.year date.month date.day) +
      (hour * 3600 + minute * 60 + second) * 1000000, none⟩ := by
  unfold CalendarDate.time midnight
  congr 1
  ring

/-- Midnight begins a day, and its last second ends it. -/
theorem time_midnight (date : CalendarDate) : date.time 0 0 0 = (day date).firstInstant := by
  rw [time_eq]
  simp [firstInstant, firstDay]

theorem time_lastSecond (date : CalendarDate) : date.time 23 59 59 = (day date).lastSecond := by
  rw [time_eq, lastSecond, nextDay, midnight, midnight]
  congr 1
  push_cast
  ring

theorem nextDay_newYearsEve (date : CalendarDate) :
    (day date.newYearsEve).nextDay = (year date.year).nextDay :=
  (Calendar.ordinal_next_year date.valid.1.1).symm

theorem nextDay_lastOfMonth (date : CalendarDate) :
    (day date.lastOfMonth).nextDay = (month date.year date.month).nextDay := by
  simp only [nextDay, CalendarDate.lastOfMonth]
  split
  · rename_i hdecember
    have hlast : Calendar.daysInMonth date.year 12 = 31 := rfl
    rw [Calendar.ordinal_next_year date.valid.1.1, hdecember, hlast]
  · rw [Calendar.ordinal_next_month date.valid.2.1.1]

/-- A token is expanded to the period it names. -/
theorem expandToRange_eq (h : parseDate raw = some parsed) :
    expandToRange raw = .ok ((ofToken raw parsed).firstInstant, (ofToken raw parsed).lastSecond) := by
  simp only [expandToRange, h, ofToken]
  split
  · rw [time_midnight, time_lastSecond, lastSecond, nextDay_newYearsEve]
    rfl
  · split
    · rw [time_midnight, time_lastSecond, lastSecond, nextDay_lastOfMonth]
      rfl
    · rw [time_midnight, time_lastSecond]

/-- A period begins before it ends. -/
theorem firstDay_lt_nextDay (raw : String) (parsed : ParsedDate) :
    (ofToken raw parsed).firstDay < (ofToken raw parsed).nextDay := by
  unfold ofToken
  split
  · have hnext := Calendar.ordinal_next_year parsed.date.valid.1.1
    have hlt := Calendar.ordinal_new_year_lt parsed.date.year
    simp only [firstDay, nextDay]
    omega
  · split
    · rw [← nextDay_lastOfMonth]
      have hlast := Calendar.ordinal_first_day parsed.date.year parsed.date.month
      simp only [firstDay, nextDay, CalendarDate.lastOfMonth]
      omega
    · exact Nat.lt_succ_self _

theorem firstInstant_le_lastSecond (raw : String) (parsed : ParsedDate) :
    (ofToken raw parsed).firstInstant.wall ≤ (ofToken raw parsed).lastSecond.wall := by
  have hlt := firstDay_lt_nextDay raw parsed
  simp only [firstInstant, lastSecond, midnight]
  omega

/-- The day that is parsed is the first one of the period. -/
theorem time_ofToken (h : parseDate raw = some parsed) :
    parsed.date.time 0 0 0 = (ofToken raw parsed).firstInstant := by
  rw [time_midnight, ofToken]
  split
  · rename_i hyear
    obtain ⟨hmonth, hday⟩ := parseDate_year h hyear
    simp only [firstInstant, firstDay, hmonth, hday]
  · split
    · rename_i hmonth
      simp only [firstInstant, firstDay, parseDate_month h hmonth]
    · rfl

end Expansion

/-- The bounds are those of the periods of two tokens. -/
structure SpansPeriods (first last : String) (start finish : Datetime) : Prop where
  starts : ∃ parsed, parseDate first = some parsed ∧
    start = (Period.ofToken first parsed).firstInstant ∧
    ∃ other, expandToRange first = .ok (start, other)
  ends : ∃ parsed, parseDate last = some parsed ∧
    finish = (Period.ofToken last parsed).lastSecond ∧ ∃ other, expandToRange last = .ok (other, finish)
  ordered : start.wall ≤ finish.wall

/-- The bounds of an explicit range: a time of the day is kept, and otherwise the start is
that of the period, and so is the end if the token names a day. -/
structure KeepsTokens (first last : String) (start finish : Datetime) : Prop where
  starts : ∃ parsed, parseDate first = some parsed ∧
    if namesTime first then start = parsed.time
    else start = (Period.ofToken first parsed).firstInstant ∧
      ∃ other, expandToRange first = .ok (start, other)
  ends : ∃ parsed, parseDate last = some parsed ∧
    if namesTime last then finish = parsed.time
    else Period.ofToken last parsed = .day parsed.date →
      finish = (Period.ofToken last parsed).lastSecond ∧ ∃ other, expandToRange last = .ok (other, finish)
  ordered : ∀ earlier ∈ parseDate first, ∀ later ∈ parseDate last,
    earlier.time.wall ≤ later.time.wall → start.wall ≤ finish.wall

section Bounds

open Period

variable {first last : String} {a b : ParsedDate}

theorem spansPeriods_bare {raw : String} {parsed : ParsedDate} (h : parseDate raw = some parsed) :
    SpansPeriods raw raw (ofToken raw parsed).firstInstant (ofToken raw parsed).lastSecond where
  starts := ⟨parsed, h, rfl, _, expandToRange_eq h⟩
  ends := ⟨parsed, h, rfl, _, expandToRange_eq h⟩
  ordered := firstInstant_le_lastSecond raw parsed

theorem startBound_le (first : String) (a : ParsedDate) : (startBound first a).wall ≤ a.time.wall := by
  unfold startBound
  split
  · exact Int.le_refl _
  · simp only [ParsedDate.time, time_eq]
    omega

theorem le_endBound (last : String) (b : ParsedDate) : b.time.wall ≤ (endBound last b).wall := by
  unfold endBound
  split
  · exact Int.le_refl _
  · have hhour := b.hour.isLt
    have hminute := b.minute.isLt
    simp only [ParsedDate.time, time_eq]
    omega

theorem keepsTokens_explicit (ha : parseDate first = some a) (hb : parseDate last = some b) :
    KeepsTokens first last (startBound first a) (endBound last b) where
  starts := by
    refine ⟨a, ha, ?_⟩
    split
    · rename_i htimed
      rw [startBound, if_pos htimed]
    · rename_i huntimed
      have hstart : startBound first a = (ofToken first a).firstInstant := by
        rw [startBound, if_neg huntimed, time_ofToken ha]
      exact ⟨hstart, _, hstart ▸ expandToRange_eq ha⟩
  ends := by
    refine ⟨b, hb, ?_⟩
    split
    · rename_i htimed
      rw [endBound, if_pos htimed]
    · rename_i huntimed
      intro hday
      have hend : endBound last b = (ofToken last b).lastSecond := by
        rw [endBound, if_neg huntimed, hday, time_lastSecond]
      exact ⟨hend, _, hend ▸ expandToRange_eq hb⟩
  ordered := by
    intro earlier hearlier later hlater hle
    obtain rfl := Option.some.inj (ha.symm.trans hearlier)
    obtain rfl := Option.some.inj (hb.symm.trans hlater)
    exact (startBound_le first a).trans (hle.trans (le_endBound last b))

/-- An explicit range spans the periods of its tokens exactly if the first one names no time
but midnight, the last one names a day, and the days are in order. -/
theorem spansPeriods_explicit_iff (ha : parseDate first = some a) (hb : parseDate last = some b) :
    SpansPeriods first last (startBound first a) (endBound last b) ↔
      (a.hour.val = 0 ∧ a.minute.val = 0) ∧
        (namesTime last = false ∧ ofToken last b = .day b.date) ∧
        Calendar.ordinal a.date.year a.date.month a.date.day ≤
          Calendar.ordinal b.date.year b.date.month b.date.day := by
  have hstart : (a.hour.val = 0 ∧ a.minute.val = 0) → startBound first a = a.date.time 0 0 0 := by
    rintro ⟨hhour, hminute⟩
    unfold startBound
    split
    · rw [ParsedDate.time, hhour, hminute]
    · rfl
  constructor
  · rintro ⟨⟨a', ha', hlower, -⟩, ⟨b', hb', hupper, -⟩, hordered⟩
    obtain rfl := Option.some.inj (ha.symm.trans ha')
    obtain rfl := Option.some.inj (hb.symm.trans hb')
    have hmidnight : a.hour.val = 0 ∧ a.minute.val = 0 := by
      cases htimed : namesTime first with
      | false => exact parseDate_untimed ha htimed
      | true =>
        rw [startBound, if_pos htimed, ParsedDate.time, time_eq] at hlower
        have hwall := congrArg Datetime.wall hlower
        have hhour := a.hour.isLt
        have hminute := a.minute.isLt
        simp only [firstInstant, midnight] at hwall
        omega
    have huntimed : namesTime last = false := by
      by_contra htimed
      rw [endBound, if_pos (Bool.not_eq_false _ ▸ htimed), ParsedDate.time, time_eq] at hupper
      have hwall := congrArg Datetime.wall hupper
      -- a time has no seconds
      simp only [lastSecond, midnight] at hwall
      omega
    have hend : endBound last b = (day b.date).lastSecond := by
      rw [endBound, huntimed, if_neg (by decide), time_lastSecond]
    have hnext : (day b.date).nextDay = (ofToken last b).nextDay := by
      have hwall := congrArg Datetime.wall (hend.symm.trans hupper)
      simp only [lastSecond, midnight] at hwall
      omega
    refine ⟨hmidnight, ⟨huntimed, ?_⟩, ?_⟩
    · unfold ofToken at hnext ⊢
      split at hnext
      · rename_i hyear
        obtain ⟨hmonth, hday⟩ := parseDate_year hb hyear
        have hlt := Calendar.ordinal_new_year_lt b.date.year
        have hyears := Calendar.ordinal_next_year b.date.valid.1.1
        simp only [nextDay, hmonth, hday] at hnext
        omega
      · rename_i hyear
        split at hnext
        · rename_i hmonth
          have hlast := Calendar.ordinal_first_day b.date.year b.date.month
          have hdays := Calendar.daysInMonth_ge b.date.year b.date.month
          rw [← nextDay_lastOfMonth] at hnext
          simp only [nextDay, CalendarDate.lastOfMonth, parseDate_month hb hmonth] at hnext
          omega
        · rename_i hmonth
          rw [if_neg hyear, if_neg hmonth]
    · rw [hstart hmidnight, hend, time_midnight] at hordered
      simp only [firstInstant, lastSecond, firstDay, nextDay, midnight] at hordered
      omega
  · rintro ⟨hmidnight, ⟨huntimed, hday⟩, hle⟩
    have hlower := (hstart hmidnight).trans (time_ofToken ha)
    have hupper : endBound last b = (ofToken last b).lastSecond := by
      rw [endBound, huntimed, if_neg (by decide), time_lastSecond, hday]
    refine ⟨⟨a, ha, hlower, _, hlower ▸ expandToRange_eq ha⟩,
      ⟨b, hb, hupper, _, hupper ▸ expandToRange_eq hb⟩, ?_⟩
    rw [hstart hmidnight, time_midnight, hupper, hday]
    simp only [firstInstant, lastSecond, firstDay, nextDay, midnight]
    omega

end Bounds

/-- The first and the last date token of a range. -/
def rangeTokens (query : String) : Option (String × String) :=
  match explicitDates query with
  | some ((first, _), (last, _)) => some (first, last)
  | none => (bareToken query).map fun raw => (raw, raw)

theorem explicitDates_parsed {query first last : String} {a b : ParsedDate}
    (h : explicitDates query = some ((first, a), (last, b))) :
    parseDate first = some a ∧ parseDate last = some b := by
  obtain ⟨pattern, -, hfound⟩ := List.exists_of_findSome?_eq_some h
  simp only [Option.bind_eq_bind, Option.bind_eq_some_iff, Option.pure_def, Option.some.injEq,
    Prod.mk.injEq] at hfound
  obtain ⟨found, -, start, hstart, finish, hfinish, ⟨rfl, rfl⟩, rfl, rfl⟩ := hfound
  exact ⟨hstart, hfinish⟩

theorem bareToken_parsed {query raw : String} (h : bareToken query = some raw) :
    ∃ parsed, parseDate raw = some parsed := by
  have hplausible := List.find?_some h
  unfold inYearBand at hplausible
  obtain ⟨parsed, hparsed, -⟩ := (Option.any_eq_true _ _).mp hplausible
  exact ⟨parsed, hparsed⟩

/-- A range without markers spans the period of its token, from its first instant to its last second. An
explicit range keeps to its tokens: a time of the day is kept, another start is the first instant of its
period, and the end of a day is its last second. The end of a longer period is left open. -/
theorem parseTemporalScope_range (wordChar : Char → Bool) (query : String)
    {start finish : Option Datetime}
    (h : parseTemporalScope wordChar query = .ok (.range start finish)) :
    ∃ first last lower upper, rangeTokens query = some (first, last) ∧ start = some lower ∧
      finish = some upper ∧
      if explicitDates query = none then SpansPeriods first last lower upper
      else KeepsTokens first last lower upper := by
  unfold parseTemporalScope at h
  unfold rangeTokens
  cases hexplicit : explicitDates query with
  | some dates =>
    obtain ⟨⟨first, a⟩, last, b⟩ := dates
    simp only [hexplicit, Except.ok.injEq, TemporalScope.range.injEq] at h
    obtain ⟨rfl, rfl⟩ := h
    obtain ⟨ha, hb⟩ := explicitDates_parsed hexplicit
    refine ⟨first, last, _, _, rfl, rfl, rfl, ?_⟩
    rw [if_neg (by simp)]
    exact keepsTokens_explicit ha hb
  | none =>
    simp only [hexplicit] at h
    split at h
    · cases h
    · split at h
      · cases h
      · split at h
        · cases h
        · split at h
          · rename_i raw hraw
            obtain ⟨parsed, hparsed⟩ := bareToken_parsed hraw
            rw [expandToRange_eq hparsed] at h
            simp only [Except.map, Except.ok.injEq, TemporalScope.range.injEq] at h
            obtain ⟨rfl, rfl⟩ := h
            refine ⟨raw, raw, _, _, by rw [hraw, Option.map_some], rfl, rfl, ?_⟩
            rw [if_pos rfl]
            exact spansPeriods_bare hparsed
          · cases h

/-- From a time of the day to the end of another day. -/
theorem parseTemporalScope_range_days :
    rangeTokens "from 2024-01-01 10:30 to 2024-02-01" = some ("2024-01-01 10:30", "2024-02-01") ∧
      KeepsTokens "2024-01-01 10:30" "2024-02-01" ⟨1704105000000000, none⟩ ⟨1706831999000000, none⟩ := by
  have htokens : rangeTokens "from 2024-01-01 10:30 to 2024-02-01" = some ("2024-01-01 10:30", "2024-02-01") := by
    decide +kernel
  obtain ⟨first, last, lower, upper, hrange, hlower, hupper, hkeeps⟩ :=
    @parseTemporalScope_range Char.isAlphanum "from 2024-01-01 10:30 to 2024-02-01"
      (some ⟨1704105000000000, none⟩) (some ⟨1706831999000000, none⟩) (by decide +kernel)
  obtain ⟨rfl, rfl⟩ := Prod.mk.inj (Option.some.inj (htokens.symm.trans hrange))
  obtain rfl := Option.some.inj hlower
  obtain rfl := Option.some.inj hupper
  rw [if_neg (by decide +kernel)] at hkeeps
  exact ⟨htokens, hkeeps⟩

/-- The times of the tokens are kept. -/
theorem parseTemporalScope_range_refuted :
    ¬∀ (wordChar : Char → Bool) (query : String) (start finish : Option Datetime),
      parseTemporalScope wordChar query = .ok (.range start finish) →
        ∃ first last lower upper, rangeTokens query = some (first, last) ∧ start = some lower ∧
          finish = some upper ∧ SpansPeriods first last lower upper := by
  intro h
  have hparsed : parseTemporalScope Char.isAlphanum "from 2024-01-01 10:30 to 2024-02-01 08:15" =
      .ok (.range (some ⟨1704105000000000, none⟩) (some ⟨1706775300000000, none⟩)) := by
    decide +kernel
  have htokens : rangeTokens "from 2024-01-01 10:30 to 2024-02-01 08:15" =
      some ("2024-01-01 10:30", "2024-02-01 08:15") := by
    decide +kernel
  have hexpanded : expandToRange "2024-01-01 10:30" =
      .ok (⟨1704067200000000, none⟩, ⟨1704153599000000, none⟩) := by
    decide +kernel
  obtain ⟨first, last, lower, upper, hrange, hlower, -, ⟨-, -, -, other, hexpand⟩, -, -⟩ :=
    h _ _ _ _ hparsed
  obtain ⟨rfl, rfl⟩ := Prod.mk.inj (Option.some.inj (htokens.symm.trans hrange))
  obtain rfl := Option.some.inj hlower
  have hsame := hexpanded.symm.trans hexpand
  simp at hsame

end AgenticRag
