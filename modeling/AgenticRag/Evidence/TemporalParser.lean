import AgenticRag.Evidence.Assertion
import AgenticRag.Foundations.Calendar
import AgenticRag.Planner.Binding
import AgenticRag.Storage.MetadataStore

/-!
# The temporal scope of a query

`parse_temporal_scope` of `domain/temporal.py`: explicit ranges, then `as_of` markers, then
markers of the present, then the first plausible date. `strptime` turns a format into a
regular expression and takes the fields from its groups.
-/

namespace AgenticRag

open Pattern

/-- A day that exists. -/
structure CalendarDate where
  year : Nat
  month : Nat
  day : Nat
  valid : Calendar.ValidDate year month day

namespace CalendarDate

/-- The naive `datetime` at a time of the day. -/
def time (date : CalendarDate) (hour minute second : Nat) : Datetime where
  wall := (((Calendar.ordinal date.year date.month date.day : Int) - 719163) * 86400 +
    hour * 3600 + minute * 60 + second) * 1000000
  utcOffset := none

variable (date : CalendarDate)

/-- `datetime(dt.year, 1, 1)`. -/
def newYear : CalendarDate := ⟨date.year, 1, 1, date.valid.1, by decide, by simp [Calendar.daysInMonth]⟩

/-- `datetime(dt.year, 12, 31)`. -/
def newYearsEve : CalendarDate :=
  ⟨date.year, 12, 31, date.valid.1, by decide, by simp [Calendar.daysInMonth]⟩

/-- `datetime(dt.year, dt.month, 1)`. -/
def firstOfMonth : CalendarDate :=
  ⟨date.year, date.month, 1, date.valid.1, date.valid.2.1, by
    have hdays := Calendar.daysInMonth_ge date.year date.month
    omega⟩

/-- `datetime(dt.year, dt.month, monthrange(dt.year, dt.month)[1])`. -/
def lastOfMonth : CalendarDate :=
  ⟨date.year, date.month, Calendar.daysInMonth date.year date.month, date.valid.1, date.valid.2.1, by
    have hdays := Calendar.daysInMonth_ge date.year date.month
    omega⟩

end CalendarDate

/-- What `strptime` returns; no format has seconds. -/
structure ParsedDate where
  date : CalendarDate
  hour : Fin 24
  minute : Fin 60

namespace ParsedDate

def time (parsed : ParsedDate) : Datetime := parsed.date.time parsed.hour parsed.minute 0

/-- `datetime(year, month, day, hour, minute)`. -/
def make (year month day hour minute : Nat) : Option ParsedDate :=
  if hdate : Calendar.ValidDate year month day then
    if hhour : hour < 24 then
      if hminute : minute < 60 then
        some ⟨⟨year, month, day, hdate⟩, ⟨hour, hhour⟩, ⟨minute, hminute⟩⟩
      else none
    else none
  else none

end ParsedDate

namespace Pattern

/-- `fullmatch` finds something. -/
def fullmatch (pattern : Pattern) (text : List Char) : Bool :=
  (pattern.run ⟨[], text⟩).any fun s => s.rest.isEmpty

/-- `findall` of a pattern without groups, from a position on. -/
def findallFrom (pattern : Pattern) : Nat → List Char → List String
  | 0, _ => []
  | fuel + 1, text =>
    match pattern.attempt text with
    | some found => found.whole :: findallFrom pattern fuel (text.drop (max 1 found.whole.length))
    | none => findallFrom pattern fuel (text.drop 1)

/-- `findall`; a match starts at each position at most. -/
def findall (pattern : Pattern) (text : List Char) : List String :=
  pattern.findallFrom (text.length + 1) text

/-- A text in lower case, under `re.IGNORECASE`. -/
def anyCase (text : String) : Pattern :=
  text.toList.foldr (fun c pattern => seq (char fun d => decide (d.toLower = c)) pattern) empty

/-- `\s+`. -/
def blanks : Pattern := plus (char isSpace)

/-- `\d{4}`. -/
def fourDigits : Pattern := sequence [digit, digit, digit, digit]

/-- `\d{2}`. -/
def twoDigits : Pattern := seq digit digit

/-- `\d{1,2}`. -/
def upToTwoDigits : Pattern := alt twoDigits digit

end Pattern

section Strptime

/-- A piece of a format: `%Y`, `%m`, `%d`, `%H`, `%M`, a character or blanks. -/
inductive Directive where
  | year
  | month
  | day
  | hour
  | minute
  | literal (c : Char)
  | blanks
  deriving DecidableEq, Repr

namespace Directive

def isField : Directive → Bool
  | literal _ | blanks => false
  | _ => true

/-- The regular expression of a directive; each field is a group. -/
def pattern : Directive → Pattern
  | year => group fourDigits
  | month =>
    group (alt (seq (oneOf ['1']) (oneOf "012".toList))
      (alt (seq (oneOf ['0']) (oneOf "123456789".toList)) (oneOf "123456789".toList)))
  | day =>
    group (alt (seq (oneOf ['3']) (oneOf "01".toList)) (alt (seq (oneOf "12".toList) digit)
      (alt (seq (oneOf ['0']) (oneOf "123456789".toList)) (alt (oneOf "123456789".toList)
        (seq (oneOf [' ']) (oneOf "123456789".toList))))))
  | hour =>
    group (alt (seq (oneOf ['2']) (oneOf "0123".toList)) (alt (seq (oneOf "01".toList) digit) digit))
  | minute => group (alt (seq (oneOf "012345".toList) digit) digit)
  | literal c => oneOf [c]
  | blanks => Pattern.blanks

end Directive

/-- `int` of one digit. -/
def digitValue (c : Char) : Nat :=
  c.toNat - (zeros.find? fun first => decide (first ≤ c.toNat ∧ c.toNat < first + 10)).getD 0

/-- `int` of a group. -/
def intOf (text : List Char) : Nat :=
  (text.filter fun c => !isSpace c).foldl (fun n c => 10 * n + digitValue c) 0

/-- The values of the fields, with the defaults of `_strptime`. -/
def fromFields (found : List (Directive × Nat)) : Option ParsedDate :=
  ParsedDate.make ((found.lookup .year).getD 1900) ((found.lookup .month).getD 1)
    ((found.lookup .day).getD 1) ((found.lookup .hour).getD 0) ((found.lookup .minute).getD 0)

/-- `strptime`, nothing where it raises `ValueError`. -/
def strptime (format : List Directive) (text : List Char) : Option ParsedDate :=
  match ((Pattern.sequence (format.map Directive.pattern)).run ⟨[], text⟩).head? with
  | none => none
  | some s =>
    -- unconverted data remains
    if s.rest ≠ [] then none
    else fromFields ((format.filter Directive.isField).zip (s.groups.map intOf))

def dateFormats : List (List Directive) :=
  [[.year, .literal '-', .month, .literal '-', .day, .blanks, .hour, .literal ':', .minute],
    [.year, .literal '-', .month, .literal '-', .day],
    [.year, .literal '/', .month, .literal '/', .day],
    [.year, .literal '年', .month, .literal '月', .day, .literal '日'],
    [.year, .literal '年', .month, .literal '月'],
    [.year, .literal '年'],
    [.year]]

def parseDate (raw : String) : Option ParsedDate :=
  dateFormats.findSome? fun format => strptime format (Planner.strip raw.toList)

end Strptime

section Expressions

def datePattern : Pattern :=
  alt (sequence [fourDigits, literal "-", twoDigits, literal "-", twoDigits,
      optional (sequence [blanks, twoDigits, literal ":", twoDigits])])
    (alt (sequence [fourDigits, literal "/", twoDigits, literal "/", twoDigits])
      (alt (sequence [fourDigits, literal "年",
          optional (sequence [upToTwoDigits, literal "月",
            optional (seq upToTwoDigits (literal "日"))])])
        fourDigits))

/-- A range whose bounds stand on both sides of a separator. -/
def separatedBy (separator : String) : List Pattern :=
  [group datePattern, spaces, literal separator, spaces, group datePattern]

def rangePatterns : List Pattern :=
  [sequence [anyCase "between", blanks, group datePattern, blanks, anyCase "and", blanks,
      group datePattern],
    sequence [anyCase "from", blanks, group datePattern, blanks, anyCase "to", blanks,
      group datePattern],
    sequence (separatedBy "至"),
    sequence (separatedBy "到"),
    sequence (separatedBy "~"),
    sequence (separatedBy "和" ++ [spaces, literal "之间"])]

/-- `_AS_OF_PREFIX_RE`. -/
def asOfBeforeRe : Pattern :=
  sequence
    [alt (literal "截至") (alt (literal "截止")
      (alt (sequence [literal "as", blanks, literal "of"]) (literal "as_of"))),
      spaces, optional (oneOf [':', '：']), spaces, group datePattern]

/-- `_AS_OF_SUFFIX_RE`. -/
def asOfAfterRe : Pattern := sequence [group datePattern, spaces, literal "为止"]

/-- `\d{4}(?:年)?`. -/
def yearRe : Pattern := seq fourDigits (optional (literal "年"))

/-- `\d{4}年\d{1,2}月`. -/
def monthRe : Pattern := sequence [fourDigits, literal "年", upToTwoDigits, literal "月"]

end Expressions

section Parser

def expandToRange (raw : String) : Except PyError (Datetime × Datetime) :=
  match parseDate raw with
  | none => .error (.valueError ("cannot parse temporal date token: " ++ raw))
  | some parsed =>
    if yearRe.fullmatch raw.toList then
      .ok (parsed.date.newYear.time 0 0 0, parsed.date.newYearsEve.time 23 59 59)
    else if monthRe.fullmatch raw.toList then
      .ok (parsed.date.firstOfMonth.time 0 0 0, parsed.date.lastOfMonth.time 23 59 59)
    else
      .ok (parsed.date.time 0 0 0, parsed.date.time 23 59 59)

/-- `":" in token`. -/
def namesTime (token : String) : Bool := decide (':' ∈ token.toList)

/-- The start of an explicit range. -/
def startBound (token : String) (parsed : ParsedDate) : Datetime :=
  if namesTime token then parsed.time else parsed.date.time 0 0 0

/-- The end of an explicit range. -/
def endBound (token : String) (parsed : ParsedDate) : Datetime :=
  if namesTime token then parsed.time else parsed.date.time 23 59 59

/-- The two date tokens of an explicit range, with their dates: the first pattern that is
found with two dates that can be parsed. -/
def explicitDates (query : String) : Option ((String × ParsedDate) × (String × ParsedDate)) :=
  rangePatterns.findSome? fun pattern => do
    let found ← pattern.search query.toList
    let start ← parseDate (found.groups.getD 0 "")
    let finish ← parseDate (found.groups.getD 1 "")
    return ((found.groups.getD 0 "", start), (found.groups.getD 1 "", finish))

/-- `as_of_date`; the second marker is only looked for without the first one. -/
def asOfDate (query : String) : Option ParsedDate :=
  match asOfBeforeRe.search query.toList with
  | some found => parseDate (found.groups.getD 0 "")
  | none => (asOfAfterRe.search query.toList).bind fun found => parseDate (found.groups.getD 0 "")

/-- `_CURRENT_RE` at one position; `\b` looks at the characters before and after a word. -/
def currentAt (wordChar : Char → Bool) (before : Option Char) (text : List Char) : Bool :=
  ["当前", "现在", "目前"].any (fun marker => ((literal marker).attempt text).isSome) ||
    ["current", "now", "today"].any fun word =>
      ((anyCase word).attempt text).isSome && !before.any wordChar &&
        !(text.drop word.length).head?.any wordChar

/-- `_CURRENT_RE.search`. -/
def mentionsCurrent (wordChar : Char → Bool) (before : Option Char) : List Char → Bool
  | [] => currentAt wordChar before []
  | c :: text => currentAt wordChar before (c :: text) || mentionsCurrent wordChar (some c) text

/-- A date between `_MIN_YEAR` and `_MAX_YEAR`. -/
def inYearBand (raw : String) : Bool :=
  (parseDate raw).any fun parsed => decide (1900 ≤ parsed.date.year ∧ parsed.date.year ≤ 2999)

/-- The date token of a query without markers. -/
def bareToken (query : String) : Option String := (datePattern.findall query.toList).find? inYearBand

/-- `parse_temporal_scope`; the argument `now` is not looked at. -/
def parseTemporalScope (wordChar : Char → Bool) (query : String) : Except PyError TemporalScope :=
  match explicitDates query with
  | some ((first, start), (last, finish)) =>
    .ok (.range (some (startBound first start)) (some (endBound last finish)))
  | none =>
    match asOfDate query with
    | some parsed => .ok (.asOf (some parsed.time))
    | none =>
      if mentionsCurrent wordChar none query.toList then .ok .current
      else if (asOfBeforeRe.search query.toList).isSome ∨ (asOfAfterRe.search query.toList).isSome then
        .ok .unspecified
      else
        match bareToken query with
        | some raw => (expandToRange raw).map fun bounds => .range (some bounds.1) (some bounds.2)
        | none => .ok .unspecified

end Parser

end AgenticRag
