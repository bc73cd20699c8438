import AgenticRag.Evidence.Models

/-!
# Structured assertions

`extract_assertion` of `evidence/models.py` with its four regular expressions. A pattern
is run as `re` runs it: alternatives from left to right, repetitions as long as possible,
and the first position at which something matches.
-/

namespace AgenticRag

/-- The part of the `re` syntax that the parser uses. -/
inductive Pattern where
  | empty
  | char (accepts : Char → Bool)
  | seq (first second : Pattern)
  | alt (first second : Pattern)
  | star (body : Pattern)
  | group (body : Pattern)

namespace Pattern

/-- What is left of the text, and the groups closed so far. -/
structure State where
  groups : List (List Char)
  rest : List Char

/-- Greedy repetition; an iteration has to consume something. -/
def repeated (step : State → List State) : Nat → State → List State
  | 0, s => [s]
  | fuel + 1, s =>
    ((step s).filter fun next => decide (next.rest.length < s.rest.length)).flatMap
      (repeated step fuel) ++ [s]

/-- The part of the text consumed between two states. -/
def consumed (before after : List Char) : List Char := before.take (before.length - after.length)

/-- The matches at the front of the text, in the order backtracking finds them. -/
def run : Pattern → State → List State
  | empty, s => [s]
  | char accepts, s =>
    match s.rest with
    | [] => []
    | c :: rest => if accepts c then [{ s with rest := rest }] else []
  | seq first second, s => (first.run s).flatMap second.run
  | alt first second, s => first.run s ++ second.run s
  | star body, s => repeated body.run s.rest.length s
  | group body, s =>
    (body.run s).map fun next =>
      { next with groups := next.groups ++ [consumed s.rest next.rest] }

/-- A match: the whole of it, `group(0)`, and the groups inside. -/
structure Found where
  whole : String
  groups : List String
  deriving DecidableEq, Repr

/-- `match` at one position. -/
def attempt (pattern : Pattern) (text : List Char) : Option Found :=
  (pattern.run ⟨[], text⟩).head?.map fun s =>
    ⟨String.ofList (consumed text s.rest), s.groups.map String.ofList⟩

def search (pattern : Pattern) : List Char → Option Found
  | [] => pattern.attempt []
  | c :: rest => (pattern.attempt (c :: rest)).or (search pattern rest)

section Syntax

def literal (text : String) : Pattern :=
  text.toList.foldr (fun c pattern => seq (char fun d => decide (d = c)) pattern) empty

/-- `a|b|c`. -/
def anyOf : List String → Pattern
  | [] => char fun _ => false
  | [text] => literal text
  | text :: texts => alt (literal text) (anyOf texts)

def plus (pattern : Pattern) : Pattern := seq pattern (star pattern)

def optional (pattern : Pattern) : Pattern := alt pattern empty

def sequence (patterns : List Pattern) : Pattern := patterns.foldr seq empty

/-- The zeros of the Unicode decimal digits. -/
def zeros : List Nat :=
  [0x30, 0x660, 0x6f0, 0x7c0, 0x966, 0x9e6, 0xa66, 0xae6, 0xb66, 0xbe6, 0xc66, 0xce6, 0xd66, 0xde6,
    0xe50, 0xed0, 0xf20, 0x1040, 0x1090, 0x17e0, 0x1810, 0x1946, 0x19d0, 0x1a80, 0x1a90, 0x1b50,
    0x1bb0, 0x1c40, 0x1c50, 0xa620, 0xa8d0, 0xa900, 0xa9d0, 0xa9f0, 0xaa50, 0xabf0, 0xff10, 0x104a0,
    0x10d30, 0x11066, 0x110f0, 0x11136, 0x111d0, 0x112f0, 0x11450, 0x114d0, 0x11650, 0x116c0,
    0x11730, 0x118e0, 0x11950, 0x11c50, 0x11d50, 0x11da0, 0x11f50, 0x16a60, 0x16ac0, 0x16b50,
    0x1d7ce, 0x1d7d8, 0x1d7e2, 0x1d7ec, 0x1d7f6, 0x1e140, 0x1e2f0, 0x1e4f0, 0x1e950, 0x1fbf0]

/-- `\d`. -/
def digit : Pattern :=
  char fun c => zeros.any fun first => decide (first ≤ c.toNat ∧ c.toNat < first + 10)

/-- `str.isspace` of one character. -/
def isSpace (c : Char) : Bool :=
  decide ((9 ≤ c.toNat ∧ c.toNat ≤ 13) ∨ (0x1c ≤ c.toNat ∧ c.toNat ≤ 0x20) ∨
    (0x2000 ≤ c.toNat ∧ c.toNat ≤ 0x200a) ∨
    c.toNat ∈ [0x85, 0xa0, 0x1680, 0x2028, 0x2029, 0x202f, 0x205f, 0x3000])

/-- `\s*`. -/
def spaces : Pattern := star (char isSpace)

/-- `[A-Za-z_一-龥]`. -/
def keyChar : Pattern :=
  char fun c => decide (('A' ≤ c ∧ c ≤ 'Z') ∨ ('a' ≤ c ∧ c ≤ 'z') ∨ c = '_' ∨
    (0x4e00 ≤ c.toNat ∧ c.toNat ≤ 0x9fa5))

def oneOf (chars : List Char) : Pattern := char fun c => decide (c ∈ chars)

end Syntax

end Pattern

section Expressions

open Pattern

def versionRe : Pattern :=
  sequence
    [anyOf ["v", "version", "版本"], spaces, optional (oneOf [':', '=']), spaces,
      group (seq (plus digit) (star (seq (oneOf ['.']) (plus digit))))]

def keyValueRe : Pattern :=
  sequence
    [group (plus keyChar), spaces, oneOf [':', '：'], spaces, group (plus (char fun c => !isSpace c))]

def quantityRe : Pattern :=
  sequence
    [group (seq (plus digit) (optional (seq (oneOf ['.']) (plus digit)))), spaces,
      group (anyOf
        ["s", "ms", "seconds", "minutes", "分钟", "秒", "小时", "mb", "gb", "kb", "%", "个", "条"])]

def booleanRe : Pattern :=
  anyOf ["enabled", "disabled", "true", "false", "开启", "关闭", "启用", "停用", "是", "否"]

end Expressions

inductive ValueKind where
  | version
  | boolean
  | quantity
  | keyValue
  deriving DecidableEq, Repr

structure AssertionExtraction where
  isStructured : Bool
  value : Option String
  valueKind : Option ValueKind
  key : Option String
  deriving DecidableEq, Repr

def AssertionExtraction.unstructured : AssertionExtraction := ⟨false, none, none, none⟩

/-- `extract_assertion`: the first of the four forms that occurs. -/
def extractAssertion (text : String) : AssertionExtraction :=
  if text = "" then
    .unstructured
  else
    match versionRe.search text.toList with
    | some found => ⟨true, some ("v" ++ found.groups.getD 0 ""), some .version, some "version"⟩
    | none =>
      match keyValueRe.search text.toList with
      | some found =>
        ⟨true, some (found.groups.getD 1 ""), some .keyValue, some (found.groups.getD 0 "")⟩
      | none =>
        match quantityRe.search text.toList with
        | some found =>
          ⟨true, some (found.groups.getD 0 "" ++ found.groups.getD 1 ""), some .quantity, none⟩
        | none =>
          match booleanRe.search text.toList with
          | some found => ⟨true, some found.whole.toLower, some .boolean, none⟩
          | none => .unstructured

/-- An assertion has a value and a kind, and nothing else has. -/
theorem extractAssertion_isStructured (text : String) :
    (extractAssertion text).isStructured = (extractAssertion text).value.isSome ∧
      (extractAssertion text).isStructured = (extractAssertion text).valueKind.isSome := by
  unfold extractAssertion
  split_ifs
  · exact ⟨rfl, rfl⟩
  · split
    · exact ⟨rfl, rfl⟩
    · split
      · exact ⟨rfl, rfl⟩
      · split
        · exact ⟨rfl, rfl⟩
        · split
          · exact ⟨rfl, rfl⟩
          · exact ⟨rfl, rfl⟩

example : extractAssertion "timeout: 30s" = ⟨true, some "30s", some .keyValue, some "timeout"⟩ := by
  decide

end AgenticRag
