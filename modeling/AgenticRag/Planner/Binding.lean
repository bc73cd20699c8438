import AgenticRag.Planner.Plan
import Mathlib.Tactic

/-!
# The binding grammar

`planner/binding.py` and the search for template placeholders. A binding is
`steps.<id>.outputs.<field>` or `facts.<id>.value`, a placeholder is `{{<id>.<field>}}`.
The patterns of bindings end in `$`, which also matches before a final newline.
-/

namespace AgenticRag

namespace Planner

/-- A character that `\s` and `str.strip` take for whitespace. -/
def isSpace (c : Char) : Bool :=
  let n := c.toNat
  decide ((9 ≤ n ∧ n ≤ 13) ∨ (28 ≤ n ∧ n ≤ 32) ∨ n = 0x85 ∨ n = 0xA0 ∨ n = 0x1680 ∨
    (0x2000 ≤ n ∧ n ≤ 0x200A) ∨ n = 0x2028 ∨ n = 0x2029 ∨ n = 0x202F ∨ n = 0x205F ∨ n = 0x3000)

/-- `str.strip()`, on characters. -/
def strip (text : List Char) : List Char :=
  ((text.dropWhile isSpace).reverse.dropWhile isSpace).reverse

/-- The pattern `[A-Za-z_][A-Za-z0-9_]*`. -/
def isIdentifier : List Char → Bool
  | [] => false
  | c :: rest => (c.isAlpha || c = '_') && rest.all fun c => c.isAlphanum || c = '_'

/-- What a parsed binding refers to. -/
inductive BindingTarget where
  | stepOutput (stepId outputField : String)
  | factValue (factId : String)
  deriving DecidableEq, Repr

structure BindingExpression where
  raw : String
  target : BindingTarget
  deriving DecidableEq, Repr

/-- The text a pattern ending in `$` must match to the end. -/
def beforeFinalNewline (text : List Char) : List Char :=
  match text.getLast? with
  | some '\n' => text.dropLast
  | _ => text

namespace BindingExpression

/-- What a binding without final newline refers to. -/
def targetOf (text : List Char) : Option BindingTarget :=
  match text.splitOn '.' with
  | [first, id, second, field] =>
    if first = "steps".toList ∧ isIdentifier id = true ∧ second = "outputs".toList ∧
        isIdentifier field = true then
      some (.stepOutput (String.ofList id) (String.ofList field))
    else none
  | [first, id, second] =>
    if first = "facts".toList ∧ isIdentifier id = true ∧ second = "value".toList then
      some (.factValue (String.ofList id))
    else none
  | _ => none

def parse (raw : String) : Except PyException BindingExpression :=
  if raw = "" then .error (.bindingSyntaxError "empty binding value: ''")
  else
    match targetOf (beforeFinalNewline raw.toList) with
    | some target => .ok ⟨raw, target⟩
    | none => .error (.bindingSyntaxError
        ("binding '" ++ raw ++ "' is not 'steps.<id>.outputs.<field>' or 'facts.<id>.value'"))

/-- `<id>.<field>` between the braces of a placeholder. -/
def placeholderTarget (inner : List Char) : Option (String × String) :=
  match (strip inner).splitOn '.' with
  | [id, field] =>
    if isIdentifier id = true ∧ isIdentifier field = true then
      some (String.ofList id, String.ofList field)
    else none
  | _ => none

/-- The text between `{{` and `}}`. -/
def braced (text : List Char) : Option (List Char) :=
  if text.take 2 = ['\x7b', '\x7b'] ∧ text.reverse.take 2 = ['\x7d', '\x7d'] ∧ 4 ≤ text.length then
    some ((text.drop 2).dropLast.dropLast)
  else none

def parseTemplatePlaceholder (placeholder : String) : Except PyException BindingExpression :=
  if placeholder = "" then .error (.bindingSyntaxError "empty template placeholder: ''")
  else
    match (braced (beforeFinalNewline (strip placeholder.toList))).bind placeholderTarget with
    | some (stepId, field) => .ok ⟨placeholder, .stepOutput stepId field⟩
    | none => .error (.bindingSyntaxError
        ("template placeholder '" ++ placeholder ++ "' is not '\x7b\x7bstep_id.field\x7d\x7d'"))

end BindingExpression

/-- A piece of a template: text that stays, or a match of `\{\{[^}]+\}\}`. -/
inductive TemplatePiece where
  | text (c : Char)
  | placeholder (source : List Char)
  deriving DecidableEq, Repr

/-- The placeholder with which the text begins. -/
def placeholderAt : List Char → Option (List Char)
  | '\x7b' :: '\x7b' :: rest =>
    let inner := rest.takeWhile fun c => decide (c ≠ '\x7d')
    match rest.dropWhile fun c => decide (c ≠ '\x7d') with
    | '\x7d' :: '\x7d' :: _ =>
      if inner = [] then none else some ('\x7b' :: '\x7b' :: (inner ++ ['\x7d', '\x7d']))
    | _ => none
  | _ => none

/-- The matches of the placeholder pattern from left to right, with the text around them;
the first characters still belong to the last match. -/
def templatePiecesAfter : Nat → List Char → List TemplatePiece
  | _, [] => []
  | matched + 1, _ :: rest => templatePiecesAfter matched rest
  | 0, c :: rest =>
    match placeholderAt (c :: rest) with
    | some source => .placeholder source :: templatePiecesAfter (source.length - 1) rest
    | none => .text c :: templatePiecesAfter 0 rest

def templatePieces (template : String) : List TemplatePiece :=
  templatePiecesAfter 0 template.toList

/-- `_TMPL_FIND_RE.findall`. -/
def findPlaceholders (template : String) : List String :=
  (templatePieces template).filterMap fun
    | .text _ => none
    | .placeholder source => some (String.ofList source)

end Planner

end AgenticRag
