import Mathlib.Tactic

/-!
# Payloads and filters

A payload is a JSON object of which only the top-level fields are read. A filter
selects payloads as a vector database does: every condition of `must`, one of
`should` unless there is none, and no condition of `must_not`. A condition on a field
that holds a list is met if one of its elements meets it, and a missing field meets
no condition.
-/

namespace AgenticRag

/-- A JSON value that is not a list; objects, floats and lists inside a list stand for
their text and their truth value. -/
inductive Atom where
  | null
  | bool (value : Bool)
  | int (value : Int)
  | str (text : String)
  | nested (text : String) (truthy : Bool)
  deriving DecidableEq, Repr

inductive Json where
  | atom (value : Atom)
  | list (items : List Atom)
  deriving DecidableEq, Repr

namespace Json

@[match_pattern] def str (text : String) : Json := .atom (.str text)

@[match_pattern] def bool (value : Bool) : Json := .atom (.bool value)

@[match_pattern] def null : Json := .atom .null

def strings (texts : List String) : Json := .list (texts.map .str)

def isList : Json → Bool
  | .atom _ => false
  | .list _ => true

end Json

/-- The fields of a JSON object. -/
abbrev Payload := String → Option Json

/-- `MatchValue` and `MatchAny`. -/
inductive FieldMatch where
  | value (expected : Atom)
  | any (texts : List String)
  deriving DecidableEq, Repr

def FieldMatch.acceptsAtom : FieldMatch → Atom → Bool
  | .value expected, item => decide (item = expected)
  | .any texts, .str text => decide (text ∈ texts)
  | .any _, _ => false

/-- A list is accepted for one of its elements. -/
def FieldMatch.accepts (m : FieldMatch) : Json → Bool
  | .atom item => m.acceptsAtom item
  | .list items => items.any m.acceptsAtom

structure FieldCondition where
  key : String
  fieldMatch : FieldMatch
  deriving DecidableEq, Repr

def FieldCondition.met (condition : FieldCondition) (payload : Payload) : Bool :=
  match payload condition.key with
  | some found => condition.fieldMatch.accepts found
  | none => false

/-- `must`, `should` and `must_not` over conditions `κ`. -/
structure Filter (κ : Type) where
  must : List κ
  should : List κ
  mustNot : List κ
  deriving DecidableEq, Repr

def Filter.holds {κ : Type} (filter : Filter κ) (met : κ → Bool) : Bool :=
  filter.must.all met && (filter.should.isEmpty || filter.should.any met) &&
    !filter.mustNot.any met

/-- A condition on a field, or a filter of such conditions. -/
inductive Condition where
  | field (condition : FieldCondition)
  | clause (filter : Filter FieldCondition)
  deriving DecidableEq, Repr

def Condition.met (payload : Payload) : Condition → Bool
  | .field condition => condition.met payload
  | .clause filter => filter.holds fun condition => condition.met payload

def Filter.selects (filter : Filter Condition) (payload : Payload) : Bool :=
  filter.holds (Condition.met payload)

section Selection

variable {payload : Payload} {key : String}

/-- A scalar field meets `MatchValue` if it is the value. -/
theorem met_value {item expected : Atom} (h : payload key = some (.atom item)) :
    FieldCondition.met ⟨key, .value expected⟩ payload = decide (item = expected) := by
  simp only [FieldCondition.met, h, FieldMatch.accepts, FieldMatch.acceptsAtom]

/-- A text field meets `MatchAny` if it is one of the texts. -/
theorem met_any_text {text : String} {texts : List String} (h : payload key = some (.str text)) :
    FieldCondition.met ⟨key, .any texts⟩ payload = decide (text ∈ texts) := by
  simp only [FieldCondition.met, h, Json.str, FieldMatch.accepts, FieldMatch.acceptsAtom]

/-- A list of texts meets `MatchAny` if the two lists share a text. -/
theorem met_any_texts {found texts : List String} (h : payload key = some (.strings found)) :
    FieldCondition.met ⟨key, .any texts⟩ payload = true ↔ ∃ text ∈ texts, text ∈ found := by
  simp only [FieldCondition.met, h, Json.strings, FieldMatch.accepts, List.any_map, List.any_eq_true]
  constructor
  · rintro ⟨text, hfound, hmet⟩
    exact ⟨text, of_decide_eq_true hmet, hfound⟩
  · rintro ⟨text, htext, hfound⟩
    exact ⟨text, hfound, decide_eq_true htext⟩

theorem selects_iff {filter : Filter Condition} :
    filter.selects payload = true ↔
      (∀ condition ∈ filter.must, condition.met payload = true) ∧
      (filter.should = [] ∨ ∃ condition ∈ filter.should, condition.met payload = true) ∧
      ∀ condition ∈ filter.mustNot, condition.met payload = false := by
  simp only [Filter.selects, Filter.holds, Bool.and_eq_true, Bool.or_eq_true, Bool.not_eq_true',
    List.all_eq_true, List.any_eq_true, List.isEmpty_iff, List.any_eq_false, Bool.not_eq_true,
    and_assoc]

/-- A filter that is only a `should`. -/
theorem met_should {conditions : List FieldCondition} (hne : conditions ≠ []) :
    Condition.met payload (.clause ⟨[], conditions, []⟩) = true ↔
      ∃ condition ∈ conditions, condition.met payload = true := by
  simp only [Condition.met, Filter.holds, List.all_nil, List.any_nil, Bool.true_and, Bool.not_false,
    Bool.and_true, Bool.or_eq_true, List.isEmpty_iff, List.any_eq_true]
  exact or_iff_right hne

end Selection

end AgenticRag
