import AgenticRag.Planner.StepRuns
import Mathlib.Data.List.TakeWhile

/-!
# Queries and bindings at run time

The validator and the executor decide about queries, templates and bindings separately. What
the executor resolves for the steps of an accepted plan, and which bindings are parsed.
-/

namespace AgenticRag

namespace Planner

section Grammar

/-- The bindings of the grammar: `steps.<id>.outputs.<field>` and `facts.<id>.value`. -/
def InGrammar (raw : String) : Prop :=
  (∃ id field, isIdentifier id.toList = true ∧ isIdentifier field.toList = true ∧
    raw = "steps." ++ id ++ ".outputs." ++ field) ∨
  ∃ id, isIdentifier id.toList = true ∧ raw = "facts." ++ id ++ ".value"

theorem isIdentifier_mem {text : List Char} (h : isIdentifier text = true) {c : Char} (hc : c ∈ text) :
    c.isAlphanum = true ∨ c = '_' := by
  cases text with
  | nil => cases hc
  | cons first rest =>
    simp only [isIdentifier, Bool.and_eq_true, Bool.or_eq_true, List.all_eq_true, decide_eq_true_eq] at h
    rcases List.mem_cons.mp hc with rfl | hc
    · exact h.1.imp (fun halpha => by simp [Char.isAlphanum, halpha]) id
    · exact h.2 c hc

theorem isIdentifier_ne_nil {text : List Char} (h : isIdentifier text = true) : text ≠ [] := by
  rintro rfl
  cases h

theorem isIdentifier_dot {text : List Char} (h : isIdentifier text = true) : '.' ∉ text := by
  intro hdot
  have hmem := isIdentifier_mem h hdot
  revert hmem
  decide

theorem isIdentifier_newline {text : List Char} (h : isIdentifier text = true) : '\n' ∉ text := by
  intro hnewline
  have hmem := isIdentifier_mem h hnewline
  revert hmem
  decide

variable {raw : String}

/-- The texts with a target are those of the grammar. -/
theorem targetOf_isSome :
    (BindingExpression.targetOf raw.toList).isSome = true ↔ InGrammar raw := by
  have hjoined : ['.'].intercalate (raw.toList.splitOn '.') = raw.toList := List.intercalate_splitOn '.'
  constructor
  · intro h
    unfold BindingExpression.targetOf at h
    split at h
    · rename_i first id second field hsplit
      split at h
      · rename_i hparts
        obtain ⟨rfl, hid, rfl, hfield⟩ := hparts
        refine Or.inl ⟨String.ofList id, String.ofList field, by simpa using hid, by simpa using hfield, ?_⟩
        rw [hsplit] at hjoined
        apply String.toList_injective
        rw [← hjoined]
        simp [List.intercalate]
      · cases h
    · rename_i first id second hsplit
      split at h
      · rename_i hparts
        obtain ⟨rfl, hid, rfl⟩ := hparts
        refine Or.inr ⟨String.ofList id, by simpa using hid, ?_⟩
        rw [hsplit] at hjoined
        apply String.toList_injective
        rw [← hjoined]
        simp [List.intercalate]
      · cases h
    · cases h
  · rintro (⟨id, field, hid, hfield, rfl⟩ | ⟨id, hid, rfl⟩)
    · have hjoin : ("steps." ++ id ++ ".outputs." ++ field).toList =
          ['.'].intercalate ["steps".toList, id.toList, "outputs".toList, field.toList] := by
        simp [List.intercalate]
      have hdots : ∀ part ∈ ["steps".toList, id.toList, "outputs".toList, field.toList], '.' ∉ part := by
        intro part hpart
        simp only [List.mem_cons, List.not_mem_nil, or_false] at hpart
        rcases hpart with rfl | rfl | rfl | rfl
        · decide
        · exact isIdentifier_dot hid
        · decide
        · exact isIdentifier_dot hfield
      unfold BindingExpression.targetOf
      rw [hjoin, List.splitOn_intercalate '.' hdots (by simp)]
      dsimp only
      rw [if_pos ⟨rfl, hid, rfl, hfield⟩]
      rfl
    · have hjoin : ("facts." ++ id ++ ".value").toList =
          ['.'].intercalate ["facts".toList, id.toList, "value".toList] := by
        simp [List.intercalate]
      have hdots : ∀ part ∈ ["facts".toList, id.toList, "value".toList], '.' ∉ part := by
        intro part hpart
        simp only [List.mem_cons, List.not_mem_nil, or_false] at hpart
        rcases hpart with rfl | rfl | rfl
        · decide
        · exact isIdentifier_dot hid
        · decide
      unfold BindingExpression.targetOf
      rw [hjoin, List.splitOn_intercalate '.' hdots (by simp)]
      dsimp only
      rw [if_pos ⟨rfl, hid, rfl⟩]
      rfl

/-- What is parsed: a text of the grammar, with a final newline or without. -/
theorem parse_ok_iff : (∃ expr, BindingExpression.parse raw = .ok expr) ↔
    InGrammar (String.ofList (beforeFinalNewline raw.toList)) := by
  rw [← targetOf_isSome, String.toList_ofList]
  by_cases hempty : raw = ""
  · subst hempty
    constructor
    · rintro ⟨expr, hexpr⟩
      cases hexpr
    · intro h
      simp [beforeFinalNewline, BindingExpression.targetOf] at h
  · unfold BindingExpression.parse
    rw [if_neg hempty]
    cases BindingExpression.targetOf (beforeFinalNewline raw.toList) with
    | none => simp
    | some target => simp

/-- A text of the grammar does not end in a newline. -/
theorem InGrammar.getLast (h : InGrammar raw) : raw.toList.getLast? ≠ some '\n' := by
  rcases h with ⟨id, field, -, hfield, rfl⟩ | ⟨id, -, rfl⟩
  · intro hlast
    have hnonempty := isIdentifier_ne_nil hfield
    rw [String.toList_append, List.getLast?_append_of_ne_nil _ hnonempty] at hlast
    exact isIdentifier_newline hfield (List.mem_of_getLast? hlast)
  · intro hlast
    rw [String.toList_append, List.getLast?_append_of_ne_nil _ (by decide)] at hlast
    revert hlast
    decide

/-- Exactly a final newline is accepted against the grammar. -/
theorem parse_exact_iff :
    ((∃ expr, BindingExpression.parse raw = .ok expr) ↔ InGrammar raw) ↔
      ¬∃ text, InGrammar text ∧ raw = text ++ "\n" := by
  rw [parse_ok_iff]
  by_cases hlast : raw.toList.getLast? = some '\n'
  · obtain ⟨rest, hrest⟩ := List.getLast?_eq_some_iff.mp hlast
    have hraw : raw = String.ofList rest ++ "\n" := by
      apply String.toList_injective
      simp [hrest]
    have hbefore : beforeFinalNewline raw.toList = rest := by
      unfold beforeFinalNewline
      rw [hlast, hrest]
      simp
    have hout : ¬InGrammar raw := fun h => h.getLast hlast
    rw [hbefore]
    constructor
    · rintro h ⟨text, htext, rfl⟩
      have hsame : String.ofList rest = text := by
        apply String.toList_injective
        simpa using congrArg String.toList hraw.symm
      exact hout (h.mp (hsame ▸ htext))
    · intro h
      exact ⟨fun hrest => absurd ⟨_, hrest, hraw⟩ h, fun hraw => absurd hraw hout⟩
  · have hbefore : beforeFinalNewline raw.toList = raw.toList := by
      unfold beforeFinalNewline
      split
      · exact absurd ‹_› hlast
      · rfl
    rw [hbefore, String.ofList_toList]
    refine ⟨fun _ => ?_, fun _ => Iff.rfl⟩
    rintro ⟨text, -, rfl⟩
    simp at hlast

end Grammar

section Blank

def Blank (text : List Char) : Prop := ∀ c ∈ text, isSpace c = true

theorem strip_eq_nil_iff {text : List Char} : strip text = [] ↔ Blank text := by
  constructor
  · intro h c hc
    have hrest : ∀ c ∈ text.dropWhile isSpace, isSpace c = true := by
      intro c hc
      exact List.dropWhile_eq_nil_iff.mp (List.reverse_eq_nil_iff.mp h) c (List.mem_reverse.mpr hc)
    rw [← List.takeWhile_append_dropWhile (p := isSpace) (l := text)] at hc
    rcases List.mem_append.mp hc with hfirst | hlast
    · exact List.mem_takeWhile_imp hfirst
    · exact hrest c hlast
  · intro h
    have hnone : text.dropWhile isSpace = [] := List.dropWhile_eq_nil_iff.mpr h
    simp [strip, hnone]

theorem blank_append {text rest : List Char} : Blank (text ++ rest) ↔ Blank text ∧ Blank rest := by
  simp only [Blank, List.mem_append]
  constructor
  · intro h
    exact ⟨fun c hc => h c (Or.inl hc), fun c hc => h c (Or.inr hc)⟩
  · rintro ⟨htext, hrest⟩ c (hc | hc)
    · exact htext c hc
    · exact hrest c hc

end Blank

section Queries

/-- `_extract_query` of `planner/tool_registry.py`: the query a Tool starts from. -/
def extractQuery (inputs : Dict Value) : Except PyException String :=
  match inputs.lookup "__query__" with
  | some (.str query) =>
    if strip query.toList = [] then
      .error (.valueError "resolved_inputs must contain a non-empty __query__ string")
    else .ok query
  | _ => .error (.valueError "resolved_inputs must contain a non-empty __query__ string")

/-- A field of another step that a binding or a placeholder of a step refers to. -/
def Refers (step : PlanStep) (stepId field : String) : Prop :=
  (∃ name raw expr, (name, raw) ∈ step.inputBindings ∧ BindingExpression.parse raw = .ok expr ∧
    expr.target = .stepOutput stepId field) ∨
  ∃ template source expr, step.queryTemplate = some template ∧ source ∈ findPlaceholders template ∧
    BindingExpression.parseTemplatePlaceholder source = .ok expr ∧ expr.target = .stepOutput stepId field

/-- All dependencies of a step succeeded, and the fields it refers to are present and not
blank. -/
structure Ready (completed : List StepResult) (step : PlanStep) : Prop where
  succeeded : ∀ dep ∈ step.allDependencyIds, Succeeded completed dep
  fields : ∀ stepId field r, Refers step stepId field → resultOf completed stepId = some r →
    r.output field ≠ .none ∧ ¬Blank (r.output field).text.toList

/-- The inputs of a step are resolved, with a query that is not blank. -/
def Resolves (plan : QueryPlan) (completed : List StepResult) (spec : ToolSpec) (step : PlanStep) : Prop :=
  ∃ inputs query, resolveInputs plan completed spec step = .ok inputs ∧ extractQuery inputs = .ok query

/-- The text from which the query of a step is made: its query if there is one, otherwise
its template. -/
def PlanStep.queryText (step : PlanStep) : Option String := step.query.or step.queryTemplate

def WritesQuery (step : PlanStep) : Prop := ∃ text, step.queryText = some text ∧ ¬Blank text.toList

variable {plan : QueryPlan} {completed : List StepResult} {step : PlanStep} {spec : ToolSpec}

/-- The checks of the bindings and placeholders of a step of an accepted plan. -/
theorem bindings_of_accepted {ctx : SecurityContext} {registry : CorpusRegistry}
    (h : (PlanValidator.validate plan ctx registry).accepted = true) (hstep : step ∈ plan.steps) :
    PlanValidator.bindingViolations (plan.requiredFacts.map (·.factId)) step = [] := by
  have hnone := PlanValidator.accepted_iff.mp h
  simp only [PlanValidator.allViolations, List.append_eq_nil_iff, List.flatMap_eq_nil_iff] at hnone
  tauto

/-- A required fact that exists has a value. -/
theorem factValue_of_mem {factId : String} (h : factId ∈ plan.requiredFacts.map (·.factId)) :
    ∃ description, plan.factValue factId = some description := by
  obtain ⟨fact, hfact, hid⟩ := List.mem_map.mp h
  have hfound : (plan.requiredFacts.reverse.find? fun fact => decide (fact.factId = factId)).isSome = true := by
    rw [List.find?_isSome]
    exact ⟨fact, List.mem_reverse.mpr hfact, by simpa using hid⟩
  obtain ⟨found, hfound⟩ := Option.isSome_iff_exists.mp hfound
  exact ⟨found.description, by simp [QueryPlan.factValue, hfound]⟩

/-- A binding that passed the checks resolves. -/
theorem resolveBinding_ok (hready : Ready completed step) {name raw : String}
    (hbinding : (name, raw) ∈ step.inputBindings)
    (hchecked : PlanValidator.bindingViolation (plan.requiredFacts.map (·.factId)) step name raw = []) :
    ∃ value, resolveBinding plan completed spec name raw = .ok value := by
  unfold PlanValidator.bindingViolation at hchecked
  cases hexpr : BindingExpression.parse raw with
  | error e => simp [hexpr] at hchecked
  | ok expr =>
    simp only [hexpr] at hchecked
    unfold resolveBinding
    rw [hexpr]
    cases htarget : expr.target with
    | stepOutput stepId field =>
      simp only [htarget] at hchecked
      have hdeclared : stepId ∈ step.allDependencyIds := by
        by_contra hout
        simp [hout] at hchecked
      obtain ⟨r, hr, -⟩ := hready.succeeded stepId hdeclared
      have hpresent := (hready.fields stepId field r (Or.inl ⟨name, raw, expr, hbinding, hexpr, htarget⟩) hr).1
      exact ⟨r.output field, by simp [htarget, hr, hpresent, bind, Except.bind]⟩
    | factValue factId =>
      simp only [htarget] at hchecked
      have hfact : factId ∈ plan.requiredFacts.map (·.factId) := by
        by_contra hout
        simp [hout] at hchecked
      obtain ⟨description, hdescription⟩ := factValue_of_mem hfact
      exact ⟨.str description, by simp [htarget, hdescription, bind, Except.bind]⟩

theorem resolveBindings_ok (hready : Ready completed step) {bindings : Dict String} (resolved : Dict Value)
    (hsubset : ∀ binding ∈ bindings, binding ∈ step.inputBindings)
    (hchecked : ∀ binding ∈ bindings, PlanValidator.bindingViolation (plan.requiredFacts.map (·.factId)) step
      binding.1 binding.2 = []) :
    ∃ inputs, resolveBindings plan completed spec bindings resolved = .ok inputs := by
  induction bindings generalizing resolved with
  | nil => exact ⟨resolved, rfl⟩
  | cons binding rest ih =>
    obtain ⟨value, hvalue⟩ : ∃ value, resolveBinding plan completed spec binding.1 binding.2 = .ok value :=
      resolveBinding_ok hready (hsubset binding (by simp)) (hchecked binding (by simp))
    obtain ⟨inputs, hinputs⟩ := ih (assignField resolved binding.1 value)
      (fun b hb => hsubset b (List.mem_cons_of_mem _ hb)) (fun b hb => hchecked b (List.mem_cons_of_mem _ hb))
    refine ⟨inputs, ?_⟩
    simp only [resolveBindings, hvalue, bind, Except.bind]
    exact hinputs

end Queries

section Templates

variable {completed : List StepResult} {step : PlanStep} {text source : List Char} {template : String}

/-- A placeholder begins with two opening braces and ends with two closing ones. -/
theorem placeholderAt_braces (h : placeholderAt text = some source) :
    ∃ inner, source = '\x7b' :: '\x7b' :: (inner ++ ['\x7d', '\x7d']) := by
  unfold placeholderAt at h
  split at h
  · dsimp only at h
    split at h
    · split at h
      · cases h
      · obtain rfl := Option.some.inj h
        exact ⟨_, rfl⟩
    · cases h
  · cases h

theorem mem_templatePieces {matched : Nat} (h : .placeholder source ∈ templatePiecesAfter matched text) :
    ∃ inner, source = '\x7b' :: '\x7b' :: (inner ++ ['\x7d', '\x7d']) := by
  induction text generalizing matched with
  | nil => cases matched <;> cases h
  | cons c rest ih =>
    cases matched with
    | succ matched => exact ih h
    | zero =>
      simp only [templatePiecesAfter] at h
      split at h
      · rename_i found hfound
        rcases List.mem_cons.mp h with hsame | hrest
        · obtain rfl := TemplatePiece.placeholder.inj hsame
          exact placeholderAt_braces hfound
        · exact ih hrest
      · rcases List.mem_cons.mp h with hsame | hrest
        · cases hsame
        · exact ih hrest

/-- The validator strips a placeholder before it parses it, which changes nothing. -/
theorem strip_placeholder {inner : List Char}
    (h : source = '\x7b' :: '\x7b' :: (inner ++ ['\x7d', '\x7d'])) :
    beforeFinalNewline (strip source) = source := by
  have hopen : isSpace '\x7b' = false := by decide
  have hclose : isSpace '\x7d' = false := by decide
  have hstrip : strip source = source := by
    subst h
    simp [strip, hopen, hclose]
  rw [hstrip]
  subst h
  simp [beforeFinalNewline, List.getLast?_cons, List.getLast?_append]

theorem pieces_blank_iff :
    (∀ piece ∈ templatePiecesAfter 0 text, ∃ c, piece = .text c ∧ isSpace c = true) ↔ Blank text := by
  induction text with
  | nil => simp [templatePiecesAfter, Blank]
  | cons c rest ih =>
    simp only [templatePiecesAfter]
    split
    · rename_i found hfound
      constructor
      · intro h
        obtain ⟨c', hpiece, -⟩ := h (.placeholder found) (by simp)
        cases hpiece
      · intro h
        have hspace := h c (by simp)
        unfold placeholderAt at hfound
        split at hfound
        · rename_i hbrace
          obtain ⟨rfl, -⟩ := List.cons.inj hbrace
          exact absurd hspace (by decide)
        · cases hfound
    · rw [List.forall_mem_cons, ih, Blank, Blank, List.forall_mem_cons]
      simp

/-- A placeholder that passed the checks is replaced by a text that is not blank. -/
theorem substitutePlaceholder_ok (hready : Ready completed step) (htemplate : step.queryTemplate = some template)
    (hsource : .placeholder source ∈ templatePieces template)
    (hchecked : PlanValidator.placeholderViolation step (String.ofList source) = []) :
    ∃ here, substitutePlaceholder completed source = .ok here ∧ ¬Blank here := by
  obtain ⟨inner, hinner⟩ := mem_templatePieces hsource
  have hfound : String.ofList source ∈ findPlaceholders template :=
    List.mem_filterMap.mpr ⟨.placeholder source, hsource, rfl⟩
  unfold PlanValidator.placeholderViolation at hchecked
  cases hexpr : BindingExpression.parseTemplatePlaceholder (String.ofList source) with
  | error e => simp [hexpr] at hchecked
  | ok expr =>
    have hparsed := hexpr
    unfold BindingExpression.parseTemplatePlaceholder at hparsed
    rw [String.toList_ofList, strip_placeholder hinner] at hparsed
    split at hparsed
    · cases hparsed
    · cases htarget : (BindingExpression.braced source).bind BindingExpression.placeholderTarget with
      | none => simp [htarget] at hparsed
      | some target =>
        obtain ⟨stepId, field⟩ := target
        simp only [htarget, Except.ok.injEq] at hparsed
        subst hparsed
        have hdeclared : stepId ∈ step.allDependencyIds := by
          by_contra hout
          simp [hexpr, hout] at hchecked
        obtain ⟨r, hr, -⟩ := hready.succeeded stepId hdeclared
        obtain ⟨hpresent, hshown⟩ := hready.fields stepId field r
          (Or.inr ⟨template, _, _, htemplate, hfound, hexpr, rfl⟩) hr
        refine ⟨(r.output field).text.toList, ?_, hshown⟩
        unfold substitutePlaceholder
        simp only [htarget, hr]

/-- Placeholders that are replaced by texts that are not blank make a text that is blank
only if there are none and the rest is blank. -/
theorem substitutePieces_ok {pieces : List TemplatePiece}
    (h : ∀ source, .placeholder source ∈ pieces →
      ∃ here, substitutePlaceholder completed source = .ok here ∧ ¬Blank here) :
    ∃ out, substitutePieces completed pieces = .ok out ∧
      (Blank out ↔ ∀ piece ∈ pieces, ∃ c, piece = .text c ∧ isSpace c = true) := by
  induction pieces with
  | nil => exact ⟨[], rfl, by simp [Blank]⟩
  | cons piece rest ih =>
    obtain ⟨tail, htail, hblank⟩ := ih fun source hsource => h source (List.mem_cons_of_mem _ hsource)
    cases piece with
    | text c =>
      refine ⟨c :: tail, by simp [substitutePieces, htail, bind, Except.bind, pure, Except.pure], ?_⟩
      rw [List.forall_mem_cons, ← hblank, Blank, Blank, List.forall_mem_cons]
      simp
    | placeholder source =>
      obtain ⟨here, hhere, hshown⟩ := h source (by simp)
      refine ⟨here ++ tail, by simp [substitutePieces, hhere, htail, bind, Except.bind, pure, Except.pure], ?_⟩
      rw [blank_append, List.forall_mem_cons]
      simp [hshown]

end Templates

section Main

variable {plan : QueryPlan} {ctx : SecurityContext} {registry : CorpusRegistry} {completed : List StepResult}
  {step : PlanStep} {spec : ToolSpec}

/-- The query of a step of an accepted plan is resolved, and blank if it is made from a blank
text. -/
theorem resolveQuery_ok (haccepted : (PlanValidator.validate plan ctx registry).accepted = true)
    (hstep : step ∈ plan.steps) (hready : Ready completed step) :
    ∃ query, resolveQuery completed step = .ok query ∧ (¬Blank query.toList ↔ WritesQuery step) := by
  unfold resolveQuery WritesQuery PlanStep.queryText
  cases hquery : step.query with
  | some query => exact ⟨query, rfl, by simp⟩
  | none =>
    cases htemplate : step.queryTemplate with
    | none =>
      -- the validator rejects a step without query and template
      have hnone := PlanValidator.accepted_iff.mp haccepted
      simp only [PlanValidator.allViolations, List.append_eq_nil_iff, List.flatMap_eq_nil_iff] at hnone
      have hqueries : PlanValidator.queryViolations step = [] := by tauto
      simp [PlanValidator.queryViolations, PlanValidator.isBlank, hquery, htemplate] at hqueries
    | some template =>
      have hchecked := bindings_of_accepted haccepted hstep
      simp only [PlanValidator.bindingViolations, List.append_eq_nil_iff] at hchecked
      have hpieces : ∀ source, .placeholder source ∈ templatePieces template →
          ∃ here, substitutePlaceholder completed source = .ok here ∧ ¬Blank here := by
        intro source hsource
        apply substitutePlaceholder_ok hready htemplate hsource
        have hplaceholders := hchecked.2
        split at hplaceholders
        · rename_i hblank
          obtain rfl : template = "" := by simpa [PlanValidator.isBlank, htemplate] using hblank
          cases hsource
        · simp only [htemplate, Option.getD_some, List.flatMap_eq_nil_iff] at hplaceholders
          exact hplaceholders _ (List.mem_filterMap.mpr ⟨.placeholder source, hsource, rfl⟩)
      obtain ⟨out, hout, hblank⟩ := substitutePieces_ok hpieces
      refine ⟨String.ofList out, by simp [hout, Except.map], ?_⟩
      rw [String.toList_ofList, hblank, templatePieces, pieces_blank_iff]
      simp

/-- An assigned field has its value. -/
theorem lookup_assignField (inputs : Dict Value) (field : String) (value : Value) :
    (assignField inputs field value).lookup field = some value := by
  unfold assignField Table.upsert
  split
  · rename_i hany
    induction inputs with
    | nil => simp at hany
    | cons entry rest ih =>
      obtain ⟨name, old⟩ := entry
      by_cases hname : name = field
      · simp [Table.update, hname]
      · have hrest : (rest.any fun old => decide (old.1 = field)) = true := by
          simpa [hname] using hany
        have htail := ih hrest
        unfold Table.update at htail ⊢
        have hother : (field == name) = false := beq_false_of_ne (Ne.symm hname)
        rw [List.map_cons, if_neg (by simpa using hname), List.lookup_cons, hother]
        exact htail
  · rename_i hany
    induction inputs with
    | nil => simp [Table.insert]
    | cons entry rest ih =>
      obtain ⟨name, old⟩ := entry
      simp only [List.any_cons, Bool.or_eq_true, decide_eq_true_eq, not_or] at hany
      have htail := ih hany.2
      unfold Table.insert at htail ⊢
      have hother : (field == name) = false := beq_false_of_ne (Ne.symm hany.1)
      rw [List.cons_append, List.lookup_cons, hother]
      exact htail

/-- The steps of an accepted plan resolve exactly if their queries are made from texts that
are not blank. -/
theorem resolves_iff (haccepted : (PlanValidator.validate plan ctx registry).accepted = true)
    (hstep : step ∈ plan.steps) (hready : Ready completed step) :
    Resolves plan completed spec step ↔ WritesQuery step := by
  obtain ⟨query, hquery, hshown⟩ := resolveQuery_ok haccepted hstep hready
  have hchecked := bindings_of_accepted haccepted hstep
  simp only [PlanValidator.bindingViolations, List.append_eq_nil_iff, List.flatMap_eq_nil_iff] at hchecked
  obtain ⟨inputs, hinputs⟩ : ∃ inputs, resolveBindings plan completed spec step.inputBindings [] = .ok inputs :=
    resolveBindings_ok hready [] (fun _ hbinding => hbinding) hchecked.1
  have hresolved : resolveInputs plan completed spec step =
      .ok (assignField inputs "__query__" (.str query)) := by
    simp [resolveInputs, hinputs, hquery, bind, Except.bind, pure, Except.pure]
  have hextracted : extractQuery (assignField inputs "__query__" (.str query)) =
      if strip query.toList = [] then
        .error (.valueError "resolved_inputs must contain a non-empty __query__ string")
      else .ok query := by
    unfold extractQuery
    rw [lookup_assignField]
  rw [← hshown, ← strip_eq_nil_iff]
  constructor
  · rintro ⟨inputs', query', hinputs', hquery'⟩
    obtain rfl := Except.ok.inj (hresolved.symm.trans hinputs')
    intro hblank
    rw [hextracted, if_pos hblank] at hquery'
    cases hquery'
  · intro h
    refine ⟨_, query, hresolved, ?_⟩
    rw [hextracted, if_neg h]

/-- The steps of an accepted plan resolve exactly if their queries are made from texts that are not blank,
and the parsed bindings are those of the grammar up to a final newline. The step is ready: its
dependencies succeeded, and no field it refers to is missing or blank. -/
theorem resolution_exact_iff (haccepted : (PlanValidator.validate plan ctx registry).accepted = true)
    (hstep : step ∈ plan.steps) (hready : Ready completed step) (spec : ToolSpec) :
    (Resolves plan completed spec step ↔ WritesQuery step) ∧
      ∀ raw, ((∃ expr, BindingExpression.parse raw = .ok expr) ↔ InGrammar raw) ↔
        ¬∃ text, InGrammar text ∧ raw = text ++ "\n" :=
  ⟨resolves_iff haccepted hstep hready, fun _ => parse_exact_iff⟩

end Main

/-- A plan of one step that has an empty query beside a template. -/
private def emptyQuery : QueryPlan :=
  Sample.plan [{ Sample.step "find" [] with query := some "", queryTemplate := some "travel" }]

private def findStep : PlanStep := { Sample.step "find" [] with queryTemplate := some "travel" }

private def spec : ToolSpec := ⟨[], fun _ => none, []⟩

private theorem ready_find {query : Option String} (completed : List StepResult) :
    Ready completed { findStep with query := query } where
  succeeded dep hdep := by simp [findStep, Sample.step, PlanStep.allDependencyIds] at hdep
  fields stepId field r hrefers _ := by
    rcases hrefers with ⟨name, raw, expr, hbinding, -⟩ | ⟨template, source, expr, htemplate, hsource, -⟩
    · simp [findStep, Sample.step] at hbinding
    · obtain rfl : template = "travel" := (Option.some.inj htemplate).symm
      have hnone : findPlaceholders "travel" = [] := by decide +kernel
      simp [hnone] at hsource

/-- A step that asks for what another one has found, in a binding and in its template. -/
private def checkStep : PlanStep :=
  { Sample.step "check" ["find"] with
    query := none
    queryTemplate := some "More on \x7b\x7bfind.entity_text\x7d\x7d"
    inputBindings := [("topic", "steps.find.outputs.entity_text")] }

private def foundTopic : StepResult :=
  ⟨"find", .succeeded, [("entity_text", .str "leave")], ["e1"], none, "", "", 1, 1⟩

/-- It refers to that field only. -/
private theorem refers_check {stepId field : String} (h : Refers checkStep stepId field) :
    stepId = "find" ∧ field = "entity_text" := by
  rcases h with ⟨name, raw, expr, hbinding, hparse, htarget⟩ | ⟨template, source, expr, htemplate, hsource, hparse, htarget⟩
  · obtain ⟨rfl, rfl⟩ : name = "topic" ∧ raw = "steps.find.outputs.entity_text" := by
      simpa [checkStep] using hbinding
    have hparsed : (BindingExpression.parse "steps.find.outputs.entity_text").toOption.map (·.target) =
        some (.stepOutput "find" "entity_text") := by decide +kernel
    rw [hparse] at hparsed
    have hsame := htarget.symm.trans (Option.some.inj hparsed)
    simpa using hsame
  · obtain rfl := Option.some.inj htemplate
    have hfound : findPlaceholders "More on \x7b\x7bfind.entity_text\x7d\x7d" = ["\x7b\x7bfind.entity_text\x7d\x7d"] := by
      decide +kernel
    rw [hfound, List.mem_singleton] at hsource
    subst hsource
    have hparsed : (BindingExpression.parseTemplatePlaceholder "\x7b\x7bfind.entity_text\x7d\x7d").toOption.map
        (·.target) = some (.stepOutput "find" "entity_text") := by decide +kernel
    rw [hparse] at hparsed
    have hsame := htarget.symm.trans (Option.some.inj hparsed)
    simpa using hsame

private theorem ready_check : Ready [foundTopic] checkStep where
  succeeded dep hdep := by
    obtain rfl : dep = "find" := by simpa [checkStep, Sample.step, PlanStep.allDependencyIds] using hdep
    exact ⟨foundTopic, rfl, rfl⟩
  fields stepId field r hrefers hr := by
    obtain ⟨rfl, rfl⟩ := refers_check hrefers
    obtain rfl : foundTopic = r := Option.some.inj hr
    exact ⟨by decide, fun hblank => absurd (hblank 'l' (by decide)) (by decide)⟩

/-- What the step asks for is resolved to what was found. -/
theorem resolution_exact_sample :
    Resolves (Sample.plan [Sample.step "find" [], checkStep]) [foundTopic] spec checkStep ∧
      resolveQuery [foundTopic] checkStep = .ok "More on leave" :=
  have haccepted : (PlanValidator.validate (Sample.plan [Sample.step "find" [], checkStep]) Sample.caller
      Sample.registry).accepted = true := by decide +kernel
  ⟨(resolution_exact_iff haccepted (by simp [Sample.plan]) ready_check spec).1.mpr
    ⟨_, rfl, fun hblank => absurd (hblank 'M' (by decide)) (by decide)⟩, by decide +kernel⟩

/-- An accepted plan whose step has an empty query, and a binding with a final newline. -/
theorem resolution_exact_counterexample :
    ¬((∀ (plan : QueryPlan) (ctx : SecurityContext) (registry : CorpusRegistry) (completed : List StepResult)
        (step : PlanStep) (spec : ToolSpec), (PlanValidator.validate plan ctx registry).accepted = true →
        step ∈ plan.steps → Ready completed step → Resolves plan completed spec step) ∧
      ∀ raw, (∃ expr, BindingExpression.parse raw = .ok expr) ↔ InGrammar raw) := by
  rintro ⟨hresolves, -⟩
  have haccepted : (PlanValidator.validate emptyQuery Sample.caller Sample.registry).accepted = true := by
    decide +kernel
  have h := hresolves emptyQuery Sample.caller Sample.registry [] { findStep with query := some "" } spec
    haccepted (List.mem_singleton.mpr rfl) (ready_find [])
  obtain ⟨text, htext, hshown⟩ :=
    (resolves_iff haccepted (List.mem_singleton.mpr rfl) (ready_find [])).mp h
  obtain rfl : text = "" := (Option.some.inj htext).symm
  exact hshown (by simp [Blank])

end Planner

end AgenticRag
