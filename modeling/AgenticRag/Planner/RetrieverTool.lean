import AgenticRag.Corpus.Registry
import AgenticRag.Foundations.FirstOccurrence
import AgenticRag.Planner.Resolution
import AgenticRag.Retrieval.AuthorizedEvidence
import Mathlib.Data.Prod.Lex
import Mathlib.Data.String.Basic

/-!
# The retriever tool

`RetrieverTool` of `planner/tool_registry.py`: it gets every target corpus from the registry,
retrieves from one after the other, and projects what it has merged onto the output schema.
-/

namespace AgenticRag

namespace Planner

/-- A Python object in an output. -/
inductive PyObject where
  | none
  | int (value : Int)
  | float (value : Rat)
  | str (text : String)
  | tuple (items : List PyObject)
  | list (items : List PyObject)
  | dict (entries : List (String × PyObject))

/-- An object as the executor sees it; what tells objects apart and how `str` shows them is given. -/
def PyObject.toValue (shown : PyObject → Nat × String) : PyObject → Value
  | .none => .none
  | .str text => .str text
  | object => .object (shown object).1 (shown object).2

/-- A call of `retrieve_evidence`, with the attempt and its place there. -/
structure Retrieval where
  corpus : CorpusConfig
  query : String
  planStepId : String
  attempt : Nat
  position : Nat
  deriving DecidableEq, Repr

/-- What a retrieval meets: a retriever whose search is that of the query, and the stores. -/
structure Encounter where
  retriever : EvidenceRetriever
  seen : Nat → RetrievalStores
  later : Nat → MetadataStore
  snapshots : Option EvidenceSnapshotStore

/-- `RetrieverTool`, with `authority_level` of the corpora, `retrieval_score` of the evidence and
the exceptions of the stores as Python has them. -/
structure RetrieverTool where
  registry : InMemoryCorpusRegistry
  encounter : Retrieval → Encounter
  authorityLevel : CorpusConfig → Int
  retrievalScore : Evidence → Option Rat
  raised : PyError → PyException
  shown : PyObject → Nat × String

section Merge

/-- The loop of `_merge_evidence_per_corpus` over the evidence of all corpora. -/
def mergeNew : List Evidence → List Evidence → List Evidence
  | merged, [] => merged
  | merged, ev :: rest =>
    mergeNew (if ev.evidenceId ∈ merged.map (·.evidenceId) then merged else merged ++ [ev]) rest

def inCorpusOrder (perCorpus : Dict (List Evidence)) : List Evidence :=
  ((perCorpus.map Prod.fst).insertionSort (· ≤ ·)).flatMap fun corpusId => (perCorpus.lookup corpusId).getD []

def mergeEvidencePerCorpus (perCorpus : Dict (List Evidence)) : List Evidence :=
  mergeNew [] (inCorpusOrder perCorpus)

theorem mergeNew_eq (seen rest : List Evidence) :
    mergeNew (firstsBy (·.evidenceId) seen) rest = firstsBy (·.evidenceId) (seen ++ rest) := by
  induction rest generalizing seen with
  | nil => simp [mergeNew]
  | cons ev rest ih =>
    have hnext : (if ev.evidenceId ∈ (firstsBy (·.evidenceId) seen).map (·.evidenceId) then
        firstsBy (·.evidenceId) seen else firstsBy (·.evidenceId) seen ++ [ev]) =
          firstsBy (·.evidenceId) (seen ++ [ev]) := by
      rw [firstsBy_concat]
      simp only [map_mem_firstsBy]
      split <;> simp
    rw [mergeNew, hnext, ih, List.append_assoc, List.singleton_append]

/-- The merge keeps the first occurrence of every id. -/
theorem mergeEvidencePerCorpus_eq (perCorpus : Dict (List Evidence)) :
    mergeEvidencePerCorpus perCorpus = firstsBy (·.evidenceId) (inCorpusOrder perCorpus) :=
  mergeNew_eq [] _

theorem mem_inCorpusOrder {perCorpus : Dict (List Evidence)} {ev : Evidence} (h : ev ∈ inCorpusOrder perCorpus) :
    ∃ entry ∈ perCorpus, ev ∈ entry.2 := by
  obtain ⟨corpusId, -, hev⟩ := List.mem_flatMap.mp h
  cases hfound : perCorpus.lookup corpusId with
  | none => simp [hfound] at hev
  | some evidence =>
    rw [hfound] at hev
    obtain ⟨before, after, rfl, -⟩ := List.lookup_eq_some_iff.mp hfound
    exact ⟨(corpusId, evidence), by simp, hev⟩

end Merge

section Projection

variable (score : Evidence → Option Rat)

/-- The sort key `(-score, -authority_level, evidence_id)`. -/
def sortKey (ev : Evidence) : ℚᵒᵈ ×ₗ ℕᵒᵈ ×ₗ String :=
  toLex (OrderDual.toDual ((score ev).getD 0),
    toLex (OrderDual.toDual (ev.authorityLevel : Nat), ev.evidenceId))

/-- The evidence is projected before the other. -/
def RanksBefore (first second : Evidence) : Prop := sortKey score first ≤ sortKey score second

instance : DecidableRel (RanksBefore score) := fun _ _ => inferInstanceAs (Decidable (_ ≤ _))

instance : Std.Total (RanksBefore score) := ⟨fun first second => le_total (sortKey score first) (sortKey score second)⟩

instance : IsTrans Evidence (RanksBefore score) := ⟨fun _ _ _ h h' => le_trans h h'⟩

def sortEvidence (evidence : List Evidence) : List Evidence := evidence.insertionSort (RanksBefore score)

def emptyProjection : OutputSchemaId → Dict PyObject
  | .entity => [("entity_text", .str ""), ("corpus_id", .str ""), ("document_id", .str ""),
      ("section_path", .tuple []), ("authority_level", .int 0)]
  | .spec => [("spec_text", .str ""), ("corpus_id", .str ""), ("document_id", .str ""),
      ("metadata", .dict [("authority_level", .int 0), ("retrieval_score", .none), ("section_path", .list [])])]
  | .comparison => [("items", .list []), ("evidence_ids", .list [])]
  | .intermediate => [("texts", .list []), ("evidence_ids", .list [])]

def project (evidence : List Evidence) (schemaId : OutputSchemaId) : Dict PyObject :=
  match sortEvidence score evidence with
  | [] => emptyProjection schemaId
  | top :: rest =>
    match schemaId with
    | .entity => [("entity_text", .str top.text), ("corpus_id", .str top.corpusId),
        ("document_id", .str top.documentId), ("section_path", .tuple (top.sectionPath.map .str)),
        ("authority_level", .int top.authorityLevel)]
    | .spec => [("spec_text", .str top.text), ("corpus_id", .str top.corpusId),
        ("document_id", .str top.documentId),
        ("metadata", .dict [("authority_level", .int top.authorityLevel),
          ("retrieval_score", ((score top).map PyObject.float).getD .none),
          ("section_path", .tuple (top.sectionPath.map .str))])]
    | .comparison => [
        ("items", .list ((top :: rest).map fun ev => .dict [("corpus_id", .str ev.corpusId), ("text", .str ev.text),
          ("authority_level", .int ev.authorityLevel)])),
        ("evidence_ids", .list ((top :: rest).map fun ev => .str ev.evidenceId))]
    | .intermediate => [("texts", .list ((top :: rest).map fun ev => .str ev.text)),
        ("evidence_ids", .list ((top :: rest).map fun ev => .str ev.evidenceId))]

end Projection

namespace RetrieverTool

variable (tool : RetrieverTool) (ctx : SecurityContext)

/-- `corpus_registry.get`. -/
def getCorpus (corpusId : String) : Except PyException CorpusConfig :=
  (tool.registry.get ctx corpusId).mapError fun _ => ⟨.corpusNotDiscoverableError, [.exception],
    "corpus '" ++ corpusId ++ "' is not discoverable for tenant '" ++ ctx.tenantId ++ "'", "", ""⟩

/-- The call of the retriever. -/
def retrieveEvidence (r : Retrieval) : Except PyException (List Evidence) :=
  let met := tool.encounter r
  (met.retriever.retrieveEvidence met.seen met.later ctx r.corpus (tool.authorityLevel r.corpus) none
    ⟨r.query, 0, some r.planStepId⟩ met.snapshots).1.mapError tool.raised

/-- `for cc in corpus_configs`. -/
def retrieveEach (query planStepId : String) (attempt : Nat) :
    Nat → List CorpusConfig → Dict (List Evidence) → Except PyException (Dict (List Evidence))
  | _, [], perCorpus => .ok perCorpus
  | position, cc :: rest, perCorpus => do
    let evList ← tool.retrieveEvidence ctx ⟨cc, query, planStepId, attempt, position⟩
    retrieveEach query planStepId attempt (position + 1) rest
      (Table.upsert Prod.fst perCorpus (cc.corpusId, evList))

def outputsOf (step : PlanStep) (merged : List Evidence) : Dict Value :=
  (project tool.retrievalScore merged step.outputSchemaId).map fun entry => (entry.1, entry.2.toValue tool.shown)

def executeStep (step : PlanStep) (resolvedInputs : Dict Value) (attempt : Nat) : Except PyException TypedStepOutput := do
  let query ← extractQuery resolvedInputs
  let corpusConfigs ← step.targetCorpusIds.mapM (tool.getCorpus ctx)
  let perCorpus ← tool.retrieveEach ctx query step.stepId attempt 0 corpusConfigs []
  let merged := mergeEvidencePerCorpus perCorpus
  pure ⟨tool.outputsOf step merged, merged.map (·.evidenceId)⟩

/-- The registry of the Tools of a request, all of which retrieve; an attempt may be late. -/
def tools (get : StepType → String → Except PyException ToolSpec) (late : PlanStep → Nat → Bool) : Tools where
  get := get
  attempt step resolvedInputs attempt :=
    if late step attempt then .late
    else match tool.executeStep ctx step resolvedInputs attempt with
      | .ok output => .returned output
      | .error e => .raised e

/-- The evidence was returned to a step by a retrieval from one of its target corpora, which the
registry has let the caller get. -/
def Retrieved (step : PlanStep) (query : String) (ev : Evidence) : Prop :=
  ∃ corpusId ∈ step.targetCorpusIds, ∃ corpus r found, tool.registry.get ctx corpusId = .ok corpus ∧
    r.corpus = corpus ∧ r.query = query ∧ r.planStepId = step.stepId ∧
    tool.retrieveEvidence ctx r = .ok found ∧ ev ∈ found

section Outputs

variable {tool ctx} {query : String} {step : PlanStep} {attempt : Nat}

theorem getCorpus_ok {corpusId : String} {corpus : CorpusConfig} (h : tool.getCorpus ctx corpusId = .ok corpus) :
    tool.registry.get ctx corpusId = .ok corpus := by
  unfold getCorpus at h
  cases hget : tool.registry.get ctx corpusId with
  | error e =>
    rw [hget] at h
    cases h
  | ok found =>
    rw [hget] at h
    rw [Except.ok.inj h]

/-- The corpora of a comprehension that has not raised. -/
theorem corpora_got {corpusIds : List String} {corpora : List CorpusConfig}
    (h : corpusIds.mapM (tool.getCorpus ctx) = .ok corpora) {corpus : CorpusConfig} (hcorpus : corpus ∈ corpora) :
    ∃ corpusId ∈ corpusIds, tool.registry.get ctx corpusId = .ok corpus := by
  induction corpusIds generalizing corpora with
  | nil =>
    obtain rfl := Except.ok.inj h
    simp at hcorpus
  | cons corpusId rest ih =>
    rw [List.mapM_cons] at h
    obtain ⟨first, hfirst, h⟩ := except_bind_ok.mp h
    obtain ⟨others, hothers, h⟩ := except_bind_ok.mp h
    obtain rfl := Except.ok.inj h
    rcases List.mem_cons.mp hcorpus with rfl | hrest
    · exact ⟨corpusId, List.mem_cons_self, getCorpus_ok hfirst⟩
    · obtain ⟨other, hother, hget⟩ := ih hothers hrest
      exact ⟨other, List.mem_cons_of_mem _ hother, hget⟩

/-- What the loop has collected comes from before it or from one of its retrievals. -/
theorem retrieveEach_collected {position : Nat} {corpora : List CorpusConfig} {start perCorpus : Dict (List Evidence)}
    (h : tool.retrieveEach ctx query step.stepId attempt position corpora start = .ok perCorpus)
    {entry : String × List Evidence} (hentry : entry ∈ perCorpus) :
    entry ∈ start ∨ ∃ cc ∈ corpora, ∃ i, tool.retrieveEvidence ctx ⟨cc, query, step.stepId, attempt, i⟩ = .ok entry.2 := by
  induction corpora generalizing position start with
  | nil =>
    obtain rfl := Except.ok.inj h
    exact Or.inl hentry
  | cons cc rest ih =>
    obtain ⟨evList, hretrieved, h⟩ := except_bind_ok.mp h
    rcases ih h with hstart | ⟨other, hother, hfound⟩
    · rcases Table.mem_upsert.mp hstart with rfl | ⟨hold, -⟩
      · exact Or.inr ⟨cc, List.mem_cons_self, position, hretrieved⟩
      · exact Or.inl hold
    · exact Or.inr ⟨other, List.mem_cons_of_mem _ hother, hfound⟩

/-- What a step puts out: the projection of evidence that was retrieved for it, and its ids. -/
theorem executeStep_ok {inputs : Dict Value} {output : TypedStepOutput}
    (h : tool.executeStep ctx step inputs attempt = .ok output) :
    ∃ query evidence, extractQuery inputs = .ok query ∧ output = ⟨tool.outputsOf step evidence,
      evidence.map (·.evidenceId)⟩ ∧ (evidence.map (·.evidenceId)).Nodup ∧
      ∀ ev ∈ evidence, tool.Retrieved ctx step query ev := by
  obtain ⟨query, hquery, h⟩ := except_bind_ok.mp h
  obtain ⟨corpora, hcorpora, h⟩ := except_bind_ok.mp h
  obtain ⟨perCorpus, hperCorpus, h⟩ := except_bind_ok.mp h
  refine ⟨query, mergeEvidencePerCorpus perCorpus, hquery, (Except.ok.inj h).symm, ?_, fun ev hev => ?_⟩
  · rw [mergeEvidencePerCorpus_eq]
    exact firstsBy_nodup _
  · rw [mergeEvidencePerCorpus_eq] at hev
    obtain ⟨entry, hentry, hmem⟩ := mem_inCorpusOrder ((firstsBy_sublist _).subset hev)
    rcases retrieveEach_collected hperCorpus hentry with hnone | ⟨cc, hcc, i, hfound⟩
    · simp at hnone
    · obtain ⟨corpusId, hcorpusId, hget⟩ := corpora_got hcorpora hcc
      exact ⟨corpusId, hcorpusId, cc, _, _, hget, rfl, rfl, rfl, hfound, hmem⟩

end Outputs

end RetrieverTool

end Planner

end AgenticRag
