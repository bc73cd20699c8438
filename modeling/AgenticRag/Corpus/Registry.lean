import AgenticRag.Answer.Envelope
import AgenticRag.Foundations.Table
import AgenticRag.Retrieval.SecureRetriever

/-!
# The corpus registry

`corpus/registry.py`: the corpora by id, what a caller may discover of them, and the pointer
to the active collection of each.
-/

namespace AgenticRag

def isDiscoverable (corpus : CorpusConfig) (ctx : SecurityContext) : Bool :=
  if corpus.tenantId ≠ ctx.tenantId then false
  else if !corpus.enabled || !corpus.searchable then false
  else canDiscoverCorpus ctx corpus.corpusId

theorem isDiscoverable_iff {corpus : CorpusConfig} {ctx : SecurityContext} :
    isDiscoverable corpus ctx = true ↔ corpus.tenantId = ctx.tenantId ∧ corpus.enabled = true ∧
      corpus.searchable = true ∧ canDiscoverCorpus ctx corpus.corpusId = true := by
  unfold isDiscoverable
  split
  · rename_i htenant
    simp [htenant]
  · rename_i htenant
    split
    · rename_i hclosed
      simp only [Bool.or_eq_true, Bool.not_eq_true'] at hclosed
      rcases hclosed with hclosed | hclosed <;> simp [hclosed]
    · rename_i hopen
      simp only [Bool.or_eq_true, Bool.not_eq_true', not_or, Bool.not_eq_false] at hopen
      simp [not_ne_iff.mp htenant, hopen]

/-- `InMemoryCorpusRegistry`: a dictionary by corpus id. -/
structure InMemoryCorpusRegistry where
  corpora : List CorpusConfig
  keyed : Table.KeyUnique CorpusConfig.corpusId corpora

namespace InMemoryCorpusRegistry

/-- `self._corpora.get(corpus_id)`. -/
def find (registry : InMemoryCorpusRegistry) (corpusId : String) : Option CorpusConfig :=
  Table.selectOne (fun corpus => decide (corpus.corpusId = corpusId)) registry.corpora

/-- `self._corpora[corpus_id] = corpus`. -/
def put (registry : InMemoryCorpusRegistry) (corpus : CorpusConfig) : InMemoryCorpusRegistry where
  corpora := Table.upsert CorpusConfig.corpusId registry.corpora corpus
  keyed := by
    unfold Table.upsert
    split
    · apply registry.keyed.update
      intro old _ hsame
      exact (of_decide_eq_true hsame).symm
    · rename_i hfresh
      simp only [List.any_eq_true, decide_eq_true_eq, not_exists, not_and] at hfresh
      exact registry.keyed.insert hfresh

/-- The registry of a list of corpora; of several with one id the last one counts. -/
def ofCorpora (corpora : List CorpusConfig) : InMemoryCorpusRegistry :=
  corpora.foldl put ⟨[], List.nodup_nil⟩

variable (registry : InMemoryCorpusRegistry) (ctx : SecurityContext)

def get (corpusId : String) : Except ChatError CorpusConfig :=
  match registry.find corpusId with
  | some corpus =>
    if isDiscoverable corpus ctx then .ok corpus else .error (notDiscoverable corpusId)
  | none => .error (notDiscoverable corpusId)
where
  notDiscoverable (corpusId : String) : ChatError :=
    .corpusNotDiscoverable ("corpus " ++ quoted corpusId ++ " is not discoverable for tenant " ++
      quoted ctx.tenantId)

/-- `vector_collection or corpus_id`. -/
def collectionOf (corpus : CorpusConfig) : String :=
  match corpus.vectorCollection with
  | some name => if name = "" then corpus.corpusId else name
  | none => corpus.corpusId

def resolveCollectionName (corpusId : String) : String :=
  match registry.find corpusId with
  | some corpus => collectionOf corpus
  | none => corpusId

def setActiveCollection (corpusId name : String) : InMemoryCorpusRegistry :=
  match registry.find corpusId with
  | some corpus => registry.put { corpus with vectorCollection := some name }
  | none => registry

variable {registry ctx}

theorem find_some {corpusId : String} {corpus : CorpusConfig} (h : registry.find corpusId = some corpus) :
    corpus ∈ registry.corpora ∧ corpus.corpusId = corpusId := by
  have hfound := Table.selectOne_some h
  exact ⟨hfound.1, of_decide_eq_true hfound.2⟩

theorem find_of_mem {corpus : CorpusConfig} (h : corpus ∈ registry.corpora) :
    registry.find corpus.corpusId = some corpus :=
  Table.selectOne_of_key registry.keyed h

theorem find_put (corpus : CorpusConfig) (corpusId : String) :
    (registry.put corpus).find corpusId =
      if corpus.corpusId = corpusId then some corpus else registry.find corpusId :=
  Table.selectOne_upsert

/-- What `get` returns: a registered, enabled and searchable corpus of the caller's tenant
that the caller is not kept from. -/
theorem get_ok_iff {corpusId : String} {corpus : CorpusConfig} :
    registry.get ctx corpusId = .ok corpus ↔ registry.find corpusId = some corpus ∧
      corpus.tenantId = ctx.tenantId ∧ corpus.enabled = true ∧ corpus.searchable = true ∧
      canDiscoverCorpus ctx corpusId = true := by
  unfold get
  cases hfind : registry.find corpusId with
  | none => simp
  | some found =>
    have hid := (find_some hfind).2
    dsimp only
    split
    · rename_i hdiscovers
      rw [isDiscoverable_iff, hid] at hdiscovers
      simp only [Except.ok.injEq, Option.some.injEq]
      constructor
      · rintro rfl
        exact ⟨rfl, hdiscovers⟩
      · exact And.left
    · rename_i hhidden
      rw [isDiscoverable_iff, hid] at hhidden
      simp only [reduceCtorEq, Option.some.injEq, false_iff, not_and]
      rintro rfl htenant henabled hsearchable hdiscovers
      exact hhidden ⟨htenant, henabled, hsearchable, hdiscovers⟩

end InMemoryCorpusRegistry

end AgenticRag
