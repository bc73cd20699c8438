import AgenticRag.Corpus.Router
import AgenticRag.Services.CollectionAgreement

/-!
# Answers over routed corpora

`answer_multi_corpus` with the registry and the router that it is wired to. The answer, and the
corpora that are queried for it, do not depend on any corpus that the caller may not discover.
-/

namespace AgenticRag

open CorpusRouter MultiCorpusSetting

section Views

variable {catalog catalog' : CorpusCatalog} {ctx : SecurityContext}

theorem CorpusCatalog.find_iff {corpusId : String} {corpus : CorpusConfig} :
    catalog.registry.find corpusId = some corpus ↔
      ∃ listed ∈ catalog.corpora, listed.toCorpusConfig = corpus ∧ corpus.corpusId = corpusId := by
  constructor
  · intro h
    obtain ⟨hmem, hid⟩ := InMemoryCorpusRegistry.find_some h
    obtain ⟨listed, hlisted, rfl⟩ := List.mem_map.mp hmem
    exact ⟨listed, hlisted, rfl, hid⟩
  · rintro ⟨listed, hlisted, rfl, rfl⟩
    exact InMemoryCorpusRegistry.find_of_mem (List.mem_map_of_mem hlisted)

/-- A corpus is found for the caller exactly if it is listed and discoverable. -/
theorem CorpusCatalog.get_iff {corpusId : String} {corpus : CorpusConfig} :
    catalog.registry.get ctx corpusId = .ok corpus ↔ ∃ listed ∈ catalog.corpora,
      listed.toCorpusConfig = corpus ∧ corpus.corpusId = corpusId ∧ isDiscoverable corpus ctx = true := by
  rw [InMemoryCorpusRegistry.get_ok_iff, CorpusCatalog.find_iff]
  constructor
  · rintro ⟨⟨listed, hlisted, hsame, rfl⟩, hdiscovers⟩
    exact ⟨listed, hlisted, hsame, rfl, isDiscoverable_iff.mpr hdiscovers⟩
  · rintro ⟨listed, hlisted, hsame, rfl, hdiscovers⟩
    exact ⟨⟨listed, hlisted, hsame, rfl⟩, isDiscoverable_iff.mp hdiscovers⟩

/-- A corpus that is not found and one that is hidden are refused alike. -/
theorem InMemoryCorpusRegistry.get_error {registry : InMemoryCorpusRegistry} {corpusId : String} {e : ChatError}
    (h : registry.get ctx corpusId = .error e) : e = get.notDiscoverable ctx corpusId := by
  unfold InMemoryCorpusRegistry.get at h
  split at h
  · split at h
    · cases h
    · exact (Except.error.inj h).symm
  · exact (Except.error.inj h).symm

theorem get_alike (h : SameView ctx catalog catalog') (corpusId : String) :
    catalog.registry.get ctx corpusId = catalog'.registry.get ctx corpusId := by
  have hfound (corpus : CorpusConfig) :
      catalog.registry.get ctx corpusId = .ok corpus ↔ catalog'.registry.get ctx corpusId = .ok corpus := by
    rw [CorpusCatalog.get_iff, CorpusCatalog.get_iff]
    constructor
    · rintro ⟨listed, hlisted, rfl, hid, hdiscovers⟩
      exact ⟨listed, (h listed hdiscovers).mp hlisted, rfl, hid, hdiscovers⟩
    · rintro ⟨listed, hlisted, rfl, hid, hdiscovers⟩
      exact ⟨listed, (h listed hdiscovers).mpr hlisted, rfl, hid, hdiscovers⟩
  cases hget : catalog.registry.get ctx corpusId with
  | ok corpus => exact ((hfound corpus).mp hget).symm
  | error e =>
    cases hget' : catalog'.registry.get ctx corpusId with
    | ok corpus => exact absurd ((hfound corpus).mpr hget') (by simp [hget])
    | error e' =>
      rw [InMemoryCorpusRegistry.get_error hget, InMemoryCorpusRegistry.get_error hget']

/-- Corpora that the caller may not discover do not change the view. -/
theorem SameView.of_hidden (hidden : List CatalogCorpus)
    (hhidden : ∀ corpus ∈ hidden, isDiscoverable corpus.toCorpusConfig ctx = false)
    (hcorpora : ∀ corpus, corpus ∈ catalog'.corpora ↔ corpus ∈ hidden ∨ corpus ∈ catalog.corpora) :
    SameView ctx catalog catalog' := by
  intro corpus hdiscovers
  rw [hcorpora, or_iff_right]
  intro hmem
  rw [hhidden corpus hmem] at hdiscovers
  cases hdiscovers

end Views

/-- What the service is wired to besides the registry, and how it behaves during one request. -/
structure RoutedService (F : Type) where
  texts : ChatTexts
  arith : ScoreArithmetic F
  retriever : MultiCorpusRetrieval.Retriever
  now : Datetime
  invokeModel : List Message → Except ChatError ClaimExtraction

/-- The route as far as the service reads it. -/
def CorpusRouter.Route.toCorpusRoute {F : Type} (r : Route F) : CorpusRoute where
  candidates := r.candidates.map (·.corpusId)
  isHigh := decide (r.routeConfidence = .high)
  fallbackCandidates := r.fallbackCandidates.map (·.corpusId)

/-- The `limit` that the router is called with. -/
def CorpusSelection.limit : CorpusSelection → Option Int
  | .pinned _ => none
  | .routed routerLimit => routerLimit

namespace RoutedService

variable {F : Type} [LinearOrder F] (service : RoutedService F) (catalog : CorpusCatalog) (ctx : SecurityContext)
  (query : String) (selection : CorpusSelection)

def setting : MultiCorpusSetting where
  texts := service.texts
  registered := true
  registryGet := catalog.registry.get ctx
  route := (route service.arith catalog ctx query selection.limit).map (·.toCorpusRoute)
  retriever := service.retriever
  now := service.now
  invokeModel := service.invokeModel

/-- `answer_multi_corpus`, with the corpora it queries. -/
def answerMultiCorpus : Except ChatError AnswerEnvelope × List CorpusConfig :=
  (service.setting catalog ctx query selection).answerMultiCorpus ctx query selection

/-- Neither the answer nor the queries tell of a corpus that is hidden from the caller: two catalogs with
the same discoverable corpora give the same answer, and only corpora of the catalog are queried that the
caller may discover. -/
theorem answerMultiCorpus_blind {catalog' : CorpusCatalog} (h : SameView ctx catalog catalog') :
    service.answerMultiCorpus catalog ctx query selection = service.answerMultiCorpus catalog' ctx query selection ∧
      ∀ corpus ∈ (service.answerMultiCorpus catalog ctx query selection).2, isDiscoverable corpus ctx = true ∧
        ∃ listed ∈ catalog.corpora, listed.toCorpusConfig = corpus := by
  constructor
  · have hsetting : service.setting catalog ctx query selection = service.setting catalog' ctx query selection := by
      unfold setting
      rw [route_alike h, funext (get_alike h)]
    unfold answerMultiCorpus
    rw [hsetting]
  · intro corpus hcorpus
    obtain ⟨corpusId, hget⟩ := registryGet_of_queried hcorpus
    obtain ⟨listed, hlisted, hsame, -, hdiscovers⟩ := CorpusCatalog.get_iff.mp hget
    exact ⟨hdiscovers, listed, hlisted, hsame⟩

/-- A ledger of another tenant that answers the query best is never seen. -/
theorem answerMultiCorpus_blind_ledger :
    let service : RoutedService Int := ⟨MultiCorpusSetting.Sample.setting.texts, CorpusRouter.Sample.millionths,
      MultiCorpusSetting.Sample.setting.retriever, MultiCorpusSetting.Sample.setting.now,
      MultiCorpusSetting.Sample.setting.invokeModel⟩
    service.answerMultiCorpus CorpusRouter.Sample.catalog MultiCorpusSetting.Sample.ctx "Which leave ledger?"
        (.routed none) =
      service.answerMultiCorpus CorpusRouter.Sample.larger MultiCorpusSetting.Sample.ctx "Which leave ledger?"
        (.routed none) :=
  (answerMultiCorpus_blind _ _ _ _ _ (SameView.of_hidden [CorpusRouter.Sample.hidden]
    (by simp [isDiscoverable, CorpusRouter.Sample.hidden, CorpusRouter.Sample.hr, MultiCorpusSetting.Sample.ctx])
    (by simp [CorpusRouter.Sample.larger, CorpusRouter.Sample.catalog]))).1

end RoutedService

end AgenticRag
