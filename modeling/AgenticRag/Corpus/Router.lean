import AgenticRag.Answer.Completeness
import AgenticRag.Corpus.Registry
import AgenticRag.Foundations.Ranking
import Mathlib.Data.Prod.Lex
import Mathlib.Data.String.Basic

/-!
# The corpus router

`corpus/router.py`, and the candidates that `corpus/registry.py` hands to it. The arithmetic of
the scores is a parameter; that they are compared and ranked is not.
-/

namespace AgenticRag

/-- `CorpusConfig` with what the router reads besides. -/
structure CatalogCorpus extends CorpusConfig where
  name : String
  description : String
  domain : String
  capabilityIds : List String
  authorityLevel : Int
  deriving DecidableEq, Repr

/-- The order of the candidates, by corpus id. -/
def CatalogCorpus.ById (first second : CatalogCorpus) : Prop := first.corpusId ≤ second.corpusId

instance : DecidableRel CatalogCorpus.ById := fun _ _ => inferInstanceAs (Decidable (_ ≤ _))

instance : Std.Total CatalogCorpus.ById := ⟨fun first second => le_total first.corpusId second.corpusId⟩

instance : IsTrans CatalogCorpus CatalogCorpus.ById := ⟨fun _ _ _ h h' => le_trans h h'⟩

/-- `_ENABLED_CAPABILITIES`. -/
def CapabilityCatalog.supportedForRouting : List String := ["vector_search", "document_reader"]

/-- `InMemoryCorpusRegistry` with all that the router reads. -/
structure CorpusCatalog where
  corpora : List CatalogCorpus
  keyed : Table.KeyUnique (fun corpus => corpus.corpusId) corpora

namespace CorpusCatalog

variable (catalog : CorpusCatalog) (ctx : SecurityContext)

/-- The registry as the rest of the service reads it. -/
def registry : InMemoryCorpusRegistry where
  corpora := catalog.corpora.map (·.toCorpusConfig)
  keyed := by
    unfold Table.KeyUnique
    rw [List.map_map]
    exact catalog.keyed

/-- The corpus is discoverable and has a capability that is enabled for routing. -/
def isRoutable (ctx : SecurityContext) (corpus : CatalogCorpus) : Bool :=
  isDiscoverable corpus.toCorpusConfig ctx &&
    corpus.capabilityIds.any fun id => decide (id ∈ CapabilityCatalog.supportedForRouting)

def resolveCandidates (limit : Int) : List CatalogCorpus :=
  let candidates := (catalog.corpora.filter (isRoutable ctx)).insertionSort CatalogCorpus.ById
  if 0 ≤ limit then candidates.take limit.toNat else candidates

theorem nodup : catalog.corpora.Nodup := List.Nodup.of_map _ catalog.keyed

end CorpusCatalog

namespace CorpusRouter

def stopwords : List String :=
  ["a", "an", "and", "are", "as", "at", "be", "by", "do", "for", "from", "how", "i", "in", "is", "it", "of",
    "on", "or", "the", "to", "use", "what", "when", "where", "which", "with"]

/-- `[a-z0-9]`. -/
def isTermChar (c : Char) : Bool :=
  (decide ('a' ≤ c) && decide (c ≤ 'z')) || (decide ('0' ≤ c) && decide (c ≤ '9'))

/-- The terms of a text that goes on after the characters of a pending one. -/
def scanTerms (pending : List Char) : List Char → List String
  | [] => emit pending
  | c :: rest =>
    if isTermChar c then scanTerms (pending ++ [c]) rest else emit pending ++ scanTerms [] rest
where
  emit (pending : List Char) : List String := if pending = [] then [] else [String.ofList pending]

/-- `_tokenize`; a set is a list without repetitions. -/
def tokenize (text : String) : List String :=
  ((scanTerms [] (text.toList.flatMap lowerChar)).filter fun term => decide (term ∉ stopwords)).eraseDups

def corpusTerms (corpus : CatalogCorpus) : List String :=
  tokenize (String.intercalate " " [corpus.name, corpus.description, corpus.domain,
    String.ofList (corpus.corpusId.toList.map fun c => if c = '_' then ' ' else c),
    String.intercalate " " corpus.capabilityIds])

/-- The arithmetic of the scores: `overlap / n_query`, the weighted sum of relevance and authority,
`round(_, 6)`, the difference, the constants, and `f"{relevance:.2f}"`. -/
structure ScoreArithmetic (F : Type) where
  ratio : Nat → Nat → F
  weighted : F → Int → F
  rounded : F → F
  minus : F → F → F
  zero : F
  one : F
  highRelevance : F
  highGap : F
  shown : F → String

structure CorpusCandidate (F : Type) where
  corpusId : String
  name : String
  authorityLevel : Int
  relevance : F
  score : F
  rationale : String
  deriving DecidableEq, Repr

inductive RouteConfidence where
  | high
  | medium
  | low
  deriving DecidableEq, Repr

/-- `CorpusRoute`. -/
structure Route (F : Type) where
  query : String
  candidates : List (CorpusCandidate F)
  routeConfidence : RouteConfidence
  fallbackSearch : Bool
  fallbackCandidates : List (CorpusCandidate F)
  truncatedFrom : Nat
  deriving DecidableEq, Repr

section Ranking

variable {F : Type} [LinearOrder F]

/-- The sort key `(-score, -authority_level, corpus_id)`. -/
def CorpusCandidate.sortKey (candidate : CorpusCandidate F) : Fᵒᵈ ×ₗ ℤᵒᵈ ×ₗ String :=
  toLex (OrderDual.toDual candidate.score, toLex (OrderDual.toDual candidate.authorityLevel, candidate.corpusId))

def CorpusCandidate.Before (first second : CorpusCandidate F) : Prop := first.sortKey ≤ second.sortKey

instance : DecidableRel (CorpusCandidate.Before (F := F)) := fun _ _ => inferInstanceAs (Decidable (_ ≤ _))

instance : Std.Total (CorpusCandidate.Before (F := F)) :=
  ⟨fun first second => le_total first.sortKey second.sortKey⟩

instance : IsTrans (CorpusCandidate F) CorpusCandidate.Before := ⟨fun _ _ _ h h' => le_trans h h'⟩

variable (arith : ScoreArithmetic F)

def candidateOf (queryTerms : List String) (corpus : CatalogCorpus) : CorpusCandidate F :=
  let overlap := (queryTerms.filter fun term => decide (term ∈ corpusTerms corpus)).length
  let relevance := if queryTerms.length = 0 then arith.zero else arith.ratio overlap queryTerms.length
  let score := max arith.zero (min arith.one (arith.weighted relevance corpus.authorityLevel))
  { corpusId := corpus.corpusId
    name := corpus.name
    authorityLevel := corpus.authorityLevel
    relevance := arith.rounded relevance
    score := arith.rounded score
    rationale := "relevance=" ++ arith.shown relevance ++ " authority=" ++ toString corpus.authorityLevel }

/-- `_score`. -/
def scoreCorpora (corpora : List CatalogCorpus) (queryTerms : List String) : List (CorpusCandidate F) :=
  (corpora.map (candidateOf arith queryTerms)).insertionSort CorpusCandidate.Before

/-- `_classify`: the confidence, the number of candidates and the fallback. -/
def classify : List (CorpusCandidate F) → RouteConfidence × Nat × Bool
  | [] => (.low, 0, true)
  | top :: rest =>
    let gap := arith.minus top.score ((rest.head?.map (·.score)).getD arith.zero)
    if top.relevance ≤ arith.zero then (.low, min 3 (rest.length + 1), true)
    else if arith.highRelevance ≤ top.relevance ∧ arith.highGap ≤ gap then (.high, 1, false)
    else (.medium, min 2 (rest.length + 1), false)

/-- The policy result, truncated by an explicit limit. -/
def takeCount (policyCount : Nat) : Option Int → Nat
  | none => policyCount
  | some limit => min policyCount limit.toNat

def route (catalog : CorpusCatalog) (ctx : SecurityContext) (query : String) (limit : Option Int) :
    Except ChatError (Route F) :=
  if limit.any fun limit => decide (limit < 1) then .error (.valueError "limit must be >= 1 when provided")
  else
    let candidates := catalog.resolveCandidates ctx 1000000
    let scored := scoreCorpora arith candidates (tokenize query)
    let (confidence, policyCount, fallback) := classify arith scored
    let take := takeCount policyCount limit
    .ok
      { query := query
        candidates := scored.take take
        routeConfidence := confidence
        fallbackSearch := fallback
        fallbackCandidates := if confidence = .high ∧ limit = none ∧ take < scored.length then
            (scored.drop take).take 1
          else []
        truncatedFrom := candidates.length }

end Ranking

section Views

variable {F : Type} [LinearOrder F] {arith : ScoreArithmetic F} {catalog catalog' : CorpusCatalog}
  {ctx : SecurityContext} {query : String} {limit : Option Int}

/-- The catalogs hold the same corpora that the caller may discover. -/
def SameView (ctx : SecurityContext) (catalog catalog' : CorpusCatalog) : Prop :=
  ∀ corpus : CatalogCorpus, isDiscoverable corpus.toCorpusConfig ctx = true →
    (corpus ∈ catalog.corpora ↔ corpus ∈ catalog'.corpora)

theorem isRoutable_discoverable {corpus : CatalogCorpus} (h : CorpusCatalog.isRoutable ctx corpus = true) :
    isDiscoverable corpus.toCorpusConfig ctx = true :=
  (Bool.and_eq_true_iff.mp h).1

/-- The candidates depend on what the caller may discover only, and not on its order. -/
theorem resolveCandidates_alike (h : SameView ctx catalog catalog') (limit : Int) :
    catalog.resolveCandidates ctx limit = catalog'.resolveCandidates ctx limit := by
  have hperm : (catalog.corpora.filter (CorpusCatalog.isRoutable ctx)).Perm
      (catalog'.corpora.filter (CorpusCatalog.isRoutable ctx)) := by
    rw [List.perm_ext_iff_of_nodup (catalog.nodup.filter _) (catalog'.nodup.filter _)]
    intro corpus
    rw [List.mem_filter, List.mem_filter]
    exact and_congr_left fun hroutable => h corpus (isRoutable_discoverable hroutable)
  have happart : ∀ first ∈ catalog.corpora.filter (CorpusCatalog.isRoutable ctx),
      ∀ second ∈ catalog.corpora.filter (CorpusCatalog.isRoutable ctx),
        first.ById second → second.ById first → first = second := by
    intro first hfirst second hsecond hle hge
    exact List.inj_on_of_nodup_map catalog.keyed (List.mem_filter.mp hfirst).1 (List.mem_filter.mp hsecond).1
      (le_antisymm hle hge)
  unfold CorpusCatalog.resolveCandidates
  rw [Ranking.insertionSort_of_perm hperm happart]

/-- So does the route. -/
theorem route_alike (h : SameView ctx catalog catalog') :
    route arith catalog ctx query limit = route arith catalog' ctx query limit := by
  unfold route
  rw [resolveCandidates_alike h]

end Views

section Policy

variable {F : Type} [LinearOrder F] {arith : ScoreArithmetic F} {catalog : CorpusCatalog} {ctx : SecurityContext}
  {query : String} {limit : Option Int} {r : Route F}

/-- Top-1, Top-2 or Top-3. -/
def RouteConfidence.width : RouteConfidence → Nat
  | .high => 1
  | .medium => 2
  | .low => 3

/-- The laws of the arithmetic that the policy rests on: no overlap is no relevance, before and after
the rounding, and the lead over a higher score is no larger. -/
structure ScoreArithmetic.Lawful (arith : ScoreArithmetic F) : Prop where
  ratio_zero : ∀ count, arith.ratio 0 count = arith.zero
  rounded_zero : arith.rounded arith.zero = arith.zero
  minus_antitone : ∀ score, Antitone (arith.minus score)

/-- A candidate leads a corpus by the gap of a clear winner. -/
def CorpusCandidate.Leads (arith : ScoreArithmetic F) (top other : CorpusCandidate F) : Prop :=
  arith.highGap ≤ arith.minus top.score other.score

/-- What a route promises. The corpora are those that the registry resolves for the caller: the best of
them are taken, as many as the confidence allows, and the confidence is read off the best one and its
lead over the others. -/
structure Route.Sound (arith : ScoreArithmetic F) (catalog : CorpusCatalog) (ctx : SecurityContext) (query : String)
    (limit : Option Int) (r : Route F) : Prop where
  routable : ∀ candidate ∈ r.candidates ++ r.fallbackCandidates, ∃ corpus ∈ catalog.corpora,
    CorpusCatalog.isRoutable ctx corpus = true ∧ candidate = candidateOf arith (tokenize query) corpus
  distinct : ((r.candidates ++ r.fallbackCandidates).map (·.corpusId)).Nodup
  ranked : (r.candidates ++ r.fallbackCandidates).Pairwise CorpusCandidate.Before
  best : ∀ corpus ∈ catalog.resolveCandidates ctx 1000000, candidateOf arith (tokenize query) corpus ∉ r.candidates →
    ∀ candidate ∈ r.candidates, candidate.Before (candidateOf arith (tokenize query) corpus)
  nextBest : ∀ corpus ∈ catalog.resolveCandidates ctx 1000000,
    candidateOf arith (tokenize query) corpus ∉ r.candidates ++ r.fallbackCandidates →
    ∀ candidate ∈ r.fallbackCandidates, candidate.Before (candidateOf arith (tokenize query) corpus)
  truncated : r.truncatedFrom = (catalog.resolveCandidates ctx 1000000).length
  count : r.candidates.length = takeCount (min r.truncatedFrom r.routeConfidence.width) limit
  fallback : r.fallbackCandidates.length =
    if r.routeConfidence = .high ∧ limit = none then min 1 (r.truncatedFrom - 1) else 0
  probes : r.fallbackSearch = true ↔ r.routeConfidence = .low
  confident : r.routeConfidence ≠ .low ↔ ∃ top, r.candidates.head? = some top ∧ arith.zero < top.relevance
  matched : r.routeConfidence ≠ .low → ∃ corpus ∈ catalog.resolveCandidates ctx 1000000,
    r.candidates.head? = some (candidateOf arith (tokenize query) corpus) ∧
      ∃ term ∈ tokenize query, term ∈ corpusTerms corpus
  dominant : r.routeConfidence = .high ↔ ∃ top, r.candidates.head? = some top ∧ arith.zero < top.relevance ∧
    arith.highRelevance ≤ top.relevance ∧
    (r.truncatedFrom = 1 → arith.highGap ≤ arith.minus top.score arith.zero) ∧
    ∀ corpus ∈ catalog.resolveCandidates ctx 1000000, corpus.corpusId ≠ top.corpusId →
      top.Leads arith (candidateOf arith (tokenize query) corpus)

theorem mem_resolveCandidates {corpus : CatalogCorpus} {bound : Int} (h : corpus ∈ catalog.resolveCandidates ctx bound) :
    corpus ∈ catalog.corpora ∧ CorpusCatalog.isRoutable ctx corpus = true := by
  unfold CorpusCatalog.resolveCandidates at h
  dsimp only at h
  have hsorted : corpus ∈ (catalog.corpora.filter (CorpusCatalog.isRoutable ctx)).insertionSort CatalogCorpus.ById := by
    split at h
    · exact List.mem_of_mem_take h
    · exact h
  exact List.mem_filter.mp ((List.mem_insertionSort _).mp hsorted)

/-- No two candidates have one id. -/
theorem resolveCandidates_distinct (bound : Int) :
    ((catalog.resolveCandidates ctx bound).map (·.corpusId)).Nodup := by
  have hfiltered : ((catalog.corpora.filter (CorpusCatalog.isRoutable ctx)).map (·.corpusId)).Nodup :=
    List.Nodup.sublist (List.filter_sublist.map _) catalog.keyed
  have hsorted : (((catalog.corpora.filter (CorpusCatalog.isRoutable ctx)).insertionSort CatalogCorpus.ById).map
      (·.corpusId)).Nodup :=
    ((List.perm_insertionSort _ _).map _).nodup_iff.mpr hfiltered
  unfold CorpusCatalog.resolveCandidates
  dsimp only
  split
  · exact hsorted.sublist ((List.take_sublist _ _).map _)
  · exact hsorted

theorem scoreCorpora_perm (corpora : List CatalogCorpus) (terms : List String) :
    (scoreCorpora arith corpora terms).Perm (corpora.map (candidateOf arith terms)) :=
  List.perm_insertionSort _ _

theorem scoreCorpora_distinct {corpora : List CatalogCorpus} (h : (corpora.map (·.corpusId)).Nodup)
    (terms : List String) : ((scoreCorpora arith corpora terms).map (·.corpusId)).Nodup := by
  rw [((scoreCorpora_perm corpora terms).map _).nodup_iff, List.map_map]
  exact h

theorem mem_scoreCorpora {corpora : List CatalogCorpus} {terms : List String} {candidate : CorpusCandidate F} :
    candidate ∈ scoreCorpora arith corpora terms ↔ ∃ corpus ∈ corpora, candidateOf arith terms corpus = candidate := by
  rw [(scoreCorpora_perm corpora terms).mem_iff, List.mem_map]

theorem scoreCorpora_ranked (corpora : List CatalogCorpus) (terms : List String) :
    (scoreCorpora arith corpora terms).Pairwise CorpusCandidate.Before :=
  List.pairwise_insertionSort _ _

theorem scoreCorpora_length (corpora : List CatalogCorpus) (terms : List String) :
    (scoreCorpora arith corpora terms).length = corpora.length := by
  rw [(scoreCorpora_perm corpora terms).length_eq, List.length_map]

/-- A corpus is relevant only for a term that it shares with the query. -/
theorem candidateOf_relevant (harith : arith.Lawful) {terms : List String} {corpus : CatalogCorpus}
    (h : arith.zero < (candidateOf arith terms corpus).relevance) : ∃ term ∈ terms, term ∈ corpusTerms corpus := by
  by_contra hnone
  push Not at hnone
  have hoverlap : terms.filter (fun term => decide (term ∈ corpusTerms corpus)) = [] := by
    simpa [List.filter_eq_nil_iff] using hnone
  have hzero : (candidateOf arith terms corpus).relevance = arith.zero := by
    unfold candidateOf
    dsimp only
    rw [hoverlap, List.length_nil, harith.ratio_zero, ite_self, harith.rounded_zero]
  exact h.ne' hzero

theorem CorpusCandidate.Before.score_le {first second : CorpusCandidate F} (h : first.Before second) :
    second.score ≤ first.score := by
  rcases (Prod.Lex.toLex_le_toLex).mp h with hlt | ⟨heq, -⟩
  · exact (OrderDual.toDual_lt_toDual.mp hlt).le
  · exact (OrderDual.toDual_inj.mp heq).ge

/-- The gap to the second is the gap to all that follow. -/
theorem leads_iff (harith : arith.Lawful) {top : CorpusCandidate F} {rest : List (CorpusCandidate F)}
    (hranked : (top :: rest).Pairwise CorpusCandidate.Before) :
    arith.highGap ≤ arith.minus top.score ((rest.head?.map (·.score)).getD arith.zero) ↔
      (rest = [] → arith.highGap ≤ arith.minus top.score arith.zero) ∧ ∀ other ∈ rest, top.Leads arith other := by
  cases rest with
  | nil => simp
  | cons second rest =>
    have hsecond (other : CorpusCandidate F) (hother : other ∈ second :: rest) : other.score ≤ second.score := by
      rcases List.mem_cons.mp hother with rfl | hrest
      · exact le_rfl
      · exact (List.rel_of_pairwise_cons (List.pairwise_cons.mp hranked).2 hrest).score_le
    constructor
    · intro hgap
      refine ⟨fun hnil => by simp at hnil, fun other hother => ?_⟩
      exact le_trans hgap (harith.minus_antitone top.score (hsecond other hother))
    · rintro ⟨-, hall⟩
      exact hall second List.mem_cons_self

/-- Those that follow the best one are the other corpora. -/
theorem leads_others_iff {corpora : List CatalogCorpus} {terms : List String} {top : CorpusCandidate F}
    {rest : List (CorpusCandidate F)} (hscored : scoreCorpora arith corpora terms = top :: rest)
    (hdistinct : (corpora.map (·.corpusId)).Nodup) :
    (∀ other ∈ rest, top.Leads arith other) ↔
      ∀ corpus ∈ corpora, corpus.corpusId ≠ top.corpusId → top.Leads arith (candidateOf arith terms corpus) := by
  have hmem (candidate : CorpusCandidate F) :
      candidate ∈ top :: rest ↔ ∃ corpus ∈ corpora, candidateOf arith terms corpus = candidate :=
    hscored ▸ mem_scoreCorpora
  have hids : ((scoreCorpora arith corpora terms).map (·.corpusId)).Nodup := scoreCorpora_distinct hdistinct terms
  rw [hscored, List.map_cons, List.nodup_cons] at hids
  constructor
  · intro hall corpus hcorpus hother
    rcases List.mem_cons.mp ((hmem _).mpr ⟨corpus, hcorpus, rfl⟩) with htop | hrest
    · exact absurd (congrArg (·.corpusId) htop) hother
    · exact hall _ hrest
  · intro hall other hother
    obtain ⟨corpus, hcorpus, rfl⟩ := (hmem other).mp (List.mem_cons_of_mem top hother)
    refine hall corpus hcorpus fun hsame => hids.1 ?_
    exact List.mem_map.mpr ⟨_, hother, hsame⟩

/-- The count and the probe follow the confidence. -/
theorem classify_spec {scored : List (CorpusCandidate F)} {confidence : RouteConfidence} {count : Nat} {fallback : Bool}
    (h : classify arith scored = (confidence, count, fallback)) :
    count = min scored.length confidence.width ∧ (fallback = true ↔ confidence = .low) := by
  unfold classify at h
  cases scored with
  | nil =>
    obtain ⟨rfl, rfl, rfl⟩ : RouteConfidence.low = confidence ∧ 0 = count ∧ true = fallback := by simpa using h
    simp
  | cons top rest =>
    dsimp only at h
    split at h
    · obtain ⟨rfl, rfl, rfl⟩ : RouteConfidence.low = confidence ∧ min 3 (rest.length + 1) = count ∧ true = fallback := by
        simpa using h
      exact ⟨min_comm _ _, by simp⟩
    split at h
    · obtain ⟨rfl, rfl, rfl⟩ : RouteConfidence.high = confidence ∧ 1 = count ∧ false = fallback := by simpa using h
      exact ⟨by simp [RouteConfidence.width], by simp⟩
    · obtain ⟨rfl, rfl, rfl⟩ :
          RouteConfidence.medium = confidence ∧ min 2 (rest.length + 1) = count ∧ false = fallback := by
        simpa using h
      exact ⟨min_comm _ _, by simp⟩

/-- The confidence is not low when the best candidate is relevant. -/
theorem classify_confident {scored : List (CorpusCandidate F)} :
    (classify arith scored).1 ≠ .low ↔ ∃ top, scored.head? = some top ∧ arith.zero < top.relevance := by
  unfold classify
  cases scored with
  | nil => simp
  | cons top rest =>
    dsimp only
    split
    · rename_i hirrelevant
      simpa using hirrelevant
    · rename_i hrelevant
      split <;> simpa using hrelevant

/-- It is high when that candidate is very relevant and leads the others. -/
theorem classify_dominant (harith : arith.Lawful) {scored : List (CorpusCandidate F)}
    (hranked : scored.Pairwise CorpusCandidate.Before) :
    (classify arith scored).1 = .high ↔ ∃ top, scored.head? = some top ∧ arith.zero < top.relevance ∧
      arith.highRelevance ≤ top.relevance ∧
      (scored.length = 1 → arith.highGap ≤ arith.minus top.score arith.zero) ∧
      ∀ other ∈ scored.tail, top.Leads arith other := by
  cases scored with
  | nil => simp [classify]
  | cons top rest =>
    have hleads := leads_iff harith hranked
    have hsingle : (top :: rest).length = 1 ↔ rest = [] := by simp
    simp only [List.head?_cons, Option.some.injEq, exists_eq_left', List.tail_cons, hsingle, ← hleads]
    unfold classify
    dsimp only
    split
    · rename_i hirrelevant
      simp [hirrelevant]
    · rename_i hrelevant
      split
      · rename_i hhigh
        simpa [hhigh] using hrelevant
      · rename_i hmedium
        simp only [reduceCtorEq, false_iff, not_and]
        exact fun _ hhigh hgap => hmedium ⟨hhigh, hgap⟩

/-- A limit takes no more than the policy, and something wherever the policy does. -/
theorem takeCount_spec (hlimit : ¬limit.any (fun limit => decide (limit < 1)) = true) (count : Nat) :
    takeCount count limit ≤ count ∧ (0 < count → 0 < takeCount count limit) := by
  cases limit with
  | none => exact ⟨le_rfl, id⟩
  | some limit =>
    have hbound : ¬limit < 1 := by simpa using hlimit
    exact ⟨min_le_left _ _, fun hcount => lt_min hcount (by omega)⟩

/-- What a route is made of: the ranking of the corpora, its head and the one that follows. -/
theorem route_ranked (h : route arith catalog ctx query limit = .ok r) {scored : List (CorpusCandidate F)}
    (hscored : scoreCorpora arith (catalog.resolveCandidates ctx 1000000) (tokenize query) = scored) :
    r.truncatedFrom = scored.length ∧ r.routeConfidence = (classify arith scored).1 ∧
      (r.fallbackSearch = true ↔ r.routeConfidence = .low) ∧
      r.candidates.length = takeCount (min scored.length r.routeConfidence.width) limit ∧
      r.candidates.head? = scored.head? ∧ r.candidates = scored.take r.candidates.length ∧
      r.fallbackCandidates = if r.routeConfidence = .high ∧ limit = none then (scored.drop 1).take 1 else [] := by
  have hlength : scored.length = (catalog.resolveCandidates ctx 1000000).length :=
    hscored ▸ scoreCorpora_length (catalog.resolveCandidates ctx 1000000) (tokenize query)
  unfold route at h
  split at h
  · cases h
  rename_i hlimit
  dsimp only at h
  rw [hscored] at h
  rcases hclassify : classify arith scored with ⟨confidence, policyCount, fallback⟩
  obtain ⟨hcount, hprobes⟩ := classify_spec hclassify
  obtain ⟨htake, hsome⟩ := takeCount_spec hlimit policyCount
  simp only [hclassify, Except.ok.injEq] at h
  subst h
  have htaken : (scored.take (takeCount policyCount limit)).length = takeCount policyCount limit := by
    rw [List.length_take]
    omega
  refine ⟨hlength.symm, rfl, hprobes, ?_, ?_, ?_, ?_⟩
  · dsimp only
    rw [htaken, hcount]
  · cases scored with
    | nil => simp
    | cons top rest =>
      have hpositive : 0 < policyCount := by
        rw [hcount]
        cases confidence <;> simp [RouteConfidence.width]
      dsimp only
      rw [List.head?_take, if_neg (hsome hpositive).ne']
  · dsimp only
    rw [htaken]
  · -- at high confidence and without a limit exactly one is taken
    by_cases hexpands : confidence = .high ∧ limit = none
    · obtain ⟨rfl, rfl⟩ := hexpands
      have hone : takeCount policyCount none = min scored.length 1 := hcount
      simp only [hone, true_and, and_self, if_true]
      rcases scored with _ | ⟨top, _ | ⟨second, rest⟩⟩ <;> simp
    · have hnot : ¬(confidence = .high ∧ limit = none ∧ takeCount policyCount limit < scored.length) :=
        fun h => hexpands ⟨h.1, h.2.1⟩
      rw [if_neg hnot, if_neg hexpands]

/-- Every route keeps the policy: it ranks what the registry resolves for the caller and nothing else,
takes the best of it, and widens to the next best only without a limit and with high confidence. The
scores are compared in any linear order whose arithmetic is lawful; no route is made for a limit below
one. -/
theorem route_sound (harith : arith.Lawful) (h : route arith catalog ctx query limit = .ok r) :
    r.Sound arith catalog ctx query limit := by
  have hdistinct : ((scoreCorpora arith (catalog.resolveCandidates ctx 1000000) (tokenize query)).map
      (·.corpusId)).Nodup :=
    scoreCorpora_distinct (resolveCandidates_distinct 1000000) (tokenize query)
  have hranked : (scoreCorpora arith (catalog.resolveCandidates ctx 1000000) (tokenize query)).Pairwise
      CorpusCandidate.Before :=
    scoreCorpora_ranked _ _
  have hlength : (scoreCorpora arith (catalog.resolveCandidates ctx 1000000) (tokenize query)).length =
      (catalog.resolveCandidates ctx 1000000).length :=
    scoreCorpora_length _ _
  have hmem (candidate : CorpusCandidate F) :
      candidate ∈ scoreCorpora arith (catalog.resolveCandidates ctx 1000000) (tokenize query) ↔
        ∃ corpus ∈ catalog.resolveCandidates ctx 1000000, candidateOf arith (tokenize query) corpus = candidate :=
    mem_scoreCorpora
  generalize hscored : scoreCorpora arith (catalog.resolveCandidates ctx 1000000) (tokenize query) = scored
    at hdistinct hranked hlength hmem
  obtain ⟨htruncated, hconfidence, hprobes, hcount, hhead, htaken, hfallback⟩ := route_ranked h hscored
  have hheld (corpus : CatalogCorpus) (hcorpus : corpus ∈ catalog.resolveCandidates ctx 1000000) :
      candidateOf arith (tokenize query) corpus ∈ scored :=
    (hmem _).mpr ⟨corpus, hcorpus, rfl⟩
  obtain ⟨total, htotal⟩ : ∃ total, r.candidates ++ r.fallbackCandidates = scored.take total := by
    rw [htaken, hfallback, hcount]
    split
    · rename_i hexpands
      obtain ⟨hhigh, rfl⟩ := hexpands
      have hone : takeCount (min scored.length r.routeConfidence.width) none = min scored.length 1 := by
        rw [hhigh]
        rfl
      have hfirst : scored.take (min scored.length 1) = scored.take 1 := List.take_eq_take_iff.mpr (by omega)
      exact ⟨1 + 1, by rw [hone, hfirst, List.take_add]⟩
    · exact ⟨_, List.append_nil _⟩
  have hsub : (r.candidates ++ r.fallbackCandidates).Sublist scored := htotal ▸ List.take_sublist _ _
  exact
    { routable := by
        intro candidate hcandidate
        obtain ⟨corpus, hcorpus, rfl⟩ := (hmem candidate).mp (hsub.subset hcandidate)
        obtain ⟨hin, hroutable⟩ := mem_resolveCandidates hcorpus
        exact ⟨corpus, hin, hroutable, rfl⟩
      distinct := hdistinct.sublist (hsub.map _)
      ranked := hranked.sublist hsub
      best := by
        intro corpus hcorpus hnot candidate hcandidate
        rw [htaken] at hnot hcandidate
        exact Ranking.rel_of_taken hranked _ hcandidate (Ranking.mem_drop_of_not_taken (hheld corpus hcorpus) hnot)
      nextBest := by
        intro corpus hcorpus hnot candidate hcandidate
        have hin := List.mem_append_right r.candidates hcandidate
        rw [htotal] at hnot hin
        exact Ranking.rel_of_taken hranked _ hin (Ranking.mem_drop_of_not_taken (hheld corpus hcorpus) hnot)
      truncated := htruncated.trans hlength
      count := by rw [hcount, htruncated]
      fallback := by
        rw [hfallback, htruncated]
        split
        · rw [List.length_take, List.length_drop]
        · rfl
      probes := hprobes
      confident := by rw [hconfidence, hhead, classify_confident]
      matched := by
        intro hconfident
        rw [hconfidence, classify_confident] at hconfident
        obtain ⟨top, htop, hrelevant⟩ := hconfident
        obtain ⟨corpus, hcorpus, rfl⟩ := (hmem top).mp (List.mem_of_mem_head? htop)
        exact ⟨corpus, hcorpus, hhead.trans htop, candidateOf_relevant harith hrelevant⟩
      dominant := by
        rw [hconfidence, hhead, htruncated, classify_dominant harith hranked]
        refine exists_congr fun top => and_congr_right fun htop => ?_
        obtain ⟨rest, rfl⟩ : ∃ rest, scored = top :: rest := List.head?_eq_some_iff.mp htop
        rw [List.tail_cons, leads_others_iff hscored (resolveCandidates_distinct 1000000)] }

end Policy

namespace Sample

/-- Scores in millionths, cut off where they are rounded. -/
def millionths : ScoreArithmetic Int where
  ratio overlap count := (overlap * 1000000 / count : Nat)
  weighted relevance authority := 7 * relevance / 10 + 3000 * authority
  rounded score := score
  minus first second := first - second
  zero := 0
  one := 1000000
  highRelevance := 500000
  highGap := 150000
  shown score := toString (score / 1000000) ++ "." ++ toString (score / 100000 % 10) ++ toString (score / 10000 % 10)

def hr : CatalogCorpus where
  corpusId := "hr"
  tenantId := "acme"
  vectorCollection := none
  enabled := true
  searchable := true
  name := "HR"
  description := "Leave and offices"
  domain := "people"
  capabilityIds := ["vector_search"]
  authorityLevel := 50

theorem millionths_lawful : millionths.Lawful where
  ratio_zero count := by simp [millionths]
  rounded_zero := rfl
  minus_antitone score := fun _ _ hle => Int.sub_le_sub_left hle score

def hidden : CatalogCorpus := { hr with corpusId := "finance", tenantId := "umbra", name := "Leave ledger" }

def catalog : CorpusCatalog := ⟨[hr], by simp [Table.KeyUnique]⟩

def larger : CorpusCatalog := ⟨[hidden, hr], by simp [Table.KeyUnique, hidden, hr]⟩

/-- Two further corpora of the tenant, of which neither is about leave. -/
def travel : CatalogCorpus :=
  { hr with corpusId := "travel", name := "Travel", description := "Trips and hotels", authorityLevel := 40 }

def canteen : CatalogCorpus :=
  { hr with corpusId := "canteen", name := "Canteen", description := "Menus", authorityLevel := 30 }

def crowded : CorpusCatalog := ⟨[hidden, canteen, hr, travel], by simp [Table.KeyUnique, hidden, canteen, hr, travel]⟩

end Sample

open CorpusRouter.Sample in
theorem route_sound_sample :
    ∃ r, route millionths crowded Honest.Sample.ctx "Which leave?" none = .ok r ∧
      r.Sound millionths crowded Honest.Sample.ctx "Which leave?" none ∧ r.routeConfidence = .high ∧
      r.candidates.map (·.corpusId) = ["hr"] ∧ r.fallbackCandidates.map (·.corpusId) = ["travel"] ∧ r.truncatedFrom = 3 :=
  ⟨_, rfl, route_sound millionths_lawful rfl, by decide +kernel, by decide +kernel, by decide +kernel,
    by decide +kernel⟩

end CorpusRouter

end AgenticRag
