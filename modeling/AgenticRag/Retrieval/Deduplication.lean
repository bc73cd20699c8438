import AgenticRag.Foundations.Table
import AgenticRag.Planner.Binding
import AgenticRag.Retrieval.SecureRetriever

/-!
# Deduplication of hits

`retrieval/deduplication.py`: hits that repeat a chunk, a parent or a text are folded into one
survivor, which records the others. The dictionaries of groups are tables with one row for each
key. `str.lower` and the ratio of `difflib` belong to the standard library.
-/

namespace AgenticRag

structure RetrievalContext where
  query : String
  iteration : Int
  planStepId : Option String
  deriving DecidableEq, Repr

/-- A `_source_record`. -/
structure DuplicateSource where
  corpusId : String
  documentId : String
  documentVersion : String
  parentId : String
  chunkId : String
  authorityLevel : Int
  deriving DecidableEq, Repr

structure DedupCandidate where
  hit : RetrievalHit
  contexts : List RetrievalContext
  text : String
  authorityLevel : Int
  duplicateSources : List DuplicateSource
  deriving DecidableEq

namespace DedupCandidate

def sourceRecord (cand : DedupCandidate) : DuplicateSource where
  corpusId := cand.hit.ref.doc.corpusId
  documentId := cand.hit.ref.doc.documentId
  documentVersion := cand.hit.ref.version
  parentId := cand.hit.parentId
  chunkId := cand.hit.chunkId
  authorityLevel := cand.authorityLevel

/-- `_fold`, seen from the candidate that is kept. -/
def fold (keep incoming : DedupCandidate) : DedupCandidate :=
  { keep with
    contexts := incoming.contexts.foldl
      (fun contexts context => if context ∈ contexts then contexts else contexts ++ [context]) keep.contexts
    duplicateSources := keep.duplicateSources ++ incoming.sourceRecord :: incoming.duplicateSources }

def isBetter (cand existing : DedupCandidate) : Bool :=
  if cand.authorityLevel ≠ existing.authorityLevel then
    decide (existing.authorityLevel < cand.authorityLevel)
  else
    decide (existing.hit.score < cand.hit.score)

@[simp] theorem fold_hit (keep incoming : DedupCandidate) : (keep.fold incoming).hit = keep.hit := rfl

end DedupCandidate

/-- `Deduplicator`. Below a threshold of 1, `similar` says which two texts reach it. -/
structure Deduplicator where
  lower : List Char → List Char
  similar : Option (List Char → List Char → Bool)

namespace Deduplicator

variable (dedup : Deduplicator)

/-- `_WS_RE.sub(" ", text)`; the flag is set inside a run of whitespace. -/
def collapseSpaces : Bool → List Char → List Char
  | _, [] => []
  | inside, c :: rest =>
    if Planner.isSpace c = true then
      if inside then collapseSpaces true rest else ' ' :: collapseSpaces true rest
    else
      c :: collapseSpaces false rest

def normalizeText (text : String) : List Char :=
  collapseSpaces false (dedup.lower (Planner.strip text.toList))

section Collapse

variable {κ : Type} [DecidableEq κ] (key : DedupCandidate → κ)

/-- One candidate of `_collapse`. -/
def collapseOne (groups : List DedupCandidate) (cand : DedupCandidate) : List DedupCandidate :=
  match Table.selectOne (fun group => decide (key group = key cand)) groups with
  | none => Table.upsert key groups cand
  | some existing =>
    if existing.hit.score < cand.hit.score then Table.upsert key groups (cand.fold existing)
    else Table.upsert key groups (existing.fold cand)

def collapse (candidates : List DedupCandidate) : List DedupCandidate :=
  candidates.foldl (collapseOne key) []

end Collapse

def findTextMatch (groups : List (List Char × DedupCandidate)) (textKey : List Char) :
    Option (List Char × DedupCandidate) :=
  match dedup.similar with
  | none => Table.selectOne (fun group => decide (group.1 = textKey)) groups
  | some similar => Table.selectOne (fun group => similar group.1 textKey) groups

/-- One candidate of `_collapse_text`. -/
def collapseTextOne (groups : List (List Char × DedupCandidate)) (cand : DedupCandidate) :
    List (List Char × DedupCandidate) :=
  let textKey := dedup.normalizeText cand.text
  match dedup.findTextMatch groups textKey with
  | none => Table.upsert Prod.fst groups (textKey, cand)
  | some (matchedKey, existing) =>
    -- the group keeps its key, also when the new candidate wins
    if cand.isBetter existing then Table.upsert Prod.fst groups (matchedKey, cand.fold existing)
    else Table.upsert Prod.fst groups (matchedKey, existing.fold cand)

def collapseText (candidates : List DedupCandidate) : List DedupCandidate :=
  (candidates.foldl dedup.collapseTextOne []).map Prod.snd

/-- The key of the first pass. -/
def spanKey (cand : DedupCandidate) : String × String × String :=
  (cand.hit.ref.doc.documentId, cand.hit.ref.version, cand.hit.chunkId)

def deduplicate (candidates : List DedupCandidate) : List DedupCandidate :=
  (dedup.collapseText (collapse (·.hit.parentId) (collapse spanKey candidates))).insertionSort
    fun first second => second.hit.score ≤ first.hit.score

section Survivors

def FromHits (candidates survivors : List DedupCandidate) : Prop :=
  ∀ cand ∈ survivors, ∃ candidate ∈ candidates, candidate.hit = cand.hit

theorem FromHits.trans {first second third : List DedupCandidate} (h : FromHits first second)
    (h' : FromHits second third) : FromHits first third := by
  intro cand hcand
  obtain ⟨middle, hmiddle, hhit⟩ := h' cand hcand
  obtain ⟨candidate, hcandidate, hhit'⟩ := h middle hmiddle
  exact ⟨candidate, hcandidate, hhit'.trans hhit⟩

variable {κ : Type} [DecidableEq κ] {key : DedupCandidate → κ}

theorem collapseOne_hits {groups : List DedupCandidate} {cand survivor : DedupCandidate}
    (h : survivor ∈ collapseOne key groups cand) :
    survivor.hit = cand.hit ∨ ∃ group ∈ groups, group.hit = survivor.hit := by
  unfold collapseOne at h
  split at h
  · rcases Table.mem_upsert.mp h with rfl | ⟨hold, -⟩
    · exact Or.inl rfl
    · exact Or.inr ⟨survivor, hold, rfl⟩
  · rename_i existing hexisting
    have hmem := (Table.selectOne_some hexisting).1
    split at h
    · rcases Table.mem_upsert.mp h with rfl | ⟨hold, -⟩
      · exact Or.inl rfl
      · exact Or.inr ⟨survivor, hold, rfl⟩
    · rcases Table.mem_upsert.mp h with rfl | ⟨hold, -⟩
      · exact Or.inr ⟨existing, hmem, rfl⟩
      · exact Or.inr ⟨survivor, hold, rfl⟩

theorem collapse_hits (candidates : List DedupCandidate) : FromHits candidates (collapse key candidates) := by
  unfold collapse
  induction candidates using List.reverseRecOn with
  | nil =>
    intro cand hcand
    exact absurd hcand (by simp)
  | append_singleton candidates last ih =>
    intro cand hcand
    rw [List.foldl_append, List.foldl_cons, List.foldl_nil] at hcand
    rcases collapseOne_hits hcand with hlast | ⟨group, hgroup, hhit⟩
    · exact ⟨last, by simp, hlast.symm⟩
    · obtain ⟨candidate, hcandidate, hhit'⟩ := ih group hgroup
      exact ⟨candidate, List.mem_append_left _ hcandidate, hhit'.trans hhit⟩

variable {dedup}

theorem findTextMatch_mem {groups : List (List Char × DedupCandidate)} {textKey : List Char}
    {group : List Char × DedupCandidate} (h : dedup.findTextMatch groups textKey = some group) :
    group ∈ groups := by
  unfold findTextMatch at h
  split at h
  · exact (Table.selectOne_some h).1
  · exact (Table.selectOne_some h).1

theorem collapseTextOne_hits {groups : List (List Char × DedupCandidate)} {cand : DedupCandidate}
    {survivor : List Char × DedupCandidate} (h : survivor ∈ dedup.collapseTextOne groups cand) :
    survivor.2.hit = cand.hit ∨ ∃ group ∈ groups, group.2.hit = survivor.2.hit := by
  unfold collapseTextOne at h
  dsimp only at h
  split at h
  · rcases Table.mem_upsert.mp h with rfl | ⟨hold, -⟩
    · exact Or.inl rfl
    · exact Or.inr ⟨survivor, hold, rfl⟩
  · rename_i matchedKey existing hmatch
    have hmem := findTextMatch_mem hmatch
    split at h
    · rcases Table.mem_upsert.mp h with rfl | ⟨hold, -⟩
      · exact Or.inl rfl
      · exact Or.inr ⟨survivor, hold, rfl⟩
    · rcases Table.mem_upsert.mp h with rfl | ⟨hold, -⟩
      · exact Or.inr ⟨_, hmem, rfl⟩
      · exact Or.inr ⟨survivor, hold, rfl⟩

theorem collapseText_hits (candidates : List DedupCandidate) :
    FromHits candidates (dedup.collapseText candidates) := by
  have hgroups : ∀ group ∈ candidates.foldl dedup.collapseTextOne [],
      ∃ candidate ∈ candidates, candidate.hit = group.2.hit := by
    induction candidates using List.reverseRecOn with
    | nil =>
      intro group hgroup
      exact absurd hgroup (by simp)
    | append_singleton candidates last ih =>
      intro group hgroup
      rw [List.foldl_append, List.foldl_cons, List.foldl_nil] at hgroup
      rcases collapseTextOne_hits hgroup with hlast | ⟨old, hold, hhit⟩
      · exact ⟨last, by simp, hlast.symm⟩
      · obtain ⟨candidate, hcandidate, hhit'⟩ := ih old hold
        exact ⟨candidate, List.mem_append_left _ hcandidate, hhit'.trans hhit⟩
  intro cand hcand
  obtain ⟨group, hgroup, rfl⟩ := List.mem_map.mp hcand
  exact hgroups group hgroup

/-- No hit is made up. -/
theorem deduplicate_hits (candidates : List DedupCandidate) :
    FromHits candidates (dedup.deduplicate candidates) := by
  have hall : FromHits candidates
      (dedup.collapseText (collapse (·.hit.parentId) (collapse spanKey candidates))) :=
    (collapse_hits candidates).trans ((collapse_hits _).trans (collapseText_hits _))
  intro cand hcand
  exact hall cand ((List.mem_insertionSort _).mp hcand)

end Survivors

end Deduplicator

end AgenticRag
