import AgenticRag.Evidence.Assertion

/-!
# The conflict resolver

`evidence/conflict_resolver.py`: versions of one document id first, then the assertions
of what is left, pair by pair. Nothing that a pair drops is taken out of the later pairs.
-/

namespace AgenticRag

structure ConflictResolver where
  authorityMargin : Int
  deriving DecidableEq, Repr

/-- `datetime.min`, in microseconds. -/
def Datetime.min : Int := -62135596800000000

/-- The modes of `_EFFECTIVE_NOW_MODES`. -/
def TemporalScope.effectiveNow : TemporalScope → Bool
  | .current | .unspecified | .asOf _ => true
  | .range _ _ => false

section Pairs

variable {α : Type}

/-- The pairs `i < j` of a list, in the order of the two loops. -/
def pairsOf : List α → List (α × α)
  | [] => []
  | a :: l => l.map (fun b => (a, b)) ++ pairsOf l

theorem mem_pairsOf {a b : α} {l : List α} : (a, b) ∈ pairsOf l ↔ [a, b].Sublist l := by
  induction l with
  | nil => simp [pairsOf]
  | cons c l ih =>
    simp only [pairsOf, List.mem_append, List.mem_map, Prod.mk.injEq, ih]
    constructor
    · rintro (⟨b', hb, rfl, rfl⟩ | h)
      · exact (List.singleton_sublist.mpr hb).cons_cons _
      · exact h.cons _
    · intro h
      cases h with
      | cons _ h => exact .inr h
      | cons_cons _ h => exact .inl ⟨b, List.singleton_sublist.mp h, rfl, rfl⟩

end Pairs

namespace Evidence

def assertion (ev : Evidence) : AssertionExtraction := extractAssertion ev.text

def toSource (ev : Evidence) : SourceRef where
  evidenceId := ev.evidenceId
  corpusId := ev.corpusId
  documentId := ev.documentId
  documentVersion := ev.documentVersion
  sectionPath := ev.sectionPath
  sourceFilename := ev.sourceFilename
  authorityLevel := ev.authorityLevel
  effectiveFrom := ev.effectiveFrom
  effectiveTo := ev.effectiveTo
  isTemporary := ev.effectiveTo.isSome

/-- The first half of the sort key. -/
def startOrMin (ev : Evidence) : Int := (ev.effectiveFrom.map Datetime.naiveUtc).getD Datetime.min

/-- The order of the sort keys. -/
def NoNewer (a b : Evidence) : Prop :=
  a.startOrMin < b.startOrMin ∨
    (a.startOrMin = b.startOrMin ∧ a.documentVersion ≤ b.documentVersion)

instance : DecidableRel NoNewer := fun a b =>
  inferInstanceAs (Decidable (a.startOrMin < b.startOrMin ∨
    (a.startOrMin = b.startOrMin ∧ a.documentVersion ≤ b.documentVersion)))

end Evidence

/-- A finding before it is numbered. -/
structure Candidate where
  conflictType : ConflictType
  sources : List SourceRef
  resolvable : Bool
  resolution : ConflictResolution
  chosenEvidenceIds : List String
  explanation : String
  deriving DecidableEq, Repr

/-- A candidate and the evidence ids it drops. -/
structure Disposition where
  candidate : Candidate
  drop : List String
  deriving DecidableEq, Repr

namespace ConflictResolver

/-- `f"cf-{counter:03d}"`. -/
def conflictId (counter : Nat) : String := "cf-" ++ Datetime.padded 3 counter

/-- The candidates under the ids of `next_id`. -/
def number (topicKey : String) (candidates : List Candidate) : List ConflictFinding :=
  candidates.mapIdx fun i candidate =>
    { conflictId := conflictId (i + 1)
      conflictType := candidate.conflictType
      topicKey := topicKey
      sources := candidate.sources
      resolvable := candidate.resolvable
      resolution := candidate.resolution
      chosenEvidenceIds := candidate.chosenEvidenceIds
      explanation := candidate.explanation }

section VersionRule

/-- The evidence of one document id, whatever its corpus. -/
def groupOf (evs : List Evidence) (documentId : String) : List Evidence :=
  evs.filter fun ev => decide (ev.documentId = documentId)

/-- `by_doc`, in the order the document ids first occur. -/
def groupsByDocument (evs : List Evidence) : List (List Evidence) :=
  (evs.map (·.documentId)).eraseDups.map (groupOf evs)

/-- `len({ev.document_version for ev in group})`. -/
def versionCount (group : List Evidence) : Nat := (group.map (·.documentVersion)).dedup.length

def valuesDiffer (group : List Evidence) : Bool :=
  ((pairsOf (group.map (·.assertion))).any fun (vi, vj) =>
    if vi.isStructured && vj.isStructured then decide (vi.value ≠ vj.value)
    else decide (vi.isStructured ≠ vj.isStructured)) ||
  decide (2 ≤ versionCount group)

/-- The temporary-rollback guard of a group. -/
def guardsGroup (scope : TemporalScope) (group : List Evidence) : Bool :=
  (group.any fun ev => ev.effectiveTo.isSome) && (group.any fun ev => ev.effectiveTo.isNone) &&
    scope.effectiveNow && valuesDiffer group

/-- `ordered`: oldest first, ties in the order of the evidence. -/
def ordered (group : List Evidence) : List Evidence := group.insertionSort Evidence.NoNewer

def resolveVersionGroup (scope : TemporalScope) (group : List Evidence) : Disposition :=
  if guardsGroup scope group then
    { candidate :=
        { conflictType := .timeConflict
          sources := group.map (·.toSource)
          resolvable := false
          resolution := .unresolved
          chosenEvidenceIds := []
          explanation := "Temporary version overlaps a permanent version effective now; " ++
            "cannot auto-supersede." }
      drop := [] }
  else
    let winner := (ordered group).getLast?
    { candidate :=
        { conflictType := .versionConflict
          sources := group.map (·.toSource)
          resolvable := true
          resolution := .autoVersion
          chosenEvidenceIds := winner.toList.map (·.evidenceId)
          explanation := "Newer version " ++ (winner.map (·.documentVersion)).getD "" ++
            " supersedes older version(s)." }
      drop := (ordered group).dropLast.map (·.evidenceId) }

/-- Phase 1: the document ids with more than one version. -/
def versionPhase (scope : TemporalScope) (evs : List Evidence) : List Disposition :=
  ((groupsByDocument evs).filter fun group => decide (2 ≤ versionCount group)).map
    (resolveVersionGroup scope)

/-- The evidence ids that phase 1 drops. -/
def versionDropped (scope : TemporalScope) (evs : List Evidence) : List String :=
  (versionPhase scope evs).flatMap (·.drop)

def survivors (scope : TemporalScope) (evs : List Evidence) : List Evidence :=
  evs.filter fun ev => decide (ev.evidenceId ∉ versionDropped scope evs)

end VersionRule

section PairRules

variable (self : ConflictResolver)

/-- A candidate over two items. -/
def pairCandidate (a b : Evidence) (conflictType : ConflictType) (resolution : ConflictResolution)
    (chosenEvidenceIds : List String) (explanation : String) : Candidate where
  conflictType := conflictType
  sources := [a.toSource, b.toSource]
  resolvable := decide (resolution ≠ .unresolved)
  resolution := resolution
  chosenEvidenceIds := chosenEvidenceIds
  explanation := explanation

/-- `_resolve_pair`; `none` is `(None, set())`. -/
def resolvePair (scope : TemporalScope) (a b : Evidence) (fa fb : AssertionExtraction) :
    Option Disposition :=
  if !fa.isStructured || !fb.isStructured then
    none
  else if fa.key ≠ fb.key then
    some
      ⟨pairCandidate a b .scopeConflict .autoScope [a.evidenceId, b.evidenceId]
        "Distinct keys; complementary, not contradictory.", []⟩
  else if fa.value = fb.value then
    none
  else if a.effectiveTo.isSome ≠ b.effectiveTo.isSome ∧ scope.effectiveNow = true then
    some
      ⟨pairCandidate a b .timeConflict .unresolved []
        ("Temporary rollback overlaps a permanent statement effective now; " ++
          "cannot auto-resolve."), []⟩
  else if a.documentId ≠ b.documentId ∧
      self.authorityMargin ≤ |(a.authorityLevel.val : Int) - b.authorityLevel.val| then
    let (high, low) := if b.authorityLevel < a.authorityLevel then (a, b) else (b, a)
    some
      ⟨pairCandidate a b .valueConflict .autoAuthority [high.evidenceId]
        ("Higher authority " ++ toString high.authorityLevel.val ++ " overrides " ++
          toString low.authorityLevel.val ++ "."), [low.evidenceId]⟩
  else
    some
      ⟨pairCandidate a b .valueConflict .unresolved []
        ("Conflicting values from equally-authoritative (or same-source) " ++
          "evidence; cannot auto-resolve."), []⟩

/-- `assertions[evidence_id]`: of items with one id the last one counts. -/
def assertionOf (items : List Evidence) (evidenceId : String) : AssertionExtraction :=
  ((items.reverse.find? fun ev => decide (ev.evidenceId = evidenceId)).map (·.assertion)).getD
    .unstructured

/-- Phase 2: the pairs that are not versions of one document id. -/
def pairPhase (scope : TemporalScope) (items : List Evidence) : List Disposition :=
  ((pairsOf items).filter fun (a, b) =>
      !decide (a.documentId = b.documentId ∧ a.documentVersion ≠ b.documentVersion)).filterMap
    fun (a, b) =>
      self.resolvePair scope a b (assertionOf items a.evidenceId) (assertionOf items b.evidenceId)

end PairRules

/-- `conflict_status` of the candidates. -/
def statusOf (candidates : List Candidate) : ConflictStatus :=
  if candidates = [] then .none
  else if candidates.any fun candidate => !candidate.resolvable then .contradicted
  else .resolved

def resolve (self : ConflictResolver) (evs : List Evidence) (scope : TemporalScope)
    (topicKey : String) : ConflictReport :=
  let first := versionPhase scope evs
  let second := self.pairPhase scope (survivors scope evs)
  let candidates := (first ++ second).map (·.candidate)
  let dropped := (first ++ second).flatMap (·.drop)
  { scope := scope
    conflictStatus := statusOf candidates
    findings := number topicKey candidates
    resolvedEvidenceIds :=
      (evs.filter fun ev => decide (ev.evidenceId ∉ dropped)).map (·.evidenceId) }

end ConflictResolver

namespace Sample

/-- `ConflictResolver()`. -/
def resolver : ConflictResolver := ⟨20⟩

/-- A chunk of a document version that makes a statement. -/
def statement (evidenceId documentId documentVersion text : String) (authorityLevel : Fin 101) :
    Evidence where
  evidenceId := evidenceId
  tenantId := "acme"
  corpusId := "policies"
  documentId := documentId
  documentVersion := documentVersion
  sourceUri := "u"
  sourceFilename := "f"
  pageNumber := none
  sectionPath := []
  text := text
  textHash := "h"
  authorityLevel := authorityLevel
  effectiveFrom := none
  effectiveTo := none
  deprecated := false
  retrievedAt := ⟨0, none⟩
  aclPolicyId := "default"
  policyVersion := "1"

end Sample

end AgenticRag
