import AgenticRag.Domain

/-!
# Evidence

`domain/evidence.py`, the scope of `domain/temporal.py`, the reports of
`evidence/models.py` and the filter of `evidence/temporal.py`. Of an evidence snapshot the
fields are kept that the answer pipeline reads.
-/

namespace AgenticRag

/-- A `datetime`: the microseconds of its wall clock since 1970, and its UTC offset. -/
structure Datetime where
  wall : Int
  utcOffset : Option Int
  deriving DecidableEq, Repr

namespace Datetime

def naiveUtc (dt : Datetime) : Int := dt.wall - dt.utcOffset.getD 0

/-- Year, month and day of a day counted from 1970-01-01, by eras of 400 years. -/
def civil (days : Int) : Int × Int × Int :=
  let shifted := days + 719468
  let dayOfEra := shifted % 146097
  let yearOfEra := (dayOfEra - dayOfEra / 1460 + dayOfEra / 36524 - dayOfEra / 146096) / 365
  let dayOfYear := dayOfEra - (365 * yearOfEra + yearOfEra / 4 - yearOfEra / 100)
  -- years are counted from March here
  let month := (5 * dayOfYear + 2) / 153
  let year := yearOfEra + shifted / 146097 * 400
  (if month < 10 then year else year + 1, if month < 10 then month + 3 else month - 9,
    dayOfYear - (153 * month + 2) / 5 + 1)

/-- A number with leading zeros. -/
def padded (width : Nat) (n : Int) : String :=
  let digits := toString n
  String.ofList (List.replicate (width - digits.length) '0') ++ digits

def isoformat (dt : Datetime) : String :=
  let (year, month, day) := civil (dt.wall / 86400000000)
  let micros := dt.wall % 86400000000
  let fraction := micros % 1000000
  let clock (seconds : Int) : String :=
    padded 2 (seconds / 3600) ++ ":" ++ padded 2 (seconds / 60 % 60)
  let offset (micros : Int) : String :=
    let seconds := (if micros < 0 then -micros else micros) / 1000000
    (if micros < 0 then "-" else "+") ++ clock seconds ++
      if seconds % 60 = 0 then "" else ":" ++ padded 2 (seconds % 60)
  padded 4 year ++ "-" ++ padded 2 month ++ "-" ++ padded 2 day ++ "T" ++ clock (micros / 1000000) ++
    ":" ++ padded 2 (micros / 1000000 % 60) ++
    (if fraction = 0 then "" else "." ++ padded 6 fraction) ++ (dt.utcOffset.map offset).getD ""

example : (Datetime.mk 1704067199000000 none).isoformat = "2023-12-31T23:59:59" := by decide

end Datetime

/-- The levels from 0 to 100. -/
instance authorityLevels : NeZero 101 := ⟨by decide⟩

/-- An evidence snapshot; `authority_level` is validated to be at most 100. -/
structure Evidence where
  evidenceId : String
  tenantId : String
  corpusId : String
  documentId : String
  documentVersion : String
  sourceUri : String
  sourceFilename : String
  pageNumber : Option Int
  sectionPath : List String
  text : String
  textHash : String
  authorityLevel : Fin 101
  effectiveFrom : Option Datetime
  effectiveTo : Option Datetime
  deprecated : Bool
  retrievedAt : Datetime
  aclPolicyId : String
  policyVersion : String
  deriving DecidableEq, Repr

inductive TemporalScope where
  | current
  | asOf (date : Option Datetime)
  | range (start finish : Option Datetime)
  | unspecified
  deriving DecidableEq, Repr

section Filter

/-- The effective window contains an instant. -/
def Evidence.inForceAt (ev : Evidence) (target : Int) : Bool :=
  decide (∀ dt ∈ ev.effectiveFrom, dt.naiveUtc ≤ target) &&
    decide (∀ dt ∈ ev.effectiveTo, target ≤ dt.naiveUtc)

/-- The evidence that `filter_by_temporal_scope` retains. -/
def filterByTemporalScope (now : Datetime) (evidence : List Evidence) : TemporalScope → List Evidence
  | .current | .unspecified =>
    evidence.filter fun ev => !ev.deprecated && ev.inForceAt now.naiveUtc
  | .asOf none => evidence
  | .asOf (some date) => evidence.filter fun ev => ev.inForceAt date.naiveUtc
  | .range (some start) (some finish) =>
    evidence.filter fun ev =>
      decide (∀ dt ∈ ev.effectiveFrom, dt.naiveUtc ≤ finish.naiveUtc) &&
        decide (∀ dt ∈ ev.effectiveTo, start.naiveUtc ≤ dt.naiveUtc)
  | .range _ _ => evidence

theorem filterByTemporalScope_sublist (now : Datetime) (evidence : List Evidence) (scope : TemporalScope) :
    (filterByTemporalScope now evidence scope).Sublist evidence := by
  unfold filterByTemporalScope
  split
  · exact List.filter_sublist
  · exact List.filter_sublist
  · exact List.Sublist.refl _
  · exact List.filter_sublist
  · exact List.filter_sublist
  · exact List.Sublist.refl _

end Filter

inductive ConflictType where
  | valueConflict
  | versionConflict
  | timeConflict
  | scopeConflict
  | policyConflict
  deriving DecidableEq, Repr

def ConflictType.value : ConflictType → String
  | .valueConflict => "value_conflict"
  | .versionConflict => "version_conflict"
  | .timeConflict => "time_conflict"
  | .scopeConflict => "scope_conflict"
  | .policyConflict => "policy_conflict"

inductive ConflictStatus where
  | none
  | resolved
  | contradicted
  deriving DecidableEq, Repr

inductive ConflictResolution where
  | autoVersion
  | autoTime
  | autoAuthority
  | autoScope
  | unresolved
  deriving DecidableEq, Repr

/-- A pointer to a conflicting evidence. -/
structure SourceRef where
  evidenceId : String
  corpusId : String
  documentId : String
  documentVersion : String
  sectionPath : List String
  sourceFilename : String
  authorityLevel : Fin 101
  effectiveFrom : Option Datetime
  effectiveTo : Option Datetime
  isTemporary : Bool
  deriving DecidableEq, Repr

structure ConflictFinding where
  conflictId : String
  conflictType : ConflictType
  topicKey : String
  sources : List SourceRef
  resolvable : Bool
  resolution : ConflictResolution
  chosenEvidenceIds : List String
  explanation : String
  deriving DecidableEq, Repr

structure ConflictReport where
  scope : TemporalScope
  conflictStatus : ConflictStatus
  findings : List ConflictFinding
  resolvedEvidenceIds : List String
  deriving DecidableEq, Repr

end AgenticRag
