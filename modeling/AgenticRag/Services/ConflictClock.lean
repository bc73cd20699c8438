import AgenticRag.Evidence.ConflictResolver
import AgenticRag.Services.ChatService

/-!
# The clock of the conflict stage

The conflict stage gives the filter of `evidence/temporal.py` no time, so the filter asks
`datetime.now()` for it: the wall clock of the host without its offset, which `_naive_utc`
takes for UTC. The windows of the evidence are UTC timestamps of the store.
-/

namespace AgenticRag

inductive FilterReason where
  | deprecated
  | expired
  | notYetEffective
  | outOfWindow
  deriving DecidableEq, Repr

/-- An item dropped by the filter. -/
structure FilteredEvidence where
  evidence : Evidence
  reason : FilterReason
  deriving DecidableEq, Repr

structure TemporalFilterResult where
  scope : TemporalScope
  retained : List Evidence
  filteredOut : List FilteredEvidence
  deriving DecidableEq, Repr

namespace Evidence

def expiredAt (ev : Evidence) (target : Int) : Bool :=
  ev.effectiveTo.any fun dt => decide (dt.naiveUtc < target)

def pendingAt (ev : Evidence) (target : Int) : Bool :=
  ev.effectiveFrom.any fun dt => decide (target < dt.naiveUtc)

/-- The bounds of the window lie on the same side of both times, as far as they are looked at. -/
def SameSide (ev : Evidence) (first second : Int) : Prop :=
  ev.expiredAt first = ev.expiredAt second ∧
    (ev.expiredAt first = false → ev.pendingAt first = ev.pendingAt second)

instance (ev : Evidence) (first second : Int) : Decidable (ev.SameSide first second) :=
  inferInstanceAs (Decidable (_ ∧ (_ → _)))

theorem inForceAt_eq (ev : Evidence) (target : Int) :
    ev.inForceAt target = (!ev.expiredAt target && !ev.pendingAt target) := by
  rw [Bool.and_comm, Bool.eq_iff_iff]
  unfold inForceAt expiredAt pendingAt
  cases ev.effectiveFrom <;> cases ev.effectiveTo <;> simp

end Evidence

section Filter

/-- Why an item is dropped, if it is. -/
def dropReason (now : Datetime) (ev : Evidence) : TemporalScope → Option FilterReason
  | .current | .unspecified =>
    if ev.deprecated then some .deprecated
    else if ev.expiredAt now.naiveUtc then some .expired
    else if ev.pendingAt now.naiveUtc then some .notYetEffective
    else none
  | .asOf none => none
  | .asOf (some date) => if ev.inForceAt date.naiveUtc then none else some .outOfWindow
  | .range (some start) (some finish) =>
    if decide (∀ dt ∈ ev.effectiveFrom, dt.naiveUtc ≤ finish.naiveUtc) &&
        decide (∀ dt ∈ ev.effectiveTo, start.naiveUtc ≤ dt.naiveUtc) then none
    else some .outOfWindow
  | .range _ _ => none

/-- One item in the loop. -/
def sortEvidence (now : Datetime) (result : TemporalFilterResult) (ev : Evidence) : TemporalFilterResult :=
  match dropReason now ev result.scope with
  | none => { result with retained := result.retained ++ [ev] }
  | some reason => { result with filteredOut := result.filteredOut ++ [⟨ev, reason⟩] }

/-- `filter_by_temporal_scope` at a time. -/
def temporalFilter (now : Datetime) (evidence : List Evidence) (scope : TemporalScope) :
    TemporalFilterResult :=
  evidence.foldl (sortEvidence now) ⟨scope, [], []⟩

/-- Both parts in the order of the evidence, and together all of it. -/
structure TemporalFilterResult.Partitions (result : TemporalFilterResult) (evidence : List Evidence) :
    Prop where
  retained : result.retained.Sublist evidence
  filteredOut : (result.filteredOut.map (·.evidence)).Sublist evidence
  all : (result.retained ++ result.filteredOut.map (·.evidence)).Perm evidence

variable (now : Datetime) (evidence : List Evidence) (scope : TemporalScope)

theorem foldl_sortEvidence (retained : List Evidence) (filteredOut : List FilteredEvidence) :
    evidence.foldl (sortEvidence now) ⟨scope, retained, filteredOut⟩ =
      { scope
        retained := retained ++ evidence.filter fun ev => (dropReason now ev scope).isNone
        filteredOut := filteredOut ++ evidence.filterMap fun ev =>
          (dropReason now ev scope).map fun reason => ⟨ev, reason⟩ } := by
  induction evidence generalizing retained filteredOut with
  | nil => simp
  | cons ev evidence ih =>
    rw [List.foldl_cons]
    cases hreason : dropReason now ev scope with
    | none =>
      rw [sortEvidence, hreason]
      simp [ih, hreason]
    | some reason =>
      rw [sortEvidence, hreason]
      simp [ih, hreason]

theorem temporalFilter_eq : temporalFilter now evidence scope =
    { scope
      retained := evidence.filter fun ev => (dropReason now ev scope).isNone
      filteredOut := evidence.filterMap fun ev =>
        (dropReason now ev scope).map fun reason => ⟨ev, reason⟩ } := by
  rw [temporalFilter, foldl_sortEvidence, List.nil_append, List.nil_append]

theorem dropReason_now (hscope : scope = .current ∨ scope = .unspecified) (ev : Evidence) :
    dropReason now ev scope =
      if ev.deprecated then some .deprecated
      else if ev.expiredAt now.naiveUtc then some .expired
      else if ev.pendingAt now.naiveUtc then some .notYetEffective
      else none := by
  rcases hscope with rfl | rfl
  · rfl
  · rfl

/-- The part that is retained. -/
theorem temporalFilter_retained :
    (temporalFilter now evidence scope).retained = filterByTemporalScope now evidence scope := by
  rw [temporalFilter_eq]
  have hnow : (evidence.filter fun ev => (dropReason now ev .current).isNone) =
      evidence.filter fun ev => !ev.deprecated && ev.inForceAt now.naiveUtc := by
    congr 1
    funext ev
    rw [dropReason, Evidence.inForceAt_eq]
    cases ev.deprecated <;> cases ev.expiredAt now.naiveUtc <;> cases ev.pendingAt now.naiveUtc <;> rfl
  match scope with
  | .current => exact hnow
  | .unspecified => exact hnow
  | .asOf none => simp [dropReason, filterByTemporalScope]
  | .asOf (some date) =>
    simp only [dropReason, filterByTemporalScope]
    congr 1
    funext ev
    cases ev.inForceAt date.naiveUtc <;> rfl
  | .range none _ => simp [dropReason, filterByTemporalScope]
  | .range (some _) none => simp [dropReason, filterByTemporalScope]
  | .range (some start) (some finish) =>
    simp only [dropReason, filterByTemporalScope]
    congr 1
    funext ev
    split
    · rename_i hkept
      exact hkept.symm
    · rename_i hdropped
      exact (Bool.not_eq_true _ ▸ hdropped).symm

theorem temporalFilter_partitions : (temporalFilter now evidence scope).Partitions evidence := by
  have hdropped : ((temporalFilter now evidence scope).filteredOut.map (·.evidence)) =
      evidence.filter fun ev => !(dropReason now ev scope).isNone := by
    rw [temporalFilter_eq]
    simp only
    induction evidence with
    | nil => rfl
    | cons ev evidence ih =>
      cases hreason : dropReason now ev scope with
      | none => simp [hreason, ih]
      | some reason => simp [hreason, ih]
  constructor
  · rw [temporalFilter_eq]
    exact List.filter_sublist
  · rw [hdropped]
    exact List.filter_sublist
  · rw [hdropped, temporalFilter_eq]
    exact List.filter_append_perm _ _

theorem mem_filteredOut {ev : Evidence} {reason : FilterReason} :
    ⟨ev, reason⟩ ∈ (temporalFilter now evidence scope).filteredOut ↔
      ev ∈ evidence ∧ dropReason now ev scope = some reason := by
  rw [temporalFilter_eq]
  simp only [List.mem_filterMap, Option.map_eq_some_iff, FilteredEvidence.mk.injEq]
  constructor
  · rintro ⟨other, hother, found, hfound, rfl, rfl⟩
    exact ⟨hother, hfound⟩
  · rintro ⟨hev, hreason⟩
    exact ⟨ev, hev, reason, hreason, rfl, rfl⟩

/-- The result is the same at another time if every item is judged the same. -/
theorem temporalFilter_eq_iff (other : Datetime) :
    temporalFilter now evidence scope = temporalFilter other evidence scope ↔
      ∀ ev ∈ evidence, dropReason now ev scope = dropReason other ev scope := by
  constructor
  · intro h ev hev
    apply Option.ext
    intro reason
    have hmem := @mem_filteredOut now evidence scope ev reason
    rw [h, mem_filteredOut] at hmem
    constructor
    · exact fun hreason => (hmem.mpr ⟨hev, hreason⟩).2
    · exact fun hreason => (hmem.mp ⟨hev, hreason⟩).2
  · intro h
    rw [temporalFilter_eq, temporalFilter_eq]
    congr 1
    · apply List.filter_congr
      intro ev hev
      rw [h ev hev]
    · apply List.filterMap_congr
      intro ev hev
      rw [h ev hev]

theorem dropReason_eq_iff (other : Datetime) (hscope : scope = .current ∨ scope = .unspecified)
    (ev : Evidence) : dropReason now ev scope = dropReason other ev scope ↔
      (ev.deprecated = false → ev.SameSide now.naiveUtc other.naiveUtc) := by
  rw [dropReason_now now scope hscope, dropReason_now other scope hscope, Evidence.SameSide]
  cases ev.deprecated
  · cases ev.expiredAt now.naiveUtc <;> cases ev.expiredAt other.naiveUtc <;>
      cases ev.pendingAt now.naiveUtc <;> cases ev.pendingAt other.naiveUtc <;> decide
  · simp

end Filter

section HostClock

/-- `datetime.now()` at an instant, on a host whose local time is `zone` ahead of UTC. -/
def hostNow (zone : Int → Int) (instant : Int) : Datetime := ⟨instant + zone instant, none⟩

/-- The call of the conflict stage, without a time of its own. -/
def conflictFilter (zone : Int → Int) (instant : Int) (evidence : List Evidence) (scope : TemporalScope) :
    TemporalFilterResult :=
  temporalFilter (hostNow zone instant) evidence scope

/-- What the stage hands to the resolver and keeps is what its filter retains. -/
theorem runConflictStage_eq (texts : ChatTexts) (zone : Int → Int) (instant : Int) (query : String)
    (scope : TemporalScope) (evidence : List Evidence) :
    runConflictStage texts (hostNow zone instant) query scope evidence =
      let retained := (conflictFilter zone instant evidence scope).retained
      let report := texts.resolveConflicts retained scope (texts.normalizeTopicKey query)
      (report, retained.filter fun ev => decide (ev.evidenceId ∈ report.resolvedEvidenceIds)) := by
  rw [conflictFilter, temporalFilter_retained]
  rfl

theorem naiveUtc_hostNow (zone : Int → Int) (instant : Int) :
    (hostNow zone instant).naiveUtc = instant + zone instant := by
  simp [Datetime.naiveUtc, hostNow]

/-- The filter of a host keeps to the instant exactly if no bound of an item that is not deprecated lies
between the instant and the wall clock. `zone` is the offset of the host's clock; the other scopes carry
their own dates and do not ask it. -/
theorem conflictFilter_iff (zone : Int → Int) (instant : Int) (evidence : List Evidence)
    {scope : TemporalScope} (hscope : scope = .current ∨ scope = .unspecified) :
    ((conflictFilter zone instant evidence scope).Partitions evidence ∧
      (conflictFilter zone instant evidence scope).retained =
        evidence.filter (fun ev => !ev.deprecated && ev.inForceAt instant) ∧
      conflictFilter zone instant evidence scope = conflictFilter (fun _ => 0) instant evidence scope) ↔
      ∀ ev ∈ evidence, ev.deprecated = false → ev.SameSide (instant + zone instant) instant := by
  have hutc : (hostNow (fun _ => 0) instant).naiveUtc = instant := by
    rw [naiveUtc_hostNow, Int.add_zero]
  have hsame : conflictFilter zone instant evidence scope =
      conflictFilter (fun _ => 0) instant evidence scope ↔
        ∀ ev ∈ evidence, ev.deprecated = false → ev.SameSide (instant + zone instant) instant := by
    simp only [conflictFilter, temporalFilter_eq_iff, dropReason_eq_iff _ scope _ hscope,
      naiveUtc_hostNow, Int.add_zero]
  rw [← hsame]
  constructor
  · exact fun h => h.2.2
  · intro h
    refine ⟨temporalFilter_partitions _ _ _, ?_, h⟩
    rw [h, conflictFilter, temporalFilter_retained]
    rcases hscope with rfl | rfl
    · simp only [filterByTemporalScope, hutc]
    · simp only [filterByTemporalScope, hutc]

end HostClock

namespace Sample

/-- A document of 2025 that was replaced on January 1 at noon. -/
private def replaced : Evidence :=
  { statement "e1" "travel" "v1" "timeout: 1" 40 with
    effectiveFrom := some ⟨1735689600000000, some 0⟩
    effectiveTo := some ⟨1735732800000000, some 0⟩ }

/-- A host eight hours ahead of UTC. -/
private def ahead : Int → Int := fun _ => 28800000000

end Sample

open Sample

/-- In the evening the document is out of force by both clocks. -/
theorem conflictFilter_iff_evening :
    (conflictFilter ahead 1735754400000000 [replaced] .current).Partitions [replaced] ∧
      (conflictFilter ahead 1735754400000000 [replaced] .current).retained =
        [replaced].filter (fun ev => !ev.deprecated && ev.inForceAt 1735754400000000) ∧
      conflictFilter ahead 1735754400000000 [replaced] .current =
        conflictFilter (fun _ => 0) 1735754400000000 [replaced] .current :=
  (conflictFilter_iff ahead 1735754400000000 [replaced] (.inl rfl)).mpr (by decide)

/-- An hour before noon the host drops the document. -/
theorem conflictFilter_refuted :
    ¬∀ (zone : Int → Int) (instant : Int) (evidence : List Evidence) (scope : TemporalScope),
      scope = .current ∨ scope = .unspecified →
      (conflictFilter zone instant evidence scope).retained =
        evidence.filter fun ev => !ev.deprecated && ev.inForceAt instant := by
  intro h
  have hretained := h ahead 1735729200000000 [replaced] .current (.inl rfl)
  have hdropped : (conflictFilter ahead 1735729200000000 [replaced] .current).retained = [] := by decide
  have hinForce : [replaced].filter (fun ev => !ev.deprecated && ev.inForceAt 1735729200000000) =
      [replaced] := by decide
  rw [hdropped, hinForce] at hretained
  cases hretained

end AgenticRag
