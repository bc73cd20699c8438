import AgenticRag.Services.CheckpointViews

/-!
# Derived state in the loop

Coverage, conflict report, final evidence, conflict stop and final reason are derived from the
gathered evidence. A round writes the reason to stop anew and counts from the coverage it finds,
so the loop does not read the reason that it starts with, nor what was counted from before.
-/

namespace AgenticRag

open Method

structure DerivedState where
  coverage : Option SufficiencyResult
  finalReport : Option ConflictReport
  finalEvidenceIds : List String
  conflictStop : Bool
  finalReason : Option String
  deriving DecidableEq, Repr

def RunCheckpoint.withDerived (ck : RunCheckpoint) (derived : DerivedState) : RunCheckpoint :=
  { ck with
    coverage := derived.coverage
    finalReport := derived.finalReport
    finalEvidenceIds := derived.finalEvidenceIds
    conflictStop := derived.conflictStop
    finalReason := derived.finalReason }

/-- A checkpoint without its derived state. -/
def underived : CheckpointView where
  view ck := ck.withDerived ⟨none, none, [], false, none⟩
  runId _ := rfl
  identity _ := rfl
  roundIndex _ := rfl
  status _ _ := rfl

theorem underived_eq {ck ck' : RunCheckpoint} (h : underived.view ck = underived.view ck') :
    ∃ derived, ck' = ck.withDerived derived := by
  refine ⟨⟨ck'.coverage, ck'.finalReport, ck'.finalEvidenceIds, ck'.conflictStop, ck'.finalReason⟩, ?_⟩
  cases ck
  cases ck'
  simp only [underived, RunCheckpoint.withDerived, RunCheckpoint.mk.injEq] at h ⊢
  simp only [h, and_self]

namespace IterationState

/-- The states differ in what the next verdict of the judge is compared with. -/
def Uncounted (t t' : IterationState) : Prop := ∃ prevCovered, t' = { t with prevCovered := prevCovered }

/-- They may differ in the reason to stop as well. -/
def Unread (t t' : IterationState) : Prop :=
  ∃ prevCovered finalReason, t' = { t with prevCovered := prevCovered, finalReason := finalReason }

/-- They may differ in the reason to stop alone. -/
def Unreasoned (t t' : IterationState) : Prop := ∃ finalReason, t' = { t with finalReason := finalReason }

/-- They may differ in all that is derived. -/
def Underived (t t' : IterationState) : Prop :=
  ∃ coverage prevCovered finalReason finalReport finalEvidence conflictStop, t' = { t with
    coverage := coverage
    prevCovered := prevCovered
    finalReason := finalReason
    finalReport := finalReport
    finalEvidence := finalEvidence
    conflictStop := conflictStop }

/-- The state of a run that was completed is cleared. -/
def reopened (t : IterationState) (status : CheckpointStatus) : IterationState :=
  if status = .completed then
    { t with
      coverage := none
      finalReport := none
      finalEvidence := []
      conflictStop := false
      finalReason := none }
  else t

/-- The state after the judge has been asked about the evidence that is kept. -/
def recomputed (t : IterationState) (report : ConflictReport) (kept : List Evidence)
    (coverage : SufficiencyResult) : IterationState :=
  { t with
    finalReport := some report
    finalEvidence := kept
    conflictStop := decide (report.conflictStatus = .contradicted)
    coverage := some (if report.conflictStatus = .contradicted then .contradictedCoverage else coverage) }

theorem Underived.reopened {t t' : IterationState} (h : Underived t t') (status : CheckpointStatus) :
    Underived (t.reopened status) (t'.reopened status) := by
  obtain ⟨coverage, prevCovered, finalReason, finalReport, finalEvidence, conflictStop, rfl⟩ := h
  unfold IterationState.reopened
  split
  · exact ⟨none, prevCovered, none, none, [], false, rfl⟩
  · exact ⟨coverage, prevCovered, finalReason, finalReport, finalEvidence, conflictStop, rfl⟩

/-- The recomputation overwrites what has been derived, but for the reason of a run that was not
completed. -/
theorem Underived.recomputed {t t' : IterationState} (h : Underived t t') (status : CheckpointStatus)
    (report : ConflictReport) (kept : List Evidence) (coverage : SufficiencyResult) :
    ∃ prevCovered finalReason,
      (t'.reopened status).recomputed report kept coverage =
        { (t.reopened status).recomputed report kept coverage with
          prevCovered := prevCovered
          finalReason := finalReason } ∧
      (status = .completed →
        ((t.reopened status).recomputed report kept coverage).finalReason = finalReason) := by
  obtain ⟨derived, prevCovered, finalReason, finalReport, finalEvidence, conflictStop, rfl⟩ := h
  unfold IterationState.reopened
  split
  · exact ⟨prevCovered, none, rfl, fun _ => rfl⟩
  · rename_i hrunning
    exact ⟨prevCovered, finalReason, rfl, fun hcompleted => absurd hcompleted hrunning⟩

theorem Uncounted.unread {t t' : IterationState} (h : Uncounted t t') : Unread t t' := by
  obtain ⟨prevCovered, rfl⟩ := h
  exact ⟨prevCovered, t.finalReason, rfl⟩

end IterationState

namespace ChatWorld

open IterationState

section Rounds

variable {W : ChatWorld} {texts : ChatTexts} {ctx : SecurityContext} {run : RunArgs} {α : Type}
  {P : IterationState → IterationState → Prop}

theorem aside_conflictStage (query : String) (scope : TemporalScope) (evidence : List Evidence) :
    Aside W.eval (conflictStage texts query scope evidence) :=
  .bind (.perform _) fun _ => .pure _

theorem aside_judgeOrFault (query : String) (required : List Judge.RequiredFact) (evidence : List Evidence) :
    Aside W.eval (judgeOrFault query required evidence) := by
  refine .tryCatch (.bind (.perform _) fun _ => .pure _) fun e => ?_
  cases e with
  | judge timeout text => exact .pure _
  | _ => exact .reraise _

theorem aside_markDone (args : CheckpointArgs) : Aside W.eval (markDone args) :=
  .ite (.perform _) (.pure ())

theorem aside_synthesize (query : String) (firstResult : FastPathResult) (evidence : List Evidence)
    (args : SynthesisArgs) : Aside W.eval (synthesize texts ctx query firstResult evidence args) :=
  .bind (.tryCatch (.perform _) fun _ => .reraise _) fun _ => .ofExcept _

/-- A part that leaves the attributes alone gives the same in both runs. -/
theorem underived_aside {m : ChatMethod α} (hm : Aside W.eval m) (hserving : Serving (fun _ => True) m) :
    underived.Alike W P (fun a t c t' => a = c ∧ P t t') m m :=
  .aside hm (CheckpointView.alike_of_serving hserving)

/-- The retrieved snapshots are absorbed alike. -/
theorem absorb_unread (ctx : SecurityContext) (run : RunArgs) (evs : List Evidence) (t : IterationState)
    (gain : Gain) (prevCovered : List String) (finalReason : Option String) :
    absorb ctx run evs { t with prevCovered := prevCovered, finalReason := finalReason } gain =
      (absorb ctx run evs t gain).map fun absorbed =>
        ({ absorbed.1 with prevCovered := prevCovered, finalReason := finalReason }, absorbed.2) := by
  induction evs generalizing t gain with
  | nil => rfl
  | cons ev rest ih =>
    unfold absorb
    split
    · rfl
    · exact ih (t.accumulate ev) (gain.after t ev)

theorem gapRetrieval_unread (query : String) (roundIdx : Int) :
    underived.Alike W Unread (fun gain t gain' t' => gain = gain' ∧ Unread t t')
      (gapRetrieval ctx run query roundIdx) (gapRetrieval ctx run query roundIdx) := by
  refine Alike.bind_result (underived_aside (.tryCatch (.perform _) fun _ => .reraise _)
    (serving_retrieve trivial _ _ _)) fun evs => Alike.self_bind ?_
  rintro t _ ⟨prevCovered, finalReason, rfl⟩
  have habsorb := absorb_unread ctx run evs
    { t with retrievalCalls := t.retrievalCalls + 1 } ⟨[], false⟩ prevCovered finalReason
  dsimp only at habsorb ⊢
  rw [habsorb]
  cases absorb ctx run evs { t with retrievalCalls := t.retrievalCalls + 1 } ⟨[], false⟩ with
  | error e => exact fun _ _ _ _ _ hs => ⟨rfl, hs⟩
  | ok absorbed =>
    intro u u' s s' hu hs
    exact ⟨⟨rfl, prevCovered, finalReason, rfl⟩, hs⟩

theorem noEvidenceRound_unread (report : ConflictReport) :
    underived.Alike W Unread (fun a t c t' => a = c ∧ Uncounted t t') (noEvidenceRound ctx run report)
      (noEvidenceRound ctx run report) := by
  refine Alike.bind (Q := fun _ t _ t' => Uncounted t t') (Alike.assign ?_) fun _ _ => Alike.self_bind ?_
  · rintro t _ ⟨prevCovered, finalReason, rfl⟩
    exact ⟨prevCovered, rfl⟩
  · rintro t _ ⟨prevCovered, rfl⟩
    refine Alike.bind_result (underived_aside (.ofExcept _) (serving_ofExcept _)) fun env => ?_
    exact Alike.pure fun t t' ht => ⟨rfl, ht⟩

theorem judgeFaultRound_unread (report : ConflictReport) (kept : List Evidence) :
    underived.Alike W Unreasoned (fun a t c t' => a = c ∧ Uncounted t t')
      (judgeFaultRound ctx run report kept) (judgeFaultRound ctx run report kept) := by
  refine Alike.bind (Q := fun _ t _ t' => Uncounted t t') (Alike.assign ?_) fun _ _ => Alike.self_bind ?_
  · rintro t _ ⟨finalReason, rfl⟩
    exact ⟨t.prevCovered, rfl⟩
  · rintro t _ ⟨prevCovered, rfl⟩
    refine Alike.bind_result (underived_aside (.ofExcept _) (serving_ofExcept _)) fun env => ?_
    exact Alike.pure fun t t' ht => ⟨rfl, ht⟩

theorem decideRound_unread (roundIdx : Int) (gain : Gain) (coverage : SufficiencyResult) :
    underived.Alike W Unreasoned (fun a t c t' => a = c ∧ Uncounted t t')
      (decideRound run roundIdx gain coverage) (decideRound run roundIdx gain coverage) := by
  refine Alike.self_bind ?_
  rintro t _ ⟨finalReason, rfl⟩
  refine Alike.bind (Q := fun _ t _ t' => Uncounted t t') (Alike.assign ?_) fun _ _ =>
    Alike.pure fun t t' ht => ⟨rfl, ht⟩
  rintro u _ ⟨finalReason', rfl⟩
  exact ⟨u.prevCovered, rfl⟩

/-- Whatever the outcome, the reason to stop is written anew, and the former verdict is counted
from the coverage. -/
theorem assessRound_unread (roundIdx : Int) (gain : Gain) :
    underived.Alike W Unread (fun a t c t' => a = c ∧ Uncounted t t')
      (assessRound texts ctx run roundIdx gain) (assessRound texts ctx run roundIdx gain) := by
  refine Alike.self_bind ?_
  rintro t _ ⟨prevCovered, finalReason, rfl⟩
  refine Alike.bind_result (underived_aside (aside_conflictStage _ _ _) (serving_conflictStage _ _ _))
    fun staged => ?_
  dsimp only
  split
  · exact noEvidenceRound_unread staged.1
  split
  · refine Alike.bind (Q := fun _ t _ t' => Uncounted t t') (Alike.assign ?_) fun _ _ =>
      Alike.pure fun t t' ht => ⟨rfl, ht⟩
    rintro t _ ⟨prevCovered, finalReason, rfl⟩
    exact ⟨prevCovered, rfl⟩
  · refine Alike.bind (Q := fun _ t _ t' => Unreasoned t t') (Alike.assign ?_) fun _ _ => ?_
    · rintro t _ ⟨prevCovered, finalReason, rfl⟩
      exact ⟨finalReason, rfl⟩
    refine Alike.bind_result (underived_aside (aside_judgeOrFault _ _ _) (serving_judgeOrFault _ _ _))
      fun verdict => ?_
    cases verdict with
    | none => exact judgeFaultRound_unread staged.1 staged.2
    | some coverage =>
      refine Alike.bind (Q := fun _ t _ t' => Unreasoned t t') (Alike.assign ?_) fun _ _ =>
        decideRound_unread roundIdx gain coverage
      rintro t _ ⟨finalReason, rfl⟩
      exact ⟨finalReason, rfl⟩

theorem runRound_unread (roundIdx : Int) :
    underived.Alike W Unread (fun a t c t' => a = c ∧ Uncounted t t') (runRound texts ctx run roundIdx)
      (runRound texts ctx run roundIdx) := by
  refine Alike.bind (Q := fun _ t _ t' => Unread t t') (Alike.assign ?_) fun _ _ => Alike.self_bind ?_
  · rintro t _ ⟨prevCovered, finalReason, rfl⟩
    exact ⟨prevCovered, finalReason, rfl⟩
  rintro t _ ⟨prevCovered, finalReason, rfl⟩
  dsimp only
  split
  · exact assessRound_unread roundIdx _
  cases t.coverage with
  | none => exact Alike.reraise _
  | some coverage =>
    dsimp only
    split
    · refine Alike.bind (Q := fun _ t _ t' => Uncounted t t') (Alike.assign ?_) fun _ _ =>
        Alike.pure fun t t' ht => ⟨rfl, ht⟩
      rintro t _ ⟨prevCovered, finalReason, rfl⟩
      exact ⟨prevCovered, rfl⟩
    · exact Alike.bind_result (gapRetrieval_unread _ roundIdx) fun gain => assessRound_unread roundIdx gain

theorem saveCheckpoint_unread (args : CheckpointArgs) (roundIndex : Int) :
    underived.Alike W Uncounted (fun a t c t' => a = c ∧ Uncounted t t') (saveCheckpoint ctx args roundIndex)
      (saveCheckpoint ctx args roundIndex) := by
  refine Alike.self_bind ?_
  rintro t _ ⟨prevCovered, rfl⟩
  split
  · exact underived_aside (.perform _) (Uses.perform trivial)
  · exact underived_aside (.pure ()) (Uses.pure ())

theorem markDone_unread (args : CheckpointArgs) :
    underived.Alike W P (fun a t c t' => a = c ∧ P t t') (markDone args) (markDone args) :=
  underived_aside (aside_markDone args) (serving_markDone args)

theorem finalizeIteration_unread :
    underived.Alike W Uncounted (fun a t c t' => a = c ∧ Uncounted t t') (finalizeIteration texts ctx run)
      (finalizeIteration texts ctx run) := by
  refine Alike.self_bind ?_
  rintro t _ ⟨prevCovered, rfl⟩
  exact underived_aside (aside_synthesize _ _ _ _) (serving_synthesize _ _ _ _)

/-- The loop does not read what a further round would count from, nor, if there is a round, the
reason to stop. -/
theorem loopRounds_unread (rounds : Nat) (roundIdx : Int) :
    underived.Alike W Uncounted (fun a t c t' => a = c ∧ Uncounted t t')
        (loopRounds texts ctx run rounds roundIdx) (loopRounds texts ctx run rounds roundIdx) ∧
      underived.Alike W Unread (fun a t c t' => a = c ∧ Uncounted t t')
        (loopRounds texts ctx run (rounds + 1) roundIdx) (loopRounds texts ctx run (rounds + 1) roundIdx) := by
  have hround (rounds : Nat) (roundIdx : Int)
      (hrest : underived.Alike W Uncounted (fun a t c t' => a = c ∧ Uncounted t t')
        (loopRounds texts ctx run rounds (roundIdx + 1)) (loopRounds texts ctx run rounds (roundIdx + 1))) :
      underived.Alike W Unread (fun a t c t' => a = c ∧ Uncounted t t')
        (loopRounds texts ctx run (rounds + 1) roundIdx) (loopRounds texts ctx run (rounds + 1) roundIdx) := by
    refine Alike.bind_result (runRound_unread roundIdx) fun outcome => ?_
    cases outcome with
    | broken =>
      refine Alike.bind_result (saveCheckpoint_unread _ _) fun _ => ?_
      exact Alike.bind_result (markDone_unread _) fun _ => finalizeIteration_unread
    | terminal env =>
      refine Alike.bind_result (saveCheckpoint_unread _ _) fun _ => ?_
      exact Alike.bind_result (markDone_unread _) fun _ => Alike.pure fun t t' ht => ⟨rfl, ht⟩
    | proceeds => exact Alike.bind_result (saveCheckpoint_unread _ _) fun _ => hrest
  induction rounds generalizing roundIdx with
  | zero =>
    have hlast (roundIdx : Int) : underived.Alike W Uncounted (fun a t c t' => a = c ∧ Uncounted t t')
        (loopRounds texts ctx run 0 roundIdx) (loopRounds texts ctx run 0 roundIdx) := by
      refine Alike.bind_result finalizeIteration_unread fun env => ?_
      exact Alike.bind_result (markDone_unread _) fun _ => Alike.pure fun t t' ht => ⟨rfl, ht⟩
    exact ⟨hlast roundIdx, hround 0 roundIdx (hlast _)⟩
  | succ rounds ih =>
    have hsucc (roundIdx : Int) : underived.Alike W Uncounted (fun a t c t' => a = c ∧ Uncounted t t')
        (loopRounds texts ctx run (rounds + 1) roundIdx) (loopRounds texts ctx run (rounds + 1) roundIdx) :=
      fun t t' s s' ht hs => (ih roundIdx).2 t t' s s' ht.unread hs
    exact ⟨hsucc roundIdx, hround (rounds + 1) roundIdx (hsucc _)⟩

end Rounds

end ChatWorld

end AgenticRag
