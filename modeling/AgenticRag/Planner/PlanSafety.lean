import AgenticRag.Foundations.FirstOccurrence
import AgenticRag.Planner.StepRuns

/-!
# Plans run in dependency order

Whatever the schedule and the outcomes of the attempts: a Tool is called only when the
dependencies of its step are recorded and the hard ones succeeded, a step is handed to a
thread pool once, and a security binding error leaves no result.
-/

namespace AgenticRag

namespace Planner

/-- A step cannot run without the success of another one. -/
def HardDependency (plan : QueryPlan) (upstream downstream : String) : Prop :=
  ∃ step ∈ plan.steps, step.stepId = downstream ∧ upstream ∈ step.dependsOnStepIds

/-- A step cannot run without the success of another one, directly or through others. -/
def HardUpstream (plan : QueryPlan) : String → String → Prop :=
  Relation.TransGen (HardDependency plan)

section Plans

variable {plan : QueryPlan} (hids : plan.stepIds.Nodup)

include hids in
theorem stepNamed_of_mem {step : PlanStep} (h : step ∈ plan.steps) :
    plan.stepNamed step.stepId = some step := by
  have hsome : (plan.stepNamed step.stepId).isSome := by
    rw [QueryPlan.stepNamed, List.find?_isSome]
    exact ⟨step, List.mem_reverse.mpr h, by simp⟩
  obtain ⟨found, hfound⟩ := Option.isSome_iff_exists.mp hsome
  obtain ⟨hmem, hid⟩ := stepNamed_mem hfound
  rw [hfound, List.inj_on_of_nodup_map hids hmem h hid]

theorem allDependencyIds_nodup (step : PlanStep) : step.allDependencyIds.Nodup :=
  nodup_eraseDups _

theorem mem_allDependencyIds {step : PlanStep} {dep : String} :
    dep ∈ step.allDependencyIds ↔ dep ∈ step.dependsOnStepIds ∨ dep ∈ step.optionalDependsOnStepIds := by
  simp [PlanStep.allDependencyIds]

end Plans

section Tasks

variable {tools : Tools} {plan : QueryPlan} {completed : List StepResult} {keys : List String}

/-- A successful result of a step whose hard dependencies succeeded. -/
def Justified (plan : QueryPlan) (completed : List StepResult) (r : StepResult) : Prop :=
  r.status = .succeeded → ∃ step, plan.stepNamed r.stepId = some step ∧ DependenciesMet completed step

/-- What holds of a step while it runs and when it has ended. -/
def TaskSound (plan : QueryPlan) (completed : List StepResult) (k : String) :
    ForkJoin.Task StepTask StepOutcome → Prop
  | .waiting => True
  | .running (.begun stepId) => stepId = k
  | .running (.reserving a) | .running (.calling a) =>
    plan.stepNamed k = some a.step ∧ DependenciesMet completed a.step
  | .finished (.ok r) => r.stepId = k ∧ r.status.Terminal ∧ Justified plan completed r
  | .finished (.error _) => True

theorem taskSound_invariant :
    ForkJoin.TaskInvariant (stepWork tools plan completed) (TaskSound plan completed) keys where
  first k _ _ := rfl
  advance {k t s t' s'} h hstep := by
    cases t with
    | begun stepId =>
      obtain rfl : stepId = k := h
      obtain ⟨hbegin, -⟩ := Prod.mk.inj hstep
      have hcases := beginStep_begins tools plan completed stepId
      rw [hbegin] at hcases
      cases hcases with
      | ready hnamed hmet => exact ⟨hnamed, hmet⟩
    | reserving a =>
      simp only [stepWork, stepTask] at hstep
      split at hstep
      · split at hstep
        · cases hstep
        · simp only [Prod.mk.injEq, Sum.inl.injEq] at hstep
          obtain ⟨rfl, -⟩ := hstep
          exact h
      · cases hstep
    | calling a =>
      obtain ⟨hafter, -⟩ := Prod.mk.inj hstep
      have hcases := afterAttempt_continues a (a.outcome tools)
      rw [hafter] at hcases
      cases hcases with
      | retried last => exact h
  finish {k t s r s'} h hstep := by
    have hended : ∀ {a : Attempting} {r : StepResult},
        plan.stepNamed k = some a.step ∧ DependenciesMet completed a.step →
        r.stepId = a.step.stepId → r.status.Terminal →
        TaskSound plan completed k (.finished (.ok r)) := by
      intro a r ha hid hterminal
      have hnamed := (stepNamed_mem ha.1).2
      exact ⟨hid.trans hnamed, hterminal, fun _ => ⟨a.step, by rw [hid, hnamed]; exact ha.1, ha.2⟩⟩
    cases t with
    | begun stepId =>
      obtain rfl : stepId = k := h
      obtain ⟨hbegin, -⟩ := Prod.mk.inj hstep
      have hcases := beginStep_begins tools plan completed stepId
      rw [hbegin] at hcases
      cases hcases with
      | ended hid hterminal hfailed => exact ⟨hid, hterminal, fun hsucceeded => absurd hsucceeded hfailed⟩
      | raised => trivial
    | reserving a =>
      simp only [stepWork, stepTask] at hstep
      split at hstep
      · split at hstep
        · simp only [Prod.mk.injEq, Sum.inr.injEq] at hstep
          obtain ⟨rfl, -⟩ := hstep
          exact hended h rfl (by
            simp [Attempting.budgetExhausted, Attempting.failedWith, StepResult.unsuccessful,
              StepStatus.Terminal])
        · cases hstep
      · simp only [Prod.mk.injEq, Sum.inr.injEq] at hstep
        obtain ⟨rfl, -⟩ := hstep
        exact hended h (exhausted_stepId a) (by simp [exhausted_status, StepStatus.Terminal])
    | calling a =>
      obtain ⟨hafter, -⟩ := Prod.mk.inj hstep
      have hcases := afterAttempt_continues a (a.outcome tools)
      rw [hafter] at hcases
      cases hcases with
      | ended hid hterminal => exact hended h hid hterminal
      | raised => trivial

end Tasks

section Invariant

/-- What holds of a layer on the thread pool. -/
structure BatchSound (plan : QueryPlan) (s : PlanRun)
    (b : ForkJoin.Batch String StepTask StepOutcome) : Prop where
  wellFormed : ForkJoin.WellFormed b
  nodup : b.keys.Nodup
  submitted : ∀ k ∈ b.keys, k ∈ s.submitted
  fresh : ∀ k ∈ b.keys, resultOf s.results k = none
  ready : ∀ k ∈ b.keys, ∃ step, plan.stepNamed k = some step ∧
    ∀ dep ∈ step.allDependencyIds, ∃ r, resultOf s.results dep = some r
  tasks : ∀ k, TaskSound plan s.results k (b.task k)

/-- What holds throughout an execution of a plan with distinct step ids. -/
structure Sound (plan : QueryPlan) (s : PlanRun) : Prop where
  ordered : Layering.Ordered PlanStep.stepId PlanStep.allDependencyIds plan.steps s.submitted s.layers
  nodup : s.submitted.Nodup
  recorded : ∀ k r, resultOf s.results k = some r →
    k ∈ s.submitted ∧ r.status.Terminal ∧ Justified plan s.results r
  covered : s.outcome = none → ∀ k ∈ s.submitted,
    (∃ r, resultOf s.results k = some r) ∨ ∃ b, s.batch = some b ∧ k ∈ b.keys
  batch : ∀ b, s.batch = some b → BatchSound plan s b

variable {tools : Tools} {concurrency : Int} {plan : QueryPlan} {s s' : PlanRun}

theorem resultOf_stepId {results : List StepResult} {k : String} {r : StepResult}
    (h : resultOf results k = some r) : r.stepId = k :=
  of_decide_eq_true (Table.selectOne_some h).2

theorem Justified.mono {results results' : List StepResult} {r : StepResult}
    (hmono : ∀ k r, resultOf results k = some r → resultOf results' k = some r)
    (h : Justified plan results r) : Justified plan results' r := by
  intro hsucceeded
  obtain ⟨step, hstep, hmet⟩ := h hsucceeded
  refine ⟨step, hstep, fun dep hdep => ?_⟩
  obtain ⟨r', hr', hstatus⟩ := hmet dep hdep
  exact ⟨r', hmono dep r' hr', hstatus⟩

theorem Sound.start (hids : plan.stepIds.Nodup) (ctx : SecurityContext) (registry : CorpusRegistry) :
    Sound plan (startExecution plan ctx registry) where
  ordered := Layering.layers_ordered hids fun step _ => allDependencyIds_nodup step
  nodup := List.nodup_nil
  recorded k r hr := by cases hr
  covered _ k hk := by cases hk
  batch b hb := by cases hb

theorem Sound.submit (hids : plan.stepIds.Nodup) (h : Sound plan s) (houtcome : s.outcome = none)
    (hidle : s.batch = none) {layer : List String} {rest : List (List String)}
    (hlayers : s.layers = layer :: rest) : Sound plan (s.submitLayer layer rest) := by
  have hordered := h.ordered
  rw [hlayers] at hordered
  obtain ⟨-, hlayer, hready, hrest⟩ := hordered
  have hrecorded : ∀ k ∈ s.submitted, ∃ r, resultOf s.results k = some r := by
    intro k hk
    rcases h.covered houtcome k hk with hr | ⟨b, hb, -⟩
    · exact hr
    · simp [hidle] at hb
  refine ⟨hrest, ?_, ?_, ?_, ?_⟩
  · exact h.nodup.append hlayer fun k hold hnew => (hready k hnew).1 hold
  · intro k r hr
    obtain ⟨hk, hr⟩ := h.recorded k r hr
    exact ⟨List.mem_append_left _ hk, hr⟩
  · intro _ k hk
    rcases List.mem_append.mp hk with hold | hnew
    · exact Or.inl (hrecorded k hold)
    · exact Or.inr ⟨_, rfl, hnew⟩
  · rintro _ ⟨⟩
    refine ⟨.submit layer, hlayer, fun k hk => List.mem_append_right _ hk, ?_, ?_, fun _ => trivial⟩
    · intro k hk
      cases hr : resultOf s.results k with
      | none => exact hr
      | some r => exact absurd (h.recorded k r hr).1 (hready k hk).1
    · intro k hk
      obtain ⟨-, step, hstep, rfl, hdeps⟩ := hready k hk
      exact ⟨step, stepNamed_of_mem hids hstep, fun dep hdep => hrecorded dep (hdeps dep hdep)⟩

theorem Sound.work (h : Sound plan s) {b : ForkJoin.Batch String StepTask StepOutcome}
    (hb : s.batch = some b) {p : SharedBudget × ForkJoin.Batch String StepTask StepOutcome}
    (hstep : ForkJoin.Step (stepWork tools plan s.results) (s.shared, b) p) :
    Sound plan { s with shared := p.1, batch := some p.2 } := by
  have hbatch := h.batch b hb
  have hkeys : p.2.keys = b.keys := hstep.keys
  refine ⟨h.ordered, h.nodup, h.recorded, fun houtcome k hk => ?_, ?_⟩
  · rcases h.covered houtcome k hk with hr | ⟨b', hb', hmem⟩
    · exact Or.inl hr
    · obtain rfl : b' = b := Option.some.inj (hb'.symm.trans hb)
      exact Or.inr ⟨p.2, rfl, hkeys ▸ hmem⟩
  · rintro _ ⟨⟩
    exact ⟨hbatch.wellFormed.step hstep, hkeys ▸ hbatch.nodup, hkeys ▸ hbatch.submitted,
      hkeys ▸ hbatch.fresh, hkeys ▸ hbatch.ready, taskSound_invariant.step hstep hbatch.tasks⟩

/-- The outcome of a step whose task has ended. -/
theorem outcomeOf_finished {b : ForkJoin.Batch String StepTask StepOutcome} {k : String} {r : StepOutcome}
    (h : b.task k = .finished r) : outcomeOf b k = r := by
  simp [outcomeOf, h]

/-- A layer is joined: it raises the first error that was reported, or its results are added. -/
theorem join_eq (s : PlanRun) (b : ForkJoin.Batch String StepTask StepOutcome) :
    s.join b = match b.reported.findSome? fun k => planErrorOf (outcomeOf b k) with
      | some e => { s with batch := none, outcome := some (.error e) }
      | none => { s with
          batch := none
          results := (b.reported.map fun k => settledResult k (outcomeOf b k)).foldl
            (Table.upsert (·.stepId)) s.results
          anyToolLaunched := s.anyToolLaunched ||
            (b.reported.map fun k => settledResult k (outcomeOf b k)).any
              fun r => decide (r.toolCallsConsumed > 0)
          limitations := s.limitations ++
            b.reported.flatMap fun k => limitation k (settledResult k (outcomeOf b k)) } := by
  unfold PlanRun.join
  rw [collectLayer_eq]
  cases b.reported.findSome? fun k => planErrorOf (outcomeOf b k) <;> rfl

/-- What the result of a reported step says. -/
theorem BatchSound.settled {b : ForkJoin.Batch String StepTask StepOutcome} (h : BatchSound plan s b)
    {k : String} (hk : k ∈ b.reported) :
    (settledResult k (outcomeOf b k)).stepId = k ∧
      (settledResult k (outcomeOf b k)).status.Terminal ∧
      Justified plan s.results (settledResult k (outcomeOf b k)) := by
  obtain ⟨r, hr⟩ := h.wellFormed.finished k hk
  have hsound := h.tasks k
  rw [hr] at hsound
  rw [outcomeOf_finished hr]
  cases r with
  | ok r => exact hsound
  | error e =>
    exact ⟨rfl, by simp [settledResult, unexpectedError, StepResult.unsuccessful, StepStatus.Terminal],
      by simp [Justified, settledResult, unexpectedError, StepResult.unsuccessful]⟩

theorem Sound.join (h : Sound plan s) {b : ForkJoin.Batch String StepTask StepOutcome}
    (hb : s.batch = some b) (hcomplete : b.Complete) : Sound plan (s.join b) := by
  have hbatch := h.batch b hb
  have hperm := hbatch.wellFormed.reported_perm hbatch.nodup hcomplete
  rw [join_eq]
  split
  · exact ⟨h.ordered, h.nodup, h.recorded, by simp, by simp⟩
  · have hresults : ∀ k, resultOf ((b.reported.map fun k => settledResult k (outcomeOf b k)).foldl
        (Table.upsert (·.stepId)) s.results) k =
          if k ∈ b.reported then some (settledResult k (outcomeOf b k)) else resultOf s.results k :=
      resultOf_layer fun k hk => (hbatch.settled hk).1
    have hmono : ∀ k r, resultOf s.results k = some r →
        resultOf ((b.reported.map fun k => settledResult k (outcomeOf b k)).foldl
          (Table.upsert (·.stepId)) s.results) k = some r := by
      intro k r hr
      rw [hresults, if_neg, hr]
      intro hk
      rw [hbatch.fresh k (hperm.mem_iff.mp hk)] at hr
      cases hr
    refine ⟨h.ordered, h.nodup, fun k r hr => ?_, fun houtcome k hk => Or.inl ?_, by simp⟩
    · simp only at hr
      rw [hresults] at hr
      split at hr
      · rename_i hk
        obtain rfl := Option.some.inj hr
        obtain ⟨-, hterminal, hjustified⟩ := hbatch.settled hk
        exact ⟨hbatch.submitted k (hperm.mem_iff.mp hk), hterminal, hjustified.mono hmono⟩
      · obtain ⟨hk, hterminal, hjustified⟩ := h.recorded k r hr
        exact ⟨hk, hterminal, hjustified.mono hmono⟩
    · simp only
      rw [hresults]
      split
      · exact ⟨_, rfl⟩
      · rename_i hout
        rcases h.covered houtcome k hk with hr | ⟨b', hb', hmem⟩
        · exact hr
        · obtain rfl : b' = b := Option.some.inj (hb'.symm.trans hb)
          exact absurd (hperm.mem_iff.mpr hmem) hout

inductive Moves (tools : Tools) (concurrency : Int) (plan : QueryPlan) (s : PlanRun) : PlanRun → Prop
  | ended {o : Except PyException PlanExecutionResult} (hopen : s.outcome = none) (hidle : s.batch = none)
      (hended : (s.layers = [] ∧
          o = buildResult plan s.results s.anyToolLaunched s.limitations s.shared.used) ∨
        ∃ layer rest, s.layers = layer :: rest ∧ min concurrency layer.length ≤ 0 ∧
          o = .error (.valueError "max_workers must be greater than 0")) :
      Moves tools concurrency plan s { s with outcome := some o }
  | submitted {layer : List String} {rest : List (List String)} (hopen : s.outcome = none)
      (hidle : s.batch = none) (hlayers : s.layers = layer :: rest)
      (hworkers : 0 < min concurrency layer.length) :
      Moves tools concurrency plan s (s.submitLayer layer rest)
  | worked {b : ForkJoin.Batch String StepTask StepOutcome}
      {p : SharedBudget × ForkJoin.Batch String StepTask StepOutcome} (hopen : s.outcome = none)
      (hb : s.batch = some b)
      (hstep : ForkJoin.Step (stepWork tools plan s.results) (s.shared, b) p) :
      Moves tools concurrency plan s { s with shared := p.1, batch := some p.2 }
  | joined {b : ForkJoin.Batch String StepTask StepOutcome} (hopen : s.outcome = none)
      (hb : s.batch = some b) (hcomplete : b.Complete) : Moves tools concurrency plan s (s.join b)

theorem executeStep_moves {move : PlanMove} (h : executeStep tools concurrency plan s move = some s') :
    Moves tools concurrency plan s s' := by
  cases houtcome : s.outcome with
  | some o => simp [executeStep, houtcome] at h
  | none =>
    cases hbatch : s.batch with
    | none =>
      cases move with
      | work move => simp [executeStep, houtcome, hbatch] at h
      | join => simp [executeStep, houtcome, hbatch] at h
      | submit =>
        rw [submit_eq tools concurrency plan houtcome hbatch] at h
        split at h
        · rename_i hlayers
          obtain rfl := Option.some.inj h
          exact .ended houtcome hbatch (Or.inl ⟨hlayers, rfl⟩)
        · rename_i layer rest hlayers
          split at h
          · obtain rfl := Option.some.inj h
            exact .ended houtcome hbatch (Or.inr ⟨layer, rest, hlayers, ‹_›, rfl⟩)
          · rename_i hworkers
            obtain rfl := Option.some.inj h
            exact .submitted houtcome hbatch hlayers (not_le.mp hworkers)
    | some b =>
      cases move with
      | submit => simp [executeStep, houtcome, hbatch] at h
      | work move =>
        simp only [executeStep, houtcome, hbatch] at h
        obtain ⟨p, hp, rfl⟩ := Option.map_eq_some_iff.mp h
        have hmoves : Moves tools concurrency plan s { s with shared := p.1, batch := some p.2 } :=
          .worked houtcome hbatch (ForkJoin.next_step hp)
        rw [houtcome] at hmoves
        exact hmoves
      | join =>
        simp only [executeStep, houtcome, hbatch] at h
        split at h
        · rename_i hcomplete
          obtain rfl := Option.some.inj h
          exact .joined houtcome hbatch hcomplete
        · cases h

theorem Sound.step (hids : plan.stepIds.Nodup) (h : Sound plan s)
    (hmove : Moves tools concurrency plan s s') : Sound plan s' := by
  cases hmove with
  | ended hopen hidle hended =>
    exact ⟨h.ordered, h.nodup, h.recorded, by simp, by simp [hidle]⟩
  | submitted hopen hidle hlayers hworkers => exact h.submit hids hopen hidle hlayers
  | worked hopen hb hstep => exact h.work hb hstep
  | joined hopen hb hcomplete => exact h.join hb hcomplete

/-- A step that is about to be called has its dependencies recorded, the hard ones with
success. -/
theorem Sound.calling (hids : plan.stepIds.Nodup) (h : Sound plan s)
    {b : ForkJoin.Batch String StepTask StepOutcome} (hb : s.batch = some b) {k : String} {a : Attempting}
    (htask : b.task k = .running (.calling a)) :
    (∀ dep ∈ a.step.allDependencyIds, ∃ r, resultOf s.results dep = some r ∧ r.status.Terminal) ∧
      ∀ upstream, HardUpstream plan upstream a.step.stepId → Succeeded s.results upstream := by
  have hbatch := h.batch b hb
  have hk : k ∈ b.keys := by
    by_contra hout
    rw [hbatch.wellFormed.outside k hout] at htask
    cases htask
  have hsound := hbatch.tasks k
  rw [htask] at hsound
  obtain ⟨hnamed, hmet⟩ := hsound
  obtain ⟨step, hstep, hready⟩ := hbatch.ready k hk
  obtain rfl : step = a.step := Option.some.inj (hstep.symm.trans hnamed)
  have hdirect : ∀ {results : List StepResult} {upstream : String} {step : PlanStep},
      DependenciesMet results step → plan.stepNamed step.stepId = some step →
      HardDependency plan upstream step.stepId → Succeeded results upstream := by
    rintro results upstream step hmet hnamed ⟨other, hother, hid, hdep⟩
    have hsame := stepNamed_of_mem hids hother
    rw [hid, hnamed] at hsame
    obtain rfl := Option.some.inj hsame
    exact hmet upstream hdep
  have hself : plan.stepNamed a.step.stepId = some a.step := by
    rw [(stepNamed_mem hnamed).2]
    exact hnamed
  refine ⟨fun dep hdep => ?_, fun upstream hupstream => ?_⟩
  · obtain ⟨r, hr⟩ := hready dep hdep
    exact ⟨r, hr, (h.recorded dep r hr).2.1⟩
  · -- from the called step upwards, every result with success had its dependencies met
    induction hupstream using Relation.TransGen.head_induction_on with
    | single hedge => exact hdirect hmet hself hedge
    | head hedge _ ih =>
      obtain ⟨r, hr, hsucceeded⟩ := ih
      obtain ⟨middle, hmiddle, hmiddleMet⟩ := (h.recorded _ r hr).2.2 hsucceeded
      rw [resultOf_stepId hr] at hmiddle
      have hid := (stepNamed_mem hmiddle).2
      exact hdirect hmiddleMet (hid.symm ▸ hmiddle) (hid.symm ▸ hedge)

/-- The call that a step on the thread pool adds is that of a running step. -/
theorem stepWork_calls {completed : List StepResult} {b : ForkJoin.Batch String StepTask StepOutcome}
    {shared : SharedBudget} {p : SharedBudget × ForkJoin.Batch String StepTask StepOutcome}
    (hstep : ForkJoin.Step (stepWork tools plan completed) (shared, b) p) :
    p.1.calls = shared.calls ∨ ∃ k a, b.task k = .running (.calling a) ∧
      p.1.calls = shared.calls ++ [⟨a.step, a.attempts, a.outcome tools⟩] ∧
      (∀ e', afterAttempt a (a.outcome tools) = .inr (.error e') →
        p.2.task k = .finished (.error e')) := by
  have hcalls : ∀ (t : StepTask) (shared : SharedBudget),
      (stepTask tools plan completed t shared).2.calls = shared.calls ∨
        ∃ a, t = .calling a := by
    intro t shared
    cases t with
    | begun stepId => exact Or.inl rfl
    | reserving a =>
      left
      simp only [stepTask]
      split
      · split <;> rfl
      · rfl
    | calling a => exact Or.inr ⟨a, rfl⟩
  cases hstep with
  | started => exact Or.inl rfl
  | reported => exact Or.inl rfl
  | @advanced _ s' _ k t t' hrunning hrun =>
    have hsame : (stepTask tools plan completed t shared).2 = s' := congrArg Prod.snd hrun
    rcases hcalls t shared with hquiet | ⟨a, rfl⟩
    · exact Or.inl (hsame ▸ hquiet)
    · refine Or.inr ⟨k, a, hrunning, hsame ▸ rfl, fun e' he' => ?_⟩
      have hended : afterAttempt a (a.outcome tools) = .inl t' := congrArg Prod.fst hrun
      rw [hended] at he'
      cases he'
  | @returned _ s' _ k t r hrunning hrun =>
    have hsame : (stepTask tools plan completed t shared).2 = s' := congrArg Prod.snd hrun
    rcases hcalls t shared with hquiet | ⟨a, rfl⟩
    · exact Or.inl (hsame ▸ hquiet)
    · refine Or.inr ⟨k, a, hrunning, hsame ▸ rfl, fun e' he' => ?_⟩
      have hended : afterAttempt a (a.outcome tools) = .inr r := congrArg Prod.fst hrun
      rw [hended] at he'
      cases he'
      exact ForkJoin.Batch.set_task_self _ _ _

/-- A move that calls a Tool calls it for a step whose dependencies are recorded, the hard
ones with success. -/
theorem Sound.calls (hids : plan.stepIds.Nodup) (h : Sound plan s) (hmove : Moves tools concurrency plan s s')
    {call : ToolCall} (hcalls : s'.shared.calls = s.shared.calls ++ [call]) :
    (∀ dep ∈ call.step.allDependencyIds, ∃ r, resultOf s.results dep = some r ∧ r.status.Terminal) ∧
      ∀ upstream, HardUpstream plan upstream call.step.stepId → Succeeded s.results upstream := by
  cases hmove with
  | ended => simp at hcalls
  | submitted => simp [PlanRun.submitLayer] at hcalls
  | @joined b hopen hb hcomplete =>
    rw [join_eq] at hcalls
    split at hcalls <;> simp at hcalls
  | @worked b p hopen hb hstep =>
    rcases stepWork_calls hstep with hsame | ⟨k, a, htask, hadded, -⟩
    · simp [hsame] at hcalls
    · simp only [hadded, List.append_cancel_left_eq, List.cons.injEq, and_true] at hcalls
      subst hcalls
      exact h.calling hids hb htask

/-- An attempt that raised a security binding error. -/
def ToolCall.SecurityFailure (call : ToolCall) : Prop :=
  ∃ e, call.outcome = .error e ∧ e.CaughtBy securityBindingErrors

/-- The execution has raised, or its layer will raise when it is joined. -/
def Raises (s : PlanRun) : Prop :=
  (∃ e, s.outcome = some (.error e)) ∨
    s.outcome = none ∧ ∃ b k e, s.batch = some b ∧ b.task k = .finished (.error e) ∧
      e.IsInstance .planExecutionError

theorem Raises.step (hsound : Sound plan s) (h : Raises s) (hmove : Moves tools concurrency plan s s') :
    Raises s' := by
  cases hmove with
  | ended hopen hidle hended =>
    rcases h with ⟨e, he⟩ | ⟨-, b, k, e, hb, -⟩
    · simp [hopen] at he
    · simp [hidle] at hb
  | submitted hopen hidle hlayers hworkers =>
    rcases h with ⟨e, he⟩ | ⟨-, b, k, e, hb, -⟩
    · simp [hopen] at he
    · simp [hidle] at hb
  | @worked b p hopen hb hstep =>
    rcases h with ⟨e, he⟩ | ⟨-, b', k, e, hb', htask, he⟩
    · simp [hopen] at he
    · obtain rfl : b' = b := Option.some.inj (hb'.symm.trans hb)
      exact Or.inr ⟨hopen, p.2, k, e, rfl, hstep.finished htask, he⟩
  | @joined b hopen hb hcomplete =>
    left
    rcases h with ⟨e, he⟩ | ⟨-, b', k, e, hb', htask, he⟩
    · simp [hopen] at he
    · obtain rfl : b' = b := Option.some.inj (hb'.symm.trans hb)
      have hbatch := hsound.batch b' hb
      have hk : k ∈ b'.reported := by
        apply hcomplete
        by_contra hout
        rw [hbatch.wellFormed.outside k hout] at htask
        cases htask
      have hraises : planErrorOf (outcomeOf b' k) = some e := by
        rw [outcomeOf_finished htask]
        exact if_pos he
      have hsome : (b'.reported.findSome? fun k => planErrorOf (outcomeOf b' k)).isSome := by
        rw [List.findSome?_isSome_iff]
        exact ⟨k, hk, by simp [hraises]⟩
      obtain ⟨first, hfirst⟩ := Option.isSome_iff_exists.mp hsome
      rw [join_eq, hfirst]
      exact ⟨first, rfl⟩

/-- Once an attempt raised a security binding error, the execution raises. -/
def SecurityFails (s : PlanRun) : Prop := (∃ call ∈ s.shared.calls, call.SecurityFailure) → Raises s

theorem SecurityFails.step (hsound : Sound plan s) (h : SecurityFails s)
    (hmove : Moves tools concurrency plan s s') : SecurityFails s' := by
  intro hfailed
  have hold : (∃ call ∈ s.shared.calls, call.SecurityFailure) → Raises s' := fun hbefore =>
    (h hbefore).step hsound hmove
  cases hmove with
  | ended hopen hidle hended => exact hold hfailed
  | submitted hopen hidle hlayers hworkers => exact hold hfailed
  | @worked b p hopen hb hstep =>
    obtain ⟨call, hcall, hsecurity⟩ := hfailed
    rcases stepWork_calls hstep with hsame | ⟨k, a, -, hadded, hends⟩
    · exact hold ⟨call, hsame ▸ hcall, hsecurity⟩
    · simp only [hadded, List.mem_append, List.mem_singleton] at hcall
      rcases hcall with hmem | rfl
      · exact hold ⟨call, hmem, hsecurity⟩
      · obtain ⟨e, he, hcaught⟩ := hsecurity
        obtain ⟨e', hafter, hplan⟩ := afterAttempt_security (a := a) hcaught
        have houtcome : a.outcome tools = .error e := he
        exact Or.inr ⟨hopen, p.2, k, e', rfl, hends e' (by rw [houtcome, hafter]), hplan⟩
  | @joined b hopen hb hcomplete =>
    have hcalls : (s.join b).shared.calls = s.shared.calls := by
      rw [join_eq]
      split <;> rfl
    rw [hcalls] at hfailed
    exact hold hfailed

theorem SecurityFails.start {ctx : SecurityContext} {registry : CorpusRegistry} :
    SecurityFails (startExecution plan ctx registry) := by
  rintro ⟨call, hcall, -⟩
  cases hcall

/-- A layer that was submitted has a worker. -/
def Staffed (concurrency : Int) (s : PlanRun) : Prop :=
  ∀ b, s.batch = some b → 0 < min concurrency b.keys.length

theorem Staffed.step (h : Staffed concurrency s) (hmove : Moves tools concurrency plan s s') :
    Staffed concurrency s' := by
  cases hmove with
  | ended => exact h
  | submitted hopen hidle hlayers hworkers =>
    rintro _ ⟨⟩
    exact hworkers
  | worked hopen hb hstep =>
    rintro _ ⟨⟩
    rw [hstep.keys]
    exact h _ hb
  | joined hopen hb hcomplete =>
    intro b' hb'
    rw [(join_idle s _).1] at hb'
    cases hb'

theorem Staffed.start {ctx : SecurityContext} {registry : CorpusRegistry} :
    Staffed concurrency (startExecution plan ctx registry) := by
  intro b hb
  cases hb

/-- An execution that is bound to raise can be run until it has raised. -/
theorem Raises.ends (hids : plan.stepIds.Nodup) (hsound : Sound plan s) (hstaffed : Staffed concurrency s)
    (h : Raises s) : ∃ s', Executes tools concurrency plan s s' ∧ ∃ e, s'.outcome = some (.error e) := by
  rcases h with hraised | ⟨hopen, b, k, e, hb, htask, he⟩
  · exact ⟨s, .refl, hraised⟩
  · have hbatch := hsound.batch b hb
    have hreported : ∀ k ∈ b.reported, k ∈ b.keys := by
      intro k hk
      by_contra hout
      obtain ⟨r, hr⟩ := hbatch.wellFormed.finished k hk
      rw [hbatch.wellFormed.outside k hout] at hr
      cases hr
    obtain ⟨shared, b', -, -, -, -, -, hrun⟩ := executes_layer hopen hb (hstaffed b hb)
      (b.keys.filter fun k => decide (k ∉ b.reported))
      (hbatch.wellFormed.nodup.append (hbatch.nodup.filter _) fun k hk hnew => by
        simp only [List.mem_filter, decide_eq_true_eq] at hnew
        exact hnew.2 hk)
      (fun k hk => (List.mem_filter.mp hk).1)
      (fun k hk => by
        by_cases hreported : k ∈ b.reported
        · exact List.mem_append_left _ hreported
        · exact List.mem_append_right _ (List.mem_filter.mpr ⟨hk, by simpa using hreported⟩))
    refine ⟨_, hrun, ?_⟩
    -- the security error is still there when the layer is joined
    have hraises : Sound plan _ ∧ Raises _ := hrun.invariant (I := fun s => Sound plan s ∧ Raises s)
      (fun ⟨hsound, hraises⟩ _ hstep => ⟨hsound.step hids (executeStep_moves hstep),
        hraises.step hsound (executeStep_moves hstep)⟩)
      ⟨hsound, Or.inr ⟨hopen, b, k, e, hb, htask, he⟩⟩
    rcases hraises.2 with hraised | ⟨-, b'', -, -, hb'', -⟩
    · exact hraised
    · rw [(join_idle _ _).1] at hb''
      cases hb''

theorem collectEvidence_eq (collected ids : List String) :
    collectEvidence collected ids =
      collected ++ (ids.filter fun id => decide (id ∉ collected)).eraseDups := by
  induction ids generalizing collected with
  | nil => simp [collectEvidence]
  | cons id rest ih =>
    simp only [collectEvidence]
    split
    · rename_i hseen
      rw [ih]
      simp [hseen]
    · rename_i hnew
      have hrest : (rest.filter fun other => decide (other ∉ collected ++ [id])) =
          (rest.filter fun other => decide (other ∉ collected)).filter fun other => !other == id := by
        rw [List.filter_filter]
        apply List.filter_congr
        intro other _
        simp [not_or, and_comm, Bool.beq_eq_decide_eq]
      rw [ih, hrest]
      simp [hnew, List.eraseDups_cons]

/-- A returned result is built from the results that were recorded. -/
def Returns (plan : QueryPlan) (s : PlanRun) : Prop :=
  ∀ result, s.outcome = some (.ok result) →
    buildResult plan s.results s.anyToolLaunched s.limitations s.shared.used = .ok result

theorem Returns.start {ctx : SecurityContext} {registry : CorpusRegistry} :
    Returns plan (startExecution plan ctx registry) := by
  intro result hreturned
  simp only [startExecution] at hreturned
  split at hreturned
  · cases hreturned
  · cases hreturned

theorem Returns.step (hmove : Moves tools concurrency plan s s') : Returns plan s' := by
  cases hmove with
  | ended hopen hidle hended =>
    intro result hreturned
    obtain rfl := Option.some.inj hreturned
    rcases hended with ⟨-, hresult⟩ | ⟨layer, rest, -, -, hresult⟩
    · exact hresult.symm
    · cases hresult
  | submitted hopen =>
    intro result hreturned
    exact absurd (hopen.symm.trans hreturned) (by simp)
  | worked hopen =>
    intro result hreturned
    exact absurd (hopen.symm.trans hreturned) (by simp)
  | @joined b hopen hb hcomplete =>
    intro result hreturned
    rw [join_eq] at hreturned
    split at hreturned
    · cases hreturned
    · exact absurd (hopen.symm.trans hreturned) (by simp)

end Invariant

section Main

variable {tools : Tools} {concurrency : Int} {plan : QueryPlan} {ctx : SecurityContext}
  {registry : CorpusRegistry} {s : PlanRun}

/-- The evidence of a result: the first occurrences among the ids of the succeeded steps, in
plan order. -/
theorem evidence_of_result {results : List StepResult} {launched : Bool} {limitations : List String}
    {used : Nat} {result : PlanExecutionResult}
    (h : buildResult plan results launched limitations used = .ok result) :
    result.steps = orderedSteps plan results ∧
      result.evidenceIds = (succeededEvidence result.steps).eraseDups := by
  unfold buildResult at h
  dsimp only at h
  split at h
  · cases h
  · cases h
    refine ⟨rfl, ?_⟩
    simp [collectEvidence_eq]

end Main

/-- A step and another one that depends on it. -/
private def chain : QueryPlan := Sample.plan [Sample.step "find" [], Sample.step "check" ["find"]]

end Planner

end AgenticRag
