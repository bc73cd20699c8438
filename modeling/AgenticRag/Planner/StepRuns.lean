import AgenticRag.Planner.Executor

/-!
# Runs of steps and layers

What one access of a step does, what a layer collects, and that every execution can be
brought to an end.
-/

namespace AgenticRag

namespace Planner

section Steps

variable {tools : Tools} {plan : QueryPlan} {completed : List StepResult} {stepId : String}

/-- A recorded result with success. -/
def Succeeded (results : List StepResult) (stepId : String) : Prop :=
  ∃ r, resultOf results stepId = some r ∧ r.status = .succeeded

def DependenciesMet (results : List StepResult) (step : PlanStep) : Prop :=
  ∀ dep ∈ step.dependsOnStepIds, Succeeded results dep

theorem dependenciesMet_of_unmet {step : PlanStep} (h : unmetDependency completed step = none) :
    DependenciesMet completed step := by
  intro dep hdep
  have hfound := List.find?_eq_none.mp (Option.map_eq_none_iff.mp h) dep hdep
  simp only [decide_eq_true_eq, not_not] at hfound
  obtain ⟨r, hr, hstatus⟩ := Option.map_eq_some_iff.mp hfound
  exact ⟨r, hr, hstatus⟩

theorem stepNamed_mem {step : PlanStep} (h : plan.stepNamed stepId = some step) :
    step ∈ plan.steps ∧ step.stepId = stepId := by
  have hid := List.find?_some h
  exact ⟨List.mem_reverse.mp (List.mem_of_find?_eq_some h), of_decide_eq_true hid⟩

/-- Before its retry loop a step has its dependencies met and no attempt made, or it has
ended without success, or it raises. -/
inductive Begins (tools : Tools) (plan : QueryPlan) (completed : List StepResult) (stepId : String) :
    StepTask ⊕ StepOutcome → Prop
  | ready {step : PlanStep} {spec : ToolSpec} {inputs : Dict Value}
      (hstep : plan.stepNamed stepId = some step) (hmet : DependenciesMet completed step) :
      Begins tools plan completed stepId
        (.inl (.reserving ⟨step, spec, inputs, 0, step.maxAttempts, none⟩))
  | ended {r : StepResult} (hid : r.stepId = stepId) (hterminal : r.status.Terminal)
      (hfailed : r.status ≠ .succeeded) (hfree : r.toolCallsConsumed = 0) :
      Begins tools plan completed stepId (.inr (.ok r))
  | raised {e : PyException} : Begins tools plan completed stepId (.inr (.error e))

theorem beginStep_begins (tools : Tools) (plan : QueryPlan) (completed : List StepResult)
    (stepId : String) : Begins tools plan completed stepId (beginStep tools plan completed stepId) := by
  unfold beginStep
  cases hstep : plan.stepNamed stepId with
  | none => exact .raised
  | some step =>
    dsimp only
    cases tools.get step.stepType step.capabilityId with
    | error e => exact .raised
    | ok spec =>
      dsimp only
      cases hunmet : unmetDependency completed step with
      | some dep => exact .ended rfl (by simp [StepResult.unsuccessful, StepStatus.Terminal]) (by simp [StepResult.unsuccessful]) rfl
      | none =>
        dsimp only
        cases resolveInputs plan completed spec step with
        | error e =>
          dsimp only
          split
          · exact .raised
          · exact .ended rfl (by simp [StepResult.unsuccessful, StepStatus.Terminal])
              (by simp [StepResult.unsuccessful]) rfl
        | ok inputs =>
          dsimp only
          split
          · exact .ended rfl (by simp [StepResult.unsuccessful, StepStatus.Terminal])
              (by simp [StepResult.unsuccessful]) rfl
          · exact .ready hstep (dependenciesMet_of_unmet hunmet)

/-- After an attempt a step retries with the attempts made so far, or it has ended, or it
raises a `PlanExecutionError`. -/
inductive Continues (a : Attempting) : StepTask ⊕ StepOutcome → Prop
  | retried (last : Option PyException) :
      Continues a (.inl (.reserving { a with lastException := last }))
  | ended {r : StepResult} (hid : r.stepId = a.step.stepId) (hterminal : r.status.Terminal)
      (hspent : r.toolCallsConsumed = a.attempts * a.corpora) : Continues a (.inr (.ok r))
  | raised {e : PyException} (hplan : e.IsInstance .planExecutionError) :
      Continues a (.inr (.error e))

theorem handleException_continues (a : Attempting) (e : PyException) :
    Continues a (handleException a e) := by
  have hfailed : ∀ errorCode message detail,
      Continues a (.inr (.ok (a.failedWith .failed errorCode message detail))) := fun _ _ _ =>
    .ended rfl (by simp [Attempting.failedWith, StepResult.unsuccessful, StepStatus.Terminal]) rfl
  unfold handleException
  split
  · exact .raised (Or.inl rfl)
  · split
    · exact hfailed _ _ _
    · split
      · exact .retried _
      · split
        · exact .raised ‹_›
        · split
          · split
            · exact .retried _
            · exact .ended rfl
                (by simp [Attempting.failedWith, StepResult.unsuccessful, StepStatus.Terminal]) rfl
          · exact hfailed _ _ _

theorem afterAttempt_continues (a : Attempting) (outcome : Except PyException TypedStepOutput) :
    Continues a (afterAttempt a outcome) := by
  cases outcome with
  | error e => exact handleException_continues a e
  | ok output =>
    unfold afterAttempt
    dsimp only
    cases a.spec.outputModels a.step.outputSchemaId with
    | none => exact handleException_continues a _
    | some model =>
      dsimp only
      cases model output.outputs with
      | error e =>
        exact .ended rfl (by simp [Attempting.failedWith, StepResult.unsuccessful, StepStatus.Terminal]) rfl
      | ok validated => exact .ended rfl (by simp [StepStatus.Terminal]) rfl

/-- An attempt with a security binding error ends its step with a `PlanExecutionError`. -/
theorem afterAttempt_security {a : Attempting} {e : PyException} (h : e.CaughtBy securityBindingErrors) :
    ∃ e', afterAttempt a (.error e) = .inr (.error e') ∧ e'.IsInstance .planExecutionError := by
  refine ⟨_, if_pos h, Or.inl rfl⟩

theorem exhausted_stepId (a : Attempting) : a.exhausted.stepId = a.step.stepId := by
  unfold Attempting.exhausted
  cases a.lastException <;> rfl

theorem exhausted_status (a : Attempting) : a.exhausted.status = .failed := by
  unfold Attempting.exhausted
  cases a.lastException <;> rfl

theorem exhausted_consumed (a : Attempting) : a.exhausted.toolCallsConsumed = a.attempts * a.corpora := by
  unfold Attempting.exhausted
  cases a.lastException <;> rfl

/-- How many accesses a step still makes at most. -/
def StepTask.rank : StepTask → Nat
  | .begun _ => 5
  | .reserving a => 2 * (a.maxAttempts - a.attempts)
  | .calling a => 2 * (a.maxAttempts - a.attempts) + 1

theorem maxAttempts_le (step : PlanStep) : step.maxAttempts ≤ 2 := by
  unfold PlanStep.maxAttempts
  split
  · exact le_refl 2
  · split <;> omega

theorem stepWork_terminating (tools : Tools) (plan : QueryPlan) (completed : List StepResult) :
    ForkJoin.Terminating (stepWork tools plan completed) StepTask.rank := by
  intro t s t' s' hstep
  cases t with
  | begun stepId =>
    obtain ⟨hbegin, -⟩ := Prod.mk.inj hstep
    have hcases := beginStep_begins tools plan completed stepId
    rw [hbegin] at hcases
    cases hcases with
    | @ready step spec inputs hstep hmet =>
      have hmax := maxAttempts_le step
      simp only [StepTask.rank]
      omega
  | reserving a =>
    simp only [stepWork, stepTask] at hstep
    split at hstep
    · rename_i hmore
      split at hstep
      · cases hstep
      · simp only [Prod.mk.injEq, Sum.inl.injEq] at hstep
        obtain ⟨rfl, -⟩ := hstep
        simp only [StepTask.rank]
        omega
    · cases hstep
  | calling a =>
    obtain ⟨hafter, -⟩ := Prod.mk.inj hstep
    have hcases := afterAttempt_continues a (a.outcome tools)
    rw [hafter] at hcases
    cases hcases with
    | retried last => simp [StepTask.rank]

end Steps

section Layers

/-- The `PlanExecutionError` with which the future of a step is reported. -/
def planErrorOf (outcome : StepOutcome) : Option PyException :=
  match outcome with
  | .ok _ => none
  | .error e => if e.IsInstance .planExecutionError then some e else none

/-- The result with which the future of a step is reported. -/
def settledResult (stepId : String) (outcome : StepOutcome) : StepResult :=
  match outcome with
  | .ok r => r
  | .error e => unexpectedError stepId e

theorem settle_eq (stepId : String) (outcome : StepOutcome) :
    settle stepId outcome = match planErrorOf outcome with
      | some e => .error e
      | none => .ok (settledResult stepId outcome) := by
  unfold settle planErrorOf settledResult
  cases outcome with
  | ok r => rfl
  | error e =>
    dsimp only
    split <;> rfl

/-- A layer raises the first error in the order of the reports, or collects every result. -/
theorem collectLayer_eq (outcome : String → StepOutcome) (order : List String) :
    collectLayer outcome order = match order.findSome? fun k => planErrorOf (outcome k) with
      | some e => .error e
      | none => .ok (order.map fun k => settledResult k (outcome k),
          order.flatMap fun k => limitation k (settledResult k (outcome k))) := by
  induction order with
  | nil => rfl
  | cons k order ih =>
    simp only [collectLayer, settle_eq, ih, List.findSome?_cons]
    cases planErrorOf (outcome k) with
    | some e => rfl
    | none =>
      cases order.findSome? fun k => planErrorOf (outcome k) with
      | some e => rfl
      | none => rfl

/-- The results after those of a layer. -/
theorem resultOf_update {layer results : List StepResult} {stepId : String} :
    resultOf (layer.foldl (Table.upsert (·.stepId)) results) stepId =
      (layer.reverse.find? fun r => decide (r.stepId = stepId)).or (resultOf results stepId) := by
  induction layer using List.reverseRecOn with
  | nil => rfl
  | append_singleton layer r ih =>
    have hupsert : resultOf (Table.upsert (·.stepId) (layer.foldl (Table.upsert (·.stepId)) results) r)
        stepId = if r.stepId = stepId then some r
          else resultOf (layer.foldl (Table.upsert (·.stepId)) results) stepId := Table.selectOne_upsert
    rw [List.foldl_append, List.foldl_cons, List.foldl_nil, hupsert, ih]
    simp only [List.reverse_append, List.reverse_cons, List.reverse_nil, List.nil_append,
      List.singleton_append, List.find?_cons]
    by_cases hid : r.stepId = stepId
    · simp [hid]
    · simp [hid]

/-- Each step of a layer has its own result afterwards, and the other results stay. -/
theorem resultOf_layer {results : List StepResult} {order : List String} {f : String → StepResult}
    (hid : ∀ k ∈ order, (f k).stepId = k) (stepId : String) :
    resultOf ((order.map f).foldl (Table.upsert (·.stepId)) results) stepId =
      if stepId ∈ order then some (f stepId) else resultOf results stepId := by
  rw [resultOf_update, ← List.map_reverse]
  split
  · rename_i hmem
    have hsome : ((order.reverse.map f).find? fun r => decide (r.stepId = stepId)).isSome := by
      rw [List.find?_isSome]
      exact ⟨f stepId, List.mem_map_of_mem (List.mem_reverse.mpr hmem), by simp [hid stepId hmem]⟩
    obtain ⟨r, hr⟩ := Option.isSome_iff_exists.mp hsome
    obtain ⟨k, hk, rfl⟩ := List.mem_map.mp (List.mem_of_find?_eq_some hr)
    have hsame : (f k).stepId = stepId := by simpa using List.find?_some hr
    rw [hid k (List.mem_reverse.mp hk)] at hsame
    subst hsame
    rw [hr]
    rfl
  · rename_i hout
    have hnone : ((order.reverse.map f).find? fun r => decide (r.stepId = stepId)) = none := by
      rw [List.find?_eq_none]
      intro r hr
      obtain ⟨k, hk, rfl⟩ := List.mem_map.mp hr
      have hmem := List.mem_reverse.mp hk
      have hne : (f k).stepId ≠ stepId := fun hsame => hout (by rwa [← hsame, hid k hmem])
      simpa using hne
    rw [hnone]
    rfl

end Layers

section Runs

variable (tools : Tools) (concurrency : Int) (plan : QueryPlan)

/-- A run of `execute` under some schedule. -/
abbrev Executes : PlanRun → PlanRun → Prop :=
  Transition.Reaches (executeStep tools concurrency plan) fun _ _ => True

variable {tools concurrency plan} {s : PlanRun}

/-- The moves of the thread pool are moves of the execution. -/
theorem executes_batch {b : ForkJoin.Batch String StepTask StepOutcome} (houtcome : s.outcome = none)
    (hbatch : s.batch = some b) {p : SharedBudget × ForkJoin.Batch String StepTask StepOutcome}
    (hrun : ForkJoin.Runs (stepWork tools plan s.results) (min concurrency b.keys.length).toNat
      (s.shared, b) p) :
    p.2.keys = b.keys ∧ Executes tools concurrency plan s { s with shared := p.1, batch := some p.2 } := by
  induction hrun with
  | refl =>
    refine ⟨rfl, ?_⟩
    rw [← hbatch]
    exact .refl
  | @tail p p' move hrun _ hstep ih =>
    obtain ⟨hkeys, hexecutes⟩ := ih
    refine ⟨(ForkJoin.next_step hstep).keys.trans hkeys, hexecutes.tail (.work move) trivial ?_⟩
    simp only [executeStep, houtcome]
    rw [hkeys, hstep]
    rfl

/-- Every layer can be run to its end, with its reports in any order. -/
theorem executes_layer {b : ForkJoin.Batch String StepTask StepOutcome} (houtcome : s.outcome = none)
    (hbatch : s.batch = some b) (hworkers : 0 < min concurrency b.keys.length)
    (order : List String) (hnodup : (b.reported ++ order).Nodup) (horder : ∀ k ∈ order, k ∈ b.keys)
    (hall : ∀ k ∈ b.keys, k ∈ b.reported ++ order) :
    ∃ shared b', b'.keys = b.keys ∧ b'.reported = b.reported ++ order ∧
      (∀ k ∈ b'.keys, ∃ r, b'.task k = .finished r) ∧
      ForkJoin.Runs (stepWork tools plan s.results) (min concurrency b.keys.length).toNat
        (s.shared, b) (shared, b') ∧
      Executes tools concurrency plan s { s with shared := shared, batch := some b' } ∧
      Executes tools concurrency plan s ({ s with shared := shared, batch := some b' }.join b') := by
  have hpositive : 0 < (min concurrency b.keys.length).toNat := by omega
  obtain ⟨shared, b', hrun, hkeys, hreported, hfinished⟩ :=
    ForkJoin.runs_to_results (stepWork_terminating tools plan s.results) hpositive s.shared b
  have hnodup' : (b'.reported ++ order).Nodup := by rwa [hreported]
  have hruns := hrun.trans
    (ForkJoin.runs_to_reports hfinished hnodup' fun k hk => hkeys ▸ horder k hk)
  have hexecutes := (executes_batch houtcome hbatch hruns).2
  refine ⟨shared, { b' with reported := b'.reported ++ order }, hkeys, by rw [hreported],
    hfinished, hruns, hexecutes, hexecutes.tail .join trivial ?_⟩
  have hcomplete : ({ b' with reported := b'.reported ++ order } :
      ForkJoin.Batch String StepTask StepOutcome).Complete := by
    intro k hk
    rw [hreported]
    exact hall k (hkeys ▸ hk)
  simp only [executeStep, houtcome]
  rw [if_pos hcomplete]

theorem join_idle (s : PlanRun) (b : ForkJoin.Batch String StepTask StepOutcome) :
    (s.join b).batch = none ∧ (s.join b).layers = s.layers ∧
      ((s.join b).outcome = s.outcome ∨ ∃ e, (s.join b).outcome = some (.error e)) := by
  unfold PlanRun.join
  split
  · exact ⟨rfl, rfl, Or.inr ⟨_, rfl⟩⟩
  · exact ⟨rfl, rfl, Or.inl rfl⟩

def PlanRun.submitLayer (s : PlanRun) (layer : List String) (rest : List (List String)) : PlanRun :=
  { s with layers := rest, batch := some (.submit layer), submitted := s.submitted ++ layer }

/-- What happens between two layers. -/
theorem submit_eq (tools : Tools) (concurrency : Int) (plan : QueryPlan) (houtcome : s.outcome = none) (hidle : s.batch = none) :
    executeStep tools concurrency plan s .submit = match s.layers with
      | [] => some { s with
          outcome := some (buildResult plan s.results s.anyToolLaunched s.limitations s.shared.used) }
      | layer :: rest =>
        if min concurrency layer.length ≤ 0 then
          some { s with outcome := some (.error (.valueError "max_workers must be greater than 0")) }
        else some (s.submitLayer layer rest) := by
  obtain ⟨layers, shared, batch, results, launched, limitations, submitted, outcome⟩ := s
  cases houtcome
  cases hidle
  rfl

/-- Between two layers an execution can be brought to an end. -/
theorem executes_to_end (hidle : s.batch = none) :
    ∃ s', Executes tools concurrency plan s s' ∧ ∃ o, s'.outcome = some o := by
  induction hlayers : s.layers generalizing s with
  | nil =>
    cases houtcome : s.outcome with
    | some o => exact ⟨s, .refl, o, houtcome⟩
    | none =>
      have hmove := submit_eq tools concurrency plan houtcome hidle
      rw [hlayers] at hmove
      exact ⟨_, Transition.Reaches.refl.tail .submit trivial hmove, _, rfl⟩
  | cons layer rest ih =>
    cases houtcome : s.outcome with
    | some o => exact ⟨s, .refl, o, houtcome⟩
    | none =>
      have hmove := submit_eq tools concurrency plan houtcome hidle
      rw [hlayers] at hmove
      dsimp only at hmove
      split at hmove
      · exact ⟨_, Transition.Reaches.refl.tail .submit trivial hmove, _, rfl⟩
      · rename_i hworkers
        have houtcome' : (s.submitLayer layer rest).outcome = none := houtcome
        obtain ⟨shared, b, -, -, -, -, -, hjoin⟩ := executes_layer houtcome' rfl (not_le.mp hworkers)
          layer.dedup (List.nodup_dedup layer) (fun k hk => List.mem_dedup.mp hk)
          (fun k hk => List.mem_dedup.mpr hk)
        obtain ⟨hbatch, hrest, -⟩ := join_idle
          { s.submitLayer layer rest with shared := shared, batch := some b } b
        obtain ⟨s', hends, hended⟩ := ih hbatch hrest
        exact ⟨s', ((Transition.Reaches.refl.tail .submit trivial hmove).trans hjoin).trans hends, hended⟩

end Runs

end Planner

end AgenticRag
