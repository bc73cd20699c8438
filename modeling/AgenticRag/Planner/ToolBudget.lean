import AgenticRag.Planner.StepOutcomes

/-!
# The tool-call budget

`AtomicToolBudget` under the executor. The attempts of a step are counted by its Tool calls,
those made and the one it has reserved units for. The units used are those of the attempts of
all steps, so the shared budget lasts as long as every step keeps to its own.
-/

namespace AgenticRag

namespace Planner

section Attempts

/-- A step that has reserved the units of its next call. -/
def pendingCall : ForkJoin.Task StepTask StepOutcome → Nat
  | .running (.calling _) => 1
  | _ => 0

/-- The Tool calls made for a step. -/
def SharedBudget.callsOf (shared : SharedBudget) (stepId : String) : Nat :=
  shared.calls.countP fun call => decide (call.step.stepId = stepId)

def attemptsIn (shared : SharedBudget) (b : ForkJoin.Batch String StepTask StepOutcome)
    (stepId : String) : Nat :=
  shared.callsOf stepId + pendingCall (b.task stepId)

namespace PlanRun

variable (s : PlanRun)

def attemptsOf (stepId : String) : Nat :=
  match s.batch with
  | some b => attemptsIn s.shared b stepId
  | none => s.shared.callsOf stepId

def unitsOf (step : PlanStep) : Nat := s.attemptsOf step.stepId * step.corpora

end PlanRun

/-- The result of a step reports its attempts and their units. -/
structure Reports (step : PlanStep) (made : Nat) (r : StepResult) : Prop where
  attempts : r.attempts = made
  consumed : r.toolCallsConsumed = made * step.corpora

/-- How many attempts a step has made, depending on how far it is. -/
def Tally (step : PlanStep) (made : Nat) : ForkJoin.Task StepTask StepOutcome → Prop
  | .waiting | .running (.begun _) => made = 0
  | .running (.reserving a) | .running (.calling a) =>
    made = a.attempts ∧ made ≤ step.maxAttempts ∧ a.maxAttempts = step.maxAttempts
  | .finished (.ok r) => Reports step made r ∧ made ≤ step.maxAttempts
  | .finished (.error e) => (e.IsInstance .planExecutionError ∨ made = 0) ∧ made ≤ step.maxAttempts

variable {tools : Tools} {plan : QueryPlan} {completed : List StepResult} {shared shared' : SharedBudget}
  {n : Nat} {task : ForkJoin.Task StepTask StepOutcome}
  {b b' : ForkJoin.Batch String StepTask StepOutcome} {step : PlanStep} {k : String} {a : Attempting}

theorem callsOf_append (shared : SharedBudget) (call : ToolCall) (used : Nat) (k : String) :
    SharedBudget.callsOf ⟨used, shared.calls ++ [call]⟩ k =
      shared.callsOf k + if call.step.stepId = k then 1 else 0 := by
  simp [SharedBudget.callsOf, List.countP_append, List.countP_singleton]

theorem Tally.le (h : Tally step n task) : n ≤ step.maxAttempts := by
  cases task with
  | waiting => exact h.le.trans (Nat.zero_le _)
  | running t =>
    cases t with
    | begun => exact h.le.trans (Nat.zero_le _)
    | reserving a => exact h.2.1
    | calling a => exact h.2.1
  | finished r =>
    cases r with
    | ok r => exact h.2
    | error e => exact h.2

theorem exhausted_attempts (a : Attempting) : a.exhausted.attempts = a.attempts := by
  unfold Attempting.exhausted
  cases a.lastException <;> rfl

/-- A result before the first attempt reports none. -/
theorem beginStep_attempts {stepId : String} {r : StepResult}
    (h : beginStep tools plan completed stepId = .inr (.ok r)) : r.attempts = 0 := by
  unfold beginStep at h
  split at h
  · cases h
  · split at h
    · cases h
    · split at h
      · cases h
        rfl
      · split at h
        · split at h
          · cases h
          · cases h
            rfl
        · split at h
          · cases h
            rfl
          · cases h

theorem handleException_attempts {e : PyException} {r : StepResult}
    (h : handleException a e = .inr (.ok r)) : r.attempts = a.attempts := by
  unfold handleException at h
  split at h
  · cases h
  · split at h
    · cases h
      rfl
    · split at h
      · cases h
      · split at h
        · cases h
        · split at h
          · split at h
            · cases h
            · cases h
              rfl
          · cases h
            rfl

/-- A result after an attempt reports the attempts made so far. -/
theorem afterAttempt_attempts {outcome : Except PyException TypedStepOutput} {r : StepResult}
    (h : afterAttempt a outcome = .inr (.ok r)) : r.attempts = a.attempts := by
  cases outcome with
  | error e => exact handleException_attempts h
  | ok output =>
    simp only [afterAttempt] at h
    split at h
    · exact handleException_attempts h
    · split at h
      · cases h
        rfl
      · cases h
        rfl

/-- One access of a running step: its attempts and the units used grow together, and stay
those of its task. -/
theorem stepTask_tally {t : StepTask} {next : StepTask ⊕ StepOutcome}
    (hsound : TaskSound plan completed step.stepId (.running t)) (hnamed : plan.stepNamed step.stepId = some step)
    (hstep : stepTask tools plan completed t shared = (next, shared'))
    (h : Tally step (shared.callsOf step.stepId + pendingCall (.running t)) (.running t)) :
    Tally step (shared'.callsOf step.stepId + pendingCall (.after next)) (.after next) ∧
      shared'.used + (shared.callsOf step.stepId + pendingCall (.running t)) * step.corpora =
        shared.used + (shared'.callsOf step.stepId + pendingCall (.after next)) * step.corpora ∧
      ∀ other ≠ step.stepId, shared'.callsOf other = shared.callsOf other := by
  cases t with
  | begun stepId =>
    obtain rfl : stepId = step.stepId := hsound
    obtain ⟨hbegin, rfl⟩ := Prod.mk.inj hstep
    have hcalls : shared.callsOf step.stepId = 0 := by simpa [Tally, pendingCall] using h
    have hcases := beginStep_begins tools plan completed step.stepId
    rw [hbegin] at hcases
    cases hcases with
    | ready hstep' =>
      obtain rfl := Option.some.inj (hnamed.symm.trans hstep')
      simp [Tally, pendingCall, ForkJoin.Task.after, hcalls]
    | ended hid hterminal hfailed hfree =>
      simp [Tally, pendingCall, ForkJoin.Task.after, hcalls]
      exact ⟨beginStep_attempts hbegin, by simp [hfree]⟩
    | raised => simp [Tally, pendingCall, ForkJoin.Task.after, hcalls]
  | reserving a =>
    obtain rfl : step = a.step := Option.some.inj (hnamed.symm.trans hsound.1)
    obtain ⟨hmade, hle, hmax⟩ := h
    simp only [pendingCall, Nat.add_zero] at hmade hle
    simp only [stepTask] at hstep
    split at hstep
    · rename_i hmore
      split at hstep
      · obtain ⟨rfl, rfl⟩ := Prod.mk.inj hstep
        refine ⟨⟨⟨?_, ?_⟩, ?_⟩, rfl, fun _ _ => rfl⟩
        · exact hmade.symm
        · simp only [Attempting.budgetExhausted, Attempting.failedWith, StepResult.unsuccessful,
            Attempting.corpora, pendingCall, ForkJoin.Task.after, hmade, Nat.add_zero]
        · exact hle
      · obtain ⟨rfl, rfl⟩ := Prod.mk.inj hstep
        have hcalls : ∀ other, SharedBudget.callsOf ⟨shared.used + a.corpora, shared.calls⟩ other =
            shared.callsOf other := fun _ => rfl
        refine ⟨⟨?_, ?_, hmax⟩, ?_, fun _ _ => rfl⟩
        · simp only [pendingCall, ForkJoin.Task.after, hcalls, hmade]
        · simp only [pendingCall, ForkJoin.Task.after, hcalls]
          omega
        · have hcorpora : a.corpora = a.step.corpora := rfl
          simp only [pendingCall, ForkJoin.Task.after, hcalls, Nat.add_zero, Nat.add_mul, Nat.one_mul]
          omega
    · obtain ⟨rfl, rfl⟩ := Prod.mk.inj hstep
      refine ⟨⟨⟨?_, ?_⟩, ?_⟩, rfl, fun _ _ => rfl⟩
      · exact (exhausted_attempts a).trans hmade.symm
      · exact (exhausted_consumed a).trans (by
          simp only [Attempting.corpora, pendingCall, ForkJoin.Task.after, hmade, Nat.add_zero])
      · exact hle
  | calling a =>
    obtain rfl : step = a.step := Option.some.inj (hnamed.symm.trans hsound.1)
    obtain ⟨hmade, hle, hmax⟩ := h
    obtain ⟨hafter, rfl⟩ := Prod.mk.inj hstep
    have hcalls : ∀ other, SharedBudget.callsOf
        ⟨shared.used, shared.calls ++ [⟨a.step, a.attempts, a.outcome tools⟩]⟩ other =
          shared.callsOf other + if a.step.stepId = other then 1 else 0 :=
      callsOf_append shared _ shared.used
    have hpending : pendingCall (ForkJoin.Task.after next : ForkJoin.Task StepTask StepOutcome) = 0 := by
      have hcases := afterAttempt_continues a (a.outcome tools)
      rw [hafter] at hcases
      cases hcases <;> rfl
    simp only [hcalls, hpending, if_true, Nat.add_zero]
    refine ⟨?_, rfl, fun other hother => by simp [Ne.symm hother]⟩
    have hcases := afterAttempt_continues a (a.outcome tools)
    rw [hafter] at hcases
    cases hcases with
    | retried last => exact ⟨hmade, hle, hmax⟩
    | ended hid hterminal hspent =>
      exact ⟨⟨(afterAttempt_attempts hafter).trans hmade.symm, hspent.trans (by rw [← hmade]; rfl)⟩, hle⟩
    | raised hplan => exact ⟨Or.inl hplan, hle⟩

end Attempts

section Sums

/-- The sum over the steps of a plan when the summand of one step grows. -/
theorem sum_map_grown {steps : List PlanStep} {f g : PlanStep → Nat} {step : PlanStep} (grown grown' : Nat)
    (hmem : step ∈ steps) (hnodup : steps.Nodup) (hstep : g step + grown = f step + grown')
    (hrest : ∀ other ∈ steps, other ≠ step → g other = f other) :
    (steps.map g).sum + grown = (steps.map f).sum + grown' := by
  have hothers : ((steps.erase step).map g) = (steps.erase step).map f := by
    apply List.map_congr_left
    intro other hother
    have hdistinct := hnodup.mem_erase_iff.mp hother
    exact hrest other hdistinct.2 hdistinct.1
  have hnew := List.sum_map_erase g hmem
  have hold := List.sum_map_erase f hmem
  rw [hothers] at hnew
  omega

end Sums

section Runs

variable {tools : Tools} {concurrency : Int} {plan : QueryPlan} {s s' : PlanRun}

/-- The shared budget is that of the attempts of all steps, and the recorded results report
them. -/
structure Balanced (plan : QueryPlan) (s : PlanRun) : Prop where
  tasks : ∀ b, s.batch = some b → ∀ step ∈ plan.steps, step.stepId ∈ b.keys →
    Tally step (s.attemptsOf step.stepId) (b.task step.stepId)
  recorded : ∀ step ∈ plan.steps, ∀ r, resultOf s.results step.stepId = some r →
    Reports step (s.attemptsOf step.stepId) r
  within : ∀ step ∈ plan.steps, s.attemptsOf step.stepId ≤ step.maxAttempts
  fresh : ∀ stepId, stepId ∉ s.submitted → s.attemptsOf stepId = 0
  used : s.shared.used = (plan.steps.map s.unitsOf).sum

theorem Balanced.start (ctx : SecurityContext) (registry : CorpusRegistry) :
    Balanced plan (startExecution plan ctx registry) where
  tasks b hb := by cases hb
  recorded step hstep r hr := by cases hr
  within step _ := Nat.zero_le _
  fresh stepId _ := rfl
  used := by
    have hunits : (startExecution plan ctx registry).unitsOf = fun _ => 0 := by
      funext step
      simp [PlanRun.unitsOf, PlanRun.attemptsOf, startExecution, SharedBudget.callsOf]
    rw [hunits]
    simp [startExecution]

theorem Balanced.submit (h : Balanced plan s) (hidle : s.batch = none) {layer : List String}
    {rest : List (List String)} (hnodup : (s.submitted ++ layer).Nodup) :
    Balanced plan (s.submitLayer layer rest) := by
  have hsame : (s.submitLayer layer rest).attemptsOf = s.attemptsOf := by
    funext stepId
    simp [PlanRun.attemptsOf, PlanRun.submitLayer, hidle, attemptsIn, pendingCall, ForkJoin.Batch.submit]
  have hunits : (s.submitLayer layer rest).unitsOf = s.unitsOf := by
    funext step
    rw [PlanRun.unitsOf, hsame]
    rfl
  refine ⟨fun b hb step hstep hk => ?_, fun step hstep r hr => ?_, fun step hstep => ?_,
    fun stepId hout => ?_, ?_⟩
  · obtain rfl := Option.some.inj hb
    rw [hsame]
    apply h.fresh
    intro hsubmitted
    exact (List.nodup_append.mp hnodup).2.2 _ hsubmitted _ hk rfl
  · rw [hsame]
    exact h.recorded step hstep r hr
  · rw [hsame]
    exact h.within step hstep
  · rw [hsame]
    exact h.fresh stepId fun hk => hout (List.mem_append_left _ hk)
  · rw [hunits]
    exact h.used

/-- A move of the pool that reserves nothing and calls nothing. -/
theorem Balanced.quiet (h : Balanced plan s) {b b' : ForkJoin.Batch String StepTask StepOutcome}
    (hb : s.batch = some b) (hkeys : b'.keys = b.keys)
    (hquiet : ∀ stepId, b'.task stepId = b.task stepId ∨
      (b.task stepId = .waiting ∧ b'.task stepId = .running (.begun stepId))) :
    Balanced plan { s with batch := some b' } := by
  have htasks := h.tasks b hb
  have hsame : attemptsIn s.shared b' = s.attemptsOf := by
    funext stepId
    rcases hquiet stepId with htask | ⟨hwaiting, htask⟩
    · simp [attemptsIn, PlanRun.attemptsOf, hb, htask]
    · simp [attemptsIn, PlanRun.attemptsOf, hb, htask, hwaiting, pendingCall]
  refine ⟨fun b₁ hb₁ step hstep hk => ?_, fun step hstep r hr => ?_, fun step hstep => ?_,
    fun stepId hout => ?_, ?_⟩
  · obtain rfl := Option.some.inj hb₁
    have htally := htasks step hstep (hkeys ▸ hk)
    simp only [PlanRun.attemptsOf, hsame]
    rcases hquiet step.stepId with htask | ⟨hwaiting, htask⟩
    · rw [htask]
      exact htally
    · rw [htask]
      rw [hwaiting] at htally
      exact htally
  · simp only [PlanRun.attemptsOf, hsame]
    exact h.recorded step hstep r hr
  · simp only [PlanRun.attemptsOf, hsame]
    exact h.within step hstep
  · simp only [PlanRun.attemptsOf, hsame]
    exact h.fresh stepId hout
  · have hunits : PlanRun.unitsOf { s with batch := some b' } = s.unitsOf := by
      funext step
      simp only [PlanRun.unitsOf, PlanRun.attemptsOf, hsame]
    rw [hunits]
    exact h.used

/-- A running step takes its turn; the attempts of the others stay as they are. -/
theorem Balanced.turn (hids : plan.stepIds.Nodup) (hsound : Sound plan s) (h : Balanced plan s)
    {b : ForkJoin.Batch String StepTask StepOutcome} (hb : s.batch = some b) {k : String} {t : StepTask}
    {next : StepTask ⊕ StepOutcome} {shared : SharedBudget} (hrunning : b.task k = .running t)
    (hturn : stepTask tools plan s.results t s.shared = (next, shared)) :
    Balanced plan { s with shared := shared, batch := some (b.set k (.after next)) } := by
  have hbatch := hsound.batch b hb
  have hnow : s.attemptsOf = attemptsIn s.shared b := by
    funext stepId
    simp [PlanRun.attemptsOf, hb]
  have htasks := h.tasks b hb
  have hk : k ∈ b.keys := hbatch.wellFormed.submitted (by simp [hrunning])
  obtain ⟨step, hnamed, -⟩ := hbatch.ready k hk
  obtain ⟨hmem, rfl⟩ := stepNamed_mem hnamed
  have htask : (b.set step.stepId (.after next)).task step.stepId = .after next := ForkJoin.Batch.set_task_self _ _ _
  have hrunningSound := hbatch.tasks step.stepId
  have htally := htasks step hmem hk
  rw [hrunning] at hrunningSound htally
  rw [hnow, attemptsIn, hrunning] at htally
  obtain ⟨htally', hused, hothers⟩ := stepTask_tally hrunningSound hnamed hturn htally
  have hattempts : ∀ other ≠ step.stepId,
      attemptsIn shared (b.set step.stepId (.after next)) other = s.attemptsOf other := by
    intro other hother
    rw [hnow, attemptsIn, attemptsIn, hothers other hother, ForkJoin.Batch.set_task_of_ne _ _ hother]
  have hdistinct : ∀ other ∈ plan.steps, other ≠ step → other.stepId ≠ step.stepId := by
    intro other hother hne hsame
    have hnamed' := stepNamed_of_mem hids hother
    rw [hsame, hnamed] at hnamed'
    exact hne (Option.some.inj hnamed').symm
  refine ⟨fun b' hb' other hother hk' => ?_, fun other hother r hr => ?_, fun other hother => ?_,
    fun stepId hout => ?_, ?_⟩
  · obtain rfl := Option.some.inj hb'
    simp only [PlanRun.attemptsOf]
    by_cases hsame : other = step
    · rw [hsame, attemptsIn, htask]
      exact htally'
    · rw [hattempts _ (hdistinct other hother hsame),
        ForkJoin.Batch.set_task_of_ne _ _ (hdistinct other hother hsame)]
      exact htasks other hother hk'
  · have hne : other.stepId ≠ step.stepId := by
      intro hsame
      rw [hsame, hbatch.fresh _ hk] at hr
      cases hr
    simp only [PlanRun.attemptsOf, hattempts _ hne]
    exact h.recorded other hother r hr
  · simp only [PlanRun.attemptsOf]
    by_cases hsame : other = step
    · rw [hsame, attemptsIn, htask]
      exact htally'.le
    · rw [hattempts _ (hdistinct other hother hsame)]
      exact h.within other hother
  · have hne : stepId ≠ step.stepId := by
      rintro rfl
      exact hout (hbatch.submitted _ hk)
    simp only [PlanRun.attemptsOf, hattempts _ hne]
    exact h.fresh stepId hout
  · have hsum := sum_map_grown (f := s.unitsOf)
      (g := PlanRun.unitsOf { s with shared := shared, batch := some (b.set step.stepId (.after next)) })
      (s.unitsOf step) (attemptsIn shared (b.set step.stepId (.after next)) step.stepId * step.corpora) hmem
      (List.Nodup.of_map _ hids)
      (by simp only [PlanRun.unitsOf, PlanRun.attemptsOf]; omega)
      (fun other hother hne => by
        simp only [PlanRun.unitsOf, PlanRun.attemptsOf]
        rw [hattempts _ (hdistinct other hother hne)]
        rfl)
    have hbefore := h.used
    have hunits : s.unitsOf step =
        (s.shared.callsOf step.stepId + pendingCall (.running t)) * step.corpora := by
      rw [PlanRun.unitsOf, hnow, attemptsIn, hrunning]
    have hunits' : attemptsIn shared (b.set step.stepId (.after next)) step.stepId * step.corpora =
        (shared.callsOf step.stepId + pendingCall (.after next)) * step.corpora := by
      rw [attemptsIn, htask]
    change shared.used = _
    omega

theorem Balanced.work (hids : plan.stepIds.Nodup) (hsound : Sound plan s) (h : Balanced plan s)
    {b : ForkJoin.Batch String StepTask StepOutcome}
    {p : SharedBudget × ForkJoin.Batch String StepTask StepOutcome} (hb : s.batch = some b)
    (hstep : ForkJoin.Step (stepWork tools plan s.results) (s.shared, b) p) :
    Balanced plan { s with shared := p.1, batch := some p.2 } := by
  rcases hstep.turn with ⟨hshared, hquiet⟩ | ⟨k, t, next, hrunning, hturn, hset⟩
  · have hunshared : { s with shared := p.1, batch := some p.2 } = { s with batch := some p.2 } := by
      rw [hshared]
    rw [hunshared]
    exact h.quiet hb hstep.keys fun stepId => (hquiet stepId).imp_right And.right
  · rw [hset]
    exact h.turn hids hsound hb hrunning hturn

theorem Balanced.join (hsound : Sound plan s) (h : Balanced plan s)
    {b : ForkJoin.Batch String StepTask StepOutcome} (hb : s.batch = some b) (hcomplete : b.Complete) :
    Balanced plan (s.join b) := by
  have hbatch := hsound.batch b hb
  have hperm := hbatch.wellFormed.reported_perm hbatch.nodup hcomplete
  have hidle : ∀ stepId, pendingCall (b.task stepId) = 0 := by
    intro stepId
    by_cases hk : stepId ∈ b.keys
    · obtain ⟨r, hr⟩ := hbatch.wellFormed.finished stepId (hcomplete stepId hk)
      rw [hr]
      rfl
    · rw [hbatch.wellFormed.outside stepId hk]
      rfl
  have hnow : s.attemptsOf = s.shared.callsOf := by
    funext stepId
    simp [PlanRun.attemptsOf, hb, attemptsIn, hidle]
  have hjoined : (s.join b).batch = none ∧ (s.join b).shared = s.shared ∧
      (s.join b).submitted = s.submitted := by
    rw [join_eq]
    split <;> exact ⟨rfl, rfl, rfl⟩
  obtain ⟨hbatch', hshared', hsubmitted'⟩ := hjoined
  have hsame : (s.join b).attemptsOf = s.attemptsOf := by
    funext stepId
    rw [hnow]
    simp [PlanRun.attemptsOf, hbatch', hshared']
  have hunits : (s.join b).unitsOf = s.unitsOf := by
    funext step
    rw [PlanRun.unitsOf, hsame]
    rfl
  refine ⟨fun b' hb' => ?_, fun step hstep r hr => ?_, fun step hstep => ?_, fun stepId hout => ?_, ?_⟩
  · rw [hbatch'] at hb'
    cases hb'
  · rw [hsame]
    rw [join_eq] at hr
    split at hr
    · exact h.recorded step hstep r hr
    · rename_i hquiet
      dsimp only at hr
      rw [resultOf_layer fun k hk => (hbatch.settled hk).1] at hr
      split at hr
      · -- the result of a step of the layer
        rename_i hreported
        have hk := hperm.mem_iff.mp hreported
        obtain ⟨o, ho⟩ := hbatch.wellFormed.finished step.stepId hreported
        have htally := h.tasks b hb step hstep hk
        rw [ho] at htally
        rw [outcomeOf_finished ho] at hr
        obtain rfl := Option.some.inj hr
        cases o with
        | ok r => exact htally.1
        | error e =>
          have hnone := List.findSome?_eq_none_iff.mp hquiet _ hreported
          rw [outcomeOf_finished ho] at hnone
          rcases htally.1 with hplan | hzero
          · simp [planErrorOf, hplan] at hnone
          · rw [hzero]
            exact ⟨rfl, by simp [settledResult, unexpectedError, StepResult.unsuccessful]⟩
      · exact h.recorded step hstep r hr
  · rw [hsame]
    exact h.within step hstep
  · rw [hsame]
    exact h.fresh stepId (hsubmitted' ▸ hout)
  · rw [hunits, hshared']
    exact h.used

theorem Balanced.step (hids : plan.stepIds.Nodup) (hsound : Sound plan s) (h : Balanced plan s)
    (hmove : Moves tools concurrency plan s s') : Balanced plan s' := by
  cases hmove with
  | ended hopen hidle hended => exact ⟨h.tasks, h.recorded, h.within, h.fresh, h.used⟩
  | submitted hopen hidle hlayers => exact h.submit hidle (hsound.submit hids hopen hidle hlayers).nodup
  | worked hopen hb hstep => exact h.work hids hsound hb hstep
  | joined hopen hb hcomplete => exact h.join hsound hb hcomplete

/-- A step whose next reservation would be refused. -/
def ReservationRefused (plan : QueryPlan) (s : PlanRun) : Prop :=
  ∃ b k a, s.batch = some b ∧ b.task k = .running (.reserving a) ∧ a.attempts < a.maxAttempts ∧
    ((s.shared.used + a.corpora : Nat) : Int) > plan.maxToolCalls

structure Budgeted (plan : QueryPlan) : Prop where
  ids : plan.stepIds.Nodup
  corpora : ∀ step ∈ plan.steps, (step.corpora : Int) ≤ step.maxToolCalls
  total : (plan.steps.map (·.maxToolCalls)).sum ≤ plan.maxToolCalls

/-- The units of a step stay within its own budget. -/
theorem Balanced.units_le (h : Balanced plan s) {step : PlanStep} (hstep : step ∈ plan.steps) :
    s.unitsOf step ≤ step.maxToolCalls.toNat := by
  calc s.unitsOf step ≤ step.maxAttempts * step.corpora := Nat.mul_le_mul_right _ (h.within step hstep)
    _ ≤ step.maxToolCalls.toNat := maxAttempts_corpora step

theorem Budgeted.sum_toNat (h : Budgeted plan) :
    (((plan.steps.map (·.maxToolCalls.toNat)).sum : Nat) : Int) ≤ plan.maxToolCalls := by
  rw [sum_toNat_budgets h.corpora]
  exact h.total

theorem Balanced.used_le (hplan : Budgeted plan) (h : Balanced plan s) :
    (s.shared.used : Int) ≤ plan.maxToolCalls := by
  have hsum : (plan.steps.map s.unitsOf).sum ≤ (plan.steps.map (·.maxToolCalls.toNat)).sum :=
    List.sum_le_sum fun step hstep => h.units_le hstep
  have htotal := hplan.sum_toNat
  rw [h.used]
  omega

/-- As long as a step has attempts left, the plan has the units for the next one. -/
theorem Balanced.granted (hplan : Budgeted plan) (hsound : Sound plan s) (h : Balanced plan s) :
    ¬ReservationRefused plan s := by
  rintro ⟨b, k, a, hb, hrunning, hmore, hrefused⟩
  have hbatch := hsound.batch b hb
  have hk : k ∈ b.keys := hbatch.wellFormed.submitted (by simp [hrunning])
  have htask := hbatch.tasks k
  rw [hrunning] at htask
  obtain ⟨hmem, rfl⟩ := stepNamed_mem htask.1
  have htally := h.tasks b hb a.step hmem hk
  rw [hrunning] at htally
  obtain ⟨hmade, -, hmax⟩ := htally
  -- with the next attempt the step is still within its own budget
  have hnext : s.unitsOf a.step + a.corpora ≤ a.step.maxToolCalls.toNat := by
    calc s.unitsOf a.step + a.corpora = (a.attempts + 1) * a.step.corpora := by
          rw [PlanRun.unitsOf, hmade, Attempting.corpora, Nat.add_mul, Nat.one_mul]
      _ ≤ a.step.maxAttempts * a.step.corpora := Nat.mul_le_mul_right _ (by omega)
      _ ≤ a.step.maxToolCalls.toNat := maxAttempts_corpora a.step
  have hgrown := sum_map_grown (f := s.unitsOf)
    (g := Function.update s.unitsOf a.step (s.unitsOf a.step + a.corpora))
    0 a.corpora hmem (List.Nodup.of_map _ hplan.ids) (by simp) (fun other _ hne => Function.update_of_ne hne _ _)
  have hsum : (plan.steps.map (Function.update s.unitsOf a.step (s.unitsOf a.step + a.corpora))).sum ≤
      (plan.steps.map (·.maxToolCalls.toNat)).sum := by
    apply List.sum_le_sum
    intro step hstep
    by_cases hsame : step = a.step
    · rw [hsame, Function.update_self]
      exact hnext
    · rw [Function.update_of_ne hsame]
      exact h.units_le hstep
  have htotal := hplan.sum_toNat
  have hused := h.used
  omega

/-- The result that is built accounts for every unit. -/
theorem Balanced.result (hsound : Sound plan s) (h : Balanced plan s)
    (hopen : s.outcome = none) (hidle : s.batch = none) :
    s.shared.used = ((orderedSteps plan s.results).map (·.toolCallsConsumed)).sum := by
  have hstep : ∀ step ∈ plan.steps,
      s.unitsOf step = ((resultOf s.results step.stepId).map (·.toolCallsConsumed)).getD 0 := by
    intro step hstep
    cases hr : resultOf s.results step.stepId with
    | some r => exact (h.recorded step hstep r hr).consumed.symm
    | none =>
      have hfresh : s.attemptsOf step.stepId = 0 := by
        apply h.fresh
        intro hsubmitted
        rcases hsound.covered hopen _ hsubmitted with ⟨r, hr'⟩ | ⟨b, hb, -⟩
        · simp [hr] at hr'
        · simp [hidle] at hb
      simp [PlanRun.unitsOf, hfresh]
  have hsum : ∀ steps : List PlanStep,
      ((steps.filterMap fun step => resultOf s.results step.stepId).map (·.toolCallsConsumed)).sum =
        (steps.map fun step => ((resultOf s.results step.stepId).map (·.toolCallsConsumed)).getD 0).sum := by
    intro steps
    induction steps with
    | nil => rfl
    | cons step rest ih =>
      cases hr : resultOf s.results step.stepId with
      | none => simp [hr, ih]
      | some r => simp [hr, ih]
  rw [h.used, orderedSteps, hsum]
  exact congrArg List.sum (List.map_congr_left hstep)

/-- A result that is returned reports the units used, which are those its steps consumed. -/
def Accounted (plan : QueryPlan) (s : PlanRun) : Prop :=
  ∀ result, s.outcome = some (.ok result) →
    result.toolCallsUsed = (result.steps.map (·.toolCallsConsumed)).sum ∧
      (result.toolCallsUsed : Int) ≤ plan.maxToolCalls

theorem Accounted.step (hplan : Budgeted plan) (hsound : Sound plan s) (hbalanced : Balanced plan s)
    (hmove : Moves tools concurrency plan s s') : Accounted plan s' := by
  intro result hresult
  cases hmove with
  | submitted hopen => simp [PlanRun.submitLayer, hopen] at hresult
  | worked hopen => simp [hopen] at hresult
  | @joined b hopen =>
    rcases (join_idle s b).2.2 with hsame | ⟨e, he⟩
    · simp [hsame, hopen] at hresult
    · simp [he] at hresult
  | ended hopen hidle hended =>
    rcases hended with ⟨-, rfl⟩ | ⟨layer, rest, -, -, rfl⟩
    · simp only [buildResult, Option.some.injEq] at hresult
      split at hresult
      · cases hresult
      · obtain rfl := Except.ok.inj hresult
        exact ⟨hbalanced.result hsound hopen hidle, hbalanced.used_le hplan⟩
    · simp at hresult

/-- What the budget guarantees: no reservation is refused, no step exceeds two attempts or its
own budget, its result reports what it used, and a returned result accounts for all steps. -/
structure WithinBudget (plan : QueryPlan) (s : PlanRun) : Prop where
  granted : ¬ReservationRefused plan s
  steps : ∀ step ∈ plan.steps,
    s.attemptsOf step.stepId ≤ 2 ∧ (s.unitsOf step : Int) ≤ step.maxToolCalls
  recorded : ∀ step ∈ plan.steps, ∀ r, resultOf s.results step.stepId = some r →
    r.attempts = s.attemptsOf step.stepId ∧ r.toolCallsConsumed = s.unitsOf step
  accounted : Accounted plan s

/-- Under every schedule and whatever the attempts do, the budget of a plan that passes the checks
suffices. The second check is the executor's own: no step asks for more corpora than it may make calls. -/
theorem execute_within_budget {ctx : SecurityContext} {registry : CorpusRegistry}
    (haccepted : (PlanValidator.validate plan ctx registry).accepted = true)
    (hcorpora : ∀ step ∈ plan.steps, (step.corpora : Int) ≤ step.maxToolCalls)
    (hrun : Executes tools concurrency plan (startExecution plan ctx registry) s) : WithinBudget plan s := by
  have hids := PlanValidator.nodup_of_accepted haccepted
  have hplan : Budgeted plan := ⟨hids, hcorpora, PlanValidator.total_of_accepted haccepted⟩
  have hinvariant : (Sound plan s ∧ Balanced plan s) ∧ Accounted plan s :=
    hrun.invariant (I := fun s => (Sound plan s ∧ Balanced plan s) ∧ Accounted plan s)
      (fun ⟨⟨hsound, hbalanced⟩, _⟩ _ hstep =>
        have hmove := executeStep_moves hstep
        ⟨⟨hsound.step hids hmove, hbalanced.step hids hsound hmove⟩, .step hplan hsound hbalanced hmove⟩)
      ⟨⟨.start hids ctx registry, .start ctx registry⟩, fun result hresult => by
        simp only [startExecution] at hresult
        split at hresult <;> simp at hresult⟩
  obtain ⟨⟨hsound, hbalanced⟩, haccounted⟩ := hinvariant
  refine ⟨hbalanced.granted hplan hsound, fun step hstep => ⟨?_, ?_⟩, fun step hstep r hr => ?_, haccounted⟩
  · exact (hbalanced.within step hstep).trans (maxAttempts_le step)
  · have hunits := hbalanced.units_le hstep
    have hcorpora := hcorpora step hstep
    omega
  · exact ⟨(hbalanced.recorded step hstep r hr).attempts, (hbalanced.recorded step hstep r hr).consumed⟩

end Runs

/-- A step with the budget of a retry. -/
private def retried : QueryPlan :=
  Sample.plan [{ Sample.step "find" [] with maxToolCalls := 2 }]

/-- The first attempt is late, and late attempts are retried. -/
private def lateOnce : Tools where
  get _ _ := .ok ⟨[], fun _ => some .ok, [.timeoutError]⟩
  attempt step _ attempt := if attempt = 1 then .late else .returned ⟨[], [step.stepId]⟩

private def afterRetry : PlanRun :=
  Transition.play (executeStep lateOnce 1 retried) (startExecution retried Sample.caller Sample.registry)
    ([.submit, .work .start] ++ List.replicate 5 (.work (.advance "find")) ++
      [.work (.report "find"), .join, .submit])

theorem execute_within_budget_of_retry :
    WithinBudget retried afterRetry ∧ afterRetry.shared.used = 2 :=
  ⟨execute_within_budget (by decide +kernel) (by decide) (Transition.reaches_play _ rfl), rfl⟩

end Planner

end AgenticRag
