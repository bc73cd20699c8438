import AgenticRag.Planner.StepOutcomes

/-!
# Schedules and results

The result of an execution is compared over all thread schedules. What the steps come to
does not depend on the schedule, but the limitations are listed in the order of completion,
and of several steps that raise in a layer the first one to be reported decides.
-/

namespace AgenticRag

namespace Planner

/-- A layer and the results recorded before it. -/
structure Stage where
  completed : List StepResult
  layer : List String
  deriving DecidableEq, Repr

section Stages

variable (tools : Tools) (plan : QueryPlan)

/-- The result with which a step of a layer is reported, unless it raises. -/
def reportedResult (completed : List StepResult) (stepId : String) : StepResult :=
  settledResult stepId (stepOutcome tools plan completed stepId)

def afterLayer (completed : List StepResult) (layer : List String) : List StepResult :=
  (layer.map (reportedResult tools plan completed)).foldl (Table.upsert (·.stepId)) completed

namespace Stage

variable (stage : Stage)

/-- The `PlanExecutionError`s of the steps. -/
def raised : List PyException :=
  stage.layer.filterMap fun k => planErrorOf (stepOutcome tools plan stage.completed k)

/-- The limitations when the steps are reported in some order. -/
def limitations (order : List String) : List String :=
  order.flatMap fun k => limitation k (reportedResult tools plan stage.completed k)

def launched : Bool :=
  (stage.layer.map (reportedResult tools plan stage.completed)).any fun r => decide (r.toolCallsConsumed > 0)

def units : Nat := (stage.layer.map (stepUnits tools plan stage.completed)).sum

end Stage

/-- The layers that are run, up to the first one that raises. -/
def stagesFrom : List (List String) → List StepResult → List Stage
  | [], _ => []
  | layer :: rest, completed =>
    ⟨completed, layer⟩ ::
      if Stage.raised tools plan ⟨completed, layer⟩ = [] then
        stagesFrom rest (afterLayer tools plan completed layer)
      else []

def stages : List Stage := stagesFrom tools plan (buildTopologicalLayers plan) []

def finalResults : List StepResult := (buildTopologicalLayers plan).foldl (afterLayer tools plan) []

/-- The limitations of the stages in their order, each reported in an order of its own. -/
def allLimitations (orders : List (List String)) (stages : List Stage) : List String :=
  (List.zipWith (fun order stage => stage.limitations tools plan order) orders stages).flatten

/-- The result that is built when no layer raises. -/
def builtResult (orders : List (List String)) : Except PyException PlanExecutionResult :=
  buildResult plan (finalResults tools plan) ((stages tools plan).any (·.launched tools plan))
    (allLimitations tools plan orders (stages tools plan)) ((stages tools plan).map (·.units tools plan)).sum

abbrev Orders (orders : List (List String)) (stages : List Stage) : Prop :=
  List.Forall₂ (fun order stage => order.Perm stage.layer) orders stages

/-- How an execution may end. -/
inductive Possible : Except PyException PlanExecutionResult → Prop
  | raised {stage : Stage} {e : PyException} (hstage : stage ∈ stages tools plan)
      (he : e ∈ stage.raised tools plan) : Possible (.error e)
  | built {orders : List (List String)} (hquiet : ∀ stage ∈ stages tools plan, stage.raised tools plan = [])
      (horders : Orders orders (stages tools plan)) : Possible (builtResult tools plan orders)

/-- All errors of a layer are the same one, and if a result is built, no layer has two
limitations. -/
def ScheduleFree : Prop :=
  (∀ stage ∈ stages tools plan, ∀ e ∈ stage.raised tools plan, ∀ e' ∈ stage.raised tools plan, e = e') ∧
  ((∀ stage ∈ stages tools plan, stage.raised tools plan = []) →
    succeededEvidence (orderedSteps plan (finalResults tools plan)) ≠ [] →
    ∀ stage ∈ stages tools plan, (stage.limitations tools plan stage.layer).length ≤ 1)

instance : Decidable (ScheduleFree tools plan) := inferInstanceAs (Decidable (_ ∧ (_ → _ → _)))

end Stages

section Positions

variable (tools : Tools) (plan : QueryPlan)

/-- The stages before some layers, each of them reported in an order of its own. -/
structure Passed (done : List Stage) (orders : List (List String)) (completed : List StepResult)
    (layers : List (List String)) (s : PlanRun) : Prop where
  stages : stages tools plan = done ++ stagesFrom tools plan layers completed
  final : finalResults tools plan = layers.foldl (afterLayer tools plan) completed
  quiet : ∀ stage ∈ done, stage.raised tools plan = []
  reported : Orders orders done
  results : SameResults s.results completed
  launched : s.anyToolLaunched = done.any (·.launched tools plan)
  limitations : s.limitations = allLimitations tools plan orders done

structure Between (done : List Stage) (orders : List (List String)) (completed : List StepResult)
    (s : PlanRun) : Prop where
  outcome : s.outcome = none
  idle : s.batch = none
  passed : Passed tools plan done orders completed s.layers s
  submitted : s.submitted = done.flatMap (·.layer)
  used : s.shared.used = (done.map (·.units tools plan)).sum

structure During (done : List Stage) (orders : List (List String)) (completed : List StepResult)
    (b : ForkJoin.Batch String StepTask StepOutcome) (s : PlanRun) : Prop where
  outcome : s.outcome = none
  batch : s.batch = some b
  passed : Passed tools plan done orders completed (b.keys :: s.layers) s
  submitted : s.submitted = (done ++ [(⟨completed, b.keys⟩ : Stage)]).flatMap (·.layer)
  used : s.shared.used + ForkJoin.reserve (stepWork tools plan s.results)
      (StepTask.destiny tools plan s.results) b =
    ((done ++ [(⟨completed, b.keys⟩ : Stage)]).map (·.units tools plan)).sum
  foreseen : ∀ k, ForkJoin.Foreseen (stepWork tools plan s.results)
    (StepTask.destiny tools plan s.results) k (b.task k)

variable {tools plan} {done : List Stage} {orders : List (List String)} {completed : List StepResult}
  {s : PlanRun} {b : ForkJoin.Batch String StepTask StepOutcome}

theorem Between.start {ctx : SecurityContext} {registry : CorpusRegistry}
    (h : precheck plan ctx registry = .ok ()) :
    Between tools plan [] [] [] (startExecution plan ctx registry) where
  outcome := by simp [startExecution, h]
  idle := rfl
  passed := ⟨rfl, rfl, by simp, .nil, fun _ => rfl, rfl, rfl⟩
  submitted := rfl
  used := rfl

theorem Between.submit (h : Between tools plan done orders completed s) {layer : List String}
    {rest : List (List String)} (hlayers : s.layers = layer :: rest) :
    During tools plan done orders completed (.submit layer) (s.submitLayer layer rest) where
  outcome := h.outcome
  batch := rfl
  passed := by
    obtain ⟨hstages, hfinal, hquiet, horders, hresults, hlaunched, hlimitations⟩ := h.passed
    rw [hlayers] at hstages hfinal
    exact ⟨hstages, hfinal, hquiet, horders, hresults, hlaunched, hlimitations⟩
  submitted := by
    simp [PlanRun.submitLayer, h.submitted, ForkJoin.Batch.submit]
  used := by
    have hunits : ∀ k, (StepTask.destiny tools plan s.results (.begun k)).2 =
        stepUnits tools plan completed k := fun k => congrArg Prod.snd (destiny_congr h.passed.results k)
    simp only [PlanRun.submitLayer, ForkJoin.reserve_submit, stepWork, hunits, List.map_append,
      List.sum_append, h.used]
    simp [Stage.units, ForkJoin.Batch.submit]
  foreseen _ := trivial

theorem units_le_budgets (stages : List Stage) :
    (stages.map (·.units tools plan)).sum ≤ ((stages.flatMap (·.layer)).map plan.budgetOf).sum := by
  induction stages with
  | nil => simp
  | cons stage rest ih =>
    have hstage : stage.units tools plan ≤ (stage.layer.map plan.budgetOf).sum :=
      List.sum_le_sum fun k _ => stepUnits_le tools plan stage.completed k
    simp only [List.map_cons, List.sum_cons, List.flatMap_cons, List.map_append, List.sum_append]
    omega

section Layers

variable {ctx : SecurityContext} {registry : CorpusRegistry} (hprecheck : precheck plan ctx registry = .ok ())
  (hsound : Sound plan s)

include hprecheck hsound in
/-- A layer stays within the budget of the plan. -/
theorem During.within (h : During tools plan done orders completed b s) :
    s.shared.used + ForkJoin.reserve (stepWork tools plan s.results)
      (StepTask.destiny tools plan s.results) b ≤ plan.maxToolCalls.toNat := by
  rw [h.used]
  refine (units_le_budgets _).trans ?_
  rw [← h.submitted]
  exact budgets_le hprecheck hsound.nodup

include hprecheck hsound in
theorem During.work (h : During tools plan done orders completed b s)
    {p : SharedBudget × ForkJoin.Batch String StepTask StepOutcome}
    (hstep : ForkJoin.Step (stepWork tools plan s.results) (s.shared, b) p) :
    During tools plan done orders completed p.2 { s with shared := p.1, batch := some p.2 } := by
  have hkeys : p.2.keys = b.keys := hstep.keys
  have hbatch := hsound.batch b h.batch
  have hdestined := stepWork_destined tools s.results (precheck_ok hprecheck).2.2
  have hlimit := h.within hprecheck hsound
  obtain ⟨hstages, hfinal, hquiet, horders, hresults, hlaunched, hlimitations⟩ := h.passed
  refine ⟨h.outcome, rfl, ?_, ?_, ?_, ?_⟩
  · rw [hkeys]
    exact ⟨hstages, hfinal, hquiet, horders, hresults, hlaunched, hlimitations⟩
  · rw [hkeys]
    exact h.submitted
  · rw [hkeys, ← h.used]
    exact hstep.spends hdestined hbatch.wellFormed hbatch.nodup hlimit
  · exact hstep.foreseen hdestined hbatch.wellFormed hlimit h.foreseen

/-- The outcome with which a step of a layer is reported. -/
theorem During.outcomeOf (h : During tools plan done orders completed b s) (hsound : Sound plan s) {k : String}
    (hk : k ∈ b.reported) : outcomeOf b k = stepOutcome tools plan completed k := by
  obtain ⟨r, hr⟩ := (hsound.batch b h.batch).wellFormed.finished k hk
  have hforeseen := h.foreseen k
  rw [hr] at hforeseen
  rw [outcomeOf_finished hr, stepOutcome, ← destiny_congr h.passed.results k]
  exact hforeseen

theorem During.reported (h : During tools plan done orders completed b s) (hsound : Sound plan s)
    (hcomplete : b.Complete) : b.reported.Perm b.keys :=
  (hsound.batch b h.batch).wellFormed.reported_perm (hsound.batch b h.batch).nodup hcomplete

/-- A layer that raises ends the execution with one of its errors. -/
theorem During.raises (h : During tools plan done orders completed b s) (hsound : Sound plan s)
    (hcomplete : b.Complete) (hraised : Stage.raised tools plan ⟨completed, b.keys⟩ ≠ []) :
    ∃ e, (b.reported.findSome? fun k => planErrorOf (stepOutcome tools plan completed k)) = some e ∧
      e ∈ Stage.raised tools plan ⟨completed, b.keys⟩ ∧ (s.join b).outcome = some (.error e) := by
  have hperm := h.reported hsound hcomplete
  obtain ⟨e, he⟩ := List.exists_mem_of_ne_nil _ hraised
  obtain ⟨k, hk, hke⟩ := List.mem_filterMap.mp he
  have hsome : (b.reported.findSome? fun k => planErrorOf (stepOutcome tools plan completed k)).isSome := by
    rw [List.findSome?_isSome_iff]
    exact ⟨k, hperm.mem_iff.mpr hk, by simp [hke]⟩
  obtain ⟨first, hfirst⟩ := Option.isSome_iff_exists.mp hsome
  have hsame : (b.reported.findSome? fun k => planErrorOf (Planner.outcomeOf b k)) = some first := by
    rw [← hfirst, ← List.head?_filterMap, ← List.head?_filterMap]
    exact congrArg List.head? (List.filterMap_congr fun k hk => by rw [h.outcomeOf hsound hk])
  obtain ⟨other, hother, hothere⟩ := List.exists_of_findSome?_eq_some hfirst
  refine ⟨first, hfirst, List.mem_filterMap.mpr ⟨other, hperm.mem_iff.mp hother, hothere⟩, ?_⟩
  rw [join_eq, hsame]

theorem allLimitations_append (h : Orders orders done) (order : List String) (stage : Stage) :
    allLimitations tools plan (orders ++ [order]) (done ++ [stage]) =
      allLimitations tools plan orders done ++ stage.limitations tools plan order := by
  simp [allLimitations, List.zipWith_append h.length_eq]

/-- After a layer that does not raise the execution is between two layers again. -/
theorem During.join (h : During tools plan done orders completed b s) (hsound : Sound plan s)
    (hcomplete : b.Complete) (hquiet : Stage.raised tools plan ⟨completed, b.keys⟩ = []) :
    Between tools plan (done ++ [⟨completed, b.keys⟩]) (orders ++ [b.reported])
      (afterLayer tools plan completed b.keys) (s.join b) := by
  have hbatch := hsound.batch b h.batch
  have hperm := h.reported hsound hcomplete
  have hsettled : ∀ k ∈ b.reported, settledResult k (Planner.outcomeOf b k) = reportedResult tools plan completed k :=
    fun k hk => by rw [reportedResult, h.outcomeOf hsound hk]
  have hid : ∀ k ∈ b.reported, (reportedResult tools plan completed k).stepId = k := fun k hk => by
    rw [← hsettled k hk]
    exact (hbatch.settled hk).1
  have hnone : (b.reported.findSome? fun k => planErrorOf (Planner.outcomeOf b k)) = none := by
    rw [List.findSome?_eq_none_iff]
    intro k hk
    rw [h.outcomeOf hsound hk]
    exact List.filterMap_eq_nil_iff.mp hquiet k (hperm.mem_iff.mp hk)
  have hmap : (b.reported.map fun k => settledResult k (Planner.outcomeOf b k)) =
      b.reported.map (reportedResult tools plan completed) := List.map_congr_left hsettled
  have hlimitations : (b.reported.flatMap fun k => limitation k (settledResult k (Planner.outcomeOf b k))) =
      Stage.limitations tools plan ⟨completed, b.keys⟩ b.reported :=
    List.flatMap_congr fun k hk => by rw [hsettled k hk]
  have hreserve : ForkJoin.reserve (stepWork tools plan s.results)
      (StepTask.destiny tools plan s.results) b = 0 :=
    ForkJoin.reserve_finished _ _ fun k hk => hbatch.wellFormed.finished k (hcomplete k hk)
  have hpassed := h.passed
  have hstages := hpassed.stages
  rw [stagesFrom, if_pos hquiet] at hstages
  rw [join_eq, hnone, hmap, hlimitations]
  refine ⟨h.outcome, rfl, ⟨?_, ?_, ?_, ?_, ?_, ?_, ?_⟩, h.submitted, ?_⟩
  · simpa using hstages
  · simpa using hpassed.final
  · intro stage hstage
    rcases List.mem_append.mp hstage with hold | hlast
    · exact hpassed.quiet stage hold
    · obtain rfl := List.mem_singleton.mp hlast
      exact hquiet
  · exact List.rel_append hpassed.reported (.cons hperm .nil)
  · intro k
    have hkeys : ∀ k ∈ b.keys, (reportedResult tools plan completed k).stepId = k := fun k hk =>
      hid k (hperm.mem_iff.mpr hk)
    simp only [afterLayer, resultOf_layer hid, resultOf_layer hkeys, hperm.mem_iff, hpassed.results k]
  · simp only [hpassed.launched, List.any_append, List.any_cons, List.any_nil, Bool.or_false, Stage.launched]
    rw [(hperm.map _).any_eq]
  · rw [allLimitations_append hpassed.reported, ← hpassed.limitations]
  · have hused := h.used
    rw [hreserve] at hused
    exact hused

/-- With no layer left the result is built. -/
theorem Between.result (h : Between tools plan done orders completed s) (hlayers : s.layers = []) :
    stages tools plan = done ∧
      buildResult plan s.results s.anyToolLaunched s.limitations s.shared.used = builtResult tools plan orders := by
  obtain ⟨hstages, hfinal, -, -, hresults, hlaunched, hlimitations⟩ := h.passed
  rw [hlayers, stagesFrom, List.append_nil] at hstages
  rw [hlayers, List.foldl_nil] at hfinal
  refine ⟨hstages, ?_⟩
  rw [builtResult, hfinal, hstages, ← hlaunched, ← hlimitations, ← h.used]
  exact buildResult_congr hresults _ _ _

end Layers

end Positions

section Ends

variable {tools : Tools} {concurrency : Int} {plan : QueryPlan} {ctx : SecurityContext}
  {registry : CorpusRegistry} {s s' : PlanRun}

/-- Where an execution is, and that it has ended as possible. -/
inductive Follows (tools : Tools) (plan : QueryPlan) (s : PlanRun) : Prop
  | between {done : List Stage} {orders : List (List String)} {completed : List StepResult}
      (h : Between tools plan done orders completed s)
  | during {done : List Stage} {orders : List (List String)} {completed : List StepResult}
      {b : ForkJoin.Batch String StepTask StepOutcome} (h : During tools plan done orders completed b s)
  | ended {o : Except PyException PlanExecutionResult} (houtcome : s.outcome = some o)
      (hpossible : Possible tools plan o)

theorem Follows.step (hprecheck : precheck plan ctx registry = .ok ()) (hworkers : 0 < concurrency)
    (hsound : Sound plan s) (h : Follows tools plan s) (hmove : Moves tools concurrency plan s s') :
    Follows tools plan s' := by
  cases h with
  | ended houtcome hpossible =>
    cases hmove with
    | ended hopen => simp [hopen] at houtcome
    | submitted hopen => simp [hopen] at houtcome
    | worked hopen => simp [hopen] at houtcome
    | joined hopen => simp [hopen] at houtcome
  | between h =>
    cases hmove with
    | ended hopen hidle hended =>
      rcases hended with ⟨hlayers, rfl⟩ | ⟨layer, rest, hlayers, hrefused, rfl⟩
      · obtain ⟨hstages, hresult⟩ := h.result hlayers
        refine .ended rfl ?_
        rw [hresult]
        exact .built (hstages ▸ h.passed.quiet) (hstages ▸ h.passed.reported)
      · -- a layer is not empty, so a thread pool for it can be made
        have hordered := hsound.ordered
        rw [hlayers] at hordered
        have hlength := List.length_pos_of_ne_nil hordered.1
        omega
    | submitted hopen hidle hlayers => exact .during (h.submit hlayers)
    | worked hopen hb => simp [h.idle] at hb
    | joined hopen hb => simp [h.idle] at hb
  | @during done orders completed b h =>
    cases hmove with
    | ended hopen hidle => simp [h.batch] at hidle
    | submitted hopen hidle => simp [h.batch] at hidle
    | worked hopen hb hstep =>
      obtain rfl := Option.some.inj (h.batch.symm.trans hb)
      exact .during (h.work hprecheck hsound hstep)
    | joined hopen hb hcomplete =>
      obtain rfl := Option.some.inj (h.batch.symm.trans hb)
      by_cases hquiet : Stage.raised tools plan ⟨completed, b.keys⟩ = []
      · exact .between (h.join hsound hcomplete hquiet)
      · obtain ⟨e, -, he, houtcome⟩ := h.raises hsound hcomplete hquiet
        refine .ended houtcome (.raised ?_ he)
        rw [h.passed.stages]
        simp [stagesFrom]

/-- Every execution ends as possible. -/
theorem possible_of_executes (hprecheck : precheck plan ctx registry = .ok ()) (hworkers : 0 < concurrency)
    (hrun : Executes tools concurrency plan (startExecution plan ctx registry) s)
    {o : Except PyException PlanExecutionResult} (houtcome : s.outcome = some o) : Possible tools plan o := by
  have hids := PlanValidator.nodup_of_accepted (precheck_ok hprecheck).1
  have hfollows : Sound plan s ∧ Follows tools plan s :=
    hrun.invariant (I := fun s => Sound plan s ∧ Follows tools plan s)
      (fun ⟨hsound, hfollows⟩ _ hstep => ⟨hsound.step hids (executeStep_moves hstep),
        hfollows.step hprecheck hworkers hsound (executeStep_moves hstep)⟩)
      ⟨.start hids ctx registry, .between (.start hprecheck)⟩
  cases hfollows.2 with
  | between h => simp [h.outcome] at houtcome
  | during h => simp [h.outcome] at houtcome
  | ended houtcome' hpossible =>
    obtain rfl := Option.some.inj (houtcome.symm.trans houtcome')
    exact hpossible

variable {done : List Stage} {orders : List (List String)} {completed : List StepResult}

/-- A layer can be run so that its steps are reported in any order. -/
theorem Between.run_layer (hprecheck : precheck plan ctx registry = .ok ()) (hworkers : 0 < concurrency)
    (hsound : Sound plan s) (h : Between tools plan done orders completed s) {layer : List String}
    {rest : List (List String)} (hlayers : s.layers = layer :: rest) {order : List String}
    (horder : order.Perm layer) :
    ∃ s₁ b, Sound plan s₁ ∧ During tools plan done orders completed b s₁ ∧ s₁.layers = rest ∧
      b.keys = layer ∧ b.reported = order ∧ b.Complete ∧
      Executes tools concurrency plan s (s₁.join b) := by
  have hids := PlanValidator.nodup_of_accepted (precheck_ok hprecheck).1
  have hordered := hsound.ordered
  rw [hlayers] at hordered
  have hlength : 0 < min concurrency layer.length := by
    have hlength := List.length_pos_of_ne_nil hordered.1
    omega
  have hsubmit : executeStep tools concurrency plan s .submit = some (s.submitLayer layer rest) := by
    rw [submit_eq tools concurrency plan h.outcome h.idle, hlayers]
    exact if_neg (not_le.mpr hlength)
  have hsubmitted := hsound.submit hids h.outcome h.idle hlayers
  obtain ⟨shared, b, hkeys, hreported, -, hruns, -, hjoin⟩ := executes_layer (s := s.submitLayer layer rest)
    h.outcome rfl hlength order (horder.nodup_iff.mpr hordered.2.1) (fun k hk => horder.mem_iff.mp hk)
    (fun k hk => horder.mem_iff.mpr hk)
  have hinside : Sound plan { s.submitLayer layer rest with shared := shared, batch := some b } ∧
      During tools plan done orders completed b
        { s.submitLayer layer rest with shared := shared, batch := some b } :=
    hruns.invariant
      (I := fun p => Sound plan { s.submitLayer layer rest with shared := p.1, batch := some p.2 } ∧
        During tools plan done orders completed p.2
          { s.submitLayer layer rest with shared := p.1, batch := some p.2 })
      (fun ⟨hsound, hduring⟩ _ hstep =>
        ⟨hsound.work rfl (ForkJoin.next_step hstep),
          hduring.work hprecheck hsound (ForkJoin.next_step hstep)⟩)
      ⟨hsubmitted, h.submit hlayers⟩
  have hcomplete : b.Complete := by
    intro k hk
    rw [hkeys] at hk
    rw [hreported]
    exact horder.mem_iff.mpr hk
  exact ⟨_, b, hinside.1, hinside.2, rfl, hkeys, hreported, hcomplete,
    (Transition.Reaches.refl.tail .submit trivial hsubmit).trans hjoin⟩

/-- Every result that may be built is built by some execution. -/
theorem Between.reaches_built (hprecheck : precheck plan ctx registry = .ok ()) (hworkers : 0 < concurrency)
    (hsound : Sound plan s) (h : Between tools plan done orders completed s)
    (hquiet : ∀ stage ∈ stagesFrom tools plan s.layers completed, stage.raised tools plan = [])
    {later : List (List String)} (hlater : Orders later (stagesFrom tools plan s.layers completed)) :
    ∃ s', Executes tools concurrency plan s s' ∧
      s'.outcome = some (builtResult tools plan (orders ++ later)) := by
  have hids := PlanValidator.nodup_of_accepted (precheck_ok hprecheck).1
  induction hlayers : s.layers generalizing s done orders completed later with
  | nil =>
    rw [hlayers] at hlater
    cases hlater
    have hmove := submit_eq tools concurrency plan h.outcome h.idle
    rw [hlayers] at hmove
    refine ⟨_, Transition.Reaches.refl.tail .submit trivial hmove, ?_⟩
    rw [List.append_nil, ← (h.result hlayers).2]
  | cons layer rest ih =>
    rw [hlayers, stagesFrom] at hquiet hlater
    have hnone := hquiet _ (List.mem_cons_self ..)
    rw [if_pos hnone] at hquiet hlater
    cases hlater with
    | @cons order _ later _ horder hlater =>
      obtain ⟨s₁, b, hsound₁, hduring, hrest, rfl, rfl, hcomplete, hrun⟩ :=
        h.run_layer hprecheck hworkers hsound hlayers horder
      have hbetween := hduring.join hsound₁ hcomplete hnone
      have hjoined : (s₁.join b).layers = rest := (join_idle s₁ b).2.1.trans hrest
      obtain ⟨s', hrun', houtcome⟩ := ih (hsound₁.join hduring.batch hcomplete) hbetween
        (hjoined.symm ▸ fun stage hstage => hquiet stage (List.mem_cons_of_mem _ hstage))
        (hjoined.symm ▸ hlater) hjoined
      refine ⟨s', hrun.trans hrun', ?_⟩
      rw [houtcome, List.append_assoc, List.singleton_append]

/-- Every error that a layer may raise is raised by some execution. -/
theorem Between.reaches_raised (hprecheck : precheck plan ctx registry = .ok ()) (hworkers : 0 < concurrency)
    (hsound : Sound plan s) (h : Between tools plan done orders completed s) {stage : Stage}
    (hstage : stage ∈ stagesFrom tools plan s.layers completed) {e : PyException}
    (he : e ∈ stage.raised tools plan) :
    ∃ s', Executes tools concurrency plan s s' ∧ s'.outcome = some (.error e) := by
  induction hlayers : s.layers generalizing s done orders completed with
  | nil =>
    rw [hlayers] at hstage
    cases hstage
  | cons layer rest ih =>
    rw [hlayers, stagesFrom] at hstage
    rcases List.mem_cons.mp hstage with rfl | hstage
    · -- the step that raises is reported first
      obtain ⟨k, hk, hke⟩ := List.mem_filterMap.mp he
      obtain ⟨s₁, b, hsound₁, hduring, -, hkeys, hreported, hcomplete, hrun⟩ :=
        h.run_layer hprecheck hworkers hsound hlayers (List.perm_cons_erase hk).symm
      have hraised : Stage.raised tools plan ⟨completed, b.keys⟩ ≠ [] := by
        rw [hkeys]
        exact List.ne_nil_of_mem he
      obtain ⟨first, hfirst, -, houtcome⟩ := hduring.raises hsound₁ hcomplete hraised
      rw [hreported, List.findSome?_cons, hke] at hfirst
      obtain rfl := Option.some.inj hfirst
      exact ⟨_, hrun, houtcome⟩
    · split at hstage
      · rename_i hquiet
        obtain ⟨s₁, b, hsound₁, hduring, hrest, rfl, -, hcomplete, hrun⟩ :=
          h.run_layer hprecheck hworkers hsound hlayers (List.Perm.refl layer)
        have hjoined : (s₁.join b).layers = rest := (join_idle s₁ b).2.1.trans hrest
        obtain ⟨s', hrun', houtcome⟩ := ih (hsound₁.join hduring.batch hcomplete)
          (hduring.join hsound₁ hcomplete hquiet) (hjoined.symm ▸ hstage) hjoined
        exact ⟨s', hrun.trans hrun', houtcome⟩
      · cases hstage

/-- Every possible end is that of some execution. -/
theorem executes_of_possible (hprecheck : precheck plan ctx registry = .ok ()) (hworkers : 0 < concurrency)
    {o : Except PyException PlanExecutionResult} (h : Possible tools plan o) :
    ∃ s, Executes tools concurrency plan (startExecution plan ctx registry) s ∧ s.outcome = some o := by
  have hids := PlanValidator.nodup_of_accepted (precheck_ok hprecheck).1
  have hsound : Sound plan (startExecution plan ctx registry) := .start hids ctx registry
  have hstart : Between tools plan [] [] [] (startExecution plan ctx registry) := .start hprecheck
  cases h with
  | raised hstage he => exact hstart.reaches_raised hprecheck hworkers hsound hstage he
  | built hquiet horders => exact hstart.reaches_built hprecheck hworkers hsound hquiet horders

end Ends

section Unique

variable {tools : Tools} {plan : QueryPlan} {layers : List (List String)} {completed : List StepResult}
  {stage stage' : Stage}

/-- Only the last stage raises. -/
theorem stage_unique_of_raised (h : stage ∈ stagesFrom tools plan layers completed)
    (h' : stage' ∈ stagesFrom tools plan layers completed) (hraised : stage.raised tools plan ≠ [])
    (hraised' : stage'.raised tools plan ≠ []) : stage = stage' := by
  induction layers generalizing completed with
  | nil => cases h
  | cons layer rest ih =>
    rw [stagesFrom] at h h'
    split at h
    · rename_i hquiet
      rw [if_pos hquiet] at h'
      rcases List.mem_cons.mp h with rfl | h
      · exact absurd hquiet hraised
      · rcases List.mem_cons.mp h' with rfl | h'
        · exact absurd hquiet hraised'
        · exact ih h h'
    · rename_i hraises
      rw [if_neg hraises] at h'
      exact (List.mem_singleton.mp h).trans (List.mem_singleton.mp h').symm

theorem layer_of_stage (h : stage ∈ stagesFrom tools plan layers completed) : stage.layer ∈ layers := by
  induction layers generalizing completed with
  | nil => cases h
  | cons layer rest ih =>
    rw [stagesFrom] at h
    rcases List.mem_cons.mp h with rfl | h
    · exact List.mem_cons_self ..
    · split at h
      · exact List.mem_cons_of_mem _ (ih h)
      · cases h

/-- A limitation names its step. -/
theorem limitation_injective {k k' : String} {r r' : StepResult} {text : String}
    (h : text ∈ limitation k r) (h' : text ∈ limitation k' r') : k = k' := by
  have hsplit : ∀ {k : String} {r : StepResult}, text ∈ limitation k r →
      r.status.IsLimitation ∧ text.toList = "step ".toList ++ k.toList ++ ": ".toList ++ r.status.value.toList := by
    intro k r h
    unfold limitation at h
    split at h
    · rename_i hstatus
      rw [List.mem_singleton.mp h]
      exact ⟨hstatus, by simp⟩
    · cases h
  obtain ⟨hstatus, htext⟩ := hsplit h
  obtain ⟨hstatus', htext'⟩ := hsplit h'
  rw [htext] at htext'
  -- the texts of two statuses end in different letters, or are the same
  have hreverse := congrArg List.reverse htext'
  rcases hstatus with hs | hs | hs | hs <;> rcases hstatus' with hs' | hs' | hs' | hs' <;>
    simp [hs, hs', StepStatus.value, String.ext_iff] at hreverse ⊢ <;> exact hreverse

theorem limitation_length (k : String) (r : StepResult) : (limitation k r).length ≤ 1 := by
  unfold limitation
  split <;> simp

theorem limitations_nodup (h : stage.layer.Nodup) : (stage.limitations tools plan stage.layer).Nodup := by
  rw [Stage.limitations, List.nodup_flatMap]
  refine ⟨fun k _ => List.nodup_iff_sublist.mpr fun text hsublist => ?_, ?_⟩
  · have hlength := hsublist.length_le.trans (limitation_length k _)
    simp at hlength
  · exact h.imp fun hne text htext htext' => hne (limitation_injective htext htext')

/-- Reports in the opposite order list the limitations in the opposite order. -/
theorem limitations_reverse (order : List String) :
    stage.limitations tools plan order.reverse = (stage.limitations tools plan order).reverse := by
  have hone : ∀ k, (limitation k (reportedResult tools plan stage.completed k)).reverse =
      limitation k (reportedResult tools plan stage.completed k) := by
    intro k
    unfold limitation
    split <;> rfl
  simp only [Stage.limitations, List.reverse_flatMap, Function.comp_def, hone]

/-- A list that equals its own reverse repeats an element, unless it is short. -/
theorem length_of_reverse_eq {texts : List String} (hnodup : texts.Nodup) (h : texts = texts.reverse) :
    texts.length ≤ 1 := by
  cases texts with
  | nil => simp
  | cons text rest =>
    cases hrest : rest.reverse with
    | nil => simp [List.reverse_eq_nil_iff.mp hrest]
    | cons last others =>
      have hmem : last ∈ rest := List.mem_reverse.mp (by simp [hrest])
      rw [List.reverse_cons, hrest, List.cons_append, List.cons.injEq] at h
      exact absurd (h.1 ▸ hmem) (List.nodup_cons.mp hnodup).1

theorem allLimitations_map (order : Stage → List String) (stages : List Stage) :
    allLimitations tools plan (stages.map order) stages =
      stages.flatMap fun stage => stage.limitations tools plan (order stage) := by
  induction stages with
  | nil => rfl
  | cons stage rest ih =>
    rw [List.map_cons, List.flatMap_cons, ← ih]
    rfl

theorem orders_map {order : Stage → List String} (h : ∀ stage : Stage, (order stage).Perm stage.layer)
    (stages : List Stage) : Orders (stages.map order) stages := by
  induction stages with
  | nil => exact .nil
  | cons stage rest ih => exact .cons (h stage) ih

/-- Texts that agree as a whole agree piece by piece, if the pieces have the same lengths. -/
theorem eq_of_flatMap_eq {f g : Stage → List String} {stages : List Stage}
    (hlength : ∀ stage ∈ stages, (f stage).length = (g stage).length)
    (h : stages.flatMap f = stages.flatMap g) : ∀ stage ∈ stages, f stage = g stage := by
  induction stages with
  | nil => simp
  | cons stage rest ih =>
    rw [List.flatMap_cons, List.flatMap_cons] at h
    obtain ⟨hfirst, hrest⟩ := List.append_inj h (hlength stage (List.mem_cons_self ..))
    intro other hother
    rcases List.mem_cons.mp hother with rfl | hother
    · exact hfirst
    · exact ih (fun stage hstage => hlength stage (List.mem_cons_of_mem _ hstage)) hrest other hother

/-- With at most one limitation in each layer their order is that of the layers. -/
theorem allLimitations_of_short {orders : List (List String)} {stages : List Stage}
    (horders : Orders orders stages)
    (hshort : ∀ stage ∈ stages, (stage.limitations tools plan stage.layer).length ≤ 1) :
    allLimitations tools plan orders stages = stages.flatMap fun stage => stage.limitations tools plan stage.layer := by
  induction horders with
  | nil => rfl
  | @cons order stage orders stages horder horders ih =>
    have hperm : (stage.limitations tools plan order).Perm (stage.limitations tools plan stage.layer) :=
      horder.flatMap_right _
    have hsame : stage.limitations tools plan order = stage.limitations tools plan stage.layer := by
      have hlength := hshort stage (List.mem_cons_self ..)
      cases htexts : stage.limitations tools plan stage.layer with
      | nil => exact List.perm_nil.mp (htexts ▸ hperm)
      | cons text rest =>
        rw [htexts] at hlength hperm
        obtain rfl : rest = [] := List.length_eq_zero_iff.mp (by simpa using hlength)
        exact List.perm_singleton.mp hperm
    have hrest := ih fun stage hstage => hshort stage (List.mem_cons_of_mem _ hstage)
    rw [List.flatMap_cons, ← hrest, ← hsame]
    rfl

theorem collectEvidence_nil {ids : List String} : collectEvidence [] ids = [] ↔ ids = [] := by
  rw [collectEvidence_eq]
  cases ids with
  | nil => simp
  | cons id ids => simp [List.eraseDups_cons]

theorem buildResult_no_evidence {results : List StepResult} {launched : Bool} {texts : List String} {used : Nat}
    (h : succeededEvidence (orderedSteps plan results) = []) :
    buildResult plan results launched texts used =
      .error (.planExecutionError "no step produced usable evidence" "no_usable_evidence" "") := by
  rw [buildResult]
  exact if_pos (collectEvidence_nil.mpr h)

/-- The limitations of a result that is built are those of its stages. -/
theorem limitations_of_built {results : List StepResult} {launched : Bool} {texts texts' : List String}
    {used : Nat} (hevidence : succeededEvidence (orderedSteps plan results) ≠ [])
    (h : buildResult plan results launched texts used = buildResult plan results launched texts' used) :
    texts = texts' := by
  have hcollected := collectEvidence_nil.not.mpr hevidence
  simp only [buildResult, if_neg hcollected, Except.ok.injEq, PlanExecutionResult.mk.injEq] at h
  tauto

theorem possible_unique_iff (hids : plan.stepIds.Nodup) :
    (∀ o o', Possible tools plan o → Possible tools plan o' → o = o') ↔ ScheduleFree tools plan := by
  constructor
  · intro h
    refine ⟨fun stage hstage e he e' he' => ?_, fun hquiet hevidence stage hstage => ?_⟩
    · exact Except.error.inj (h _ _ (.raised hstage he) (.raised hstage he'))
    · have hbuilt := h _ _ (.built hquiet (orders_map (fun stage => List.Perm.refl stage.layer) _))
        (.built hquiet (orders_map (fun stage => List.reverse_perm stage.layer) _))
      have htexts := limitations_of_built hevidence hbuilt
      rw [allLimitations_map, allLimitations_map] at htexts
      have hsame := eq_of_flatMap_eq (fun stage _ => by simp [limitations_reverse]) htexts stage hstage
      rw [limitations_reverse] at hsame
      have hordered := Layering.layers_ordered hids fun step _ => allDependencyIds_nodup step
      exact length_of_reverse_eq
        (limitations_nodup (hordered.nodup (layer_of_stage hstage))) hsame
  · rintro ⟨hraised, hshort⟩ o o' h h'
    cases h with
    | raised hstage he =>
      cases h' with
      | raised hstage' he' =>
        obtain rfl := stage_unique_of_raised hstage hstage' (List.ne_nil_of_mem he) (List.ne_nil_of_mem he')
        rw [hraised _ hstage _ he _ he']
      | built hquiet => simp [hquiet _ hstage] at he
    | built hquiet horders =>
      cases h' with
      | raised hstage' he' => simp [hquiet _ hstage'] at he'
      | built _ horders' =>
        by_cases hevidence : succeededEvidence (orderedSteps plan (finalResults tools plan)) = []
        · unfold builtResult
          rw [buildResult_no_evidence hevidence, buildResult_no_evidence hevidence]
        · have hlimited := hshort hquiet hevidence
          unfold builtResult
          rw [allLimitations_of_short horders hlimited, allLimitations_of_short horders' hlimited]

end Unique

section Main

variable (tools : Tools) (concurrency : Int) (plan : QueryPlan) (ctx : SecurityContext)
  (registry : CorpusRegistry)

/-- All executions that end have the same result or raise the same error. -/
def Deterministic : Prop :=
  ∀ s s' o o', Executes tools concurrency plan (startExecution plan ctx registry) s →
    Executes tools concurrency plan (startExecution plan ctx registry) s' →
    s.outcome = some o → s'.outcome = some o' → o = o'

variable {tools concurrency plan ctx registry}

theorem deterministic_of_refused {e : PyException} (h : precheck plan ctx registry = .error e) :
    Deterministic tools concurrency plan ctx registry := by
  have hstart : ∀ s, Executes tools concurrency plan (startExecution plan ctx registry) s →
      s.outcome = some (.error e) := fun s hrun =>
    hrun.invariant (I := fun s => s.outcome = some (.error e))
      (fun houtcome _ hstep => by simp [executeStep, houtcome] at hstep) (by simp [startExecution, h])
  intro s s' o o' hrun hrun' houtcome houtcome'
  rw [hstart s hrun] at houtcome
  rw [hstart s' hrun'] at houtcome'
  exact Option.some.inj (houtcome.symm.trans houtcome')

/-- Without a worker the first move ends the execution. -/
theorem deterministic_without_workers (hworkers : concurrency ≤ 0) :
    Deterministic tools concurrency plan ctx registry := by
  have hmoves : ∀ s, Executes tools concurrency plan (startExecution plan ctx registry) s →
      s = startExecution plan ctx registry ∨
        executeStep tools concurrency plan (startExecution plan ctx registry) .submit = some s ∧
          s.outcome ≠ none := by
    intro s hrun
    refine hrun.invariant
      (I := fun s => s = startExecution plan ctx registry ∨
        executeStep tools concurrency plan (startExecution plan ctx registry) .submit = some s ∧
          s.outcome ≠ none) (fun {s move s'} hs _ hstep => ?_) (Or.inl rfl)
    rcases hs with rfl | ⟨-, hended⟩
    · right
      have hmove := executeStep_moves hstep
      cases hmove with
      | ended hopen hidle hended =>
        cases move with
        | submit => exact ⟨hstep, by simp⟩
        | work move => simp [executeStep, hopen, hidle] at hstep
        | join => simp [executeStep, hopen, hidle] at hstep
      | submitted _ _ _ hstaffed => omega
      | worked _ hb => cases hb
      | joined _ hb => cases hb
    · obtain ⟨o, ho⟩ := Option.ne_none_iff_exists'.mp hended
      simp [executeStep, ho] at hstep
  intro s s' o o' hrun hrun' houtcome houtcome'
  rcases hmoves s hrun with rfl | ⟨hs, -⟩
  · rcases hmoves s' hrun' with rfl | ⟨hs', -⟩
    · exact Option.some.inj (houtcome.symm.trans houtcome')
    · simp [executeStep, houtcome] at hs'
  · rcases hmoves s' hrun' with rfl | ⟨hs', -⟩
    · simp [executeStep, houtcome'] at hs
    · obtain rfl := Option.some.inj (hs.symm.trans hs')
      exact Option.some.inj (houtcome.symm.trans houtcome')

/-- The schedule does not matter exactly if no layer raises different errors and no layer of a returned
result has two limitations, or the plan does not run at all. Tools answer by step and attempt; what
varies is the order in which they are called and report. -/
theorem execute_deterministic_iff : Deterministic tools concurrency plan ctx registry ↔
    (precheck plan ctx registry = .ok () → 0 < concurrency → ScheduleFree tools plan) := by
  constructor
  · intro h hprecheck hworkers
    have hids := PlanValidator.nodup_of_accepted (precheck_ok hprecheck).1
    refine (possible_unique_iff hids).mp fun o o' hpossible hpossible' => ?_
    obtain ⟨s, hrun, houtcome⟩ := executes_of_possible hprecheck hworkers hpossible
    obtain ⟨s', hrun', houtcome'⟩ := executes_of_possible hprecheck hworkers hpossible'
    exact h s s' o o' hrun hrun' houtcome houtcome'
  · intro h
    cases hprecheck : precheck plan ctx registry with
    | error e => exact deterministic_of_refused hprecheck
    | ok checked =>
      by_cases hworkers : 0 < concurrency
      · have hids := PlanValidator.nodup_of_accepted (precheck_ok hprecheck).1
        intro s s' o o' hrun hrun' houtcome houtcome'
        exact (possible_unique_iff hids).mpr (h hprecheck hworkers) o o'
          (possible_of_executes hprecheck hworkers hrun houtcome)
          (possible_of_executes hprecheck hworkers hrun' houtcome')
      · exact deterministic_without_workers (not_lt.mp hworkers)

end Main

/-- A step that finds something and two that fail, all in one layer. -/
private def parallel : QueryPlan :=
  Sample.plan [Sample.step "find" [], Sample.step "extract" [], Sample.step "compare" []]

/-- The execution whose steps are reported in some order. -/
private def reportedIn (order : List String) : PlanRun :=
  Transition.play (executeStep (Sample.tools ["extract", "compare"]) 3 parallel)
    (startExecution parallel Sample.caller Sample.registry)
    (Sample.runLayer ["find", "extract", "compare"] order ++ [.submit])

theorem execute_deterministic_counterexample :
    (PlanValidator.validate parallel Sample.caller Sample.registry).accepted = true ∧
      ¬Deterministic (Sample.tools ["extract", "compare"]) 3 parallel Sample.caller Sample.registry := by
  refine ⟨by decide +kernel, fun h => ?_⟩
  have hfirst : Executes (Sample.tools ["extract", "compare"]) 3 parallel
      (startExecution parallel Sample.caller Sample.registry)
      (reportedIn ["find", "extract", "compare"]) := Transition.reaches_play _ rfl
  have hsecond : Executes (Sample.tools ["extract", "compare"]) 3 parallel
      (startExecution parallel Sample.caller Sample.registry)
      (reportedIn ["compare", "extract", "find"]) := Transition.reaches_play _ rfl
  have hsame := h _ _ _ _ hfirst hsecond rfl rfl
  revert hsame
  decide +kernel

end Planner

end AgenticRag
