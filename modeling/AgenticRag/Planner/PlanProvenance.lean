import AgenticRag.Planner.PlanSafety
import AgenticRag.Planner.RetrieverTool

/-!
# Where the results of a plan come from

A step that succeeded has the outputs of one attempt, for inputs made of results that were recorded
before. With the retriever tool these are projections of authorized evidence, from the first step
of a plan to the last, under every schedule.
-/

namespace AgenticRag

namespace Planner

section Attempts

variable {tools : Tools} {plan : QueryPlan} {completed results : List StepResult}

/-- The result is what an attempt of its step has returned, for inputs that were resolved against
recorded results. -/
inductive Made (tools : Tools) (plan : QueryPlan) (results : List StepResult) (r : StepResult) : Prop
  | attempted {step : PlanStep} {spec : ToolSpec} {completed : List StepResult} {inputs : Dict Value}
      {attempt : Nat} {output : TypedStepOutput} {validate : OutputModel} (hstep : step ∈ plan.steps)
      (hid : step.stepId = r.stepId) (hspec : tools.get step.stepType step.capabilityId = .ok spec)
      (hcompleted : ∀ k upstream, resultOf completed k = some upstream → resultOf results k = some upstream)
      (hinputs : resolveInputs plan completed spec step = .ok inputs)
      (hattempt : tools.attempt step inputs attempt = .returned output)
      (hvalidate : spec.outputModels step.outputSchemaId = some validate)
      (houtputs : validate output.outputs = .ok r.outputs) (hevidence : output.evidenceIds = r.evidenceIds) :
      Made tools plan results r

theorem Made.mono {r : StepResult} (h : Made tools plan completed r)
    (hmono : ∀ k r, resultOf completed k = some r → resultOf results k = some r) : Made tools plan results r := by
  cases h with
  | attempted hstep hid hspec hcompleted hinputs hattempt hvalidate houtputs hevidence =>
    exact .attempted hstep hid hspec (fun k upstream hk => hmono k upstream (hcompleted k upstream hk)) hinputs
      hattempt hvalidate houtputs hevidence

/-- A step in its retry loop has its own specification, and its inputs are resolved. -/
structure Attempting.Prepared (tools : Tools) (plan : QueryPlan) (completed : List StepResult) (a : Attempting) :
    Prop where
  step : a.step ∈ plan.steps
  spec : tools.get a.step.stepType a.step.capabilityId = .ok a.spec
  inputs : resolveInputs plan completed a.spec a.step = .ok a.inputs

theorem beginStep_prepared {stepId : String} {a : Attempting}
    (h : beginStep tools plan completed stepId = .inl (.reserving a)) : a.Prepared tools plan completed := by
  unfold beginStep at h
  cases hstep : plan.stepNamed stepId with
  | none => simp [hstep] at h
  | some step =>
    simp only [hstep] at h
    cases hspec : tools.get step.stepType step.capabilityId with
    | error e => simp [hspec] at h
    | ok spec =>
      simp only [hspec] at h
      split at h
      · cases h
      · cases hinputs : resolveInputs plan completed spec step with
        | error e =>
          simp only [hinputs] at h
          split at h <;> cases h
        | ok inputs =>
          simp only [hinputs] at h
          split at h
          · cases h
          · obtain rfl := StepTask.reserving.inj (Sum.inl.inj h)
            exact ⟨(stepNamed_mem hstep).1, hspec, hinputs⟩

/-- No exception makes a step succeed. -/
theorem handleException_fails {a : Attempting} {e : PyException} {r : StepResult}
    (h : handleException a e = .inr (.ok r)) : r.status ≠ .succeeded := by
  have hfailed : ∀ status errorCode message detail, status ≠ StepStatus.succeeded →
      (Sum.inr (.ok (a.failedWith status errorCode message detail)) : StepTask ⊕ StepOutcome) = .inr (.ok r) →
        r.status ≠ .succeeded := by
    intro status errorCode message detail hstatus hsame
    obtain rfl := Except.ok.inj (Sum.inr.inj hsame)
    exact hstatus
  unfold handleException at h
  split at h
  · cases h
  · split at h
    · exact hfailed _ _ _ _ (by simp) h
    · split at h
      · cases h
      · split at h
        · cases h
        · split at h
          · split at h
            · cases h
            · exact hfailed _ _ _ _ (by simp) h
          · exact hfailed _ _ _ _ (by simp) h

/-- An attempt with which a step succeeds has returned what the result shows. -/
theorem afterAttempt_succeeded {a : Attempting} {r : StepResult}
    (h : afterAttempt a (a.outcome tools) = .inr (.ok r)) (hsucceeded : r.status = .succeeded) :
    ∃ output validate, tools.attempt a.step a.inputs a.attempts = .returned output ∧
      a.spec.outputModels a.step.outputSchemaId = some validate ∧ validate output.outputs = .ok r.outputs ∧
      output.evidenceIds = r.evidenceIds ∧ a.step.stepId = r.stepId := by
  unfold Attempting.outcome at h
  cases hattempt : tools.attempt a.step a.inputs a.attempts with
  | late =>
    rw [hattempt, runToolWithTimeout] at h
    exact absurd hsucceeded (handleException_fails h)
  | raised e =>
    rw [hattempt, runToolWithTimeout] at h
    split at h
    · exact absurd hsucceeded (handleException_fails h)
    · exact absurd hsucceeded (handleException_fails h)
  | returned output =>
    rw [hattempt] at h
    simp only [runToolWithTimeout, afterAttempt] at h
    cases hvalidate : a.spec.outputModels a.step.outputSchemaId with
    | none =>
      rw [hvalidate] at h
      exact absurd hsucceeded (handleException_fails h)
    | some validate =>
      simp only [hvalidate] at h
      cases houtputs : validate output.outputs with
      | error e =>
        simp only [houtputs] at h
        obtain rfl := Except.ok.inj (Sum.inr.inj h)
        simp [Attempting.failedWith, StepResult.unsuccessful] at hsucceeded
      | ok validated =>
        simp only [houtputs] at h
        obtain rfl := Except.ok.inj (Sum.inr.inj h)
        exact ⟨output, validate, rfl, rfl, houtputs, rfl, rfl⟩

/-- What holds of a step on the thread pool. -/
def TaskMade (tools : Tools) (plan : QueryPlan) (completed : List StepResult) :
    ForkJoin.Task StepTask StepOutcome → Prop
  | .running (.reserving a) | .running (.calling a) => a.Prepared tools plan completed
  | .finished (.ok r) => r.status = .succeeded → Made tools plan completed r
  | _ => True

theorem taskMade_invariant {keys : List String} : ForkJoin.TaskInvariant (stepWork tools plan completed)
    (fun _ => TaskMade tools plan completed) keys where
  first k _ _ := trivial
  advance {k t s t' s'} h hstep := by
    cases t with
    | begun stepId =>
      obtain ⟨hbegin, -⟩ := Prod.mk.inj hstep
      have hcases := beginStep_begins tools plan completed stepId
      rw [hbegin] at hcases
      cases hcases with
      | ready => exact beginStep_prepared hbegin
    | reserving a =>
      simp only [stepWork, stepTask] at hstep
      split at hstep
      · split at hstep
        · cases hstep
        · obtain ⟨hcalling, -⟩ := Prod.mk.inj hstep
          obtain rfl := Sum.inl.inj hcalling
          exact ⟨h.step, h.spec, h.inputs⟩
      · cases hstep
    | calling a =>
      obtain ⟨hafter, -⟩ := Prod.mk.inj hstep
      have hcases := afterAttempt_continues a (a.outcome tools)
      rw [hafter] at hcases
      cases hcases with
      | retried last => exact ⟨h.step, h.spec, h.inputs⟩
  finish {k t s r s'} h hstep := by
    have hended : ∀ {r : StepResult}, r.status ≠ .succeeded →
        TaskMade tools plan completed (.finished (.ok r)) := fun hfailed hsucceeded => absurd hsucceeded hfailed
    cases t with
    | begun stepId =>
      obtain ⟨hbegin, -⟩ := Prod.mk.inj hstep
      have hcases := beginStep_begins tools plan completed stepId
      rw [hbegin] at hcases
      cases hcases with
      | ended hid hterminal hfailed => exact hended hfailed
      | raised => trivial
    | reserving a =>
      simp only [stepWork, stepTask] at hstep
      split at hstep
      · split at hstep
        · obtain ⟨hexhausted, -⟩ := Prod.mk.inj hstep
          obtain rfl := Sum.inr.inj hexhausted
          exact hended (by simp [Attempting.budgetExhausted, Attempting.failedWith, StepResult.unsuccessful])
        · cases hstep
      · obtain ⟨hexhausted, -⟩ := Prod.mk.inj hstep
        obtain rfl := Sum.inr.inj hexhausted
        exact hended (by simp [exhausted_status])
    | calling a =>
      obtain ⟨hafter, -⟩ := Prod.mk.inj hstep
      cases r with
      | error e => trivial
      | ok r =>
        intro hsucceeded
        obtain ⟨output, validate, hattempt, hvalidate, houtputs, hevidence, hid⟩ :=
          afterAttempt_succeeded hafter hsucceeded
        exact .attempted h.step hid h.spec (fun _ _ hk => hk) h.inputs hattempt hvalidate houtputs hevidence

end Attempts

section Runs

variable {tools : Tools} {concurrency : Int} {plan : QueryPlan} {ctx : SecurityContext} {registry : CorpusRegistry}
  {s s' : PlanRun}

/-- Every recorded result is one of a step of the plan, made by an attempt if it succeeded. -/
structure Provenant (tools : Tools) (plan : QueryPlan) (s : PlanRun) : Prop where
  recorded : ∀ k r, resultOf s.results k = some r →
    k ∈ plan.stepIds ∧ (r.status = .succeeded → Made tools plan s.results r)
  batch : ∀ b, s.batch = some b → ∀ k, TaskMade tools plan s.results (b.task k)

/-- A layer that is joined keeps the results before it, and adds those of its steps. -/
theorem Sound.join_results (h : Sound plan s) {b : ForkJoin.Batch String StepTask StepOutcome}
    (hb : s.batch = some b) (hcomplete : b.Complete) :
    (∀ k r, resultOf s.results k = some r → resultOf (s.join b).results k = some r) ∧
      ∀ k r, resultOf (s.join b).results k = some r →
        resultOf s.results k = some r ∨ k ∈ b.keys ∧ ∃ o, b.task k = .finished o ∧ r = settledResult k o := by
  have hbatch := h.batch b hb
  have hperm := hbatch.wellFormed.reported_perm hbatch.nodup hcomplete
  rw [join_eq]
  split
  · exact ⟨fun _ _ hk => hk, fun _ _ hk => Or.inl hk⟩
  · have hresults : ∀ k, resultOf ((b.reported.map fun k => settledResult k (outcomeOf b k)).foldl
        (Table.upsert (·.stepId)) s.results) k =
          if k ∈ b.reported then some (settledResult k (outcomeOf b k)) else resultOf s.results k :=
      resultOf_layer fun k hk => (hbatch.settled hk).1
    simp only [hresults]
    refine ⟨fun k r hk => ?_, fun k r hk => ?_⟩
    · rw [if_neg, hk]
      intro hreported
      rw [hbatch.fresh k (hperm.mem_iff.mp hreported)] at hk
      cases hk
    · split at hk
      · rename_i hreported
        obtain ⟨o, ho⟩ := hbatch.wellFormed.finished k hreported
        rw [outcomeOf_finished ho] at hk
        exact Or.inr ⟨hperm.mem_iff.mp hreported, o, ho, (Option.some.inj hk).symm⟩
      · exact Or.inl hk

theorem Provenant.start : Provenant tools plan (startExecution plan ctx registry) where
  recorded k r hr := by cases hr
  batch b hb := by cases hb

theorem Provenant.step (hsound : Sound plan s) (h : Provenant tools plan s)
    (hmove : Moves tools concurrency plan s s') : Provenant tools plan s' := by
  cases hmove with
  | ended => exact ⟨h.recorded, h.batch⟩
  | submitted =>
    refine ⟨h.recorded, ?_⟩
    rintro _ ⟨⟩ k
    trivial
  | @worked b p hopen hb hstep =>
    refine ⟨h.recorded, ?_⟩
    rintro _ ⟨⟩
    exact taskMade_invariant.step hstep (h.batch b hb)
  | @joined b hopen hb hcomplete =>
    obtain ⟨hmono, hadded⟩ := hsound.join_results hb hcomplete
    refine ⟨fun k r hk => ?_, fun b' hb' => ?_⟩
    · rcases hadded k r hk with hold | ⟨hkey, o, ho, rfl⟩
      · obtain ⟨hid, hmade⟩ := h.recorded k r hold
        exact ⟨hid, fun hsucceeded => (hmade hsucceeded).mono hmono⟩
      · obtain ⟨step, hstep, -⟩ := (hsound.batch b hb).ready k hkey
        obtain ⟨hmem, rfl⟩ := stepNamed_mem hstep
        refine ⟨List.mem_map_of_mem hmem, fun hsucceeded => ?_⟩
        have htask := h.batch b hb step.stepId
        rw [ho] at htask
        cases o with
        | ok r => exact (htask hsucceeded).mono hmono
        | error e => simp [settledResult, unexpectedError, StepResult.unsuccessful] at hsucceeded
    · rw [(join_idle s b).1] at hb'
      cases hb'

/-- An execution that has ended does not move. -/
theorem moves_open (h : Moves tools concurrency plan s s') : s.outcome = none := by
  cases h <;> assumption

theorem mem_succeededEvidence {steps : List StepResult} {id : String} :
    id ∈ succeededEvidence steps ↔ ∃ r ∈ steps, r.status = .succeeded ∧ id ∈ r.evidenceIds := by
  simp only [succeededEvidence, List.mem_flatMap, List.mem_filter, decide_eq_true_eq, and_assoc]

/-- A plan that is rejected has no result. -/
theorem raised_of_rejected (hrejected : (PlanValidator.validate plan ctx registry).accepted = false)
    (hrun : Executes tools concurrency plan (startExecution plan ctx registry) s) :
    ∃ e, s.outcome = some (.error e) := by
  have hstays : ∀ {s s' : PlanRun} {move : PlanMove}, (∃ e, s.outcome = some (.error e)) → True →
      executeStep tools concurrency plan s move = some s' → ∃ e, s'.outcome = some (.error e) := by
    rintro s s' move ⟨e, he⟩ - hstep
    simp [moves_open (executeStep_moves hstep)] at he
  have hstart : ∃ e, (startExecution plan ctx registry).outcome = some (.error e) := by
    simp [startExecution, precheck, hrejected]
  exact hrun.invariant (I := fun s => ∃ e, s.outcome = some (.error e)) hstays hstart

/-- What was recorded when the result was built, and how it was made. -/
theorem provenant_of_returned (hrun : Executes tools concurrency plan (startExecution plan ctx registry) s)
    {result : PlanExecutionResult} (hresult : s.outcome = some (.ok result)) :
    Provenant tools plan s ∧ result.steps = orderedSteps plan s.results ∧
      result.evidenceIds = (succeededEvidence result.steps).eraseDups := by
  cases haccepted : (PlanValidator.validate plan ctx registry).accepted with
  | false =>
    obtain ⟨e, he⟩ := raised_of_rejected haccepted hrun
    simp [he] at hresult
  | true =>
    have hids := PlanValidator.nodup_of_accepted haccepted
    have hkept : Sound plan s ∧ Provenant tools plan s ∧ Returns plan s :=
      hrun.invariant (I := fun s => Sound plan s ∧ Provenant tools plan s ∧ Returns plan s)
        (fun ⟨hsound, hprovenant, _⟩ _ hstep => ⟨hsound.step hids (executeStep_moves hstep),
          hprovenant.step hsound (executeStep_moves hstep), Returns.step (executeStep_moves hstep)⟩)
        ⟨.start hids ctx registry, .start, .start⟩
    exact ⟨hkept.2.1, evidence_of_result (hkept.2.2 result hresult)⟩

end Runs

section Retrieval

variable (tool : RetrieverTool) (ctx : SecurityContext) (get : StepType → String → Except PyException ToolSpec)

/-- The evidence is an authorized snapshot from one of the target corpora of a step, found for its
query. -/
def RetrieverTool.Authorizes (step : PlanStep) (query : String) (ev : Evidence) : Prop :=
  ∃ corpusId ∈ step.targetCorpusIds, ∃ corpus r, tool.registry.get ctx corpusId = .ok corpus ∧
    r.corpus = corpus ∧ r.query = query ∧ r.planStepId = step.stepId ∧
    EvidenceRetriever.Genuine (tool.encounter r).retriever (tool.encounter r).seen (tool.encounter r).later
      ctx corpus ev

/-- A result is the validated projection of authorized evidence, which was found for a query made
of the plan and of results that are shown with it. -/
inductive Traced (plan : QueryPlan) (shown : List StepResult) (r : StepResult) : Prop
  | projected {step : PlanStep} {completed : List StepResult} {query : String} {evidence : List Evidence}
      {spec : ToolSpec} {validate : OutputModel} (hstep : step ∈ plan.steps) (hid : step.stepId = r.stepId)
      (hcompleted : ∀ k upstream, resultOf completed k = some upstream → upstream ∈ shown)
      (hquery : resolveQuery completed step = .ok query)
      (hspec : get step.stepType step.capabilityId = .ok spec)
      (hvalidate : spec.outputModels step.outputSchemaId = some validate)
      (houtputs : validate (tool.outputsOf step evidence) = .ok r.outputs)
      (hevidence : r.evidenceIds = evidence.map (·.evidenceId)) (hdistinct : r.evidenceIds.Nodup)
      (hauthorized : ∀ ev ∈ evidence, tool.Authorizes ctx step query ev) : Traced plan shown r

variable {tool ctx get} {plan : QueryPlan} {completed : List StepResult} {step : PlanStep}

/-- The query that a Tool reads from its inputs is that of its step. -/
theorem resolveQuery_of_inputs {spec : ToolSpec} {inputs : Dict Value} {query : String}
    (hinputs : resolveInputs plan completed spec step = .ok inputs) (hquery : extractQuery inputs = .ok query) :
    resolveQuery completed step = .ok query := by
  obtain ⟨resolved, -, hinputs⟩ := except_bind_ok.mp hinputs
  obtain ⟨text, htext, hinputs⟩ := except_bind_ok.mp hinputs
  obtain rfl := Except.ok.inj hinputs
  unfold extractQuery at hquery
  rw [lookup_assignField] at hquery
  dsimp only at hquery
  split at hquery
  · cases hquery
  · rw [htext, Except.ok.inj hquery]

theorem RetrieverTool.Retrieved.authorizes (hsearch : ∀ r, (tool.encounter r).retriever.FaithfulSearch)
    {query : String} {ev : Evidence} (h : tool.Retrieved ctx step query ev) : tool.Authorizes ctx step query ev := by
  obtain ⟨corpusId, htarget, corpus, r, found, hget, hcorpus, hquery, hid, hfound, hev⟩ := h
  refine ⟨corpusId, htarget, corpus, r, hget, hcorpus, hquery, hid, ?_⟩
  unfold RetrieverTool.retrieveEvidence at hfound
  dsimp only at hfound
  cases houtcome : ((tool.encounter r).retriever.retrieveEvidence (tool.encounter r).seen (tool.encounter r).later ctx
      r.corpus (tool.authorityLevel r.corpus) none ⟨r.query, 0, some r.planStepId⟩ (tool.encounter r).snapshots).1 with
  | error e =>
    rw [houtcome] at hfound
    cases hfound
  | ok evidence =>
    rw [houtcome] at hfound
    obtain rfl : evidence = found := Except.ok.inj hfound
    rw [← hcorpus]
    exact EvidenceRetriever.retrieveEvidence_genuine (hsearch r) houtcome hev

/-- A step that succeeded with the retriever tool is traced to its evidence. -/
theorem Made.traced {late : PlanStep → Nat → Bool} {shown : List StepResult} {r : StepResult}
    (hsearch : ∀ r, (tool.encounter r).retriever.FaithfulSearch)
    (h : Made (tool.tools ctx get late) plan completed r)
    (hshown : ∀ k upstream, resultOf completed k = some upstream → upstream ∈ shown) :
    Traced tool ctx get plan shown r := by
  cases h with
  | @attempted step spec earlier inputs attempt output validate hstep hid hspec hearlier hinputs hattempt hvalidate
      houtputs hevidence =>
    have hreturned : tool.executeStep ctx step inputs attempt = .ok output := by
      simp only [RetrieverTool.tools] at hattempt
      split at hattempt
      · cases hattempt
      · split at hattempt
        · rename_i found hfound
          rw [hfound, ToolOutcome.returned.inj hattempt]
        · cases hattempt
    obtain ⟨query, evidence, hquery, rfl, hdistinct, hretrieved⟩ := RetrieverTool.executeStep_ok hreturned
    exact .projected hstep hid (fun k upstream hk => hshown k upstream (hearlier k upstream hk))
      (resolveQuery_of_inputs hinputs hquery) hspec hvalidate houtputs hevidence.symm (hevidence ▸ hdistinct)
      fun ev hev => (hretrieved ev hev).authorizes hsearch

/-- Every plan that is executed with the retriever tool, under any schedule and whatever happens to
the stores meanwhile: the evidence it returns is that of its succeeded steps, each id once and in the
order of the steps, and each of these steps shows authorized evidence of its own target corpora only.
The search is trusted no further than that its points pass the filter it was given. -/
theorem execute_traced (tool : RetrieverTool) (hsearch : ∀ r, (tool.encounter r).retriever.FaithfulSearch)
    {late : PlanStep → Nat → Bool} {concurrency : Int} {registry : CorpusRegistry} {s : PlanRun}
    (hrun : Executes (tool.tools ctx get late) concurrency plan (startExecution plan ctx registry) s)
    {result : PlanExecutionResult} (hresult : s.outcome = some (.ok result)) :
    result.evidenceIds = (succeededEvidence result.steps).eraseDups ∧ result.evidenceIds.Nodup ∧
      (∀ id, id ∈ result.evidenceIds ↔ ∃ r ∈ result.steps, r.status = .succeeded ∧ id ∈ r.evidenceIds) ∧
      ∀ r ∈ result.steps, r.status = .succeeded → Traced tool ctx get plan result.steps r := by
  obtain ⟨hprovenant, hsteps, hevidence⟩ := provenant_of_returned hrun hresult
  have hshown : ∀ k upstream, resultOf s.results k = some upstream → upstream ∈ result.steps := by
    intro k upstream hk
    obtain ⟨step, hstep, rfl⟩ := List.mem_map.mp (hprovenant.recorded k upstream hk).1
    rw [hsteps]
    exact List.mem_filterMap.mpr ⟨step, hstep, hk⟩
  refine ⟨hevidence, ?_, fun id => ?_, fun r hr hsucceeded => ?_⟩
  · rw [hevidence]
    exact nodup_eraseDups _
  · rw [hevidence, List.mem_eraseDups, mem_succeededEvidence]
  · rw [hsteps] at hr
    obtain ⟨step, -, hk⟩ := List.mem_filterMap.mp hr
    exact ((hprovenant.recorded step.stepId r hk).2 hsucceeded).traced hsearch hshown

end Retrieval

namespace PlanProvenance.Sample

open Planner.Sample (step plan runLayer)

/-- Both steps find the travel rules, in snapshots of their own. -/
def tool : RetrieverTool where
  registry := .ofCorpora [AgenticRag.Sample.corpus]
  encounter r :=
    { retriever :=
        { toSecureRetriever := SecureRetriever.ofPoints [AgenticRag.Sample.scored]
          dedup := { lower := fun text => text.map Char.toLower, similar := none }
          builder := { newId := fun i => r.planStepId ++ toString i, now := fun _ => ⟨5, some 0⟩, sha256 := id } }
      seen := fun _ => AgenticRag.Sample.stores
      later := fun _ => AgenticRag.Sample.stores.metadata
      snapshots := none }
  authorityLevel _ := 50
  retrievalScore _ := some 1
  raised _ := .valueError "fault"
  shown _ := (0, "")

def get : StepType → String → Except PyException ToolSpec := fun _ _ => .ok ⟨[], fun _ => some .ok, []⟩

/-- The second step asks for what the first one has found. -/
def followUp : QueryPlan :=
  plan [step "find" [],
    { step "check" ["find"] with query := none, queryTemplate := some "More on \x7b\x7bfind.entity_text\x7d\x7d" }]

def moves : List PlanMove := runLayer ["find"] ["find"] ++ runLayer ["check"] ["check"] ++ [.submit]

def executed : PlanRun :=
  Transition.play (executeStep (tool.tools (AgenticRag.Sample.reader ["internal"]) get fun _ _ => false) 2 followUp)
    (startExecution followUp (AgenticRag.Sample.reader ["internal"]) Planner.Sample.registry) moves

def returned (s : PlanRun) : Option PlanExecutionResult :=
  match s.outcome with
  | some (.ok result) => some result
  | _ => none

theorem outcome_of_returned {s : PlanRun} {result : PlanExecutionResult} (h : returned s = some result) :
    s.outcome = some (.ok result) := by
  unfold returned at h
  split at h
  · rename_i found hfound
    rw [hfound, Option.some.inj h]
  · cases h

end PlanProvenance.Sample

open PlanProvenance.Sample in
theorem execute_traced_chain :
    ∃ result, executed.outcome = some (.ok result) ∧ result.evidenceIds = ["find0", "check0"] ∧
      result.evidenceIds = (succeededEvidence result.steps).eraseDups ∧
      ∀ r ∈ result.steps, r.status = .succeeded →
        Traced tool (AgenticRag.Sample.reader ["internal"]) get followUp result.steps r := by
  have hids : (returned executed).map (·.evidenceIds) = some ["find0", "check0"] := by decide +kernel
  obtain ⟨result, hreturned, hevidence⟩ := Option.map_eq_some_iff.mp hids
  have hrun : Executes (tool.tools (AgenticRag.Sample.reader ["internal"]) get fun _ _ => false) 2 followUp
      (startExecution followUp (AgenticRag.Sample.reader ["internal"]) Planner.Sample.registry) executed :=
    Transition.reaches_play moves (Transition.permits_of_forall (fun _ _ => trivial) _ _)
  have hsearch : ∀ r, (tool.encounter r).retriever.FaithfulSearch := fun r =>
    SecureRetriever.ofPoints_faithful (by decide)
  have houtcome := outcome_of_returned hreturned
  obtain ⟨hids, -, -, htraced⟩ := execute_traced tool hsearch hrun houtcome
  exact ⟨result, houtcome, hevidence, hids, htraced⟩

end Planner

end AgenticRag
