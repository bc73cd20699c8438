import AgenticRag.Foundations.Acyclic
import AgenticRag.Planner.PlanSafety

/-!
# Acyclic plans

The validator counts the steps it can take off the plan one by one, over edges that may be
listed twice; the executor takes them off in layers, over dependencies without repetition.
-/

namespace AgenticRag

namespace Planner

/-- A step with the second id depends on the first one, hard or optionally. -/
def QueryPlan.DependsOn (plan : QueryPlan) (upstream downstream : String) : Prop :=
  ∃ step ∈ plan.steps, step.stepId = downstream ∧
    (upstream ∈ step.dependsOnStepIds ∨ upstream ∈ step.optionalDependsOnStepIds)

namespace PlanValidator

section Targets

variable {targets stack : List String} {indeg : String → Int}

/-- Each edge out of a visited step is counted off once. -/
theorem releaseTargets_counts (id : String) :
    (releaseTargets targets indeg stack).1 id = indeg id - targets.count id := by
  induction targets generalizing indeg stack with
  | nil => simp [releaseTargets]
  | cons target rest ih =>
    simp only [releaseTargets]
    rw [ih]
    by_cases hsame : id = target
    · subst hsame
      rw [Function.update_self, List.count_cons_self]
      omega
    · rw [Function.update_of_ne hsame, List.count_cons_of_ne (Ne.symm hsame)]

/-- The steps that are pushed are those whose last open edges were counted off. -/
theorem releaseTargets_pushed (hcounts : ∀ id, (targets.count id : Int) ≤ indeg id) :
    ∃ pushed, (releaseTargets targets indeg stack).2 = pushed ++ stack ∧ pushed.Nodup ∧
      ∀ id, id ∈ pushed ↔ id ∈ targets ∧ indeg id = targets.count id := by
  induction targets generalizing indeg stack with
  | nil => exact ⟨[], by simp [releaseTargets]⟩
  | cons target rest ih =>
    have hrest : ∀ id, (rest.count id : Int) ≤
        Function.update indeg target (indeg target - 1) id := by
      intro id
      have hid := hcounts id
      by_cases hsame : id = target
      · subst hsame
        rw [Function.update_self]
        rw [List.count_cons_self] at hid
        omega
      · rwa [Function.update_of_ne hsame, ← List.count_cons_of_ne (Ne.symm hsame)]
    have hother : ∀ id, id ≠ target → (Function.update indeg target (indeg target - 1) id =
        rest.count id ↔ indeg id = (target :: rest).count id) := by
      intro id hne
      rw [Function.update_of_ne hne, List.count_cons_of_ne (Ne.symm hne)]
    have htarget := hcounts target
    rw [List.count_cons_self] at htarget
    simp only [releaseTargets, Function.update_self]
    split
    · -- the last edge into this step: it does not occur among the rest
      rename_i hlast
      obtain ⟨pushed, hstack, hnodup, hpushed⟩ := @ih (target :: stack) _ hrest
      have hfresh : target ∉ rest := by
        intro hmem
        have hpos := List.count_pos_iff.mpr hmem
        omega
      refine ⟨pushed ++ [target], by simp [hstack], ?_, ?_⟩
      · apply hnodup.append (List.nodup_singleton target)
        intro id hid hsame
        rw [List.mem_singleton.mp hsame] at hid
        exact hfresh ((hpushed target).mp hid).1
      · intro id
        by_cases hsame : id = target
        · subst hsame
          have hnone := List.count_eq_zero.mpr hfresh
          simp only [List.mem_append, or_true, List.mem_cons, true_or,
            List.count_cons_self, true_and, true_iff]
          omega
        · rw [List.mem_append, hpushed id, hother id hsame]
          simp [hsame]
    · rename_i hopen
      obtain ⟨pushed, hstack, hnodup, hpushed⟩ := @ih stack _ hrest
      refine ⟨pushed, hstack, hnodup, ?_⟩
      intro id
      rw [hpushed id]
      by_cases hsame : id = target
      · subst hsame
        rw [Function.update_self, List.count_cons_self, ← List.count_pos_iff]
        simp only [List.mem_cons, true_or, true_and]
        omega
      · rw [hother id hsame]
        simp [hsame]

end Targets

section Peeling

variable {edges : List StepDependency} {stepIds visited stack : List String} {indeg : String → Int}

def Edge (edges : List StepDependency) (upstream downstream : String) : Prop :=
  ∃ e ∈ edges, e.upstreamStepId = upstream ∧ e.downstreamStepId = downstream

def openEdges (edges : List StepDependency) (visited : List String) (stepId : String) : Nat :=
  edges.countP fun e => decide (e.downstreamStepId = stepId ∧ e.upstreamStepId ∉ visited)

def targetsOf (edges : List StepDependency) (stepId : String) : List String :=
  (edges.filter fun e => decide (e.upstreamStepId = stepId)).map (·.downstreamStepId)

theorem openEdges_eq_zero {stepId : String} :
    openEdges edges visited stepId = 0 ↔ ∀ upstream, Edge edges upstream stepId → upstream ∈ visited := by
  simp only [openEdges, List.countP_eq_zero, decide_eq_true_eq, not_and, not_not]
  constructor
  · rintro h _ ⟨e, he, rfl, hdown⟩
    exact h e he hdown
  · intro h e he hdown
    exact h _ ⟨e, he, rfl, hdown⟩

/-- The edges counted off by a visit are those out of the visited step. -/
theorem openEdges_visit {upstream : String} (hfresh : upstream ∉ visited) (stepId : String) :
    openEdges edges visited stepId =
      openEdges edges (visited ++ [upstream]) stepId + (targetsOf edges upstream).count stepId := by
  induction edges with
  | nil => simp [openEdges, targetsOf]
  | cons e edges ih =>
    simp only [openEdges, targetsOf, List.countP_cons, List.filter_cons] at ih ⊢
    rw [ih]
    by_cases hup : e.upstreamStepId = upstream
    · by_cases hdown : e.downstreamStepId = stepId <;> simp [hup, hdown, hfresh]
      omega
    · by_cases hdown : e.downstreamStepId = stepId <;> simp [hup, hdown]
      omega

/-- Between two visits: the counts are those of open edges. -/
structure Visiting (edges : List StepDependency) (stepIds visited stack : List String)
    (indeg : String → Int) : Prop extends Peeled (Edge edges) stepIds visited stack where
  counts : ∀ id, indeg id = openEdges edges visited id

/-- One more step is visited. -/
theorem Visiting.visit {stepId : String} (hends : ∀ e ∈ edges, e.downstreamStepId ∈ stepIds)
    (h : Visiting edges stepIds visited (stepId :: stack) indeg) :
    Visiting edges stepIds (visited ++ [stepId]) (releaseTargets (targetsOf edges stepId) indeg stack).2
      (releaseTargets (targetsOf edges stepId) indeg stack).1 := by
  have hfresh : stepId ∉ visited := by
    have hnodup := h.nodup
    rw [List.nodup_append] at hnodup
    exact fun hmem => hnodup.2.2 stepId hmem stepId (by simp) rfl
  have hvisit : ∀ id, openEdges edges visited id =
      openEdges edges (visited ++ [stepId]) id + (targetsOf edges stepId).count id :=
    openEdges_visit hfresh
  obtain ⟨pushed, hstack, hnodup, hpushed⟩ :=
    @releaseTargets_pushed (targetsOf edges stepId) stack indeg fun id => by
      rw [h.counts id, hvisit id]
      omega
  have htargets : ∀ id ∈ targetsOf edges stepId, id ∈ stepIds ∧ Edge edges stepId id := by
    intro id hid
    obtain ⟨e, he, rfl⟩ := List.mem_map.mp hid
    obtain ⟨he, hup⟩ := List.mem_filter.mp he
    exact ⟨hends e he, e, he, of_decide_eq_true hup, rfl⟩
  have hold : ∀ id, id ∈ visited ++ stepId :: stack → id ∉ pushed := by
    intro id hid hnew
    obtain ⟨hknown, hedge⟩ := htargets id ((hpushed id).mp hnew).1
    exact hfresh ((h.reached id hknown).mp hid stepId hedge)
  have hperm : (visited ++ [stepId] ++ (pushed ++ stack)).Perm (visited ++ stepId :: stack ++ pushed) := by
    have hswap : (pushed ++ stack).Perm (stack ++ pushed) := List.perm_append_comm
    simpa using (hswap.cons stepId).append_left visited
  rw [hstack]
  refine ⟨⟨?_, ?_, ?_, ?_⟩, ?_⟩
  · rw [hperm.nodup_iff]
    apply h.nodup.append hnodup
    exact fun id hid hnew => hold id hid hnew
  · intro id hid
    rcases List.mem_append.mp (hperm.mem_iff.mp hid) with hid | hid
    · exact h.known id hid
    · exact (htargets id ((hpushed id).mp hid).1).1
  · intro id hid
    rw [hperm.mem_iff, List.mem_append, h.reached id hid, hpushed id, ← openEdges_eq_zero,
      ← openEdges_eq_zero, ← List.count_pos_iff, h.counts id, hvisit id]
    omega
  · intro id hid
    rcases List.mem_append.mp hid with hid | hid
    · exact h.accessible id hid
    · rw [List.mem_singleton.mp hid]
      exact h.acc_of_ready (List.mem_cons_self ..)
  · intro id
    rw [releaseTargets_counts, h.counts id, hvisit id]
    omega

/-- With enough fuel the loop ends with an empty stack. -/
theorem Visiting.countVisited (hends : ∀ e ∈ edges, e.downstreamStepId ∈ stepIds) {fuel : Nat}
    (hfuel : stepIds.length ≤ visited.length + fuel)
    (h : Visiting edges stepIds visited stack indeg) :
    ∃ rest indeg', Visiting edges stepIds (visited ++ rest) [] indeg' ∧
      ∀ extra, countVisited edges (fuel + extra) indeg stack = rest.length := by
  induction fuel generalizing visited stack indeg with
  | zero =>
    have hlength := h.length_le
    have hempty : stack = [] := List.eq_nil_of_length_eq_zero (by omega)
    subst hempty
    refine ⟨[], indeg, by simpa using h, fun extra => ?_⟩
    cases 0 + extra <;> rfl
  | succ fuel ih =>
    cases stack with
    | nil =>
      refine ⟨[], indeg, by simpa using h, fun extra => ?_⟩
      rw [Nat.add_right_comm]
      rfl
    | cons stepId stack =>
      have hnext := h.visit hends
      obtain ⟨rest, indeg', hend, hcount⟩ := ih (by simp; omega) hnext
      refine ⟨stepId :: rest, indeg', by simpa using hend, fun extra => ?_⟩
      rw [Nat.add_right_comm]
      exact congrArg (· + 1) (hcount extra)

/-- Before the first visit. -/
theorem Visiting.start (hids : stepIds.Nodup) :
    Visiting edges stepIds []
      (stepIds.filter fun id => decide ((openEdges edges [] id : Int) = 0)).reverse
      fun id => openEdges edges [] id := by
  have hmem : ∀ id, id ∈ (stepIds.filter fun id => decide ((openEdges edges [] id : Int) = 0)).reverse ↔
      id ∈ stepIds ∧ openEdges edges [] id = 0 := by
    intro id
    simp
  refine ⟨⟨?_, ?_, ?_, ?_⟩, fun _ => rfl⟩
  · exact List.nodup_reverse.mpr (hids.filter _)
  · intro id hid
    exact ((hmem id).mp hid).1
  · intro id hid
    rw [List.nil_append, hmem id, openEdges_eq_zero]
    exact and_iff_right hid
  · intro id hid
    cases hid

/-- How many steps `_has_cycle` visits within a number of rounds of its loop. -/
def visitedWithin (edges : List StepDependency) (stepIds : List String) (rounds : Nat) : Nat :=
  let known := edges.filter fun e =>
    decide (e.upstreamStepId ∈ stepIds ∧ e.downstreamStepId ∈ stepIds)
  let indeg := fun stepId =>
    ((known.filter fun e => decide (e.downstreamStepId = stepId)).length : Int)
  AgenticRag.Planner.PlanValidator.countVisited known rounds indeg
    (stepIds.filter fun stepId => decide (indeg stepId = 0)).reverse

theorem hasCycle_eq (edges : List StepDependency) (stepIds : List String) :
    hasCycle edges stepIds = decide (visitedWithin edges stepIds stepIds.length ≠ stepIds.length) :=
  rfl

/-- `_has_cycle` over edges between the ids: its loop ends, and it visits every step exactly
if there is no cycle. -/
theorem visitedWithin_iff (hids : stepIds.Nodup)
    (hends : ∀ upstream downstream, Edge edges upstream downstream →
      upstream ∈ stepIds ∧ downstream ∈ stepIds) :
    (visitedWithin edges stepIds stepIds.length = stepIds.length ↔ Acyclic (Edge edges)) ∧
      ∀ extra, visitedWithin edges stepIds (stepIds.length + extra) =
        visitedWithin edges stepIds stepIds.length := by
  have hends' : ∀ e ∈ edges, e.upstreamStepId ∈ stepIds ∧ e.downstreamStepId ∈ stepIds :=
    fun e he => hends _ _ ⟨e, he, rfl, rfl⟩
  have hknown : (edges.filter fun e =>
      decide (e.upstreamStepId ∈ stepIds ∧ e.downstreamStepId ∈ stepIds)) = edges := by
    apply List.filter_eq_self.mpr
    exact fun e he => decide_eq_true (hends' e he)
  have hdegree : ∀ id, (edges.filter fun e => decide (e.downstreamStepId = id)).length =
      openEdges edges [] id := by
    intro id
    simp [openEdges, List.countP_eq_length_filter]
  obtain ⟨rest, indeg', hend, hcount⟩ :=
    (Visiting.start hids).countVisited (fun e he => (hends' e he).2) (Nat.le_add_left ..)
  rw [List.nil_append] at hend
  have hvisited : ∀ extra, visitedWithin edges stepIds (stepIds.length + extra) = rest.length := by
    intro extra
    simp only [visitedWithin, hknown, hdegree]
    exact hcount extra
  have hexact := hvisited 0
  rw [Nat.add_zero] at hexact
  refine ⟨?_, fun extra => (hvisited extra).trans hexact.symm⟩
  rw [hexact]
  exact hend.exhausted_iff hids hends

end Peeling

section Plans

variable {plan : QueryPlan}

/-- The edges of a plan whose dependencies exist. -/
theorem edge_buildEdges (hexist : ∀ upstream downstream, plan.DependsOn upstream downstream →
    upstream ∈ plan.stepIds) : Edge (buildEdges plan) = plan.DependsOn := by
  funext upstream downstream
  apply propext
  constructor
  · rintro ⟨e, he, rfl, rfl⟩
    obtain ⟨step, hstep, he⟩ := List.mem_flatMap.mp he
    rcases List.mem_append.mp he with he | he
    · obtain ⟨dep, hdep, rfl⟩ := List.mem_map.mp he
      exact ⟨step, hstep, rfl, .inl (List.mem_filter.mp hdep).1⟩
    · obtain ⟨dep, hdep, rfl⟩ := List.mem_map.mp he
      exact ⟨step, hstep, rfl, .inr (List.mem_filter.mp hdep).1⟩
  · intro h
    have hknown := hexist upstream downstream h
    obtain ⟨step, hstep, hid, hdep⟩ := h
    rcases hdep with hdep | hdep
    · refine ⟨⟨upstream, step.stepId, false⟩, ?_, rfl, hid⟩
      apply List.mem_flatMap_of_mem hstep
      apply List.mem_append_left
      exact List.mem_map_of_mem (List.mem_filter.mpr ⟨hdep, decide_eq_true hknown⟩)
    · refine ⟨⟨upstream, step.stepId, true⟩, ?_, rfl, hid⟩
      apply List.mem_flatMap_of_mem hstep
      apply List.mem_append_right
      exact List.mem_map_of_mem (List.mem_filter.mpr ⟨hdep, decide_eq_true hknown⟩)

theorem edge_ends (hexist : ∀ upstream downstream, plan.DependsOn upstream downstream →
    upstream ∈ plan.stepIds) {upstream downstream : String}
    (h : Edge (buildEdges plan) upstream downstream) :
    upstream ∈ plan.stepIds ∧ downstream ∈ plan.stepIds := by
  rw [edge_buildEdges hexist] at h
  refine ⟨hexist upstream downstream h, ?_⟩
  obtain ⟨step, hstep, rfl, -⟩ := h
  exact List.mem_map_of_mem hstep

end Plans

end PlanValidator

/-- Layers that run a plan: each step once, in plan order within its layer, and after the
layers of its dependencies. -/
structure QueryPlan.LayeredBy (plan : QueryPlan) (layers : List (List String)) : Prop where
  each_once : layers.flatten.Perm plan.stepIds
  plan_order : ∀ layer ∈ layers, layer.Pairwise fun first second =>
    plan.stepIds.idxOf first < plan.stepIds.idxOf second
  after_dependencies : ∀ before layer after, layers = before ++ layer :: after →
    ∀ upstream, ∀ downstream ∈ layer, plan.DependsOn upstream downstream →
      upstream ∈ before.flatten

/-- The layers within a number of rounds of the loop. -/
def QueryPlan.layersWithin (plan : QueryPlan) (rounds : Nat) : List (List String) :=
  Layering.layersFrom PlanStep.stepId PlanStep.allDependencyIds plan.steps rounds
    (Layering.degree PlanStep.stepId PlanStep.allDependencyIds plan.steps)
    (Layering.inOrder plan.stepIds (plan.stepIds.filter fun stepId =>
      decide (Layering.degree PlanStep.stepId PlanStep.allDependencyIds plan.steps stepId = 0)))

section Layers

variable {plan : QueryPlan}

/-- The loop over the layers of an acyclic plan. -/
theorem layeredBy_buildTopologicalLayers (hids : plan.stepIds.Nodup)
    (hexist : ∀ upstream downstream, plan.DependsOn upstream downstream → upstream ∈ plan.stepIds)
    (hacyclic : Acyclic plan.DependsOn) : plan.LayeredBy (buildTopologicalLayers plan) := by
  have hdeps : ∀ step ∈ plan.steps, step.allDependencyIds.Nodup :=
    fun step _ => allDependencyIds_nodup step
  have hordered := Layering.layers_ordered hids hdeps
  obtain ⟨indeg, hend, -⟩ := Layering.layers_exhausted hids hdeps
  have hnodup := hend.nodup
  rw [List.append_nil, List.append_nil] at hnodup
  refine ⟨?_, ?_, ?_⟩
  · apply (List.perm_ext_iff_of_nodup hnodup hids).mpr
    intro id
    constructor
    · intro hid
      exact hend.known id (by simpa using hid)
    · intro hid
      apply hacyclic.mem_of_closed hexist ?_ hid
      intro id hid hfirsts
      obtain ⟨step, hstep, rfl⟩ := List.mem_map.mp hid
      have hreached := (hend.reached step hstep).mpr fun dep hdep =>
        hfirsts dep ⟨step, hstep, rfl, mem_allDependencyIds.mp hdep⟩
      simpa using hreached
  · intro layer hlayer
    have hsorted := Layering.layers_inOrder hlayer
    apply (hsorted.and (hordered.nodup hlayer)).imp_of_mem
    intro first second hfirst _ h
    apply lt_of_le_of_ne h.1
    intro hsame
    have hmem : first ∈ plan.stepIds := by
      apply hend.known
      rw [List.append_nil, List.append_nil]
      exact List.mem_flatten.mpr ⟨layer, hlayer, hfirst⟩
    exact h.2 ((List.idxOf_inj hmem).mp hsame)
  · intro before layer after hsplit upstream downstream hdownstream hdepends
    rw [buildTopologicalLayers] at hsplit
    rw [hsplit] at hordered
    obtain ⟨step, hstep, hid, hbefore⟩ := hordered.dependencies hdownstream
    obtain ⟨step', hstep', hid', hdep⟩ := hdepends
    obtain rfl := List.inj_on_of_nodup_map hids hstep hstep' (hid.trans hid'.symm)
    exact hbefore upstream (mem_allDependencyIds.mpr hdep)

/-- `_has_cycle` on a plan whose dependencies exist. -/
theorem hasCycle_buildEdges (hids : plan.stepIds.Nodup)
    (hexist : ∀ upstream downstream, plan.DependsOn upstream downstream → upstream ∈ plan.stepIds)
    {stepIds : List String} (hperm : stepIds.Perm plan.stepIds) :
    (PlanValidator.hasCycle (PlanValidator.buildEdges plan) stepIds = false ↔
        Acyclic plan.DependsOn) ∧
      ∀ extra, PlanValidator.visitedWithin (PlanValidator.buildEdges plan) stepIds
          (stepIds.length + extra) =
        PlanValidator.visitedWithin (PlanValidator.buildEdges plan) stepIds stepIds.length := by
  have hends : ∀ upstream downstream,
      PlanValidator.Edge (PlanValidator.buildEdges plan) upstream downstream →
        upstream ∈ stepIds ∧ downstream ∈ stepIds := by
    intro upstream downstream h
    rw [hperm.mem_iff, hperm.mem_iff]
    exact PlanValidator.edge_ends hexist h
  obtain ⟨hvisited, hends⟩ := PlanValidator.visitedWithin_iff (hperm.nodup_iff.mpr hids) hends
  rw [PlanValidator.hasCycle_eq, decide_eq_false_iff_not, not_not, hvisited,
    PlanValidator.edge_buildEdges hexist]
  exact ⟨Iff.rfl, hends⟩

/-- An accepted plan skips no step. -/
theorem layeredBy_of_accepted {ctx : SecurityContext} {registry : CorpusRegistry}
    (h : (PlanValidator.validate plan ctx registry).accepted = true) :
    plan.LayeredBy (buildTopologicalLayers plan) := by
  have hids := PlanValidator.nodup_of_accepted h
  have hnone := PlanValidator.accepted_iff.mp h
  simp only [PlanValidator.allViolations, List.append_eq_nil_iff, List.flatMap_eq_nil_iff] at hnone
  obtain ⟨⟨⟨⟨⟨⟨⟨⟨⟨hduplicates, hdependencies⟩, hcycles⟩, -⟩, -⟩, -⟩, -⟩, -⟩, -⟩, -⟩ := hnone
  have hexist : ∀ upstream downstream, plan.DependsOn upstream downstream →
      upstream ∈ plan.stepIds := by
    rintro upstream downstream ⟨step, hstep, -, hdep⟩
    have hviolations := hdependencies step hstep
    simp only [PlanValidator.dependencyViolations, List.append_eq_nil_iff, List.flatMap_eq_nil_iff]
      at hviolations
    have hknown : ∀ adverb, PlanValidator.dependencyViolation plan.stepIds step adverb upstream = [] →
        upstream ∈ plan.stepIds := by
      intro adverb hnone
      unfold PlanValidator.dependencyViolation at hnone
      split at hnone
      · cases hnone
      · split at hnone
        · cases hnone
        · exact not_not.mp ‹_›
    rcases hdep with hdep | hdep
    · exact hknown _ (hviolations.1.1 upstream hdep)
    · exact hknown _ (hviolations.1.2 upstream hdep)
  have hperm : plan.stepIds.eraseDups.Perm plan.stepIds := by
    apply (List.perm_ext_iff_of_nodup (nodup_eraseDups _) hids).mpr
    exact fun _ => List.mem_eraseDups
  have hcycle : PlanValidator.hasCycle (PlanValidator.buildEdges plan) plan.stepIds.eraseDups = false := by
    by_contra hcycle
    simp [PlanValidator.cycleViolations, hduplicates, hcycle] at hcycles
  apply layeredBy_buildTopologicalLayers hids hexist
  exact (hasCycle_buildEdges hids hexist hperm).1.mp hcycle

/-- Both loops on a plan with distinct ids whose dependencies exist, whatever order the set of its ids has:
the validator finds a cycle exactly if there is one, the layers of a plan without one are right, and more
turns of either loop would change nothing. -/
theorem plan_acyclic_layers (hids : plan.stepIds.Nodup)
    (hexist : ∀ upstream downstream, plan.DependsOn upstream downstream → upstream ∈ plan.stepIds) :
    (∀ stepIds, stepIds.Perm plan.stepIds →
      (PlanValidator.hasCycle (PlanValidator.buildEdges plan) stepIds = false ↔
        Acyclic plan.DependsOn) ∧
      ∀ extra, PlanValidator.visitedWithin (PlanValidator.buildEdges plan) stepIds
          (stepIds.length + extra) =
        PlanValidator.visitedWithin (PlanValidator.buildEdges plan) stepIds stepIds.length) ∧
    (Acyclic plan.DependsOn → plan.LayeredBy (buildTopologicalLayers plan)) ∧
    ∀ extra, plan.layersWithin (plan.steps.length + 1 + extra) = buildTopologicalLayers plan := by
  have hlayers := Layering.layers_exhausted hids fun step _ => allDependencyIds_nodup step
  obtain ⟨_, -, hstable⟩ := hlayers
  exact ⟨fun _ => hasCycle_buildEdges hids hexist, layeredBy_buildTopologicalLayers hids hexist, hstable⟩

end Layers

namespace Sample

/-- One step lists its dependency twice, and another one lists it as optional. -/
def chain : QueryPlan :=
  plan [step "find" [], step "compare" ["find", "find"],
    { step "extract" ["compare"] with optionalDependsOnStepIds := ["find"] }]

theorem chain_dependsOn {upstream downstream : String} (h : chain.DependsOn upstream downstream) :
    upstream ∈ chain.stepIds := by
  obtain ⟨step, hstep, -, hdep⟩ := h
  have hall : ∀ step ∈ chain.steps, ∀ dep ∈ step.allDependencyIds, dep ∈ chain.stepIds := by decide
  exact hall step hstep upstream (mem_allDependencyIds.mpr hdep)

end Sample

theorem plan_acyclic_layers_chain :
    Acyclic Sample.chain.DependsOn ∧
      Sample.chain.LayeredBy [["find"], ["compare"], ["extract"]] := by
  obtain ⟨hcycle, hlayers, -⟩ := plan_acyclic_layers (by decide : Sample.chain.stepIds.Nodup)
    fun _ _ => Sample.chain_dependsOn
  have hacyclic : Acyclic Sample.chain.DependsOn :=
    (hcycle ["extract", "find", "compare"] (by decide)).1.mp (by decide)
  have hbuilt : buildTopologicalLayers Sample.chain = [["find"], ["compare"], ["extract"]] := by
    decide
  exact ⟨hacyclic, hbuilt ▸ hlayers hacyclic⟩


end Planner

end AgenticRag
