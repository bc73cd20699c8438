import AgenticRag.Foundations.Transition

/-!
# Fork and join

A batch of tasks over a shared state. Workers take the tasks in the order of submission and
run them step by step, in any interleaving; finished tasks are reported one by one, in any
order. A batch is complete when every task has been reported.
-/

namespace AgenticRag

namespace ForkJoin

variable {κ σ τ ρ : Type} [DecidableEq κ]

inductive Task (τ ρ : Type) where
  | waiting
  | running (t : τ)
  | finished (r : ρ)
  deriving DecidableEq, Repr

/-- How tasks run: where a worker begins, and its next step on the shared state. -/
structure Work (κ σ τ ρ : Type) where
  first : κ → τ
  step : τ → σ → (τ ⊕ ρ) × σ

/-- The submitted tasks, how far they are, and those reported so far. -/
structure Batch (κ τ ρ : Type) where
  keys : List κ
  task : κ → Task τ ρ
  reported : List κ

def Batch.submit (keys : List κ) : Batch κ τ ρ := ⟨keys, fun _ => .waiting, []⟩

def Batch.set (b : Batch κ τ ρ) (k : κ) (task : Task τ ρ) : Batch κ τ ρ :=
  { b with task := Function.update b.task k task }

/-- Every task has been reported. -/
def Batch.Complete (b : Batch κ τ ρ) : Prop := ∀ k ∈ b.keys, k ∈ b.reported

instance (b : Batch κ τ ρ) : Decidable b.Complete := inferInstanceAs (Decidable (∀ k ∈ b.keys, _))

def Task.isWaiting : Task τ ρ → Bool
  | .waiting => true
  | _ => false

def Task.isRunning : Task τ ρ → Bool
  | .running _ => true
  | _ => false

inductive Move (κ : Type) where
  | start
  | advance (k : κ)
  | report (k : κ)
  deriving DecidableEq, Repr

/-- One move with a bounded number of workers. -/
def next (W : Work κ σ τ ρ) (workers : Nat) : Transition (σ × Batch κ τ ρ) (Move κ) :=
  fun p move =>
    match move with
    | .start =>
      if (p.2.keys.filter fun k => (p.2.task k).isRunning).length < workers then
        (p.2.keys.find? fun k => (p.2.task k).isWaiting).map fun k =>
          (p.1, p.2.set k (.running (W.first k)))
      else none
    | .advance k =>
      match p.2.task k with
      | .running t =>
        match W.step t p.1 with
        | (.inl t', s) => some (s, p.2.set k (.running t'))
        | (.inr r, s) => some (s, p.2.set k (.finished r))
      | _ => none
    | .report k =>
      match p.2.task k with
      | .finished _ =>
        if k ∈ p.2.reported then none else some (p.1, { p.2 with reported := p.2.reported ++ [k] })
      | _ => none

/-- What a move does. -/
inductive Step (W : Work κ σ τ ρ) : σ × Batch κ τ ρ → σ × Batch κ τ ρ → Prop
  | started {s : σ} {b : Batch κ τ ρ} {k : κ} (hk : k ∈ b.keys) (hwaiting : b.task k = .waiting) :
      Step W (s, b) (s, b.set k (.running (W.first k)))
  | advanced {s s' : σ} {b : Batch κ τ ρ} {k : κ} {t t' : τ} (hrunning : b.task k = .running t)
      (hstep : W.step t s = (.inl t', s')) : Step W (s, b) (s', b.set k (.running t'))
  | returned {s s' : σ} {b : Batch κ τ ρ} {k : κ} {t : τ} {r : ρ} (hrunning : b.task k = .running t)
      (hstep : W.step t s = (.inr r, s')) : Step W (s, b) (s', b.set k (.finished r))
  | reported {s : σ} {b : Batch κ τ ρ} {k : κ} {r : ρ} (hfinished : b.task k = .finished r)
      (hnew : k ∉ b.reported) : Step W (s, b) (s, { b with reported := b.reported ++ [k] })

variable {W : Work κ σ τ ρ} {workers : Nat} {p p' : σ × Batch κ τ ρ}

theorem next_step {move : Move κ} (h : next W workers p move = some p') : Step W p p' := by
  obtain ⟨s, b⟩ := p
  cases move with
  | start =>
    simp only [next] at h
    split at h
    · obtain ⟨k, hfound, rfl⟩ := Option.map_eq_some_iff.mp h
      refine .started (List.mem_of_find?_eq_some hfound) ?_
      have hwaiting := List.find?_some hfound
      cases htask : b.task k with
      | waiting => rfl
      | running t => simp [htask, Task.isWaiting] at hwaiting
      | finished r => simp [htask, Task.isWaiting] at hwaiting
    · cases h
  | advance k =>
    simp only [next] at h
    cases htask : b.task k with
    | waiting => simp [htask] at h
    | finished r => simp [htask] at h
    | running t =>
      rcases hstep : W.step t s with ⟨t' | r, s'⟩
      · simp only [htask, hstep, Option.some.injEq] at h
        exact h ▸ .advanced htask hstep
      · simp only [htask, hstep, Option.some.injEq] at h
        exact h ▸ .returned htask hstep
  | report k =>
    simp only [next] at h
    cases htask : b.task k with
    | waiting => simp [htask] at h
    | running t => simp [htask] at h
    | finished r =>
      simp only [htask] at h
      split at h
      · cases h
      · rename_i hnew
        obtain rfl := Option.some.inj h
        exact .reported htask hnew

@[simp] theorem Batch.set_keys (b : Batch κ τ ρ) (k : κ) (task : Task τ ρ) :
    (b.set k task).keys = b.keys := rfl

@[simp] theorem Batch.set_reported (b : Batch κ τ ρ) (k : κ) (task : Task τ ρ) :
    (b.set k task).reported = b.reported := rfl

@[simp] theorem Batch.set_task_self (b : Batch κ τ ρ) (k : κ) (task : Task τ ρ) :
    (b.set k task).task k = task := Function.update_self _ _ _

theorem Batch.set_task_of_ne (b : Batch κ τ ρ) {k other : κ} (task : Task τ ρ) (h : other ≠ k) :
    (b.set k task).task other = b.task other := Function.update_of_ne h _ _

theorem Step.keys (h : Step W p p') : p'.2.keys = p.2.keys := by
  cases h <;> rfl

/-- What a step does to one task: nothing, or it begins, or it takes a step of its own. -/
inductive TaskStep (W : Work κ σ τ ρ) (p p' : σ × Batch κ τ ρ) (k : κ) : Prop
  | same (htask : p'.2.task k = p.2.task k)
  | began (hk : k ∈ p.2.keys) (hwaiting : p.2.task k = .waiting) (htask : p'.2.task k = .running (W.first k))
  | advanced {t t' : τ} (hrunning : p.2.task k = .running t) (hstep : W.step t p.1 = (.inl t', p'.1))
      (htask : p'.2.task k = .running t')
  | returned {t : τ} {r : ρ} (hrunning : p.2.task k = .running t) (hstep : W.step t p.1 = (.inr r, p'.1))
      (htask : p'.2.task k = .finished r)

theorem Step.task (h : Step W p p') (k : κ) : TaskStep W p p' k := by
  cases h with
  | @started s b other hk hwaiting =>
    by_cases hother : k = other
    · subst hother
      exact .began hk hwaiting (Batch.set_task_self _ _ _)
    · exact .same (Batch.set_task_of_ne _ _ hother)
  | @advanced s s' b other t t' hrunning hstep =>
    by_cases hother : k = other
    · subst hother
      exact .advanced hrunning hstep (Batch.set_task_self _ _ _)
    · exact .same (Batch.set_task_of_ne _ _ hother)
  | @returned s s' b other t r hrunning hstep =>
    by_cases hother : k = other
    · subst hother
      exact .returned hrunning hstep (Batch.set_task_self _ _ _)
    · exact .same (Batch.set_task_of_ne _ _ hother)
  | reported => exact .same rfl

def Task.after : τ ⊕ ρ → Task τ ρ
  | .inl t => .running t
  | .inr r => .finished r

/-- Either one running task takes its step, or the shared state stays and tasks at most
begin. -/
theorem Step.turn (h : Step W p p') :
    (p'.1 = p.1 ∧ ∀ k, p'.2.task k = p.2.task k ∨
      (k ∈ p.2.keys ∧ p.2.task k = .waiting ∧ p'.2.task k = .running (W.first k))) ∨
    ∃ k t next, p.2.task k = .running t ∧ W.step t p.1 = (next, p'.1) ∧
      p'.2 = p.2.set k (.after next) := by
  cases h with
  | @started s b k hk hwaiting =>
    refine Or.inl ⟨rfl, fun other => ?_⟩
    by_cases hother : other = k
    · subst hother
      exact Or.inr ⟨hk, hwaiting, Batch.set_task_self _ _ _⟩
    · exact Or.inl (Batch.set_task_of_ne _ _ hother)
  | @advanced s s' b k t t' hrunning hstep => exact Or.inr ⟨k, t, .inl t', hrunning, hstep, rfl⟩
  | @returned s s' b k t r hrunning hstep => exact Or.inr ⟨k, t, .inr r, hrunning, hstep, rfl⟩
  | reported => exact Or.inl ⟨rfl, fun _ => Or.inl rfl⟩

/-- A finished task does not change. -/
theorem Step.finished (h : Step W p p') {k : κ} {r : ρ} (hfinished : p.2.task k = .finished r) :
    p'.2.task k = .finished r := by
  cases h.task k with
  | same htask => exact htask.trans hfinished
  | began hk hwaiting => simp [hfinished] at hwaiting
  | advanced hrunning => simp [hfinished] at hrunning
  | returned hrunning => simp [hfinished] at hrunning

section Tasks

/-- A property of the single tasks: it holds while a task waits, where a worker begins, and
after every step. -/
structure TaskInvariant (W : Work κ σ τ ρ) (P : κ → Task τ ρ → Prop) (keys : List κ) : Prop where
  first : ∀ k ∈ keys, P k .waiting → P k (.running (W.first k))
  advance : ∀ {k t s t' s'}, P k (.running t) → W.step t s = (.inl t', s') → P k (.running t')
  finish : ∀ {k t s r s'}, P k (.running t) → W.step t s = (.inr r, s') → P k (.finished r)

theorem TaskInvariant.step {P : κ → Task τ ρ → Prop} (hP : TaskInvariant W P p.2.keys) (h : Step W p p')
    (hp : ∀ k, P k (p.2.task k)) : ∀ k, P k (p'.2.task k) := by
  intro k
  cases h.task k with
  | same htask => exact htask ▸ hp k
  | began hk hwaiting htask => exact htask ▸ hP.first k hk (hwaiting ▸ hp k)
  | advanced hrunning hstep htask => exact htask ▸ hP.advance (hrunning ▸ hp k) hstep
  | returned hrunning hstep htask => exact htask ▸ hP.finish (hrunning ▸ hp k) hstep

end Tasks

section Reports

/-- Only submitted tasks run, and only finished tasks are reported, once each. -/
structure WellFormed (b : Batch κ τ ρ) : Prop where
  outside : ∀ k, k ∉ b.keys → b.task k = .waiting
  nodup : b.reported.Nodup
  finished : ∀ k ∈ b.reported, ∃ r, b.task k = .finished r

omit [DecidableEq κ] in
theorem WellFormed.submit (keys : List κ) : WellFormed (Batch.submit keys : Batch κ τ ρ) :=
  ⟨fun _ _ => rfl, List.nodup_nil, by simp [Batch.submit]⟩

/-- A task that has begun was submitted. -/
theorem WellFormed.submitted {b : Batch κ τ ρ} (h : WellFormed b) {k : κ} (hbegun : b.task k ≠ .waiting) :
    k ∈ b.keys := by
  by_contra hout
  exact hbegun (h.outside k hout)

theorem WellFormed.step (h : WellFormed p.2) (hstep : Step W p p') : WellFormed p'.2 := by
  have hset : ∀ {b : Batch κ τ ρ} {k : κ} {task : Task τ ρ}, WellFormed b → k ∈ b.keys →
      (∀ r, b.task k ≠ .finished r) → WellFormed (b.set k task) := by
    intro b k task hb hk hunfinished
    refine ⟨fun other hother => ?_, hb.nodup, fun other hother => ?_⟩
    · have hne : other ≠ k := fun hsame => hother (hsame.symm ▸ hk)
      rw [Batch.set_task_of_ne _ _ hne]
      exact hb.outside other hother
    · obtain ⟨r, hr⟩ := hb.finished other hother
      have hne : other ≠ k := fun hsame => hunfinished r (hsame.symm ▸ hr)
      rw [Batch.set_task_of_ne _ _ hne]
      exact ⟨r, hr⟩
  cases hstep with
  | started hk hwaiting => exact hset h hk (by simp [hwaiting])
  | advanced hrunning => exact hset h (h.submitted (by simp [hrunning])) (by simp [hrunning])
  | returned hrunning => exact hset h (h.submitted (by simp [hrunning])) (by simp [hrunning])
  | @reported s b k r hfinished hnew =>
    refine ⟨h.outside, ?_, fun other hother => ?_⟩
    · rw [List.nodup_append]
      refine ⟨h.nodup, List.nodup_singleton k, fun first hfirst second hsecond => ?_⟩
      obtain rfl := List.mem_singleton.mp hsecond
      exact fun hsame => hnew (hsame ▸ hfirst)
    · rcases List.mem_append.mp hother with hold | hlast
      · exact h.finished other hold
      · obtain rfl := List.mem_singleton.mp hlast
        exact ⟨r, hfinished⟩

/-- A complete batch reported its tasks in some order. -/
theorem WellFormed.reported_perm {b : Batch κ τ ρ} (h : WellFormed b) (hkeys : b.keys.Nodup)
    (hcomplete : b.Complete) : b.reported.Perm b.keys := by
  refine (List.perm_ext_iff_of_nodup h.nodup hkeys).mpr fun k => ⟨fun hk => ?_, hcomplete k⟩
  obtain ⟨r, hr⟩ := h.finished k hk
  exact h.submitted (by simp [hr])

end Reports

section Costs

variable {cost : σ → Nat} {destiny : τ → ρ × Nat} {limit : Nat}

/-- It is known how every task ends and what it spends until then, as long as that much is
left. -/
structure Destined (W : Work κ σ τ ρ) (cost : σ → Nat) (destiny : τ → ρ × Nat) (limit : Nat) : Prop where
  advance : ∀ {t s t' s'}, W.step t s = (.inl t', s') → cost s + (destiny t).2 ≤ limit →
    (destiny t').1 = (destiny t).1 ∧ cost s' + (destiny t').2 = cost s + (destiny t).2
  finish : ∀ {t s r s'}, W.step t s = (.inr r, s') → cost s + (destiny t).2 ≤ limit →
    r = (destiny t).1 ∧ cost s' = cost s + (destiny t).2

/-- What a task still spends. -/
def allowance (W : Work κ σ τ ρ) (destiny : τ → ρ × Nat) (k : κ) : Task τ ρ → Nat
  | .waiting => (destiny (W.first k)).2
  | .running t => (destiny t).2
  | .finished _ => 0

/-- What the tasks of a batch still spend together. -/
def reserve (W : Work κ σ τ ρ) (destiny : τ → ρ × Nat) (b : Batch κ τ ρ) : Nat :=
  (b.keys.map fun k => allowance W destiny k (b.task k)).sum

/-- A task ends as its beginning lets foresee. -/
def Foreseen (W : Work κ σ τ ρ) (destiny : τ → ρ × Nat) (k : κ) : Task τ ρ → Prop
  | .waiting => True
  | .running t => (destiny t).1 = (destiny (W.first k)).1
  | .finished r => r = (destiny (W.first k)).1

omit [DecidableEq κ] in
theorem allowance_le_reserve (W : Work κ σ τ ρ) (destiny : τ → ρ × Nat) {b : Batch κ τ ρ} {k : κ}
    (hk : k ∈ b.keys) : allowance W destiny k (b.task k) ≤ reserve W destiny b :=
  List.single_le_sum (by simp) _ (List.mem_map_of_mem hk)

theorem reserve_set (W : Work κ σ τ ρ) (destiny : τ → ρ × Nat) {b : Batch κ τ ρ} (hkeys : b.keys.Nodup)
    {k : κ} (hk : k ∈ b.keys) (task : Task τ ρ) :
    reserve W destiny (b.set k task) + allowance W destiny k (b.task k) =
      reserve W destiny b + allowance W destiny k task := by
  have hrest : ((b.keys.erase k).map fun other => allowance W destiny other ((b.set k task).task other)) =
      (b.keys.erase k).map fun other => allowance W destiny other (b.task other) := by
    apply List.map_congr_left
    intro other hother
    rw [Batch.set_task_of_ne _ _ ((hkeys.mem_erase_iff).mp hother).1]
  have hnew := List.sum_map_erase (fun other => allowance W destiny other ((b.set k task).task other)) hk
  have hold := List.sum_map_erase (fun other => allowance W destiny other (b.task other)) hk
  rw [hrest, Batch.set_task_self] at hnew
  unfold reserve
  rw [Batch.set_keys, ← hnew, ← hold]
  omega

omit [DecidableEq κ] in
@[simp] theorem reserve_submit (W : Work κ σ τ ρ) (destiny : τ → ρ × Nat) (keys : List κ) :
    reserve W destiny (.submit keys) = (keys.map fun k => (destiny (W.first k)).2).sum := rfl

omit [DecidableEq κ] in
theorem reserve_finished (W : Work κ σ τ ρ) (destiny : τ → ρ × Nat) {b : Batch κ τ ρ}
    (h : ∀ k ∈ b.keys, ∃ r, b.task k = .finished r) : reserve W destiny b = 0 := by
  rw [reserve, List.sum_eq_zero_iff]
  intro n hn
  obtain ⟨k, hk, rfl⟩ := List.mem_map.mp hn
  obtain ⟨r, hr⟩ := h k hk
  rw [hr]
  rfl

/-- What has been spent and what is still to be spent stay the same together. -/
theorem Step.spends (hW : Destined W cost destiny limit) (hwell : WellFormed p.2) (hkeys : p.2.keys.Nodup)
    (h : Step W p p') (hlimit : cost p.1 + reserve W destiny p.2 ≤ limit) :
    cost p'.1 + reserve W destiny p'.2 = cost p.1 + reserve W destiny p.2 := by
  cases h with
  | @started s b k hk hwaiting =>
    have hset := reserve_set W destiny hkeys hk (.running (W.first k))
    rw [hwaiting] at hset
    simp only [allowance] at hset ⊢
    omega
  | @advanced s s' b k t t' hrunning hstep =>
    have hk : k ∈ b.keys := hwell.submitted (by simp [hrunning])
    have hset := reserve_set W destiny hkeys hk (.running t')
    have hle := allowance_le_reserve W destiny hk
    rw [hrunning] at hset hle
    simp only [allowance] at hset hle hlimit ⊢
    have hspent := (hW.advance hstep (by omega)).2
    omega
  | @returned s s' b k t r hrunning hstep =>
    have hk : k ∈ b.keys := hwell.submitted (by simp [hrunning])
    have hset := reserve_set W destiny hkeys hk (.finished r)
    have hle := allowance_le_reserve W destiny hk
    rw [hrunning] at hset hle
    simp only [allowance] at hset hle hlimit ⊢
    have hspent := (hW.finish hstep (by omega)).2
    omega
  | reported => rfl

theorem Step.foreseen (hW : Destined W cost destiny limit) (hwell : WellFormed p.2) (h : Step W p p')
    (hlimit : cost p.1 + reserve W destiny p.2 ≤ limit)
    (hp : ∀ k, Foreseen W destiny k (p.2.task k)) : ∀ k, Foreseen W destiny k (p'.2.task k) := by
  intro k
  have hafford : ∀ {t : τ}, p.2.task k = .running t → cost p.1 + (destiny t).2 ≤ limit := by
    intro t hrunning
    have hle := allowance_le_reserve W destiny (hwell.submitted (by simp [hrunning]) : k ∈ p.2.keys)
    rw [hrunning] at hle
    simp only [allowance] at hle
    omega
  have hk := hp k
  cases h.task k with
  | same htask => exact htask ▸ hk
  | began _ _ htask =>
    rw [htask]
    rfl
  | advanced hrunning hstep htask =>
    rw [hrunning] at hk
    rw [htask]
    exact (hW.advance hstep (hafford hrunning)).1.trans hk
  | returned hrunning hstep htask =>
    rw [hrunning] at hk
    rw [htask]
    exact (hW.finish hstep (hafford hrunning)).1.trans hk

end Costs

section Progress

abbrev Runs (W : Work κ σ τ ρ) (workers : Nat) : σ × Batch κ τ ρ → σ × Batch κ τ ρ → Prop :=
  Transition.Reaches (next W workers) fun _ _ => True

/-- Every task ends after finitely many steps. -/
def Terminating (W : Work κ σ τ ρ) (rank : τ → Nat) : Prop :=
  ∀ {t s t' s'}, W.step t s = (.inl t', s') → rank t' < rank t

variable {rank : τ → Nat}

theorem runs_to_result (workers : Nat) (hW : Terminating W rank) (s : σ) {b : Batch κ τ ρ} {k : κ} {t : τ}
    (hrunning : b.task k = .running t) :
    ∃ s' r, Runs W workers (s, b) (s', b.set k (.finished r)) := by
  induction hrank : rank t using Nat.strong_induction_on generalizing s b t with
  | _ n ih =>
    rcases hstep : W.step t s with ⟨t' | r, s'⟩
    · have hmove : next W workers (s, b) (.advance k) = some (s', b.set k (.running t')) := by
        simp [next, hrunning, hstep]
      obtain ⟨s'', r, hrest⟩ := ih (rank t') (hrank ▸ hW hstep) s' (b.set_task_self k (.running t')) rfl
      have hset : (b.set k (.running t')).set k (.finished r) = b.set k (.finished r) := by
        simp [Batch.set]
      exact ⟨s'', r, (Transition.Reaches.refl.tail _ trivial hmove).trans (hset ▸ hrest)⟩
    · refine ⟨s', r, Transition.Reaches.refl.tail (.advance k) trivial ?_⟩
      simp [next, hrunning, hstep]

def Task.isOpen : Task τ ρ → Bool
  | .finished _ => false
  | _ => true

def openKeys (b : Batch κ τ ρ) : List κ := b.keys.filter fun k => (b.task k).isOpen

theorem openKeys_set_finished {b : Batch κ τ ρ} {k : κ} (hk : k ∈ b.keys) (hopen : (b.task k).isOpen = true)
    (r : ρ) : (openKeys (b.set k (.finished r))).length < (openKeys b).length := by
  have hsublist : openKeys (b.set k (.finished r)) = (openKeys b).filter fun other => decide (other ≠ k) := by
    unfold openKeys
    rw [List.filter_filter]
    apply List.filter_congr
    intro other _
    by_cases hother : other = k
    · subst hother
      simp [Task.isOpen]
    · simp [Batch.set_task_of_ne _ _ hother, hother]
  rw [hsublist]
  refine List.length_filter_lt_length_iff_exists.mpr ⟨k, ?_, by simp⟩
  exact List.mem_filter.mpr ⟨hk, hopen⟩

/-- All tasks can be brought to an end, without a report. -/
theorem runs_to_results (hW : Terminating W rank) (hworkers : 0 < workers) (s : σ) (b : Batch κ τ ρ) :
    ∃ s' b', Runs W workers (s, b) (s', b') ∧ b'.keys = b.keys ∧ b'.reported = b.reported ∧
      ∀ k ∈ b'.keys, ∃ r, b'.task k = .finished r := by
  induction hcount : (openKeys b).length using Nat.strong_induction_on generalizing s b with
  | _ n ih =>
    have hclose : ∀ (s : σ) (b' : Batch κ τ ρ) {k : κ} {t : τ}, b'.keys = b.keys →
        b'.reported = b.reported → b'.task k = .running t → k ∈ b.keys →
        (openKeys b').length ≤ n →
        ∃ s' b'', Runs W workers (s, b') (s', b'') ∧ b''.keys = b.keys ∧ b''.reported = b.reported ∧
          ∀ k ∈ b''.keys, ∃ r, b''.task k = .finished r := by
      intro s b' k t hkeys hreported hrunning hk hle
      obtain ⟨s', r, hrun⟩ := runs_to_result workers hW s hrunning
      have hless := openKeys_set_finished (hkeys ▸ hk) (by simp [hrunning, Task.isOpen]) r
      obtain ⟨s'', b'', hrest, hkeys', hreported', hall⟩ := ih _ (hless.trans_le hle) s'
        (b'.set k (.finished r)) rfl
      exact ⟨s'', b'', hrun.trans hrest, hkeys'.trans hkeys, hreported'.trans hreported, hall⟩
    by_cases hrunning : ∃ k ∈ b.keys, (b.task k).isRunning = true
    · obtain ⟨k, hk, hrunning⟩ := hrunning
      cases htask : b.task k with
      | waiting => simp [htask, Task.isRunning] at hrunning
      | finished r => simp [htask, Task.isRunning] at hrunning
      | running t => exact hclose s b rfl rfl htask hk hcount.le
    · have hidle : (b.keys.filter fun k => (b.task k).isRunning) = [] := by
        rw [List.filter_eq_nil_iff]
        exact fun k hk h => hrunning ⟨k, hk, h⟩
      cases hwaiting : b.keys.find? fun k => (b.task k).isWaiting with
      | none =>
        refine ⟨s, b, .refl, rfl, rfl, fun k hk => ?_⟩
        have hnot := List.find?_eq_none.mp hwaiting k hk
        cases htask : b.task k with
        | waiting => simp [htask, Task.isWaiting] at hnot
        | running t => exact absurd ⟨k, hk, by simp [htask, Task.isRunning]⟩ hrunning
        | finished r => exact ⟨r, rfl⟩
      | some k =>
        have hk := List.mem_of_find?_eq_some hwaiting
        have hmove : next W workers (s, b) .start = some (s, b.set k (.running (W.first k))) := by
          simp [next, hidle, hwaiting, hworkers]
        have hsame : openKeys (b.set k (.running (W.first k))) = openKeys b := by
          apply List.filter_congr
          intro other _
          by_cases hother : other = k
          · subst hother
            have hfound := List.find?_some hwaiting
            cases htask : b.task other with
            | waiting => simp [Task.isOpen]
            | running t => simp [htask, Task.isWaiting] at hfound
            | finished r => simp [htask, Task.isWaiting] at hfound
          · rw [Batch.set_task_of_ne _ _ hother]
        obtain ⟨s', b', hrest, hends⟩ := hclose s (b.set k (.running (W.first k))) rfl rfl
          (Batch.set_task_self _ _ _) hk (by rw [hsame, hcount])
        exact ⟨s', b', (Transition.Reaches.refl.tail _ trivial hmove).trans hrest, hends⟩

/-- Finished tasks can be reported in any order. -/
theorem runs_to_reports {s : σ} {b : Batch κ τ ρ} (hfinished : ∀ k ∈ b.keys, ∃ r, b.task k = .finished r)
    {order : List κ} (hnodup : (b.reported ++ order).Nodup) (horder : ∀ k ∈ order, k ∈ b.keys) :
    Runs W workers (s, b) (s, { b with reported := b.reported ++ order }) := by
  induction order generalizing b with
  | nil => simpa using Transition.Reaches.refl
  | cons k order ih =>
    obtain ⟨r, hr⟩ := hfinished k (horder k (by simp))
    have hnew : k ∉ b.reported := by
      rw [List.nodup_append] at hnodup
      exact fun hmem => hnodup.2.2 k hmem k (by simp) rfl
    have hmove : next W workers (s, b) (.report k) =
        some (s, { b with reported := b.reported ++ [k] }) := by
      simp [next, hr, hnew]
    have hrest := ih (b := { b with reported := b.reported ++ [k] }) hfinished (by simpa using hnodup)
      fun other hother => horder other (List.mem_cons_of_mem _ hother)
    rw [List.append_assoc] at hrest
    exact (Transition.Reaches.refl.tail _ trivial hmove).trans hrest

end Progress

end ForkJoin

end AgenticRag
