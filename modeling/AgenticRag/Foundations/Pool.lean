import AgenticRag.Foundations.Program
import Mathlib.Logic.Relation

/-!
# Pools of running programs

Any number of programs run over one shared state, one operation at a time in any
order; a program may crash between two operations. Each thread remembers which
request started it and the operations it performed, so that a statement about a
run can refer to what a thread has seen.
-/

namespace AgenticRag

/-- A running program, the request that started it and what it did so far. -/
structure Thread (Op : Type → Type) (ε ι ρ : Type) : Type 1 where
  origin : ι
  past : List (Event Op ε)
  code : Prog Op ε ρ

structure Pool (σ : Type) (Op : Type → Type) (ε ι ρ : Type) : Type 1 where
  store : σ
  threads : List (Thread Op ε ι ρ)

/-- What the pool runs: how operations act on the state, what happens to it
between operations, and which request may start when. -/
structure System (σ : Type) (Op : Type → Type) (ε ι ρ : Type) : Type 1 where
  out : ∀ {β : Type}, Op β → σ → Except ε β → σ → Prop
  env : σ → σ → Prop
  start : ι → Prog Op ε ρ
  mayStart : Pool σ Op ε ι ρ → ι → Prop

/-- What happened in a step. -/
inductive Label (Op : Type → Type) (ε ι ρ : Type) : Type 1 where
  | env
  | spawn (i : ι)
  | perform (thread : Thread Op ε ι ρ) (event : Event Op ε)
  | finish (thread : Thread Op ε ι ρ)
  | crash (thread : Thread Op ε ι ρ)

namespace System

variable {σ : Type} {Op : Type → Type} {ε ι ρ : Type} (S : System σ Op ε ι ρ)

inductive Step : Pool σ Op ε ι ρ → Label Op ε ι ρ → Pool σ Op ε ι ρ → Prop
  | env {s s' : σ} {threads} (h : S.env s s') : Step ⟨s, threads⟩ .env ⟨s', threads⟩
  | spawn {P : Pool σ Op ε ι ρ} (i : ι) (h : S.mayStart P i) :
      Step P (.spawn i) ⟨P.store, P.threads ++ [⟨i, [], S.start i⟩]⟩
  | perform {s s' : σ} {before after} {i : ι} {past} {β : Type} {op : Op β}
      {next : Except ε β → Prog Op ε ρ} {r : Except ε β} (h : S.out op s r s') :
      Step ⟨s, before ++ ⟨i, past, .call op next⟩ :: after⟩
        (.perform ⟨i, past, .call op next⟩ ⟨op, r⟩)
        ⟨s', before ++ ⟨i, past ++ [⟨op, r⟩], next r⟩ :: after⟩
  | finish {s : σ} {before after} {i : ι} {past} {a : ρ} :
      Step ⟨s, before ++ ⟨i, past, .ret a⟩ :: after⟩ (.finish ⟨i, past, .ret a⟩)
        ⟨s, before ++ after⟩
  | crash {s : σ} {before after} {thread : Thread Op ε ι ρ} :
      Step ⟨s, before ++ thread :: after⟩ (.crash thread) ⟨s, before ++ after⟩

/-- A condition on the single steps of a run. -/
abbrev StepCondition (σ : Type) (Op : Type → Type) (ε ι ρ : Type) : Type 1 :=
  Pool σ Op ε ι ρ → Label Op ε ι ρ → Pool σ Op ε ι ρ → Prop

/-- A run all of whose steps meet a condition. -/
def Reaches (cond : StepCondition σ Op ε ι ρ) : Pool σ Op ε ι ρ → Pool σ Op ε ι ρ → Prop :=
  Relation.ReflTransGen fun P P' => ∃ label, S.Step P label P' ∧ cond P label P'

variable {S}

theorem Reaches.mono {cond cond' : StepCondition σ Op ε ι ρ}
    (h : ∀ P label P', cond P label P' → cond' P label P') {P P' : Pool σ Op ε ι ρ}
    (hrun : S.Reaches cond P P') : S.Reaches cond' P P' := by
  induction hrun with
  | refl => exact Relation.ReflTransGen.refl
  | tail _ hstep ih =>
    obtain ⟨label, hstep, hcond⟩ := hstep
    exact ih.tail ⟨label, hstep, h _ label _ hcond⟩

/-- A property of pools that every permitted step keeps holds throughout a run. -/
theorem Reaches.invariant {cond : StepCondition σ Op ε ι ρ}
    (I : Pool σ Op ε ι ρ → Prop)
    (hstep : ∀ P label P', I P → cond P label P' → S.Step P label P' → I P')
    {P P' : Pool σ Op ε ι ρ} (hrun : S.Reaches cond P P') (hI : I P) : I P' := by
  induction hrun with
  | refl => exact hI
  | tail _ h ih =>
    obtain ⟨label, h, hcond⟩ := h
    exact hstep _ label _ ih hcond h

section RelyGuarantee

/-- In runs that meet a condition, threads that respect the guarantee of their origin
under a common rely that contains everybody's guarantee. -/
structure DisciplinedBy (S : System σ Op ε ι ρ) (cond : StepCondition σ Op ε ι ρ)
    (rely : σ → σ → Prop) (R : ι → Regime σ Op ε) (s₀ : σ) : Prop where
  refl : ∀ s, rely s s
  trans : ∀ {s t u}, rely s t → rely t u → rely s u
  absorbs : ∀ i s s', rely s s' → (R i).rely s s'
  out : ∀ {s s' : σ} {before after : List (Thread Op ε ι ρ)} {i : ι} {past : List (Event Op ε)}
    {β : Type} {op : Op β} {next : Except ε β → Prog Op ε ρ} {r : Except ε β}, S.out op s r s' →
      cond ⟨s, before ++ ⟨i, past, .call op next⟩ :: after⟩
        (.perform ⟨i, past, .call op next⟩ ⟨op, r⟩)
        ⟨s', before ++ ⟨i, past ++ [⟨op, r⟩], next r⟩ :: after⟩ →
      (R i).out op s r s'
  env : ∀ s s', S.env s s' → rely s s'
  guar : ∀ i s s', (R i).guar s s' → rely s s'
  start : ∀ P i, S.mayStart P i → cond P (.spawn i) ⟨P.store, P.threads ++ [⟨i, [], S.start i⟩]⟩ →
    rely s₀ P.store → (S.start i).wp (R i) (fun _ _ => True) P.store

/-- The store evolved within the rely and every thread has kept its precondition. -/
structure Kept (rely : σ → σ → Prop) (R : ι → Regime σ Op ε) (s₀ : σ) (P : Pool σ Op ε ι ρ) :
    Prop where
  store : rely s₀ P.store
  threads : ∀ thread ∈ P.threads, thread.code.wp (R thread.origin) (fun _ _ => True) P.store

section Sound

variable {cond : StepCondition σ Op ε ι ρ} {rely : σ → σ → Prop} {R : ι → Regime σ Op ε} {s₀ : σ}

theorem Kept.empty (hd : DisciplinedBy S cond rely R s₀) :
    Kept rely R s₀ (⟨s₀, []⟩ : Pool σ Op ε ι ρ) :=
  ⟨hd.refl s₀, by simp⟩

/-- Something else happened to the store. -/
theorem Kept.rest (hd : DisciplinedBy S cond rely R s₀) {P : Pool σ Op ε ι ρ} (h : Kept rely R s₀ P)
    {s' : σ} (hrely : rely P.store s') : Kept rely R s₀ ⟨s', P.threads⟩ where
  store := hd.trans h.store hrely
  threads thread hthread := Prog.wp_rely (h.threads thread hthread) (hd.absorbs _ _ _ hrely)

/-- One step: what it does to the store is within the rely, and an operation is within
the guarantee of its thread. -/
theorem DisciplinedBy.step (hd : DisciplinedBy S cond rely R s₀) {P P' : Pool σ Op ε ι ρ}
    {label : Label Op ε ι ρ} (h : Kept rely R s₀ P) (hstep : S.Step P label P')
    (hcond : cond P label P') :
    Kept rely R s₀ P' ∧ rely P.store P'.store ∧
      ∀ thread event, label = .perform thread event →
        (R thread.origin).guar P.store P'.store := by
  cases hstep with
  | env henv =>
    refine ⟨h.rest hd (hd.env _ _ henv), hd.env _ _ henv, ?_⟩
    simp
  | spawn i hstart =>
    refine ⟨⟨h.store, ?_⟩, hd.refl _, by simp⟩
    intro thread hthread
    rcases List.mem_append.mp hthread with hold | hnew
    · exact h.threads thread hold
    · simp only [List.mem_singleton] at hnew
      rw [hnew]
      exact hd.start P i hstart hcond h.store
  | @perform s s' before after i past β op next r hout =>
    obtain ⟨hguar, hnext⟩ := h.threads ⟨i, past, .call op next⟩ (by simp) s ((R i).rely_refl s) r s'
      (hd.out hout hcond)
    have hrely := hd.guar i _ _ hguar
    refine ⟨⟨hd.trans h.store hrely, ?_⟩, hrely, ?_⟩
    · intro thread hthread
      rcases List.mem_append.mp hthread with hold | hthread
      · exact Prog.wp_rely (h.threads thread (by simp [hold])) (hd.absorbs _ _ _ hrely)
      · rcases List.mem_cons.mp hthread with rfl | hold
        · exact hnext
        · exact Prog.wp_rely (h.threads thread (by simp [hold])) (hd.absorbs _ _ _ hrely)
    · rintro thread event heq
      obtain ⟨rfl, -⟩ := Label.perform.inj heq
      exact hguar
  | finish =>
    refine ⟨⟨h.store, fun thread hthread => h.threads thread ?_⟩, hd.refl _, by simp⟩
    rcases List.mem_append.mp hthread with h | h <;> simp [h]
  | crash =>
    refine ⟨⟨h.store, fun thread hthread => h.threads thread ?_⟩, hd.refl _, by simp⟩
    rcases List.mem_append.mp hthread with h | h <;> simp [h]

theorem DisciplinedBy.run (hd : DisciplinedBy S cond rely R s₀) {P P' : Pool σ Op ε ι ρ}
    (h : Kept rely R s₀ P) (hrun : S.Reaches cond P P') :
    Kept rely R s₀ P' ∧ rely P.store P'.store := by
  induction hrun with
  | refl => exact ⟨h, hd.refl _⟩
  | tail _ hstep ih =>
    obtain ⟨label, hstep, hcond⟩ := hstep
    obtain ⟨hkept, hrely, -⟩ := hd.step ih.1 hstep hcond
    exact ⟨hkept, hd.trans ih.2 hrely⟩

/-- A relation that contains what the threads and the environment do between two steps
of anybody else. -/
structure Calm (S : System σ Op ε ι ρ) (R : ι → Regime σ Op ε) (Q : σ → σ → Prop) : Prop where
  refl : ∀ s, Q s s
  trans : ∀ {s t u}, Q s t → Q t u → Q s u
  env : ∀ s s', S.env s s' → Q s s'
  guar : ∀ i s s', (R i).guar s s' → Q s s'

theorem DisciplinedBy.calm (hd : DisciplinedBy S cond rely R s₀) : Calm S R rely :=
  ⟨hd.refl, hd.trans, hd.env, hd.guar⟩

theorem DisciplinedBy.step_calm (hd : DisciplinedBy S cond rely R s₀) {Q : σ → σ → Prop}
    (hcalm : Calm S R Q) {P P' : Pool σ Op ε ι ρ} {label : Label Op ε ι ρ} (h : Kept rely R s₀ P)
    (hstep : S.Step P label P') (hcond : cond P label P') : Q P.store P'.store := by
  have hguar := (hd.step h hstep hcond).2.2
  cases hstep with
  | env henv => exact hcalm.env _ _ henv
  | spawn i hstart => exact hcalm.refl _
  | perform hout => exact hcalm.guar _ _ _ (hguar _ _ rfl)
  | finish => exact hcalm.refl _
  | crash => exact hcalm.refl _

theorem DisciplinedBy.run_calm (hd : DisciplinedBy S cond rely R s₀) {Q : σ → σ → Prop}
    (hcalm : Calm S R Q) {P P' : Pool σ Op ε ι ρ} (h : Kept rely R s₀ P)
    (hrun : S.Reaches cond P P') : Q P.store P'.store := by
  induction hrun with
  | refl => exact hcalm.refl _
  | tail hbegins hstep ih =>
    obtain ⟨label, hstep, hcond⟩ := hstep
    exact hcalm.trans ih (hd.step_calm hcalm (hd.run h hbegins).1 hstep hcond)

end Sound

/-- Threads that respect one guarantee under one rely, in all runs. -/
structure Disciplined (S : System σ Op ε ι ρ) (R : Regime σ Op ε) (s₀ : σ) : Prop where
  out : ∀ {β : Type} (op : Op β) s r s', S.out op s r s' → R.out op s r s'
  env : ∀ s s', S.env s s' → R.rely s s'
  guar : ∀ s s', R.guar s s' → R.rely s s'
  start : ∀ i s, R.rely s₀ s → (S.start i).wp R (fun _ _ => True) s

theorem Disciplined.disciplinedBy {R : Regime σ Op ε} {s₀ : σ} (hd : Disciplined S R s₀)
    (cond : StepCondition σ Op ε ι ρ) : DisciplinedBy S cond R.rely (fun _ => R) s₀ where
  refl := R.rely_refl
  trans := R.rely_trans
  absorbs _ _ _ h := h
  out h _ := hd.out _ _ _ _ h
  env := hd.env
  guar _ := hd.guar
  start _ i _ _ hs := hd.start i _ hs

/-- The state evolves within the rely and every thread keeps its precondition. -/
theorem Disciplined.sound {R : Regime σ Op ε} {s₀ : σ} (hd : Disciplined S R s₀)
    {cond : StepCondition σ Op ε ι ρ} {P : Pool σ Op ε ι ρ}
    (hrun : S.Reaches cond ⟨s₀, []⟩ P) :
    R.rely s₀ P.store ∧ ∀ thread ∈ P.threads, thread.code.wp R (fun _ _ => True) P.store := by
  have hby := hd.disciplinedBy cond
  obtain ⟨⟨hs, hthreads⟩, -⟩ := hby.run (Kept.empty hby) hrun
  exact ⟨hs, hthreads⟩

/-- Later states of a run are reached within the rely from earlier ones. -/
theorem Disciplined.sound_between {R : Regime σ Op ε} {s₀ : σ} (hd : Disciplined S R s₀)
    {cond : StepCondition σ Op ε ι ρ} {P P' : Pool σ Op ε ι ρ}
    (hrun : S.Reaches cond ⟨s₀, []⟩ P) (hlater : S.Reaches cond P P') :
    R.rely P.store P'.store := by
  have hby := hd.disciplinedBy cond
  exact (hby.run (hby.run (Kept.empty hby) hrun).1 hlater).2

end RelyGuarantee

section OneAtATime

/-- A program runs only after the one before it has returned or crashed. Each origin
has a regime of its own, over the state and what the program did so far; `J` holds
between the runs. -/
structure OneAtATime (S : System σ Op ε ι ρ) (cond : StepCondition σ Op ε ι ρ)
    (R : ι → Regime (σ × List (Event Op ε)) Op ε) (J : σ → Prop) : Prop where
  mayStart : ∀ P i, S.mayStart P i → P.threads = []
  out : ∀ {s s' : σ} {i : ι} {past : List (Event Op ε)} {β : Type} {op : Op β}
    {next : Except ε β → Prog Op ε ρ} {r : Except ε β}, S.out op s r s' →
      cond ⟨s, [⟨i, past, .call op next⟩]⟩ (.perform ⟨i, past, .call op next⟩ ⟨op, r⟩)
        ⟨s', [⟨i, past ++ [⟨op, r⟩], next r⟩]⟩ →
      (R i).out op (s, past) r (s', past ++ [⟨op, r⟩])
  env : ∀ i past s s', S.env s s' → (R i).rely (s, past) (s', past)
  envBetween : ∀ s s', S.env s s' → J s → J s'
  guar : ∀ i past past' s s', (R i).guar (s, past) (s', past') → J s → J s'
  start : ∀ i s, J s → (S.start i).wp (R i) (fun _ _ => True) (s, [])

variable {cond : StepCondition σ Op ε ι ρ} {R : ι → Regime (σ × List (Event Op ε)) Op ε}
  {J : σ → Prop}

/-- At most one program runs, and it keeps its precondition. -/
theorem OneAtATime.sound (hone : OneAtATime S cond R J) {s₀ : σ} (hJ : J s₀)
    {P : Pool σ Op ε ι ρ} (hrun : S.Reaches cond ⟨s₀, []⟩ P) :
    J P.store ∧ (P.threads = [] ∨ ∃ thread, P.threads = [thread] ∧
      thread.code.wp (R thread.origin) (fun _ _ => True) (P.store, thread.past)) := by
  refine hrun.invariant (fun P => J P.store ∧ (P.threads = [] ∨ ∃ thread, P.threads = [thread] ∧
    thread.code.wp (R thread.origin) (fun _ _ => True) (P.store, thread.past))) ?_
    ⟨hJ, Or.inl rfl⟩
  intro P label P' hinv hcond hstep
  obtain ⟨hJ, hthreads⟩ := hinv
  cases hstep with
  | env h =>
    refine ⟨hone.envBetween _ _ h hJ, hthreads.imp id ?_⟩
    rintro ⟨thread, hthread, hwp⟩
    exact ⟨thread, hthread, Prog.wp_rely hwp (hone.env _ _ _ _ h)⟩
  | spawn i h =>
    refine ⟨hJ, Or.inr ⟨⟨i, [], S.start i⟩, ?_, hone.start i _ hJ⟩⟩
    rw [hone.mayStart P i h, List.nil_append]
  | @perform s s' before after i past β op next r h =>
    rcases hthreads with hnone | ⟨thread, hthread, hwp⟩
    · simp at hnone
    · simp only [List.append_eq_singleton_iff, List.cons.injEq, reduceCtorEq, and_false, or_false]
        at hthread
      obtain ⟨rfl, rfl, rfl⟩ := hthread
      obtain ⟨hguar, hnext⟩ := hwp (s, past) ((R i).rely_refl _) r _ (hone.out h hcond)
      exact ⟨hone.guar _ _ _ _ _ hguar hJ, Or.inr ⟨_, rfl, hnext⟩⟩
  | finish =>
    refine ⟨hJ, ?_⟩
    rcases hthreads with hnone | ⟨thread, hthread, -⟩
    · simp at hnone
    · simp only [List.append_eq_singleton_iff, List.cons.injEq, reduceCtorEq, and_false, or_false]
        at hthread
      obtain ⟨rfl, -, rfl⟩ := hthread
      exact Or.inl rfl
  | crash =>
    refine ⟨hJ, ?_⟩
    rcases hthreads with hnone | ⟨thread, hthread, -⟩
    · simp at hnone
    · simp only [List.append_eq_singleton_iff, List.cons.injEq, reduceCtorEq, and_false, or_false]
        at hthread
      obtain ⟨rfl, -, rfl⟩ := hthread
      exact Or.inl rfl

/-- Every operation performed in a run respects the guarantee of its program. -/
theorem OneAtATime.step_guar (hone : OneAtATime S cond R J) {s₀ : σ} (hJ : J s₀)
    {P P' : Pool σ Op ε ι ρ} (hrun : S.Reaches cond ⟨s₀, []⟩ P)
    {thread : Thread Op ε ι ρ} {event : Event Op ε}
    (hstep : S.Step P (.perform thread event) P') (hcond : cond P (.perform thread event) P') :
    (R thread.origin).guar (P.store, thread.past) (P'.store, thread.past ++ [event]) := by
  cases hstep with
  | @perform s s' before after i past β op next r h =>
    rcases (hone.sound hJ hrun).2 with hnone | ⟨thread, hthread, hwp⟩
    · simp at hnone
    · simp only [List.append_eq_singleton_iff, List.cons.injEq, reduceCtorEq, and_false, or_false]
        at hthread
      obtain ⟨rfl, rfl, rfl⟩ := hthread
      exact (hwp (s, past) ((R i).rely_refl _) r _ (hone.out h hcond)).1

end OneAtATime

section Schedules

/-- One decision of a scheduler; `choice` selects an outcome of the operation. -/
inductive Move (χ ι : Type) where
  | spawn (i : ι)
  | step (thread : Nat) (choice : χ)
  | crash (thread : Nat)

/-- A computable part of a system: one outcome per choice and a sufficient test
for admission. -/
structure Machine (S : System σ Op ε ι ρ) (χ : Type) where
  eval : ∀ {β : Type}, χ → Op β → σ → Except ε β × σ
  admits : Pool σ Op ε ι ρ → ι → Bool
  eval_out : ∀ {β : Type} (c : χ) (op : Op β) (s : σ), S.out op s (eval c op s).1 (eval c op s).2
  admits_mayStart : ∀ P i, admits P i = true → S.mayStart P i

variable {χ : Type} (M : Machine S χ)

/-- The step a move stands for, with its label; a move that is not possible is
skipped. -/
def Machine.move (P : Pool σ Op ε ι ρ) :
    Move χ ι → Option (Label Op ε ι ρ × Pool σ Op ε ι ρ)
  | .spawn i =>
    if M.admits P i then some (.spawn i, ⟨P.store, P.threads ++ [⟨i, [], S.start i⟩]⟩) else none
  | .step k choice =>
    match P.threads[k]? with
    | none => none
    | some thread =>
      match thread with
      | ⟨i, past, .ret a⟩ =>
        some (.finish ⟨i, past, .ret a⟩, ⟨P.store, P.threads.take k ++ P.threads.drop (k + 1)⟩)
      | ⟨i, past, .call op next⟩ =>
        let result := M.eval choice op P.store
        some (.perform ⟨i, past, .call op next⟩ ⟨op, result.1⟩,
          ⟨result.2, P.threads.take k ++
            ⟨i, past ++ [⟨op, result.1⟩], next result.1⟩ :: P.threads.drop (k + 1)⟩)
  | .crash k =>
    match P.threads[k]? with
    | none => none
    | some thread => some (.crash thread, ⟨P.store, P.threads.take k ++ P.threads.drop (k + 1)⟩)

/-- Run a schedule. -/
def Machine.play (P : Pool σ Op ε ι ρ) : List (Move χ ι) → Pool σ Op ε ι ρ
  | [] => P
  | m :: moves =>
    match M.move P m with
    | some (_, P') => Machine.play P' moves
    | none => Machine.play P moves

theorem Machine.move_step {P P' : Pool σ Op ε ι ρ} {m : Move χ ι} {label : Label Op ε ι ρ}
    (h : M.move P m = some (label, P')) : S.Step P label P' := by
  have hsplit : ∀ {k : Nat} {thread : Thread Op ε ι ρ}, P.threads[k]? = some thread →
      P = ⟨P.store, P.threads.take k ++ thread :: P.threads.drop (k + 1)⟩ := by
    intro k thread hk
    obtain ⟨hlt, hget⟩ := List.getElem?_eq_some_iff.mp hk
    rw [← hget, List.getElem_cons_drop, List.take_append_drop]
  cases m with
  | spawn i =>
    simp only [Machine.move] at h
    split at h
    · rename_i hadmits
      obtain ⟨rfl, rfl⟩ := Prod.mk.inj (Option.some.inj h)
      exact .spawn i (M.admits_mayStart P i hadmits)
    · simp at h
  | step k choice =>
    simp only [Machine.move] at h
    cases hk : P.threads[k]? with
    | none => simp [hk] at h
    | some thread =>
      rw [hsplit hk]
      obtain ⟨i, past, code⟩ := thread
      cases code with
      | ret a =>
        simp only [hk] at h
        obtain ⟨rfl, rfl⟩ := Prod.mk.inj (Option.some.inj h)
        exact .finish
      | call op next =>
        simp only [hk] at h
        obtain ⟨rfl, rfl⟩ := Prod.mk.inj (Option.some.inj h)
        exact .perform (M.eval_out choice op P.store)
  | crash k =>
    simp only [Machine.move] at h
    cases hk : P.threads[k]? with
    | none => simp [hk] at h
    | some thread =>
      rw [hsplit hk]
      simp only [hk] at h
      obtain ⟨rfl, rfl⟩ := Prod.mk.inj (Option.some.inj h)
      exact .crash

/-- A schedule is a run. -/
theorem Machine.play_reaches (P : Pool σ Op ε ι ρ) (moves : List (Move χ ι)) :
    S.Reaches (fun _ _ _ => True) P (M.play P moves) := by
  induction moves generalizing P with
  | nil => exact Relation.ReflTransGen.refl
  | cons m moves ih =>
    simp only [Machine.play]
    cases hmove : M.move P m with
    | none => exact ih P
    | some result =>
      obtain ⟨label, P'⟩ := result
      exact Relation.ReflTransGen.head ⟨label, M.move_step hmove, trivial⟩ (ih P')

/-- Whether every step of a schedule passes a test. -/
def Machine.passes (test : Pool σ Op ε ι ρ → Label Op ε ι ρ → Pool σ Op ε ι ρ → Bool)
    (P : Pool σ Op ε ι ρ) : List (Move χ ι) → Bool
  | [] => true
  | m :: moves =>
    match M.move P m with
    | some (label, P') => test P label P' && Machine.passes test P' moves
    | none => Machine.passes test P moves

/-- A schedule whose steps pass a test for the condition is a run under it. -/
theorem Machine.passes_reaches {cond : StepCondition σ Op ε ι ρ}
    {test : Pool σ Op ε ι ρ → Label Op ε ι ρ → Pool σ Op ε ι ρ → Bool}
    (htest : ∀ P label P', test P label P' = true → cond P label P') (P : Pool σ Op ε ι ρ)
    (moves : List (Move χ ι)) (h : M.passes test P moves = true) :
    S.Reaches cond P (M.play P moves) := by
  induction moves generalizing P with
  | nil => exact Relation.ReflTransGen.refl
  | cons m moves ih =>
    simp only [Machine.play]
    simp only [Machine.passes] at h
    cases hmove : M.move P m with
    | none =>
      simp only [hmove] at h
      exact ih P h
    | some result =>
      obtain ⟨label, P'⟩ := result
      simp only [hmove, Bool.and_eq_true] at h
      exact Relation.ReflTransGen.head ⟨label, M.move_step hmove, htest P label P' h.1⟩ (ih P' h.2)

end Schedules

end System

end AgenticRag
