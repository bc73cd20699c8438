import AgenticRag.Foundations.Pool

/-!
# Parties with opposite interests

A fixed set of running programs, no two for the same request. Each has a regime of its
own and relies on what the others guarantee; what a program does itself need not be
within its own rely, as when one of them takes a lock that the others then find taken.
-/

namespace AgenticRag.System

variable {σ : Type} {Op : Type → Type} {ε ι ρ : Type} {S : System σ Op ε ι ρ}
  {cond : StepCondition σ Op ε ι ρ} {R : ι → Regime σ Op ε} {post : ι → ρ → σ → Prop}

/-- In runs that meet a condition, each party relies on what the others guarantee. -/
structure Parties (S : System σ Op ε ι ρ) (cond : StepCondition σ Op ε ι ρ)
    (R : ι → Regime σ Op ε) : Prop where
  mayStart : ∀ P i, ¬S.mayStart P i
  out : ∀ {s s' : σ} {before after : List (Thread Op ε ι ρ)} {i : ι} {past : List (Event Op ε)}
    {β : Type} {op : Op β} {next : Except ε β → Prog Op ε ρ} {r : Except ε β}, S.out op s r s' →
      cond ⟨s, before ++ ⟨i, past, .call op next⟩ :: after⟩
        (.perform ⟨i, past, .call op next⟩ ⟨op, r⟩)
        ⟨s', before ++ ⟨i, past ++ [⟨op, r⟩], next r⟩ :: after⟩ →
      (R i).out op s r s'
  env : ∀ i s s', S.env s s' → (R i).rely s s'
  guar : ∀ i j, i ≠ j → ∀ s s', (R i).guar s s' → (R j).rely s s'

/-- No two threads have one origin, and every thread has kept its precondition. -/
structure Joined (R : ι → Regime σ Op ε) (post : ι → ρ → σ → Prop) (P : Pool σ Op ε ι ρ) :
    Prop where
  distinct : (P.threads.map (·.origin)).Nodup
  threads : ∀ thread ∈ P.threads, thread.code.wp (R thread.origin) (post thread.origin) P.store

/-- A thread less. -/
theorem Joined.drop {s : σ} {before after : List (Thread Op ε ι ρ)} {thread : Thread Op ε ι ρ}
    (h : Joined R post ⟨s, before ++ thread :: after⟩) : Joined R post ⟨s, before ++ after⟩ := by
  have hsub : (before ++ after).Sublist (before ++ thread :: after) :=
    (List.sublist_cons_self thread after).append_left before
  refine ⟨List.Nodup.sublist (hsub.map _) h.distinct, ?_⟩
  exact fun other hother => h.threads other (hsub.subset hother)

/-- The thread that moves is the only one of its origin. -/
theorem Joined.others {s : σ} {before after : List (Thread Op ε ι ρ)} {thread : Thread Op ε ι ρ}
    (h : Joined R post ⟨s, before ++ thread :: after⟩) {other : Thread Op ε ι ρ}
    (hother : other ∈ before ++ after) : other.origin ≠ thread.origin := by
  intro hsame
  have hnodup := h.distinct
  simp only [List.map_append, List.map_cons] at hnodup
  have hfresh := (List.nodup_middle.mp hnodup).notMem
  apply hfresh
  rw [← hsame, ← List.map_append]
  exact List.mem_map_of_mem hother

namespace Parties

/-- What one operation does to the state is within the guarantee of its thread, and
every thread keeps its precondition. -/
theorem perform (hparties : Parties S cond R) {s s' : σ} {before after : List (Thread Op ε ι ρ)}
    {i : ι} {past : List (Event Op ε)} {β : Type} {op : Op β}
    {next : Except ε β → Prog Op ε ρ} {r : Except ε β}
    (h : Joined R post ⟨s, before ++ ⟨i, past, .call op next⟩ :: after⟩) (hout : S.out op s r s')
    (hcond : cond ⟨s, before ++ ⟨i, past, .call op next⟩ :: after⟩
      (.perform ⟨i, past, .call op next⟩ ⟨op, r⟩)
      ⟨s', before ++ ⟨i, past ++ [⟨op, r⟩], next r⟩ :: after⟩) :
    (R i).guar s s' ∧
      Joined R post ⟨s', before ++ ⟨i, past ++ [⟨op, r⟩], next r⟩ :: after⟩ := by
  have hwp := h.threads ⟨i, past, .call op next⟩ (by simp)
  obtain ⟨hguar, hnext⟩ := hwp s ((R i).rely_refl s) r s' (hparties.out hout hcond)
  have hrest : ∀ thread ∈ before ++ after,
      thread.code.wp (R thread.origin) (post thread.origin) s' := by
    intro thread hthread
    have hdistinct : i ≠ thread.origin := (h.others hthread).symm
    have hold : thread ∈ before ++ ⟨i, past, .call op next⟩ :: after := by
      rcases List.mem_append.mp hthread with hmem | hmem <;> simp [hmem]
    exact Prog.wp_rely (h.threads thread hold) (hparties.guar i _ hdistinct s s' hguar)
  refine ⟨hguar, ?_, ?_⟩
  · have hdistinct := h.distinct
    simp only [List.map_append, List.map_cons] at hdistinct ⊢
    exact hdistinct
  · intro thread hthread
    rcases List.mem_append.mp hthread with hmem | hmem
    · exact hrest thread (by simp [hmem])
    · rcases List.mem_cons.mp hmem with rfl | hmem
      · exact hnext
      · exact hrest thread (by simp [hmem])

theorem step (hparties : Parties S cond R) {P P' : Pool σ Op ε ι ρ} {label : Label Op ε ι ρ}
    (h : Joined R post P) (hstep : S.Step P label P') (hcond : cond P label P') :
    Joined R post P' := by
  cases hstep with
  | env henv =>
    exact ⟨h.distinct, fun thread hthread =>
      Prog.wp_rely (h.threads thread hthread) (hparties.env _ _ _ henv)⟩
  | spawn i hstart => exact absurd hstart (hparties.mayStart P i)
  | perform hout => exact (hparties.perform h hout hcond).2
  | finish => exact h.drop
  | crash => exact h.drop

/-- Every thread keeps its precondition throughout a run. -/
theorem run (hparties : Parties S cond R) {P P' : Pool σ Op ε ι ρ} (h : Joined R post P)
    (hrun : S.Reaches cond P P') : Joined R post P' :=
  hrun.invariant (Joined R post) (fun _ _ _ hjoined hcond hstep => hparties.step hjoined hstep hcond) h

/-- A fact about the state that the surroundings and all guarantees keep. -/
theorem invariant (hparties : Parties S cond R) {I : σ → Prop}
    (henv : ∀ s s', S.env s s' → I s → I s') (hguar : ∀ i s s', (R i).guar s s' → I s → I s')
    {P P' : Pool σ Op ε ι ρ} (h : Joined R post P) (hI : I P.store) (hrun : S.Reaches cond P P') :
    I P'.store := by
  have hboth : Joined R post P' ∧ I P'.store := by
    apply hrun.invariant (fun P => Joined R post P ∧ I P.store) ?_ ⟨h, hI⟩
    rintro P label P' ⟨hjoined, hI⟩ hcond hstep
    refine ⟨hparties.step hjoined hstep hcond, ?_⟩
    cases hstep with
    | env hmoved => exact henv _ _ hmoved hI
    | perform hout => exact hguar _ _ _ (hparties.perform hjoined hout hcond).1 hI
    | _ => exact hI
  exact hboth.2

/-- Once a party has returned, everything that happens is within its rely. -/
theorem settled (hparties : Parties S cond R) {i : ι} {P P' : Pool σ Op ε ι ρ}
    (h : Joined R post P)
    (hreturned : ∀ thread ∈ P.threads, thread.origin = i → ∃ a, thread.code = .ret a)
    (hrun : S.Reaches cond P P') : (R i).rely P.store P'.store := by
  have hall : Joined R post P' ∧
      (∀ thread ∈ P'.threads, thread.origin = i → ∃ a, thread.code = .ret a) ∧
        (R i).rely P.store P'.store := by
    apply hrun.invariant (fun P' => Joined R post P' ∧
      (∀ thread ∈ P'.threads, thread.origin = i → ∃ a, thread.code = .ret a) ∧
        (R i).rely P.store P'.store) ?_ ⟨h, hreturned, (R i).rely_refl _⟩
    rintro Q label Q' ⟨hjoined, hreturned, hrely⟩ hcond hstep
    refine ⟨hparties.step hjoined hstep hcond, ?_⟩
    cases hstep with
    | env hmoved => exact ⟨hreturned, (R i).rely_trans hrely (hparties.env i _ _ hmoved)⟩
    | spawn j hstart => exact absurd hstart (hparties.mayStart Q j)
    | finish =>
      refine ⟨fun thread hthread => hreturned thread ?_, hrely⟩
      rcases List.mem_append.mp hthread with hmem | hmem <;> simp [hmem]
    | crash =>
      refine ⟨fun thread hthread => hreturned thread ?_, hrely⟩
      rcases List.mem_append.mp hthread with hmem | hmem <;> simp [hmem]
    | @perform s s' before after j past β op next r hout =>
      have hother : j ≠ i := by
        rintro rfl
        obtain ⟨a, hcode⟩ := hreturned ⟨j, past, .call op next⟩ (by simp) rfl
        cases hcode
      have hguar := (hparties.perform hjoined hout hcond).1
      refine ⟨?_, (R i).rely_trans hrely (hparties.guar j i hother _ _ hguar)⟩
      intro thread hthread horigin
      rcases List.mem_append.mp hthread with hmem | hmem
      · exact hreturned thread (by simp [hmem]) horigin
      · rcases List.mem_cons.mp hmem with rfl | hmem
        · exact absurd horigin hother
        · exact hreturned thread (by simp [hmem]) horigin
  exact hall.2.2

end Parties

end AgenticRag.System
