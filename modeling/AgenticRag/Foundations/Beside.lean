import AgenticRag.Foundations.Pool

/-!
# One call beside a pool

A designated program runs interleaved with the threads of a pool. It starts and
returns while other threads are in the middle of theirs, so a statement can speak
of the states at its start and at its return.
-/

namespace AgenticRag

/-- A performed operation with the states around it. -/
structure Visit (σ : Type) (Op : Type → Type) (ε : Type) : Type 1 where
  before : σ
  event : Event Op ε
  after : σ

/-- A pool, and beside it one more program with the operations it performed. -/
structure Beside (σ : Type) (Op : Type → Type) (ε ι ρ α : Type) : Type 1 where
  pool : Pool σ Op ε ι ρ
  past : List (Visit σ Op ε)
  code : Prog Op ε α

/-- The surroundings `R` for a program that keeps the record of its visits. -/
abbrev Regime.visiting {σ : Type} {Op : Type → Type} {ε : Type} (R : Regime σ Op ε)
    (allowed : List (Visit σ Op ε) → σ → ∀ {β : Type}, Op β → Prop) :
    Regime (σ × List (Visit σ Op ε)) Op ε :=
  R.recorded (fun op s r s' => ⟨s, ⟨op, r⟩, s'⟩) allowed

namespace System

variable {σ : Type} {Op : Type → Type} {ε ι ρ α : Type} (S : System σ Op ε ι ρ)

/-- A condition on the operations of the designated program: what it did before, the
state the operation meets, and the operation. -/
abbrev CallCondition (σ : Type) (Op : Type → Type) (ε : Type) : Type 1 :=
  List (Visit σ Op ε) → σ → ∀ {β : Type}, Op β → Prop

inductive BesideStep (cond : StepCondition σ Op ε ι ρ) (allowed : CallCondition σ Op ε) :
    Beside σ Op ε ι ρ α → Beside σ Op ε ι ρ α → Prop
  | pool {P P' : Pool σ Op ε ι ρ} {label past code} (hstep : S.Step P label P')
      (hcond : cond P label P') : BesideStep cond allowed ⟨P, past, code⟩ ⟨P', past, code⟩
  | perform {s s' : σ} {threads past} {β : Type} {op : Op β} {next : Except ε β → Prog Op ε α}
      {r : Except ε β} (hout : S.out op s r s') (hallowed : allowed past s op) :
      BesideStep cond allowed ⟨⟨s, threads⟩, past, .call op next⟩
        ⟨⟨s', threads⟩, past ++ [⟨s, ⟨op, r⟩, s'⟩], next r⟩

/-- A run of the pool and the designated program. -/
def ReachesBeside (cond : StepCondition σ Op ε ι ρ) (allowed : CallCondition σ Op ε) :
    Beside σ Op ε ι ρ α → Beside σ Op ε ι ρ α → Prop :=
  Relation.ReflTransGen (S.BesideStep cond allowed)

variable {S}

section Sound

variable {cond : StepCondition σ Op ε ι ρ} {rely : σ → σ → Prop} {R : ι → Regime σ Op ε} {s₀ : σ}
  {allowed : CallCondition σ Op ε}

/-- The regime of the designated program: its record is part of the state, it relies on
`Q` and stays in `rely`. -/
structure Attends (S : System σ Op ε ι ρ) (rely Q : σ → σ → Prop) (allowed : CallCondition σ Op ε)
    (F : Regime (σ × List (Visit σ Op ε)) Op ε) : Prop where
  out : ∀ {s s' : σ} {past : List (Visit σ Op ε)} {β : Type} {op : Op β} {r : Except ε β},
    S.out op s r s' → allowed past s op → F.out op (s, past) r (s', past ++ [⟨s, ⟨op, r⟩, s'⟩])
  absorbs : ∀ s s' past, Q s s' → F.rely (s, past) (s', past)
  guar : ∀ s s' past past', F.guar (s, past) (s', past') → rely s s'

/-- A regime over the plain state attends with its record. -/
theorem Attends.visiting {R : Regime σ Op ε} {rely Q : σ → σ → Prop}
    (hout : ∀ {β : Type} {op : Op β} {s r s'}, S.out op s r s' → R.out op s r s')
    (hQ : ∀ {s s'}, Q s s' → R.rely s s') (hguar : ∀ {s s'}, R.guar s s' → rely s s') :
    Attends S rely Q allowed (R.visiting allowed) :=
  ⟨fun h hallowed => ⟨hout h, hallowed, rfl⟩, fun _ _ _ h => ⟨hQ h, rfl⟩,
    fun _ _ _ _ h => hguar h⟩

variable {Q : σ → σ → Prop} {F : Regime (σ × List (Visit σ Op ε)) Op ε}

/-- The pool and the designated program keep their preconditions beside each other. -/
theorem DisciplinedBy.beside (hd : DisciplinedBy S cond rely R s₀) (hcalm : Calm S R Q)
    (hF : Attends S rely Q allowed F) {post : α → σ × List (Visit σ Op ε) → Prop}
    {B B' : Beside σ Op ε ι ρ α} (hrun : S.ReachesBeside cond allowed B B')
    (hkept : Kept rely R s₀ B.pool) (hcode : B.code.wp F post (B.pool.store, B.past)) :
    Kept rely R s₀ B'.pool ∧ B'.code.wp F post (B'.pool.store, B'.past) := by
  induction hrun with
  | refl => exact ⟨hkept, hcode⟩
  | tail _ hstep ih =>
    obtain ⟨hkept, hcode⟩ := ih
    cases hstep with
    | pool hstep hcond =>
      have hquiet := hd.step_calm hcalm hkept hstep hcond
      exact ⟨(hd.step hkept hstep hcond).1, Prog.wp_rely hcode (hF.absorbs _ _ _ hquiet)⟩
    | perform hout hallowed =>
      obtain ⟨hguar, hnext⟩ := hcode _ (F.rely_refl _) _ _ (hF.out hout hallowed)
      exact ⟨hkept.rest hd (hF.guar _ _ _ _ hguar), hnext⟩

/-- What the designated program established when it returned. -/
theorem DisciplinedBy.returned (hd : DisciplinedBy S cond rely R s₀) (hcalm : Calm S R Q)
    (hF : Attends S rely Q allowed F) {post : α → σ × List (Visit σ Op ε) → Prop}
    {B : Beside σ Op ε ι ρ α} {P : Pool σ Op ε ι ρ} {past : List (Visit σ Op ε)} {a : α}
    (hrun : S.ReachesBeside cond allowed B ⟨P, past, .ret a⟩) (hkept : Kept rely R s₀ B.pool)
    (hcode : B.code.wp F post (B.pool.store, B.past)) :
    Kept rely R s₀ P ∧ post a (P.store, past) := by
  obtain ⟨hkept', hwp⟩ := hd.beside hcalm hF hrun hkept hcode
  exact ⟨hkept', hwp _ (F.rely_refl _)⟩

end Sound

section Schedules

variable {χ : Type} (M : Machine S χ)

/-- A decision of a scheduler that also runs the designated program. -/
inductive BesideMove (χ ι : Type) where
  | pool (move : Move χ ι)
  | call (choice : χ)

/-- Run a schedule as long as its steps pass the tests; moves that are not possible are
skipped. -/
def Machine.playBeside
    (test : Pool σ Op ε ι ρ → Label Op ε ι ρ → Pool σ Op ε ι ρ → Bool)
    (callTest : List (Visit σ Op ε) → σ → ∀ {β : Type}, Op β → Bool) :
    Beside σ Op ε ι ρ α → List (BesideMove χ ι) → Option (Beside σ Op ε ι ρ α)
  | B, [] => some B
  | ⟨P, past, code⟩, .pool m :: moves =>
    match M.move P m with
    | some (label, P') =>
      if test P label P' then Machine.playBeside test callTest ⟨P', past, code⟩ moves else none
    | none => Machine.playBeside test callTest ⟨P, past, code⟩ moves
  | ⟨P, past, .ret a⟩, .call _ :: moves => Machine.playBeside test callTest ⟨P, past, .ret a⟩ moves
  | ⟨P, past, .call op next⟩, .call choice :: moves =>
    if callTest past P.store op then
      let result := M.eval choice op P.store
      Machine.playBeside test callTest
        ⟨⟨result.2, P.threads⟩, past ++ [⟨P.store, ⟨op, result.1⟩, result.2⟩], next result.1⟩ moves
    else
      none

/-- A schedule that passes the tests is a run. -/
theorem Machine.playBeside_reaches {cond : StepCondition σ Op ε ι ρ} {allowed : CallCondition σ Op ε}
    {test : Pool σ Op ε ι ρ → Label Op ε ι ρ → Pool σ Op ε ι ρ → Bool}
    {callTest : List (Visit σ Op ε) → σ → ∀ {β : Type}, Op β → Bool}
    (htest : ∀ P label P', test P label P' = true → cond P label P')
    (hcall : ∀ past s {β : Type} (op : Op β), callTest past s op = true → allowed past s op)
    {B B' : Beside σ Op ε ι ρ α} {moves : List (BesideMove χ ι)}
    (h : M.playBeside test callTest B moves = some B') : S.ReachesBeside cond allowed B B' := by
  induction moves generalizing B with
  | nil =>
    simp only [Machine.playBeside, Option.some.injEq] at h
    rw [h]
    exact Relation.ReflTransGen.refl
  | cons m moves ih =>
    obtain ⟨P, past, code⟩ := B
    cases m with
    | pool m =>
      simp only [Machine.playBeside] at h
      cases hmove : M.move P m with
      | none =>
        simp only [hmove] at h
        exact ih h
      | some result =>
        obtain ⟨label, P'⟩ := result
        simp only [hmove] at h
        split at h
        · rename_i hpass
          exact Relation.ReflTransGen.head
            (.pool (M.move_step hmove) (htest P label P' hpass)) (ih h)
        · simp at h
    | call choice =>
      cases code with
      | ret a =>
        simp only [Machine.playBeside] at h
        exact ih h
      | call op next =>
        simp only [Machine.playBeside] at h
        split at h
        · rename_i hpass
          exact Relation.ReflTransGen.head
            (.perform (M.eval_out choice op P.store) (hcall past P.store op hpass)) (ih h)
        · simp at h

end Schedules

end System

end AgenticRag
