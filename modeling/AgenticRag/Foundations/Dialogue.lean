import AgenticRag.Foundations.Execution
import AgenticRag.Foundations.Pool

/-!
# Dialogues

A dialogue says what a program may ask of its surroundings, and how it may be answered. A program
that honors it asks for nothing else as long as it is answered as agreed. Where the surroundings
keep their side for every thread, all threads of a pool honor their dialogues throughout a run.
-/

namespace AgenticRag

structure Dialogue (Op : Type → Type) (ε : Type) where
  asks : ∀ {β : Type}, Op β → Prop
  answers : ∀ {β : Type}, Op β → Except ε β → Prop

namespace Prog

variable {Op : Type → Type} {ε α β : Type} {D : Dialogue Op ε}

/-- Answered as agreed, the program asks as agreed, and returns a value in `Q`. -/
def Honors (D : Dialogue Op ε) (Q : α → Prop) : Prog Op ε α → Prop
  | .ret a => Q a
  | .call op next => D.asks op ∧ ∀ r, D.answers op r → (next r).Honors D Q

theorem Honors.mono {Q Q' : α → Prop} (h : ∀ a, Q a → Q' a) {p : Prog Op ε α} (hp : p.Honors D Q) :
    p.Honors D Q' := by
  induction p with
  | ret a => exact h a hp
  | call op next ih => exact ⟨hp.1, fun r hr => ih r (hp.2 r hr)⟩

theorem Honors.bind {Q : α → Prop} {Q' : β → Prop} {p : Prog Op ε α} {f : α → Prog Op ε β}
    (hp : p.Honors D Q) (hf : ∀ a, Q a → (f a).Honors D Q') : (p.bind f).Honors D Q' := by
  induction p with
  | ret a => exact hf a hp
  | call op next ih => exact ⟨hp.1, fun r hr => ih r (hp.2 r hr)⟩

end Prog

namespace Method

variable {Op : Type → Type} {ε τ α β : Type} {D : Dialogue Op ε} {J : τ → Prop} {Q Q' : α → Prop}

/-- From attributes in `J` the method honors the dialogue and ends with attributes in `J`; what it
returns is in `Q`. -/
def Honors (D : Dialogue Op ε) (J : τ → Prop) (Q : α → Prop) (m : Method Op ε τ α) : Prop :=
  ∀ t, J t → (m t).Honors D fun result => J result.2 ∧ ∀ a, result.1 = .ok a → Q a

namespace Honors

theorem mono {m : Method Op ε τ α} (hm : Honors D J Q m) (h : ∀ a, Q a → Q' a) : Honors D J Q' m :=
  fun t ht => Prog.Honors.mono (fun _ hresult => ⟨hresult.1, fun a ha => h a (hresult.2 a ha)⟩) (hm t ht)

theorem pure {a : α} (h : Q a) : Honors D J Q (pure a : Method Op ε τ α) := by
  refine fun t ht => ⟨ht, fun a' ha => ?_⟩
  obtain rfl := Except.ok.inj ha
  exact h

theorem self : Honors D J J (self : Method Op ε τ τ) := by
  refine fun t ht => ⟨ht, fun t' ht' => ?_⟩
  obtain rfl := Except.ok.inj ht'
  exact ht

theorem assign {f : τ → τ} (h : ∀ t, J t → J (f t)) :
    Honors D J (fun _ => True) (assign f : Method Op ε τ Unit) :=
  fun t ht => ⟨h t ht, fun _ _ => trivial⟩

theorem reraise (e : ε) : Honors D J Q (reraise e : Method Op ε τ α) := by
  refine fun t ht => ⟨ht, fun a ha => ?_⟩
  cases ha

theorem ofExcept {r : Except ε α} (h : ∀ a, r = .ok a → Q a) : Honors D J Q (ofExcept r : Method Op ε τ α) :=
  fun _ ht => ⟨ht, h⟩

theorem perform {op : Op α} (hasks : D.asks op) (hanswers : ∀ a, D.answers op (.ok a) → Q a) :
    Honors D J Q (perform op : Method Op ε τ α) := by
  refine fun t ht => ⟨hasks, fun r hr => ⟨ht, fun a ha => hanswers a ?_⟩⟩
  dsimp only at ha
  rwa [ha] at hr

theorem bind {Q : β → Prop} {Q' : α → Prop} {m : Method Op ε τ α} {f : α → Method Op ε τ β} (hm : Honors D J Q' m)
    (hf : ∀ a, Q' a → Honors D J Q (f a)) : Honors D J Q (m >>= f) := by
  intro t ht
  refine Prog.Honors.bind (hm t ht) ?_
  rintro ⟨outcome, t'⟩ ⟨ht', hreturned⟩
  cases outcome with
  | ok a => exact hf a (hreturned a rfl) t' ht'
  | error e =>
    refine ⟨ht', fun b hb => ?_⟩
    cases hb

theorem perform_bind {Q : β → Prop} {op : Op α} {f : α → Method Op ε τ β} (hasks : D.asks op)
    (hf : ∀ a, D.answers op (.ok a) → Honors D J Q (f a)) : Honors D J Q (Method.perform op >>= f) :=
  bind (perform hasks fun _ ha => ha) hf

theorem ofExcept_bind {Q : β → Prop} {r : Except ε α} {f : α → Method Op ε τ β}
    (hf : ∀ a, r = .ok a → Honors D J Q (f a)) : Honors D J Q (Method.ofExcept r >>= f) :=
  bind (ofExcept fun _ ha => ha) hf

theorem tryCatch {body : Method Op ε τ α} {handler : ε → Method Op ε τ α} (hbody : Honors D J Q body)
    (hhandler : ∀ e, Honors D J Q (handler e)) : Honors D J Q (tryCatch body handler) := by
  intro t ht
  refine Prog.Honors.bind (hbody t ht) ?_
  rintro ⟨outcome, t'⟩ ⟨ht', hreturned⟩
  cases outcome with
  | ok a => exact ⟨ht', hreturned⟩
  | error e => exact hhandler e t' ht'

theorem ite {c : Prop} [Decidable c] {m n : Method Op ε τ α} (hm : c → Honors D J Q m) (hn : ¬c → Honors D J Q n) :
    Honors D J Q (if c then m else n) := by
  split
  · rename_i hc
    exact hm hc
  · rename_i hc
    exact hn hc

end Honors

end Method

namespace System

variable {σ : Type} {Op : Type → Type} {ε ι ρ : Type} {S : System σ Op ε ι ρ} {cond : StepCondition σ Op ε ι ρ}

/-- In runs that meet the condition, the surroundings answer every request as agreed and keep `J`, and
every request honors its dialogue. -/
structure Attentive (S : System σ Op ε ι ρ) (cond : StepCondition σ Op ε ι ρ) (D : ι → Dialogue Op ε)
    (J : σ → Prop) (Q : ι → ρ → Prop) : Prop where
  out : ∀ {s s' : σ} {before after : List (Thread Op ε ι ρ)} {i : ι} {past : List (Event Op ε)}
    {β : Type} {op : Op β} {next : Except ε β → Prog Op ε ρ} {r : Except ε β}, S.out op s r s' →
      cond ⟨s, before ++ ⟨i, past, .call op next⟩ :: after⟩
        (.perform ⟨i, past, .call op next⟩ ⟨op, r⟩)
        ⟨s', before ++ ⟨i, past ++ [⟨op, r⟩], next r⟩ :: after⟩ →
      J s → (D i).asks op → (D i).answers op r ∧ J s'
  env : ∀ s s', S.env s s' → J s → J s'
  start : ∀ i, (S.start i).Honors (D i) (Q i)

/-- `J` holds, and every thread honors its dialogue from here. -/
structure Engaged (D : ι → Dialogue Op ε) (J : σ → Prop) (Q : ι → ρ → Prop) (P : Pool σ Op ε ι ρ) : Prop where
  store : J P.store
  threads : ∀ thread ∈ P.threads, thread.code.Honors (D thread.origin) (Q thread.origin)

variable {D : ι → Dialogue Op ε} {J : σ → Prop} {Q : ι → ρ → Prop} {P P' : Pool σ Op ε ι ρ}

/-- What one step does. -/
theorem Attentive.step (hattentive : Attentive S cond D J Q) {label : Label Op ε ι ρ} (h : Engaged D J Q P)
    (hcond : cond P label P') (hstep : S.Step P label P') : Engaged D J Q P' := by
  cases hstep with
  | env henv => exact ⟨hattentive.env _ _ henv h.store, h.threads⟩
  | spawn i hstart =>
    refine ⟨h.store, fun thread hthread => ?_⟩
    rcases List.mem_append.mp hthread with hold | hnew
    · exact h.threads thread hold
    · obtain rfl := List.mem_singleton.mp hnew
      exact hattentive.start i
  | @perform s s' before after i past β op next r hout =>
    obtain ⟨hasks, hnext⟩ := h.threads ⟨i, past, .call op next⟩ (by simp)
    obtain ⟨hanswers, hstore⟩ := hattentive.out hout hcond h.store hasks
    refine ⟨hstore, fun thread hthread => ?_⟩
    rcases List.mem_append.mp hthread with hold | hthread
    · exact h.threads thread (by simp [hold])
    · rcases List.mem_cons.mp hthread with rfl | hold
      · exact hnext r hanswers
      · exact h.threads thread (by simp [hold])
  | finish =>
    refine ⟨h.store, fun thread hthread => h.threads thread ?_⟩
    rcases List.mem_append.mp hthread with h | h <;> simp [h]
  | crash =>
    refine ⟨h.store, fun thread hthread => h.threads thread ?_⟩
    rcases List.mem_append.mp hthread with h | h <;> simp [h]

/-- What a run does, from a state in `J` where nothing runs yet. -/
theorem Attentive.run (hattentive : Attentive S cond D J Q) {s₀ : σ} (hJ : J s₀)
    (hrun : S.Reaches cond ⟨s₀, []⟩ P) : Engaged D J Q P := by
  have hstart : Engaged D J Q ⟨s₀, []⟩ := ⟨hJ, by simp⟩
  exact hrun.invariant (Engaged D J Q) (fun _ _ _ hengaged hcond hstep => hattentive.step hengaged hcond hstep) hstart

end System

end AgenticRag
