import Mathlib.Tactic

/-!
# Programs over shared stores

A program returns, or performs one atomic operation on the shared state and
continues with its result; between two operations anything may happen to the
state. `Prog.wp` is a rely/guarantee weakest precondition: every operation stays
in the guarantee, provided the surroundings stay in the rely. A `Method` is a
program of an object: it has attributes of its own, and like a Python method it
returns or raises and keeps the attributes it wrote in both cases.
-/

namespace AgenticRag

/-- Operations `Op` with result types, exceptions `ε`, return values `α`. -/
inductive Prog (Op : Type → Type) (ε α : Type) : Type 1 where
  | ret (a : α)
  | call {β : Type} (op : Op β) (next : Except ε β → Prog Op ε α)

/-- A performed operation with the result the program saw. -/
structure Event (Op : Type → Type) (ε : Type) : Type 1 where
  {β : Type}
  op : Op β
  result : Except ε β

namespace Prog

variable {Op : Type → Type} {ε α β σ : Type}

def bind : Prog Op ε α → (α → Prog Op ε β) → Prog Op ε β
  | .ret a, f => f a
  | .call op next, f => .call op fun r => (next r).bind f

/-- Every operation of the program, whatever the results, satisfies `P`. -/
def Uses (P : ∀ {β : Type}, Op β → Prop) : Prog Op ε α → Prop
  | .ret _ => True
  | .call op next => P op ∧ ∀ r, (next r).Uses P

theorem Uses.bind {P : ∀ {β : Type}, Op β → Prop} {p : Prog Op ε α} {f : α → Prog Op ε β}
    (hp : p.Uses P) (hf : ∀ a, (f a).Uses P) : (p.bind f).Uses P := by
  induction p with
  | ret a => exact hf a
  | call op next ih => exact ⟨hp.1, fun r => ih r (hp.2 r)⟩

theorem Uses.mono {P Q : ∀ {β : Type}, Op β → Prop} (h : ∀ {β : Type} (op : Op β), P op → Q op)
    {p : Prog Op ε α} (hp : p.Uses P) : p.Uses Q := by
  induction p with
  | ret a => trivial
  | call op next ih => exact ⟨h op hp.1, fun r => ih r (hp.2 r)⟩

/-- Run without interference: `eval` answers every operation. -/
def exec (eval : ∀ {β : Type}, Op β → σ → Except ε β × σ) : Prog Op ε α → σ → α × σ
  | .ret a, s => (a, s)
  | .call op next, s =>
    match eval op s with
    | (r, s') => (next r).exec eval s'

theorem exec_bind (eval : ∀ {β : Type}, Op β → σ → Except ε β × σ) (p : Prog Op ε α)
    (f : α → Prog Op ε β) (s : σ) :
    (p.bind f).exec eval s = (f (p.exec eval s).1).exec eval (p.exec eval s).2 := by
  induction p generalizing s with
  | ret a => rfl
  | call op next ih => exact ih _ _

end Prog

/-- The surroundings of a program: what its operations may do to the state, what
other parties may do between two of them, and what each operation must respect. -/
structure Regime (σ : Type*) (Op : Type → Type) (ε : Type) where
  out : ∀ {β : Type}, Op β → σ → Except ε β → σ → Prop
  rely : σ → σ → Prop
  guar : σ → σ → Prop
  rely_refl : ∀ s, rely s s
  rely_trans : ∀ {s t u}, rely s t → rely t u → rely s u

namespace Prog

variable {σ : Type*} {Op : Type → Type} {ε α β : Type} (R : Regime σ Op ε)

/-- From `s`, under interference in `rely`, every operation is in `guar`, and a
return satisfies `post`. -/
def wp (post : α → σ → Prop) : Prog Op ε α → σ → Prop
  | .ret a, s => ∀ s', R.rely s s' → post a s'
  | .call op next, s => ∀ s₁, R.rely s s₁ → ∀ r s₂, R.out op s₁ r s₂ →
      R.guar s₁ s₂ ∧ (next r).wp post s₂

variable {R}

theorem wp_mono {post post' : α → σ → Prop} (hpost : ∀ a s, post a s → post' a s)
    {p : Prog Op ε α} {s : σ} (h : p.wp R post s) : p.wp R post' s := by
  induction p generalizing s with
  | ret a => exact fun s' hrely => hpost a s' (h s' hrely)
  | call op next ih =>
    intro s₁ hrely r s₂ hout
    obtain ⟨hguar, hnext⟩ := h s₁ hrely r s₂ hout
    exact ⟨hguar, ih r hnext⟩

/-- Interference before the next operation is absorbed. -/
theorem wp_rely {post : α → σ → Prop} {p : Prog Op ε α} {s s' : σ} (h : p.wp R post s)
    (hrely : R.rely s s') : p.wp R post s' := by
  cases p with
  | ret a => exact fun t ht => h t (R.rely_trans hrely ht)
  | call op next => exact fun t ht => h t (R.rely_trans hrely ht)

theorem wp_bind {post : β → σ → Prop} {p : Prog Op ε α} {f : α → Prog Op ε β} {s : σ}
    (h : p.wp R (fun a s => (f a).wp R post s) s) : (p.bind f).wp R post s := by
  induction p generalizing s with
  | ret a => exact h s (R.rely_refl s)
  | call op next ih =>
    intro s₁ hrely r s₂ hout
    obtain ⟨hguar, hnext⟩ := h s₁ hrely r s₂ hout
    exact ⟨hguar, ih r hnext⟩

/-- A fact kept by rely and guarantee survives the program. -/
theorem wp_frame {F : σ → Prop} (hrely : ∀ s s', R.rely s s' → F s → F s')
    (hguar : ∀ s s', R.guar s s' → F s → F s') {post : α → σ → Prop} {p : Prog Op ε α} {s : σ}
    (h : p.wp R post s) (hF : F s) : p.wp R (fun a s => post a s ∧ F s) s := by
  induction p generalizing s with
  | ret a => exact fun s' hs' => ⟨h s' hs', hrely s s' hs' hF⟩
  | call op next ih =>
    intro s₁ hs₁ r s₂ hout
    obtain ⟨hg, hnext⟩ := h s₁ hs₁ r s₂ hout
    exact ⟨hg, ih r hnext (hguar s₁ s₂ hg (hrely s s₁ hs₁ hF))⟩

/-- A program all of whose operations respect the guarantee on their own. -/
theorem wp_of_uses {P : ∀ {β : Type}, Op β → Prop}
    (hP : ∀ {β : Type} (op : Op β), P op → ∀ s r s', R.out op s r s' → R.guar s s')
    {p : Prog Op ε α} (h : p.Uses P) (s : σ) : p.wp R (fun _ _ => True) s := by
  induction p generalizing s with
  | ret a => exact fun _ _ => trivial
  | call op next ih =>
    intro s₁ _ r s₂ hout
    exact ⟨hP op h.1 s₁ r s₂ hout, ih r (h.2 r) s₂⟩

end Prog

section Combination

variable {σ : Type*} {Op : Type → Type} {ε α : Type} (R : Regime σ Op ε)

/-- The same surroundings with a further guarantee. -/
def Regime.strengthen (G : σ → σ → Prop) : Regime σ Op ε where
  out := R.out
  rely := R.rely
  guar s s' := R.guar s s' ∧ G s s'
  rely_refl := R.rely_refl
  rely_trans := R.rely_trans

/-- The surroundings of a program that is already known to respect `R`: what remains
to be shown is `G`. -/
def Regime.given (G : σ → σ → Prop) : Regime σ Op ε where
  out op s r s' := R.out op s r s' ∧ R.guar s s'
  rely := R.rely
  guar := G
  rely_refl := R.rely_refl
  rely_trans := R.rely_trans

/-- The same surroundings with a record of what the program did; `allowed` restricts the
operations by that record and the state they meet. -/
def Regime.recorded {υ : Type*} (note : ∀ {β : Type}, Op β → σ → Except ε β → σ → υ)
    (allowed : List υ → σ → ∀ {β : Type}, Op β → Prop) : Regime (σ × List υ) Op ε where
  out op s r s' := R.out op s.1 r s'.1 ∧ allowed s.2 s.1 op ∧ s'.2 = s.2 ++ [note op s.1 r s'.1]
  rely s s' := R.rely s.1 s'.1 ∧ s'.2 = s.2
  guar s s' := R.guar s.1 s'.1
  rely_refl s := ⟨R.rely_refl s.1, rfl⟩
  rely_trans h h' := ⟨R.rely_trans h.1 h'.1, h'.2.trans h.2⟩

/-- The same surroundings, knowing more about the operations that take place. -/
def Regime.restrict (C : ∀ {β : Type}, Op β → σ → Prop) : Regime σ Op ε where
  out op s r s' := R.out op s r s' ∧ C op s
  rely := R.rely
  guar := R.guar
  rely_refl := R.rely_refl
  rely_trans := R.rely_trans

variable {R}

theorem Prog.wp_restrict {C : ∀ {β : Type}, Op β → σ → Prop} {post : α → σ → Prop}
    {p : Prog Op ε α} {s : σ} (h : p.wp R post s) : p.wp (R.restrict C) post s := by
  induction p generalizing s with
  | ret a => exact h
  | call op next ih =>
    intro s₁ hs₁ r s₂ hout
    obtain ⟨hguar, hnext⟩ := h s₁ hs₁ r s₂ hout.1
    exact ⟨hguar, ih r hnext⟩

theorem Prog.wp_strengthen {G : σ → σ → Prop} {post post' : α → σ → Prop} {p : Prog Op ε α} {s : σ}
    (h : p.wp R post s) (h' : p.wp (R.given G) post' s) :
    p.wp (R.strengthen G) (fun a s => post a s ∧ post' a s) s := by
  induction p generalizing s with
  | ret a => exact fun s' hs' => ⟨h s' hs', h' s' hs'⟩
  | call op next ih =>
    intro s₁ hs₁ r s₂ hout
    obtain ⟨hguar, hnext⟩ := h s₁ hs₁ r s₂ hout
    obtain ⟨hguar', hnext'⟩ := h' s₁ hs₁ r s₂ ⟨hout, hguar⟩
    exact ⟨⟨hguar, hguar'⟩, ih r hnext hnext'⟩

/-- A program that does not depend on its record; the record only grows. -/
theorem Prog.wp_recorded {υ : Type*} {note : ∀ {β : Type}, Op β → σ → Except ε β → σ → υ}
    {allowed : List υ → σ → ∀ {β : Type}, Op β → Prop} {post : α → σ → Prop} {p : Prog Op ε α}
    {s : σ} (h : p.wp R post s) (past : List υ) :
    p.wp (R.recorded note allowed) (fun a s => post a s.1 ∧ past <+: s.2) (s, past) := by
  suffices hgrown : ∀ grown, past <+: grown →
      p.wp (R.recorded note allowed) (fun a s => post a s.1 ∧ past <+: s.2) (s, grown) from
    hgrown past (List.prefix_refl past)
  induction p generalizing s with
  | ret a =>
    rintro grown hgrown s' ⟨hs', hsame⟩
    exact ⟨h s'.1 hs', hsame ▸ hgrown⟩
  | call op next ih =>
    rintro grown hgrown ⟨s₁, past₁⟩ ⟨hs₁, hsame⟩ r ⟨s₂, past₂⟩ ⟨hout, -, hpast⟩
    obtain ⟨hguar, hnext⟩ := h s₁ hs₁ r s₂ hout
    refine ⟨hguar, ih r hnext past₂ ?_⟩
    dsimp only at hpast hsame
    rw [hpast, hsame]
    exact hgrown.trans (List.prefix_append _ _)

end Combination

/-- A method of an object with attributes `τ`. -/
def Method (Op : Type → Type) (ε τ α : Type) : Type 1 := τ → Prog Op ε (Except ε α × τ)

namespace Method

variable {Op : Type → Type} {ε τ α β : Type}

instance : Monad (Method Op ε τ) where
  pure a := fun t => .ret (.ok a, t)
  bind m f := fun t => (m t).bind fun
    | (.ok a, t') => f a t'
    | (.error e, t') => .ret (.error e, t')

/-- Perform one operation; its exception is the method's. -/
def perform (op : Op α) : Method Op ε τ α := fun t => .call op fun r => .ret (r, t)

/-- Read the object's attributes. -/
def self : Method Op ε τ τ := fun t => .ret (.ok t, t)

/-- Assign to the object's attributes. -/
def assign (f : τ → τ) : Method Op ε τ Unit := fun t => .ret (.ok (), f t)

/-- Raise an exception that was caught before. -/
def reraise (e : ε) : Method Op ε τ α := fun t => .ret (.error e, t)

/-- `try: body / except Exception as e: handler(e)`. -/
def tryCatch (body : Method Op ε τ α) (handler : ε → Method Op ε τ α) : Method Op ε τ α := fun t =>
  (body t).bind fun
    | (.ok a, t') => .ret (.ok a, t')
    | (.error e, t') => handler e t'

/-- `for x in xs: body(x)`. -/
def forEach : List α → (α → Method Op ε τ Unit) → Method Op ε τ Unit
  | [], _ => pure ()
  | x :: xs, body => do
    body x
    forEach xs body

/-- A method of another object with attributes `t`, which is discarded afterwards. -/
def onObject {υ : Type} (m : Method Op ε υ α) (t : υ) : Method Op ε τ α := fun me =>
  (m t).bind fun result => .ret (result.1, me)

/-- The method on its own: neither the attributes nor the outcome are kept. -/
def launch (m : Method Op ε τ α) (t : τ) : Prog Op ε Unit :=
  (m t).bind fun _ => .ret ()

section Uses

variable {P : ∀ {β : Type}, Op β → Prop}

/-- Every operation of the method satisfies `P`. -/
def Uses (P : ∀ {β : Type}, Op β → Prop) (m : Method Op ε τ α) : Prop :=
  ∀ t, (m t).Uses P

theorem Uses.mono {Q : ∀ {β : Type}, Op β → Prop} (h : ∀ {β : Type} (op : Op β), P op → Q op)
    {m : Method Op ε τ α} (hm : Uses P m) : Uses Q m := fun t => Prog.Uses.mono h (hm t)

theorem Uses.pure (a : α) : Uses P (pure a : Method Op ε τ α) := fun _ => trivial

theorem Uses.perform {op : Op α} (h : P op) : Uses P (perform op : Method Op ε τ α) :=
  fun _ => ⟨h, fun _ => trivial⟩

theorem Uses.self : Uses P (self : Method Op ε τ τ) := fun _ => trivial

theorem Uses.assign (f : τ → τ) : Uses P (assign f : Method Op ε τ Unit) := fun _ => trivial

theorem Uses.reraise (e : ε) : Uses P (reraise e : Method Op ε τ α) := fun _ => trivial

theorem Uses.bind {m : Method Op ε τ α} {f : α → Method Op ε τ β} (hm : Uses P m)
    (hf : ∀ a, Uses P (f a)) : Uses P (m >>= f) := by
  intro t
  apply Prog.Uses.bind (hm t)
  rintro ⟨outcome, t'⟩
  cases outcome with
  | ok a => exact hf a t'
  | error e => trivial

theorem Uses.tryCatch {body : Method Op ε τ α} {handler : ε → Method Op ε τ α}
    (hbody : Uses P body) (hhandler : ∀ e, Uses P (handler e)) :
    Uses P (tryCatch body handler) := by
  intro t
  apply Prog.Uses.bind (hbody t)
  rintro ⟨outcome, t'⟩
  cases outcome with
  | ok a => trivial
  | error e => exact hhandler e t'

theorem Uses.forEach {body : α → Method Op ε τ Unit} (h : ∀ x, Uses P (body x)) (xs : List α) :
    Uses P (forEach xs body) := by
  induction xs with
  | nil => exact Uses.pure ()
  | cons x xs ih => exact Uses.bind (h x) fun _ => ih

theorem Uses.ite {c : Prop} [Decidable c] {m n : Method Op ε τ α} (hm : Uses P m)
    (hn : Uses P n) : Uses P (if c then m else n) := by
  split
  · exact hm
  · exact hn

theorem Uses.launch {m : Method Op ε τ α} (h : Uses P m) (t : τ) : (m.launch t).Uses P :=
  Prog.Uses.bind (h t) fun _ => trivial

end Uses

section Wp

variable {σ : Type*} {R : Regime σ Op ε}

/-- Weakest precondition of a method call on an object with attributes `t`. -/
def wp (R : Regime σ Op ε) (m : Method Op ε τ α) (post : Except ε α → τ → σ → Prop) (t : τ)
    (s : σ) : Prop :=
  (m t).wp R (fun result s' => post result.1 result.2 s') s

theorem wp_mono {m : Method Op ε τ α} {post post' : Except ε α → τ → σ → Prop} {t : τ} {s : σ}
    (hpost : ∀ r t s, post r t s → post' r t s) (h : m.wp R post t s) : m.wp R post' t s := by
  refine Prog.wp_mono ?_ h
  rintro ⟨r, t'⟩ s' hs'
  exact hpost r t' s' hs'

theorem wp_rely {m : Method Op ε τ α} {post : Except ε α → τ → σ → Prop} {t : τ} {s s' : σ}
    (h : m.wp R post t s) (hrely : R.rely s s') : m.wp R post t s' :=
  Prog.wp_rely h hrely

theorem wp_frame {F : σ → Prop} (hrely : ∀ s s', R.rely s s' → F s → F s')
    (hguar : ∀ s s', R.guar s s' → F s → F s') {m : Method Op ε τ α}
    {post : Except ε α → τ → σ → Prop} {t : τ} {s : σ} (h : m.wp R post t s) (hF : F s) :
    m.wp R (fun r t s => post r t s ∧ F s) t s :=
  Prog.wp_frame hrely hguar h hF

theorem wp_of_uses {P : ∀ {β : Type}, Op β → Prop}
    (hP : ∀ {β : Type} (op : Op β), P op → ∀ s r s', R.out op s r s' → R.guar s s')
    {m : Method Op ε τ α} (h : m.Uses P) (t : τ) (s : σ) :
    m.wp R (fun _ _ _ => True) t s :=
  Prog.wp_of_uses hP (h t) s

theorem wp_recorded {υ : Type*} {note : ∀ {β : Type}, Op β → σ → Except ε β → σ → υ}
    {allowed : List υ → σ → ∀ {β : Type}, Op β → Prop} {m : Method Op ε τ α}
    {post : Except ε α → τ → σ → Prop} {t : τ} {s : σ} (h : m.wp R post t s) (past : List υ) :
    m.wp (R.recorded note allowed) (fun r t s => post r t s.1 ∧ past <+: s.2) t (s, past) :=
  Prog.wp_recorded h past

theorem wp_pure {a : α} {post : Except ε α → τ → σ → Prop} {t : τ} {s : σ}
    (h : ∀ s', R.rely s s' → post (.ok a) t s') : (pure a : Method Op ε τ α).wp R post t s := h

theorem wp_self {post : Except ε τ → τ → σ → Prop} {t : τ} {s : σ}
    (h : ∀ s', R.rely s s' → post (.ok t) t s') : (self : Method Op ε τ τ).wp R post t s := h

theorem wp_assign {f : τ → τ} {post : Except ε Unit → τ → σ → Prop} {t : τ} {s : σ}
    (h : ∀ s', R.rely s s' → post (.ok ()) (f t) s') :
    (assign f : Method Op ε τ Unit).wp R post t s := h

theorem wp_reraise {e : ε} {post : Except ε α → τ → σ → Prop} {t : τ} {s : σ}
    (h : ∀ s', R.rely s s' → post (.error e) t s') :
    (reraise e : Method Op ε τ α).wp R post t s := h

theorem wp_perform {op : Op α} {post : Except ε α → τ → σ → Prop} {t : τ} {s : σ}
    (h : ∀ s₁, R.rely s s₁ → ∀ r s₂, R.out op s₁ r s₂ →
      R.guar s₁ s₂ ∧ ∀ s₃, R.rely s₂ s₃ → post r t s₃) :
    (perform op : Method Op ε τ α).wp R post t s := h

theorem wp_bind {m : Method Op ε τ α} {f : α → Method Op ε τ β}
    {post : Except ε β → τ → σ → Prop} {t : τ} {s : σ}
    (h : m.wp R (fun r t s => match r with
      | .ok a => (f a).wp R post t s
      | .error e => ∀ s', R.rely s s' → post (.error e) t s') t s) :
    (m >>= f).wp R post t s := by
  apply Prog.wp_bind
  refine Prog.wp_mono ?_ h
  rintro ⟨outcome, t'⟩ s' hs'
  cases outcome with
  | ok a => exact hs'
  | error e => exact hs'

/-- An exception of the first part is the exception of the sequence. -/
theorem wp_bind_raises {E : ε → Prop} {m : Method Op ε τ α} {f : α → Method Op ε τ β} {t : τ} {s : σ}
    (h : m.wp R (fun r _ _ => ∃ e, r = .error e ∧ E e) t s) :
    (m >>= f).wp R (fun r _ _ => ∃ e, r = .error e ∧ E e) t s := by
  apply wp_bind
  refine wp_mono ?_ h
  rintro r t' s' ⟨e, rfl, he⟩ s'' _
  exact ⟨e, rfl, he⟩

theorem wp_tryCatch {body : Method Op ε τ α} {handler : ε → Method Op ε τ α}
    {post : Except ε α → τ → σ → Prop} {t : τ} {s : σ}
    (h : body.wp R (fun r t s => match r with
      | .ok a => ∀ s', R.rely s s' → post (.ok a) t s'
      | .error e => (handler e).wp R post t s) t s) :
    (tryCatch body handler).wp R post t s := by
  apply Prog.wp_bind
  refine Prog.wp_mono ?_ h
  rintro ⟨outcome, t'⟩ s' hs'
  cases outcome with
  | ok a => exact hs'
  | error e => exact hs'

/-- A loop whose body leads from `I` of the remaining elements to `I` of the rest;
an exception of the body is the exception of the loop. -/
theorem wp_forEach {body : α → Method Op ε τ Unit} {post : Except ε Unit → τ → σ → Prop}
    (I : List α → τ → σ → Prop) (hstable : ∀ xs t s s', R.rely s s' → I xs t s → I xs t s')
    (hbody : ∀ x xs t s, I (x :: xs) t s → (body x).wp R (fun r t s => match r with
      | .ok _ => I xs t s
      | .error e => ∀ s', R.rely s s' → post (.error e) t s') t s)
    (hdone : ∀ t s, I [] t s → post (.ok ()) t s) {xs : List α} {t : τ} {s : σ}
    (hI : I xs t s) : (forEach xs body).wp R post t s := by
  induction xs generalizing t s with
  | nil => exact fun s' hs' => hdone t s' (hstable [] t s s' hs' hI)
  | cons x xs ih =>
    apply wp_bind
    refine wp_mono ?_ (hbody x xs t s hI)
    intro r t' s' hr
    cases r with
    | ok _ => exact ih hr
    | error e => exact hr

/-- Operations that respect the guarantee on their own, followed by `f`: only a
stable fact about the state is carried over. -/
theorem wp_bind_of_uses {P : ∀ {β : Type}, Op β → Prop} {F : σ → Prop}
    (hP : ∀ {β : Type} (op : Op β), P op → ∀ s r s', R.out op s r s' → R.guar s s')
    (hguar : ∀ s s', R.guar s s' → R.rely s s') (hF : ∀ s s', R.rely s s' → F s → F s')
    {m : Method Op ε τ α} {f : α → Method Op ε τ β} {post : Except ε β → τ → σ → Prop}
    (hm : m.Uses P) (hf : ∀ a t s, F s → (f a).wp R post t s)
    (herror : ∀ e t s, F s → post (.error e) t s) {t : τ} {s : σ} (hs : F s) :
    (m >>= f).wp R post t s := by
  apply wp_bind
  refine wp_mono ?_ (wp_frame hF (fun s s' h => hF s s' (hguar s s' h))
    (wp_of_uses hP hm t s) hs)
  rintro r t' s' ⟨-, hs'⟩
  cases r with
  | ok a => exact hf a t' s' hs'
  | error e => exact fun s'' hrely => herror e t' s'' (hF s' s'' hrely hs')

theorem wp_launch {m : Method Op ε τ α} {t : τ} {s : σ} (h : m.wp R (fun _ _ _ => True) t s) :
    (m.launch t).wp R (fun _ _ => True) s := by
  apply Prog.wp_bind
  exact Prog.wp_mono (fun _ _ _ _ _ => trivial) h

end Wp

section Maintains

variable {σ : Type*} {R : Regime σ Op ε} {I : τ → σ → Prop} {E : ε → τ → σ → Prop}

/-- From `I` the method gets back to `I` when it returns and to `E` when it raises. -/
def Maintains (R : Regime σ Op ε) (I : τ → σ → Prop) (E : ε → τ → σ → Prop)
    (m : Method Op ε τ α) : Prop :=
  ∀ t s, I t s → m.wp R (fun r t s => match r with
    | .ok _ => I t s
    | .error e => E e t s) t s

/-- Interference preserves the two assertions. -/
structure Stable (R : Regime σ Op ε) (I : τ → σ → Prop) (E : ε → τ → σ → Prop) : Prop where
  inv : ∀ {t s s'}, R.rely s s' → I t s → I t s'
  exc : ∀ {e t s s'}, R.rely s s' → E e t s → E e t s'

theorem Maintains.pure (hS : Stable R I E) (a : α) :
    Maintains R I E (pure a : Method Op ε τ α) :=
  fun _ _ hI _ hrely => hS.inv hrely hI

theorem Maintains.self (hS : Stable R I E) : Maintains R I E (self : Method Op ε τ τ) :=
  fun _ _ hI _ hrely => hS.inv hrely hI

theorem Maintains.assign (hS : Stable R I E) {f : τ → τ} (hf : ∀ t s, I t s → I (f t) s) :
    Maintains R I E (assign f : Method Op ε τ Unit) :=
  fun t s hI _ hrely => hS.inv hrely (hf t s hI)

theorem Maintains.perform (hS : Stable R I E) {op : Op α}
    (hop : ∀ t s r s', I t s → R.out op s r s' → R.guar s s' ∧ match r with
      | .ok _ => I t s'
      | .error e => E e t s') :
    Maintains R I E (perform op : Method Op ε τ α) := by
  intro t s hI
  refine wp_perform fun s₁ hs₁ r s₂ hout => ?_
  obtain ⟨hguar, hpost⟩ := hop t s₁ r s₂ (hS.inv hs₁ hI) hout
  refine ⟨hguar, fun s₃ hs₃ => ?_⟩
  cases r with
  | ok a => exact hS.inv hs₃ hpost
  | error e => exact hS.exc hs₃ hpost

/-- A method that maintains `I`, followed by one that is right from `I`. -/
theorem Maintains.wp_bind {m : Method Op ε τ α} {f : α → Method Op ε τ β}
    {post : Except ε β → τ → σ → Prop} (hm : Maintains R I E m)
    (hf : ∀ a t s, I t s → (f a).wp R post t s)
    (herror : ∀ e t s, E e t s → ∀ s', R.rely s s' → post (.error e) t s') {t : τ} {s : σ}
    (hI : I t s) : (m >>= f).wp R post t s := by
  apply Method.wp_bind
  refine wp_mono ?_ (hm t s hI)
  intro r t s hr
  cases r with
  | ok a => exact hf a t s hr
  | error e => exact herror e t s hr

theorem Maintains.bind (hS : Stable R I E) {m : Method Op ε τ α} {f : α → Method Op ε τ β}
    (hm : Maintains R I E m) (hf : ∀ a, Maintains R I E (f a)) : Maintains R I E (m >>= f) := by
  intro t s hI
  exact hm.wp_bind (fun a t s hs => hf a t s hs) (fun e t s hs s' hrely => hS.exc hrely hs) hI

theorem Maintains.ite {c : Prop} [Decidable c] {m n : Method Op ε τ α}
    (hm : Maintains R I E m) (hn : Maintains R I E n) :
    Maintains R I E (if c then m else n) := by
  split
  · exact hm
  · exact hn

theorem Maintains.forEach (hS : Stable R I E) {body : α → Method Op ε τ Unit} {xs : List α}
    (h : ∀ x ∈ xs, Maintains R I E (body x)) : Maintains R I E (forEach xs body) := by
  induction xs with
  | nil => exact Maintains.pure hS ()
  | cons x xs ih =>
    refine Maintains.bind hS (h x (by simp)) fun _ => ih fun y hy => ?_
    exact h y (List.mem_cons_of_mem x hy)

theorem Maintains.tryCatch (hS : Stable R I E) {body : Method Op ε τ α}
    {handler : ε → Method Op ε τ α} (hbody : Maintains R I E body)
    (hE : ∀ e t s, E e t s → I t s) (hhandler : ∀ e, Maintains R I E (handler e)) :
    Maintains R I E (tryCatch body handler) := by
  intro t s hI
  apply wp_tryCatch
  refine wp_mono ?_ (hbody t s hI)
  intro r t s hr
  cases r with
  | ok a => exact fun s' hrely => hS.inv hrely hr
  | error e => exact hhandler e t s (hE e t s hr)

end Maintains

section Keeps

variable {σ : Type*} {R : Regime σ Op ε} {J : σ → Prop}

/-- A method that keeps a fact about the state, whether it returns or raises. -/
def Keeps (R : Regime σ Op ε) (J : σ → Prop) (m : Method Op ε τ α) : Prop :=
  Maintains R (fun _ => J) (fun _ _ => J) m

theorem Stable.of_rely (hrely : ∀ {s s'}, R.rely s s' → J s → J s') :
    Stable R (fun _ : τ => J) (fun _ : ε => fun _ => J) :=
  ⟨hrely, hrely⟩

/-- A method all of whose operations keep the fact and respect the guarantee. -/
theorem Keeps.of_uses {P : ∀ {β : Type}, Op β → Prop}
    (hrely : ∀ {s s'}, R.rely s s' → J s → J s')
    (hP : ∀ {β : Type} (op : Op β), P op → ∀ s r s', J s → R.out op s r s' → R.guar s s' ∧ J s')
    {m : Method Op ε τ α} (hm : m.Uses P) : Keeps R J m := by
  intro t s hs
  suffices h : ∀ {p : Prog Op ε (Except ε α × τ)}, p.Uses P → ∀ s, J s →
      p.wp R (fun _ s => J s) s by
    refine Prog.wp_mono ?_ (h (hm t) s hs)
    rintro ⟨r, t'⟩ s' hs'
    cases r with
    | ok a => exact hs'
    | error e => exact hs'
  intro p hp
  induction p with
  | ret a => exact fun s hs s' hs' => hrely hs' hs
  | call op next ih =>
    intro s hs s₁ hs₁ r s₂ hout
    obtain ⟨hguar, hs₂⟩ := hP op hp.1 s₁ r s₂ (hrely hs₁ hs) hout
    exact ⟨hguar, ih r (hp.2 r) s₂ hs₂⟩

end Keeps

end Method

end AgenticRag
