import AgenticRag.Foundations.Execution

/-!
# Calls that are cut short

A call may be cut off between two of its operations. `Passes` says what holds after each of
them besides where the call ends, and so in which states it can be cut off.
-/

namespace AgenticRag

namespace Prog

variable {Op : Type → Type} {ε α σ : Type}

/-- The state in which a run is cut off after some of its operations. -/
def cut (eval : ∀ {β : Type}, Op β → σ → Except ε β × σ) : Nat → Prog Op ε α → σ → σ
  | 0, _, s => s
  | _ + 1, .ret _, s => s
  | n + 1, .call op next, s => cut eval n (next (eval op s).1) (eval op s).2

variable {eval : ∀ {β : Type}, Op β → σ → Except ε β × σ} {I : σ → Prop}

/-- What holds after every operation holds wherever the run is cut off. -/
theorem Respects.cut {p : Prog Op ε α} {s : σ} (h : p.Respects eval (fun _ s' => I s') s) (hs : I s) (n : Nat) :
    I (p.cut eval n s) := by
  induction n generalizing p s with
  | zero => exact hs
  | succ n ih =>
    cases p with
    | ret a => exact hs
    | call op next => exact ih h.2 h.1

/-- It holds where the run ends. -/
theorem Respects.ends_kept {p : Prog Op ε α} {s : σ} (h : p.Respects eval (fun _ s' => I s') s) (hs : I s) :
    I (p.exec eval s).2 := by
  induction p generalizing s with
  | ret a => exact hs
  | call op next ih => exact ih _ h.2 h.1

theorem respects_true (p : Prog Op ε α) (s : σ) : p.Respects eval (fun _ _ => True) s := by
  induction p generalizing s with
  | ret a => trivial
  | call op next ih => exact ⟨trivial, ih _ _⟩

/-- Operations that all keep a fact. -/
theorem Uses.respects {P : ∀ {β : Type}, Op β → Prop}
    (hP : ∀ {β : Type} (op : Op β) (s : σ), P op → I s → I (eval op s).2) {p : Prog Op ε α} (hp : p.Uses P)
    {s : σ} (hs : I s) : p.Respects eval (fun _ s' => I s') s := by
  induction p generalizing s with
  | ret a => trivial
  | call op next ih => exact ⟨hP op s hp.1 hs, ih _ (hp.2 _) (hP op s hp.1 hs)⟩

end Prog

namespace Method

variable {Op : Type → Type} {ε τ α β σ : Type}

/-- After every operation of the call `I` holds of the state, and where it ends `post` does. -/
def Passes (eval : ∀ {β : Type}, Op β → σ → Except ε β × σ) (I : σ → Prop) (m : Method Op ε τ α)
    (post : Except ε α → τ → σ → Prop) (t : τ) (s : σ) : Prop :=
  Respects eval (fun _ s' => I s') m t s ∧ Meets eval m post t s

variable {eval : ∀ {β : Type}, Op β → σ → Except ε β × σ} {I : σ → Prop}
  {post post' : Except ε α → τ → σ → Prop} {t : τ} {s : σ}

theorem Passes.cut {m : Method Op ε τ α} (h : Passes eval I m post t s) (hs : I s) (n : Nat) :
    I ((m t).cut eval n s) :=
  Prog.Respects.cut h.1 hs n

theorem Passes.mono {m : Method Op ε τ α} (h : Passes eval I m post t s)
    (hpost : ∀ r t s, post r t s → post' r t s) : Passes eval I m post' t s :=
  ⟨h.1, h.2.mono hpost⟩

theorem Passes.weaken {J : σ → Prop} {m : Method Op ε τ α} (h : Passes eval I m post t s) (hJ : ∀ s, I s → J s) :
    Passes eval J m post t s :=
  ⟨Prog.Respects.mono (fun _ s' => hJ s') h.1, h.2⟩

/-- Where the call ends the fact holds as well. -/
theorem Passes.kept {m : Method Op ε τ α} (h : Passes eval I m post t s) (hs : I s) :
    Passes eval I m (fun r t s => I s ∧ post r t s) t s :=
  ⟨h.1, Prog.Respects.ends_kept h.1 hs, h.2⟩

theorem passes_pure {a : α} : Passes eval I (pure a : Method Op ε τ α) post t s ↔ post (.ok a) t s :=
  and_iff_right trivial

theorem passes_reraise {e : ε} :
    Passes eval I (reraise e : Method Op ε τ α) post t s ↔ post (.error e) t s :=
  and_iff_right trivial

theorem passes_ofExcept {r : Except ε α} :
    Passes eval I (ofExcept r : Method Op ε τ α) post t s ↔ post r t s :=
  and_iff_right trivial

theorem passes_perform {op : Op α} : Passes eval I (perform op : Method Op ε τ α) post t s ↔
    I (eval op s).2 ∧ post (eval op s).1 t (eval op s).2 := by
  unfold Passes
  rw [respects_perform, meets_perform]

theorem passes_bind {m : Method Op ε τ α} {f : α → Method Op ε τ β} {post : Except ε β → τ → σ → Prop} :
    Passes eval I (m >>= f) post t s ↔ Passes eval I m (fun r t s => match r with
      | .ok a => Passes eval I (f a) post t s
      | .error e => post (.error e) t s) t s := by
  have hrespects : Respects eval (fun _ s' => I s') (m >>= f) t s ↔ _ := Prog.respects_bind
  unfold Passes
  rw [hrespects, meets_bind, and_assoc]
  refine and_congr_right fun _ => ?_
  unfold Meets
  rcases (m t).exec eval s with ⟨⟨r, t'⟩, s'⟩
  cases r with
  | ok a => rfl
  | error e => exact and_iff_right trivial

theorem passes_self_bind {f : τ → Method Op ε τ α} :
    Passes eval I (self >>= f) post t s ↔ Passes eval I (f t) post t s :=
  passes_bind.trans (and_iff_right trivial)

theorem passes_assign_bind {g : τ → τ} {f : Unit → Method Op ε τ α} :
    Passes eval I (assign g >>= f) post t s ↔ Passes eval I (f ()) post (g t) s :=
  passes_bind.trans (and_iff_right trivial)

theorem passes_tryCatch {body : Method Op ε τ α} {handler : ε → Method Op ε τ α} :
    Passes eval I (tryCatch body handler) post t s ↔ Passes eval I body (fun r t s => match r with
      | .ok a => post (.ok a) t s
      | .error e => Passes eval I (handler e) post t s) t s := by
  have hrespects : Respects eval (fun _ s' => I s') (tryCatch body handler) t s ↔ _ := Prog.respects_bind
  unfold Passes
  rw [hrespects, meets_tryCatch, and_assoc]
  refine and_congr_right fun _ => ?_
  unfold Meets
  rcases (body t).exec eval s with ⟨⟨r, t'⟩, s'⟩
  cases r with
  | ok a => exact and_iff_right trivial
  | error e => rfl

/-- A sequence whose first part returns, with operations that all keep the fact. -/
theorem Uses.passes_bind {m : Method Op ε τ α} {f : α → Method Op ε τ β} {post : Except ε β → τ → σ → Prop}
    {a : α} {t' : τ} {s' : σ} (hm : Uses (fun {β} (op : Op β) => ∀ s, I s → I (eval op s).2) m) (hs : I s)
    (hreturns : Returns eval m t s a t' s') :
    Passes eval I (m >>= f) post t s ↔ Passes eval I (f a) post t' s' := by
  have hkeeps : Respects eval (fun _ s' => I s') m t s :=
    Prog.Uses.respects (fun op s hop hs => hop s hs) (hm t) hs
  unfold Passes
  rw [hreturns.respects_bind, hreturns.meets_bind, and_iff_right hkeeps]

/-- Nothing need hold on the way. -/
theorem passes_true {m : Method Op ε τ α} : Passes eval (fun _ => True) m post t s ↔ Meets eval m post t s :=
  and_iff_right (Prog.respects_true (m t) s)

end Method

end AgenticRag
