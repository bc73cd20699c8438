import AgenticRag.Storage.World

/-!
# Rules for accesses to the stores

The weakest-precondition rules of a program that reads, writes and raises, in any
regime whose operations behave like `StoreOp.Outcome`.
-/

namespace AgenticRag.StoreProgram

open Method

/-- The regime answers operations from the stores, and idling is permitted. -/
structure OnStores (R : Regime World StoreOp PyError) : Prop where
  out : ∀ {β : Type} {op : StoreOp β} {w : World} {r : Except PyError β} {w' : World},
    R.out op w r w' → op.Outcome w r w'
  idle : ∀ w, R.guar w w

variable {R : Regime World StoreOp PyError} {τ α : Type} {t : τ} {w : World}

theorem wp_tryRead (hR : OnStores R) {view : World → Except PyError α}
    {post : Except PyError α → τ → World → Prop}
    (hok : ∀ a w₁ w₂, R.rely w w₁ → view w₁ = .ok a → R.rely w₁ w₂ → post (.ok a) t w₂)
    (herror : ∀ e w', R.rely w w' → post (.error e) t w') :
    (tryRead view : StoreProgram τ α).wp R post t w := by
  refine wp_perform fun w₁ hw₁ r w₂ hout => ?_
  obtain ⟨rfl, hview⟩ := (hR.out hout).read
  refine ⟨hR.idle w₂, fun w₃ hw₃ => ?_⟩
  cases r with
  | ok a => exact hok a w₂ w₃ hw₁ (hview a rfl) hw₃
  | error e => exact herror e w₃ (R.rely_trans hw₁ hw₃)

theorem wp_read (hR : OnStores R) {view : World → α} {post : Except PyError α → τ → World → Prop}
    (hok : ∀ w₁ w₂, R.rely w w₁ → R.rely w₁ w₂ → post (.ok (view w₁)) t w₂)
    (herror : ∀ e w', R.rely w w' → post (.error e) t w') :
    (read view : StoreProgram τ α).wp R post t w := by
  apply wp_tryRead hR
  · intro a w₁ w₂ hw₁ hview hw₂
    obtain rfl := Except.ok.inj hview
    exact hok w₁ w₂ hw₁ hw₂
  · exact herror

/-- A read of an accessor that does not raise fails with a fault only. -/
theorem wp_readOrFault (hR : OnStores R) {view : World → α} {post : Except PyError α → τ → World → Prop}
    (hok : ∀ w₁ w₂, R.rely w w₁ → R.rely w₁ w₂ → post (.ok (view w₁)) t w₂)
    (hfault : ∀ w', R.rely w w' → post (.error .fault) t w') :
    (read view : StoreProgram τ α).wp R post t w := by
  refine wp_perform fun w₁ hw₁ r w₂ hout => ?_
  obtain ⟨rfl, hview⟩ := (hR.out hout).read
  refine ⟨hR.idle w₂, fun w₃ hw₃ => ?_⟩
  cases r with
  | ok a =>
    obtain rfl := Except.ok.inj (hview a rfl)
    exact hok w₂ w₃ hw₁ hw₃
  | error e =>
    rcases hR.out hout with heval | ⟨hfailed, -⟩
    · simp [StoreOp.eval] at heval
    · obtain rfl := Except.error.inj hfailed
      exact hfault w₃ (R.rely_trans hw₁ hw₃)

theorem wp_raise (hR : OnStores R) {e : PyError} {post : Except PyError α → τ → World → Prop}
    (herror : ∀ e w', R.rely w w' → post (.error e) t w') :
    (raise e : StoreProgram τ α).wp R post t w := by
  refine wp_perform fun w₁ hw₁ r w₂ hout => ?_
  have hout := hR.out hout
  have hsame : w₂ = w₁ := by rcases hout.state with rfl | rfl <;> rfl
  subst hsame
  refine ⟨hR.idle w₂, fun w₃ hw₃ => ?_⟩
  cases r with
  | ok a => exact absurd (Prod.mk.inj hout.ok).1 (by simp)
  | error e' => exact herror e' w₃ (R.rely_trans hw₁ hw₃)

/-- A method of the metadata store: what it does to its store is permitted, and
the continuation may use what it returned. -/
theorem wp_metadata (hR : OnStores R) {op : MetadataOp α}
    {post : Except PyError α → τ → World → Prop}
    (hguar : ∀ w₁, R.rely w w₁ →
      R.guar w₁ { w₁ with metadata := (op.eval w₁.clock w₁.metadata).2 })
    (hok : ∀ a w₁ w₂ w₃, R.rely w w₁ → op.eval w₁.clock w₁.metadata = (.ok a, w₂.metadata) →
      R.guar w₁ w₂ → R.rely w₂ w₃ → post (.ok a) t w₃)
    (herror : ∀ e w₁ w₂ w₃, R.rely w w₁ → R.guar w₁ w₂ → R.rely w₂ w₃ → post (.error e) t w₃) :
    (metadata op : StoreProgram τ α).wp R post t w := by
  refine wp_perform fun w₁ hw₁ r w₂ hout => ?_
  obtain ⟨hstate, hresult⟩ := (hR.out hout).metadata
  have hstep : R.guar w₁ w₂ := by
    rcases hstate with rfl | rfl
    · exact hR.idle w₂
    · exact hguar w₁ hw₁
  refine ⟨hstep, fun w₃ hw₃ => ?_⟩
  cases r with
  | ok a => exact hok a w₁ w₂ w₃ hw₁ (hresult a rfl) hstep hw₃
  | error e => exact herror e w₁ w₂ w₃ hw₁ hstep hw₃

end AgenticRag.StoreProgram
