import AgenticRag.Services.Confinement

/-!
# Concurrent requests

Any number of requests of any number of principals run over one table of checkpoints, operation by
operation, and may crash in between. What has been retrieved for one principal stays with it, also
where two principals use the same run id.
-/

namespace AgenticRag

open CheckpointTable

/-- A call with its caller. -/
structure ChatRequest where
  ctx : SecurityContext
  call : RunCall
  deriving DecidableEq, Repr

/-- What an operation may do to the checkpoints. An operation on them may fail, and then leaves them
alone; whatever else is asked may be answered by anything. -/
def checkpointOut {β : Type} (op : ChatOp β) (rows : CheckpointTable) (r : Except ChatError β)
    (rows' : CheckpointTable) : Prop :=
  match op with
  | .saveRunCheckpoint ck => (r, rows') = saveRunCheckpoint rows ck ∨ (∃ e, r = .error e) ∧ rows' = rows
  | .loadRunCheckpoint runId => (r = .ok (loadRunCheckpoint rows runId) ∨ ∃ e, r = .error e) ∧ rows' = rows
  | .markRunCheckpointDone runId =>
    r = .ok () ∧ rows' = markRunCheckpointDone rows runId false ∨ (∃ e, r = .error e) ∧ rows' = rows
  | .markRunCheckpointRunning runId =>
    r = .ok () ∧ rows' = markRunCheckpointRunning rows runId ∨ (∃ e, r = .error e) ∧ rows' = rows
  | _ => rows' = rows

/-- The chat service under load. Between two operations any run may be marked aborted. -/
def chatSystem {ι ρ : Type} (start : ι → Prog ChatOp ChatError ρ) : System CheckpointTable ChatOp ChatError ι ρ where
  out := checkpointOut
  env rows rows' := ∃ runId, rows' = markRunCheckpointDone rows runId true
  start := start
  mayStart _ _ := True

/-- The service as its methods are called. -/
def serviceSystem (texts : ChatTexts) :
    System CheckpointTable ChatOp ChatError ChatRequest (Except ChatError AnswerEnvelope × IterationState) :=
  chatSystem fun request => request.call.program texts request.ctx .empty

/-- The retriever returns to a request nothing but what is sanctioned for its principal. -/
def Retrieving {ι ρ : Type} (principal : ι → Principal) (sanctioned : Principal → Evidence → Prop) :
    System.StepCondition CheckpointTable ChatOp ChatError ι ρ :=
  fun _ label _ => ∀ thread query corpus iteration evidence,
    label = .perform thread ⟨.retrieveEvidence query corpus iteration, .ok evidence⟩ →
      ∀ ev ∈ evidence, sanctioned (principal thread.origin) ev

/-- Every checkpoint holds evidence of its own principal. -/
def CheckpointTable.Confined (sanctioned : Principal → Evidence → Prop) (rows : CheckpointTable) : Prop :=
  ∀ row ∈ rows, row.state.Confined sanctioned

section Confined

variable {sanctioned : Principal → Evidence → Prop} {rows rows' : CheckpointTable} {ck : RunCheckpoint} {runId : String}

theorem CheckpointTable.Confined.saved {r : Except ChatError Unit} (h : rows.Confined sanctioned)
    (hck : ck.Confined sanctioned) (hsave : (r, rows') = saveRunCheckpoint rows ck) : rows'.Confined sanctioned := by
  unfold saveRunCheckpoint at hsave
  intro row hrow
  split at hsave
  · split at hsave
    · obtain ⟨-, rfl⟩ := Prod.mk.inj hsave
      exact h row hrow
    · obtain ⟨-, rfl⟩ := Prod.mk.inj hsave
      rcases Table.mem_update.mp hrow with ⟨old, -, -, rfl⟩ | ⟨hold, -⟩
      · exact hck
      · exact h row hold
  · obtain ⟨-, rfl⟩ := Prod.mk.inj hsave
    rcases Table.mem_insert.mp hrow with hold | rfl
    · exact h row hold
    · exact hck

theorem CheckpointTable.Confined.marked (h : rows.Confined sanctioned) (status : CheckpointStatus) :
    (setStatus rows runId status).Confined sanctioned := by
  intro row hrow
  rcases Table.mem_update.mp hrow with ⟨old, hold, -, rfl⟩ | ⟨hold, -⟩
  · exact h old hold
  · exact h row hold

theorem CheckpointTable.Confined.loaded (h : rows.Confined sanctioned) (hload : loadRunCheckpoint rows runId = some ck) :
    ck.Confined sanctioned := by
  obtain ⟨row, hrow, rfl⟩ := loadRunCheckpoint_some hload
  have hconfined := h row (Table.selectOne_some hrow).1
  exact ⟨hconfined.evidence, hconfined.retrieved⟩

/-- Requests that keep to evidence of their principals find that the surroundings keep their side. -/
theorem chatSystem_attentive {ι ρ : Type} {start : ι → Prog ChatOp ChatError ρ} {Q : ι → ρ → Prop}
    (principal : ι → Principal) (hstart : ∀ i, (start i).Honors (confining sanctioned (principal i)) (Q i)) :
    System.Attentive (chatSystem start) (Retrieving principal sanctioned) (fun i => confining sanctioned (principal i))
      (CheckpointTable.Confined sanctioned) Q where
  out := by
    intro s s' before after i past β op next r hout hcond hs hasks
    cases op with
    | retrieveEvidence query corpus iteration =>
      obtain rfl : s' = s := hout
      refine ⟨?_, hs⟩
      cases r with
      | ok evidence => exact hcond _ query corpus iteration evidence rfl
      | error e => trivial
    | saveRunCheckpoint ck =>
      refine ⟨trivial, ?_⟩
      rcases hout with hsave | ⟨-, rfl⟩
      · exact hs.saved hasks.2 hsave
      · exact hs
    | loadRunCheckpoint runId =>
      obtain ⟨hload, rfl⟩ := hout
      refine ⟨?_, hs⟩
      rcases hload with rfl | ⟨e, rfl⟩
      · cases hfound : loadRunCheckpoint s' runId with
        | none => trivial
        | some ck => exact hs.loaded hfound
      · trivial
    | markRunCheckpointDone runId =>
      refine ⟨trivial, ?_⟩
      rcases hout with ⟨-, rfl⟩ | ⟨-, rfl⟩
      · exact hs.marked _
      · exact hs
    | markRunCheckpointRunning runId =>
      refine ⟨trivial, ?_⟩
      rcases hout with ⟨-, rfl⟩ | ⟨-, rfl⟩
      · exact hs.marked _
      · exact hs
    | _ =>
      obtain rfl : s' = s := hout
      exact ⟨trivial, hs⟩
  env := by
    rintro rows rows' ⟨runId, rfl⟩ h
    exact h.marked _
  start := hstart

theorem empty_confined (p : Principal) : IterationState.empty.Confined sanctioned p :=
  ⟨by simp [IterationState.empty], by simp [IterationState.empty]⟩

end Confined

/-- Whatever the requests, their order and their crashes: an answer is grounded in evidence of its own
principal, a request that goes on shows and saves nothing else, and so does every checkpoint. The
retriever is trusted to return to each request what is sanctioned for its principal. -/
theorem requests_confined (sanctioned : Principal → Evidence → Prop) (texts : ChatTexts)
    {P : Pool CheckpointTable ChatOp ChatError ChatRequest (Except ChatError AnswerEnvelope × IterationState)}
    (hrun : (serviceSystem texts).Reaches (Retrieving (·.ctx.principal) sanctioned) ⟨[], []⟩ P) :
    (∀ thread ∈ P.threads, ∀ env t, thread.code = .ret (.ok env, t) → env.ConfinedTo sanctioned thread.origin.ctx) ∧
      (∀ thread ∈ P.threads, ∀ {β : Type} (op : ChatOp β) next, thread.code = .call op next →
        (confining sanctioned thread.origin.ctx.principal).asks op) ∧
      P.store.Confined sanctioned := by
  have hstart (request : ChatRequest) : (request.call.program texts request.ctx .empty).Honors
      (confining sanctioned request.ctx.principal) fun result => ∀ env, result.1 = .ok env →
        env.ConfinedTo sanctioned request.ctx :=
    Prog.Honors.mono (fun _ hresult => hresult.2) (confines_program request.call _ (empty_confined _))
  have hempty : CheckpointTable.Confined sanctioned [] := by simp [CheckpointTable.Confined]
  have hengaged := (chatSystem_attentive _ hstart).run hempty hrun
  refine ⟨fun thread hthread env t hcode => ?_, fun thread hthread β op next hcode => ?_, hengaged.store⟩
  · have hreturned := hengaged.threads thread hthread
    rw [hcode] at hreturned
    exact hreturned env rfl
  · have hgoes := hengaged.threads thread hthread
    rw [hcode] at hgoes
    exact hgoes.1

namespace ConcurrentRequests.Sample

open Honest.Sample ChatWorld.RecomputationFaults.Sample

section Machine

variable {ι ρ : Type}

/-- The service of a world, of which only the checkpoints last. -/
def machine (start : ι → Prog ChatOp ChatError ρ) : System.Machine (chatSystem start) ChatWorld where
  eval W op rows := ((W.eval op ⟨[], rows, []⟩).1, (W.eval op ⟨[], rows, []⟩).2.checkpoints)
  admits _ _ := true
  eval_out := by
    intro β W op rows
    cases op with
    | saveRunCheckpoint ck => exact .inl rfl
    | loadRunCheckpoint runId => exact ⟨.inl rfl, rfl⟩
    | markRunCheckpointDone runId => exact .inl ⟨rfl, rfl⟩
    | markRunCheckpointRunning runId => exact .inl ⟨rfl, rfl⟩
    | _ => rfl
  admits_mayStart _ _ _ := trivial

def ofTenant (p : Principal) (ev : Evidence) : Prop := p.tenantId = ev.tenantId

instance (p : Principal) (ev : Evidence) : Decidable (ofTenant p ev) := inferInstanceAs (Decidable (_ = _))

/-- Whether a step keeps retrievals to the tenant. -/
def retrievesOwn (principal : ι → Principal) : Label ChatOp ChatError ι ρ → Bool
  | .perform thread ⟨.retrieveEvidence _ _ _, .ok evidence⟩ =>
    evidence.all fun ev => decide (ofTenant (principal thread.origin) ev)
  | _ => true

theorem retrievesOwn_sound {principal : ι → Principal} {P P' : Pool CheckpointTable ChatOp ChatError ι ρ}
    {label : Label ChatOp ChatError ι ρ} (h : retrievesOwn principal label = true) :
    Retrieving principal ofTenant P label P' := by
  rintro thread query corpus iteration evidence rfl ev hev
  exact of_decide_eq_true (List.all_eq_true.mp h ev hev)

/-- A move of a thread in the world where the handbook is found. -/
def step {ι : Type} (thread : Nat) : System.Move ChatWorld ι := .step thread ChatWorld.RunHistories.Sample.world

end Machine

def intruder : SecurityContext := { ctx with tenantId := "umbra", userId := "mallory" }

/-- The run of one tenant is resumed by another one while it is still going on. -/
def pool : Pool CheckpointTable ChatOp ChatError ChatRequest (Except ChatError AnswerEnvelope × IterationState) :=
  (machine fun request => request.call.program texts request.ctx .empty).play ⟨[], []⟩
    (.spawn ⟨ctx, .answers ⟨"Where is the office?", "hr", 3, true, [], some "run", true⟩⟩ ::
      .spawn ⟨intruder, .resumes ⟨"run", true, true, true⟩⟩ ::
        (List.replicate 4 (step 0) ++ step 1 :: List.replicate 4 (step 0)))

theorem pool_reached : (serviceSystem texts).Reaches (Retrieving (·.ctx.principal) ofTenant) ⟨[], []⟩ pool :=
  (machine _).passes_reaches (fun _ _ _ => retrievesOwn_sound) ⟨[], []⟩ _ (by decide +kernel)

end ConcurrentRequests.Sample

open ConcurrentRequests.Sample in
theorem requests_confined_intruder :
    (pool.threads.map fun thread => match thread.code with
        | .ret (.ok env, _) => some env.abstained
        | _ => none) = [some false, none] ∧
      ∀ thread ∈ pool.threads, ∀ env t, thread.code = .ret (.ok env, t) →
        env.ConfinedTo ofTenant thread.origin.ctx :=
  ⟨by decide +kernel, (requests_confined ofTenant ChatWorld.RecomputationFaults.Sample.texts pool_reached).1⟩

end AgenticRag
