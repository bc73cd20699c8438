import AgenticRag.Foundations.Execution
import AgenticRag.Services.ChatWorld

/-!
# What a run asks of the judge

The calls of the judge in the record of a run and what it answered last, and the parts of a run
that do not call it: none of them raises a fault of the judge, and none gives up the row of the
run.
-/

namespace AgenticRag

/-- `JudgeError` and `JudgeTimeoutError`. -/
def ChatError.IsJudgeFault (e : ChatError) : Prop := ∃ timeout text, e = .judge timeout text

def ChatCall.isJudgement : ChatCall → Bool
  | .judgement _ _ _ => true
  | _ => false

section Errors

/-- The errors of the builder: a foreign snapshot, or an envelope that is not well formed. -/
def ChatError.OfBuilder : ChatError → Prop
  | .tenantBinding _ | .answerEnvelope _ | .valueError _ => True
  | _ => False

theorem ChatError.OfBuilder.not_fault {e : ChatError} (h : e.OfBuilder) : ¬e.IsJudgeFault := by
  rintro ⟨timeout, text, rfl⟩
  exact h

/-- `TenantBindingError`. -/
def ChatError.IsBinding (e : ChatError) : Prop := ∃ text, e = .tenantBinding text

theorem ChatError.IsBinding.ofBuilder {e : ChatError} (h : e.IsBinding) : e.OfBuilder := by
  obtain ⟨text, rfl⟩ := h
  trivial

variable {ctx : SecurityContext}

theorem checkEvidenceBinding_raises (corpusId : String) (evs : List Evidence) :
    RaisesOnly ChatError.IsBinding (checkEvidenceBinding ctx corpusId evs) := by
  induction evs with
  | nil => exact .ok ()
  | cons ev rest ih => exact .ite (.error ⟨_, rfl⟩) (.ite (.error ⟨_, rfl⟩) ih)

theorem checkTenantBinding_raises (result : FastPathResult) :
    RaisesOnly ChatError.IsBinding (checkTenantBinding ctx result) :=
  .ite (.error ⟨_, rfl⟩) (checkEvidenceBinding_raises _ _)

theorem AnswerEnvelope.checkState_raises (env : AnswerEnvelope) :
    RaisesOnly ChatError.OfBuilder env.checkState := by
  intro e he
  unfold AnswerEnvelope.checkState at he
  simp only [bind, Except.bind, throw, throwThe, MonadExceptOf.throw, pure, Except.pure] at he
  repeat' split at he
  all_goals cases he
  all_goals trivial

theorem AnswerEnvelope.lockState_raises (env : AnswerEnvelope) :
    RaisesOnly ChatError.OfBuilder env.lockState :=
  .map _ env.checkState_raises

theorem conservativeRefusal_raises (result : FastPathResult) (coverage : Option SufficiencyResult)
    (accounting : Accounting) :
    RaisesOnly ChatError.OfBuilder (conservativeRefusal result ctx coverage accounting) := by
  unfold conservativeRefusal
  refine .bind ((checkTenantBinding_raises result).mono fun _ => ChatError.IsBinding.ofBuilder) fun _ => ?_
  split
  · exact .bind (.throw trivial) fun _ => AnswerEnvelope.lockState_raises _
  · exact AnswerEnvelope.lockState_raises _

theorem buildEnvelopeFromEvidence_raises (evidence : List Evidence) (claims : List Claim)
    (parts : AnswerParts) :
    RaisesOnly ChatError.OfBuilder (buildEnvelopeFromEvidence ctx evidence claims parts) := by
  unfold buildEnvelopeFromEvidence
  dsimp only
  exact .ite (AnswerEnvelope.lockState_raises _) (AnswerEnvelope.lockState_raises _)

theorem buildAnswerEnvelope_raises (result : FastPathResult) (claims : List Claim)
    (coverage : Option SufficiencyResult) (claimVerification : Option ClaimVerificationResult)
    (accounting : Accounting) (evidence : Option (List Evidence)) (stopReason : Option String)
    (conflictReport : Option ConflictReport) :
    RaisesOnly ChatError.OfBuilder (buildAnswerEnvelope result ctx claims coverage claimVerification
      accounting evidence stopReason conflictReport) := by
  unfold buildAnswerEnvelope
  refine .bind ((checkTenantBinding_raises result).mono fun _ => ChatError.IsBinding.ofBuilder) fun _ => ?_
  refine .ite (conservativeRefusal_raises _ _ _) ?_
  exact .bind ((checkEvidenceBinding_raises _ _).mono fun _ => ChatError.IsBinding.ofBuilder) fun _ =>
    buildEnvelopeFromEvidence_raises _ _ _

theorem absorb_raises (run : RunArgs) (evs : List Evidence) (state : IterationState) (gain : Gain) :
    RaisesOnly ChatError.IsBinding (absorb ctx run evs state gain) := by
  induction evs generalizing state gain with
  | nil => exact .ok _
  | cons ev rest ih => exact .ite (.error ⟨_, rfl⟩) (ih _ _)

/-- The refusal is delivered exactly if the first result belongs to the request. -/
theorem conservativeRefusal_eq (result : FastPathResult) (coverage : SufficiencyResult)
    (accounting : Accounting) :
    conservativeRefusal result ctx (some coverage) accounting =
      (checkTenantBinding ctx result).map fun _ => refusal ctx [result.corpusId] (some coverage) accounting := by
  cases hbound : checkTenantBinding ctx result with
  | ok u => simp [conservativeRefusal, hbound, bind, Except.bind, Except.map]
  | error e => simp [conservativeRefusal, hbound, bind, Except.bind, Except.map]

end Errors

namespace ChatWorld

variable (W : ChatWorld)

section Verdicts

/-- What the judge answered last among the calls `since`, before which the calls `past` were
made. -/
def lastVerdict : List ChatCall → List ChatCall → Option (Except ChatError SufficiencyResult)
  | _, [] => none
  | past, call :: rest =>
    (lastVerdict (past ++ [call]) rest).or
      (match call with
        | .judgement query requiredFacts evidence => some (W.judge past query requiredFacts evidence)
        | _ => none)

def Faulted (past since : List ChatCall) : Prop :=
  ∃ e, W.lastVerdict past since = some (.error e) ∧ e.IsJudgeFault

variable {W} {past since : List ChatCall}

theorem lastVerdict_append (later : List ChatCall) :
    W.lastVerdict past (since ++ later) =
      (W.lastVerdict (past ++ since) later).or (W.lastVerdict past since) := by
  induction since generalizing past with
  | nil => simp [lastVerdict]
  | cons call rest ih =>
    simp only [List.cons_append, lastVerdict, ih, List.append_assoc, List.nil_append, Option.or_assoc]

theorem lastVerdict_judgement (query : String) (requiredFacts : List Judge.RequiredFact)
    (evidence : List Evidence) :
    W.lastVerdict past (since ++ [.judgement query requiredFacts evidence]) =
      some (W.judge (past ++ since) query requiredFacts evidence) := by
  simp [lastVerdict_append, lastVerdict]

theorem lastVerdict_unjudged {later : List ChatCall} (h : ∀ call ∈ later, call.isJudgement = false) :
    W.lastVerdict past later = none := by
  induction later generalizing past with
  | nil => rfl
  | cons call rest ih =>
    have hrest : W.lastVerdict (past ++ [call]) rest = none :=
      ih fun other hother => h other (List.mem_cons_of_mem _ hother)
    have hcall := h call List.mem_cons_self
    cases call with
    | judgement query requiredFacts evidence => simp [ChatCall.isJudgement] at hcall
    | retrieval query corpus iteration => simp [lastVerdict, hrest]
    | invocation messages => simp [lastVerdict, hrest]

theorem faulted_unjudged {later : List ChatCall} (h : ∀ call ∈ later, call.isJudgement = false) :
    W.Faulted past (since ++ later) ↔ W.Faulted past since := by
  unfold Faulted
  rw [lastVerdict_append, lastVerdict_unjudged h, Option.none_or]

end Verdicts

section Silent

variable (ctx : SecurityContext) (args : CheckpointArgs) (deliverable : Prop)

/-- The row of the run bears its identity, provided that a refusal can be `deliverable`. -/
def Owned (s : ChatStores) : Prop :=
  deliverable → args.saving = true →
    ∃ row, Table.selectOne (CheckpointTable.ofRun args.runId) s.checkpoints = some row ∧
      row.identity = (checkpointOf ctx args 0 .empty).identity

/-- What a part of the run leads to that does not call the judge. -/
structure Unjudged {α : Type} (s : ChatStores) (r : Except ChatError α) (s' : ChatStores) : Prop where
  owned : Owned ctx args deliverable s → Owned ctx args deliverable s'
  clean : RaisesOnly (fun e => ¬e.IsJudgeFault) r
  calls : ∃ more, s'.calls = s.calls ++ more ∧ ∀ call ∈ more, call.isJudgement = false

/-- A method that does not call the judge. -/
def Silent {α : Type} (m : ChatMethod α) : Prop :=
  ∀ t s, m.Meets W.eval (fun r _ s' => Unjudged ctx args deliverable s r s') t s

variable {W ctx args deliverable} {s s' s'' : ChatStores} {α β : Type}

theorem Unjudged.rest {r : Except ChatError α} (h : RaisesOnly (fun e => ¬e.IsJudgeFault) r) :
    Unjudged ctx args deliverable s r s :=
  ⟨id, h, [], by simp, by simp⟩

theorem Unjudged.trans {r : Except ChatError α} {r' : Except ChatError β}
    (h : Unjudged ctx args deliverable s r s') (h' : Unjudged ctx args deliverable s' r' s'') :
    Unjudged ctx args deliverable s r' s'' := by
  obtain ⟨more, hmore, hquiet⟩ := h.calls
  obtain ⟨more', hmore', hquiet'⟩ := h'.calls
  refine ⟨fun howned => h'.owned (h.owned howned), h'.clean, more ++ more', ?_, ?_⟩
  · rw [hmore', hmore, List.append_assoc]
  · intro call hcall
    rcases List.mem_append.mp hcall with hcall | hcall
    · exact hquiet call hcall
    · exact hquiet' call hcall

theorem Unjudged.raise {e : ChatError} (h : Unjudged ctx args deliverable s (.error e : Except ChatError α) s') :
    Unjudged ctx args deliverable s (.error e : Except ChatError β) s' :=
  ⟨h.owned, .error (h.clean e rfl), h.calls⟩

theorem Silent.pure (a : α) : Silent W ctx args deliverable (pure a : ChatMethod α) :=
  fun _ _ => Unjudged.rest (.ok a)

theorem Silent.self : Silent W ctx args deliverable (Method.self : ChatMethod IterationState) :=
  fun t _ => Unjudged.rest (.ok t)

theorem Silent.assign (f : IterationState → IterationState) :
    Silent W ctx args deliverable (Method.assign f : ChatMethod Unit) :=
  fun _ _ => Unjudged.rest (.ok ())

theorem Silent.ofExcept {r : Except ChatError α} (h : RaisesOnly ChatError.OfBuilder r) :
    Silent W ctx args deliverable (Method.ofExcept r : ChatMethod α) :=
  fun _ _ => Unjudged.rest (h.mono fun _ he => he.not_fault)

theorem Silent.reraise {e : ChatError} (h : ¬e.IsJudgeFault) :
    Silent W ctx args deliverable (Method.reraise e : ChatMethod α) :=
  fun _ _ => Unjudged.rest (.error h)

theorem Silent.bind {m : ChatMethod α} {f : α → ChatMethod β} (hm : Silent W ctx args deliverable m)
    (hf : ∀ a, Silent W ctx args deliverable (f a)) : Silent W ctx args deliverable (m >>= f) := by
  intro t s
  rw [Method.meets_bind]
  apply (hm t s).mono
  intro r t' s' hr
  cases r with
  | ok a => exact (hf a t' s').mono fun _ _ _ hr' => hr.trans hr'
  | error e => exact hr.raise

theorem Silent.ite {c : Prop} [Decidable c] {m n : ChatMethod α} (hm : Silent W ctx args deliverable m)
    (hn : Silent W ctx args deliverable n) : Silent W ctx args deliverable (if c then m else n) := by
  split
  · exact hm
  · exact hn

/-- An operation whose faults are raised as something else. -/
theorem Silent.tryPerform {op : ChatOp α} {handler : ChatError → ChatMethod α}
    (hcheckpoints : ∀ s, (W.eval op s).2.checkpoints = s.checkpoints)
    (hcalls : ∀ s, ∃ more, (W.eval op s).2.calls = s.calls ++ more ∧ ∀ call ∈ more, call.isJudgement = false)
    (hhandler : ∀ e, Silent W ctx args deliverable (handler e)) :
    Silent W ctx args deliverable (Method.tryCatch (Method.perform op) handler) := by
  intro t s
  rw [Method.meets_tryCatch, Method.meets_perform]
  have howned : Owned ctx args deliverable s → Owned ctx args deliverable (W.eval op s).2 := by
    unfold Owned
    rw [hcheckpoints s]
    exact id
  cases hr : (W.eval op s).1 with
  | ok a => exact ⟨howned, .ok a, hcalls s⟩
  | error e =>
    have hop : Unjudged ctx args deliverable s (.ok () : Except ChatError Unit) (W.eval op s).2 :=
      ⟨howned, .ok (), hcalls s⟩
    exact (hhandler e t (W.eval op s).2).mono fun _ _ _ hr' => hop.trans hr'

theorem silent_now : Silent W ctx args deliverable (Method.perform .now : ChatMethod Datetime) :=
  fun _ s => ⟨id, .ok (W.now s.calls), [], (List.append_nil s.calls).symm, by simp⟩

theorem silent_conflictStage (texts : ChatTexts) (query : String) (scope : TemporalScope)
    (evidence : List Evidence) : Silent W ctx args deliverable (conflictStage texts query scope evidence) :=
  silent_now.bind fun _ => Silent.pure _

end Silent

section Saving

variable {W} {ctx : SecurityContext} {args : CheckpointArgs} {deliverable : Prop} {s : ChatStores}

/-- A save makes the run own its row, and is accepted if it does already. -/
theorem meets_saveCheckpoint (deliverable : Prop) (roundIndex : Int) (t : IterationState) (s : ChatStores) :
    (saveCheckpoint ctx args roundIndex).Meets W.eval (fun r _ s' =>
      Unjudged ctx args deliverable s r s' ∧ (r = .ok () → Owned ctx args deliverable s') ∧
        (Owned ctx args deliverable s → deliverable → r = .ok ())) t s := by
  unfold saveCheckpoint
  rw [Method.meets_self_bind]
  split
  · rename_i hsaving
    rw [Method.meets_perform]
    have hidentity : (checkpointOf ctx args roundIndex t).identity = (checkpointOf ctx args 0 .empty).identity :=
      rfl
    rcases hsave : CheckpointTable.saveRunCheckpoint s.checkpoints (checkpointOf ctx args roundIndex t) with
      ⟨r, rows⟩
    simp only [eval, hsave]
    cases r with
    | ok u =>
      have hfound := CheckpointTable.saveRunCheckpoint_ok hsave args.runId
      have hrow : Owned ctx args deliverable { s with checkpoints := rows } :=
        fun _ _ => ⟨_, hfound.trans (if_pos rfl), hidentity⟩
      exact ⟨⟨fun _ => hrow, .ok u, [], by simp, by simp⟩, fun _ => hrow, fun _ _ => rfl⟩
    | error e =>
      have hrefused : Owned ctx args deliverable s → ¬deliverable := by
        intro howned hdeliverable
        obtain ⟨row, hrow, hsame⟩ := howned hdeliverable hsaving
        unfold CheckpointTable.saveRunCheckpoint at hsave
        have hrow' : Table.selectOne
            (CheckpointTable.ofRun (checkpointOf ctx args roundIndex t).runId) s.checkpoints = some row := hrow
        simp [hrow', hidentity, hsame] at hsave
      have hconflict : e = .checkpointIdentityConflict args.runId ∧ rows = s.checkpoints := by
        unfold CheckpointTable.saveRunCheckpoint at hsave
        split at hsave
        · split at hsave
          · exact ⟨(Except.error.inj (Prod.mk.inj hsave).1).symm, (Prod.mk.inj hsave).2.symm⟩
          · cases hsave
        · cases hsave
      obtain ⟨rfl, rfl⟩ := hconflict
      exact ⟨⟨id, .error (by rintro ⟨_, _, h⟩; cases h), [], by simp, by simp⟩, by simp,
        fun howned hdeliverable => absurd hdeliverable (hrefused howned)⟩
  · rename_i hsaving
    exact ⟨Unjudged.rest (.ok ()), fun _ _ h => absurd h hsaving, fun _ _ => rfl⟩

theorem silent_saveCheckpoint (roundIndex : Int) :
    Silent W ctx args deliverable (saveCheckpoint ctx args roundIndex) :=
  fun t s => (meets_saveCheckpoint deliverable roundIndex t s).mono fun _ _ _ hr => hr.1

/-- Marking a run changes the status of its row at most. -/
theorem owned_setStatus {runId : String} {status : CheckpointStatus} (howned : Owned ctx args deliverable s) :
    Owned ctx args deliverable { s with checkpoints := CheckpointTable.setStatus s.checkpoints runId status } := by
  intro hdeliverable hsaving
  obtain ⟨row, hrow, hsame⟩ := howned hdeliverable hsaving
  have hfound : Table.selectOne (CheckpointTable.ofRun args.runId)
      (CheckpointTable.setStatus s.checkpoints runId status) = _ := CheckpointTable.selectOne_setStatus runId
  rw [hrow, Option.map_some] at hfound
  refine ⟨_, hfound, ?_⟩
  split
  · exact hsame
  · exact hsame

theorem meets_markDone (t : IterationState) (s : ChatStores) :
    (markDone args).Meets W.eval
      (fun r _ s' => Unjudged ctx args deliverable s r s' ∧ (deliverable → r = .ok ())) t s := by
  unfold markDone
  split
  · exact ⟨⟨owned_setStatus, .ok (), [], (List.append_nil s.calls).symm, by simp⟩, fun _ => rfl⟩
  · exact ⟨Unjudged.rest (.ok ()), fun _ => rfl⟩

theorem silent_markDone : Silent W ctx args deliverable (markDone args) :=
  fun t s => (meets_markDone t s).mono fun _ _ _ hr => hr.1

end Saving

section Parts

variable {W} {ctx : SecurityContext} {args : CheckpointArgs} {deliverable : Prop}

theorem silent_retrieval {query : String} {corpus : CorpusConfig} {iteration : Int}
    {handler : ChatError → ChatMethod (List Evidence)}
    (hhandler : ∀ e, Silent W ctx args deliverable (handler e)) :
    Silent W ctx args deliverable
      (Method.tryCatch (Method.perform (.retrieveEvidence query corpus iteration)) handler) :=
  Silent.tryPerform (fun _ => rfl) (fun s => ⟨[.retrieval query corpus iteration], rfl, by simp [ChatCall.isJudgement]⟩)
    hhandler

theorem silent_gapRetrieval (run : RunArgs) (query : String) (roundIdx : Int) :
    Silent W ctx args deliverable (gapRetrieval ctx run query roundIdx) := by
  refine (silent_retrieval fun e => Silent.reraise (by rintro ⟨_, _, h⟩; cases h)).bind fun evs => ?_
  refine Silent.self.bind fun state => ?_
  refine (Silent.ofExcept ((absorb_raises run evs _ _).mono fun _ => ChatError.IsBinding.ofBuilder)).bind fun absorbed => ?_
  exact (Silent.assign _).bind fun _ => Silent.pure _

theorem silent_runFastPath (query : String) (corpus : CorpusConfig) :
    Silent W ctx args deliverable (runFastPath ctx query corpus) :=
  (silent_retrieval fun _ => Silent.reraise (by rintro ⟨_, _, h⟩; cases h)).bind fun _ => Silent.pure _

theorem silent_synthesize (texts : ChatTexts) (query : String) (firstResult : FastPathResult)
    (evidence : List Evidence) (synthesis : SynthesisArgs) :
    Silent W ctx args deliverable (synthesize texts ctx query firstResult evidence synthesis) := by
  refine Silent.bind ?_ fun extraction => Silent.ofExcept (buildAnswerEnvelope_raises _ _ _ _ _ _ _ _)
  exact Silent.tryPerform (fun _ => rfl)
    (fun s => ⟨[.invocation (buildMessages query evidence synthesis.conflictReport)], rfl,
      by simp [ChatCall.isJudgement]⟩)
    fun e => Silent.reraise (by rintro ⟨_, _, h⟩; cases h)

theorem silent_finalizeIteration (texts : ChatTexts) (run : RunArgs) :
    Silent W ctx args deliverable (finalizeIteration texts ctx run) :=
  Silent.self.bind fun _ => silent_synthesize texts _ _ _ _

theorem silent_refusal {α : Type} (corporaUsed : List String) (accounting : Accounting)
    {f : AnswerEnvelope → ChatMethod α} (hf : ∀ env, Silent W ctx args deliverable (f env)) :
    Silent W ctx args deliverable (Method.ofExcept (buildNoEvidenceRefusal ctx corporaUsed accounting) >>= f) := by
  rw [buildNoEvidenceRefusal_eq]
  exact (Silent.ofExcept (.ok _)).bind hf

theorem silent_noEvidenceRound (run : RunArgs) (report : ConflictReport) :
    Silent W ctx args deliverable (noEvidenceRound ctx run report) :=
  (Silent.assign _).bind fun _ => Silent.self.bind fun _ => silent_refusal _ _ fun _ => Silent.pure _

theorem silent_decideRound (run : RunArgs) (roundIdx : Int) (gain : Gain) (coverage : SufficiencyResult) :
    Silent W ctx args deliverable (decideRound run roundIdx gain coverage) :=
  Silent.self.bind fun _ => (Silent.assign _).bind fun _ => Silent.pure _

/-- The call of the judge in a round. -/
theorem meets_judgeOrFault (query : String) (required : List Judge.RequiredFact) (evidence : List Evidence)
    (t : IterationState) (s : ChatStores) :
    (judgeOrFault query required evidence).Meets W.eval (fun r t' s' =>
      t' = t ∧ s'.checkpoints = s.checkpoints ∧ s'.calls = s.calls ++ [.judgement query required evidence] ∧
        match r with
        | .ok none => ∃ e, W.judge s.calls query required evidence = .error e ∧ e.IsJudgeFault
        | .ok (some coverage) => W.judge s.calls query required evidence = .ok coverage
        | .error e => W.judge s.calls query required evidence = .error e ∧ ¬e.IsJudgeFault) t s := by
  unfold judgeOrFault
  rw [Method.meets_tryCatch, Method.meets_bind, Method.meets_perform]
  rcases hverdict : W.judge s.calls query required evidence with e | coverage
  · simp only [eval, hverdict]
    cases e with
    | judge timeout text => exact ⟨rfl, rfl, rfl, _, rfl, timeout, text, rfl⟩
    | _ => exact ⟨rfl, rfl, rfl, rfl, by rintro ⟨_, _, h⟩; cases h⟩
  · simp only [eval, hverdict]
    exact ⟨rfl, rfl, rfl, rfl⟩

end Parts

end ChatWorld

end AgenticRag
