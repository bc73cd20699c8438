import AgenticRag.Foundations.CutShort
import AgenticRag.Services.RunConclusions

/-!
# The endings of a run

Wherever a checkpointed run is cut off, it leaves a checkpoint that can be resumed. Where it
returns an envelope, its checkpoint tells the state in which it has ended, and concludes that
envelope.
-/

namespace AgenticRag

open Method CheckpointTable

def ChatStores.rowOf (s : ChatStores) (runId : String) : Option CheckpointRow :=
  Table.selectOne (ofRun runId) s.checkpoints

/-- A row as a run leaves it. -/
structure CheckpointRow.Sound (row : CheckpointRow) : Prop where
  identity : row.identity = row.state.identity
  state : ∃ firstResult, row.state.Sound firstResult

/-- The run is not aborted, and its checkpoint is one that a run keeps. -/
def ChatStores.Kept (runId : String) (s : ChatStores) : Prop :=
  ∀ row, s.rowOf runId = some row → row.status ≠ .aborted ∧ row.Sound

namespace ChatWorld

section Endings

variable (model : List Message → Except ChatError ClaimExtraction) (texts : ChatTexts) (ctx : SecurityContext)

/-- What a run relies on: the model answers the same messages alike, corpora have their own ids, and
a judge that may be at fault is not joined with a model that may be. -/
structure Steady (W : ChatWorld) : Prop where
  modelled : ∀ calls messages, W.model calls messages = model messages
  corpora : ∀ corpusId corpus, W.resolveCorpus corpusId = .ok corpus → corpus.corpusId = corpusId
  judged : (∀ calls query required evidence e, W.judge calls query required evidence = .error e → ¬e.IsJudgeFault) ∨
    ∀ messages, ∃ extraction, model messages = .ok extraction

/-- The checkpoint tells the state of the run, and concludes what the state does. -/
def Tells (run : RunArgs) (t : IterationState) (s : ChatStores) : Prop :=
  ∀ row, s.rowOf run.runId = some row → row.state.Records t ∧
    row.state.conclusion model texts ctx = t.conclusion model texts ctx run.query run.corpusId run.firstResult

/-- An envelope that is returned is the one that a completed checkpoint concludes. -/
def Concludes (runId : String) (r : Except ChatError AnswerEnvelope) (t : IterationState) (s : ChatStores) : Prop :=
  ∀ env row, r = .ok env → s.rowOf runId = some row → row.status = .completed →
    row.state.Records t ∧ row.state.conclusion model texts ctx = .ok env

def RoundLeaves (run : RunArgs) : Except ChatError RoundEnd → IterationState → Prop
  | .ok (.terminal env), t => t.Gathers ctx run ∧ t.finalEvidence.Sublist t.evidenceById ∧
      t.conclusion model texts ctx run.query run.corpusId run.firstResult = .ok env
  | .ok _, t => t.Ready ctx run
  | .error _, _ => True

end Endings

section Parts

variable {W : ChatWorld} {model : List Message → Except ChatError ClaimExtraction} {texts : ChatTexts}
  {ctx : SecurityContext} {run : RunArgs} {t : IterationState} {s s' : ChatStores} {runId : String}

theorem Tells.concludes (h : Tells model texts ctx run t s) {r : Except ChatError AnswerEnvelope}
    (hr : r = t.conclusion model texts ctx run.query run.corpusId run.firstResult) :
    Concludes model texts ctx run.runId r t s := by
  rintro env row rfl hrow -
  exact ⟨(h row hrow).1, (h row hrow).2.trans hr.symm⟩

/-- A mark changes the status only. -/
theorem rowOf_marked (s : ChatStores) (marked : String) (status : CheckpointStatus) {row : CheckpointRow}
    (h : { s with checkpoints := setStatus s.checkpoints marked status }.rowOf runId = some row) :
    ∃ old, s.rowOf runId = some old ∧ row.state = old.state ∧ row.identity = old.identity ∧
      (row.status = old.status ∨ row.status = status) := by
  unfold ChatStores.rowOf at h
  rw [selectOne_setStatus, Option.map_eq_some_iff] at h
  obtain ⟨old, hold, rfl⟩ := h
  refine ⟨old, hold, ?_⟩
  split
  · exact ⟨rfl, rfl, .inr rfl⟩
  · exact ⟨rfl, rfl, .inl rfl⟩

theorem kept_marked (hs : s.Kept runId) (marked : String) {status : CheckpointStatus} (hstatus : status ≠ .aborted) :
    { s with checkpoints := setStatus s.checkpoints marked status }.Kept runId := by
  intro row hrow
  obtain ⟨old, hold, hstate, hidentity, hmark⟩ := rowOf_marked s marked status hrow
  obtain ⟨hkept, hsound⟩ := hs old hold
  refine ⟨?_, ?_, ?_⟩
  · rcases hmark with hmark | hmark
    · rw [hmark]
      exact hkept
    · rw [hmark]
      exact hstatus
  · rw [hidentity, hstate]
    exact hsound.identity
  · rw [hstate]
    exact hsound.state

theorem Tells.marked (h : Tells model texts ctx run t s) (status : CheckpointStatus) :
    Tells model texts ctx run t { s with checkpoints := setStatus s.checkpoints run.runId status } := by
  intro row hrow
  obtain ⟨old, hold, hstate, -, -⟩ := rowOf_marked s run.runId status hrow
  rw [hstate]
  exact h old hold

/-- The mark of a finished run. -/
theorem passes_markDone {α : Type} {args : CheckpointArgs} {f : Unit → ChatMethod α}
    {post : Except ChatError α → IterationState → ChatStores → Prop} (hsaving : args.saving = true)
    (hs : s.Kept runId)
    (hf : ∀ s', s' = { s with checkpoints := setStatus s.checkpoints args.runId .completed } → s'.Kept runId →
      (f ()).Passes W.eval (ChatStores.Kept runId) post t s') :
    (markDone args >>= f).Passes W.eval (ChatStores.Kept runId) post t s := by
  have hkept := kept_marked hs args.runId (show CheckpointStatus.completed ≠ .aborted by decide)
  unfold markDone
  rw [passes_bind, if_pos hsaving, passes_perform]
  exact ⟨hkept, hf _ rfl hkept⟩

/-- A save that is refused changes nothing. -/
theorem saveRunCheckpoint_error {rows rows' : CheckpointTable} {ck : RunCheckpoint} {e : ChatError}
    (h : saveRunCheckpoint rows ck = (.error e, rows')) : rows' = rows := by
  unfold saveRunCheckpoint at h
  split at h
  · split at h
    · exact (Prod.mk.inj h).2.symm
    · cases (Prod.mk.inj h).1
  · cases (Prod.mk.inj h).1

/-- The save of a checkpoint. -/
theorem passes_save {α : Type} {args : CheckpointArgs} {f : Unit → ChatMethod α}
    {post : Except ChatError α → IterationState → ChatStores → Prop} {roundIndex : Int} {firstResult : FastPathResult}
    (hsaving : args.saving = true) (hsound : (checkpointOf ctx args roundIndex t).Sound firstResult)
    (hs : s.Kept args.runId) (herror : ∀ e s', post (.error e) t s')
    (hf : ∀ s', s'.Kept args.runId →
      (∀ row, s'.rowOf args.runId = some row → row.state = checkpointOf ctx args roundIndex t) →
      (f ()).Passes W.eval (ChatStores.Kept args.runId) post t s') :
    (saveCheckpoint ctx args roundIndex >>= f).Passes W.eval (ChatStores.Kept args.runId) post t s := by
  unfold saveCheckpoint
  rw [passes_bind, passes_self_bind, if_pos hsaving, passes_perform]
  simp only [eval]
  rcases hsave : saveRunCheckpoint s.checkpoints (checkpointOf ctx args roundIndex t) with ⟨r, rows⟩
  cases r with
  | error e =>
    obtain rfl := saveRunCheckpoint_error hsave
    exact ⟨hs, herror e _⟩
  | ok u =>
    have hrow : { s with checkpoints := rows }.rowOf args.runId = _ := saveRunCheckpoint_ok hsave args.runId
    have hid : args.runId = (checkpointOf ctx args roundIndex t).runId := rfl
    rw [if_pos hid] at hrow
    have hkept : { s with checkpoints := rows }.Kept args.runId := by
      rintro row hfound
      rw [hrow, Option.some.injEq] at hfound
      subst hfound
      refine ⟨?_, rfl, firstResult, hsound⟩
      cases hold : Table.selectOne (ofRun args.runId) s.checkpoints with
      | none => simp [← hid, hold]
      | some old => simpa [← hid, hold] using (hs old hold).1
    refine ⟨hkept, hf _ hkept ?_⟩
    rintro row hfound
    rw [hrow, Option.some.injEq] at hfound
    rw [← hfound]

/-- The save of a state that a run has reached. -/
theorem passes_saveCheckpoint {α : Type} {f : Unit → ChatMethod α}
    {post : Except ChatError α → IterationState → ChatStores → Prop} (hrun : run.Regular ctx)
    (ht : t.Gathers ctx run) (hfinal : t.finalEvidence.Sublist t.evidenceById) (hs : s.Kept run.runId)
    (roundIndex : Int) (herror : ∀ e s', post (.error e) t s')
    (hf : ∀ s', s'.Kept run.runId → Tells model texts ctx run t s' →
      (f ()).Passes W.eval (ChatStores.Kept run.runId) post t s') :
    (saveCheckpoint ctx run.toCheckpointArgs roundIndex >>= f).Passes W.eval (ChatStores.Kept run.runId) post t s := by
  have hsound := checkpointOf_sound hrun ht hfinal roundIndex
  have hrecords := checkpointOf_records ctx run.toCheckpointArgs roundIndex t
  refine passes_save hrun.saving hsound hs herror fun s' hs' hrow => hf s' hs' fun row hfound => ?_
  rw [hrow row hfound]
  exact ⟨hrecords, hrecords.conclusion hsound ht.nonempty hfinal⟩

/-- The model's answer, and the envelope built from it. -/
theorem passes_finalizeIteration (hmodel : ∀ calls messages, W.model calls messages = model messages)
    (hs : s.Kept runId) :
    (finalizeIteration texts ctx run).Passes W.eval (ChatStores.Kept runId) (fun r t' s' =>
      r = t.envelope model texts ctx run.query run.firstResult ∧ t' = t ∧ s'.checkpoints = s.checkpoints) t s := by
  unfold finalizeIteration synthesize
  rw [passes_self_bind, passes_bind, passes_tryCatch, passes_perform]
  simp only [eval, hmodel]
  refine ⟨hs, ?_⟩
  unfold IterationState.envelope
  cases model (buildMessages run.query t.finalEvidence t.finalReport) with
  | error e => exact passes_reraise.mpr ⟨rfl, rfl, rfl⟩
  | ok extraction =>
    dsimp only
    rw [passes_ofExcept]
    simp only [and_true]

/-- The conflict stage reads the clock. -/
theorem passes_conflictStage {α : Type} {query : String} {scope : TemporalScope} {evidence : List Evidence}
    {f : ConflictReport × List Evidence → ChatMethod α} {post : Except ChatError α → IterationState → ChatStores → Prop}
    (hs : s.Kept runId)
    (hf : (f (runConflictStage texts (W.now s.calls) query scope evidence)).Passes W.eval (ChatStores.Kept runId) post
      t s) :
    (conflictStage texts query scope evidence >>= f).Passes W.eval (ChatStores.Kept runId) post t s := by
  unfold conflictStage
  rw [passes_bind, passes_bind, passes_perform]
  exact ⟨hs, passes_pure.mpr hf⟩

/-- The call of the judge in a round. -/
theorem passes_judgeOrFault (query : String) (required : List Judge.RequiredFact) (evidence : List Evidence)
    (t : IterationState) (hs : s.Kept runId) :
    (judgeOrFault query required evidence).Passes W.eval (ChatStores.Kept runId) (fun r t' _ =>
      t' = t ∧ (r = .ok none → ∃ e, W.judge s.calls query required evidence = .error e ∧ e.IsJudgeFault)) t s := by
  constructor
  · unfold judgeOrFault
    have hbody : Uses (fun {β} (op : ChatOp β) => ∀ s, s.Kept runId → (W.eval op s).2.Kept runId)
        (Method.perform (.judge query required evidence) >>= fun coverage => pure (some coverage) :
          ChatMethod (Option SufficiencyResult)) :=
      Uses.bind (Uses.perform fun s hs => hs) fun _ => Uses.pure _
    refine Prog.Uses.respects (fun op s hop hs => hop s hs) (Uses.tryCatch hbody (fun e => ?_) t) hs
    cases e with
    | judge timeout text => exact Uses.pure _
    | _ => exact Uses.reraise _
  · apply (meets_judgeOrFault query required evidence t s).mono
    rintro r t' s' ⟨rfl, -, -, hr⟩
    refine ⟨rfl, ?_⟩
    rintro rfl
    exact hr

/-- The retrieval of a later round. -/
theorem passes_gapRetrieval (hcorpus : run.corpus.corpusId = run.corpusId) (ht : t.Gathers ctx run)
    (query : String) (roundIdx : Int) (hs : s.Kept runId) :
    (gapRetrieval ctx run query roundIdx).Passes W.eval (ChatStores.Kept runId) (fun r t' _ =>
      ∀ gain, r = .ok gain → t'.Gathers ctx run) t s := by
  unfold gapRetrieval
  rw [passes_bind, passes_tryCatch, passes_perform]
  refine ⟨hs, ?_⟩
  simp only [eval]
  cases W.retrieve s.calls query run.corpus roundIdx with
  | error e =>
    dsimp only
    rw [passes_reraise]
    rintro gain ⟨⟩
  | ok evs =>
    dsimp only
    rw [passes_self_bind, passes_bind, passes_ofExcept]
    have hcalled : { t with retrievalCalls := t.retrievalCalls + 1 }.Gathers ctx run :=
      ⟨ht.nonempty, ht.distinct, ht.gathered⟩
    cases habsorbed : absorb ctx run evs { t with retrievalCalls := t.retrievalCalls + 1 } ⟨[], false⟩ with
    | error e =>
      rintro gain ⟨⟩
    | ok absorbed =>
      obtain ⟨t', gain⟩ := absorbed
      dsimp only
      rw [passes_assign_bind, passes_pure]
      rintro gain ⟨⟩
      have hgathers := absorb_gathers hcorpus habsorbed hcalled
      exact ⟨hgathers.nonempty, hgathers.distinct, hgathers.gathered⟩

/-- The part of a round after its retrieval. -/
theorem passes_assessRound (hW : Steady model W) (hrun : run.Regular ctx) (ht : t.Gathers ctx run)
    (roundIdx : Int) (gain : Gain) (hs : s.Kept runId) :
    (assessRound texts ctx run roundIdx gain).Passes W.eval (ChatStores.Kept runId)
      (fun r t' _ => RoundLeaves model texts ctx run r t') t s := by
  unfold assessRound
  rw [passes_self_bind]
  apply passes_conflictStage hs
  have hsub := runConflictStage_sublist texts (W.now s.calls) run.query t.scope t.evidenceById
  generalize runConflictStage texts (W.now s.calls) run.query t.scope t.evidenceById = staged at hsub
  obtain ⟨report, kept⟩ := staged
  dsimp only at hsub ⊢
  split
  · -- the temporal filter has dropped everything
    unfold noEvidenceRound
    rw [passes_assign_bind, passes_self_bind, buildNoEvidenceRefusal_eq, hrun.corpus]
    refine passes_pure.mpr ⟨⟨ht.nonempty, ht.distinct, ht.gathered⟩, List.nil_sublist _, ?_⟩
    unfold IterationState.conclusion
    rw [if_pos rfl]
  rename_i hkept
  split
  · rw [passes_assign_bind, passes_pure]
    exact ⟨⟨ht.nonempty, ht.distinct, ht.gathered⟩, hsub, hkept⟩
  rename_i hreport
  rw [passes_assign_bind, passes_bind]
  apply ((passes_judgeOrFault run.query run.required kept _ hs).kept hs).mono
  rintro r t' s' ⟨hs', rfl, hfault⟩
  cases r with
  | error e => trivial
  | ok verdict =>
    cases verdict with
    | some coverage =>
      dsimp only
      rw [passes_assign_bind]
      unfold decideRound
      rw [passes_self_bind]
      dsimp only
      rw [passes_assign_bind, passes_pure]
      have hready : ∀ {finalReason : Option String} {stopPolicy : StopPolicy},
          IterationState.Ready ctx run { t with
            finalReport := some report
            finalEvidence := kept
            prevCovered := (t.coverage.map (·.coveredFactIds)).getD []
            coverage := some coverage
            finalReason := finalReason
            stopPolicy := stopPolicy } :=
        ⟨⟨ht.nonempty, ht.distinct, ht.gathered⟩, hsub, hkept⟩
      split
      · exact hready
      · exact hready
    | none =>
      dsimp only
      unfold judgeFaultRound
      rw [passes_assign_bind, passes_self_bind, passes_bind, passes_ofExcept]
      have hgathers : IterationState.Gathers ctx run { t with
          coverage := some .abstaining
          finalEvidence := kept
          finalReport := some report
          finalReason := some "judge_fault"
          conflictStop := false
          prevCovered := (t.coverage.map (·.coveredFactIds)).getD [] } :=
        ⟨ht.nonempty, ht.distinct, ht.gathered⟩
      split
      · rename_i env henv
        refine passes_pure.mpr ⟨hgathers, hsub, ?_⟩
        obtain ⟨e, he, hjudge⟩ := hfault rfl
        have hmodel := hW.judged.resolve_left fun hnone => hnone _ _ _ _ e he hjudge
        unfold IterationState.conclusion
        rw [if_neg hkept]
        exact hgathers.envelope_faulted hrun hsub hmodel rfl rfl (by simpa [isContradicted] using hreport) henv
      · trivial

theorem passes_runRound (hW : Steady model W) (hrun : run.Regular ctx) (ht : t.Ready ctx run) (roundIdx : Int)
    (hs : s.Kept runId) :
    (runRound texts ctx run roundIdx).Passes W.eval (ChatStores.Kept runId)
      (fun r t' _ => RoundLeaves model texts ctx run r t') t s := by
  have hgathers {gapRounds : Int} : IterationState.Gathers ctx run { t with gapRounds := gapRounds } :=
    ⟨ht.nonempty, ht.distinct, ht.gathered⟩
  unfold runRound
  rw [passes_assign_bind, passes_self_bind]
  split
  · exact passes_assessRound hW hrun hgathers roundIdx _ hs
  split
  · exact passes_reraise.mpr trivial
  split
  · -- no query is left, and the state stays as the last round has made it
    rw [passes_assign_bind, passes_pure]
    exact ⟨⟨ht.nonempty, ht.distinct, ht.gathered⟩, ht.final, ht.chosen⟩
  · rw [passes_bind]
    apply ((passes_gapRetrieval hrun.corpus hgathers _ roundIdx hs).kept hs).mono
    rintro r t' s' ⟨hs', hgathered⟩
    cases r with
    | ok gain => exact passes_assessRound hW hrun (hgathered gain rfl) roundIdx gain hs'
    | error e => trivial

/-- A state with final evidence concludes what it is synthesized to. -/
theorem conclusion_chosen (hchosen : t.finalEvidence ≠ []) (query corpusId : String) (firstResult : FastPathResult) :
    t.conclusion model texts ctx query corpusId firstResult = t.envelope model texts ctx query firstResult :=
  if_neg hchosen

/-- A run that is finalized after its state has been saved. -/
theorem finalizeIteration_concludes (hW : Steady model W) (htells : Tells model texts ctx run t s)
    (hchosen : t.finalEvidence ≠ []) (hs : s.Kept run.runId) :
    (finalizeIteration texts ctx run).Passes W.eval (ChatStores.Kept run.runId)
      (Concludes model texts ctx run.runId) t s := by
  apply (passes_finalizeIteration hW.modelled hs).mono
  rintro r t' s' ⟨hr, rfl, hcheckpoints⟩
  have htells' : Tells model texts ctx run t' s' := by
    intro row hrow
    unfold ChatStores.rowOf at hrow
    rw [hcheckpoints] at hrow
    exact htells row hrow
  exact htells'.concludes (hr.trans (conclusion_chosen hchosen _ _ _).symm)

/-- The loop over the rounds; without any, the checkpoint must tell the state already. -/
theorem loopRounds_concludes (hW : Steady model W) (hrun : run.Regular ctx) (rounds : Nat) (roundIdx : Int)
    (ht : t.Ready ctx run) (hs : s.Kept run.runId) (htells : rounds = 0 → Tells model texts ctx run t s) :
    (loopRounds texts ctx run rounds roundIdx).Passes W.eval (ChatStores.Kept run.runId)
      (Concludes model texts ctx run.runId) t s := by
  induction rounds generalizing roundIdx t s with
  | zero =>
    unfold loopRounds
    rw [passes_bind]
    apply ((passes_finalizeIteration hW.modelled hs).kept hs).mono
    rintro r t' s' ⟨hs', hr, rfl, hcheckpoints⟩
    cases r with
    | error e => rintro env row ⟨⟩
    | ok env =>
      refine passes_markDone hrun.saving hs' ?_
      rintro _ rfl -
      have htells' : Tells model texts ctx run t' { s' with
          checkpoints := setStatus s'.checkpoints run.runId .completed } := by
        rw [hcheckpoints]
        exact (htells rfl).marked .completed
      exact passes_pure.mpr (htells'.concludes (hr.trans (conclusion_chosen ht.chosen _ _ _).symm))
  | succ rounds ih =>
    unfold loopRounds
    rw [passes_bind]
    apply ((passes_runRound hW hrun ht roundIdx hs).kept hs).mono
    rintro r t' s' ⟨hs', hround⟩
    have hraises : ∀ (e : ChatError) s'', Concludes model texts ctx run.runId (.error e) t' s'' := by
      rintro e s'' env row ⟨⟩
    cases r with
    | error e => exact hraises e s'
    | ok roundEnd =>
      cases roundEnd with
      | broken =>
        refine passes_saveCheckpoint hrun hround.toGathers hround.final hs' _ hraises
          fun s₁ hs₁ (htells₁ : Tells model texts ctx run t' s₁) => ?_
        refine passes_markDone hrun.saving hs₁ ?_
        rintro _ rfl hs₂
        exact finalizeIteration_concludes hW (htells₁.marked .completed) hround.chosen hs₂
      | terminal env =>
        obtain ⟨hgathers, hfinal, henv⟩ := hround
        refine passes_saveCheckpoint hrun hgathers hfinal hs' _ hraises
          fun s₁ hs₁ (htells₁ : Tells model texts ctx run t' s₁) => ?_
        refine passes_markDone hrun.saving hs₁ ?_
        rintro _ rfl -
        exact passes_pure.mpr ((htells₁.marked .completed).concludes henv.symm)
      | proceeds =>
        refine passes_saveCheckpoint hrun hround.toGathers hround.final hs' _ hraises
          fun s₁ hs₁ (htells₁ : Tells model texts ctx run t' s₁) => ?_
        exact ih _ hround hs₁ fun _ => htells₁

/-- A run from its first checkpoint on. -/
theorem startedRun_concludes (hW : Steady model W) (hrun : run.Regular ctx) (rounds : Nat)
    (ht : t.Ready ctx run) (hs : s.Kept run.runId) :
    (saveCheckpoint ctx run.toCheckpointArgs 0 >>= fun _ => loopRounds texts ctx run rounds 0).Passes W.eval
      (ChatStores.Kept run.runId) (Concludes model texts ctx run.runId) t s := by
  refine passes_saveCheckpoint hrun ht.toGathers ht.final hs 0 ?_
    fun s₁ hs₁ (htells₁ : Tells model texts ctx run t s₁) => ?_
  · rintro e s' env row ⟨⟩
  · exact loopRounds_concludes hW hrun rounds 0 ht hs₁ fun _ => htells₁

/-- A run from its first retrieval on. -/
theorem answer_concludes (hW : Steady model W) (request : IterationRequest) (hid : request.runId = some runId)
    (hjudged : request.judged = true) (hstore : request.hasStore = true) (hs : s.Kept runId)
    (hopen : ∀ row, s.rowOf runId = some row → row.status ≠ .completed) :
    (answerWithIteration texts ctx request).Passes W.eval (ChatStores.Kept runId)
      (Concludes model texts ctx runId) t s := by
  have hraises : ∀ (e : ChatError) t s, Concludes model texts ctx runId (.error e) t s := by
    rintro e t s env row ⟨⟩
  unfold answerWithIteration
  rw [if_neg (by simp [hjudged])]
  split
  · exact passes_reraise.mpr (hraises _ _ _)
  rw [passes_bind, passes_perform]
  refine ⟨hs, ?_⟩
  simp only [eval]
  cases W.resolveCorpus request.corpusId with
  | error e => exact hraises _ _ _
  | ok corpus =>
    dsimp only
    unfold runFastPath
    rw [passes_bind, passes_bind, passes_tryCatch, passes_perform]
    refine ⟨hs, ?_⟩
    simp only [eval]
    cases W.retrieve s.calls request.query corpus 0 with
    | error e => exact passes_reraise.mpr (hraises _ _ _)
    | ok evidence =>
      dsimp only
      rw [passes_pure]
      dsimp only
      split
      · -- nothing has been saved
        rw [passes_ofExcept]
        rintro env row - hrow hcompleted
        exact absurd hcompleted (hopen row hrow)
      rename_i hsufficient
      have hevidence : evidence ≠ [] := by simpa [FastPathResult.sufficiency] using hsufficient
      rw [passes_assign_bind]
      have hrun : (request.run texts corpus ⟨request.query, corpus.corpusId, ctx.tenantId, evidence⟩).Regular ctx :=
        ⟨by simp [IterationRequest.run, hid, hstore], rfl, hevidence, rfl, rfl⟩
      have hrunId : (request.run texts corpus ⟨request.query, corpus.corpusId, ctx.tenantId, evidence⟩).runId =
          runId := by
        simp [IterationRequest.run, hid]
      have hready : IterationState.Ready ctx
          (request.run texts corpus ⟨request.query, corpus.corpusId, ctx.tenantId, evidence⟩)
          (.initial request.query ⟨request.query, corpus.corpusId, ctx.tenantId, evidence⟩
            (texts.parseTemporalScope request.query)) :=
        ⟨⟨byId_ne_nil hevidence, byId_distinct evidence, fun ev hev => .inl (mem_of_byId hev)⟩, List.Sublist.refl _,
          byId_ne_nil hevidence⟩
      rw [← hrunId] at hs ⊢
      exact startedRun_concludes hW hrun _ hready hs

end Parts

end ChatWorld

end AgenticRag
