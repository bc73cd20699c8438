import AgenticRag.Foundations.Transition
import AgenticRag.Services.ResumeEndings

/-!
# Histories of a run

The calls that one principal makes for one query under one run id, one after another: starts and
resumptions, each of which may crash between two of its operations, and aborts.
-/

namespace AgenticRag

open Method CheckpointTable

/-- A run id with the principal and the query that it is used for. -/
structure RunOwner where
  runId : String
  query : String
  tenantId : String
  userId : String
  sessionId : String
  deriving DecidableEq, Repr

/-- The caller is the principal of the run. -/
def RunOwner.Is (owner : RunOwner) (ctx : SecurityContext) : Prop :=
  ctx.tenantId = owner.tenantId ∧ ctx.userId = owner.userId ∧ ctx.sessionId = owner.sessionId

instance (owner : RunOwner) (ctx : SecurityContext) : Decidable (owner.Is ctx) := inferInstanceAs (Decidable (_ ∧ _ ∧ _))

inductive RunCall where
  | answers (request : IterationRequest)
  | resumes (request : ResumeRequest)
  deriving DecidableEq, Repr

/-- The call is made under the run id. Without a judge or a store `answer_with_iteration` ignores the
id. -/
def RunOwner.Makes (owner : RunOwner) : RunCall → Prop
  | .answers request => request.runId = some owner.runId ∧ request.query = owner.query ∧ request.judged = true ∧
      request.hasStore = true
  | .resumes request => request.runId = owner.runId

instance (owner : RunOwner) : ∀ call, Decidable (owner.Makes call)
  | .answers _ => inferInstanceAs (Decidable (_ ∧ _ ∧ _ ∧ _))
  | .resumes _ => inferInstanceAs (Decidable (_ = _))

def RunCall.program (texts : ChatTexts) (ctx : SecurityContext) : RunCall → ChatMethod AnswerEnvelope
  | .answers request => answerWithIteration texts ctx request
  | .resumes request => resumeRun texts ctx request

/-- A call in some surroundings, one that crashes after some of its operations, or
`mark_run_checkpoint_done` with `aborted`. -/
inductive RunMove where
  | calls (W : ChatWorld) (ctx : SecurityContext) (call : RunCall)
  | crashes (W : ChatWorld) (ctx : SecurityContext) (call : RunCall) (operations : Nat)
  | aborts

/-- The stores, whether the run has been marked aborted, and the envelope and the state with which
the last run has finished, unless its checkpoint has been changed by a call that did not finish. -/
structure RunHistory where
  stores : ChatStores
  aborted : Bool
  finished : Option (AnswerEnvelope × IterationState)
  deriving DecidableEq, Repr

namespace RunHistory

/-- After a call that has not finished. -/
def left (h : RunHistory) (runId : String) (s : ChatStores) : RunHistory :=
  ⟨s, h.aborted, if s.rowOf runId = h.stores.rowOf runId then h.finished else none⟩

/-- After a call that has come to its end. -/
def ended (h : RunHistory) (runId : String) :
    (Except ChatError AnswerEnvelope × IterationState) × ChatStores → RunHistory
  | ((.ok env, t), s) => ⟨s, h.aborted, some (env, t)⟩
  | ((.error _, _), s) => h.left runId s

def step (texts : ChatTexts) (owner : RunOwner) : Transition RunHistory RunMove
  | h, .calls W ctx call =>
    if owner.Is ctx ∧ owner.Makes call then
      some (h.ended owner.runId ((call.program texts ctx .empty).exec W.eval h.stores))
    else none
  | h, .crashes W ctx call operations =>
    if owner.Is ctx ∧ owner.Makes call then
      some (h.left owner.runId ((call.program texts ctx .empty).cut W.eval operations h.stores))
    else none
  | h, .aborts =>
    some ⟨{ h.stores with checkpoints := markRunCheckpointDone h.stores.checkpoints owner.runId true }, true, h.finished⟩

section Laws

variable (model : List Message → Except ChatError ClaimExtraction) (texts : ChatTexts) (owner : RunOwner)

/-- Once the run has been marked aborted it is not resumed. While its status is completed, its
checkpoint tells the state in which the last run has finished, and a resumption with unchanged
authorization returns the envelope of that run. -/
structure Lawful (h : RunHistory) : Prop where
  refuses : h.aborted = true → ∀ (W : ChatWorld) ctx (request : ResumeRequest), request.runId = owner.runId →
    ∃ reason, (W.resume texts ctx request h.stores).1.1 = .error (.resumeAuth reason)
  tells : ∀ row env t, h.stores.rowOf owner.runId = some row → row.status = .completed → h.finished = some (env, t) →
    row.state.Records t
  repeats : ∀ row env t, h.stores.rowOf owner.runId = some row → row.status = .completed →
    h.finished = some (env, t) → ∀ (W : ChatWorld) ctx (request : ResumeRequest) ck firstResult corpus,
      (∀ calls messages, W.model calls messages = model messages) → owner.Is ctx → request.runId = owner.runId →
      W.Resumes ctx request h.stores ck firstResult → (∀ ev ∈ ck.evidence, W.keeps ctx ev = true) →
      W.resolveCorpus ck.corpusId = .ok corpus →
      (W.resume texts ctx request h.stores).1.1 = .ok (env.forRequest ctx.requestId)

/-- A start finds the run neither aborted nor completed; a resumption does not end unsaved. -/
def Proper (h : RunHistory) (W : ChatWorld) (ctx : SecurityContext) : RunCall → Prop
  | .answers _ => h.aborted = false ∧ ∀ row, h.stores.rowOf owner.runId = some row → row.status ≠ .completed
  | .resumes request => ∀ ck firstResult, W.Resumes ctx request h.stores ck firstResult →
      ¬W.EndsUnsaved texts ctx h.stores ck

def Orderly (h : RunHistory) : RunMove → Prop
  | .calls W ctx call => W.Steady model ∧ h.Proper texts owner W ctx call
  | .crashes W ctx call _ => W.Steady model ∧ h.Proper texts owner W ctx call
  | .aborts => True

end Laws

section Proofs

variable {model : List Message → Except ChatError ClaimExtraction} {texts : ChatTexts} {owner : RunOwner}
  {ctx : SecurityContext} {W : ChatWorld} {s : ChatStores} {runId : String}

/-- The rows of the run are as runs leave them, and aborted if the run has been marked so. -/
def Marks (h : RunHistory) (runId : String) (s : ChatStores) : Prop :=
  ∀ row, s.rowOf runId = some row → row.Sound ∧ (row.status = .aborted ↔ h.aborted = true)

/-- The invariant of orderly histories. -/
structure Invariant (model : List Message → Except ChatError ClaimExtraction) (texts : ChatTexts) (owner : RunOwner)
    (h : RunHistory) : Prop where
  marks : h.Marks owner.runId h.stores
  told : ∀ row env t, h.stores.rowOf owner.runId = some row → row.status = .completed → h.finished = some (env, t) →
    row.state.Records t ∧ ∃ ctx, owner.Is ctx ∧ row.state.conclusion model texts ctx = .ok env

/-- The row of a run after its own status has been set. -/
theorem rowOf_setStatus (s : ChatStores) (runId : String) (status : CheckpointStatus) {row : CheckpointRow}
    (hrow : { s with checkpoints := setStatus s.checkpoints runId status }.rowOf runId = some row) :
    ∃ old, s.rowOf runId = some old ∧ row = { old with status := status } := by
  unfold ChatStores.rowOf at hrow
  rw [selectOne_setStatus, Option.map_eq_some_iff] at hrow
  obtain ⟨old, hold, rfl⟩ := hrow
  exact ⟨old, hold, if_pos (Table.selectOne_some hold).2⟩

/-- An aborted run is refused, and its checkpoint stays. -/
theorem passes_aborted {request : ResumeRequest} (hrows : ∀ row, s.rowOf request.runId = some row →
      row.Sound ∧ row.status = .aborted) (t : IterationState) :
    (resumeRun texts ctx request).Passes W.eval (fun s' => s'.checkpoints = s.checkpoints)
      (fun r _ _ => ∃ reason, r = .error (.resumeAuth reason)) t s := by
  have hrefuses {α : Type} {post : Except ChatError α → IterationState → ChatStores → Prop} (reason : String)
      (hpost : post (.error (.resumeAuth reason)) t s) :
      (refuseResume reason : ChatMethod α).Passes W.eval (fun s' => s'.checkpoints = s.checkpoints) post t s :=
    passes_reraise.mpr hpost
  unfold resumeRun
  rw [passes_bind]
  unfold planResume
  split
  · exact hrefuses _ ⟨_, rfl⟩
  split
  · exact hrefuses _ ⟨_, rfl⟩
  rw [passes_bind, passes_perform]
  refine ⟨rfl, ?_⟩
  simp only [ChatWorld.eval]
  cases hloaded : loadRunCheckpoint s.checkpoints request.runId with
  | none => exact hrefuses _ ⟨_, rfl⟩
  | some ck =>
    obtain ⟨row, hrow, rfl⟩ := loadRunCheckpoint_some hloaded
    obtain ⟨⟨-, firstResult, hsound⟩, haborted⟩ := hrows row hrow
    dsimp only
    unfold planLoaded
    simp only [hsound.first, haborted, if_true]
    exact hrefuses _ ⟨_, rfl⟩

/-- Wherever a proper call is cut off the marks are kept, and an envelope that it returns is the one
that a completed checkpoint concludes. -/
theorem call_passes (hW : W.Steady model) {h : RunHistory} (hmarks : h.Marks owner.runId h.stores) {call : RunCall}
    (hmakes : owner.Makes call) (hproper : h.Proper texts owner W ctx call) :
    (call.program texts ctx).Passes W.eval (h.Marks owner.runId) (ChatWorld.Concludes model texts ctx owner.runId)
      .empty h.stores := by
  cases haborted : h.aborted with
  | true =>
    cases call with
    | answers request => exact absurd (hproper.1.symm.trans haborted) (by decide)
    | resumes request =>
      have hid : request.runId = owner.runId := hmakes
      have hrows : ∀ row, h.stores.rowOf request.runId = some row → row.Sound ∧ row.status = .aborted := by
        rw [hid]
        exact fun row hrow => ⟨(hmarks row hrow).1, (hmarks row hrow).2.mpr haborted⟩
      have hrefused : (resumeRun texts ctx request).Passes W.eval (fun s' => s'.checkpoints = h.stores.checkpoints)
          (ChatWorld.Concludes model texts ctx owner.runId) .empty h.stores := by
        apply (passes_aborted hrows .empty).mono
        rintro r t s ⟨reason, rfl⟩ env row ⟨⟩
      apply hrefused.weaken
      intro s' hsame row hrow
      unfold ChatStores.rowOf at hrow
      rw [hsame] at hrow
      exact hmarks row hrow
  | false =>
    have hs : h.stores.Kept owner.runId := fun row hrow =>
      ⟨fun hstatus => by simp [(hmarks row hrow).2.mp hstatus] at haborted, (hmarks row hrow).1⟩
    have hpasses : (call.program texts ctx).Passes W.eval (ChatStores.Kept owner.runId)
        (ChatWorld.Concludes model texts ctx owner.runId) .empty h.stores := by
      cases call with
      | answers request =>
        obtain ⟨hid, -, hjudged, hstore⟩ := hmakes
        exact ChatWorld.answer_concludes hW request hid hjudged hstore hs hproper.2
      | resumes request =>
        have hid : request.runId = owner.runId := hmakes
        rw [← hid] at hs ⊢
        exact ChatWorld.resume_concludes hW hs hproper
    apply hpasses.weaken
    intro s' hkept row hrow
    simp [(hkept row hrow).1, (hkept row hrow).2, haborted]

theorem left_invariant {h : RunHistory} (hinv : h.Invariant model texts owner) (hs : h.Marks owner.runId s) :
    (h.left owner.runId s).Invariant model texts owner where
  marks := hs
  told := by
    intro row env t hrow hcompleted hfinished
    unfold left at hrow hfinished
    dsimp only at hrow hfinished
    split at hfinished
    · rename_i hsame
      rw [hsame] at hrow
      exact hinv.told row env t hrow hcompleted hfinished
    · cases hfinished

/-- An orderly move keeps the invariant. -/
theorem step_invariant {h h' : RunHistory} {move : RunMove} (hinv : h.Invariant model texts owner)
    (horderly : h.Orderly model texts owner move) (hstep : step texts owner h move = some h') :
    h'.Invariant model texts owner := by
  cases move with
  | calls W ctx call =>
    obtain ⟨hW, hproper⟩ := horderly
    unfold step at hstep
    dsimp only at hstep
    split at hstep
    · rename_i hmakes
      obtain rfl := Option.some.inj hstep
      obtain ⟨hmarks, hends⟩ := ((call_passes hW hinv.marks hmakes.2 hproper).kept hinv.marks).2
      unfold ended
      rcases hrun : (call.program texts ctx .empty).exec W.eval h.stores with ⟨⟨r, t⟩, s'⟩
      rw [hrun] at hmarks hends
      cases r with
      | error e => exact left_invariant hinv hmarks
      | ok env =>
        refine ⟨hmarks, ?_⟩
        rintro row env' t' hrow hcompleted hfinished
        obtain ⟨rfl, rfl⟩ := Prod.mk.inj (Option.some.inj hfinished)
        obtain ⟨hrecords, hconclusion⟩ := hends env row rfl hrow hcompleted
        exact ⟨hrecords, ctx, hmakes.1, hconclusion⟩
    · cases hstep
  | crashes W ctx call operations =>
    obtain ⟨hW, hproper⟩ := horderly
    unfold step at hstep
    dsimp only at hstep
    split at hstep
    · rename_i hmakes
      obtain rfl := Option.some.inj hstep
      exact left_invariant hinv ((call_passes hW hinv.marks hmakes.2 hproper).cut hinv.marks operations)
    · cases hstep
  | aborts =>
    obtain rfl := Option.some.inj hstep
    constructor
    · intro row hrow
      obtain ⟨old, hold, rfl⟩ := rowOf_setStatus h.stores owner.runId .aborted hrow
      obtain ⟨hidentity, hstate⟩ := (hinv.marks old hold).1
      exact ⟨⟨hidentity, hstate⟩, iff_of_true rfl rfl⟩
    · intro row env t hrow hcompleted
      obtain ⟨old, -, rfl⟩ := rowOf_setStatus h.stores owner.runId .aborted hrow
      cases hcompleted

/-- The requests of the principal of a run are alike. -/
theorem alike {ctx' : SecurityContext} (h : owner.Is ctx) (h' : owner.Is ctx') : ctx.Alike ctx' :=
  ⟨h'.1.trans h.1.symm, h'.2.2.trans h.2.2.symm⟩

theorem Invariant.lawful {h : RunHistory} (hinv : h.Invariant model texts owner) : h.Lawful model texts owner where
  refuses := by
    intro haborted W ctx request hid
    have hrows : ∀ row, h.stores.rowOf request.runId = some row → row.Sound ∧ row.status = .aborted := by
      rw [hid]
      exact fun row hrow => ⟨(hinv.marks row hrow).1, (hinv.marks row hrow).2.mpr haborted⟩
    exact (passes_aborted hrows .empty).2
  tells := fun row env t hrow hcompleted hfinished => (hinv.told row env t hrow hcompleted hfinished).1
  repeats := by
    intro row env t hrow hcompleted hfinished W ctx request ck firstResult corpus hmodel his hid hresumes hkeeps
      hresolved
    obtain ⟨-, ctx', his', hconclusion⟩ := hinv.told row env t hrow hcompleted hfinished
    have hmarks := hinv.marks
    rw [← hid] at hrow hmarks
    obtain ⟨found, hfound, rfl⟩ := loadRunCheckpoint_some hresumes.loaded
    obtain rfl : found = row := Option.some.inj (hfound.symm.trans hrow)
    have hs : h.stores.Kept request.runId := by
      intro other hother
      obtain rfl : other = found := Option.some.inj (hother.symm.trans hrow)
      exact ⟨by simp [hcompleted], (hmarks other hother).1⟩
    obtain ⟨-, result, hsound⟩ := (hmarks found hrow).1
    have hretrieved : ∀ firstResult, found.state.firstResult = some firstResult → firstResult.evidence ≠ [] := by
      intro firstResult hfirst
      obtain rfl := Option.some.inj (hsound.first.symm.trans hfirst)
      exact hsound.retrieved
    calc (W.resume texts ctx request h.stores).1.1
        = RunCheckpoint.conclusion model texts ctx { found.state with status := found.status } :=
          hresumes.resume_completed hmodel hs hcompleted hkeeps hresolved
      _ = found.state.conclusion model texts ctx := rfl
      _ = (found.state.conclusion model texts ctx').map (·.forRequest ctx.requestId) :=
          (alike his' his).conclusion found.state hretrieved
      _ = .ok (env.forRequest ctx.requestId) := by
          rw [hconclusion]
          rfl

end Proofs

end RunHistory

namespace ChatWorld

open RunHistory

/-- In every history of a run that starts without a checkpoint and moves orderly: an aborted run is refused
ever after, and a completed checkpoint repeats the run that finished last. A call that changed the
checkpoint without finishing voids that run, and nothing is said until a call finishes again. -/
theorem run_histories_lawful (model : List Message → Except ChatError ClaimExtraction) (texts : ChatTexts)
    (owner : RunOwner) (start : ChatStores) (hfresh : start.rowOf owner.runId = none) {h : RunHistory}
    (hrun : Transition.Reaches (RunHistory.step texts owner) (RunHistory.Orderly model texts owner)
      ⟨start, false, none⟩ h) :
    h.Lawful model texts owner := by
  suffices hinv : h.Invariant model texts owner from hinv.lawful
  refine hrun.invariant (fun hinv horderly hstep => step_invariant hinv horderly hstep) ⟨?_, ?_⟩
  · intro row hrow
    cases hfresh.symm.trans hrow
  · rintro row env t hrow
    cases hfresh.symm.trans hrow

namespace RunHistories.Sample

open RecomputationFaults.Sample Honest.Sample

/-- The handbook is found, and the judge is satisfied with it. -/
def world : ChatWorld := { StaleReason.Sample.judging with
  resolveCorpus := fun corpusId => .ok ⟨corpusId, "acme", none, true, true⟩
  retrieve := fun _ _ _ _ => .ok [office] }

def owner : RunOwner := ⟨"run", "Where is the office?", "acme", "alice", "s1"⟩

def starts : RunMove := .calls world ctx (.answers ⟨"Where is the office?", "hr", 3, true, [], some "run", true⟩)

def fresh : ChatStores := ⟨[], [], []⟩

theorem steady : world.Steady fun _ => .ok ⟨"", []⟩ where
  modelled := by
    intro calls messages
    rfl
  corpora := by
    rintro corpusId corpus ⟨⟩
    rfl
  judged := .inr fun _ => ⟨_, rfl⟩

/-- A run that is started and comes to its end. -/
def concluded : RunHistory := Transition.play (RunHistory.step texts owner) ⟨fresh, false, none⟩ [starts]

/-- It is then marked aborted. -/
def cancelled : RunHistory := Transition.play (RunHistory.step texts owner) concluded [.aborts]

theorem concluded_reached :
    Transition.Reaches (RunHistory.step texts owner) (RunHistory.Orderly (fun _ => .ok ⟨"", []⟩) texts owner)
      ⟨fresh, false, none⟩ concluded := by
  have hproper : Proper texts owner ⟨fresh, false, none⟩ world ctx
      (.answers ⟨"Where is the office?", "hr", 3, true, [], some "run", true⟩) := by
    refine ⟨rfl, ?_⟩
    rintro row ⟨⟩
  exact Transition.Reaches.refl.tail starts ⟨steady, hproper⟩ rfl

theorem cancelled_reached :
    Transition.Reaches (RunHistory.step texts owner) (RunHistory.Orderly (fun _ => .ok ⟨"", []⟩) texts owner)
      ⟨fresh, false, none⟩ cancelled :=
  concluded_reached.tail .aborts trivial rfl

def resumption : ResumeRequest := ⟨"run", true, true, true⟩

/-- The concluded run can be resumed. -/
theorem resumes_concluded : ∃ ck firstResult, world.Resumes ctx resumption concluded.stores ck firstResult ∧
    (∀ ev ∈ ck.evidence, world.keeps ctx ev = true) := by
  have hloads : ((CheckpointTable.loadRunCheckpoint concluded.stores.checkpoints "run").any fun ck =>
      ck.firstResult.isSome && decide (ck.status ≠ .aborted ∧ (ck.tenantId = ctx.tenantId ∧ ck.userId = ctx.userId ∧
        ck.sessionId = ctx.sessionId) ∧ ck.policyVersion = ctx.policyVersion) &&
          ck.evidence.all fun ev => world.keeps ctx ev) = true := by
    decide +kernel
  obtain ⟨ck, hck, hchecked⟩ := (Option.any_eq_true _ _).mp hloads
  simp only [Bool.and_eq_true, decide_eq_true_eq, List.all_eq_true] at hchecked
  obtain ⟨⟨hfirst, hstatus, hprincipal, hpolicy⟩, hkeeps⟩ := hchecked
  obtain ⟨firstResult, hresult⟩ := Option.isSome_iff_exists.mp hfirst
  exact ⟨ck, firstResult, ⟨rfl, rfl, rfl, hck, hresult, hstatus, hprincipal, hpolicy, ⟨_, rfl⟩⟩, hkeeps⟩

end RunHistories.Sample

open RunHistories.Sample in
/-- Concluded, the run is repeated; marked aborted, it is refused. -/
theorem run_histories_lawful_cancelled :
    (∃ env t, concluded.finished = some (env, t) ∧
      (world.resume RecomputationFaults.Sample.texts Honest.Sample.ctx resumption concluded.stores).1.1 =
        .ok (env.forRequest Honest.Sample.ctx.requestId)) ∧
    cancelled.aborted = true ∧ ∃ reason,
      (world.resume RecomputationFaults.Sample.texts Honest.Sample.ctx resumption cancelled.stores).1.1 =
        .error (.resumeAuth reason) := by
  have hlawful := run_histories_lawful _ _ owner fresh rfl concluded_reached
  have hcancelled := run_histories_lawful _ _ owner fresh rfl cancelled_reached
  have hrow : ((concluded.stores.rowOf "run").map (·.status)) = some .completed := by decide +kernel
  have hfinished : concluded.finished.isSome = true := by decide +kernel
  obtain ⟨row, hrow, hstatus⟩ := Option.map_eq_some_iff.mp hrow
  obtain ⟨⟨env, t⟩, hfinished⟩ := Option.isSome_iff_exists.mp hfinished
  obtain ⟨ck, firstResult, hresumes, hkeeps⟩ := resumes_concluded
  refine ⟨⟨env, t, hfinished, ?_⟩, rfl, hcancelled.refuses rfl world Honest.Sample.ctx resumption rfl⟩
  exact hlawful.repeats row env t hrow hstatus hfinished world Honest.Sample.ctx resumption ck firstResult _
    (fun _ _ => rfl) (by decide) rfl hresumes hkeeps rfl

end ChatWorld

end AgenticRag
