import AgenticRag.Services.ConcurrentRequests

/-!
# The chat endpoint

`api/routes/chat.py`. Whatever goes wrong behind it, a client is told one of six fixed texts; and
the resumption of a run of somebody else ends as that of a run that does not exist.
-/

namespace AgenticRag

open CheckpointTable Method

/-- `ChatRequest` of `api/schemas.py`. -/
structure ChatBody where
  query : String
  corpusId : String
  runId : Option String
  resume : Bool
  deriving DecidableEq, Repr

/-- What the service behind the endpoint is wired to. -/
structure ChatWiring where
  hasStore : Bool
  judged : Bool
  hasRegistry : Bool
  deriving DecidableEq, Repr

/-- `ChatResponse`, or an `HTTPException`. -/
inductive ChatResponse where
  | answers (env : AnswerEnvelope)
  | refuses (statusCode : Nat) (detail : String)
  deriving DecidableEq, Repr

namespace ChatRoute

def msgBackendUnavailable : String := "The retrieval backend is temporarily unavailable."

def msgModelUnavailable : String := "The answer service is temporarily unavailable."

def msgInternalError : String := "An internal error occurred."

def msgResumeBadRequest : String := "Resume requested without a run_id."

def msgResumeConflict : String := "The requested run_id is already bound to another session."

/-- The `except` clauses. -/
def refusalFor : ChatError → ChatResponse
  | .checkpointIdentityConflict _ => .refuses 409 msgResumeConflict
  | .resumeAuth _ => .refuses 404 msgInternalError
  | .fastPathBackend _ => .refuses 503 msgBackendUnavailable
  | .modelInvocation _ => .refuses 502 msgModelUnavailable
  | _ => .refuses 500 msgInternalError

/-- The `try` around a call of the service. -/
def responding (m : ChatMethod AnswerEnvelope) : ChatMethod ChatResponse :=
  Method.tryCatch
    (do
      let env ← m
      pure (.answers env))
    fun e => pure (refusalFor e)

variable (texts : ChatTexts) (wiring : ChatWiring) (ctx : SecurityContext)

/-- `ChatService.answer` is `answer_with_iteration` without a judge. -/
def chatV1 (body : ChatBody) : ChatMethod ChatResponse :=
  match body.resume, body.runId with
  | true, none => pure (.refuses 400 msgResumeBadRequest)
  | true, some runId => responding (resumeRun texts ctx ⟨runId, wiring.hasStore, wiring.judged, wiring.hasRegistry⟩)
  | false, some runId => responding (answerWithIteration texts ctx
      ⟨body.query, body.corpusId, 3, wiring.judged, [], some runId, wiring.hasStore⟩)
  | false, none => responding (answerWithIteration texts ctx
      ⟨body.query, body.corpusId, 1, false, [], none, wiring.hasStore⟩)

end ChatRoute

/-- A body with the context that the headers of the request have given. -/
structure ChatCallV1 where
  ctx : SecurityContext
  body : ChatBody
  deriving DecidableEq, Repr

/-- The endpoint under load. -/
def apiSystem (texts : ChatTexts) (wiring : ChatWiring) :
    System CheckpointTable ChatOp ChatError ChatCallV1 (Except ChatError ChatResponse × IterationState) :=
  chatSystem fun call => ChatRoute.chatV1 texts wiring call.ctx call.body .empty

/-- A response tells nothing but evidence of the caller, or one of the fixed texts. -/
def ChatResponse.Discreet (sanctioned : Principal → Evidence → Prop) (ctx : SecurityContext) : ChatResponse → Prop
  | .answers env => env.ConfinedTo sanctioned ctx
  | .refuses statusCode detail => (statusCode, detail) ∈
      [(400, ChatRoute.msgResumeBadRequest), (404, ChatRoute.msgInternalError), (409, ChatRoute.msgResumeConflict),
        (500, ChatRoute.msgInternalError), (502, ChatRoute.msgModelUnavailable), (503, ChatRoute.msgBackendUnavailable)]

/-- The caller is not the principal that the row is bound to. -/
def CheckpointRow.Foreign (row : CheckpointRow) (ctx : SecurityContext) : Prop :=
  row.identity.tenantId ≠ ctx.tenantId ∨ row.identity.userId ≠ ctx.userId ∨ row.identity.sessionId ≠ ctx.sessionId

namespace ChatRoute

variable {sanctioned : Principal → Evidence → Prop} {texts : ChatTexts} {wiring : ChatWiring} {ctx : SecurityContext}

theorem refusalFor_discreet (e : ChatError) : (refusalFor e).Discreet sanctioned ctx := by
  cases e <;> simp [refusalFor, ChatResponse.Discreet]

theorem confines_responding {m : ChatMethod AnswerEnvelope}
    (h : Confines sanctioned ctx (AnswerEnvelope.ConfinedTo sanctioned ctx) m) :
    Confines sanctioned ctx (ChatResponse.Discreet sanctioned ctx) (responding m) :=
  Honors.tryCatch (Honors.bind h fun _ henv => Honors.pure henv) fun e => Honors.pure (refusalFor_discreet e)

theorem confines_chatV1 (body : ChatBody) :
    Confines sanctioned ctx (ChatResponse.Discreet sanctioned ctx) (chatV1 texts wiring ctx body) := by
  unfold chatV1
  split
  · exact Honors.pure (by simp [ChatResponse.Discreet])
  · exact confines_responding (confines_resumeRun _)
  · exact confines_responding (confines_answerWithIteration _)
  · exact confines_responding (confines_answerWithIteration _)

/-- A refused resumption, as the client is told of it. -/
theorem responding_refused {W : ChatWorld} {m : ChatMethod AnswerEnvelope} {t t' : IterationState} {s s' : ChatStores}
    {reason : String} (h : (m t).exec W.eval s = ((.error (.resumeAuth reason), t'), s')) :
    (responding m t).exec W.eval s = ((.ok (.refuses 404 msgInternalError), t'), s') := by
  have hbind : ((m >>= fun env => pure (ChatResponse.answers env)) t).exec W.eval s =
      ((.error (.resumeAuth reason), t'), s') := exec_bind_error h
  have hcatch : (responding m t).exec W.eval s = _ := Prog.exec_bind W.eval _ _ s
  rw [hcatch, hbind]
  rfl

/-- Where the run is not there for the caller, nothing but the load of its checkpoint takes place. -/
theorem resumeRun_foreign (texts : ChatTexts) (wiring : ChatWiring) {W : ChatWorld} {runId : String} {s : ChatStores}
    {t : IterationState}
    (hresumable : ∀ row ∈ s.checkpoints, row.state.firstResult ≠ none)
    (hforeign : ∀ row, Table.selectOne (ofRun runId) s.checkpoints = some row → row.Foreign ctx) :
    ∃ reason, (resumeRun texts ctx ⟨runId, wiring.hasStore, wiring.judged, wiring.hasRegistry⟩ t).exec W.eval s =
      ((.error (.resumeAuth reason), t), s) := by
  suffices hplan : ∃ reason, (planResume texts ctx ⟨runId, wiring.hasStore, wiring.judged, wiring.hasRegistry⟩ t).exec
      W.eval s = ((.error (.resumeAuth reason), t), s) by
    obtain ⟨reason, hplan⟩ := hplan
    exact ⟨reason, exec_bind_error hplan⟩
  unfold planResume
  by_cases hstore : wiring.hasStore = false
  · rw [if_pos hstore]
    exact ⟨_, rfl⟩
  by_cases hjudge : wiring.judged = false
  · rw [if_neg hstore, if_pos hjudge]
    exact ⟨_, rfl⟩
  rw [if_neg hstore, if_neg hjudge]
  have hload : Returns W.eval (Method.perform (.loadRunCheckpoint runId) : ChatMethod (Option RunCheckpoint)) t s
      (loadRunCheckpoint s.checkpoints runId) t s := returns_perform rfl
  rw [hload.exec_bind]
  cases hfound : loadRunCheckpoint s.checkpoints runId with
  | none => exact ⟨_, rfl⟩
  | some ck =>
    obtain ⟨row, hrow, rfl⟩ := loadRunCheckpoint_some hfound
    obtain ⟨firstResult, hfirst⟩ := Option.ne_none_iff_exists'.mp (hresumable row (Table.selectOne_some hrow).1)
    have hconsistent : Consistent row := by
      unfold loadRunCheckpoint at hfound
      rw [hrow] at hfound
      by_contra hnot
      simp [hnot] at hfound
    obtain ⟨-, htenant, huser, hsession, -, -⟩ := hconsistent
    have howner : row.state.tenantId ≠ ctx.tenantId ∨ row.state.userId ≠ ctx.userId ∨
        row.state.sessionId ≠ ctx.sessionId := by
      rw [htenant, huser, hsession]
      exact hforeign row hrow
    unfold planLoaded
    simp only [hfirst]
    by_cases haborted : row.status = .aborted
    · rw [if_pos haborted]
      exact ⟨_, rfl⟩
    · rw [if_neg haborted, if_pos howner]
      exact ⟨_, rfl⟩

end ChatRoute

/-- In every run of the endpoint: what it responds is discreet, and a caller who resumes a run of somebody
else is told the same as for a run that does not exist, and leaves no trace. Any callers interleave,
crash and abort runs in between; the retriever returns to each what is sanctioned for it. -/
theorem chat_v1_discreet (sanctioned : Principal → Evidence → Prop) (texts : ChatTexts) (wiring : ChatWiring)
    {P : Pool CheckpointTable ChatOp ChatError ChatCallV1 (Except ChatError ChatResponse × IterationState)}
    (hrun : (apiSystem texts wiring).Reaches (Retrieving (·.ctx.principal) sanctioned) ⟨[], []⟩ P) :
    (∀ thread ∈ P.threads, ∀ response t, thread.code = .ret (.ok response, t) →
        response.Discreet sanctioned thread.origin.ctx) ∧
      ∀ (W : ChatWorld) ctx query corpusId runId calls findings,
        (∀ row, Table.selectOne (ofRun runId) P.store = some row → row.Foreign ctx) →
          (ChatRoute.chatV1 texts wiring ctx ⟨query, corpusId, some runId, true⟩ .empty).exec W.eval
              ⟨calls, P.store, findings⟩ =
            ((.ok (.refuses 404 ChatRoute.msgInternalError), .empty), ⟨calls, P.store, findings⟩) := by
  have hstart (call : ChatCallV1) : (ChatRoute.chatV1 texts wiring call.ctx call.body .empty).Honors
      (confining sanctioned call.ctx.principal) fun result => ∀ response, result.1 = .ok response →
        response.Discreet sanctioned call.ctx :=
    Prog.Honors.mono (fun _ hresult => hresult.2) (ChatRoute.confines_chatV1 call.body _ (empty_confined _))
  have hempty : CheckpointTable.Confined sanctioned [] := by simp [CheckpointTable.Confined]
  have hengaged := (chatSystem_attentive _ hstart).run hempty hrun
  refine ⟨fun thread hthread response t hcode => ?_, ?_⟩
  · have hreturned := hengaged.threads thread hthread
    rw [hcode] at hreturned
    exact hreturned response rfl
  · intro W ctx query corpusId runId calls findings hforeign
    have hresumable (row : CheckpointRow) (hrow : row ∈ P.store) : row.state.firstResult ≠ none := by
      obtain ⟨firstResult, hfirst, -⟩ := (hengaged.store row hrow).retrieved
      simp [hfirst]
    have hstores : ∀ row ∈ (⟨calls, P.store, findings⟩ : ChatStores).checkpoints, row.state.firstResult ≠ none :=
      hresumable
    obtain ⟨reason, hrefused⟩ := ChatRoute.resumeRun_foreign texts wiring (W := W) (t := .empty) hstores hforeign
    exact ChatRoute.responding_refused hrefused

namespace ChatRoute.Sample

open ConcurrentRequests.Sample Honest.Sample ChatWorld.RecomputationFaults.Sample

def wiring : ChatWiring := ⟨true, true, true⟩

/-- A run of one tenant that has come to its end. -/
def pool : Pool CheckpointTable ChatOp ChatError ChatCallV1 (Except ChatError ChatResponse × IterationState) :=
  (machine fun call => chatV1 texts wiring call.ctx call.body .empty).play ⟨[], []⟩
    (.spawn ⟨ctx, ⟨"Where is the office?", "hr", some "run", false⟩⟩ :: List.replicate 8 (step 0))

theorem pool_reached : (apiSystem texts wiring).Reaches (Retrieving (·.ctx.principal) ofTenant) ⟨[], []⟩ pool :=
  (machine _).passes_reaches (fun _ _ _ => retrievesOwn_sound) ⟨[], []⟩ _ (by decide +kernel)

theorem pool_foreign (row : CheckpointRow) (h : Table.selectOne (ofRun "run") pool.store = some row) :
    row.Foreign intruder := by
  have htenant : (Table.selectOne (ofRun "run") pool.store).map (·.identity.tenantId) = some "acme" := by
    decide +kernel
  rw [h] at htenant
  have hacme : row.identity.tenantId = "acme" := Option.some.inj htenant
  left
  rw [hacme]
  decide

end ChatRoute.Sample

open ChatRoute.Sample in
theorem chat_v1_discreet_intruder :
    pool.store.map (·.runId) = ["run"] ∧
      (ChatRoute.chatV1 ChatWorld.RecomputationFaults.Sample.texts wiring ConcurrentRequests.Sample.intruder
          ⟨"", "eng", some "run", true⟩ .empty).exec ChatWorld.RunHistories.Sample.world.eval ⟨[], pool.store, []⟩ =
        ((.ok (.refuses 404 ChatRoute.msgInternalError), .empty), ⟨[], pool.store, []⟩) :=
  ⟨by decide +kernel, (chat_v1_discreet ConcurrentRequests.Sample.ofTenant ChatWorld.RecomputationFaults.Sample.texts
    wiring pool_reached).2 ChatWorld.RunHistories.Sample.world ConcurrentRequests.Sample.intruder "" "eng" "run" [] []
      pool_foreign⟩

end AgenticRag
