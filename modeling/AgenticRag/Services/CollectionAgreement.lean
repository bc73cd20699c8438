import AgenticRag.Ingestion.LiveCollection
import AgenticRag.Services.LoopOperations
import AgenticRag.Services.ServiceContainer

/-!
# One collection for every path

Which collection a request of the default container searches, and which one a mutation writes
to. The multi-corpus service and the manager ask the registry; the single-corpus service and
the resumed runs ask the resolver, which no switch reaches.
-/

namespace AgenticRag

namespace SecureRetriever

/-- The collection that `retrieve` searches, if the corpus and the filter let it. -/
def searched (ctx : SecurityContext) (corpus : CorpusConfig) : Option String :=
  match validateCorpus ctx corpus with
  | .error _ => none
  | .ok () =>
    match buildAccessFilter ctx corpus.corpusId with
    | .error _ => none
    | .ok _ => some (collectionOf corpus)

/-- `retrieve` depends on the vector store through this collection only. -/
theorem retrieve_congr {first second : SecureRetriever} {ctx : SecurityContext} {corpus : CorpusConfig}
    (htop : first.defaultTopK = second.defaultTopK) (hhybrid : first.hybridTopK = second.hybridTopK)
    (hsearch : ∀ name ∈ searched ctx corpus, first.search name = second.search name)
    (seen : Nat → RetrievalStores) (topK : Option Nat) :
    first.retrieve seen ctx corpus topK = second.retrieve seen ctx corpus topK := by
  unfold retrieve hybridSearch
  unfold searched at hsearch
  cases hvalid : validateCorpus ctx corpus with
  | error e => rfl
  | ok u =>
    cases hfilter : buildAccessFilter ctx corpus.corpusId with
    | error e => rfl
    | ok filter =>
      simp only [hvalid, hfilter, Option.mem_def, Option.some.injEq, forall_eq'] at hsearch
      simp only [htop, hhybrid, hsearch]

/-- A corpus is searched in its own collection, and only while it is enabled and searchable. -/
theorem searched_some {ctx : SecurityContext} {corpus : CorpusConfig} {name : String}
    (h : searched ctx corpus = some name) :
    name = collectionOf corpus ∧ corpus.enabled = true ∧ corpus.searchable = true := by
  unfold searched at h
  cases hvalid : validateCorpus ctx corpus with
  | error e => simp [hvalid] at h
  | ok u =>
    have hgate := hvalid
    simp only [validateCorpus, require_bind_ok] at hgate
    obtain ⟨-, henabled, hsearchable, -⟩ := hgate
    simp only [hvalid] at h
    cases hfilter : buildAccessFilter ctx corpus.corpusId with
    | error e => simp [hfilter] at h
    | ok filter =>
      simp only [hfilter, Option.some.injEq] at h
      exact ⟨h.symm, henabled, hsearchable⟩

end SecureRetriever

/-- An operation that retrieves from a corpus in `P`, or does not retrieve. -/
def ChatOp.Concerns (P : CorpusConfig → Prop) {β : Type} : ChatOp β → Prop
  | .retrieveEvidence _ corpus _ => P corpus
  | _ => True

/-- A plan that goes on does so on a corpus in `P`. -/
def ResumePlan.Within (P : CorpusConfig → Prop) : ResumePlan → Prop
  | .returns _ => True
  | .finalizes run => P run.corpus
  | .continues run _ => P run.corpus

/-- The retrievals made between two states are all from corpora in `P`. -/
def ChatStores.Retrieves (P : CorpusConfig → Prop) (s s' : ChatStores) : Prop :=
  ∃ made, s'.calls = s.calls ++ made ∧
    ∀ query corpus iteration, ChatCall.retrieval query corpus iteration ∈ made → P corpus

namespace ChatStores.Retrieves

variable {P Q : CorpusConfig → Prop} {s s' s'' : ChatStores}

theorem of_calls (h : s'.calls = s.calls) : Retrieves P s s' := by
  refine ⟨[], by simp [h], ?_⟩
  intro query corpus iteration hmem
  cases hmem

theorem trans (h : Retrieves P s s') (h' : Retrieves P s' s'') : Retrieves P s s'' := by
  obtain ⟨made, hcalls, hmade⟩ := h
  obtain ⟨made', hcalls', hmade'⟩ := h'
  refine ⟨made ++ made', ?_, ?_⟩
  · rw [hcalls', hcalls, List.append_assoc]
  · intro query corpus iteration hmem
    rcases List.mem_append.mp hmem with hfirst | hlater
    · exact hmade query corpus iteration hfirst
    · exact hmade' query corpus iteration hlater

theorem mono (h : Retrieves P s s') (hPQ : ∀ corpus, P corpus → Q corpus) : Retrieves Q s s' := by
  obtain ⟨made, hcalls, hmade⟩ := h
  exact ⟨made, hcalls, fun query corpus iteration hmem => hPQ corpus (hmade query corpus iteration hmem)⟩

theorem eval (W : ChatWorld) {β : Type} {op : ChatOp β} (h : op.Concerns P) (s : ChatStores) :
    Retrieves P s (W.eval op s).2 := by
  cases op with
  | retrieveEvidence query asked iteration =>
    refine ⟨[.retrieval query asked iteration], rfl, ?_⟩
    intro query' asked' iteration' hmem
    obtain ⟨-, rfl, -⟩ := ChatCall.retrieval.inj (List.mem_singleton.mp hmem)
    exact h
  | judge query requiredFacts evidence =>
    refine ⟨[.judgement query requiredFacts evidence], rfl, ?_⟩
    intro query' asked' iteration' hmem
    cases List.mem_singleton.mp hmem
  | invokeModel messages =>
    refine ⟨[.invocation messages], rfl, ?_⟩
    intro query' asked' iteration' hmem
    cases List.mem_singleton.mp hmem
  | _ => exact of_calls rfl

end ChatStores.Retrieves

section Operations

open Method

variable {texts : ChatTexts} {ctx : SecurityContext} {run : RunArgs} {α : Type}

/-- All retrievals of the method ask for corpora in `P`. -/
abbrev Concerning (P : CorpusConfig → Prop) (m : ChatMethod α) : Prop := Uses (ChatOp.Concerns P) m

variable {P : CorpusConfig → Prop} {corpus : CorpusConfig}

/-- What keeps to the operations of a run does not ask for other corpora. -/
theorem Serving.concerning {m : ChatMethod α} (h : Serving P m) : Concerning P m := by
  refine Uses.mono (fun op hop => ?_) h
  cases op with
  | retrieveEvidence query corpus iteration => exact hop
  | _ => trivial

theorem serving_followPlan {plan : ResumePlan} (h : plan.Within P) :
    Serving P (followPlan texts ctx plan) := by
  cases plan with
  | returns env => exact Uses.pure env
  | finalizes run => exact Uses.bind (serving_markDone _) fun _ => serving_finalizeIteration
  | continues run roundIndex => exact serving_loopRounds h _ _

theorem planRevoked_within (hcorpus : P run.corpus) (ck : RunCheckpoint) (surviving : List Evidence) :
    Yields (ResumePlan.Within P) (planRevoked texts ctx ck run surviving) := by
  refine Yields.bind fun _ => Yields.bind fun staged => Yields.ite ?_ ?_
  · refine Yields.bind fun _ => Yields.bind fun _ => Yields.bind fun env => ?_
    exact Yields.pure trivial
  · refine Yields.bind fun _ => Yields.bind fun coverage => Yields.bind fun _ => ?_
    refine Yields.ite ?_ (Yields.ite (Yields.pure hcorpus) (Yields.pure hcorpus))
    exact Yields.bind fun _ => Yields.pure hcorpus

theorem planUnchanged_within (hcorpus : P run.corpus) (ck : RunCheckpoint) :
    Yields (ResumePlan.Within P) (planUnchanged ctx ck run) := by
  refine Yields.ite ?_ (Yields.pure hcorpus)
  refine Yields.bind fun state => Yields.ite ?_ (Yields.pure hcorpus)
  exact Yields.bind fun env => Yields.pure trivial

end Operations

namespace ChatWorld

open Method

variable {W : ChatWorld} {texts : ChatTexts} {ctx : SecurityContext} {α : Type} {P : CorpusConfig → Prop}
  {t : IterationState} {s s₀ : ChatStores}

/-- The corpora that the resolver gives for an id. -/
def Resolves (W : ChatWorld) (corpusId : String) (corpus : CorpusConfig) : Prop :=
  W.resolveCorpus corpusId = .ok corpus

/-- All retrievals since `s₀` are from corpora in `P`. -/
abbrev Retrieving (W : ChatWorld) (P : CorpusConfig → Prop) (s₀ : ChatStores) (m : ChatMethod α)
    (t : IterationState) (s : ChatStores) : Prop :=
  m.Meets W.eval (fun _ _ s' => s₀.Retrieves P s') t s

theorem retrieves_of_serving {m : ChatMethod α} (hm : Serving P m) (t : IterationState)
    (hs : s₀.Retrieves P s) : s₀.Retrieves P ((m t).exec W.eval s).2 := by
  refine hs.trans (Prog.Uses.ends (fun _ => .of_calls rfl) (fun _ _ _ => .trans) ?_ (hm.concerning t) s)
  intro β op s hop
  exact .eval W hop s

/-- What follows `resolve_corpus` and keeps to its corpus. -/
theorem retrieving_resolve {corpusId : String} {f : CorpusConfig → ChatMethod α}
    (hf : ∀ corpus, W.Resolves corpusId corpus → Serving (W.Resolves corpusId) (f corpus))
    (hs : s₀.Retrieves (W.Resolves corpusId) s) :
    W.Retrieving (W.Resolves corpusId) s₀ (Method.perform (.resolveCorpus corpusId) >>= f) t s := by
  rw [Retrieving, meets_bind, meets_perform]
  dsimp only [eval]
  cases hresolve : W.resolveCorpus corpusId with
  | error e => exact hs
  | ok corpus => exact retrieves_of_serving (hf corpus hresolve) t hs

/-- `answer_with_iteration`, and `answer` that it becomes without a judge, retrieve only from the
corpus that the resolver gives. -/
theorem answer_retrieves (request : IterationRequest) :
    s.Retrieves (W.Resolves request.corpusId) (W.answer texts ctx request s).2 := by
  have hmeets : W.Retrieving (W.Resolves request.corpusId) s (answerWithIteration texts ctx request)
      .empty s := by
    rw [Retrieving, answerWithIteration, meets_ite, meets_ite]
    refine ⟨fun _ => ?_, fun _ => ⟨fun _ => .of_calls rfl, fun _ => ?_⟩⟩
    · refine retrieving_resolve (fun corpus hcorpus => ?_) (.of_calls rfl)
      refine Uses.bind (serving_runFastPath hcorpus _) fun result => Uses.ite (serving_ofExcept _) ?_
      refine Uses.bind (serving_conflictStage _ _ _) fun staged => ?_
      exact Uses.ite (serving_ofExcept _) (serving_synthesize _ _ _ _)
    · refine retrieving_resolve (fun corpus hcorpus => ?_) (.of_calls rfl)
      refine Uses.bind (serving_runFastPath hcorpus _) fun result => Uses.ite (serving_ofExcept _) ?_
      refine Uses.bind (Uses.assign _) fun _ => Uses.bind (serving_saveCheckpoint _ _) fun _ => ?_
      have hrun : W.Resolves request.corpusId (request.run texts corpus result).corpus := hcorpus
      exact serving_loopRounds hrun _ _
  exact hmeets

/-- All retrievals since `s₀` are from corpora in `P`, and so are those of the plan. -/
abbrev Planning (W : ChatWorld) (P : CorpusConfig → Prop) (s₀ : ChatStores) (m : ChatMethod ResumePlan)
    (t : IterationState) (s : ChatStores) : Prop :=
  m.Meets W.eval (fun r _ s' => s₀.Retrieves P s' ∧ ∀ plan, r = .ok plan → plan.Within P) t s

theorem planning_raises {e : ChatError} (hs : s₀.Retrieves P s) :
    W.Planning P s₀ (Method.reraise e) t s :=
  ⟨hs, fun _ h => nomatch h⟩

theorem planning_of_uses {m : ChatMethod ResumePlan} (hm : Serving P m)
    (hplans : Yields (ResumePlan.Within P) m) (hs : s₀.Retrieves P s) : W.Planning P s₀ m t s :=
  ⟨retrieves_of_serving hm t hs, (hplans t).exec s⟩

theorem planGated_planning {ck : RunCheckpoint} {runId : String} {firstResult : FastPathResult}
    (hs : s₀.Retrieves (W.Resolves ck.corpusId) s) :
    W.Planning (W.Resolves ck.corpusId) s₀ (planGated texts ctx runId ck firstResult) t s := by
  rw [Planning, planGated, (returns_reauthorizeAll ck.evidence).meets_bind, meets_ite]
  have hs' : s₀.Retrieves (W.Resolves ck.corpusId)
      { s with findings := s.findings ++ W.revocations ctx ck.evidence } := hs.trans (.of_calls rfl)
  constructor
  · intro _
    refine planning_of_uses ?_ ?_ hs'
    · refine Uses.bind (Uses.assign _) fun _ => Uses.bind (serving_endWithoutEvidence _ _ _ _) fun _ => ?_
      exact Uses.bind (serving_ofExcept _) fun env => Uses.pure _
    · exact Yields.bind fun _ => Yields.bind fun _ => Yields.bind fun env => Yields.pure trivial
  · intro _
    rw [meets_bind, meets_perform]
    dsimp only [eval]
    cases hresolve : W.resolveCorpus ck.corpusId with
    | error e => exact ⟨hs', fun _ h => nomatch h⟩
    | ok corpus =>
      have hcorpus : W.Resolves ck.corpusId (ck.run runId firstResult corpus).corpus := hresolve
      refine planning_of_uses ?_ ?_ hs'
      · refine Uses.bind (Uses.assign _) fun _ => Uses.ite ?_ ?_
        · exact serving_planRevoked ck _
        · exact serving_planUnchanged ck
      · refine Yields.bind fun _ => Yields.ite ?_ ?_
        · exact planRevoked_within hcorpus ck _
        · exact planUnchanged_within hcorpus ck

/-- `resume_run` retrieves only from the corpus that the resolver gives for its checkpoint. -/
theorem resume_retrieves {request : ResumeRequest} {corpusId : String}
    (hck : ∀ ck, CheckpointTable.loadRunCheckpoint s.checkpoints request.runId = some ck →
      ck.corpusId = corpusId) :
    s.Retrieves (W.Resolves corpusId) (W.resume texts ctx request s).2 := by
  have hplan : W.Planning (W.Resolves corpusId) s (planResume texts ctx request) .empty s := by
    have hs : s.Retrieves (W.Resolves corpusId) s := .of_calls rfl
    rw [Planning, planResume, meets_ite, meets_ite]
    refine ⟨fun _ => planning_raises hs, fun _ => ⟨fun _ => planning_raises hs, fun _ => ?_⟩⟩
    rw [meets_bind, meets_perform]
    dsimp only [eval]
    cases hload : CheckpointTable.loadRunCheckpoint s.checkpoints request.runId with
    | none => exact planning_raises hs
    | some ck =>
      obtain rfl := hck ck hload
      dsimp only
      unfold planLoaded
      cases ck.firstResult with
      | none => exact planning_raises hs
      | some firstResult =>
        dsimp only
        rw [meets_ite, meets_ite, meets_ite, meets_ite]
        refine ⟨fun _ => planning_raises hs, fun _ => ⟨fun _ => planning_raises hs, fun _ =>
          ⟨fun _ => planning_raises hs, fun _ => ⟨fun _ => planning_raises hs, fun _ => ?_⟩⟩⟩⟩
        rw [(returns_discoverable ck.corpusId).meets_bind, meets_ite]
        exact ⟨fun _ => planning_raises hs, fun _ => planGated_planning hs⟩
  have hmeets : W.Retrieving (W.Resolves corpusId) s (resumeRun texts ctx request) .empty s := by
    rw [Retrieving, resumeRun, meets_bind]
    apply hplan.mono
    rintro r t s' ⟨hs', hwithin⟩
    cases r with
    | error e => exact hs'
    | ok plan => exact retrieves_of_serving (serving_followPlan (hwithin plan rfl)) t hs'
  exact hmeets

end ChatWorld

namespace MultiCorpusSetting

open MultiCorpusRetrieval

variable {setting : MultiCorpusSetting} {ctx : SecurityContext} {query : String}
  {selection : CorpusSelection} {corpus : CorpusConfig}

theorem mem_of_gatherAll {retriever : Retriever} {corpora : List CorpusConfig} {before : Nat} {s : Gathered}
    (h : corpus ∈ (gatherAll retriever ctx corpora before s).2) : corpus ∈ corpora := by
  induction corpora generalizing before s with
  | nil => exact h
  | cons first rest ih =>
    unfold gatherAll at h
    cases hgather : gather ctx first (retriever before first) s with
    | error e =>
      simp only [hgather, List.mem_singleton] at h
      exact List.mem_cons.mpr (.inl h)
    | ok s' =>
      simp only [hgather, List.mem_cons] at h
      rcases h with rfl | hrest
      · exact List.mem_cons_self
      · exact List.mem_cons_of_mem _ (ih hrest)

theorem mem_of_retrieveOrExpand {chosen : Selected}
    (h : corpus ∈ (setting.retrieveOrExpand ctx chosen).2) :
    corpus ∈ chosen.selected ∨ corpus ∈ chosen.fallback := by
  unfold retrieveOrExpand at h
  cases hprimary : asFastPathError (retrieve setting.retriever ctx chosen.selected 0).1 with
  | error e =>
    simp only [hprimary] at h
    exact .inl (mem_of_gatherAll h)
  | ok result =>
    simp only [hprimary] at h
    split at h
    · rcases List.mem_append.mp h with hselected | hextra
      · exact .inl (mem_of_gatherAll hselected)
      · exact .inr (List.mem_filter.mp (mem_of_gatherAll hextra)).1
    · exact .inl (mem_of_gatherAll h)

theorem mem_of_mapM {corpusIds : List String} {found : List CorpusConfig}
    (h : corpusIds.mapM setting.registryGet = .ok found) (hcorpus : corpus ∈ found) :
    ∃ corpusId, setting.registryGet corpusId = .ok corpus := by
  induction corpusIds generalizing found with
  | nil =>
    rw [List.mapM_nil] at h
    obtain rfl := Except.ok.inj h
    cases hcorpus
  | cons corpusId corpusIds ih =>
    rw [List.mapM_cons] at h
    obtain ⟨first, hfirst, hrest⟩ := except_bind_ok.mp h
    obtain ⟨rest, hmap, hfound⟩ := except_bind_ok.mp hrest
    obtain rfl := Except.ok.inj hfound
    rcases List.mem_cons.mp hcorpus with rfl | hlater
    · exact ⟨corpusId, hfirst⟩
    · exact ih hmap hlater

/-- Every corpus that is selected comes from the registry. -/
theorem registryGet_of_select {chosen : Selected} (h : setting.select selection = .ok chosen)
    (hcorpus : corpus ∈ chosen.selected ∨ corpus ∈ chosen.fallback) :
    ∃ corpusId, setting.registryGet corpusId = .ok corpus := by
  cases selection with
  | pinned corpusIds =>
    obtain ⟨selected, hmap, hchosen⟩ := except_bind_ok.mp h
    obtain rfl := Except.ok.inj hchosen
    exact mem_of_mapM hmap (hcorpus.resolve_right List.not_mem_nil)
  | routed routerLimit =>
    obtain ⟨route, -, hselect⟩ := except_bind_ok.mp h
    obtain ⟨selected, hmap, hchosen⟩ := except_bind_ok.mp hselect
    split at hchosen
    · obtain ⟨fallback, hmap', hchosen⟩ := except_bind_ok.mp hchosen
      obtain rfl := Except.ok.inj hchosen
      exact hcorpus.elim (mem_of_mapM hmap) (mem_of_mapM hmap')
    · obtain rfl := Except.ok.inj hchosen
      exact mem_of_mapM hmap (hcorpus.resolve_right List.not_mem_nil)

/-- Every corpus that is queried comes from the registry. -/
theorem registryGet_of_queried (h : corpus ∈ (setting.answerMultiCorpus ctx query selection).2) :
    ∃ corpusId, setting.registryGet corpusId = .ok corpus := by
  obtain ⟨i, hi⟩ := List.mem_iff_getElem?.mp h
  obtain ⟨-, chosen, hselect, hqueries⟩ := answerMultiCorpus_queried hi
  rw [hqueries] at h
  exact registryGet_of_select hselect (mem_of_retrieveOrExpand h)

end MultiCorpusSetting

namespace ServiceContainer

/-- The service of the container: the resolver and the registry are the container's. -/
structure Serves (c : ServiceContainer) (ctx : SecurityContext) (W : ChatWorld) : Prop where
  resolver : W.resolveCorpus = resolveCorpusFromYaml c.corpora
  registry : W.registryGet = c.registry.get ctx

/-- The retrieval from a corpus searches this collection, if it searches at all. -/
def SearchedAt (ctx : SecurityContext) (name : String) (corpus : CorpusConfig) : Prop :=
  ∀ found ∈ SecureRetriever.searched ctx corpus, found = name

/-- The five mutations of the manager write to this collection of the corpus and to no other. -/
structure MutatesAt (svc : Services) (corpusId name : String) : Prop where
  delete : ∀ ctx documentId, WritesLive corpusId name (DocumentManager.delete ctx corpusId documentId)
  purge : ∀ ctx documentId, WritesLive corpusId name (DocumentManager.purge ctx corpusId documentId)
  tightenAcl : ∀ ctx documentId acl,
    WritesLive corpusId name (DocumentManager.tightenAcl ctx corpusId documentId acl)
  rollbackActiveVersion : ∀ doc toVersion expectedRevision, doc.corpusId = corpusId →
    WritesLive corpusId name (DocumentManager.rollbackActiveVersion doc toVersion expectedRevision)
  rebuildDocument : ∀ ref, ref.doc.corpusId = corpusId →
    WritesLive corpusId name (DocumentManager.rebuildDocument svc ref)

/-- Every path reads and writes the collection of the corpus that the registry resolves. -/
structure Agrees (svc : Services) (c : ServiceContainer) (corpusId : String) : Prop where
  answered : ∀ texts ctx W (request : IterationRequest) (s : ChatStores), c.Serves ctx W →
    request.corpusId = corpusId →
    s.Retrieves (SearchedAt ctx (c.resolves corpusId)) (W.answer texts ctx request s).2
  resumed : ∀ texts ctx W (request : ResumeRequest) (s : ChatStores), c.Serves ctx W →
    (∀ ck, CheckpointTable.loadRunCheckpoint s.checkpoints request.runId = some ck →
      ck.corpusId = corpusId) →
    s.Retrieves (SearchedAt ctx (c.resolves corpusId)) (W.resume texts ctx request s).2
  pooled : ∀ (setting : MultiCorpusSetting) ctx query selection, setting.registryGet = c.registry.get ctx →
    ∀ corpus ∈ (setting.answerMultiCorpus ctx query selection).2, corpus.corpusId = corpusId →
      SearchedAt ctx (c.resolves corpusId) corpus
  managed : Lives corpusId (c.resolves corpusId) c.system.stores.world
  mutates : MutatesAt svc corpusId (c.resolves corpusId)

/-- The corpus, if requests may search it, still has the collection it was configured with. -/
def Unmoved (c : ServiceContainer) (corpusId : String) : Prop :=
  ∀ corpus, resolveCorpusFromYaml c.corpora corpusId = .ok corpus → corpus.enabled = true →
    corpus.searchable = true → c.resolves corpusId = SecureRetriever.collectionOf corpus

variable {svc : Services} {corpora : List CorpusConfig} {s₀ : IndexSystem} {c : ServiceContainer}
  {corpusId : String}

theorem mutatesAt (svc : Services) (corpusId name : String) : MutatesAt svc corpusId name where
  delete ctx _ := DocumentManager.delete_writesLive ctx
  purge ctx _ := DocumentManager.purge_writesLive ctx
  tightenAcl ctx _ acl := DocumentManager.tightenAcl_writesLive ctx acl
  rollbackActiveVersion doc toVersion expectedRevision hcorpus :=
    hcorpus ▸ DocumentManager.rollbackActiveVersion_writesLive doc toVersion expectedRevision
  rebuildDocument ref hcorpus := hcorpus ▸ DocumentManager.rebuildDocument_writesLive svc ref

/-- What the multi-corpus service is given, it searches where the registry resolves. -/
theorem searchedAt_of_get {ctx : SecurityContext} {asked : String} {corpus : CorpusConfig}
    (h : c.registry.get ctx asked = .ok corpus) :
    SearchedAt ctx (c.resolves corpus.corpusId) corpus := by
  obtain ⟨hfind, -⟩ := InMemoryCorpusRegistry.get_ok_iff.mp h
  have hid := (InMemoryCorpusRegistry.find_some hfind).2
  rintro found hfound
  rw [(SecureRetriever.searched_some hfound).1]
  unfold resolves InMemoryCorpusRegistry.resolveCollectionName
  rw [hid, hfind]
  rfl

theorem Unmoved.searchedAt (h : c.Unmoved corpusId) {ctx : SecurityContext} {W : ChatWorld}
    (hserves : c.Serves ctx W) {corpus : CorpusConfig} (hcorpus : W.Resolves corpusId corpus) :
    SearchedAt ctx (c.resolves corpusId) corpus := by
  rintro found hfound
  obtain ⟨hname, henabled, hsearchable⟩ := SecureRetriever.searched_some hfound
  have hresolve : resolveCorpusFromYaml c.corpora corpusId = .ok corpus := hserves.resolver ▸ hcorpus
  rw [hname, h corpus hresolve henabled hsearchable]

/-- A caller from the tenant of a corpus who may read public documents. -/
def reader (corpus : CorpusConfig) : SecurityContext where
  requestId := "r1"
  sessionId := "s1"
  tenantId := corpus.tenantId
  userId := "alice"
  roles := []
  groups := []
  allowedSecurityLevels := ["public"]
  allowedCorpusIds := none
  policyVersion := "v1"
  isAdmin := false
  permissions := []

/-- The service of the container while its vector store is down. -/
def unavailable (c : ServiceContainer) (ctx : SecurityContext) : ChatWorld where
  resolveCorpus := resolveCorpusFromYaml c.corpora
  registryGet := c.registry.get ctx
  activeDocument _ := none
  now _ := ⟨0, none⟩
  retrieve _ _ _ _ := .error (.transport "ConnectionError" "connection refused")
  judge _ _ _ _ := .error (.judge false "not asked")
  model _ _ := .error (.modelInvocation "not asked")

/-- A question to `answer`. -/
def question (corpusId : String) : IterationRequest where
  query := "How many days of leave do employees have?"
  corpusId := corpusId
  maxRounds := 1
  judged := false
  requiredFacts := []
  runId := none
  hasStore := false

theorem searched_reader {corpus : CorpusConfig} (henabled : corpus.enabled = true)
    (hsearchable : corpus.searchable = true) :
    SecureRetriever.searched (reader corpus) corpus = some (SecureRetriever.collectionOf corpus) := by
  have hvalid : SecureRetriever.validateCorpus (reader corpus) corpus = .ok () := by
    simp [SecureRetriever.validateCorpus, require, henabled, hsearchable, reader, canDiscoverCorpus]
    rfl
  unfold SecureRetriever.searched
  rw [hvalid]
  rfl

theorem unavailable_calls {corpus : CorpusConfig} {ctx : SecurityContext} {texts : ChatTexts} {s : ChatStores}
    (hcorpus : resolveCorpusFromYaml c.corpora corpusId = .ok corpus) :
    ((c.unavailable ctx).answer texts ctx (question corpusId) s).2.calls =
      s.calls ++ [.retrieval (question corpusId).query corpus 0] := by
  have hresolve : (c.unavailable ctx).resolveCorpus corpusId = .ok corpus := hcorpus
  have hanswer : (c.unavailable ctx).answer texts ctx (question corpusId) s =
      (runSinglePass texts ctx (question corpusId).query corpusId .empty).exec (c.unavailable ctx).eval s := rfl
  have hcall : Method.Returns (c.unavailable ctx).eval (Method.perform (.resolveCorpus corpusId))
      IterationState.empty s corpus .empty s := by
    apply Method.returns_perform
    simp only [ChatWorld.eval, hresolve]
  rw [hanswer, runSinglePass, hcall.exec_bind]
  rfl

/-- Where the paths agree, the pointer has not moved. -/
theorem Agrees.unmoved (h : c.Agrees svc corpusId) : c.Unmoved corpusId := by
  intro corpus hcorpus henabled hsearchable
  obtain ⟨made, hcalls, hmade⟩ := h.answered MultiCorpusSetting.Sample.setting.texts (reader corpus)
    (c.unavailable (reader corpus)) (question corpusId) ⟨[], [], []⟩ ⟨rfl, rfl⟩ rfl
  rw [unavailable_calls hcorpus] at hcalls
  obtain rfl : [ChatCall.retrieval (question corpusId).query corpus 0] = made := by simpa using hcalls
  have hsearched := hmade _ corpus 0 (List.mem_singleton.mpr rfl)
  exact (hsearched _ (searched_reader henabled hsearchable)).symm

/-- Where the pointer has not moved, all paths agree. -/
theorem Unmoved.agrees (h : c.Unmoved corpusId) (hmirrors : c.Mirrors) : c.Agrees svc corpusId where
  answered texts ctx W request s hserves hcorpus := by
    subst hcorpus
    exact (ChatWorld.answer_retrieves request).mono fun corpus => h.searchedAt hserves
  resumed texts ctx W request s hserves hck :=
    (ChatWorld.resume_retrieves hck).mono fun corpus => h.searchedAt hserves
  pooled setting ctx query selection hregistry corpus hqueried hcorpus := by
    obtain ⟨asked, hget⟩ := MultiCorpusSetting.registryGet_of_queried hqueried
    rw [hregistry] at hget
    exact hcorpus ▸ searchedAt_of_get hget
  managed := hmirrors.resolves_eq corpusId
  mutates := mutatesAt svc corpusId _

/-- After any switches and rollbacks the single-corpus service, the multi-corpus service and the
manager work on one collection of a corpus exactly if its pointer is where the configuration has
it, or no request may search the corpus. -/
theorem collections_agree_iff
    (hrun : Transition.Reaches (step svc) (fun _ _ => True) (start corpora s₀) c) (corpusId : String) :
    c.Agrees svc corpusId ↔ c.Unmoved corpusId := by
  constructor
  · exact Agrees.unmoved
  · intro h
    exact h.agrees (mirrors_of_run hrun).1

private def configuredPolicies : CorpusConfig where
  corpusId := "policies"
  tenantId := "acme"
  vectorCollection := none
  enabled := true
  searchable := true

/-- A metadata store without corpora, and a vector store with the configured collection and a new one. -/
private def freshSystem : IndexSystem where
  stores :=
    { world := { Sample.world with
        vectors := fun name => if name = "policies" ∨ name = "policies_v2" then some [] else none }
      leases := []
      builds := [] }
  calls := []
  succeeded := fun _ => none

private def switchToSecond : List IndexMove :=
  .switch "policies" "policies_v2" "a" :: List.replicate 6 (.proceed 0 false)

/-- After a switch the single-corpus service still searches the collection that was switched away. -/
theorem collections_agree_counterexample :
    ∃ c, Transition.Reaches (step Sample.services) (fun _ _ => True)
        (start [configuredPolicies] freshSystem) c ∧
      c.system.succeeded "policies" = some "policies_v2" ∧ ¬c.Agrees Sample.services "policies" := by
  refine ⟨_, Transition.reaches_play switchToSecond rfl, rfl, fun h => ?_⟩
  have hunmoved := h.unmoved configuredPolicies rfl rfl rfl
  revert hunmoved
  decide +kernel

/-- The moves of a second switch, back to the collection of the configuration. -/
private def switchBack : List IndexMove :=
  .switch "policies" "policies" "b" :: List.replicate 6 (.proceed 0 false)

private def switched : ServiceContainer :=
  Transition.play (step Sample.services) (start [configuredPolicies] freshSystem) switchToSecond

/-- Once the pointer is switched back the paths agree again. -/
theorem collections_agree_switched_back :
    Transition.Reaches (step Sample.services) (fun _ _ => True) (start [configuredPolicies] freshSystem) switched ∧
      switched.system.succeeded "policies" = some "policies_v2" ∧
      ∃ c, Transition.Reaches (step Sample.services) (fun _ _ => True) switched c ∧
        c.system.succeeded "policies" = some "policies" ∧ c.Agrees Sample.services "policies" := by
  have haway : Transition.Reaches (step Sample.services) (fun _ _ => True) (start [configuredPolicies] freshSystem)
      switched := Transition.reaches_play switchToSecond rfl
  have hback : Transition.Reaches (step Sample.services) (fun _ _ => True) switched
      (Transition.play (step Sample.services) switched switchBack) := Transition.reaches_play switchBack rfl
  refine ⟨haway, rfl, _, hback, rfl, ?_⟩
  refine (collections_agree_iff (haway.trans hback) "policies").mpr ?_
  intro corpus hcorpus _ _
  obtain rfl := Except.ok.inj (hcorpus : Except.ok configuredPolicies = _)
  decide +kernel

end ServiceContainer

end AgenticRag
