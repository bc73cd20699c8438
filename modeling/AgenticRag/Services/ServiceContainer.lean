import AgenticRag.Corpus.Registry
import AgenticRag.Ingestion.IndexRestart
import AgenticRag.Services.ChatWorld
import AgenticRag.Services.MultiCorpusAnswer

/-!
# The default service container

`services/container.py` and `resolve_corpus_from_yaml`. The container reads the configured
corpora twice: for the registry, whose pointers the index switches move, and for the resolver
of the single-corpus service, which keeps the corpora as they were configured.
-/

namespace AgenticRag

/-- The columns of `register_corpus` that the stores keep. -/
def CorpusConfig.row (corpus : CorpusConfig) : CorpusRow :=
  ⟨corpus.corpusId, corpus.tenantId, corpus.vectorCollection⟩

/-- `resolve_corpus_from_yaml`; of several corpora with one id the last one counts. -/
def resolveCorpusFromYaml (corpora : List CorpusConfig) (corpusId : String) : Except ChatError CorpusConfig :=
  match (InMemoryCorpusRegistry.ofCorpora corpora).find corpusId with
  | some corpus => .ok corpus
  | none => .error (.chatService ("unknown corpus_id: " ++ quoted corpusId))

/-- The container: the corpora of the YAML file, the stores with the switches in progress, and the
registry that the manager, the resumed runs and the multi-corpus service share. -/
structure ServiceContainer where
  corpora : List CorpusConfig
  system : IndexSystem
  registry : InMemoryCorpusRegistry

namespace ServiceContainer

/-- `__init__` over a metadata database that earlier processes have written. -/
def start (corpora : List CorpusConfig) (s : IndexSystem) : ServiceContainer where
  corpora := corpora
  system := restart (corpora.map CorpusConfig.row) s
  registry := .ofCorpora corpora

/-- `set_active_collection` of the registry, where a call has come to it. -/
def mirrored (c : ServiceContainer) (call : Option SwitchCall) : InMemoryCorpusRegistry :=
  match call with
  | some (.mirror sw _) => c.registry.setActiveCollection sw.corpusId sw.target
  | _ => c.registry

/-- One move of the index calls on the stores and the registry of the container; its registry
does not raise. -/
def step (svc : Services) : Transition ServiceContainer IndexMove := fun c move =>
  match move with
  | .proceed _ true => none
  | .proceed k false => (indexStep svc c.system (.proceed k false)).map fun system =>
      { c with system, registry := c.mirrored c.system.calls[k]? }
  | move => (indexStep svc c.system move).map fun system => { c with system }

def resolves (c : ServiceContainer) (corpusId : String) : String := c.registry.resolveCollectionName corpusId

section Pointers

/-- The pointers of the stores are those of the registry. -/
def Mirrors (c : ServiceContainer) : Prop :=
  ∀ corpusId, c.system.stores.world.pointers corpusId =
    (c.registry.find corpusId).map fun corpus => corpus.vectorCollection.getD ""

variable {c c' : ServiceContainer} {svc : Services} {corpora : List CorpusConfig} {s : IndexSystem}

theorem find_ofCorpora (corpora : List CorpusConfig) (corpusId : String) :
    (InMemoryCorpusRegistry.ofCorpora corpora).find corpusId =
      corpora.reverse.find? fun corpus => decide (corpus.corpusId = corpusId) := by
  unfold InMemoryCorpusRegistry.ofCorpora
  induction corpora using List.reverseRecOn with
  | nil => rfl
  | append_singleton corpora corpus ih =>
    rw [List.foldl_append, List.foldl_cons, List.foldl_nil, InMemoryCorpusRegistry.find_put, ih]
    simp only [List.reverse_append, List.reverse_cons, List.reverse_nil, List.nil_append,
      List.singleton_append, List.find?_cons]
    by_cases hid : corpus.corpusId = corpusId
    · simp [hid]
    · simp [hid]

theorem mirrors_start : (start corpora s).Mirrors := by
  intro corpusId
  have hfind : (start corpora s).registry.find corpusId =
      corpora.reverse.find? fun corpus => decide (corpus.corpusId = corpusId) :=
    find_ofCorpora corpora corpusId
  have hpointer : (start corpora s).system.stores.world.pointers corpusId =
      liveRegistry (corpora.map CorpusConfig.row) corpusId := rfl
  rw [hfind, hpointer, liveRegistry, ← List.map_reverse, List.find?_map, Option.map_map]
  rfl

/-- Flipping a pointer of the stores and of the registry. -/
theorem Mirrors.flip (h : c.Mirrors) (corpusId name other : String) :
    flipPointer corpusId name c.system.stores.world.pointers other =
      ((c.registry.setActiveCollection corpusId name).find other).map
        fun corpus => corpus.vectorCollection.getD "" := by
  have hpointer := h corpusId
  unfold flipPointer InMemoryCorpusRegistry.setActiveCollection
  cases hfind : c.registry.find corpusId with
  | none =>
    rw [hfind] at hpointer
    rw [hpointer]
    exact h other
  | some corpus =>
    have hid := (InMemoryCorpusRegistry.find_some hfind).2
    rw [hfind] at hpointer
    rw [hpointer]
    dsimp only [Option.map_some]
    rw [InMemoryCorpusRegistry.find_put]
    by_cases hother : other = corpusId
    · subst hother
      simp [hid]
    · have hne : ¬corpus.corpusId = other := fun hsame => hother (hsame ▸ hid)
      rw [Function.update_of_ne hother, if_neg hne]
      exact h other

theorem Mirrors.resolves_eq (h : c.Mirrors) (corpusId : String) :
    c.system.stores.world.resolveCollectionName corpusId = c.resolves corpusId := by
  unfold resolves World.resolveCollectionName InMemoryCorpusRegistry.resolveCollectionName
  rw [h corpusId]
  cases hfind : c.registry.find corpusId with
  | none => rfl
  | some corpus =>
    have hid := (InMemoryCorpusRegistry.find_some hfind).2
    dsimp only [Option.map_some]
    unfold InMemoryCorpusRegistry.collectionOf
    cases corpus.vectorCollection with
    | none => exact hid.symm
    | some name =>
      dsimp only [Option.getD_some]
      rw [hid]

/-- Of the statements of a switch only the mirroring one moves a live pointer. -/
theorem pointers_of_effect {call : SwitchCall} {before after : IndexStores} {rest : SwitchRest}
    (h : call.Effect false before after rest) :
    (∃ sw previous, call = .mirror sw previous ∧ after.world.pointers =
        flipPointer sw.corpusId sw.target before.world.pointers) ∨
      ((∀ sw previous, call ≠ .mirror sw previous) ∧ after.world.pointers = before.world.pointers) := by
  cases h with
  | checked hfree _ =>
    refine Or.inr ⟨?_, rfl⟩
    rintro sw previous rfl
    cases hfree
  | acquired hrun hleases hholds =>
    refine Or.inr ⟨by simp, ?_⟩
    rw [hleases.1]
  | flipped _ hflips => exact Or.inr ⟨by simp, hflips.live⟩
  | notFlipped => exact Or.inr ⟨by simp, rfl⟩
  | mirrored => exact Or.inl ⟨_, _, rfl, rfl⟩
  | notMirrored hfails => cases hfails
  | compensated _ hflips => exact Or.inr ⟨by simp, hflips.live⟩
  | notCompensated => exact Or.inr ⟨by simp, rfl⟩
  | released => exact Or.inr ⟨by simp, rfl⟩

theorem Mirrors.congr (h : c.Mirrors) (hregistry : c'.registry = c.registry)
    (hpointers : c'.system.stores.world.pointers = c.system.stores.world.pointers) : c'.Mirrors := by
  intro corpusId
  rw [hregistry, hpointers]
  exact h corpusId

theorem Mirrors.step {move : IndexMove} (h : c.Mirrors) (hstep : step svc c move = some c') :
    c'.Mirrors ∧ c'.corpora = c.corpora := by
  cases move with
  | wait duration =>
    obtain rfl := Option.some.inj hstep
    exact ⟨h.congr rfl rfl, rfl⟩
  | build args =>
    obtain rfl := Option.some.inj hstep
    exact ⟨h.congr rfl (buildIndexV2_frame svc args c.system.stores).live, rfl⟩
  | switch corpusId target owner =>
    obtain rfl := Option.some.inj hstep
    exact ⟨h.congr rfl rfl, rfl⟩
  | rollback corpusId owner =>
    obtain rfl := Option.some.inj hstep
    exact ⟨h.congr rfl rfl, rfl⟩
  | proceed k registryFails =>
    cases registryFails with
    | true => cases hstep
    | false =>
      obtain ⟨system, hsystem, rfl⟩ := Option.map_eq_some_iff.mp hstep
      obtain ⟨call, hcall, rfl⟩ := Option.map_eq_some_iff.mp hsystem
      refine ⟨?_, rfl⟩
      rcases pointers_of_effect (call.statement_effect false c.system.stores) with
        ⟨sw, previous, rfl, hflipped⟩ | ⟨hother, hsame⟩
      · intro corpusId
        simp only [mirrored, hcall]
        rw [hflipped]
        exact h.flip sw.corpusId sw.target corpusId
      · refine h.congr ?_ hsame
        simp only [mirrored, hcall]
        cases call with
        | mirror sw previous => exact absurd rfl (hother sw previous)
        | _ => rfl

/-- Along every run of switches and rollbacks the stores and the registry point alike, and the
resolver keeps the configured corpora. -/
theorem mirrors_of_run (hrun : Transition.Reaches (ServiceContainer.step svc) (fun _ _ => True)
    (start corpora s) c) : c.Mirrors ∧ c.corpora = corpora := by
  apply Transition.Reaches.invariant (I := fun c => c.Mirrors ∧ c.corpora = corpora) _ hrun
  · exact ⟨mirrors_start, rfl⟩
  · rintro c move c' ⟨hmirrors, hcorpora⟩ - hstep
    obtain ⟨hmirrors', hsame⟩ := hmirrors.step hstep
    exact ⟨hmirrors', hsame.trans hcorpora⟩

end Pointers

end ServiceContainer

end AgenticRag
