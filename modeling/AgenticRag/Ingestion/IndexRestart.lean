import AgenticRag.Foundations.Execution
import AgenticRag.Ingestion.IndexSwitch
import AgenticRag.Ingestion.Reconciler
import AgenticRag.Storage.Evaluation

/-!
# The pointer across restarts

A restart registers every corpus of the static configuration again. The registration also
writes the column of the persisted pointer, so after a restart the pointer is what the
configuration says, whatever was switched before.
-/

namespace AgenticRag

/-- `register_corpus` of every corpus of the configuration. -/
def registerCorpora (config corpora : List CorpusRow) : List CorpusRow :=
  config.foldl (Table.upsert fun row => (row.corpusId, row.tenantId)) corpora

/-- `InMemoryCorpusRegistry` of the configuration; the last entry of a corpus counts. -/
def liveRegistry (config : List CorpusRow) (corpusId : String) : Option String :=
  (config.reverse.find? fun row => decide (row.corpusId = corpusId)).map
    fun row => row.vectorCollection.getD ""

/-- The process starts again: no call is in progress, the corpora are registered, and the
live registry is made anew. -/
def restart (config : List CorpusRow) (s : IndexSystem) : IndexSystem where
  stores := { s.stores with
    world.metadata.corpora := registerCorpora config s.stores.world.metadata.corpora
    world.pointers := liveRegistry config }
  calls := []
  succeeded := s.succeeded

inductive DeploymentMove where
  | index (move : IndexMove)
  | restart
  deriving DecidableEq, Repr

/-- One move of a deployment with a static configuration. -/
def deploymentStep (svc : Services) (config : List CorpusRow) :
    Transition IndexSystem DeploymentMove := fun s move =>
  match move with
  | .index move => indexStep svc s move
  | .restart => some (restart config s)

/-- The first start, with a metadata store that has no corpora yet. -/
def deployed (config : List CorpusRow) (w : World) : IndexSystem :=
  restart config ⟨⟨{ w with metadata.corpora := [] }, [], []⟩, [], fun _ => none⟩

/-- The pointer the configuration itself registers for a corpus. -/
def configuredCollection (config : List CorpusRow) (corpusId : String) : Option String :=
  (MetadataStore.registeredRow (registerCorpora config []) corpusId).bind (·.vectorCollection)

/-- The stores after a reconciler run of a corpus with no concurrent writer. -/
def reconciled (svc : Services) (corpusId : String) (w : World) : World :=
  (Reconciler.reconcileCorpus svc corpusId true).after StoreOp.eval () w

/-- The persisted pointer is the collection, and retrieval resolves to it at once or after
one reconciler run. -/
def IndexSystem.PointsTo (svc : Services) (s : IndexSystem) (corpusId name : String) : Prop :=
  s.stores.getActiveCollection corpusId = some name ∧
    (s.stores.resolveCollectionName corpusId = name ∨
      (reconciled svc corpusId s.stores.world).resolveCollectionName corpusId = name)

section Registration

variable {config corpora : List CorpusRow}

def CorpusRow.key (row : CorpusRow) : String × String := (row.corpusId, row.tenantId)

/-- Registering over the same corpora again gives what the configuration says. -/
theorem registerCorpora_again
    (hkeys : corpora.map (·.key) = (registerCorpora config []).map (·.key)) :
    registerCorpora config corpora = registerCorpora config [] :=
  Table.upsertAll_of_keys hkeys

theorem setVectorCollection_keys (corpusId : String) (name : Option String) :
    (IndexStores.setVectorCollection corpusId name corpora).map (·.key) = corpora.map (·.key) := by
  unfold IndexStores.setVectorCollection Table.update
  rw [List.map_map]
  apply List.map_congr_left
  intro row _
  simp only [Function.comp_apply]
  split <;> rfl

/-- A corpus with a registered row is in the live registry. -/
theorem liveRegistry_registered {row : CorpusRow} (hrow : row ∈ registerCorpora config []) :
    (liveRegistry config row.corpusId).isSome = true := by
  have hconfig : row ∈ config := by
    rcases Table.mem_upsertAll.mp hrow with hlast | ⟨hmem, -⟩
    · exact List.mem_reverse.mp (List.mem_of_find?_eq_some hlast)
    · cases hmem
  rw [liveRegistry, Option.isSome_map, List.find?_isSome]
  exact ⟨row, List.mem_reverse.mpr hconfig, by simp⟩

end Registration

section Runs

variable {svc : Services} {config : List CorpusRow}

/-- The corpora are those of the configuration, whatever their pointers. -/
def Configured (config : List CorpusRow) (s : IndexSystem) : Prop :=
  s.stores.world.metadata.corpora.map (·.key) = (registerCorpora config []).map (·.key)

theorem SwitchCall.Effect.corpora_keys {s s' : IndexStores} {registryFails : Bool}
    {call : SwitchCall} {rest : SwitchRest} (h : call.Effect registryFails s s' rest) :
    s'.world.metadata.corpora.map (·.key) = s.world.metadata.corpora.map (·.key) := by
  cases h with
  | checked | notFlipped | mirrored | notMirrored | notCompensated | released => rfl
  | acquired hrun hleases hholds => rw [hleases.1]
  | flipped _ hflips => rw [hflips.corpora, setVectorCollection_keys]
  | compensated _ hflips => rw [hflips.corpora, setVectorCollection_keys]

theorem Configured.step {s s' : IndexSystem} {move : DeploymentMove} (h : Configured config s)
    (hstep : deploymentStep svc config s move = some s') : Configured config s' := by
  cases move with
  | restart =>
    obtain rfl := Option.some.inj hstep
    exact congrArg (List.map (·.key)) (registerCorpora_again h)
  | index move =>
    cases move with
    | wait duration =>
      obtain rfl := Option.some.inj hstep
      exact h
    | build args =>
      obtain rfl := Option.some.inj hstep
      have hframe := buildIndexV2_frame svc args s.stores
      unfold Configured
      rw [hframe.metadata]
      exact h
    | switch corpusId target owner =>
      obtain rfl := Option.some.inj hstep
      exact h
    | rollback corpusId owner =>
      obtain rfl := Option.some.inj hstep
      exact h
    | proceed k registryFails =>
      obtain ⟨call, -, rfl⟩ := Option.map_eq_some_iff.mp hstep
      exact (call.statement_effect registryFails s.stores).corpora_keys.trans h

/-- A corpus of the configuration has the pointer of the configuration after a restart. -/
theorem getActiveCollection_restart {w : World} {s : IndexSystem}
    (hrun : Transition.Reaches (deploymentStep svc config) (fun _ _ => True) (deployed config w) s)
    (corpusId : String) :
    (restart config s).stores.getActiveCollection corpusId = configuredCollection config corpusId := by
  have hconfigured : Configured config s :=
    hrun.invariant (fun h _ hstep => h.step hstep) rfl
  have hcorpora : (restart config s).stores.world.metadata.corpora = registerCorpora config [] :=
    registerCorpora_again hconfigured
  unfold IndexStores.getActiveCollection MetadataStore.getActiveCollection configuredCollection
  rw [hcorpora]

end Runs

section Reconciling

variable {w : World} {corpusId : String}

/-- Accesses that do not write the live pointers. -/
def StoreOp.KeepsPointers {β : Type} : StoreOp β → Prop
  | .setPointer _ _ _ => False
  | _ => True

open Method StoreProgram Reconciler DocumentManager

theorem rebuildDocument_keepsPointers (svc : Services) (ref : VersionRef) :
    Uses StoreOp.KeepsPointers (rebuildDocument svc ref) := by
  refine Uses.bind (Uses.perform trivial) fun name => ?_
  refine Uses.bind (Uses.perform trivial) fun rows => ?_
  refine Uses.bind (Uses.perform trivial) fun _ => Uses.forEach (fun parentId => ?_) _
  refine Uses.ite (Uses.pure ()) ?_
  cases rebuiltParent ref parentId (childrenOfParent rows parentId) with
  | some parent => exact Uses.perform trivial
  | none => exact Uses.pure ()

theorem rebuild_keepsPointers (svc : Services) (kind : String) (key : VersionKey) :
    Uses StoreOp.KeepsPointers (rebuild svc corpusId kind key) :=
  Uses.bind (rebuildDocument_keepsPointers svc _) fun _ => Uses.pure _

theorem reconcilePurge_keepsPointers (doc : DocRef) :
    Uses StoreOp.KeepsPointers (reconcilePurge doc) := by
  refine Uses.bind (Uses.perform trivial) fun name => ?_
  refine Uses.bind (Uses.perform trivial) fun versions => ?_
  refine Uses.bind (Uses.forEach (fun version => ?_) _) fun _ => Uses.perform trivial
  refine Uses.bind (Uses.perform trivial) fun pointIds => ?_
  refine Uses.bind (Uses.perform trivial) fun _ => ?_
  exact Uses.bind (Uses.perform trivial) fun _ => Uses.perform trivial

theorem sweep_keepsPointers (svc : Services) (name : String) (active known deleted : List VersionKey) :
    Uses StoreOp.KeepsPointers (sweep svc name corpusId active known deleted) := by
  have hfound : ∀ {op : StoreOp Unit} (found : List Finding), op.KeepsPointers →
      Uses StoreOp.KeepsPointers
        (perform op >>= fun _ => pure found : ManagerProgram (List Finding)) :=
    fun found hop => Uses.bind (Uses.perform hop) fun _ => Uses.pure found
  have hscan : Uses StoreOp.KeepsPointers (scanCollection name) :=
    Uses.bind (Uses.perform trivial) fun _ => Uses.ite (Uses.perform trivial) (Uses.pure _)
  have hpoint : ∀ point, Uses StoreOp.KeepsPointers
      (reconcilePoint name corpusId active known point) := fun point =>
    Uses.ite (hfound _ trivial) (Uses.ite (hfound _ trivial) (Uses.ite (hfound _ trivial) (Uses.pure _)))
  have hparents : ∀ key, Uses StoreOp.KeepsPointers (reconcileParents svc corpusId key) := fun key =>
    Uses.bind (Uses.perform trivial) fun _ => Uses.ite (rebuild_keepsPointers svc _ key) (Uses.pure _)
  have hactive : ∀ present key, Uses StoreOp.KeepsPointers
      (reconcileActive svc corpusId present key) := fun present key =>
    Uses.ite (rebuild_keepsPointers svc _ key) (hparents key)
  have hlinger : ∀ key, Uses StoreOp.KeepsPointers (reconcileDeleted name corpusId key) := by
    intro key
    refine Uses.bind ?_ fun pointIds => Uses.bind (Uses.perform trivial) fun parentIds => ?_
    · exact Uses.bind (Uses.perform trivial) fun _ => Uses.ite (Uses.perform trivial) (Uses.pure _)
    · refine Uses.ite ?_ (Uses.pure _)
      exact Uses.bind (reconcilePurge_keepsPointers _) fun _ => Uses.pure _
  have hparent : ∀ parent, Uses StoreOp.KeepsPointers
      (reconcileParent corpusId active known parent) := by
    intro parent
    refine Uses.ite (Uses.pure _) (Uses.ite (hfound _ trivial) ?_)
    refine Uses.bind (Uses.perform trivial) fun stored => ?_
    exact Uses.ite (hfound _ trivial) (Uses.ite (hfound _ trivial) (Uses.pure _))
  refine Uses.bind hscan fun points => ?_
  refine Uses.bind (Uses.collect hpoint _) fun _ => ?_
  refine Uses.bind (Uses.collect (hactive _) _) fun _ => ?_
  refine Uses.bind (Uses.collect hlinger _) fun _ => ?_
  refine Uses.bind (Uses.perform trivial) fun allParents => ?_
  exact Uses.bind (Uses.collect hparent _) fun _ => Uses.pure _

theorem StoreOp.KeepsPointers.eval {β : Type} {op : StoreOp β} (hop : op.KeepsPointers) (w : World) :
    (op.eval w).2.pointers = w.pointers := by
  cases op with
  | setPointer corpusId name done => exact absurd hop id
  | read | raise | metadata | vectors | parents | recordFinding => rfl

theorem resolveCollectionName_flipPointer {name : String}
    (hregistered : (w.pointers corpusId).isSome = true) :
    { w with pointers := flipPointer corpusId name w.pointers }.resolveCollectionName corpusId =
      effectiveCollection corpusId (some name) := by
  obtain ⟨old, hold⟩ := Option.isSome_iff_exists.mp hregistered
  simp [World.resolveCollectionName, flipPointer, hold, effectiveCollection]

theorem effectiveCollection_again (corpusId : String) (persisted : Option String) :
    effectiveCollection corpusId (some (effectiveCollection corpusId persisted)) =
      effectiveCollection corpusId persisted := by
  cases persisted with
  | none =>
    exact ite_self corpusId
  | some name =>
    by_cases hempty : name = ""
    · simp [effectiveCollection, hempty]
    · simp [effectiveCollection, hempty]

/-- The first statements of a reconciler run put the live pointer where the persisted one is. -/
theorem realignPointer_returns (hregistered : (w.pointers corpusId).isSome = true) :
    ∃ found w', Returns StoreOp.eval (realignPointer corpusId) () w found () w' ∧
      w'.resolveCollectionName corpusId =
        effectiveCollection corpusId (w.metadata.getActiveCollection corpusId) := by
  let name := effectiveCollection corpusId (w.metadata.getActiveCollection corpusId)
  by_cases hdiffers : w.resolveCollectionName corpusId ≠ name
  · let flipped := { w with pointers := flipPointer corpusId name w.pointers }
    have hrun : Returns StoreOp.eval (realignPointer corpusId) () w
        [corpusFinding "registry_mismatch" corpusId] () flipped := by
      refine returns_read_bind (returns_read_bind ?_)
      rw [if_pos hdiffers]
      exact (returns_perform rfl).bind returns_pure
    refine ⟨_, _, hrun, (resolveCollectionName_flipPointer hregistered).trans ?_⟩
    exact effectiveCollection_again corpusId _
  · have hrun : Returns StoreOp.eval (realignPointer corpusId) () w [] () w := by
      refine returns_read_bind (returns_read_bind ?_)
      rw [if_neg hdiffers]
      exact returns_pure
    exact ⟨_, _, hrun, not_not.mp hdiffers⟩

/-- A reconciler run of a registered corpus leaves retrieval at the persisted pointer. -/
theorem resolveCollectionName_reconciled (svc : Services)
    (hregistered : (w.pointers corpusId).isSome = true) :
    (reconciled svc corpusId w).resolveCollectionName corpusId =
      effectiveCollection corpusId (w.metadata.getActiveCollection corpusId) := by
  obtain ⟨found, w', hrealigned, hresolve⟩ := realignPointer_returns hregistered
  have hafter : reconciled svc corpusId w = _ := hrealigned.after_bind
  have hkeeps : (reconciled svc corpusId w).pointers = w'.pointers := by
    have htrans : ∀ s t u : World, t.pointers = s.pointers → u.pointers = t.pointers →
        u.pointers = s.pointers := fun _ _ _ h h' => h'.trans h
    rw [hafter]
    apply Prog.Uses.ends (P := StoreOp.KeepsPointers) (G := fun s t => t.pointers = s.pointers)
      (fun _ => rfl) htrans fun _ w hop => hop.eval w
    refine Uses.bind (Uses.perform trivial) (fun name => ?_) ()
    refine Uses.bind (Uses.perform trivial) fun active => ?_
    refine Uses.bind (Uses.perform trivial) fun known => ?_
    refine Uses.bind (Uses.perform trivial) fun deleted => ?_
    refine Uses.bind (sweep_keepsPointers svc name active known deleted) fun swept => ?_
    refine Uses.bind (Uses.perform trivial) fun failedJobs => ?_
    exact Uses.forEach (fun finding => Uses.perform trivial) _
  rw [← hresolve]
  unfold World.resolveCollectionName
  rw [hkeeps]

end Reconciling

section Durability

variable {svc : Services} {config : List CorpusRow} {w : World} {s : IndexSystem}

/-- A registered pointer belongs to a corpus of the live registry. -/
theorem registered_of_configured {corpusId name : String}
    (hconfigured : configuredCollection config corpusId = some name) :
    (liveRegistry config corpusId).isSome = true := by
  obtain ⟨row, hrow, -⟩ := Option.bind_eq_some_iff.mp hconfigured
  obtain ⟨hmem, hcolumn⟩ := Table.selectFirst_some hrow
  obtain rfl := of_decide_eq_true hcolumn
  exact liveRegistry_registered hmem

/-- The live pointer is empty only for the corpus without a name. -/
theorem corpusId_of_resolve {corpusId : String} {stores : IndexStores}
    (h : stores.resolveCollectionName corpusId = "") : corpusId = "" := by
  unfold IndexStores.resolveCollectionName World.resolveCollectionName at h
  split at h
  · split at h
    · exact h
    · exact absurd h ‹_›
  · exact h

/-- The pointer that the last successful switch or rollback of a corpus set survives a restart exactly if
the configuration registers that very collection. The run before the restart is any interleaving of
builds, switches, rollbacks and further restarts; a reconciliation afterwards does not change the answer. -/
theorem pointer_survives_restart
    (hrun : Transition.Reaches (deploymentStep svc config) (fun _ _ => True) (deployed config w) s)
    (corpusId : String) :
    (∀ name ∈ s.succeeded corpusId, (restart config s).PointsTo svc corpusId name) ↔
      ∀ name ∈ s.succeeded corpusId,
        configuredCollection config corpusId = some name ∧ (name = "" → corpusId = "") := by
  have hpersisted := getActiveCollection_restart hrun corpusId
  refine forall₂_congr fun name _ => ?_
  unfold IndexSystem.PointsTo
  rw [hpersisted]
  refine and_congr_right fun hconfigured => ?_
  have hregistered : (liveRegistry config corpusId).isSome = true :=
    registered_of_configured hconfigured
  have hreconciled : (reconciled svc corpusId (restart config s).stores.world).resolveCollectionName
      corpusId = Reconciler.effectiveCollection corpusId (some name) := by
    rw [← hconfigured, ← hpersisted]
    exact resolveCollectionName_reconciled svc hregistered
  rw [hreconciled]
  by_cases hempty : name = ""
  · subst hempty
    simp only [Reconciler.effectiveCollection, if_true, true_imp_iff, or_iff_right_iff_imp]
    exact fun hresolve => corpusId_of_resolve hresolve
  · simp [Reconciler.effectiveCollection, hempty]

end Durability

/-- Stores with the collection of a migration. -/
private def migratedWorld : World :=
  { Sample.world with vectors := fun name => if name = "policies_v2" then some [] else none }

/-- The corpus of the samples with a configured collection. -/
private def configuring (name : Option String) : List CorpusRow := [⟨"policies", "acme", name⟩]

private def switchOnce : List DeploymentMove :=
  .index (.switch "policies" "policies_v2" "a") :: List.replicate 6 (.index (.proceed 0 false))

theorem pointer_survives_restart_counterexample :
    ∃ s, Transition.Reaches (deploymentStep Sample.services (configuring none)) (fun _ _ => True)
        (deployed (configuring none) migratedWorld) s ∧
      s.succeeded "policies" = some "policies_v2" ∧
      ¬(restart (configuring none) s).PointsTo Sample.services "policies" "policies_v2" := by
  refine ⟨_, Transition.reaches_play switchOnce rfl, rfl, fun h => ?_⟩
  have hpersisted := h.1
  revert hpersisted
  decide +kernel

/-- The same switch where the configuration names the collection. -/
private def switchedAsConfigured : IndexSystem :=
  Transition.play (deploymentStep Sample.services (configuring (some "policies_v2")))
    (deployed (configuring (some "policies_v2")) migratedWorld) switchOnce

theorem pointer_survives_restart_configured :
    (restart (configuring (some "policies_v2")) switchedAsConfigured).PointsTo Sample.services
      "policies" "policies_v2" := by
  have hrun : Transition.Reaches (deploymentStep Sample.services (configuring (some "policies_v2")))
      (fun _ _ => True) (deployed (configuring (some "policies_v2")) migratedWorld)
      switchedAsConfigured := Transition.reaches_play switchOnce rfl
  refine (pointer_survives_restart hrun "policies").mpr ?_ "policies_v2" rfl
  rintro name ⟨⟩
  exact ⟨rfl, by decide⟩

end AgenticRag
