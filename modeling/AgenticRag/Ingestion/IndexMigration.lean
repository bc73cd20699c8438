import AgenticRag.Foundations.Transition
import AgenticRag.Ingestion.Reconciler

/-!
# Index migration

`ingestion/index_migration.py` with the tables it uses. A build fills a parallel
collection; `switch_index` and `rollback_index` flip the persisted pointer and then the
live one under a lease. Switches and rollbacks run statement by statement, so the calls of
other owners may come in between and a lease may expire; a transaction of the metadata
store is one statement. Builds and restarts run by themselves.
-/

namespace AgenticRag

/-- A row of `index_switch_leases`; `corpus_id` is the primary key. -/
structure SwitchLease where
  corpusId : String
  owner : String
  acquiredAt : Timestamp
  deriving DecidableEq, Repr

inductive IndexBuildStatus where
  | building
  | active
  | switched
  deriving DecidableEq, Repr

/-- A row of `index_builds`; `build_id` is the primary key. -/
structure IndexBuild where
  buildId : String
  corpusId : String
  collectionName : String
  embeddingVersion : String
  chunkingVersion : String
  status : IndexBuildStatus
  previousCollection : Option String
  startedAt : Timestamp
  deriving DecidableEq, Repr

/-- The stores with the two tables of index migration. -/
structure IndexStores where
  world : World
  leases : List SwitchLease
  builds : List IndexBuild

inductive IndexError where
  | store (e : PyError)
  | duplicateBuild (buildId : String)
  | noSuchCollection (name : String)
  | noRetainedCollection (corpusId : String)
  | switchInProgress (corpusId : String)
  | leaseNotHeld (corpusId owner : String)
  | registry
  deriving DecidableEq, Repr

abbrev IndexMethod := Routine IndexStores IndexError

namespace IndexStores

open Routine

/-- The persisted pointer: the active collection of the first registered row of the corpus id in the
order of the tenants, and none where that row has none or no tenant registered the id. -/
def getActiveCollection (s : IndexStores) (corpusId : String) : Option String :=
  s.world.metadata.getActiveCollection corpusId

/-- The live pointer. -/
def resolveCollectionName (s : IndexStores) (corpusId : String) : String :=
  s.world.resolveCollectionName corpusId

def leaseOf (s : IndexStores) (corpusId : String) : Option SwitchLease :=
  Table.selectOne (fun lease => decide (lease.corpusId = corpusId)) s.leases

/-- `acquire_index_switch_lease` with its default time to live. -/
def acquireIndexSwitchLease (corpusId owner : String) : IndexMethod Bool := do
  let s ← get
  let lease : SwitchLease := ⟨corpusId, owner, s.world.clock⟩
  let ofCorpus := fun (row : SwitchLease) => decide (row.corpusId = corpusId)
  match s.leaseOf corpusId with
  | none => do
    modify fun s => { s with leases := Table.insert lease s.leases }
    pure true
  | some held =>
    if held.owner = owner then do
      modify fun s => { s with leases := Table.update ofCorpus (fun _ => lease) s.leases }
      pure true
    else if (s.world.clock : Int) - held.acquiredAt > seconds 300 then do
      modify fun s => { s with leases := Table.insert lease (Table.delete ofCorpus s.leases) }
      pure true
    else
      pure false

def releaseIndexSwitchLease (corpusId owner : String) : IndexMethod Unit :=
  modify fun s => { s with
    leases := Table.delete (fun row => decide (row.corpusId = corpusId ∧ row.owner = owner)) s.leases }

/-- `UPDATE corpus_registry SET vector_collection=? WHERE corpus_id=?`. -/
def setVectorCollection (corpusId : String) (name : Option String) (corpora : List CorpusRow) :
    List CorpusRow :=
  Table.update (fun row => decide (row.corpusId = corpusId))
    (fun row => { row with vectorCollection := name }) corpora

/-- `set_active_collection_atomic`. A null name equals no collection name. -/
def setActiveCollectionAtomic (corpusId : String) (name : Option String) (owner : String) :
    IndexMethod Unit := transaction do
  let s ← get
  match s.leaseOf corpusId with
  | none => raise (.leaseNotHeld corpusId owner)
  | some lease => do
    if lease.owner ≠ owner then raise (.leaseNotHeld corpusId owner)
    modify fun s => { s with
      world.metadata.corpora := setVectorCollection corpusId name s.world.metadata.corpora
      builds := Table.update
        (fun build => decide (build.corpusId = corpusId ∧ some build.collectionName = name))
        (fun build => { build with status := .switched }) s.builds }

def iterActiveChildChunks (s : IndexStores) (corpusId : String) : List ChunkRecord :=
  s.world.metadata.chunks.flatMap fun chunk =>
    (s.world.metadata.documents.filter fun row =>
      decide (row.ref = chunk.ref ∧ chunk.ref.doc.corpusId = corpusId ∧ chunk.chunkType = .child ∧
        row.status = .active ∧ row.deprecated = false)).map fun _ => chunk

def beginIndexBuild (build : IndexBuild) : IndexMethod Unit := do
  let s ← get
  if s.builds.any (fun row => decide (row.buildId = build.buildId)) then
    raise (.duplicateBuild build.buildId)
  modify fun s => { s with builds := Table.insert build s.builds }

def completeIndexBuild (buildId : String) : IndexMethod Unit :=
  modify fun s => { s with
    builds := Table.update (fun row => decide (row.buildId = buildId))
      (fun row => { row with status := .active }) s.builds }

/-- The rollback target: the previous collection of the build that started last. Among
builds that started at the same time the one that was begun first counts. -/
def latestPrevious (s : IndexStores) (corpusId : String) : Option String :=
  let recorded := s.builds.filter fun build =>
    decide (build.corpusId = corpusId ∧ build.previousCollection.isSome)
  (recorded.find? fun build => recorded.all fun other =>
    decide (other.startedAt ≤ build.startedAt)).bind (·.previousCollection)

end IndexStores

def newCollectionName (corpusId embeddingVersion chunkingVersion : String) : String :=
  corpusId ++ "_v" ++ embeddingVersion ++ "_" ++ chunkingVersion

/-- The arguments of `build_index_v2`; `build_id` defaults to a fresh name. -/
structure IndexBuildArgs where
  corpusId : String
  embeddingVersion : String
  chunkingVersion : String
  buildId : String
  deriving DecidableEq, Repr

/-- A call of the vector store. -/
def onVectors (op : VectorOp) : IndexMethod Unit := fun s =>
  match op.eval s.world.vectors with
  | (r, vectors) => (r.mapError .store, { s with world.vectors := vectors })

open Routine IndexStores in
def buildIndexV2 (svc : Services) (args : IndexBuildArgs) : IndexMethod String := do
  let s ← get
  let previous := s.resolveCollectionName args.corpusId
  let name := newCollectionName args.corpusId args.embeddingVersion args.chunkingVersion
  onVectors (.createCollection name)
  let rows := s.iterActiveChildChunks args.corpusId
  onVectors (.upsert name (rows.map svc.chunkRowToPoint))
  beginIndexBuild
    { buildId := args.buildId
      corpusId := args.corpusId
      collectionName := name
      embeddingVersion := args.embeddingVersion
      chunkingVersion := args.chunkingVersion
      status := .building
      previousCollection := some previous
      startedAt := s.world.clock }
  completeIndexBuild args.buildId
  pure name

/-- The arguments of `_switch_pointer`. -/
structure PointerSwitch where
  corpusId : String
  target : String
  owner : String
  deriving DecidableEq, Repr

/-- How a call ended. -/
inductive SwitchOutcome where
  | returned
  | raised (e : IndexError)
  deriving DecidableEq, Repr

/-- A call of `switch_index` or `rollback_index` before its next statement. From `flip` to
`release` the call is inside the `try` block that the lease guards. -/
inductive SwitchCall where
  | findTarget (corpusId owner : String)
  | checkTarget (sw : PointerSwitch)
  | readPrevious (sw : PointerSwitch)
  | acquire (sw : PointerSwitch) (previous : Option String)
  | flip (sw : PointerSwitch) (previous : Option String)
  | mirror (sw : PointerSwitch) (previous : Option String)
  | compensate (sw : PointerSwitch) (previous : Option String)
  | release (sw : PointerSwitch) (outcome : SwitchOutcome)
  deriving DecidableEq, Repr

/-- What follows a statement. -/
inductive SwitchRest where
  | next (call : SwitchCall)
  | ended (outcome : SwitchOutcome)
  deriving DecidableEq, Repr

open IndexStores in
/-- The next statement of a call; `registryFails` says whether `set_active_collection` of the
live registry raises. -/
def SwitchCall.statement (registryFails : Bool) (s : IndexStores) :
    SwitchCall → IndexStores × SwitchRest
  | .findTarget corpusId owner =>
    match s.latestPrevious corpusId with
    | none => (s, .ended (.raised (.noRetainedCollection corpusId)))
    | some previous =>
      if previous = "" then (s, .ended (.raised (.noRetainedCollection corpusId)))
      else (s, .next (.checkTarget ⟨corpusId, previous, owner⟩))
  | .checkTarget sw =>
    match s.world.vectors sw.target with
    | none => (s, .ended (.raised (.noSuchCollection sw.target)))
    | some _ => (s, .next (.readPrevious sw))
  | .readPrevious sw => (s, .next (.acquire sw (s.getActiveCollection sw.corpusId)))
  | .acquire sw previous =>
    match acquireIndexSwitchLease sw.corpusId sw.owner s with
    | (.ok true, s') => (s', .next (.flip sw previous))
    | (.ok false, s') => (s', .ended (.raised (.switchInProgress sw.corpusId)))
    | (.error e, s') => (s', .ended (.raised e))
  | .flip sw previous =>
    match setActiveCollectionAtomic sw.corpusId (some sw.target) sw.owner s with
    | (.ok (), s') => (s', .next (.mirror sw previous))
    | (.error e, s') => (s', .next (.release sw (.raised e)))
  | .mirror sw previous =>
    if registryFails then (s, .next (.compensate sw previous))
    else
      ({ s with world.pointers := flipPointer sw.corpusId sw.target s.world.pointers },
        .next (.release sw .returned))
  | .compensate sw previous =>
    match setActiveCollectionAtomic sw.corpusId previous sw.owner s with
    | (.ok (), s') => (s', .next (.release sw (.raised .registry)))
    | (.error e, s') => (s', .next (.release sw (.raised e)))
  | .release sw outcome =>
    ((releaseIndexSwitchLease sw.corpusId sw.owner s).2, .ended outcome)

/-- The stores, the calls in progress, and for each corpus the collection of the last switch
or rollback that returned normally. -/
structure IndexSystem where
  stores : IndexStores
  calls : List SwitchCall
  succeeded : String → Option String

inductive IndexMove where
  | wait (duration : Nat)
  | build (args : IndexBuildArgs)
  | switch (corpusId target owner : String)
  | rollback (corpusId owner : String)
  | proceed (call : Nat) (registryFails : Bool)
  deriving DecidableEq, Repr

/-- The corpus and collection a call reports as switched when it returns normally. -/
def SwitchCall.success : SwitchCall → Option (String × String)
  | .release sw .returned => some (sw.corpusId, sw.target)
  | _ => none

/-- One move: time passes, a build runs, a call begins or runs its next statement. -/
def indexStep (svc : Services) : Transition IndexSystem IndexMove := fun s move =>
  match move with
  | .wait duration =>
    some { s with stores.world.clock := s.stores.world.clock + duration }
  | .build args => some { s with stores := (buildIndexV2 svc args s.stores).2 }
  | .switch corpusId target owner =>
    some { s with calls := s.calls ++ [.checkTarget ⟨corpusId, target, owner⟩] }
  | .rollback corpusId owner => some { s with calls := s.calls ++ [.findTarget corpusId owner] }
  | .proceed k registryFails =>
    (s.calls[k]?).map fun call =>
      { stores := (call.statement registryFails s.stores).1
        calls := match (call.statement registryFails s.stores).2 with
          | .next rest => s.calls.set k rest
          | .ended _ => s.calls.eraseIdx k
        succeeded := match call.success with
          | some (corpusId, name) => Function.update s.succeeded corpusId (some name)
          | none => s.succeeded }

end AgenticRag
