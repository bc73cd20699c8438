import AgenticRag.Ingestion.DeletePropagation
import AgenticRag.Ingestion.IndexSwitch

/-!
# What a built index contains

`build_index_v2` upserts the points of the active child rows into its target. The target
may exist already, from an earlier build of the same versions, and nothing clears it: a
point that no upsert overwrites stays, also when its version has been superseded or
deleted since.
-/

namespace AgenticRag

open MetadataStore IndexStores

section Tables

/-- The child rows of the active versions of a corpus. -/
def MetadataStore.activeChildren (s : MetadataStore) (corpusId : String) : List ChunkRecord :=
  s.chunks.filter fun chunk => decide (chunk.ref.doc.corpusId = corpusId ∧ chunk.chunkType = .child ∧
    ∃ row ∈ s.documents, row.ref = chunk.ref ∧ row.status = .active ∧ row.deprecated = false)

theorem mem_iterActiveChildChunks {s : IndexStores} {corpusId : String} {chunk : ChunkRecord} :
    chunk ∈ s.iterActiveChildChunks corpusId ↔ chunk ∈ s.world.metadata.activeChildren corpusId := by
  simp only [iterActiveChildChunks, activeChildren, List.mem_flatMap, List.mem_map, List.mem_filter,
    decide_eq_true_eq]
  constructor
  · rintro ⟨found, hfound, row, ⟨hrow, href, hcorpus, htype, hactive, hcurrent⟩, rfl⟩
    exact ⟨hfound, hcorpus, htype, row, hrow, href, hactive, hcurrent⟩
  · rintro ⟨hfound, hcorpus, htype, row, hrow, href, hactive, hcurrent⟩
    exact ⟨chunk, hfound, row, ⟨hrow, href, hcorpus, htype, hactive, hcurrent⟩, rfl⟩

/-- Ids are unique in the collections and in the chunk table. -/
structure World.Indexed (w : World) : Prop where
  points : w.vectors.Keyed
  chunks : Table.KeyUnique (·.chunkId) w.metadata.chunks

theorem upsertChunkRecord_unique {chunk : ChunkRecord} {s t : MetadataStore} {r : Except PyError Unit}
    (h : upsertChunkRecord chunk s = (r, t)) (hs : Table.KeyUnique (·.chunkId) s.chunks) :
    Table.KeyUnique (·.chunkId) t.chunks := by
  unfold upsertChunkRecord at h
  split at h
  · split at h
    · obtain ⟨-, rfl⟩ := Prod.mk.inj h
      exact hs.update fun row _ hid => (of_decide_eq_true hid).symm
    · rename_i hfresh
      obtain ⟨-, rfl⟩ := Prod.mk.inj h
      simp only [List.any_eq_true, decide_eq_true_eq, not_exists, not_and] at hfresh
      exact hs.insert hfresh
  · obtain ⟨-, rfl⟩ := Prod.mk.inj h
    exact hs

theorem MetadataOp.chunks_unique {β : Type} {op : MetadataOp β} {now : Timestamp} {s t : MetadataStore}
    {r : Except PyError β} (h : op.eval now s = (r, t))
    (hs : Table.KeyUnique (·.chunkId) s.chunks) : Table.KeyUnique (·.chunkId) t.chunks := by
  cases op with
  | upsertChunkRecord chunk => exact upsertChunkRecord_unique h hs
  | deleteChunkRecords ref =>
    obtain ⟨-, rfl⟩ := Prod.mk.inj h
    exact hs.delete
  | _ =>
    have hsame := (MetadataOp.frame h).chunks (by simp [MetadataOp.writes])
    rw [hsame]
    exact hs

theorem StoreOp.indexed {β : Type} {op : StoreOp β} {w w' : World} {r : Except PyError β}
    (h : op.Outcome w r w') (hw : w.Indexed) : w'.Indexed := by
  rcases h.state with rfl | rfl
  · exact hw
  · cases op with
    | metadata op => exact ⟨hw.points, MetadataOp.chunks_unique rfl hw.chunks⟩
    | vectors op done => exact ⟨VectorOp.keyed rfl hw.points, hw.chunks⟩
    | _ => exact ⟨hw.points, hw.chunks⟩

end Tables

section Histories

variable {svc : Services}

/-- The ids stay unique. -/
def indexedRegime : Regime World StoreOp PyError where
  out := StoreOp.Outcome
  rely w w' := w.Indexed → w'.Indexed
  guar w w' := w.Indexed → w'.Indexed
  rely_refl _ := id
  rely_trans h h' hw := h' (h hw)

theorem managerSystem_indexed {w : World} (hw : w.Indexed)
    {cond : System.StepCondition World StoreOp PyError ManagerCall Unit}
    {P : Pool World StoreOp PyError ManagerCall Unit}
    (hrun : (managerSystem svc).Reaches cond ⟨w, []⟩ P) : P.store.Indexed := by
  have hdisciplined : System.Disciplined (managerSystem svc) indexedRegime w := by
    constructor
    · exact fun _ _ _ _ h => h
    · rintro w w' ⟨clock, rfl⟩ hw
      exact ⟨hw.points, hw.chunks⟩
    · exact fun _ _ h => h
    · exact fun call w' _ => Prog.wp_of_uses
        (fun _ _ _ _ _ hout hw => StoreOp.indexed hout hw) (ManagerCall.enrolling svc call) w'
  exact (hdisciplined.sound hrun).1 hw

/-- The collections and the chunk rows are left alone. -/
structure SamePlanes (s s' : IndexStores) : Prop where
  vectors : s'.world.vectors = s.world.vectors
  chunks : s'.world.metadata.chunks = s.world.metadata.chunks

theorem SamePlanes.trans (s t u : IndexStores) (h : SamePlanes s t) (h' : SamePlanes t u) :
    SamePlanes s u :=
  ⟨h'.vectors.trans h.vectors, h'.chunks.trans h.chunks⟩

theorem SamePlanes.indexed {s s' : IndexStores} (h : SamePlanes s s') (hs : s.world.Indexed) :
    s'.world.Indexed :=
  ⟨h.vectors.symm ▸ hs.points, h.chunks.symm ▸ hs.chunks⟩

theorem acquireIndexSwitchLease_planes (corpusId owner : String) (s : IndexStores) :
    SamePlanes s (acquireIndexSwitchLease corpusId owner s).2 := by
  rcases acquireIndexSwitchLease_cases corpusId owner s with ⟨s', hrun, hleases, -⟩ | hrun
  · rw [hrun]
    have hworld : s'.world = s.world := hleases.1
    exact ⟨by rw [hworld], by rw [hworld]⟩
  · rw [hrun]
    exact ⟨rfl, rfl⟩

theorem setActiveCollectionAtomic_planes (corpusId : String) (name : Option String) (owner : String)
    (s : IndexStores) : SamePlanes s (setActiveCollectionAtomic corpusId name owner s).2 := by
  have hraise : ∀ e : IndexError, (Routine.raise e : IndexMethod Unit).Keeps SamePlanes :=
    fun _ _ => ⟨rfl, rfl⟩
  refine Routine.keeps_transaction (fun _ => ⟨rfl, rfl⟩) ?_ s
  refine Routine.keeps_bind SamePlanes.trans (fun _ => ⟨rfl, rfl⟩) fun found => ?_
  cases found.leaseOf corpusId with
  | none => exact hraise _
  | some lease =>
    dsimp only
    split
    · exact Routine.keeps_bind SamePlanes.trans (hraise _) fun _ _ => ⟨rfl, rfl⟩
    · exact fun _ => ⟨rfl, rfl⟩

theorem SwitchCall.statement_planes (call : SwitchCall) (registryFails : Bool) (s : IndexStores) :
    SamePlanes s (call.statement registryFails s).1 := by
  have hrefl : SamePlanes s s := ⟨rfl, rfl⟩
  cases call with
  | findTarget corpusId owner =>
    simp only [statement]
    split
    · exact hrefl
    · split
      · exact hrefl
      · exact hrefl
  | checkTarget sw =>
    simp only [statement]
    split
    · exact hrefl
    · exact hrefl
  | readPrevious sw => exact hrefl
  | acquire sw previous =>
    have hlease := acquireIndexSwitchLease_planes sw.corpusId sw.owner s
    simp only [statement]
    split <;> rename_i hrun <;> rwa [hrun] at hlease
  | flip sw previous =>
    have hflip := setActiveCollectionAtomic_planes sw.corpusId (some sw.target) sw.owner s
    simp only [statement]
    split <;> rename_i hrun <;> rwa [hrun] at hflip
  | mirror sw previous =>
    simp only [statement]
    split
    · exact hrefl
    · exact ⟨rfl, rfl⟩
  | compensate sw previous =>
    have hflip := setActiveCollectionAtomic_planes sw.corpusId previous sw.owner s
    simp only [statement]
    split <;> rename_i hrun <;> rwa [hrun] at hflip
  | release sw outcome => exact ⟨rfl, rfl⟩

theorem onVectors_indexed (op : VectorOp) :
    (onVectors op).Keeps fun s s' => s.world.Indexed → s'.world.Indexed :=
  fun _ hs => ⟨VectorOp.keyed rfl hs.points, hs.chunks⟩

/-- A build keeps the ids unique, also when it raises. -/
theorem buildIndexV2_indexed (svc : Services) (args : IndexBuildArgs) :
    (buildIndexV2 svc args).Keeps fun s s' => s.world.Indexed → s'.world.Indexed := by
  have htrans : ∀ s t u : IndexStores, (s.world.Indexed → t.world.Indexed) →
      (t.world.Indexed → u.world.Indexed) → s.world.Indexed → u.world.Indexed :=
    fun _ _ _ h h' hs => h' (h hs)
  have hquiet : ∀ {α : Type} {m : IndexMethod α}, (∀ s, (m s).2.world = s.world) →
      m.Keeps fun s s' => s.world.Indexed → s'.world.Indexed :=
    fun hm s hs => (hm s).symm ▸ hs
  unfold buildIndexV2
  refine Routine.keeps_bind htrans (hquiet fun _ => rfl) fun found => ?_
  refine Routine.keeps_bind htrans (onVectors_indexed _) fun _ => ?_
  refine Routine.keeps_bind htrans (onVectors_indexed _) fun _ => ?_
  refine Routine.keeps_bind htrans ?_ fun _ => ?_
  · refine Routine.keeps_bind htrans (hquiet fun _ => rfl) fun found => ?_
    dsimp only
    split
    · exact hquiet fun _ => rfl
    · exact hquiet fun _ => rfl
  · exact Routine.keeps_bind htrans (hquiet fun _ => rfl) fun _ => hquiet fun _ => rfl

/-- Histories of the stores and the index: batches of manager calls, which may interleave and
break off, and moves of the index migration. -/
inductive IndexHistory (svc : Services) : IndexSystem → IndexSystem → Prop
  | start (s : IndexSystem) : IndexHistory svc s s
  | calls {s t : IndexSystem} {P : Pool World StoreOp PyError ManagerCall Unit}
      (hbefore : IndexHistory svc s t)
      (hcalls : (managerSystem svc).Reaches (fun _ _ _ => True) ⟨t.stores.world, []⟩ P) :
      IndexHistory svc s { t with stores.world := P.store }
  | move {s t u : IndexSystem} (move : IndexMove) (hbefore : IndexHistory svc s t)
      (hmove : indexStep svc t move = some u) : IndexHistory svc s u

theorem indexStep_indexed {s s' : IndexSystem} {move : IndexMove} (h : indexStep svc s move = some s')
    (hs : s.stores.world.Indexed) : s'.stores.world.Indexed := by
  cases move with
  | wait duration =>
    obtain rfl := Option.some.inj h
    exact ⟨hs.points, hs.chunks⟩
  | build args =>
    obtain rfl := Option.some.inj h
    exact buildIndexV2_indexed svc args s.stores hs
  | switch corpusId target owner =>
    obtain rfl := Option.some.inj h
    exact hs
  | rollback corpusId owner =>
    obtain rfl := Option.some.inj h
    exact hs
  | proceed k registryFails =>
    obtain ⟨call, -, rfl⟩ := Option.map_eq_some_iff.mp h
    exact (call.statement_planes registryFails s.stores).indexed hs

theorem IndexHistory.indexed {s s' : IndexSystem} (h : IndexHistory svc s s') (hs : s.stores.world.Indexed) :
    s'.stores.world.Indexed := by
  induction h with
  | start => exact hs
  | calls _ hcalls ih => exact managerSystem_indexed ih hcalls
  | move _ _ hmove ih => exact indexStep_indexed hmove ih

end Histories

section Builds

variable {svc : Services} {args : IndexBuildArgs} {s s' : IndexStores} {name : String}

/-- The collection exists, and holds one point for each child row of an active version of the
corpus and no other. -/
def IndexExact (svc : Services) (corpusId name : String) (w : World) : Prop :=
  ∃ points, w.vectors name = some points ∧
    points.Perm ((w.metadata.activeChildren corpusId).map svc.chunkRowToPoint)

/-- A point that is in the collection already is one that the active child rows overwrite, and
no two of these share a point id. -/
structure Overwrites (svc : Services) (corpusId name : String) (w : World) : Prop where
  leftovers : ∀ point ∈ w.vectors.points name, ∃ row ∈ w.metadata.activeChildren corpusId,
    point.id = svc.childPointId row.chunkId
  distinct : ∀ row ∈ w.metadata.activeChildren corpusId, ∀ other ∈ w.metadata.activeChildren corpusId,
    svc.childPointId row.chunkId = svc.childPointId other.chunkId → row = other

theorem onVectors_ok {op : VectorOp} (h : onVectors op s = (.ok (), s')) :
    ∃ vectors, op.eval s.world.vectors = (.ok (), vectors) ∧
      s' = { s with world.vectors := vectors } := by
  unfold onVectors at h
  rcases heval : op.eval s.world.vectors with ⟨r, vectors⟩
  rw [heval] at h
  obtain ⟨hresult, rfl⟩ := Prod.mk.inj h
  cases r with
  | ok _ => exact ⟨vectors, rfl, rfl⟩
  | error e => simp [Except.mapError] at hresult

theorem createCollection_ok {v v' : VectorStore} {r : Except PyError Unit}
    (h : VectorStore.createCollection name v = (r, v')) : v' name = some (v.points name) := by
  unfold VectorStore.createCollection at h
  cases hname : v name with
  | none =>
    rw [hname] at h
    obtain ⟨-, rfl⟩ := Prod.mk.inj h
    simp [VectorStore.points, hname]
  | some points =>
    rw [hname] at h
    obtain ⟨-, rfl⟩ := Prod.mk.inj h
    simp [VectorStore.points, hname]

theorem upsert_exists {batch : List Point} {v v' : VectorStore}
    (h : VectorStore.upsert name batch v = (.ok (), v')) {points : List Point} (hname : v name = some points) :
    v' name = some (batch.foldl upsertPoint points) := by
  rw [VectorStore.upsert_eq h]
  simp [VectorStore.upserted, hname]

theorem beginIndexBuild_world {build : IndexBuild} {r : Except IndexError Unit}
    (h : beginIndexBuild build s = (r, s')) : s'.world = s.world := by
  unfold beginIndexBuild at h
  rw [Routine.get_bind] at h
  dsimp only at h
  split at h
  · obtain ⟨-, rfl⟩ := Prod.mk.inj h
    rfl
  · obtain ⟨-, rfl⟩ := Prod.mk.inj h
    rfl

/-- A build that returns has stored the points of the active child rows in its target. -/
theorem buildIndexV2_ok (h : buildIndexV2 svc args s = (.ok name, s')) :
    name = newCollectionName args.corpusId args.embeddingVersion args.chunkingVersion ∧
      s'.world.metadata = s.world.metadata ∧
      s'.world.vectors name = some (((s.iterActiveChildChunks args.corpusId).map svc.chunkRowToPoint).foldl
        upsertPoint (s.world.vectors.points name)) := by
  unfold buildIndexV2 at h
  rw [Routine.get_bind] at h
  rcases Routine.bind_cases h with ⟨_, -, herr⟩ | ⟨_, s₁, hcreate, h⟩
  · simp at herr
  rcases Routine.bind_cases h with ⟨_, -, herr⟩ | ⟨_, s₂, hupsert, h⟩
  · simp at herr
  rcases Routine.bind_cases h with ⟨_, -, herr⟩ | ⟨_, s₃, hbegin, h⟩
  · simp at herr
  rcases Routine.bind_cases h with ⟨_, -, herr⟩ | ⟨_, s₄, hcomplete, h⟩
  · simp at herr
  obtain ⟨hname, rfl⟩ := Prod.mk.inj h
  obtain rfl := Except.ok.inj hname
  obtain ⟨-, rfl⟩ := Prod.mk.inj hcomplete
  obtain ⟨created, hcreated, rfl⟩ := onVectors_ok hcreate
  obtain ⟨stored, hstored, rfl⟩ := onVectors_ok hupsert
  have hworld := beginIndexBuild_world hbegin
  dsimp only at hworld ⊢
  rw [hworld]
  exact ⟨rfl, rfl, upsert_exists hstored (createCollection_ok hcreated)⟩

theorem mem_rows_points {point : Point} :
    point ∈ (s.iterActiveChildChunks args.corpusId).map svc.chunkRowToPoint ↔
      ∃ row ∈ s.world.metadata.activeChildren args.corpusId, svc.chunkRowToPoint row = point := by
  simp only [List.mem_map, mem_iterActiveChildChunks]

/-- A build leaves its target exact if and only if its points overwrite what was there. -/
theorem buildIndexV2_exact (hs : s.world.Indexed) (h : buildIndexV2 svc args s = (.ok name, s')) :
    IndexExact svc args.corpusId name s'.world ↔ Overwrites svc args.corpusId name s.world := by
  obtain ⟨-, hmetadata, hpoints⟩ := buildIndexV2_ok h
  have hids := upsert_unique (hs.points name)
    ((s.iterActiveChildChunks args.corpusId).map svc.chunkRowToPoint)
  have hrows : ∀ row ∈ s.world.metadata.activeChildren args.corpusId,
      row ∈ s.world.metadata.chunks := fun row hrow => (List.mem_filter.mp hrow).1
  unfold IndexExact
  rw [hmetadata, hpoints]
  constructor
  · rintro ⟨_, ⟨⟩, hperm⟩
    constructor
    · intro point hpoint
      obtain ⟨kept, hkept, hid⟩ := upsert_keeps_ids _ _ point hpoint
      obtain ⟨row, hrow, rfl⟩ := List.mem_map.mp (hperm.mem_iff.mp hkept)
      exact ⟨row, hrow, hid.symm⟩
    · intro row hrow other hother hid
      have hstored := fun (row : ChunkRecord) hrow =>
        hperm.mem_iff.mpr (List.mem_map_of_mem (f := svc.chunkRowToPoint) (a := row) hrow)
      have hsame := hids.eq_of_key (hstored row hrow) (hstored other hother) hid
      have hchunk : row.chunkId = other.chunkId := congrArg (fun point => point.payload.chunkId) hsame
      exact hs.chunks.eq_of_key (hrows row hrow) (hrows other hother) hchunk
  · intro hover
    refine ⟨_, rfl, ?_⟩
    have hdistinct : ((s.world.metadata.activeChildren args.corpusId).map svc.chunkRowToPoint).Nodup := by
      have hnodup : s.world.metadata.chunks.Nodup := List.Nodup.of_map _ hs.chunks
      apply (hnodup.filter _).map_on
      intro row hrow other hother hsame
      exact hover.distinct row hrow other hother (congrArg Point.id hsame)
    rw [List.perm_ext_iff_of_nodup (List.Nodup.of_map _ hids) hdistinct]
    intro point
    rw [mem_upsert, List.mem_map]
    constructor
    · rintro (hlast | ⟨hold, hfresh⟩)
      · exact mem_rows_points.mp (List.mem_reverse.mp (List.mem_of_find?_eq_some hlast))
      · obtain ⟨row, hrow, hid⟩ := hover.leftovers point hold
        exact absurd hid.symm (hfresh _ (mem_rows_points.mpr ⟨row, hrow, rfl⟩))
    · rintro ⟨row, hrow, rfl⟩
      have hnew : svc.chunkRowToPoint row ∈
          (s.iterActiveChildChunks args.corpusId).map svc.chunkRowToPoint :=
        mem_rows_points.mpr ⟨row, hrow, rfl⟩
      have hlast : ∃ point ∈ (s.iterActiveChildChunks args.corpusId).map svc.chunkRowToPoint,
          point.id = svc.childPointId row.chunkId ∧
            point ∈ ((s.iterActiveChildChunks args.corpusId).map svc.chunkRowToPoint).foldl
              upsertPoint (s.world.vectors.points name) :=
        Table.exists_mem_upsertAll hnew
      obtain ⟨found, hfound, hid, hstored⟩ := hlast
      obtain ⟨other, hother, rfl⟩ := mem_rows_points.mp hfound
      rw [hover.distinct other hother row hrow hid] at hstored
      exact mem_upsert.mp hstored

/-- In every history of updates, deletes, rollbacks and index moves, a build that returns
leaves its target with the points of the active child rows and no others exactly if they
overwrite every point the target holds when the build begins. -/
theorem built_index_exact_iff {start t : IndexSystem} (hfresh : start.stores.world.Fresh)
    (hchunks : start.stores.world.metadata.chunks = []) (hhistory : IndexHistory svc start t)
    (hbuild : buildIndexV2 svc args t.stores = (.ok name, s')) :
    IndexExact svc args.corpusId name s'.world ↔
      Overwrites svc args.corpusId name t.stores.world := by
  have hstart : start.stores.world.Indexed := ⟨hfresh.ordered.points, by simp [hchunks, Table.KeyUnique]⟩
  exact buildIndexV2_exact (hhistory.indexed hstart) hbuild

end Builds

section Runs

private def emptyIndex : IndexSystem := ⟨⟨Sample.world, [], []⟩, [], fun _ => none⟩

/-- `v1` is ingested under `job-1`. -/
private def ingestFirst : ManagerCall :=
  .ingest ⟨Sample.doc, "v1"⟩ "text" { Sample.acl with tenantId := "acme" } "job-1"
    Sample.sourceMeta (Sample.attempt "a")

private def firstIndexBuild : IndexBuildArgs := ⟨"policies", "1", "1", "build-1"⟩

/-- The same versions, built once more. -/
private def secondIndexBuild : IndexBuildArgs := { firstIndexBuild with buildId := "build-2" }

private def managed (t : IndexSystem) (calls : List ManagerCall) : IndexSystem :=
  { t with stores.world := (afterCalls Sample.services t.stores.world calls).store }

private def builtBy (t : IndexSystem) (args : IndexBuildArgs) : IndexSystem :=
  { t with stores := (buildIndexV2 Sample.services args t.stores).2 }

private theorem history_managed {t : IndexSystem} (h : IndexHistory Sample.services emptyIndex t)
    (calls : List ManagerCall) : IndexHistory Sample.services emptyIndex (managed t calls) :=
  .calls h ((managerMachine Sample.services).play_reaches ⟨t.stores.world, []⟩ _)

private def ingested : IndexSystem := managed emptyIndex [ingestFirst]

private theorem history_ingested : IndexHistory Sample.services emptyIndex ingested :=
  history_managed (.start emptyIndex) _

/-- `v1` has been indexed and then deleted. -/
private def indexedThenDeleted : IndexSystem :=
  managed (builtBy ingested firstIndexBuild) [.delete Sample.admin "policies" "travel"]

private theorem buildIndexV2_returned {t : IndexSystem} {args : IndexBuildArgs} {name : String}
    (h : (buildIndexV2 Sample.services args t.stores).1 = .ok name) :
    buildIndexV2 Sample.services args t.stores = (.ok name, (builtBy t args).stores) :=
  Prod.ext h rfl

/-- The first build has been made. -/
private def firstIndexed : IndexSystem := builtBy ingested firstIndexBuild

/-- Built again into the collection that exists, the index overwrites the point that is there. -/
theorem built_index_exact_again :
    (firstIndexed.stores.world.vectors.points "policies_v1_1").length = 1 ∧
      IndexExact Sample.services "policies" "policies_v1_1" (builtBy firstIndexed secondIndexBuild).stores.world := by
  have hoverwrites : Overwrites Sample.services "policies" "policies_v1_1" firstIndexed.stores.world :=
    ⟨by decide +kernel, by decide +kernel⟩
  refine ⟨by decide +kernel, ?_⟩
  exact (@built_index_exact_iff Sample.services secondIndexBuild _ "policies_v1_1" _ _ sampleWorld_fresh rfl
    (.move (.build firstIndexBuild) history_ingested rfl)
    (buildIndexV2_returned (t := firstIndexed) (by decide +kernel))).mpr hoverwrites

/-- Built again after the delete, the index keeps the point of the deleted version. -/
theorem built_index_exact_counterexample :
    ∃ t s', IndexHistory Sample.services emptyIndex t ∧
      buildIndexV2 Sample.services secondIndexBuild t.stores = (.ok "policies_v1_1", s') ∧
      ¬IndexExact Sample.services "policies" "policies_v1_1" s'.world := by
  refine ⟨indexedThenDeleted, (builtBy indexedThenDeleted secondIndexBuild).stores, ?_,
    buildIndexV2_returned (by decide +kernel), ?_⟩
  · exact history_managed (.move (.build firstIndexBuild) history_ingested rfl) _
  · rintro ⟨points, hpoints, hperm⟩
    have hstale : ((builtBy indexedThenDeleted secondIndexBuild).stores.world.vectors.points
        "policies_v1_1").length = 1 ∧
        ((builtBy indexedThenDeleted secondIndexBuild).stores.world.metadata.activeChildren
          "policies").length = 0 := by
      decide +kernel
    have hlength := hperm.length_eq
    simp only [VectorStore.points, hpoints, Option.getD_some] at hstale
    rw [List.length_map] at hlength
    omega

end Runs

end AgenticRag
