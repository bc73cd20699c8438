import AgenticRag.Ingestion.FreshIngest
import AgenticRag.Retrieval.StoredVisibility

/-!
# From ingestion to retrieval

What a run of the ingestion job has indexed, a retrieval returns to the callers the ACL of the
request lets in, and to no others: each child that is found comes with the section it was cut from,
and the version it replaced is not returned any more.
-/

namespace AgenticRag

open MetadataStore StoreProgram Method

namespace IngestionJob

variable {svc : Services} {req : IngestionRequest} {w w' : World} {segs : List Section}

/-- The ids of the chunks are distinct, and no chunk row has one of them. -/
structure FreshIds (svc : Services) (req : IngestionRequest) (segs : List Section) (w : World) : Prop where
  parents : (segs.map fun seg => (svc.parentOf req.ref seg).parentId).Nodup
  points : ((segs.flatMap (svc.childrenOf req.ref)).map fun child => svc.childPointId child.childId).Nodup
  parentRows : ∀ row ∈ w.metadata.chunks, ∀ seg ∈ segs, row.chunkId ≠ (svc.parentOf req.ref seg).parentId
  childRows : ∀ row ∈ w.metadata.chunks, ∀ child ∈ segs.flatMap (svc.childrenOf req.ref),
    svc.childPointId row.chunkId ≠ svc.childPointId child.childId

/-- The points and parents of the version are stored as the chunker made them, and shown. -/
structure Published (svc : Services) (req : IngestionRequest) (segs : List Section) (w : World) : Prop where
  active : w.metadata.getActiveVersion req.ref.doc = some req.ref.version
  stored : ∀ child ∈ segs.flatMap (svc.childrenOf req.ref), ∃ point ∈ w.vectors.points req.ref.doc.corpusId,
    point.id = svc.childPointId child.childId
  points : ∀ child ∈ segs.flatMap (svc.childrenOf req.ref), ∀ point ∈ w.vectors.points req.ref.doc.corpusId,
    point.id = svc.childPointId child.childId → point = svc.childChunkToPoint child req.acl.toAclFields .active false
  parents : ∀ seg ∈ segs, w.parents.get (svc.parentOf req.ref seg).parentId =
    some (authorizedParent req (svc.parentOf req.ref seg))

/-- Publishing leaves the id of a child with its point, unless a hidden point has it. -/
theorem eq_of_mem_published {children : List ChildChunk} {rows : List ChunkRecord} {points : List Point}
    {child : ChildChunk} {point : Point} (hchild : child ∈ children)
    (hdistinct : (children.map fun child => svc.childPointId child.childId).Nodup)
    (hrows : ∀ row ∈ rows, svc.childPointId row.chunkId ≠ svc.childPointId child.childId)
    (hpoint : point ∈ (hiddenPoints svc req rows).foldl upsertPoint
      ((childPoints svc req children .active).foldl upsertPoint points))
    (hid : point.id = svc.childPointId child.childId) :
    point = svc.childChunkToPoint child req.acl.toAclFields .active false := by
  rcases mem_upsert.mp hpoint with hlast | ⟨hkept, -⟩
  · have hhidden := List.mem_reverse.mp (List.mem_of_find?_eq_some hlast)
    obtain ⟨row, hrow, rfl⟩ := List.mem_map.mp hhidden
    exact absurd hid (hrows row (List.mem_filter.mp hrow).1)
  · rcases mem_upsert.mp hkept with hlast | ⟨-, hfresh⟩
    · obtain ⟨other, hother, rfl⟩ := List.mem_map.mp (List.mem_reverse.mp (List.mem_of_find?_eq_some hlast))
      rw [List.inj_on_of_nodup_map hdistinct hother hchild hid]
    · exact absurd hid.symm (hfresh _ (List.mem_map_of_mem hchild))

/-- The parents a first write stores are the ones that were made. -/
theorem get_putParents_distinct {parents : List ParentDraft} {store : ParentStore} {parent : ParentDraft}
    (hparent : parent ∈ parents) (hdistinct : (parents.map (·.parentId)).Nodup) :
    (putParents req parents store).get parent.parentId = some (authorizedParent req parent) := by
  obtain ⟨other, hother, hget⟩ := @get_putParents req parents store parent hparent
  have hkey := (Table.selectOne_some hget).2
  have hsame : other.parentId = parent.parentId := of_decide_eq_true hkey
  rw [hget, List.inj_on_of_nodup_map hdistinct hother hparent hsame]

variable {options : RunOptions} {result : IngestionResult}

/-- A build by a job without markers publishes what it has chunked. -/
theorem Built.published (hinv : LifecycleInvariant w.metadata) (hchunk : svc.splitSections req.content = .ok segs)
    (hnew : ∀ name, ¬Marked req w name) (hids : FreshIds svc req segs w) (h : Built svc req options result w w') :
    Published svc req segs w' := by
  obtain ⟨acquired, me, me', hacquired, ⟨run⟩⟩ := h.acquired hinv
  have hchunks := @chunkMarkdown_eq svc req segs hchunk
  have hunmarked : ∀ name, name ≠ .acquire → ¬Marked req acquired name := fun name hname hmarked =>
    hnew name ((hacquired.marked name hname).mp hmarked)
  have hrows : ∀ row ∈ supersededRows req run.committed.2.metadata, row ∈ w.metadata.chunks := fun row hrow =>
    ((hacquired.mem_supersededRows run hchunks).mp hrow).mem
  obtain ⟨hdue, -, -, -, hpublishDue, -⟩ := run.due
  obtain ⟨hmarked, -⟩ | ⟨-, w₁, hpublish, ⟨steps, hstores⟩, -⟩ := run.publish.cases
  · exact absurd (hpublishDue.mp hmarked) (hunmarked .publish (by simp))
  obtain ⟨hmarked, -⟩ | ⟨-, w₂, hwrite, ⟨steps', hstores'⟩, -⟩ := run.writeParents.cases
  · exact absurd ((hdue .writeParents (by simp) (by simp)).mp hmarked) (hunmarked .writeParents (by simp))
  obtain ⟨hpublished, v, v', hv, hv', rfl⟩ := stepPublish_finishes run.committed_passes.1 hpublish
  obtain ⟨hwritten, -, rfl⟩ := stepWriteParents_finishes run.chunked_passes.1 hwrite
  rw [(hpublished.lists hchunks).1] at hstores
  rw [(hpublished.lists hchunks).2] at hv
  rw [(hwritten.lists hchunks).1] at hstores'
  constructor
  · exact (run.active hacquired.invariant).mpr fun hmarked => absurd hmarked (hunmarked .commit (by simp))
  · intro child hchild
    obtain ⟨point, hpoint, hid, -⟩ := (run.point_visible hchunks hchild).mpr
      ⟨fun hmarked => absurd hmarked (hunmarked .publish (by simp)),
        fun _ row hrow _ => hids.childRows row (hrows row hrow) child hchild⟩
    exact ⟨point, hpoint, hid⟩
  · intro child hchild point hpoint hid
    have hafter : w'.vectors = run.published.2.vectors := run.vectors_after
    rw [hafter, hstores] at hpoint
    simp only [(VectorStore.upsert_ok hv').1, (VectorStore.upsert_ok hv).1] at hpoint
    exact eq_of_mem_published hchild hids.points (fun row hrow => hids.childRows row (hrows row hrow) child hchild)
      hpoint hid
  · intro seg hseg
    have hafter : w'.parents = run.published.2.parents := run.parents_after
    have hparent : svc.parentOf req.ref seg ∈ segs.map (svc.parentOf req.ref) := List.mem_map_of_mem hseg
    have hput : run.committed.2.parents.get (svc.parentOf req.ref seg).parentId =
        some (authorizedParent req (svc.parentOf req.ref seg)) := by
      rw [run.parents_between, hstores']
      exact get_putParents_distinct hparent (by rw [List.map_map]; exact hids.parents)
    have hkept : ¬(svc.parentOf req.ref seg).parentId ∈
        ((supersededRows req run.committed.2.metadata).filter fun record =>
          decide (record.chunkType = .parent)).map (·.chunkId) := by
      intro hmem
      obtain ⟨row, hrow, hid⟩ := List.mem_map.mp hmem
      exact hids.parentRows row (hrows row (List.mem_filter.mp hrow).1) seg hseg hid
    rw [hafter, hstores]
    dsimp only
    rw [get_deprecateRows, get_promoteParents, hput, Option.map_some, Option.map_some, if_neg hkept,
      if_pos (List.mem_map_of_mem hparent)]
    rfl

section Reading

variable {base : String → Payload} {ctx : SecurityContext} {seg : Section} {child : ChildChunk}

/-- What a caller reads of a child: its hit, and the section it was cut from. -/
def readChild (svc : Services) (req : IngestionRequest) (base : String → Payload) (seg : Section)
    (child : ChildChunk) (score : Rat) : RetrievalHit × AuthorizedParent :=
  ((svc.childChunkToPoint child req.acl.toAclFields .active false).hit score,
    (authorizedParent req (svc.parentOf req.ref seg)).authorized (base (svc.parentOf req.ref seg).parentId))

/-- The point of a child has the ACL of the request. -/
theorem resourceAcl_childPoint (hchild : child.ref = req.ref) (status : PayloadStatus) (deprecated : Bool) :
    (svc.childChunkToPoint child req.acl.toAclFields status deprecated).resourceAcl = req.acl := by
  simp only [Point.resourceAcl, Services.childChunkToPoint, hchild, ← req.tenant]

theorem of_mem_childrenOf (hchild : child ∈ svc.childrenOf req.ref seg) :
    child.parentId = (svc.parentOf req.ref seg).parentId ∧ child.ref = req.ref := by
  obtain ⟨idx, hidx, rfl⟩ := List.mem_mapIdx.mp hchild
  exact ⟨rfl, rfl⟩

/-- A published child is read by whom the ACL lets in, and by nobody else. -/
theorem Published.readPoint_child (h : Published svc req segs w) (hseg : seg ∈ segs)
    (hchild : child ∈ svc.childrenOf req.ref seg) (score : Rat) :
    w.readPoint base ctx (svc.childChunkToPoint child req.acl.toAclFields .active false) score =
      if evaluateAccess ctx req.acl = .allow then some (readChild svc req base seg child score) else none := by
  let point := svc.childChunkToPoint child req.acl.toAclFields .active false
  obtain ⟨hparent, href⟩ := of_mem_childrenOf hchild
  have hacl : point.resourceAcl = req.acl := resourceAcl_childPoint href .active false
  have hkey : point.parentKey = (svc.parentOf req.ref seg).parentId := hparent
  have hcurrent : w.current point = true := by
    refine decide_eq_true ?_
    change w.metadata.getActiveVersion child.ref.doc = some child.ref.version
    rw [href]
    exact h.active
  have hget : w.parents.get point.parentKey = some (authorizedParent req (svc.parentOf req.ref seg)) := by
    rw [hkey]
    exact h.parents seg hseg
  have hopens : (authorizedParent req (svc.parentOf req.ref seg)).opens ctx point = true ↔
      evaluateAccess ctx req.acl = .allow := by
    unfold ParentChunk.opens
    rw [hacl, decide_eq_true_eq]
    exact ⟨fun hall => hall.2.2.2.2, fun hallowed => ⟨href.symm, rfl, rfl, rfl, hallowed⟩⟩
  split
  · rename_i hallowed
    have hread := World.readParent_iff.mpr ⟨hcurrent, hget, hopens.mpr hallowed⟩
    change (w.readParent ctx point).map _ = _
    rw [hread, Option.map_some, hkey]
    rfl
  · rename_i hdenied
    have hnone : w.readParent ctx point = none := by
      refine Option.eq_none_iff_forall_ne_some.mpr fun parent hread => ?_
      obtain ⟨-, hstored, hopen⟩ := World.readParent_iff.mp hread
      obtain rfl := Option.some.inj (hget.symm.trans hstored)
      exact hdenied (hopens.mp hopen)
    change (w.readParent ctx point).map _ = _
    rw [hnone, Option.map_none]

end Reading

end IngestionJob

open IngestionJob SecureRetriever

section Callers

variable {w : World} {base : String → Payload} {ctx : SecurityContext} {corpus : CorpusConfig} {topK : Option Nat}
  {retriever : SecureRetriever} {ranked : List (Point × Rat)}

/-- The points of stores that do not change are read one by one. -/
theorem checkHits_still (ranked : List (Point × Rat)) :
    (checkHits ctx (fun _ => w.retrievalStores base) 0 (ranked.map fun found => found.1.hit found.2) .empty).hits =
      ranked.filterMap fun found => w.readPoint base ctx found.1 found.2 := by
  have hstill := @checkHits_stored base ctx (fun _ => w) ranked 0 .empty
  rw [hstill]
  calc RetrievalResult.empty.hits ++ (ranked.zipIdx 0).filterMap (fun found => w.readPoint base ctx found.1.1 found.1.2)
      = ((ranked.zipIdx 0).map Prod.fst).filterMap fun found => w.readPoint base ctx found.1 found.2 := by
        rw [List.filterMap_map]
        rfl
    _ = ranked.filterMap fun found => w.readPoint base ctx found.1 found.2 := by
        rw [List.zipIdx_map_fst]

/-- What a retrieval from stores that do not change returns: nothing past a closed corpus, and
otherwise the found points that can be read. -/
theorem retrieve_still (hfound : ∀ filter, buildAccessFilter ctx corpus.corpusId = .ok filter →
      retriever.search (collectionOf corpus) filter (searchLimit retriever topK) =
        .ok (ranked.map fun found => found.1.scored found.2)) :
    ∃ result, retriever.retrieve (fun _ => w.retrievalStores base) ctx corpus topK = .ok result ∧
      ∀ pair, pair ∈ result.hits ↔ validateCorpus ctx corpus = .ok () ∧ ctx.allowedSecurityLevels ≠ [] ∧
        ∃ found ∈ ranked, w.readPoint base ctx found.1 found.2 = some pair := by
  cases hvalid : validateCorpus ctx corpus with
  | error e => exact ⟨.empty, by simp only [retrieve, hvalid], by simp [RetrievalResult.empty]⟩
  | ok u =>
    cases hfilter : buildAccessFilter ctx corpus.corpusId with
    | error e =>
      have hlevels : ctx.allowedSecurityLevels = [] := by
        unfold buildAccessFilter at hfilter
        split at hfilter
        · assumption
        · cases hfilter
      exact ⟨.empty, by simp only [retrieve, hvalid, hybridSearch, hfilter], by simp [RetrievalResult.empty, hlevels]⟩
    | ok filter =>
      have hlevels : ctx.allowedSecurityLevels ≠ [] := by
        intro hempty
        simp [buildAccessFilter, hempty] at hfilter
      refine ⟨_, retrieve_found hvalid hfilter (hfound filter hfilter), fun pair => ?_⟩
      rw [checkHits_still, List.mem_filterMap]
      simp [hlevels]

/-- A pair that is read shows a point of an active version, with an ACL that lets the caller in. -/
theorem World.readPoint_some {point : Point} {score : Rat} {pair : RetrievalHit × AuthorizedParent}
    (h : w.readPoint base ctx point score = some pair) :
    w.metadata.getActiveVersion pair.1.ref.doc = some pair.1.ref.version ∧
      evaluateAccess ctx { pair.1.acl with tenantId := pair.1.ref.doc.tenantId } = .allow := by
  obtain ⟨parent, hread, rfl⟩ := Option.map_eq_some_iff.mp h
  obtain ⟨hcurrent, -, hopens⟩ := World.readParent_iff.mp hread
  exact ⟨of_decide_eq_true hcurrent, (of_decide_eq_true hopens).2.2.2.2⟩

end Callers

/-- Once a job without markers has indexed a version with fresh ids, each of its children that a
search finds is returned with its section to the callers whom corpus and ACL let in, and to nobody
else; the document is read in that version only. -/
theorem ingested_readable (svc : Services) (req : IngestionRequest) (options : RunOptions)
    (hfull : options.maxStep = none) {w w' : World} (hreachable : ReachableStores svc w)
    {result : IngestionResult} {me : JobState}
    (hrun : Finishes (runBody svc req options) initial w result me w') (hindexed : result.status = .indexed)
    (hnew : ∀ name, ¬Marked req w name) {segs : List Section} (hchunk : svc.splitSections req.content = .ok segs)
    (hids : FreshIds svc req segs w) (retriever : SecureRetriever) (base : String → Payload)
    (ctx : SecurityContext) (corpus : CorpusConfig) (topK : Option Nat)
    (hcollection : collectionOf corpus = req.ref.doc.corpusId) {ranked : List (Point × Rat)}
    (hstored : ∀ found ∈ ranked, found.1 ∈ w'.vectors.points (collectionOf corpus))
    (hfound : ∀ filter, buildAccessFilter ctx corpus.corpusId = .ok filter →
      retriever.search (collectionOf corpus) filter (searchLimit retriever topK) =
        .ok (ranked.map fun found => found.1.scored found.2)) :
    ∃ answer, retriever.retrieve (fun _ => w'.retrievalStores base) ctx corpus topK = .ok answer ∧
      (∀ pair ∈ answer.hits, pair.1.ref.doc = req.ref.doc → pair.1.ref.version = req.ref.version) ∧
      ∀ seg ∈ segs, ∀ child ∈ svc.childrenOf req.ref seg,
        (∃ point ∈ w'.vectors.points (collectionOf corpus), point.id = svc.childPointId child.childId ∧
          ∀ filter, buildAccessFilter ctx corpus.corpusId = .ok filter →
            (filter.selects point.payload.toJson = true ↔
              req.ref.doc.corpusId = corpus.corpusId ∧ evaluateAccess ctx req.acl = .allow)) ∧
        ∀ found ∈ ranked, found.1.id = svc.childPointId child.childId →
          (readChild svc req base seg child found.2 ∈ answer.hits ↔
            validateCorpus ctx corpus = .ok () ∧ evaluateAccess ctx req.acl = .allow) := by
  have hpublished : Published svc req segs w' :=
    (runBody_indexed hfull hindexed hrun).published hreachable.invariant.lifecycle hchunk hnew hids
  obtain ⟨answer, hanswer, hhits⟩ := @retrieve_still w' base ctx corpus topK retriever ranked hfound
  refine ⟨answer, hanswer, fun pair hpair hdoc => ?_, fun seg hseg child hchild => ⟨?_, fun found hmem hid => ?_⟩⟩
  · obtain ⟨-, -, found, -, hread⟩ := (hhits pair).mp hpair
    have hactive := (World.readPoint_some hread).1
    rw [hdoc, hpublished.active] at hactive
    exact (Option.some.inj hactive).symm
  · have hmem : child ∈ segs.flatMap (svc.childrenOf req.ref) := List.mem_flatMap.mpr ⟨seg, hseg, hchild⟩
    obtain ⟨point, hpoint, hid⟩ := hpublished.stored child hmem
    obtain ⟨-, href⟩ := of_mem_childrenOf hchild
    refine ⟨point, hcollection ▸ hpoint, hid, fun filter hfilter => ?_⟩
    rw [selects_stored hfilter, hpublished.points child hmem point hpoint hid, resourceAcl_childPoint href]
    change child.ref.doc.corpusId = corpus.corpusId ∧ PayloadStatus.active.text = "active" ∧ false = false ∧ _ ↔ _
    rw [href]
    exact and_congr_right fun _ => ⟨fun h => h.2.2, fun h => ⟨rfl, rfl, h⟩⟩
  · rw [hhits]
    constructor
    · rintro ⟨hvalid, -, other, -, hread⟩
      have hallowed := (World.readPoint_some hread).2
      have hacl := @resourceAcl_childPoint svc req child (of_mem_childrenOf hchild).2 .active false
      rw [← hacl]
      exact ⟨hvalid, hallowed⟩
    · rintro ⟨hvalid, hallowed⟩
      have hlevels : ctx.allowedSecurityLevels ≠ [] := by
        intro hempty
        rw [evaluateAccess_deny_of_no_level hempty] at hallowed
        cases hallowed
      have hpoint := hpublished.points child (List.mem_flatMap.mpr ⟨seg, hseg, hchild⟩) found.1
        (hcollection ▸ hstored found hmem) hid
      refine ⟨hvalid, hlevels, found, hmem, ?_⟩
      rw [hpoint, hpublished.readPoint_child hseg hchild, if_pos hallowed]

/-- The first run of a job for `v1` on its own. -/
private def ingestedV1 : (Except PyError IngestionResult × JobState) × World :=
  (runBody Sample.services (Sample.request "job-1" "v1" "text") (Sample.attempt "b") initial).exec StoreOp.eval
    Sample.world

/-- All points of the collection, as a search finds them. -/
private def foundV1 : List (Point × Rat) := (ingestedV1.2.vectors.points "policies").map fun point => (point, 1)

private def findsV1 : SecureRetriever where
  search _ _ _ := .ok (foundV1.map fun found => found.1.scored found.2)
  defaultTopK := 8
  hybridTopK := 8

theorem ingested_readable_first :
    ∃ answer, findsV1.retrieve (fun _ => ingestedV1.2.retrievalStores fun _ _ => none) (Sample.reader ["internal"])
        Sample.corpus none = .ok answer ∧
      ∀ child ∈ Sample.services.childrenOf ⟨Sample.doc, "v1"⟩ ⟨"text", []⟩,
        readChild Sample.services (Sample.request "job-1" "v1" "text") (fun _ _ => none) ⟨"text", []⟩ child 1 ∈
          answer.hits := by
  have hresult : ingestedV1.1.1 =
      .ok { status := .indexed, parentCount := 1, childCount := 1, errorCode := none } := by decide +kernel
  have hreachable : ReachableStores Sample.services Sample.world :=
    ⟨Sample.world, ⟨Sample.world, []⟩, rfl, rfl, rfl, (lifecycleMachine Sample.services).play_reaches _ [], rfl⟩
  have hnew : ∀ name, ¬Marked (Sample.request "job-1" "v1" "text") Sample.world name := by
    intro name
    simp [Marked, isStepDone, Sample.world, Sample.store]
  have hids : FreshIds Sample.services (Sample.request "job-1" "v1" "text") [⟨"text", []⟩] Sample.world :=
    ⟨List.nodup_singleton _, List.nodup_singleton _, by simp [Sample.world, Sample.store],
      by simp [Sample.world, Sample.store]⟩
  have hstored : ∀ found ∈ foundV1, found.1 ∈ ingestedV1.2.vectors.points (collectionOf Sample.corpus) := by
    intro found hfound
    obtain ⟨point, hpoint, rfl⟩ := List.mem_map.mp hfound
    exact hpoint
  obtain ⟨answer, hanswer, -, hread⟩ := ingested_readable Sample.services (Sample.request "job-1" "v1" "text")
    (Sample.attempt "b") rfl hreachable (finishes_exec hresult) rfl hnew rfl hids findsV1 (fun _ _ => none)
    (Sample.reader ["internal"]) Sample.corpus none rfl hstored fun _ _ => rfl
  refine ⟨answer, hanswer, fun child hchild => ?_⟩
  obtain ⟨⟨point, hpoint, hid, -⟩, hreturned⟩ := hread ⟨"text", []⟩ List.mem_cons_self child hchild
  exact (hreturned (point, 1) (List.mem_map_of_mem hpoint) hid).mpr ⟨rfl, by decide⟩

end AgenticRag
