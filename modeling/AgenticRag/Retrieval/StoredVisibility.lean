import AgenticRag.Retrieval.Authorization
import AgenticRag.Storage.World

/-!
# Reading what was stored

The payloads of `child_chunk_to_point` and the metadata of `_auth_metadata` come back to
retrieval as untrusted JSON. On records of this form its checks are one condition on the typed
records, so that nothing readable is lost to a check and nothing else gets through.
-/

namespace AgenticRag

theorem asList_strings (texts : List String) : asList (some (.strings texts)) = texts := by
  have hid : Atom.text ∘ Atom.str = id := funext fun _ => rfl
  simp only [asList, Json.strings, List.map_map, hid, List.map_id]

def PayloadStatus.text : PayloadStatus → String
  | .processing => "processing"
  | .active => "active"
  | .inactive => "inactive"
  | .deprecated => "deprecated"
  | .deleted => "deleted"
  | .other text => text

/-- The payload `child_chunk_to_point` and `_chunk_row_to_point` write. -/
def PointPayload.toJson (payload : PointPayload) : Payload
  | "tenant_id" => some (.str payload.ref.doc.tenantId)
  | "corpus_id" => some (.str payload.ref.doc.corpusId)
  | "document_id" => some (.str payload.ref.doc.documentId)
  | "document_version" => some (.str payload.ref.version)
  | "parent_id" => some ((payload.parentId.map Json.str).getD .null)
  | "chunk_id" => some (.str payload.chunkId)
  | "text" => some (.str payload.text)
  | "section_path" => some (.strings payload.sectionPath)
  | "status" => some (.str payload.status.text)
  | "deprecated" => some (.bool payload.deprecated)
  | key => ParentReader.hitAclRecord payload.acl key

/-- `{**parent.metadata, **auth}`; `base` is the metadata of the chunker. -/
def ParentMetadata.toJson (metadata : ParentMetadata) (base : Payload) : Payload
  | "status" => some (.str metadata.status.text)
  | "deprecated" => some (.bool metadata.deprecated)
  | key => (ParentReader.hitAclRecord metadata.acl key).or (base key)

def ParentChunk.toRaw (parent : ParentChunk) (base : Payload) : RawParent :=
  { parent with metadata := parent.metadata.toJson base }

/-- The parent as it is returned once it is authorized. -/
def ParentChunk.authorized (parent : ParentChunk) (base : Payload) : AuthorizedParent :=
  { parent with
    metadata := parent.metadata.toJson base
    status := parent.metadata.status.text
    deprecated := parent.metadata.deprecated
    acl := parent.metadata.acl }

/-- The stores as retrieval meets them; `base` is what the chunker put into the metadata of a
parent. -/
def World.retrievalStores (w : World) (base : String → Payload) : RetrievalStores where
  metadata := w.metadata
  parents parentId := (w.parents.get parentId).map fun parent => parent.toRaw (base parentId)

namespace Point

/-- The point in the result of a search. -/
def scored (point : Point) (score : Rat) : ScoredPoint := ⟨point.payload.toJson, score⟩

/-- `str(payload["parent_id"])`. -/
def parentKey (point : Point) : String := point.payload.parentId.getD "None"

def hit (point : Point) (score : Rat) : RetrievalHit where
  chunkId := point.payload.chunkId
  parentId := point.parentKey
  ref := point.payload.ref
  text := point.payload.text
  score := score
  sectionPath := point.payload.sectionPath
  status := point.payload.status.text
  deprecated := point.payload.deprecated
  acl := point.payload.acl

/-- The fields of the payload the access filter looks at. -/
def accessFields (point : Point) : AccessFields where
  tenantId := point.payload.ref.doc.tenantId
  corpusId := point.payload.ref.doc.corpusId
  status := point.payload.status.text
  deprecated := point.payload.deprecated
  securityLevel := point.payload.acl.securityLevel
  aclScope := ParentReader.aclScopeText point.payload.acl.aclScope
  allowedUserIds := point.payload.acl.allowedUserIds
  allowedGroupIds := point.payload.acl.allowedGroupIds
  deniedUserIds := point.payload.acl.deniedUserIds
  deniedGroupIds := point.payload.acl.deniedGroupIds

def resourceAcl (point : Point) : ResourceAcl :=
  { point.payload.acl with tenantId := point.payload.ref.doc.tenantId }

theorem accessFields_in (point : Point) : point.accessFields.In point.payload.toJson :=
  ⟨rfl, rfl, rfl, rfl, rfl, rfl, rfl, rfl, rfl, rfl⟩

theorem accessFields_acl (point : Point) : point.accessFields.acl = point.resourceAcl := by
  simp only [AccessFields.acl, accessFields, resourceAcl, ParentReader.asAclScope_text]

/-- A stored point is read back as it was written. -/
theorem toHit_scored (point : Point) (score : Rat) :
    SecureRetriever.toHit (point.scored score) = point.hit score := by
  have hparent : (point.scored score).payload.text "parent_id" "" = point.parentKey := by
    change Json.text ((point.payload.parentId.map Json.str).getD .null) = point.parentKey
    unfold parentKey
    cases point.payload.parentId <;> rfl
  have hlist : ∀ key texts, (point.scored score).payload key = some (.strings texts) →
      asList ((point.scored score).payload key) = texts := by
    intro key texts h
    rw [h, asList_strings]
  have hscope : asAclScope (((point.scored score).payload "acl_scope").getD (.str "restricted")) =
      point.payload.acl.aclScope :=
    ParentReader.asAclScope_text point.payload.acl.aclScope
  unfold SecureRetriever.toHit
  rw [hparent, hscope, hlist "section_path" _ rfl, hlist "allowed_user_ids" _ rfl,
    hlist "allowed_group_ids" _ rfl, hlist "denied_user_ids" _ rfl, hlist "denied_group_ids" _ rfl]
  rfl

end Point

namespace ParentReader

variable {base : Payload} {ctx : SecurityContext}

theorem checkPrincipals_ok {md : Payload} {parentId : String} {keys : List String}
    (h : ∀ key ∈ keys, (md key).any isStringList = true) : checkPrincipals md parentId keys = .ok () := by
  induction keys with
  | nil => rfl
  | cons key keys ih =>
    unfold checkPrincipals
    exact require_bind_ok.mpr ⟨h key List.mem_cons_self, ih fun other hother => h other (List.mem_cons_of_mem key hother)⟩

/-- Metadata of this form has every field that is checked, with its type. -/
theorem validateParentAuthMetadata_stored (metadata : ParentMetadata) (parentId : String) :
    validateParentAuthMetadata (metadata.toJson base) parentId = .ok () := by
  have hpresent : requiredParentAuthFields.filter (fun key => ((metadata.toJson base) key).isNone) = [] := by
    simp [requiredParentAuthFields, ParentMetadata.toJson, hitAclRecord]
  have hscope : isAclScope (.str (aclScopeText metadata.acl.aclScope)) = true := by
    cases metadata.acl.aclScope <;> decide
  have hstrings : ∀ texts, isStringList (.strings texts) = true := by
    simp [Json.strings, isStringList, isString]
  have hprincipals : ∀ key ∈ principalFields, ((metadata.toJson base) key).any isStringList = true := by
    intro key hkey
    simp only [principalFields, List.mem_cons, List.not_mem_nil, or_false] at hkey
    rcases hkey with rfl | rfl | rfl | rfl <;> exact hstrings _
  simp only [validateParentAuthMetadata, require_bind_ok]
  exact ⟨hpresent, rfl, rfl, hscope, checkPrincipals_ok hprincipals⟩

/-- The two records of an ACL agree exactly if the ACLs do. -/
theorem recordAclEqual_iff {metadata : ParentMetadata} {acl : AclFields} :
    recordAclEqual (metadata.toJson base) (hitAclRecord acl) = true ↔ metadata.acl = acl := by
  have hself : recordAclEqual (metadata.toJson base) (hitAclRecord metadata.acl) = true := by
    simp [recordAclEqual, aclKeys, principalFields, ParentMetadata.toJson, hitAclRecord]
  constructor
  · intro h
    rw [← aclFromRecord_of_equal hself, aclFromRecord_of_equal h]
  · rintro rfl
    exact hself

/-- A stored parent is returned for a hit of its version exactly if it is shown, has the ACL of
the hit, and the policy lets the caller in. -/
theorem authorizeParent_stored {parent : ParentChunk} {hit : RetrievalHit} {authorized : AuthorizedParent} :
    authorizeParent (parent.toRaw base) hit ctx = .ok authorized ↔
      (parent.ref = hit.ref ∧ parent.metadata.status.text = "active" ∧ parent.metadata.deprecated = false ∧
        parent.metadata.acl = hit.acl ∧
        evaluateAccess ctx { hit.acl with tenantId := hit.ref.doc.tenantId } = .allow) ∧
      authorized = parent.authorized base := by
  constructor
  · intro h
    have hvetted := authorizeParent_ok h
    unfold authorizeParent at h
    obtain ⟨_, -, h⟩ := except_bind_ok.mp h
    obtain ⟨_, -, h⟩ := except_bind_ok.mp h
    obtain ⟨⟨hstatus, hdeprecated⟩, h⟩ := require_bind_ok.mp h
    obtain ⟨hacl, h⟩ := require_bind_ok.mp h
    obtain ⟨-, h⟩ := require_bind_ok.mp h
    have hsame : parent.metadata.acl = hit.acl := recordAclEqual_iff.mp hacl
    refine ⟨⟨?_, hstatus, hdeprecated, hsame, hvetted.allowed⟩, ?_⟩
    · rw [← hvetted.sameResource, hvetted.sameDraft]
      rfl
    · rw [← Except.ok.inj h, aclFromRecord_of_equal hacl, ← hsame]
      rfl
  · rintro ⟨⟨href, hstatus, hdeprecated, hacl, hallowed⟩, rfl⟩
    have htenant : hit.ref.doc.tenantId = ctx.tenantId := (evaluateAccess_allow_iff.mp hallowed).1
    have hequal : recordAclEqual (parent.metadata.toJson base) (hitAclRecord hit.acl) = true :=
      recordAclEqual_iff.mpr hacl
    unfold authorizeParent
    refine except_bind_ok.mpr ⟨(), checkIdentity_ok.mpr ⟨href, htenant⟩, ?_⟩
    refine except_bind_ok.mpr ⟨(), validateParentAuthMetadata_stored _ _, ?_⟩
    have hsame : aclFromRecord (parent.metadata.toJson base) = hit.acl := aclFromRecord_of_equal hequal
    have hallowed' : evaluateAccess ctx { aclFromRecord (parent.metadata.toJson base) with
        tenantId := parent.ref.doc.tenantId } = .allow := by
      rw [hsame, href]
      exact hallowed
    have hpasses := resourcePassesFilter_iff.mpr ⟨hstatus, hdeprecated, hallowed'⟩
    refine require_bind_ok.mpr ⟨⟨hstatus, hdeprecated⟩, require_bind_ok.mpr ⟨hequal,
      require_bind_ok.mpr ⟨hpasses, ?_⟩⟩⟩
    have hown : aclFromRecord (parent.metadata.toJson base) = parent.metadata.acl := hsame.trans hacl.symm
    change Except.ok _ = _
    rw [ParentChunk.authorized, ← hown]
    rfl

end ParentReader

section Reading

variable (base : String → Payload) (ctx : SecurityContext)

def World.current (w : World) (point : Point) : Bool :=
  decide (w.metadata.getActiveVersion point.payload.ref.doc = some point.payload.ref.version)

/-- The parent is of the point's version, is shown, and has an ACL in common with the point that
lets the caller in. -/
def ParentChunk.opens (parent : ParentChunk) (point : Point) : Bool :=
  decide (parent.ref = point.payload.ref ∧ parent.metadata.status.text = "active" ∧
    parent.metadata.deprecated = false ∧ parent.metadata.acl = point.payload.acl ∧
    evaluateAccess ctx point.resourceAcl = .allow)

/-- The parent that a caller reads with the point, on the typed records. -/
def World.readParent (w : World) (point : Point) : Option ParentChunk :=
  if w.current point then (w.parents.get point.parentKey).filter fun parent => parent.opens ctx point else none

/-- The pair that is returned for the point. -/
def World.readPoint (w : World) (point : Point) (score : Rat) : Option (RetrievalHit × AuthorizedParent) :=
  (w.readParent ctx point).map fun parent => (point.hit score, parent.authorized (base point.parentKey))

variable {base ctx} {w : World} {point : Point}

theorem World.readParent_iff {parent : ParentChunk} : w.readParent ctx point = some parent ↔
    w.current point = true ∧ w.parents.get point.parentKey = some parent ∧ parent.opens ctx point = true := by
  unfold World.readParent
  split
  · rename_i hcurrent
    simp [hcurrent, Option.filter_eq_some_iff]
  · rename_i hcurrent
    simp [hcurrent]

theorem ParentReader.loadParentForHit_stored {score : Rat} {authorized : AuthorizedParent} :
    loadParentForHit (w.retrievalStores base).parents (point.hit score) ctx = .ok authorized ↔
      ∃ parent, w.parents.get point.parentKey = some parent ∧ parent.opens ctx point = true ∧
        authorized = parent.authorized (base point.parentKey) := by
  have hstored : (w.retrievalStores base).parents (point.hit score).parentId =
      (w.parents.get point.parentKey).map fun parent => parent.toRaw (base point.parentKey) := rfl
  unfold loadParentForHit
  rw [hstored]
  cases w.parents.get point.parentKey with
  | none => simp
  | some parent =>
    simp only [Option.map_some, Option.some.injEq, exists_eq_left', ParentChunk.opens, decide_eq_true_eq]
    exact authorizeParent_stored

namespace SecureRetriever

/-- One hit of the loop, on stored records. -/
theorem checkHit_stored (score : Rat) (result : RetrievalResult) :
    (checkHit ctx (w.retrievalStores base) (point.hit score) result).hits =
      result.hits ++ (w.readPoint base ctx point score).toList := by
  unfold checkHit
  split
  · rename_i hstale
    have hnone : w.readParent ctx point = none := if_neg fun h => hstale (of_decide_eq_true h)
    simp [World.readPoint, hnone]
  · rename_i hcurrent
    have hactive : w.current point = true := decide_eq_true (not_not.mp hcurrent)
    cases hload : ParentReader.loadParentForHit (w.retrievalStores base).parents (point.hit score) ctx with
    | ok authorized =>
      obtain ⟨parent, hget, hopens, rfl⟩ := ParentReader.loadParentForHit_stored.mp hload
      have hread : w.readParent ctx point = some parent := World.readParent_iff.mpr ⟨hactive, hget, hopens⟩
      simp [World.readPoint, hread]
    | error denied =>
      have hnone : w.readParent ctx point = none := by
        cases hread : w.readParent ctx point with
        | none => rfl
        | some parent =>
          obtain ⟨-, hget, hopens⟩ := World.readParent_iff.mp hread
          rw [ParentReader.loadParentForHit_stored.mpr ⟨parent, hget, hopens, rfl⟩] at hload
          cases hload
      simp [World.readPoint, hnone]

/-- The loop returns the points that can be read when they are checked, in rank order. -/
theorem checkHits_stored {seen : Nat → World} (ranked : List (Point × Rat)) (i : Nat) (result : RetrievalResult) :
    (checkHits ctx (fun i => (seen i).retrievalStores base) i (ranked.map fun found => found.1.hit found.2)
        result).hits =
      result.hits ++ (ranked.zipIdx i).filterMap fun found =>
        (seen found.2).readPoint base ctx found.1.1 found.1.2 := by
  induction ranked generalizing i result with
  | nil => simp [checkHits]
  | cons found ranked ih =>
    rw [List.map_cons, checkHits, ih, checkHit_stored, List.zipIdx_cons, List.append_assoc]
    cases hread : (seen i).readPoint base ctx found.1 found.2 with
    | none => simp [hread]
    | some pair => simp [hread]

/-- Every hit of the active version is returned or counted as denied. -/
theorem checkHits_counted {seen : Nat → RetrievalStores} (hits : List RetrievalHit) (i : Nat)
    (result : RetrievalResult) :
    (checkHits ctx seen i hits result).hits.length + (checkHits ctx seen i hits result).deniedParentCount =
      result.hits.length + result.deniedParentCount +
        (hits.zipIdx i).countP fun hit =>
          decide ((seen hit.2).metadata.getActiveVersion hit.1.ref.doc = some hit.1.ref.version) := by
  induction hits generalizing i result with
  | nil => rfl
  | cons hit hits ih =>
    rw [checkHits, ih, List.zipIdx_cons, List.countP_cons]
    unfold checkHit
    split
    · rename_i hstale
      simp [hstale]
    · rename_i hcurrent
      have hactive := not_not.mp hcurrent
      simp only [hactive, decide_true, if_true]
      cases ParentReader.loadParentForHit (seen i).parents hit ctx with
      | ok authorized =>
        simp only [List.length_append, List.length_singleton]
        omega
      | error denied =>
        dsimp only
        omega

section Searched

variable {retriever : SecureRetriever} {seen : Nat → World} {corpus : CorpusConfig} {topK : Option Nat}
  {filter : Filter Condition} {ranked : List (Point × Rat)}

/-- The filter selects a stored point of the corpus exactly if it is shown and the policy lets the
caller in. -/
theorem selects_stored (hfilter : buildAccessFilter ctx corpus.corpusId = .ok filter) :
    filter.selects point.payload.toJson = true ↔
      point.payload.ref.doc.corpusId = corpus.corpusId ∧ point.payload.status.text = "active" ∧
        point.payload.deprecated = false ∧ evaluateAccess ctx point.resourceAcl = .allow := by
  rw [buildAccessFilter_selects point.accessFields_in hfilter, point.accessFields_acl]
  rfl

def searchLimit (retriever : SecureRetriever) (topK : Option Nat) : Nat :=
  if topK.getD retriever.defaultTopK = 0 then retriever.hybridTopK else topK.getD retriever.defaultTopK

/-- A retrieval that has found stored points checks their hits. -/
theorem retrieve_found (hvalid : validateCorpus ctx corpus = .ok ())
    (hfilter : buildAccessFilter ctx corpus.corpusId = .ok filter)
    (hfound : retriever.search (collectionOf corpus) filter (searchLimit retriever topK) =
      .ok (ranked.map fun found => found.1.scored found.2)) :
    retriever.retrieve (fun i => (seen i).retrievalStores base) ctx corpus topK =
      .ok (checkHits ctx (fun i => (seen i).retrievalStores base) 0
        (ranked.map fun found => found.1.hit found.2) .empty) := by
  unfold searchLimit at hfound
  have hhits : retriever.hybridSearch ctx corpus (topK.getD retriever.defaultTopK) =
      .ok (ranked.map fun found => found.1.hit found.2) := by
    simp only [hybridSearch, hfilter, hfound, List.map_map, Except.ok.injEq]
    exact List.map_congr_left fun found _ => Point.toHit_scored found.1 found.2
  simp only [retrieve, hvalid, hhits]

/-- Whatever stored points a search finds, and however the stores change meanwhile: the filter is
the policy, a found point is returned with its parent exactly if it can be read when it is checked,
and the other points of an active version are counted as denied. -/
theorem retrieve_stored (hvalid : validateCorpus ctx corpus = .ok ())
    (hfilter : buildAccessFilter ctx corpus.corpusId = .ok filter)
    (hfound : retriever.search (collectionOf corpus) filter (searchLimit retriever topK) =
      .ok (ranked.map fun found => found.1.scored found.2)) :
    (∀ point : Point, filter.selects point.payload.toJson = true ↔
      point.payload.ref.doc.corpusId = corpus.corpusId ∧ point.payload.status.text = "active" ∧
        point.payload.deprecated = false ∧ evaluateAccess ctx point.resourceAcl = .allow) ∧
    ∃ result, retriever.retrieve (fun i => (seen i).retrievalStores base) ctx corpus topK = .ok result ∧
      result.hits = ranked.zipIdx.filterMap (fun found =>
        (seen found.2).readPoint base ctx found.1.1 found.1.2) ∧
      result.hits.length + result.deniedParentCount =
        ranked.zipIdx.countP fun found => (seen found.2).current found.1.1 := by
  refine ⟨fun point => selects_stored hfilter, _, retrieve_found hvalid hfilter hfound, ?_, ?_⟩
  · rw [checkHits_stored]
    rfl
  · rw [checkHits_counted, List.zipIdx_map, List.countP_map]
    simp only [RetrievalResult.empty, List.length_nil, Nat.zero_add]
    rfl

end Searched

end SecureRetriever

end Reading

namespace Sample

/-- `v1` is active, and has a parent. -/
def storedV1 : World where
  clock := 0
  metadata := stores.metadata
  vectors := fun _ => none
  parents := [⟨⟨"p1", ⟨doc, "v1"⟩, "text", []⟩, ⟨.active, false, acl⟩⟩]
  pointers := fun _ => none
  findings := []

/-- A child of the parent with the ACL in a point. -/
def pointOfV1 (id : String) (acl : AclFields) : Point :=
  ⟨id, ⟨⟨doc, "v1"⟩, some "p1", id, "text", [], .active, false, acl⟩⟩

def pointsOfV1 : List (Point × Rat) :=
  [(pointOfV1 "c1" acl, 1), (pointOfV1 "c2" { acl with allowedUserIds := ["ann"] }, 1)]

def findsBoth : SecureRetriever where
  search _ _ _ := .ok (pointsOfV1.map fun found => found.1.scored found.2)
  defaultTopK := 8
  hybridTopK := 8

end Sample

open Sample SecureRetriever in
/-- The second point has another ACL than its parent. -/
theorem retrieve_stored_denied :
    ∃ result, findsBoth.retrieve (fun _ => storedV1.retrievalStores fun _ _ => none) (reader ["internal"]) corpus
        none = .ok result ∧ result.hits.length = 1 ∧ result.deniedParentCount = 1 := by
  have hvalid : validateCorpus (reader ["internal"]) corpus = .ok () := rfl
  obtain ⟨-, result, hresult, hhits, hcount⟩ := @retrieve_stored (fun _ _ => none) (reader ["internal"]) findsBoth
    (fun _ => storedV1) corpus none _ pointsOfV1 hvalid rfl rfl
  have hone : result.hits.length = 1 := by
    rw [hhits]
    decide +kernel
  have hcurrent : (pointsOfV1.zipIdx.countP fun found => storedV1.current found.1.1) = 2 := by decide +kernel
  refine ⟨result, hresult, hone, ?_⟩
  omega

end AgenticRag
