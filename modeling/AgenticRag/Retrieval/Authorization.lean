import AgenticRag.Retrieval.SecureRetriever

/-!
# What retrieval returns

Whatever the payloads and the parent metadata are, a pair leaves `retrieve` only if the
control plane, the child and the parent agree on it and the policy decision point
allows it. The search is trusted to apply its filter, and nothing else is.
-/

namespace AgenticRag

namespace ParentReader

variable {parent : RawParent} {hit : RetrievalHit} {ctx : SecurityContext}

theorem text_of_str {payload : Payload} {key text default : String}
    (h : payload key = some (.str text)) : payload.text key default = text := by
  rw [Payload.text, h]
  rfl

theorem checkIdentity_ok : checkIdentity parent hit ctx = .ok () ↔
    parent.ref = hit.ref ∧ hit.ref.doc.tenantId = ctx.tenantId := by
  obtain ⟨⟨parentId, ⟨⟨tenant, corpus, document⟩, version⟩, text, path⟩, md⟩ := parent
  obtain ⟨chunkId, hitParent, ⟨⟨tenant', corpus', document'⟩, version'⟩, rest⟩ := hit
  simp only [checkIdentity, require_bind_ok, require_ok, VersionRef.mk.injEq, DocRef.mk.injEq]
  constructor
  · rintro ⟨rfl, rfl, rfl, rfl, rfl⟩
    simp
  · rintro ⟨⟨⟨rfl, rfl, rfl⟩, rfl⟩, rfl⟩
    simp

theorem listTexts_strings (texts : List String) : listTexts (some (.strings texts)) = texts := by
  have hid : Atom.text ∘ Atom.str = id := funext fun _ => rfl
  simp only [listTexts, Json.strings, List.map_map, hid, List.map_id]

theorem asAclScope_text (scope : AclScope) : asAclScope (.str (aclScopeText scope)) = scope := by
  cases scope <;> decide

/-- A record equal to the child's is read back as the child's ACL. -/
theorem aclFromRecord_of_equal {md : Payload} {acl : AclFields}
    (h : recordAclEqual md (hitAclRecord acl) = true) : aclFromRecord md = acl := by
  simp only [recordAclEqual, aclKeys, principalFields, List.all_cons, List.all_nil, Bool.and_eq_true,
    decide_eq_true_eq, and_true, hitAclRecord] at h
  obtain ⟨hlevel, hscope, hallowedUsers, hallowedGroups, hdeniedUsers, hdeniedGroups⟩ := h
  have hscope' : asAclScope ((md "acl_scope").getD (.str "restricted")) = acl.aclScope := by
    rw [hscope]
    exact asAclScope_text acl.aclScope
  simp only [aclFromRecord, text_of_str hlevel, hscope', hallowedUsers, hallowedGroups, hdeniedUsers,
    hdeniedGroups, listTexts_strings]

/-- What a stored parent has passed when it is returned for a hit. -/
structure Vetted (ctx : SecurityContext) (hit : RetrievalHit) (raw : RawParent)
    (parent : AuthorizedParent) : Prop where
  sameDraft : parent.toParentDraft = raw.toParentDraft
  sameMetadata : parent.metadata = raw.metadata
  sameResource : parent.ref = hit.ref
  sameAcl : parent.acl = hit.acl
  tenant : hit.ref.doc.tenantId = ctx.tenantId
  active : parent.status = "active"
  current : parent.deprecated = false
  allowed : evaluateAccess ctx { hit.acl with tenantId := hit.ref.doc.tenantId } = .allow

theorem authorizeParent_ok {authorized : AuthorizedParent}
    (h : authorizeParent parent hit ctx = .ok authorized) : Vetted ctx hit parent authorized := by
  unfold authorizeParent at h
  obtain ⟨_, hidentity, h⟩ := except_bind_ok.mp h
  obtain ⟨_, -, h⟩ := except_bind_ok.mp h
  obtain ⟨⟨hstatus, hdeprecated⟩, h⟩ := require_bind_ok.mp h
  obtain ⟨hacl, h⟩ := require_bind_ok.mp h
  obtain ⟨hpasses, h⟩ := require_bind_ok.mp h
  obtain ⟨hresource, htenant⟩ := checkIdentity_ok.mp hidentity
  have hsame := aclFromRecord_of_equal hacl
  obtain ⟨-, -, hallowed⟩ := resourcePassesFilter_iff.mp hpasses
  rw [← Except.ok.inj h]
  refine ⟨rfl, rfl, hresource, hsame, htenant, hstatus, hdeprecated, ?_⟩
  rw [hsame, hresource] at hallowed
  exact hallowed

theorem loadParentForHit_ok {parents : String → Option RawParent} {authorized : AuthorizedParent}
    (h : loadParentForHit parents hit ctx = .ok authorized) :
    ∃ raw, parents hit.parentId = some raw ∧ Vetted ctx hit raw authorized := by
  unfold loadParentForHit at h
  cases hget : parents hit.parentId with
  | none => simp [hget] at h
  | some raw =>
    rw [hget] at h
    exact ⟨raw, rfl, authorizeParent_ok h⟩

end ParentReader

namespace SecureRetriever

variable {ctx : SecurityContext} {corpus : CorpusConfig} {stores : RetrievalStores}

/-- The pair was right when it was checked. -/
structure Authorized (ctx : SecurityContext) (corpus : CorpusConfig) (stores : RetrievalStores)
    (hit : RetrievalHit) (parent : AuthorizedParent) : Prop where
  activeVersion : stores.metadata.getActiveVersion hit.ref.doc = some hit.ref.version
  corpusId : hit.ref.doc.corpusId = corpus.corpusId
  vetted : ∃ raw, stores.parents hit.parentId = some raw ∧ ParentReader.Vetted ctx hit raw parent

theorem checkHit_hits {hit : RetrievalHit} {result : RetrievalResult}
    (hcorpus : hit.ref.doc.corpusId = corpus.corpusId) {pair : RetrievalHit × AuthorizedParent}
    (hpair : pair ∈ (checkHit ctx stores hit result).hits) :
    pair ∈ result.hits ∨ (pair.1 = hit ∧ Authorized ctx corpus stores hit pair.2) := by
  unfold checkHit at hpair
  split at hpair
  · exact Or.inl hpair
  · rename_i hactive
    cases hload : ParentReader.loadParentForHit stores.parents hit ctx with
    | error denied =>
      rw [hload] at hpair
      exact Or.inl hpair
    | ok parent =>
      rw [hload] at hpair
      rcases List.mem_append.mp hpair with hold | hnew
      · exact Or.inl hold
      · rw [List.mem_singleton.mp hnew]
        exact Or.inr ⟨rfl, not_not.mp hactive, hcorpus, ParentReader.loadParentForHit_ok hload⟩

theorem checkHits_hits {seen : Nat → RetrievalStores} {hits : List RetrievalHit}
    (hcorpus : ∀ hit ∈ hits, hit.ref.doc.corpusId = corpus.corpusId) {i : Nat}
    {result : RetrievalResult} {pair : RetrievalHit × AuthorizedParent}
    (hpair : pair ∈ (checkHits ctx seen i hits result).hits) :
    pair ∈ result.hits ∨
      ∃ k, hits[k]? = some pair.1 ∧ Authorized ctx corpus (seen (i + k)) pair.1 pair.2 := by
  induction hits generalizing i result with
  | nil => exact Or.inl hpair
  | cons hit hits ih =>
    rcases ih (fun other hother => hcorpus other (List.mem_cons_of_mem hit hother)) hpair with
      hstep | ⟨k, hk, hauthorized⟩
    · rcases checkHit_hits (hcorpus hit List.mem_cons_self) hstep with hold | ⟨hhit, hauthorized⟩
      · exact Or.inl hold
      · right
        refine ⟨0, by rw [hhit]; rfl, ?_⟩
        rw [hhit]
        exact hauthorized
    · right
      refine ⟨k + 1, hk, ?_⟩
      rw [Nat.add_comm k 1, ← Nat.add_assoc]
      exact hauthorized

/-- A field that meets `MatchValue` of a text, and is no list, is read as that text. -/
theorem text_of_met {payload : Payload} {key text default : String}
    (hsingle : ∀ value ∈ payload key, value.isList = false)
    (hmet : Condition.met payload (.field ⟨key, .value (.str text)⟩) = true) :
    payload.text key default = text := by
  cases hfield : payload key with
  | none => simp [Condition.met, FieldCondition.met, hfield] at hmet
  | some value =>
    cases value with
    | list items => exact absurd (hsingle _ hfield) (by simp [Json.isList])
    | atom item =>
      have hitem : FieldCondition.met ⟨key, .value (.str text)⟩ payload =
          decide (item = .str text) := met_value hfield
      have hmet' : FieldCondition.met ⟨key, .value (.str text)⟩ payload = true := hmet
      rw [hitem, decide_eq_true_eq] at hmet'
      exact ParentReader.text_of_str (hfield.trans (by rw [hmet']; rfl))

/-- What is assumed of the search: no point fails the filter, and no `corpus_id` is a list. -/
structure FaithfulSearch (retriever : SecureRetriever) : Prop where
  filtered : ∀ name filter topK found, retriever.search name filter topK = .ok found →
    ∀ point ∈ found, filter.selects point.payload = true
  singleCorpus : ∀ name filter topK found, retriever.search name filter topK = .ok found →
    ∀ point ∈ found, ∀ value ∈ point.payload "corpus_id", value.isList = false

theorem hybridSearch_corpus {retriever : SecureRetriever} (hsearch : retriever.FaithfulSearch)
    {topK : Nat} {hits : List RetrievalHit}
    (h : retriever.hybridSearch ctx corpus topK = .ok hits) {hit : RetrievalHit} (hhit : hit ∈ hits) :
    hit.ref.doc.corpusId = corpus.corpusId := by
  unfold hybridSearch at h
  cases hfilter : buildAccessFilter ctx corpus.corpusId with
  | error e => simp [hfilter] at h
  | ok filter =>
    simp only [hfilter] at h
    split at h
    · simp at h
    · rename_i found hfound
      rw [← Except.ok.inj h] at hhit
      obtain ⟨point, hpoint, rfl⟩ := List.mem_map.mp hhit
      obtain ⟨hmust, -, -⟩ := selects_iff.mp (hsearch.filtered _ _ _ _ hfound point hpoint)
      have hmember : Condition.field ⟨"corpus_id", .value (.str corpus.corpusId)⟩ ∈ filter.must := by
        unfold buildAccessFilter at hfilter
        split at hfilter
        · simp at hfilter
        · rw [← Except.ok.inj hfilter]
          simp
      exact text_of_met (hsearch.singleCorpus _ _ _ _ hfound point hpoint) (hmust _ hmember)

/-- Every returned pair was authorized when its hit was checked, and without a discoverable corpus or an
allowed security level there is none. The stores may change between any two checks; of the search no more
is assumed than that its points pass the filter. -/
theorem retrieve_authorized (retriever : SecureRetriever) (hsearch : retriever.FaithfulSearch)
    (seen : Nat → RetrievalStores) (ctx : SecurityContext) (corpus : CorpusConfig)
    (topK : Option Nat) :
    (∀ result, retriever.retrieve seen ctx corpus topK = .ok result →
      ∀ pair ∈ result.hits, ∃ hits i,
        retriever.hybridSearch ctx corpus (topK.getD retriever.defaultTopK) = .ok hits ∧
        hits[i]? = some pair.1 ∧ Authorized ctx corpus (seen i) pair.1 pair.2) ∧
    (validateCorpus ctx corpus ≠ .ok () ∨ ctx.allowedSecurityLevels = [] →
      retriever.retrieve seen ctx corpus topK = .ok .empty) := by
  constructor
  · intro result h pair hpair
    unfold retrieve at h
    split at h
    · rw [← Except.ok.inj h] at hpair
      simp [RetrievalResult.empty] at hpair
    · split at h
      · rw [← Except.ok.inj h] at hpair
        simp [RetrievalResult.empty] at hpair
      · simp at h
      · rename_i hits hhits
        rw [← Except.ok.inj h] at hpair
        rcases checkHits_hits (fun hit hhit => hybridSearch_corpus hsearch hhits hhit) hpair with
          hnone | ⟨i, hi, hauthorized⟩
        · simp [RetrievalResult.empty] at hnone
        · rw [Nat.zero_add] at hauthorized
          exact ⟨hits, i, hhits, hi, hauthorized⟩
  · intro hclosed
    unfold retrieve
    cases hvalid : validateCorpus ctx corpus with
    | error e => rfl
    | ok u =>
      rcases hclosed with hinvalid | hlevels
      · exact absurd hvalid hinvalid
      · have hempty : retriever.hybridSearch ctx corpus (topK.getD retriever.defaultTopK) =
            .error (.emptyAuthorizationScope .noAllowedSecurityLevels) := by
          simp only [hybridSearch, buildAccessFilter, hlevels, if_true]
        simp only [hempty]

/-- A search that returns the selected points of a fixed list in its order. -/
def ofPoints (points : List ScoredPoint) : SecureRetriever where
  search := fun _ filter topK =>
    .ok ((points.filter fun point => filter.selects point.payload).take topK)
  defaultTopK := 8
  hybridTopK := 8

theorem ofPoints_faithful {points : List ScoredPoint}
    (h : ∀ point ∈ points, ∀ value ∈ point.payload "corpus_id", value.isList = false) : (ofPoints points).FaithfulSearch := by
  have hmem : ∀ name filter topK found, (ofPoints points).search name filter topK = .ok found →
      ∀ point ∈ found, point ∈ points ∧ filter.selects point.payload = true := by
    intro name filter topK found hfound point hpoint
    rw [← Except.ok.inj hfound] at hpoint
    exact List.mem_filter.mp (List.mem_of_mem_take hpoint)
  exact ⟨fun name filter topK found hfound point hpoint => (hmem _ _ _ _ hfound point hpoint).2,
    fun name filter topK found hfound point hpoint =>
      h point (hmem _ _ _ _ hfound point hpoint).1⟩

end SecureRetriever

namespace Sample

/-- A point whose ACL a member of the finance group may read. -/
def scored : ScoredPoint where
  payload := restricted.write fun
    | "document_id" => some (.str "travel")
    | "document_version" => some (.str "v1")
    | "parent_id" => some (.str "p1")
    | "chunk_id" => some (.str "c1")
    | _ => none
  score := 1

def corpus : CorpusConfig := ⟨"policies", "acme", none, true, true⟩

/-- The version is active, and its parent carries the ACL of the point. -/
def stores : RetrievalStores where
  metadata :=
    { store with
      documents := [{ (processing "v1").toDocumentColumns with
        status := .active, indexedAt := some 1, lifecycleRevision := 1 }] }
  parents := fun parentId =>
    if parentId = "p1" then some ⟨⟨"p1", ⟨doc, "v1"⟩, "text", []⟩, restricted.write fun _ => none⟩
    else none

end Sample

open Sample SecureRetriever in
theorem retrieve_authorized_restricted :
    ∃ result, (ofPoints [scored]).retrieve (fun _ => stores) (reader ["internal"]) corpus none
        = .ok result ∧ result.hits.length = 1 ∧
      ∀ pair ∈ result.hits, Authorized (reader ["internal"]) corpus stores pair.1 pair.2 := by
  have hfaithful : (ofPoints [scored]).FaithfulSearch := ofPoints_faithful (by decide)
  have hauthorized := (retrieve_authorized _ hfaithful (fun _ => stores) (reader ["internal"]) corpus
    none).1
  refine ⟨_, rfl, by decide, fun pair hpair => ?_⟩
  obtain ⟨_, _, -, -, h⟩ := hauthorized _ rfl pair hpair
  exact h

end AgenticRag
