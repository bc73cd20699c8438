import AgenticRag.Retrieval.Authorization
import AgenticRag.Retrieval.EvidenceRetrieval

/-!
# Authorized evidence

Deduplication and the second lookup of the documents stand between the gates of `retrieve` and
the snapshots of `retrieve_evidence`. Every snapshot is still one of a hit that passed the gates,
with the text of a parent that passed them.
-/

namespace AgenticRag

open SecureRetriever

namespace EvidenceRetriever

variable {retriever : EvidenceRetriever} {seen : Nat → RetrievalStores} {later : Nat → MetadataStore}
  {ctx : SecurityContext} {corpus : CorpusConfig} {evidence : List Evidence}

/-- A snapshot of a hit that was authorized. Its parent may have come with another hit of the same
key, which was authorized too. -/
inductive Genuine (retriever : EvidenceRetriever) (seen : Nat → RetrievalStores) (later : Nat → MetadataStore)
    (ctx : SecurityContext) (corpus : CorpusConfig) : Evidence → Prop
  | built {hit other : RetrievalHit} {parent owner : AuthorizedParent} {i j k : Nat}
      {sourceDocument : Option SourceDocument} (hhit : Authorized ctx corpus (seen i) hit parent)
      (howner : Authorized ctx corpus (seen j) other owner) (hkey : ownerKey other = ownerKey hit)
      (hread : (later k).getActiveDocument hit.ref.doc = .ok sourceDocument) :
      Genuine retriever seen later ctx corpus (retriever.builder.build k hit owner ctx sourceDocument)

/-- An authorized hit is one of the caller's tenant. -/
theorem authorized_tenant {stores : RetrievalStores} {hit : RetrievalHit} {parent : AuthorizedParent}
    (h : Authorized ctx corpus stores hit parent) : hit.ref.doc.tenantId = ctx.tenantId := by
  obtain ⟨raw, -, hvetted⟩ := h.vetted
  exact hvetted.tenant

theorem Genuine.tenantId {ev : Evidence} (h : Genuine retriever seen later ctx corpus ev) :
    ev.tenantId = ctx.tenantId := by
  cases h with
  | built hhit => exact authorized_tenant hhit

theorem Genuine.corpusId {ev : Evidence} (h : Genuine retriever seen later ctx corpus ev) :
    ev.corpusId = corpus.corpusId := by
  cases h with
  | built hhit => exact hhit.corpusId

/-- The pairs of a retrieval were authorized at some moment of it. -/
theorem authorized_of_retrieve {secure : SecureRetriever} (hsearch : secure.FaithfulSearch) {topK : Option Nat}
    {result : RetrievalResult} (h : secure.retrieve seen ctx corpus topK = .ok result)
    {pair : RetrievalHit × AuthorizedParent} (hpair : pair ∈ result.hits) :
    ∃ i, Authorized ctx corpus (seen i) pair.1 pair.2 := by
  have hnone : pair ∉ RetrievalResult.empty.hits := by simp [RetrievalResult.empty]
  unfold SecureRetriever.retrieve at h
  split at h
  · obtain rfl := Except.ok.inj h
    exact absurd hpair hnone
  · split at h
    · obtain rfl := Except.ok.inj h
      exact absurd hpair hnone
    · cases h
    · rename_i hits hhits
      obtain rfl := Except.ok.inj h
      have hcorpus : ∀ hit ∈ hits, hit.ref.doc.corpusId = corpus.corpusId := fun hit hhit =>
        hybridSearch_corpus hsearch hhits hhit
      rcases checkHits_hits hcorpus hpair with hempty | ⟨k, -, hauthorized⟩
      · exact absurd hempty hnone
      · exact ⟨_, hauthorized⟩

/-- The owner of a hit came with a hit of its key. -/
theorem ownerOf_mem {hits : AuthorizedHits} {hit : RetrievalHit} {owner : AuthorizedParent}
    (h : ownerOf hits hit = some owner) : ∃ other, (other, owner) ∈ hits ∧ ownerKey other = ownerKey hit := by
  obtain ⟨pair, hfound, rfl⟩ := Option.map_eq_some_iff.mp h
  have hkey := List.find?_some hfound
  exact ⟨pair.1, List.mem_reverse.mp (List.mem_of_find?_eq_some hfound), of_decide_eq_true hkey⟩

/-- Every snapshot is built of a survivor and its owner. -/
theorem snapshots_built {hits : AuthorizedHits} {i : Nat} {cands : List DedupCandidate}
    {store : Option EvidenceSnapshotStore}
    (h : (retriever.snapshots later ctx hits i cands store).1 = .ok evidence) {ev : Evidence} (hev : ev ∈ evidence) :
    ∃ cand ∈ cands, ∃ owner k sourceDocument, ownerOf hits cand.hit = some owner ∧
      (later k).getActiveDocument cand.hit.ref.doc = .ok sourceDocument ∧
      ev = retriever.builder.build k cand.hit owner ctx sourceDocument := by
  induction cands generalizing i store evidence with
  | nil =>
    obtain rfl := Except.ok.inj h
    simp at hev
  | cons cand rest ih =>
    have hlater : (∃ cand ∈ rest, ∃ owner k sourceDocument, ownerOf hits cand.hit = some owner ∧
        (later k).getActiveDocument cand.hit.ref.doc = .ok sourceDocument ∧
        ev = retriever.builder.build k cand.hit owner ctx sourceDocument) →
        ∃ other ∈ cand :: rest, ∃ owner k sourceDocument, ownerOf hits other.hit = some owner ∧
          (later k).getActiveDocument other.hit.ref.doc = .ok sourceDocument ∧
          ev = retriever.builder.build k other.hit owner ctx sourceDocument := by
      rintro ⟨other, hother, hbuilt⟩
      exact ⟨other, List.mem_cons_of_mem _ hother, hbuilt⟩
    unfold snapshots at h
    cases howner : ownerOf hits cand.hit with
    | none =>
      simp only [howner] at h
      exact hlater (ih h hev)
    | some owner =>
      simp only [howner] at h
      cases hread : (later i).getActiveDocument cand.hit.ref.doc with
      | error e => simp [hread] at h
      | ok sourceDocument =>
        simp only [hread] at h
        rw [Routine.bind_ok (Routine.modify_apply _ _), Routine.bind_apply] at h
        rcases hrest : retriever.snapshots later ctx hits (i + 1) rest
            (store.map fun store => store.save
              (retriever.builder.build i cand.hit owner ctx sourceDocument)
              { owner.acl with tenantId := owner.ref.doc.tenantId }) with ⟨outcome, store'⟩
        rw [hrest] at h
        cases outcome with
        | error e => cases h
        | ok tail =>
          obtain rfl := Except.ok.inj h
          rcases List.mem_cons.mp hev with rfl | htail
          · exact ⟨cand, List.mem_cons_self, owner, i, sourceDocument, howner, hread, rfl⟩
          · exact hlater (ih (congrArg Prod.fst hrest) htail)

/-- What `retrieve_evidence` returns is genuine, whatever happens to the stores meanwhile. -/
theorem retrieveEvidence_genuine (hsearch : retriever.FaithfulSearch) {authorityLevel : Int} {topK : Option Nat}
    {context : RetrievalContext} {store : Option EvidenceSnapshotStore}
    (h : (retriever.retrieveEvidence seen later ctx corpus authorityLevel topK context store).1 = .ok evidence)
    {ev : Evidence} (hev : ev ∈ evidence) : Genuine retriever seen later ctx corpus ev := by
  unfold retrieveEvidence at h
  cases hresult : retriever.retrieve seen ctx corpus topK with
  | error e => simp [hresult] at h
  | ok result =>
    simp only [hresult] at h
    split at h
    · obtain rfl := Except.ok.inj h
      simp at hev
    · obtain ⟨cand, hcand, owner, k, sourceDocument, howner, hread, rfl⟩ := snapshots_built h hev
      obtain ⟨candidate, hcandidate, hhit⟩ := Deduplicator.deduplicate_hits _ cand hcand
      obtain ⟨⟨hit, parent⟩, hpair, rfl⟩ := List.mem_map.mp hcandidate
      obtain ⟨other, hother, hkey⟩ := ownerOf_mem howner
      obtain ⟨i, hauthorized⟩ := authorized_of_retrieve hsearch hresult hpair
      obtain ⟨j, hvetted⟩ := authorized_of_retrieve hsearch hresult hother
      have hsame : hit = cand.hit := hhit
      exact .built (hsame ▸ hauthorized) hvetted hkey hread

end EvidenceRetriever

end AgenticRag
