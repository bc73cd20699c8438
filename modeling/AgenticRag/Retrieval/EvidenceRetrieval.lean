import AgenticRag.Retrieval.Deduplication
import AgenticRag.Storage.EvidenceStore

/-!
# Retrieval of evidence

`retrieve_evidence` of `retrieval/retriever.py` and the builder of `retrieval/evidence.py`. Hits
that passed the gates are deduplicated; then the document of every survivor is read once more,
for the provenance of its snapshot.
-/

namespace AgenticRag

/-- A time of the control plane, which is UTC. -/
def Datetime.ofTimestamp (t : Timestamp) : Datetime := ⟨t, some 0⟩

/-- `uuid4`, the clock and `sha256`, as the builder finds them for each snapshot. -/
structure EvidenceBuilder where
  newId : Nat → String
  now : Nat → Datetime
  sha256 : String → String

namespace EvidenceBuilder

/-- `authority_level` of a document, which its validator bounds. -/
def authorityOf (document : SourceDocument) : Fin 101 :=
  ⟨document.source.authorityLevel.toNat, by
    have hbounds := document.valid.1
    omega⟩

/-- `page_number` if it is an `int`; a `bool` is one. -/
def pageNumberOf (metadata : Payload) : Option Int :=
  match metadata "page_number" with
  | some (.atom (.int page)) => some page
  | some (.atom (.bool page)) => some (if page then 1 else 0)
  | _ => none

variable (builder : EvidenceBuilder)

/-- `build` of snapshot `i`. -/
def build (i : Nat) (hit : RetrievalHit) (parent : AuthorizedParent) (ctx : SecurityContext)
    (sourceDocument : Option SourceDocument) : Evidence :=
  let body := if parent.text = "" then hit.text else parent.text
  { evidenceId := builder.newId i
    tenantId := hit.ref.doc.tenantId
    corpusId := hit.ref.doc.corpusId
    documentId := hit.ref.doc.documentId
    documentVersion := hit.ref.version
    sourceUri := match sourceDocument with
      | some sd => sd.source.sourceUri
      | none => "inline://" ++ hit.ref.doc.documentId
    sourceFilename := match sourceDocument with
      | some sd => sd.source.sourceFilename
      | none => hit.ref.doc.documentId
    pageNumber := pageNumberOf parent.metadata
    sectionPath := if parent.sectionPath = [] then hit.sectionPath else parent.sectionPath
    text := body
    textHash := builder.sha256 body
    authorityLevel := match sourceDocument with
      | some sd => authorityOf sd
      | none => 50
    effectiveFrom := match sourceDocument with
      | some sd => sd.effectiveFrom.map Datetime.ofTimestamp
      | none => none
    effectiveTo := match sourceDocument with
      | some sd => sd.effectiveTo.map Datetime.ofTimestamp
      | none => none
    deprecated := false
    retrievedAt := builder.now i
    aclPolicyId := match sourceDocument with
      | some sd => sd.source.aclPolicyId
      | none => "unknown"
    policyVersion := ctx.policyVersion }

end EvidenceBuilder

/-- The retriever with its deduplicator and its evidence builder. -/
structure EvidenceRetriever extends SecureRetriever where
  dedup : Deduplicator
  builder : EvidenceBuilder

namespace EvidenceRetriever

/-- The pairs that `retrieve` returns. -/
abbrev AuthorizedHits := List (RetrievalHit × AuthorizedParent)

/-- `(chunk_id, parent_id, document_id, document_version)`. -/
def ownerKey (hit : RetrievalHit) : String × String × String × String :=
  (hit.chunkId, hit.parentId, hit.ref.doc.documentId, hit.ref.version)

/-- `owners.get(key)`: a later pair replaces an earlier one with its key. -/
def ownerOf (hits : AuthorizedHits) (hit : RetrievalHit) : Option AuthorizedParent :=
  (hits.reverse.find? fun pair => decide (ownerKey pair.1 = ownerKey hit)).map Prod.snd

/-- The candidate of an authorized hit; its authority is that of the corpus. -/
def candidateOf (context : RetrievalContext) (authorityLevel : Int)
    (pair : RetrievalHit × AuthorizedParent) : DedupCandidate where
  hit := pair.1
  contexts := [context]
  text := if pair.2.text = "" then pair.1.text else pair.2.text
  authorityLevel := authorityLevel
  duplicateSources := []

variable (retriever : EvidenceRetriever)

/-- The hits whose snapshots are built. -/
def survivors (context : RetrievalContext) (authorityLevel : Int) (hits : AuthorizedHits) :
    List DedupCandidate :=
  retriever.dedup.deduplicate (hits.map (candidateOf context authorityLevel))

/-- `for cand in survivors`; `later i` is the control plane when document `i` is read. -/
def snapshots (later : Nat → MetadataStore) (ctx : SecurityContext) (hits : AuthorizedHits) :
    Nat → List DedupCandidate → Routine (Option EvidenceSnapshotStore) PyError (List Evidence)
  | _, [] => pure []
  | i, cand :: rest =>
    match ownerOf hits cand.hit with
    | none => snapshots later ctx hits (i + 1) rest
    | some owner =>
      match (later i).getActiveDocument cand.hit.ref.doc with
      | .error e => Routine.raise e
      | .ok sourceDocument => do
        let ev := retriever.builder.build i cand.hit owner ctx sourceDocument
        Routine.modify (Option.map fun store =>
          store.save ev { owner.acl with tenantId := owner.ref.doc.tenantId })
        let evidence ← snapshots later ctx hits (i + 1) rest
        pure (ev :: evidence)

/-- `retrieve_evidence`. The gates read the control plane as `seen` has it, the provenance
comes from `later`. -/
def retrieveEvidence (seen : Nat → RetrievalStores) (later : Nat → MetadataStore) (ctx : SecurityContext)
    (corpus : CorpusConfig) (authorityLevel : Int) (topK : Option Nat) (context : RetrievalContext) :
    Routine (Option EvidenceSnapshotStore) PyError (List Evidence) :=
  match retriever.retrieve seen ctx corpus topK with
  | .error e => Routine.raise e
  | .ok result =>
    if result.hits = [] then pure []
    else retriever.snapshots later ctx result.hits 0 (retriever.survivors context authorityLevel result.hits)

section Owners

/-- Every survivor has a parent. -/
theorem ownerOf_survivor {context : RetrievalContext} {authorityLevel : Int} {hits : AuthorizedHits}
    {cand : DedupCandidate} (h : cand ∈ retriever.survivors context authorityLevel hits) :
    ∃ owner, ownerOf hits cand.hit = some owner := by
  obtain ⟨candidate, hcandidate, hhit⟩ := Deduplicator.deduplicate_hits _ cand h
  obtain ⟨pair, hpair, rfl⟩ := List.mem_map.mp hcandidate
  have hkey : ownerKey pair.1 = ownerKey cand.hit := congrArg ownerKey hhit
  unfold ownerOf
  cases hfound : hits.reverse.find? fun pair => decide (ownerKey pair.1 = ownerKey cand.hit) with
  | none =>
    have hno := List.find?_eq_none.mp hfound pair (List.mem_reverse.mpr hpair)
    simp [hkey] at hno
  | some owner => exact ⟨owner.2, rfl⟩

end Owners

end EvidenceRetriever

end AgenticRag
