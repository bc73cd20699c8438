import AgenticRag.Retrieval.Authorization
import AgenticRag.Retrieval.EvidenceRetrieval
import AgenticRag.Storage.Lifecycle

/-!
# Provenance of snapshots

The version of a hit is compared with the active one before its parent is loaded, but the
provenance of its snapshot comes from whichever version is active when the document is read
again. When that is the row of the snapshot's own version.
-/

namespace AgenticRag

/-- What a snapshot takes from a document row. -/
structure Provenance where
  sourceUri : String
  sourceFilename : String
  authorityLevel : Int
  aclPolicyId : String
  effectiveFrom : Option Datetime
  effectiveTo : Option Datetime
  deriving DecidableEq, Repr

def DocumentColumns.provenance (columns : DocumentColumns) : Provenance where
  sourceUri := columns.source.sourceUri
  sourceFilename := columns.source.sourceFilename
  authorityLevel := columns.source.authorityLevel
  aclPolicyId := columns.source.aclPolicyId
  effectiveFrom := columns.effectiveFrom.map Datetime.ofTimestamp
  effectiveTo := columns.effectiveTo.map Datetime.ofTimestamp

namespace Evidence

def provenance (ev : Evidence) : Provenance where
  sourceUri := ev.sourceUri
  sourceFilename := ev.sourceFilename
  authorityLevel := ev.authorityLevel
  aclPolicyId := ev.aclPolicyId
  effectiveFrom := ev.effectiveFrom
  effectiveTo := ev.effectiveTo

/-- The version a snapshot was taken from. -/
def versionRef (ev : Evidence) : VersionRef := ⟨ev.docRef, ev.documentVersion⟩

end Evidence

/-- The values of the builder for a document that has no active version. -/
def Provenance.default (documentId : String) : Provenance where
  sourceUri := "inline://" ++ documentId
  sourceFilename := documentId
  authorityLevel := 50
  aclPolicyId := "unknown"
  effectiveFrom := none
  effectiveTo := none

/-- What the builder makes of the document it is handed. -/
def Provenance.handed (documentId : String) : Option SourceDocument → Provenance
  | some document => document.provenance
  | none => .default documentId

namespace MetadataStore

/-- What the control plane has to say about a document now. -/
def shownProvenance (s : MetadataStore) (doc : DocRef) : Provenance :=
  match Table.selectOne (activeOf doc) s.documents with
  | some row => row.provenance
  | none => .default doc.documentId

def Records (s : MetadataStore) (ref : VersionRef) (shown : Provenance) : Prop :=
  ∃ row ∈ s.documents, row.ref = ref ∧ row.provenance = shown

/-- The version is still active, or what is shown in its place happens to be the same. -/
def Undisturbed (s : MetadataStore) (ref : VersionRef) : Prop :=
  s.getActiveVersion ref.doc = some ref.version ∨ s.Records ref (s.shownProvenance ref.doc)

instance (s : MetadataStore) (ref : VersionRef) (shown : Provenance) : Decidable (s.Records ref shown) :=
  inferInstanceAs (Decidable (∃ row ∈ s.documents, row.ref = ref ∧ row.provenance = shown))

variable {s : MetadataStore} {ref : VersionRef}

theorem undisturbed_iff : s.Undisturbed ref ↔ s.Records ref (s.shownProvenance ref.doc) := by
  constructor
  · rintro (hactive | hsame)
    · unfold getActiveVersion at hactive
      obtain ⟨row, hrow, hversion⟩ := Option.map_eq_some_iff.mp hactive
      obtain ⟨hmem, hof⟩ := Table.selectOne_some hrow
      simp only [activeOf, ofDoc, Bool.and_eq_true, decide_eq_true_eq] at hof
      refine ⟨row, hmem, ?_, ?_⟩
      · calc row.ref = ⟨row.ref.doc, row.ref.version⟩ := rfl
          _ = ⟨ref.doc, ref.version⟩ := by rw [hof.1, hversion]
      · simp only [shownProvenance, hrow]
    · exact hsame
  · exact Or.inr

/-- The builder is handed what the control plane shows. -/
theorem getActiveDocument_shown {doc : DocRef} {found : Option SourceDocument}
    (h : s.getActiveDocument doc = .ok found) :
    s.shownProvenance doc = .handed doc.documentId found := by
  unfold getActiveDocument readDocument at h
  unfold shownProvenance
  cases hrow : Table.selectOne (activeOf doc) s.documents with
  | none =>
    simp only [hrow] at h
    obtain rfl := Except.ok.inj h
    rfl
  | some row =>
    simp only [hrow, rowToDocument] at h
    split at h
    · obtain rfl := Except.ok.inj h
      rfl
    · cases h

end MetadataStore

namespace EvidenceRetriever

variable {retriever : EvidenceRetriever} {seen : Nat → RetrievalStores} {later : Nat → MetadataStore}
  {ctx : SecurityContext} {corpus : CorpusConfig} {topK : Option Nat} {context : RetrievalContext}
  {authorityLevel : Int} {evidence : List Evidence}

theorem build_provenance {builder : EvidenceBuilder} {i : Nat} {hit : RetrievalHit}
    {parent : AuthorizedParent} {found : Option SourceDocument} :
    (builder.build i hit parent ctx found).provenance = .handed hit.ref.doc.documentId found := by
  cases found with
  | none => rfl
  | some document =>
    have hbounds := document.valid.1
    have hauthority : ((EvidenceBuilder.authorityOf document : Fin 101) : Int) =
        document.source.authorityLevel := by
      simp only [EvidenceBuilder.authorityOf]
      omega
    simp only [Evidence.provenance, EvidenceBuilder.build, Provenance.handed, DocumentColumns.provenance,
      hauthority]

/-- The loop builds one snapshot for each survivor, with the provenance it finds there. -/
theorem snapshots_shown {hits : AuthorizedHits} {i : Nat} {cands : List DedupCandidate}
    {store : Option EvidenceSnapshotStore}
    (howned : ∀ cand ∈ cands, ∃ owner, ownerOf hits cand.hit = some owner)
    (h : (retriever.snapshots later ctx hits i cands store).1 = .ok evidence) :
    evidence.length = cands.length ∧ ∀ (j : Nat) cand ev, cands[j]? = some cand → evidence[j]? = some ev →
      ev.versionRef = cand.hit.ref ∧
        ev.provenance = (later (i + j)).shownProvenance cand.hit.ref.doc := by
  induction cands generalizing i store evidence with
  | nil =>
    obtain rfl := Except.ok.inj h
    exact ⟨rfl, fun j cand ev hcand _ => absurd hcand (by simp)⟩
  | cons cand rest ih =>
    obtain ⟨owner, howner⟩ := howned cand List.mem_cons_self
    unfold snapshots at h
    simp only [howner] at h
    cases hread : (later i).getActiveDocument cand.hit.ref.doc with
    | error e => simp [hread] at h
    | ok found =>
      simp only [hread] at h
      rw [Routine.bind_ok (Routine.modify_apply _ _), Routine.bind_apply] at h
      rcases hrest : retriever.snapshots later ctx hits (i + 1) rest
          (store.map fun store => store.save
            (retriever.builder.build i cand.hit owner ctx found)
            { owner.acl with tenantId := owner.ref.doc.tenantId }) with ⟨outcome, store'⟩
      rw [hrest] at h
      cases outcome with
      | error e => cases h
      | ok tail =>
        obtain rfl := Except.ok.inj h
        obtain ⟨hlength, htail⟩ := ih (fun other hother => howned other (List.mem_cons_of_mem _ hother))
          (congrArg Prod.fst hrest)
        refine ⟨congrArg (· + 1) hlength, fun j other ev hother hev => ?_⟩
        cases j with
        | zero =>
          obtain rfl := Option.some.inj hother
          obtain rfl := Option.some.inj hev
          refine ⟨rfl, ?_⟩
          rw [build_provenance, Nat.add_zero, MetadataStore.getActiveDocument_shown hread]
        | succ j =>
          have hshown := htail j other ev hother hev
          rw [Nat.add_assoc, Nat.add_comm 1 j] at hshown
          exact hshown

/-- Every snapshot has the provenance that the row of its version carries when it is read. -/
def OwnProvenance (later : Nat → MetadataStore) (evidence : List Evidence) : Prop :=
  ∀ (j : Nat) ev, evidence[j]? = some ev → (later j).Records ev.versionRef ev.provenance

/-- A returned hit passed the active-version gate at some moment. -/
theorem checkHits_gated {i : Nat} {childHits : List RetrievalHit} {start : RetrievalResult}
    {pair : RetrievalHit × AuthorizedParent}
    (h : pair ∈ (SecureRetriever.checkHits ctx seen i childHits start).hits) :
    pair ∈ start.hits ∨
      ∃ k, (seen k).metadata.getActiveVersion pair.1.ref.doc = some pair.1.ref.version := by
  induction childHits generalizing i start with
  | nil => exact Or.inl h
  | cons hit childHits ih =>
    rcases ih h with hstep | hgated
    · unfold SecureRetriever.checkHit at hstep
      split at hstep
      · exact Or.inl hstep
      · rename_i hactive
        split at hstep
        · rcases List.mem_append.mp hstep with hold | hnew
          · exact Or.inl hold
          · obtain rfl := List.mem_singleton.mp hnew
            exact Or.inr ⟨i, not_not.mp hactive⟩
        · exact Or.inl hstep
    · exact Or.inr hgated

theorem retrieve_gated {retriever : SecureRetriever} {result : RetrievalResult}
    (h : retriever.retrieve seen ctx corpus topK = .ok result)
    {pair : RetrievalHit × AuthorizedParent} (hpair : pair ∈ result.hits) :
    ∃ k, (seen k).metadata.getActiveVersion pair.1.ref.doc = some pair.1.ref.version := by
  unfold SecureRetriever.retrieve at h
  split at h
  · obtain rfl := Except.ok.inj h
    exact absurd hpair (by simp [RetrievalResult.empty])
  · split at h
    · obtain rfl := Except.ok.inj h
      exact absurd hpair (by simp [RetrievalResult.empty])
    · cases h
    · obtain rfl := Except.ok.inj h
      rcases checkHits_gated hpair with hempty | hgated
      · exact absurd hempty (by simp [RetrievalResult.empty])
      · exact hgated

/-- Whatever others do to the control plane meanwhile, every snapshot has the provenance of its
own version exactly if at every read of a document the version that passed the gate is
undisturbed; so it has if no active version of a returned document moves after its gate. -/
theorem own_provenance_iff {result : RetrievalResult}
    (hresult : retriever.retrieve seen ctx corpus topK = .ok result) {store : Option EvidenceSnapshotStore}
    (h : (retriever.retrieveEvidence seen later ctx corpus authorityLevel topK context store).1 =
      .ok evidence) :
    (OwnProvenance later evidence ↔
      ∀ (j : Nat) cand, (retriever.survivors context authorityLevel result.hits)[j]? = some cand →
        (later j).Undisturbed cand.hit.ref) ∧
    ((∀ pair ∈ result.hits, ∀ i j, (later j).getActiveVersion pair.1.ref.doc =
        (seen i).metadata.getActiveVersion pair.1.ref.doc) → OwnProvenance later evidence) := by
  have hshown : evidence.length = (retriever.survivors context authorityLevel result.hits).length ∧
      ∀ (j : Nat) cand ev, (retriever.survivors context authorityLevel result.hits)[j]? = some cand →
        evidence[j]? = some ev → ev.versionRef = cand.hit.ref ∧
          ev.provenance = (later j).shownProvenance cand.hit.ref.doc := by
    unfold retrieveEvidence at h
    simp only [hresult] at h
    split at h
    · rename_i hnone
      obtain rfl := Except.ok.inj h
      rw [hnone]
      exact ⟨rfl, fun j cand ev hcand _ => absurd hcand (by simp [survivors, Deduplicator.deduplicate,
        Deduplicator.collapse, Deduplicator.collapseText])⟩
    · have hsnapshots := snapshots_shown (fun cand hcand => retriever.ownerOf_survivor hcand) h
      simpa only [Nat.zero_add] using hsnapshots
  obtain ⟨hlength, hshown⟩ := hshown
  have hiff : OwnProvenance later evidence ↔
      ∀ (j : Nat) cand, (retriever.survivors context authorityLevel result.hits)[j]? = some cand →
        (later j).Undisturbed cand.hit.ref := by
    constructor
    · intro hown j cand hcand
      have hj : j < evidence.length := by
        have hbound := (List.getElem?_eq_some_iff.mp hcand).1
        omega
      obtain ⟨href, hprovenance⟩ := hshown j cand evidence[j] hcand (List.getElem?_eq_getElem hj)
      have hrecords := hown j evidence[j] (List.getElem?_eq_getElem hj)
      rw [href, hprovenance] at hrecords
      exact MetadataStore.undisturbed_iff.mpr hrecords
    · intro hundisturbed j ev hev
      have hj : j < (retriever.survivors context authorityLevel result.hits).length := by
        have hbound := (List.getElem?_eq_some_iff.mp hev).1
        omega
      obtain ⟨href, hprovenance⟩ := hshown j _ ev (List.getElem?_eq_getElem hj) hev
      rw [href, hprovenance]
      exact MetadataStore.undisturbed_iff.mp (hundisturbed j _ (List.getElem?_eq_getElem hj))
  refine ⟨hiff, fun hquiet => hiff.mpr fun j cand hcand => Or.inl ?_⟩
  obtain ⟨candidate, hcandidate, hhit⟩ :=
    Deduplicator.deduplicate_hits _ cand (List.mem_of_getElem? hcand)
  obtain ⟨pair, hpair, rfl⟩ := List.mem_map.mp hcandidate
  obtain ⟨k, hgate⟩ := retrieve_gated hresult hpair
  rw [← hhit]
  exact (hquiet pair hpair k j).trans hgate

section Overtaken

open MetadataStore (LifecycleCall runCalls)

private def sampleRetriever : EvidenceRetriever where
  toSecureRetriever := SecureRetriever.ofPoints [Sample.scored]
  dedup := { lower := fun text => text.map Char.toLower, similar := none }
  builder := { newId := fun _ => "ev-1", now := fun _ => ⟨5, some 0⟩, sha256 := id }

/-- The first version is active, the second one is being built. -/
private def published : MetadataStore :=
  runCalls Sample.store
    [.acquireJob (Sample.acquire "job-1" "v1" "attempt-1" 0) Sample.acquire_first,
      .commitActiveVersion 1 Sample.doc "v1" 0,
      .acquireJob (Sample.acquire "job-2" "v2" "attempt-2" 1) Sample.acquire_second]

private def sampleContext : RetrievalContext := ⟨"travel rules", 0, none⟩

private def sampleSeen (_ : Nat) : RetrievalStores := ⟨published, Sample.stores.parents⟩

theorem own_provenance_iff_alone :
    ∃ evidence, (sampleRetriever.retrieveEvidence sampleSeen (fun _ => published)
        (Sample.reader ["internal"]) Sample.corpus 50 none sampleContext none).1 = .ok evidence ∧
      evidence.length = 1 ∧ OwnProvenance (fun _ => published) evidence := by
  have hresult : ∃ result, sampleRetriever.retrieve sampleSeen (Sample.reader ["internal"]) Sample.corpus
      none = .ok result := ⟨_, rfl⟩
  have hevidence : ∃ evidence, (sampleRetriever.retrieveEvidence sampleSeen (fun _ => published)
      (Sample.reader ["internal"]) Sample.corpus 50 none sampleContext none).1 = .ok evidence ∧
        evidence.length = 1 := ⟨_, rfl, rfl⟩
  obtain ⟨result, hresult⟩ := hresult
  obtain ⟨evidence, hevidence, hone⟩ := hevidence
  refine ⟨evidence, hevidence, hone, (own_provenance_iff hresult hevidence).2 ?_⟩
  intro pair hpair i j
  rfl

/-- Between the gate and the read of the document the second version is committed. -/
theorem own_provenance_counterexample :
    ¬∀ (retriever : EvidenceRetriever) (s : MetadataStore) (parents : String → Option RawParent)
      (others : List LifecycleCall) (ctx : SecurityContext) (corpus : CorpusConfig) (authorityLevel : Int)
      (topK : Option Nat) (context : RetrievalContext) (evidence : List Evidence),
      (retriever.retrieveEvidence (fun _ => ⟨s, parents⟩) (fun _ => runCalls s others) ctx corpus
        authorityLevel topK context none).1 = .ok evidence →
      OwnProvenance (fun _ => runCalls s others) evidence := by
  intro h
  have hown := h sampleRetriever published Sample.stores.parents [.commitActiveVersion 2 Sample.doc "v2" 1]
    (Sample.reader ["internal"]) Sample.corpus 50 none sampleContext _ rfl 0 _ rfl
  -- the snapshot of the first version shows the window of the second one
  exact absurd hown (by decide)

end Overtaken

end EvidenceRetriever

end AgenticRag
