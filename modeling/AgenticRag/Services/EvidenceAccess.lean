import AgenticRag.Corpus.Registry
import AgenticRag.Services.ResumeRun
import AgenticRag.Storage.EvidenceStore

/-!
# Access to evidence

Evidence is authorized again on two paths: by the snapshot store when it is read, and by
`reauthorize_evidence` when a run is resumed. When the two agree.
-/

namespace AgenticRag

section Paths

variable (metadata : MetadataStore) (registry : InMemoryCorpusRegistry) (ctx : SecurityContext)

/-- The two operations of `reauthorize_evidence` on a control plane and a registry; it performs
no others. -/
def controlPlane {β : Type} (op : ChatOp β) (s : Unit) : Except ChatError β × Unit :=
  match op with
  | .registryGet corpusId => (registry.get ctx corpusId, s)
  | .getActiveDocument doc =>
    (match metadata.getActiveDocument doc with
      | .ok document => .ok document
      | .error _ => .error (.other "ValidationError" ""), s)
  | _ => (.error (.other "NotImplementedError" ""), s)

/-- `reauthorize_evidence` over a control plane and a registry. -/
def reauthorize (ev : Evidence) : Except ChatError (Bool × String) :=
  ((reauthorizeEvidence ctx ev .empty).exec (controlPlane metadata registry ctx) ()).1.1

/-- `reauthorize_evidence` keeps the evidence. -/
def Reauthorized (ev : Evidence) : Prop := ∃ reason, reauthorize metadata registry ctx ev = .ok (true, reason)

/-- A read of a snapshot returns its body. -/
def ReadsFull (store : EvidenceSnapshotStore) (evidenceId : String) : Prop :=
  ∃ access, (store.get (some metadata.getActiveDocument) evidenceId ctx).1 = .ok access ∧ access.level = .full

/-- The document is active, and its ACL and the corpus list let the caller in. -/
def Lets (ev : Evidence) (active : SourceDocument) : Prop :=
  metadata.getActiveDocument ev.docRef = .ok (some active) ∧ evaluateAccess ctx (aclFromDoc active) = .allow ∧
    canDiscoverCorpus ctx ev.corpusId = true

/-- The corpus of the evidence is registered for the caller's tenant, enabled and searchable. -/
def CorpusOpen (ev : Evidence) : Prop :=
  ∃ corpus ∈ registry.corpora, corpus.corpusId = ev.corpusId ∧ corpus.tenantId = ctx.tenantId ∧
    corpus.enabled = true ∧ corpus.searchable = true

/-- Where the caller is let in, the document is not deprecated exactly if the snapshot is of its
version and the corpus is open. -/
def Concordant (ev : Evidence) : Prop :=
  ∀ active, Lets metadata ctx ev active →
    (active.deprecated = false ↔ ev.documentVersion = active.ref.version ∧ CorpusOpen registry ctx ev)

variable {metadata registry ctx} {ev : Evidence}

theorem reauthorize_eq : reauthorize metadata registry ctx ev =
    match registry.get ctx ev.corpusId with
    | .error _ => .ok (false, "corpus_not_discoverable")
    | .ok _ =>
      match metadata.getActiveDocument ev.docRef with
      | .error _ => .error (.other "ValidationError" "")
      | .ok active => .ok (reauthorizeAgainst ctx ev active) := by
  have hfound : (discoverable ev.corpusId .empty).exec (controlPlane metadata registry ctx) () =
      ((.ok (match registry.get ctx ev.corpusId with | .ok _ => true | .error _ => false), .empty), ()) := by
    simp only [discoverable, Method.tryCatch, Method.perform, Prog.bind, Prog.exec, controlPlane, Bind.bind]
    cases registry.get ctx ev.corpusId <;> rfl
  unfold reauthorize reauthorizeEvidence
  rw [Method.exec_bind, hfound]
  cases registry.get ctx ev.corpusId with
  | error e => rfl
  | ok corpus =>
    have href : (⟨ev.tenantId, ev.corpusId, ev.documentId⟩ : DocRef) = ev.docRef := rfl
    simp only [Bool.true_eq_false, if_false, href]
    cases hactive : metadata.getActiveDocument ev.docRef with
    | error e => simp [Method.perform, Prog.bind, Prog.exec, controlPlane, hactive, Bind.bind]
    | ok active => simp [Method.perform, Prog.bind, Prog.exec, controlPlane, hactive, Bind.bind, Pure.pure]

/-- The last checks on the active document. -/
theorem reauthorizeAgainst_iff {active : Option SourceDocument} :
    (reauthorizeAgainst ctx ev active).1 = true ↔ ∃ document, active = some document ∧
      ev.documentVersion = document.ref.version ∧ evaluateAccess ctx (aclFromDoc document) = .allow ∧
      canDiscoverCorpus ctx ev.corpusId = true := by
  cases active with
  | none => simp [reauthorizeAgainst]
  | some document =>
    simp only [reauthorizeAgainst, Option.some.injEq, exists_eq_left']
    by_cases hversion : ev.documentVersion = document.ref.version
    · by_cases hallowed : evaluateAccess ctx (aclFromDoc document) = .allow
      · cases canDiscoverCorpus ctx ev.corpusId <;> simp [hversion, hallowed]
      · simp [hversion, hallowed]
    · simp [hversion]

/-- The registry returns the corpus to a caller who may discover it exactly if it is open. -/
theorem corpusOpen_iff (hdiscovers : canDiscoverCorpus ctx ev.corpusId = true) :
    CorpusOpen registry ctx ev ↔ ∃ corpus, registry.get ctx ev.corpusId = .ok corpus := by
  simp only [InMemoryCorpusRegistry.get_ok_iff]
  constructor
  · rintro ⟨corpus, hmem, hid, htenant, henabled, hsearchable⟩
    exact ⟨corpus, hid ▸ InMemoryCorpusRegistry.find_of_mem hmem, htenant, henabled, hsearchable, hdiscovers⟩
  · rintro ⟨corpus, hfind, htenant, henabled, hsearchable, -⟩
    obtain ⟨hmem, hid⟩ := InMemoryCorpusRegistry.find_some hfind
    exact ⟨corpus, hmem, hid, htenant, henabled, hsearchable⟩

/-- What `reauthorize_evidence` asks for. -/
theorem reauthorized_iff : Reauthorized metadata registry ctx ev ↔
    ∃ active, Lets metadata ctx ev active ∧ ev.documentVersion = active.ref.version ∧
      CorpusOpen registry ctx ev := by
  unfold Reauthorized
  rw [reauthorize_eq]
  constructor
  · rintro ⟨reason, h⟩
    cases hcorpus : registry.get ctx ev.corpusId with
    | error e => simp [hcorpus] at h
    | ok corpus =>
      cases hactive : metadata.getActiveDocument ev.docRef with
      | error e => simp [hcorpus, hactive] at h
      | ok active =>
        simp only [hcorpus, hactive, Except.ok.injEq] at h
        obtain ⟨document, rfl, hversion, hallowed, hdiscovers⟩ :=
          reauthorizeAgainst_iff.mp (congrArg Prod.fst h)
        exact ⟨document, ⟨hactive, hallowed, hdiscovers⟩, hversion,
          (corpusOpen_iff hdiscovers).mpr ⟨corpus, hcorpus⟩⟩
  · rintro ⟨active, ⟨hactive, hallowed, hdiscovers⟩, hversion, hopen⟩
    obtain ⟨corpus, hcorpus⟩ := (corpusOpen_iff hdiscovers).mp hopen
    have hkept : (reauthorizeAgainst ctx ev (some active)).1 = true :=
      reauthorizeAgainst_iff.mpr ⟨active, rfl, hversion, hallowed, hdiscovers⟩
    refine ⟨(reauthorizeAgainst ctx ev (some active)).2, ?_⟩
    rw [hcorpus, hactive, ← hkept]

/-- The active document that is found has the status of an active one. -/
theorem getActiveDocument_active {doc : DocRef} {active : SourceDocument}
    (h : metadata.getActiveDocument doc = .ok (some active)) : active.status = .active := by
  unfold MetadataStore.getActiveDocument MetadataStore.readDocument at h
  cases hrow : Table.selectOne (MetadataStore.activeOf doc) metadata.documents with
  | none => simp [hrow] at h
  | some row =>
    have hactive := (Table.selectOne_some hrow).2
    simp only [MetadataStore.activeOf, Bool.and_eq_true, decide_eq_true_eq] at hactive
    simp only [hrow, MetadataStore.rowToDocument] at h
    split at h
    · obtain rfl := Option.some.inj (Except.ok.inj h)
      exact hactive.2
    · cases h

/-- What a read of a snapshot in full asks for. -/
theorem readsFull_iff {store : EvidenceSnapshotStore} {evidenceId : String} {row : SnapshotRow}
    (hrow : store.snapshot evidenceId = some row) (htenant : row.evidence.tenantId = ctx.tenantId)
    (haudit : "audit:evidence:read" ∉ ctx.permissions) :
    ReadsFull metadata ctx store evidenceId ↔
      ∃ active, Lets metadata ctx row.evidence active ∧ active.deprecated = false := by
  unfold ReadsFull EvidenceSnapshotStore.get
  simp only [hrow, htenant, ne_eq, not_true_eq_false, if_false, haudit,
    EvidenceSnapshotStore.resolveCurrentDocument]
  cases hactive : metadata.getActiveDocument row.evidence.docRef with
  | error e => simp [Lets, hactive]
  | ok found =>
    cases found with
    | none => simp [Lets, hactive]
    | some active =>
      have hstatus := getActiveDocument_active hactive
      cases hdeprecated : active.deprecated with
      | true => simp [Lets, hactive, hdeprecated]
      | false =>
        have hlets : Lets metadata ctx row.evidence active ↔
            EvidenceSnapshotStore.isAllowedNow ctx (aclFromDoc active) row.evidence.corpusId = true := by
          rw [EvidenceSnapshotStore.isAllowedNow_iff, Lets, hactive]
          simp
        have hone : (∃ other, Lets metadata ctx row.evidence other ∧ other.deprecated = false) ↔
            Lets metadata ctx row.evidence active := by
          constructor
          · rintro ⟨other, hother, -⟩
            obtain rfl : active = other := Option.some.inj (Except.ok.inj (hactive.symm.trans hother.1))
            exact hother
          · exact fun h => ⟨active, h, hdeprecated⟩
        rw [hone, hlets]
        cases hallowed : EvidenceSnapshotStore.isAllowedNow ctx (aclFromDoc active) row.evidence.corpusId <;>
          simp [hdeprecated, hstatus, hallowed]

/-- The two paths agree on a snapshot exactly if its document, version and corpus concord. The snapshot is
stored for the tenant of the caller, and the caller is no auditor: auditors read without authorization,
and nothing is read across tenants. -/
theorem readsFull_iff_reauthorized_iff {store : EvidenceSnapshotStore} {evidenceId : String} {row : SnapshotRow}
    (hrow : store.snapshot evidenceId = some row) (htenant : row.evidence.tenantId = ctx.tenantId)
    (haudit : "audit:evidence:read" ∉ ctx.permissions) :
    (ReadsFull metadata ctx store evidenceId ↔ Reauthorized metadata registry ctx row.evidence) ↔
      Concordant metadata registry ctx row.evidence := by
  rw [readsFull_iff hrow htenant haudit, reauthorized_iff]
  constructor
  · intro h active hlets
    have hsame : ∀ other, Lets metadata ctx row.evidence other → other = active := fun other hother =>
      Option.some.inj (Except.ok.inj (hother.1.symm.trans hlets.1))
    constructor
    · intro hcurrent
      obtain ⟨other, hother, hversion, hopen⟩ := h.mp ⟨active, hlets, hcurrent⟩
      obtain rfl := hsame other hother
      exact ⟨hversion, hopen⟩
    · rintro ⟨hversion, hopen⟩
      obtain ⟨other, hother, hcurrent⟩ := h.mpr ⟨active, hlets, hversion, hopen⟩
      obtain rfl := hsame other hother
      exact hcurrent
  · intro h
    constructor
    · rintro ⟨active, hlets, hcurrent⟩
      obtain ⟨hversion, hopen⟩ := (h active hlets).mp hcurrent
      exact ⟨active, hlets, hversion, hopen⟩
    · rintro ⟨active, hlets, hversion, hopen⟩
      exact ⟨active, hlets, (h active hlets).mpr ⟨hversion, hopen⟩⟩

end Paths

namespace EvidenceAccess.Sample

def acl : AclFields := ⟨"internal", .tenant, [], [], [], []⟩

def columns : DocumentColumns where
  ref := ⟨⟨"acme", "policies", "travel"⟩, "v2"⟩
  source := ⟨"uri", "upload", none, "Travel", "travel.md", "text/markdown", "p", "md", "1", "1", "m", "1", 50⟩
  contentHash := "h2"
  status := .active
  effectiveFrom := none
  effectiveTo := none
  deprecated := false
  acl := acl
  indexedAt := some 1
  deletedAt := none

/-- The second version of a document is active. -/
def metadata : MetadataStore := ⟨[⟨columns, 2⟩], [], [], [], [], []⟩

def active : SourceDocument := ⟨columns, by decide⟩

def registry : InMemoryCorpusRegistry := .ofCorpora [⟨"policies", "acme", none, true, true⟩]

def caller : SecurityContext := ⟨"r", "s", "acme", "ann", [], [], ["internal"], none, "1", false, []⟩

def evidence (version : String) : Evidence :=
  ⟨"e", "acme", "policies", "travel", version, "uri", "travel.md", none, [], "text", "hash", 50, none, none, false,
    ⟨0, none⟩, "p", "1"⟩

def store (version : String) : EvidenceSnapshotStore := ⟨[⟨evidence version, ⟨acl, "acme"⟩⟩], []⟩

theorem lets_active (version : String) : Lets metadata caller (evidence version) active :=
  ⟨rfl, by decide, rfl⟩

end EvidenceAccess.Sample

theorem readsFull_iff_reauthorized_sample :
    ReadsFull EvidenceAccess.Sample.metadata EvidenceAccess.Sample.caller (EvidenceAccess.Sample.store "v2") "e" ↔
      Reauthorized EvidenceAccess.Sample.metadata EvidenceAccess.Sample.registry EvidenceAccess.Sample.caller
        (EvidenceAccess.Sample.evidence "v2") := by
  have hrow : (EvidenceAccess.Sample.store "v2").snapshot "e" =
      some ⟨EvidenceAccess.Sample.evidence "v2", ⟨EvidenceAccess.Sample.acl, "acme"⟩⟩ := rfl
  have haudit : "audit:evidence:read" ∉ EvidenceAccess.Sample.caller.permissions := by
    simp [EvidenceAccess.Sample.caller]
  refine (readsFull_iff_reauthorized_iff hrow rfl haudit).mpr fun active hactive => ?_
  obtain rfl : EvidenceAccess.Sample.active = active :=
    Option.some.inj (Except.ok.inj ((EvidenceAccess.Sample.lets_active "v2").1.symm.trans hactive.1))
  exact ⟨fun _ => ⟨rfl, ⟨"policies", "acme", none, true, true⟩, by decide, rfl, rfl, rfl, rfl⟩, fun _ => rfl⟩

/-- A snapshot of a superseded version is read in full on one path and dropped on the other. -/
theorem readsFull_iff_reauthorized_counterexample :
    ¬∀ (metadata : MetadataStore) (registry : InMemoryCorpusRegistry) (ctx : SecurityContext)
      (store : EvidenceSnapshotStore) (evidenceId : String) (row : SnapshotRow),
      store.snapshot evidenceId = some row → row.evidence.tenantId = ctx.tenantId →
      "audit:evidence:read" ∉ ctx.permissions →
      (ReadsFull metadata ctx store evidenceId ↔ Reauthorized metadata registry ctx row.evidence) := by
  intro h
  have hrow : (EvidenceAccess.Sample.store "v1").snapshot "e" =
      some ⟨EvidenceAccess.Sample.evidence "v1", ⟨EvidenceAccess.Sample.acl, "acme"⟩⟩ := rfl
  have haudit : "audit:evidence:read" ∉ EvidenceAccess.Sample.caller.permissions := by
    simp [EvidenceAccess.Sample.caller]
  have hfull : ReadsFull EvidenceAccess.Sample.metadata EvidenceAccess.Sample.caller
      (EvidenceAccess.Sample.store "v1") "e" :=
    (readsFull_iff hrow rfl haudit).mpr ⟨EvidenceAccess.Sample.active, EvidenceAccess.Sample.lets_active "v1", rfl⟩
  obtain ⟨active, hactive, hversion, -⟩ := reauthorized_iff.mp
    ((h _ EvidenceAccess.Sample.registry _ _ _ _ hrow rfl haudit).mp hfull)
  obtain rfl : EvidenceAccess.Sample.active = active :=
    Option.some.inj (Except.ok.inj ((EvidenceAccess.Sample.lets_active "v1").1.symm.trans hactive.1))
  exact absurd hversion (by decide)

end AgenticRag
