import AgenticRag.Evidence.Models
import AgenticRag.Security.Policy
import AgenticRag.Storage.MetadataStore

/-!
# Evidence snapshots

`storage/evidence_store.py`: snapshots are written once, and every read authorizes them
again, against the current document and not against the ACL that was recorded with them.
-/

namespace AgenticRag

inductive EvidenceAccessLevel where
  | full
  | redacted
  | denied
  deriving DecidableEq, Repr

structure EvidenceAccess where
  level : EvidenceAccessLevel
  evidence : Option Evidence
  reason : String
  deriving DecidableEq, Repr

/-- A row of `evidence_snapshots`; the ACL is that of the source at creation time. -/
structure SnapshotRow where
  evidence : Evidence
  sourceAcl : ResourceAcl
  deriving DecidableEq, Repr

/-- A row of `evidence_audit_log`. -/
structure EvidenceAuditRow where
  evidenceId : String
  tenantId : String
  actorUserId : String
  action : String
  reason : String
  deriving DecidableEq, Repr

structure EvidenceSnapshotStore where
  snapshots : List SnapshotRow
  auditLog : List EvidenceAuditRow
  deriving DecidableEq, Repr

def redactEvidence (ev : Evidence) : Evidence := { ev with text := "" }

/-- The current document of a snapshot; it may raise. -/
abbrev CurrentDocumentResolver := DocRef → Except PyError (Option SourceDocument)

/-- The document an evidence was taken from. -/
def Evidence.docRef (ev : Evidence) : DocRef := ⟨ev.tenantId, ev.corpusId, ev.documentId⟩

namespace EvidenceSnapshotStore

variable (store : EvidenceSnapshotStore)

def snapshot (evidenceId : String) : Option SnapshotRow :=
  Table.selectOne (fun row => decide (row.evidence.evidenceId = evidenceId)) store.snapshots

/-- `save`: `INSERT OR IGNORE`. -/
def save (evidence : Evidence) (sourceAcl : ResourceAcl) : EvidenceSnapshotStore :=
  if (store.snapshot evidence.evidenceId).isSome then store
  else { store with snapshots := Table.insert ⟨evidence, sourceAcl⟩ store.snapshots }

def resolveCurrentDocument (resolver : Option CurrentDocumentResolver) (ev : Evidence) :
    Except PyError (Option SourceDocument) :=
  match resolver with
  | none => .ok none
  | some resolve =>
    match resolve ev.docRef with
    | .error e => .error e
    | .ok none => .ok none
    | .ok (some document) =>
      if document.status ≠ .active ∨ document.deprecated = true then .ok none else .ok (some document)

def isAllowedNow (ctx : SecurityContext) (acl : ResourceAcl) (corpusId : String) : Bool :=
  decide (evaluateAccess ctx acl = .allow) && canDiscoverCorpus ctx corpusId

def recordAudit (evidenceId : String) (ctx : SecurityContext) (action reason : String) :
    EvidenceSnapshotStore :=
  { store with auditLog := store.auditLog ++ [⟨evidenceId, ctx.tenantId, ctx.userId, action, reason⟩] }

def get (resolver : Option CurrentDocumentResolver) (evidenceId : String) (ctx : SecurityContext) :
    Except PyError EvidenceAccess × EvidenceSnapshotStore :=
  match store.snapshot evidenceId with
  | none => (.ok ⟨.denied, none, "not_found"⟩, store)
  | some row =>
    if row.evidence.tenantId ≠ ctx.tenantId then (.ok ⟨.denied, none, "cross_tenant"⟩, store)
    else
      match resolveCurrentDocument resolver row.evidence with
      | .error e => (.error e, store)
      | .ok current =>
        if current.any (fun document => isAllowedNow ctx (aclFromDoc document) row.evidence.corpusId) then
          (.ok ⟨.full, some row.evidence, "authorized"⟩, store)
        else if "audit:evidence:read" ∈ ctx.permissions then
          (.ok ⟨.full, some row.evidence, "audit_grant"⟩,
            store.recordAudit evidenceId ctx "audit_read" "audit:evidence:read grant")
        else
          (.ok ⟨.redacted, some (redactEvidence row.evidence),
            if resolver.isNone then "current_policy_unavailable"
            else "source_acl_revoked_or_document_inactive"⟩, store)

theorem isAllowedNow_iff {ctx : SecurityContext} {acl : ResourceAcl} {corpusId : String} :
    isAllowedNow ctx acl corpusId = true ↔
      evaluateAccess ctx acl = .allow ∧ canDiscoverCorpus ctx corpusId = true := by
  simp [isAllowedNow]

variable {store}

/-- Reads do not change the snapshots. -/
theorem get_snapshots (resolver : Option CurrentDocumentResolver) (evidenceId : String) (ctx : SecurityContext) :
    (store.get resolver evidenceId ctx).2.snapshots = store.snapshots := by
  unfold get
  split
  · rfl
  · split
    · rfl
    · split
      · rfl
      · split
        · rfl
        · split <;> rfl

end EvidenceSnapshotStore

end AgenticRag
