import Mathlib.Tactic

/-!
# Domain records

Identities, lifecycle states and access attributes shared by the control plane
(`documents`, `ingestion_jobs`, `document_builds`, `chunks`) and the two data
planes (Qdrant points and the Parent Store). The four identity columns are kept
together: `DocRef` is `(tenant_id, corpus_id, document_id)` and `VersionRef` adds
the version.
-/

namespace AgenticRag

/-- A point on the UTC clock, in microseconds. -/
abbrev Timestamp := Nat

/-- `timedelta(seconds=n)`. -/
def seconds (n : Int) : Int := n * 1000000

/-- `(tenant_id, corpus_id, document_id)`. -/
structure DocRef where
  tenantId : String
  corpusId : String
  documentId : String
  deriving DecidableEq, Repr

/-- `(tenant_id, corpus_id, document_id, document_version)`, the build identity. -/
structure VersionRef where
  doc : DocRef
  version : String
  deriving DecidableEq, Repr

inductive DocumentStatus where
  | discovered
  | processing
  | active
  | failed
  | deprecated
  | deleted
  deriving DecidableEq, Repr

inductive JobStatus where
  | queued
  | running
  | succeeded
  | failed
  | cancelling
  | cancelled
  deriving DecidableEq, Repr

/-- The statuses in which a job still owns its build. -/
def JobStatus.inFlight : JobStatus → Bool
  | .running | .queued | .cancelling => true
  | .succeeded | .failed | .cancelled => false

/-- The own vocabulary of `document_builds.status`. -/
inductive LeaseStatus where
  | running
  | done
  | failed
  deriving DecidableEq, Repr

/-- `status` of a point payload or of a parent's metadata: a free string, of
which these values are written by the code. -/
inductive PayloadStatus where
  | processing
  | active
  | inactive
  | deprecated
  | deleted
  | other (text : String)
  deriving DecidableEq, Repr

inductive AclScope where
  | tenant
  | restricted
  deriving DecidableEq, Repr

/-- The six access attributes that are copied from store to store
(`acl_fields`). -/
structure AclFields where
  securityLevel : String
  aclScope : AclScope
  allowedUserIds : List String
  allowedGroupIds : List String
  deniedUserIds : List String
  deniedGroupIds : List String
  deriving DecidableEq, Repr

structure ResourceAcl extends AclFields where
  tenantId : String
  deriving DecidableEq, Repr

structure SecurityContext where
  requestId : String
  sessionId : String
  tenantId : String
  userId : String
  roles : List String
  groups : List String
  allowedSecurityLevels : List String
  allowedCorpusIds : Option (List String)
  policyVersion : String
  isAdmin : Bool
  permissions : List String
  deriving DecidableEq, Repr

/-- Source and pipeline attributes a request hands to its document row. -/
structure SourceMeta where
  sourceUri : String
  sourceConnector : String
  sourceNativeId : Option String
  title : String
  sourceFilename : String
  mimeType : String
  aclPolicyId : String
  parserName : String
  parserVersion : String
  chunkingVersion : String
  embeddingModel : String
  embeddingVersion : String
  authorityLevel : Int
  deriving DecidableEq, Repr

/-- The columns a `documents` row shares with `SourceDocument`. -/
structure DocumentColumns where
  ref : VersionRef
  source : SourceMeta
  contentHash : String
  status : DocumentStatus
  effectiveFrom : Option Timestamp
  effectiveTo : Option Timestamp
  deprecated : Bool
  acl : AclFields
  indexedAt : Option Timestamp
  deletedAt : Option Timestamp
  deriving DecidableEq, Repr

/-- The validators of `SourceDocument`: authority bounds, effective ordering, and
the timestamps an active or deleted document must carry. -/
def DocumentColumns.Valid (columns : DocumentColumns) : Prop :=
  (0 ≤ columns.source.authorityLevel ∧ columns.source.authorityLevel ≤ 100) ∧
  (∀ upper ∈ columns.effectiveTo, ∀ lower ∈ columns.effectiveFrom, lower ≤ upper) ∧
  (columns.status = .active → columns.indexedAt ≠ none) ∧
  (columns.status = .deleted → columns.deletedAt ≠ none)

instance (columns : DocumentColumns) : Decidable columns.Valid :=
  inferInstanceAs (Decidable ((_ ∧ _) ∧ _ ∧ _ ∧ _))

/-- `SourceDocument`: columns that passed every validator. -/
structure SourceDocument extends DocumentColumns where
  valid : toDocumentColumns.Valid

inductive ChunkType where
  | parent
  | child
  deriving DecidableEq, Repr

/-- A row of the `chunks` table. -/
structure ChunkRecord where
  chunkId : String
  ref : VersionRef
  parentId : Option String
  chunkType : ChunkType
  sectionPath : List String
  content : String
  contentHash : String
  authorityLevel : Int
  aclPolicyId : String
  acl : AclFields
  deriving DecidableEq, Repr

/-- What the chunker returns for a parent section. -/
structure ParentDraft where
  parentId : String
  ref : VersionRef
  text : String
  sectionPath : List String
  deriving DecidableEq, Repr

structure ChildChunk where
  childId : String
  parentId : String
  ref : VersionRef
  text : String
  sectionPath : List String
  deriving DecidableEq, Repr

/-- The part of a stored parent's metadata that authorization reads. -/
structure ParentMetadata where
  status : PayloadStatus
  deprecated : Bool
  acl : AclFields
  deriving DecidableEq, Repr

/-- A parent as the Parent Store holds it. -/
structure ParentChunk extends ParentDraft where
  metadata : ParentMetadata
  deriving DecidableEq, Repr

end AgenticRag
