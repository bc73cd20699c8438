import AgenticRag.Domain

/-!
# The policy decision point

`security/policy.py`: the access truth table, the write authorization derived
from it and the order of ACLs by restrictiveness.
-/

namespace AgenticRag

inductive AuthorizationDecision where
  | allow
  | deny
  deriving DecidableEq, Repr

/-- `set(xs) & set(ys)` is not empty. -/
def intersects (xs ys : List String) : Bool :=
  xs.any fun x => decide (x ∈ ys)

/-- `evaluate_access`: tenant boundary, deny lists, security level, scope. -/
def evaluateAccess (ctx : SecurityContext) (acl : ResourceAcl) : AuthorizationDecision :=
  if ctx.tenantId ≠ acl.tenantId then .deny
  else if ctx.userId ∈ acl.deniedUserIds then .deny
  else if intersects ctx.groups acl.deniedGroupIds then .deny
  else if acl.securityLevel ∉ ctx.allowedSecurityLevels then .deny
  else if acl.aclScope = .tenant then .allow
  else if ctx.userId ∈ acl.allowedUserIds then .allow
  else if intersects ctx.groups acl.allowedGroupIds then .allow
  else .deny

def canDiscoverCorpus (ctx : SecurityContext) (corpusId : String) : Bool :=
  match ctx.allowedCorpusIds with
  | none => true
  | some corpora => decide (corpusId ∈ corpora)

def aclFromDoc (document : SourceDocument) : ResourceAcl :=
  { document.acl with tenantId := document.ref.doc.tenantId }

/-- `can_manage_document`: a reader who also owns the document or is an admin. -/
def canManageDocument (ctx : SecurityContext) (document : SourceDocument) : Bool :=
  if ctx.tenantId ≠ document.ref.doc.tenantId then false
  else if !canDiscoverCorpus ctx document.ref.doc.corpusId then false
  else if evaluateAccess ctx (aclFromDoc document) ≠ .allow then false
  else
    ctx.isAdmin || decide (ctx.userId ∈ document.acl.allowedUserIds) ||
      intersects ctx.groups document.acl.allowedGroupIds

/-- `_security_level_rank`: unknown levels are the most restrictive. -/
def securityLevelRank : String → Nat
  | "public" => 0
  | "internal" => 1
  | "secret" => 2
  | _ => 3

def isAclTightening (old new : ResourceAcl) : Bool :=
  if new.aclScope = .tenant ∧ old.aclScope = .restricted then false
  else if securityLevelRank new.securityLevel < securityLevelRank old.securityLevel then false
  else
    new.allowedUserIds.all (fun id => decide (id ∈ old.allowedUserIds)) &&
      new.allowedGroupIds.all (fun id => decide (id ∈ old.allowedGroupIds)) &&
      old.deniedUserIds.all (fun id => decide (id ∈ new.deniedUserIds)) &&
      old.deniedGroupIds.all (fun id => decide (id ∈ new.deniedGroupIds))

end AgenticRag
