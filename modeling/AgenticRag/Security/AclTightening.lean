import AgenticRag.Security.AccessFilter

/-!
# What a tightening may grant

`is_acl_tightening` compares security levels by rank, while the access truth table asks
whether the level is one of the caller's. The two agree for a caller that holds the old
level; one that holds only the new level is let in by the change. Everything else the
test compares is monotone in the truth table.
-/

namespace AgenticRag

/-- The relation `is_acl_tightening` tests. -/
structure Tightens (old new : ResourceAcl) : Prop where
  scope : new.aclScope = .tenant → old.aclScope = .tenant
  rank : securityLevelRank old.securityLevel ≤ securityLevelRank new.securityLevel
  allowedUsers : ∀ id ∈ new.allowedUserIds, id ∈ old.allowedUserIds
  allowedGroups : ∀ id ∈ new.allowedGroupIds, id ∈ old.allowedGroupIds
  deniedUsers : ∀ id ∈ old.deniedUserIds, id ∈ new.deniedUserIds
  deniedGroups : ∀ id ∈ old.deniedGroupIds, id ∈ new.deniedGroupIds

theorem isAclTightening_iff {old new : ResourceAcl} :
    isAclTightening old new = true ↔ Tightens old new := by
  have hscope : ¬(new.aclScope = .tenant ∧ old.aclScope = .restricted) ↔
      (new.aclScope = .tenant → old.aclScope = .tenant) := by
    cases new.aclScope <;> cases old.aclScope <;> simp
  unfold isAclTightening
  constructor
  · intro h
    split_ifs at h with hwider hlower
    simp only [Bool.and_eq_true, List.all_eq_true, decide_eq_true_eq] at h
    obtain ⟨⟨⟨husers, hgroups⟩, hdeniedUsers⟩, hdeniedGroups⟩ := h
    exact ⟨hscope.mp hwider, Nat.le_of_not_lt hlower, husers, hgroups, hdeniedUsers, hdeniedGroups⟩
  · intro h
    rw [if_neg (hscope.mpr h.scope), if_neg (Nat.not_lt.mpr h.rank)]
    simp only [Bool.and_eq_true, List.all_eq_true, decide_eq_true_eq]
    exact ⟨⟨⟨h.allowedUsers, h.allowedGroups⟩, h.deniedUsers⟩, h.deniedGroups⟩

/-- The caller passes every condition of the truth table but the security level. -/
structure Admitted (ctx : SecurityContext) (acl : ResourceAcl) : Prop where
  tenant : acl.tenantId = ctx.tenantId
  user : ctx.userId ∉ acl.deniedUserIds
  groups : ¬∃ group ∈ ctx.groups, group ∈ acl.deniedGroupIds
  scope : acl.aclScope = .tenant ∨ ctx.userId ∈ acl.allowedUserIds ∨
    ∃ group ∈ ctx.groups, group ∈ acl.allowedGroupIds

/-- The caller is named in the allow lists. -/
def Owns (ctx : SecurityContext) (acl : AclFields) : Prop :=
  ctx.userId ∈ acl.allowedUserIds ∨ ∃ group ∈ ctx.groups, group ∈ acl.allowedGroupIds

/-- The document under other access attributes. -/
def SourceDocument.withAcl (document : SourceDocument) (acl : ResourceAcl) : SourceDocument :=
  { document with acl := acl.toAclFields }

section Monotone

variable {ctx : SecurityContext} {old new : ResourceAcl}

theorem evaluateAccess_allow_iff_admitted {acl : ResourceAcl} : evaluateAccess ctx acl = .allow ↔
    Admitted ctx acl ∧ acl.securityLevel ∈ ctx.allowedSecurityLevels := by
  rw [evaluateAccess_allow_iff]
  constructor
  · rintro ⟨htenant, ⟨huser, hgroups⟩, hlevel, hscope⟩
    exact ⟨⟨htenant, huser, hgroups, hscope⟩, hlevel⟩
  · rintro ⟨hadmitted, hlevel⟩
    exact ⟨hadmitted.tenant, ⟨hadmitted.user, hadmitted.groups⟩, hlevel, hadmitted.scope⟩

theorem Tightens.owns (h : Tightens old new) (hnew : Owns ctx new.toAclFields) :
    Owns ctx old.toAclFields := by
  obtain huser | ⟨group, hgroup, hallowed⟩ := hnew
  · exact .inl (h.allowedUsers _ huser)
  · exact .inr ⟨group, hgroup, h.allowedGroups _ hallowed⟩

/-- Whom the new ACL lets pass, the old one does, security levels aside. -/
theorem Tightens.admitted (h : Tightens old new) (htenant : new.tenantId = old.tenantId)
    (hnew : Admitted ctx new) : Admitted ctx old where
  tenant := htenant.symm.trans hnew.tenant
  user hdenied := hnew.user (h.deniedUsers _ hdenied)
  groups := by
    rintro ⟨group, hgroup, hdenied⟩
    exact hnew.groups ⟨group, hgroup, h.deniedGroups _ hdenied⟩
  scope := by
    obtain hscope | howns := hnew.scope
    · exact .inl (h.scope hscope)
    · exact .inr (h.owns howns)

theorem canManageDocument_iff {document : SourceDocument} : canManageDocument ctx document = true ↔
    canDiscoverCorpus ctx document.ref.doc.corpusId = true ∧
      evaluateAccess ctx (aclFromDoc document) = .allow ∧
      (ctx.isAdmin = true ∨ Owns ctx document.acl) := by
  unfold canManageDocument Owns
  rw [← intersects_iff]
  constructor
  · intro h
    split_ifs at h with htenant hcorpus hread
    simp only [Bool.or_eq_true, decide_eq_true_eq, or_assoc] at h
    exact ⟨by simpa using hcorpus, by simpa using hread, h⟩
  · rintro ⟨hcorpus, hread, howner⟩
    have htenant : document.ref.doc.tenantId = ctx.tenantId := (evaluateAccess_allow_iff.mp hread).1
    simp only [htenant, hcorpus, hread, ne_eq, not_true_eq_false, if_false, Bool.not_true,
      Bool.false_eq_true, Bool.or_eq_true, decide_eq_true_eq, or_assoc]
    exact howner

theorem aclFromDoc_withAcl {document : SourceDocument} {acl : ResourceAcl}
    (h : document.ref.doc.tenantId = acl.tenantId) : aclFromDoc (document.withAcl acl) = acl := by
  unfold aclFromDoc SourceDocument.withAcl
  simp only [h]

/-- Write authorization follows read access. -/
theorem Tightens.canManageDocument (h : Tightens old new) (htenant : new.tenantId = old.tenantId)
    (hread : evaluateAccess ctx new = .allow → evaluateAccess ctx old = .allow)
    {document : SourceDocument} (hdocument : document.ref.doc.tenantId = old.tenantId)
    (hnew : canManageDocument ctx (document.withAcl new) = true) :
    canManageDocument ctx (document.withAcl old) = true := by
  rw [canManageDocument_iff] at hnew ⊢
  rw [aclFromDoc_withAcl hdocument]
  rw [aclFromDoc_withAcl (hdocument.trans htenant.symm)] at hnew
  obtain ⟨hcorpus, hallow, howner⟩ := hnew
  exact ⟨hcorpus, hread hallow, howner.imp_right h.owns⟩

/-- An accepted tightening grants neither read access nor the right to manage exactly when the caller holds
the old security level, or is not let in by the new ACL either. Both ACLs are of the document's tenant,
which a tightening does not write. -/
theorem tightening_grants_nothing_iff (ctx : SecurityContext) (old new : ResourceAcl)
    (htenant : new.tenantId = old.tenantId) (h : isAclTightening old new = true) :
    ((evaluateAccess ctx new = .allow → evaluateAccess ctx old = .allow) ∧
      ∀ document : SourceDocument, document.ref.doc.tenantId = old.tenantId →
        canManageDocument ctx (document.withAcl new) = true →
        canManageDocument ctx (document.withAcl old) = true) ↔
      (Admitted ctx new → new.securityLevel ∈ ctx.allowedSecurityLevels →
        old.securityLevel ∈ ctx.allowedSecurityLevels) := by
  have htightens := isAclTightening_iff.mp h
  constructor
  · rintro ⟨hread, -⟩ hadmitted hlevel
    have hold := hread (evaluateAccess_allow_iff_admitted.mpr ⟨hadmitted, hlevel⟩)
    exact (evaluateAccess_allow_iff_admitted.mp hold).2
  · intro hlevels
    have hread : evaluateAccess ctx new = .allow → evaluateAccess ctx old = .allow := by
      intro hnew
      obtain ⟨hadmitted, hlevel⟩ := evaluateAccess_allow_iff_admitted.mp hnew
      exact evaluateAccess_allow_iff_admitted.mpr
        ⟨htightens.admitted htenant hadmitted, hlevels hadmitted hlevel⟩
    exact ⟨hread, fun document hdocument => htightens.canManageDocument htenant hread hdocument⟩

end Monotone

namespace Sample

def openTo (securityLevel : String) : ResourceAcl where
  tenantId := "acme"
  securityLevel := securityLevel
  aclScope := .tenant
  allowedUserIds := []
  allowedGroupIds := []
  deniedUserIds := []
  deniedGroupIds := []

end Sample

open Sample in
/-- For a reader of both levels raising the level grants nothing. -/
theorem tightening_grants_nothing_secret :
    evaluateAccess (reader ["public", "secret"]) (openTo "secret") = .allow ∧
      evaluateAccess (reader ["public", "secret"]) (openTo "public") = .allow := by
  have hread := ((tightening_grants_nothing_iff (reader ["public", "secret"]) (openTo "public")
    (openTo "secret") rfl (by decide)).mpr fun _ _ => by decide).1
  have hnew : evaluateAccess (reader ["public", "secret"]) (openTo "secret") = .allow := by decide
  exact ⟨hnew, hread hnew⟩

open Sample in
/-- Raising the level from public to secret lets in a reader who holds only the latter. -/
theorem tightening_grants_counterexample :
    ¬∀ (ctx : SecurityContext) (old new : ResourceAcl), new.tenantId = old.tenantId →
      isAclTightening old new = true → evaluateAccess ctx new = .allow →
      evaluateAccess ctx old = .allow := by
  intro h
  have hallow := h (reader ["secret"]) (openTo "public") (openTo "secret") rfl (by decide) (by decide)
  simp [evaluateAccess, openTo, reader, intersects] at hallow

end AgenticRag
