import AgenticRag.Foundations.PayloadFilter
import AgenticRag.Security.Policy

/-!
# The policy enforcement point

`security/filter.py`: the Qdrant filter derived from the access truth table, and its
projection for a resource that is already loaded.
-/

namespace AgenticRag

/-- `EmptyAuthorizationScopeError`. -/
inductive EmptyAuthorizationScope where
  | noAllowedSecurityLevels
  deriving DecidableEq, Repr

/-- The group branch of a clause, left out without groups. -/
def groupBranch (groups : List String) (key : String) : List FieldCondition :=
  if groups = [] then [] else [⟨key, .any groups⟩]

def scopeConditions (ctx : SecurityContext) : List FieldCondition :=
  [⟨"acl_scope", .value (.str "tenant")⟩, ⟨"allowed_user_ids", .any [ctx.userId]⟩] ++
    groupBranch ctx.groups "allowed_group_ids"

def buildAccessFilter (ctx : SecurityContext) (corpusId : String) :
    Except EmptyAuthorizationScope (Filter Condition) :=
  if ctx.allowedSecurityLevels = [] then
    .error .noAllowedSecurityLevels
  else
    .ok
      { must :=
          [.field ⟨"tenant_id", .value (.str ctx.tenantId)⟩,
            .field ⟨"corpus_id", .value (.str corpusId)⟩,
            .field ⟨"status", .value (.str "active")⟩,
            .field ⟨"deprecated", .value (.bool false)⟩,
            .field ⟨"security_level", .any ctx.allowedSecurityLevels⟩,
            .clause ⟨[], scopeConditions ctx, []⟩]
        should := []
        mustNot :=
          (⟨"denied_user_ids", .any [ctx.userId]⟩ :: groupBranch ctx.groups "denied_group_ids").map
            .field }

def resourcePassesFilter (ctx : SecurityContext) (acl : ResourceAcl) (status : String)
    (deprecated : Bool) : Bool :=
  if status ≠ "active" ∨ deprecated then false else decide (evaluateAccess ctx acl = .allow)

/-- `as_acl_scope`: whatever is not `"tenant"` is the stricter scope. -/
def asAclScope (value : Json) : AclScope :=
  if value = .str "tenant" then .tenant else .restricted

/-- The fields of a payload the filter looks at, well typed. -/
structure AccessFields where
  tenantId : String
  corpusId : String
  status : String
  deprecated : Bool
  securityLevel : String
  aclScope : String
  allowedUserIds : List String
  allowedGroupIds : List String
  deniedUserIds : List String
  deniedGroupIds : List String
  deriving DecidableEq, Repr

namespace AccessFields

/-- The payload holds these fields. -/
structure In (fields : AccessFields) (payload : Payload) : Prop where
  tenantId : payload "tenant_id" = some (.str fields.tenantId)
  corpusId : payload "corpus_id" = some (.str fields.corpusId)
  status : payload "status" = some (.str fields.status)
  deprecated : payload "deprecated" = some (.bool fields.deprecated)
  securityLevel : payload "security_level" = some (.str fields.securityLevel)
  aclScope : payload "acl_scope" = some (.str fields.aclScope)
  allowedUserIds : payload "allowed_user_ids" = some (.strings fields.allowedUserIds)
  allowedGroupIds : payload "allowed_group_ids" = some (.strings fields.allowedGroupIds)
  deniedUserIds : payload "denied_user_ids" = some (.strings fields.deniedUserIds)
  deniedGroupIds : payload "denied_group_ids" = some (.strings fields.deniedGroupIds)

/-- A payload with these fields over other ones. -/
def write (fields : AccessFields) (rest : Payload) : Payload
  | "tenant_id" => some (.str fields.tenantId)
  | "corpus_id" => some (.str fields.corpusId)
  | "status" => some (.str fields.status)
  | "deprecated" => some (.bool fields.deprecated)
  | "security_level" => some (.str fields.securityLevel)
  | "acl_scope" => some (.str fields.aclScope)
  | "allowed_user_ids" => some (.strings fields.allowedUserIds)
  | "allowed_group_ids" => some (.strings fields.allowedGroupIds)
  | "denied_user_ids" => some (.strings fields.deniedUserIds)
  | "denied_group_ids" => some (.strings fields.deniedGroupIds)
  | key => rest key

theorem write_in (fields : AccessFields) (rest : Payload) : fields.In (fields.write rest) :=
  ⟨rfl, rfl, rfl, rfl, rfl, rfl, rfl, rfl, rfl, rfl⟩

def acl (fields : AccessFields) : ResourceAcl where
  tenantId := fields.tenantId
  securityLevel := fields.securityLevel
  aclScope := asAclScope (.str fields.aclScope)
  allowedUserIds := fields.allowedUserIds
  allowedGroupIds := fields.allowedGroupIds
  deniedUserIds := fields.deniedUserIds
  deniedGroupIds := fields.deniedGroupIds

end AccessFields

section TruthTable

variable {ctx : SecurityContext} {acl : ResourceAcl}

theorem intersects_iff {xs ys : List String} : intersects xs ys = true ↔ ∃ x ∈ xs, x ∈ ys := by
  simp only [intersects, List.any_eq_true, decide_eq_true_eq]

/-- The truth table as one condition. -/
theorem evaluateAccess_allow_iff : evaluateAccess ctx acl = .allow ↔
    acl.tenantId = ctx.tenantId ∧
    (ctx.userId ∉ acl.deniedUserIds ∧ ¬∃ group ∈ ctx.groups, group ∈ acl.deniedGroupIds) ∧
    acl.securityLevel ∈ ctx.allowedSecurityLevels ∧
    (acl.aclScope = .tenant ∨ ctx.userId ∈ acl.allowedUserIds ∨
      ∃ group ∈ ctx.groups, group ∈ acl.allowedGroupIds) := by
  unfold evaluateAccess
  rw [← intersects_iff, ← intersects_iff]
  by_cases htenant : ctx.tenantId = acl.tenantId
  · have htenant' : acl.tenantId = ctx.tenantId := htenant.symm
    simp only [ne_eq, htenant, not_true_eq_false, if_false, true_and]
    split_ifs <;> simp_all
  · have htenant' : acl.tenantId ≠ ctx.tenantId := fun h => htenant h.symm
    simp [htenant, htenant']

theorem resourcePassesFilter_iff {status : String} {deprecated : Bool} :
    resourcePassesFilter ctx acl status deprecated = true ↔
      status = "active" ∧ deprecated = false ∧ evaluateAccess ctx acl = .allow := by
  unfold resourcePassesFilter
  by_cases hstatus : status = "active"
  · cases deprecated <;> simp [hstatus]
  · simp [hstatus]

/-- Without an allowed security level the truth table denies everything. -/
theorem evaluateAccess_deny_of_no_level (h : ctx.allowedSecurityLevels = []) :
    evaluateAccess ctx acl = .deny := by
  cases hdecision : evaluateAccess ctx acl with
  | deny => rfl
  | allow =>
    obtain ⟨-, -, hlevel, -⟩ := evaluateAccess_allow_iff.mp hdecision
    simp [h] at hlevel

end TruthTable

section Agreement

variable {ctx : SecurityContext} {corpusId : String} {payload : Payload} {fields : AccessFields}

/-- An absent group branch is one no payload meets. -/
theorem exists_groupBranch {groups found : List String} {key : String}
    (h : payload key = some (.strings found)) :
    (∃ condition ∈ groupBranch groups key, condition.met payload = true) ↔
      ∃ group ∈ groups, group ∈ found := by
  unfold groupBranch
  split
  · rename_i hempty
    simp [hempty]
  · simp only [List.mem_singleton, exists_eq_left]
    exact met_any_texts h

theorem scopeConditions_met (hin : fields.In payload) :
    Condition.met payload (.clause ⟨[], scopeConditions ctx, []⟩) = true ↔
      fields.acl.aclScope = .tenant ∨ ctx.userId ∈ fields.allowedUserIds ∨
        ∃ group ∈ ctx.groups, group ∈ fields.allowedGroupIds := by
  have hscope : FieldCondition.met ⟨"acl_scope", .value (.str "tenant")⟩ payload = true ↔
      fields.acl.aclScope = .tenant := by
    rw [met_value hin.aclScope]
    simp only [AccessFields.acl, asAclScope, Json.str, decide_eq_true_eq, Json.atom.injEq,
      ite_eq_left_iff, reduceCtorEq, imp_false, not_not]
  have huser : FieldCondition.met ⟨"allowed_user_ids", .any [ctx.userId]⟩ payload = true ↔
      ctx.userId ∈ fields.allowedUserIds := by
    rw [met_any_texts hin.allowedUserIds]
    simp
  rw [met_should (by simp [scopeConditions]), ← hscope, ← huser,
    ← exists_groupBranch hin.allowedGroupIds]
  simp only [scopeConditions, List.cons_append, List.nil_append, List.mem_cons, or_and_right,
    exists_or, exists_eq_left]

theorem denied_unmet (hin : fields.In payload) :
    (∀ condition ∈ (⟨"denied_user_ids", .any [ctx.userId]⟩ ::
        groupBranch ctx.groups "denied_group_ids").map Condition.field,
      condition.met payload = false) ↔
      ctx.userId ∉ fields.deniedUserIds ∧ ¬∃ group ∈ ctx.groups, group ∈ fields.deniedGroupIds := by
  have huser : FieldCondition.met ⟨"denied_user_ids", .any [ctx.userId]⟩ payload = true ↔
      ctx.userId ∈ fields.deniedUserIds := by
    rw [met_any_texts hin.deniedUserIds]
    simp
  rw [← exists_groupBranch hin.deniedGroupIds, ← huser]
  simp only [List.forall_mem_map, Condition.met, List.forall_mem_cons, Bool.not_eq_true, not_exists,
    not_and]

/-- The filter is the truth table on an active resource of the corpus. -/
theorem buildAccessFilter_selects (hin : fields.In payload) {filter : Filter Condition}
    (hfilter : buildAccessFilter ctx corpusId = .ok filter) :
    filter.selects payload = true ↔
      fields.corpusId = corpusId ∧ fields.status = "active" ∧ fields.deprecated = false ∧
        evaluateAccess ctx fields.acl = .allow := by
  have htenant : Condition.met payload (.field ⟨"tenant_id", .value (.str ctx.tenantId)⟩) =
      decide (Atom.str fields.tenantId = .str ctx.tenantId) := met_value hin.tenantId
  have hcorpus : Condition.met payload (.field ⟨"corpus_id", .value (.str corpusId)⟩) =
      decide (Atom.str fields.corpusId = .str corpusId) := met_value hin.corpusId
  have hstatus : Condition.met payload (.field ⟨"status", .value (.str "active")⟩) =
      decide (Atom.str fields.status = .str "active") := met_value hin.status
  have hdeprecated : Condition.met payload (.field ⟨"deprecated", .value (.bool false)⟩) =
      decide (Atom.bool fields.deprecated = .bool false) := met_value hin.deprecated
  have hlevel : Condition.met payload (.field ⟨"security_level", .any ctx.allowedSecurityLevels⟩) =
      decide (fields.securityLevel ∈ ctx.allowedSecurityLevels) := met_any_text hin.securityLevel
  unfold buildAccessFilter at hfilter
  split at hfilter
  · simp at hfilter
  · rw [← Except.ok.inj hfilter, selects_iff, denied_unmet hin, evaluateAccess_allow_iff]
    simp only [List.forall_mem_cons, htenant, hcorpus, hstatus, hdeprecated, hlevel,
      scopeConditions_met hin, decide_eq_true_eq, Atom.str.injEq, Atom.bool.injEq, true_or, true_and]
    simp only [AccessFields.acl]
    tauto

/-- Filter, truth table and projection agree on every payload whose access fields have their types, and
no filter is built exactly when there is no security level, where the truth table denies all. The payload
may hold anything else besides these fields. -/
theorem access_filter_agrees (ctx : SecurityContext) (corpusId : String) :
    ((∃ e, buildAccessFilter ctx corpusId = .error e) ↔ ctx.allowedSecurityLevels = []) ∧
    (ctx.allowedSecurityLevels = [] → ∀ acl, evaluateAccess ctx acl = .deny) ∧
    ∀ (filter : Filter Condition) (fields : AccessFields) (payload : Payload),
      buildAccessFilter ctx corpusId = .ok filter → fields.In payload →
      (filter.selects payload = true ↔
        fields.corpusId = corpusId ∧ fields.status = "active" ∧ fields.deprecated = false ∧
          evaluateAccess ctx fields.acl = .allow) ∧
      (filter.selects payload = true ↔ fields.corpusId = corpusId ∧
        resourcePassesFilter ctx fields.acl fields.status fields.deprecated = true) := by
  refine ⟨?_, fun h acl => evaluateAccess_deny_of_no_level h, ?_⟩
  · unfold buildAccessFilter
    split
    · rename_i hlevels
      exact iff_of_true ⟨_, rfl⟩ hlevels
    · rename_i hlevels
      exact iff_of_false (by simp) hlevels
  · intro filter fields payload hfilter hin
    have hselects := buildAccessFilter_selects hin hfilter
    exact ⟨hselects, hselects.trans (and_congr_right fun _ => resourcePassesFilter_iff.symm)⟩

end Agreement

namespace Sample

/-- A member of one group, without a security level of its own. -/
def reader (allowedSecurityLevels : List String) : SecurityContext where
  requestId := "r"
  sessionId := "s"
  tenantId := "acme"
  userId := "ann"
  roles := []
  groups := ["finance"]
  allowedSecurityLevels := allowedSecurityLevels
  allowedCorpusIds := none
  policyVersion := "1"
  isAdmin := false
  permissions := []

/-- A restricted resource that one group may read. -/
def restricted : AccessFields where
  tenantId := "acme"
  corpusId := "policies"
  status := "active"
  deprecated := false
  securityLevel := "internal"
  aclScope := "restricted"
  allowedUserIds := []
  allowedGroupIds := ["finance"]
  deniedUserIds := ["eve"]
  deniedGroupIds := []

end Sample

open Sample in
theorem access_filter_agrees_restricted :
    (∀ filter, buildAccessFilter (reader ["internal"]) "policies" = .ok filter →
      filter.selects (restricted.write fun _ => none) = true) ∧
      evaluateAccess (reader []) restricted.acl = .deny := by
  have hagree := access_filter_agrees (reader ["internal"]) "policies"
  refine ⟨fun filter hfilter => ?_, (access_filter_agrees (reader []) "policies").2.1 rfl _⟩
  exact (hagree.2.2 filter restricted _ hfilter (restricted.write_in _)).1.mpr (by decide)

end AgenticRag
