import AgenticRag.Foundations.FirstOccurrence
import AgenticRag.Storage.EvidenceStore

/-!
# Histories of the evidence store

Snapshots are saved, read and counted in any order, while the control plane changes from one read
to the next. What a read releases depends on the first save of its id, on the control plane at that
moment and on the caller; the audit log is the list of the grants that were made for auditors.
-/

namespace AgenticRag

/-- A call of the store; a read carries the control plane as the resolver finds it then. -/
inductive EvidenceOp where
  | save (evidence : Evidence) (sourceAcl : ResourceAcl)
  | get (resolver : Option CurrentDocumentResolver) (evidenceId : String) (ctx : SecurityContext)
  | existsId (evidenceId : String)
  | count (tenantId : String)

/-- What a call returns. -/
inductive EvidenceReply where
  | saved
  | access (result : Except PyError EvidenceAccess)
  | found (answer : Bool)
  | counted (n : Nat)

namespace EvidenceSnapshotStore

def empty : EvidenceSnapshotStore := ⟨[], []⟩

variable (store : EvidenceSnapshotStore)

/-- `exists`. -/
def existsId (evidenceId : String) : Bool := (store.snapshot evidenceId).isSome

def count (tenantId : String) : Nat :=
  (Table.select (fun row => decide (row.evidence.tenantId = tenantId)) store.snapshots).length

def perform : EvidenceOp → EvidenceReply × EvidenceSnapshotStore
  | .save evidence sourceAcl => (.saved, store.save evidence sourceAcl)
  | .get resolver evidenceId ctx =>
    (.access (store.get resolver evidenceId ctx).1, (store.get resolver evidenceId ctx).2)
  | .existsId evidenceId => (.found (store.existsId evidenceId), store)
  | .count tenantId => (.counted (store.count tenantId), store)

def after : List EvidenceOp → EvidenceSnapshotStore → EvidenceSnapshotStore
  | [], store => store
  | op :: history, store => after history (store.perform op).2

def replies : List EvidenceOp → EvidenceSnapshotStore → List EvidenceReply
  | [], _ => []
  | op :: history, store => (store.perform op).1 :: replies history (store.perform op).2

end EvidenceSnapshotStore

namespace EvidenceHistory

open EvidenceSnapshotStore

def saved (history : List EvidenceOp) : List Evidence :=
  history.filterMap fun op =>
    match op with
    | .save evidence _ => some evidence
    | _ => none

def firstSaved (history : List EvidenceOp) (evidenceId : String) : Option Evidence :=
  (saved history).find? fun evidence => decide (evidence.evidenceId = evidenceId)

/-- The document of the evidence is current, and its ACL and the corpus list let the caller in. -/
def AllowedNow (resolver : Option CurrentDocumentResolver) (ctx : SecurityContext) (ev : Evidence) : Prop :=
  ∃ resolve document, resolver = some resolve ∧ resolve ev.docRef = .ok (some document) ∧
    document.status = .active ∧ document.deprecated = false ∧
    evaluateAccess ctx (aclFromDoc document) = .allow ∧ canDiscoverCorpus ctx ev.corpusId = true

/-- The same call, with another ACL recorded if it is a save. -/
def withAcl (record : Evidence → ResourceAcl → ResourceAcl) : EvidenceOp → EvidenceOp
  | .save evidence sourceAcl => .save evidence (record evidence sourceAcl)
  | op => op

/-- The row of the audit log for a call that was granted to an auditor. -/
def auditRow : EvidenceOp → EvidenceReply → Option EvidenceAuditRow
  | .get _ evidenceId ctx, .access (.ok ⟨_, _, "audit_grant"⟩) =>
    some ⟨evidenceId, ctx.tenantId, ctx.userId, "audit_read", "audit:evidence:read grant"⟩
  | _, _ => none

/-- What a read may return for the evidence its id was first saved with, and whether it is logged. -/
inductive Release (resolver : Option CurrentDocumentResolver) (ctx : SecurityContext) :
    Option Evidence → Except PyError EvidenceAccess → Bool → Prop
  | notFound : Release resolver ctx none (.ok ⟨.denied, none, "not_found"⟩) false
  | crossTenant {ev : Evidence} (htenant : ev.tenantId ≠ ctx.tenantId) :
      Release resolver ctx (some ev) (.ok ⟨.denied, none, "cross_tenant"⟩) false
  | raised {ev : Evidence} {resolve : CurrentDocumentResolver} {e : PyError} (htenant : ev.tenantId = ctx.tenantId)
      (hresolver : resolver = some resolve) (hraised : resolve ev.docRef = .error e) :
      Release resolver ctx (some ev) (.error e) false
  | authorized {ev : Evidence} (htenant : ev.tenantId = ctx.tenantId) (hnow : AllowedNow resolver ctx ev) :
      Release resolver ctx (some ev) (.ok ⟨.full, some ev, "authorized"⟩) false
  | auditGrant {ev : Evidence} {current : Option SourceDocument} (htenant : ev.tenantId = ctx.tenantId)
      (hcurrent : resolveCurrentDocument resolver ev = .ok current) (hnow : ¬AllowedNow resolver ctx ev)
      (hpermission : "audit:evidence:read" ∈ ctx.permissions) :
      Release resolver ctx (some ev) (.ok ⟨.full, some ev, "audit_grant"⟩) true
  | withheld {ev : Evidence} {current : Option SourceDocument} (htenant : ev.tenantId = ctx.tenantId)
      (hcurrent : resolveCurrentDocument resolver ev = .ok current) (hnow : ¬AllowedNow resolver ctx ev)
      (hpermission : "audit:evidence:read" ∉ ctx.permissions) :
      Release resolver ctx (some ev) (.ok ⟨.redacted, some (redactEvidence ev),
        if resolver.isNone then "current_policy_unavailable"
        else "source_acl_revoked_or_document_inactive"⟩) false

section Reads

variable {store : EvidenceSnapshotStore} {resolver : Option CurrentDocumentResolver} {evidenceId : String}
  {ctx : SecurityContext}

/-- The document the store finds lets the caller in exactly if it is allowed now. -/
theorem allowedNow_iff {ev : Evidence} {current : Option SourceDocument}
    (hcurrent : resolveCurrentDocument resolver ev = .ok current) :
    (current.any fun document => isAllowedNow ctx (aclFromDoc document) ev.corpusId) = true ↔
      AllowedNow resolver ctx ev := by
  unfold AllowedNow
  cases resolver with
  | none =>
    obtain rfl : none = current := Except.ok.inj hcurrent
    simp
  | some resolve =>
    unfold resolveCurrentDocument at hcurrent
    dsimp only at hcurrent
    cases hresolve : resolve ev.docRef with
    | error e => simp [hresolve] at hcurrent
    | ok found =>
      cases found with
      | none =>
        simp only [hresolve, Except.ok.injEq] at hcurrent
        simp [← hcurrent, hresolve]
      | some document =>
        simp only [hresolve] at hcurrent
        split at hcurrent
        · rename_i hstale
          obtain rfl := Except.ok.inj hcurrent
          constructor
          · intro h
            cases h
          · rintro ⟨other, active, hother, hactive, hstatus, hdeprecated, -⟩
            obtain rfl := Option.some.inj hother
            rw [hresolve] at hactive
            obtain rfl := Option.some.inj (Except.ok.inj hactive)
            rcases hstale with hstale | hstale
            · exact absurd hstatus hstale
            · rw [hdeprecated] at hstale
              cases hstale
        · rename_i hcurrentDocument
          obtain rfl := Except.ok.inj hcurrent
          push Not at hcurrentDocument
          rw [Option.any_some, isAllowedNow_iff]
          constructor
          · rintro ⟨hallowed, hdiscovers⟩
            exact ⟨resolve, document, rfl, hresolve, hcurrentDocument.1, by simpa using hcurrentDocument.2, hallowed,
              hdiscovers⟩
          · rintro ⟨other, active, hother, hactive, -, -, hallowed, hdiscovers⟩
            obtain rfl := Option.some.inj hother
            rw [hresolve] at hactive
            obtain rfl := Option.some.inj (Except.ok.inj hactive)
            exact ⟨hallowed, hdiscovers⟩

/-- A read releases what it may for the snapshot of its id, and logs what it grants to an auditor. -/
theorem get_release : ∃ audited,
    Release resolver ctx ((store.snapshot evidenceId).map (·.evidence)) (store.get resolver evidenceId ctx).1 audited ∧
    (store.get resolver evidenceId ctx).2 =
      if audited then store.recordAudit evidenceId ctx "audit_read" "audit:evidence:read grant" else store := by
  unfold EvidenceSnapshotStore.get
  cases hrow : store.snapshot evidenceId with
  | none => exact ⟨false, .notFound, rfl⟩
  | some row =>
    dsimp only [Option.map_some]
    split
    · rename_i htenant
      exact ⟨false, .crossTenant htenant, rfl⟩
    · rename_i htenant
      have hsame := not_not.mp htenant
      cases hcurrent : resolveCurrentDocument resolver row.evidence with
      | error e =>
        refine ⟨false, ?_, rfl⟩
        cases resolver with
        | none => cases hcurrent
        | some resolve =>
          unfold resolveCurrentDocument at hcurrent
          dsimp only at hcurrent
          split at hcurrent
          · rename_i hraised
            rw [← Except.error.inj hcurrent]
            exact .raised hsame rfl hraised
          · cases hcurrent
          · split at hcurrent <;> cases hcurrent
      | ok current =>
        dsimp only
        have hnow := @allowedNow_iff resolver ctx _ _ hcurrent
        split
        · rename_i hallowed
          exact ⟨false, .authorized hsame (hnow.mp hallowed), rfl⟩
        · rename_i hdenied
          split
          · rename_i hpermission
            exact ⟨true, .auditGrant hsame hcurrent (fun h => hdenied (hnow.mpr h)) hpermission, rfl⟩
          · rename_i hpermission
            exact ⟨false, .withheld hsame hcurrent (fun h => hdenied (hnow.mpr h)) hpermission, rfl⟩

end Reads

section Runs

variable {store : EvidenceSnapshotStore}

theorem after_append (first second : List EvidenceOp) :
    after (first ++ second) store = after second (after first store) := by
  induction first generalizing store with
  | nil => rfl
  | cons op first ih => exact ih

theorem replies_append (first second : List EvidenceOp) :
    replies (first ++ second) store = replies first store ++ replies second (after first store) := by
  induction first generalizing store with
  | nil => rfl
  | cons op first ih => exact congrArg (_ :: ·) ih

theorem length_replies (history : List EvidenceOp) : (replies history store).length = history.length := by
  induction history generalizing store with
  | nil => rfl
  | cons op history ih => exact congrArg (· + 1) ih

def evidences (store : EvidenceSnapshotStore) : List Evidence := store.snapshots.map (·.evidence)

theorem snapshot_evidence (store : EvidenceSnapshotStore) (evidenceId : String) :
    (store.snapshot evidenceId).map (·.evidence) =
      (evidences store).find? fun evidence => decide (evidence.evidenceId = evidenceId) := by
  unfold EvidenceSnapshotStore.snapshot evidences Table.selectOne
  rw [List.find?_map]
  rfl

theorem isSome_snapshot (store : EvidenceSnapshotStore) (evidenceId : String) :
    (store.snapshot evidenceId).isSome = true ↔ evidenceId ∈ (evidences store).map (·.evidenceId) := by
  rw [← Option.isSome_map (f := fun row : SnapshotRow => row.evidence), snapshot_evidence]
  simp [List.find?_isSome]

theorem evidences_save (store : EvidenceSnapshotStore) (evidence : Evidence) (sourceAcl : ResourceAcl) :
    evidences (store.save evidence sourceAcl) = evidences store ++
      if evidence.evidenceId ∈ (evidences store).map (·.evidenceId) then [] else [evidence] := by
  unfold EvidenceSnapshotStore.save
  simp only [isSome_snapshot]
  split
  · rw [List.append_nil]
  · simp [evidences, Table.insert]

theorem evidences_get (store : EvidenceSnapshotStore) (resolver : Option CurrentDocumentResolver)
    (evidenceId : String) (ctx : SecurityContext) :
    evidences (store.get resolver evidenceId ctx).2 = evidences store :=
  congrArg (List.map fun row : SnapshotRow => row.evidence) (get_snapshots resolver evidenceId ctx)

/-- The snapshots are of the first saves of their ids. -/
theorem evidences_after (history : List EvidenceOp) :
    evidences (after history empty) = firstsBy (·.evidenceId) (saved history) := by
  induction history using List.reverseRecOn with
  | nil => rfl
  | append_singleton history op ih =>
    rw [after_append]
    cases op with
    | save evidence sourceAcl =>
      have hsaved : saved (history ++ [.save evidence sourceAcl]) = saved history ++ [evidence] := by simp [saved]
      rw [hsaved, firstsBy_concat, ← ih]
      simp only [after, perform, evidences_save, ih, map_mem_firstsBy]
    | get resolver evidenceId ctx =>
      have hsaved : saved (history ++ [.get resolver evidenceId ctx]) = saved history := by simp [saved]
      rw [hsaved, ← ih]
      exact evidences_get _ resolver evidenceId ctx
    | existsId evidenceId =>
      have hsaved : saved (history ++ [.existsId evidenceId]) = saved history := by simp [saved]
      rw [hsaved, ← ih]
      rfl
    | count tenantId =>
      have hsaved : saved (history ++ [.count tenantId]) = saved history := by simp [saved]
      rw [hsaved, ← ih]
      rfl

/-- What the store holds for an id is what it was first saved with. -/
theorem snapshot_after (history : List EvidenceOp) (evidenceId : String) :
    ((after history empty).snapshot evidenceId).map (·.evidence) = firstSaved history evidenceId := by
  rw [snapshot_evidence, evidences_after]
  exact find?_firstsBy (saved history) evidenceId

/-- The reply to a call is made by the store its predecessors leave. -/
theorem reply_at (before rest : List EvidenceOp) (op : EvidenceOp) (store : EvidenceSnapshotStore) :
    (replies (before ++ op :: rest) store)[before.length]? = some ((after before store).perform op).1 := by
  rw [replies_append, List.getElem?_append_right (by rw [length_replies]), length_replies, Nat.sub_self]
  rfl

/-- A read is logged exactly if it says that it was granted to an auditor. -/
theorem Release.auditRow_eq {resolver : Option CurrentDocumentResolver} {ctx : SecurityContext}
    {found : Option Evidence} {result : Except PyError EvidenceAccess} {audited : Bool}
    (h : Release resolver ctx found result audited) (evidenceId : String) :
    auditRow (.get resolver evidenceId ctx) (.access result) =
      if audited then some ⟨evidenceId, ctx.tenantId, ctx.userId, "audit_read", "audit:evidence:read grant"⟩
      else none := by
  cases h with
  | notFound | crossTenant htenant | raised htenant hresolver hraised | authorized htenant hnow =>
    simp [auditRow]
  | auditGrant htenant hcurrent hnow hpermission => simp [auditRow]
  | withheld htenant hcurrent hnow hpermission =>
    split <;> simp [auditRow]

/-- The audit log grows by the row of the call. -/
theorem auditLog_perform (store : EvidenceSnapshotStore) (op : EvidenceOp) :
    (store.perform op).2.auditLog = store.auditLog ++ (auditRow op (store.perform op).1).toList := by
  cases op with
  | save evidence sourceAcl =>
    have hkept : (store.save evidence sourceAcl).auditLog = store.auditLog := by
      unfold EvidenceSnapshotStore.save
      split <;> rfl
    simpa [perform, auditRow] using hkept
  | get resolver evidenceId ctx =>
    obtain ⟨audited, hrelease, hstore⟩ := @get_release store resolver evidenceId ctx
    simp only [perform, hstore, hrelease.auditRow_eq]
    cases audited with
    | false => simp
    | true => simp [recordAudit]
  | existsId evidenceId => simp [perform, auditRow]
  | count tenantId => simp [perform, auditRow]

/-- The audit log holds a row for each grant, in the order of the calls. -/
theorem auditLog_after (history : List EvidenceOp) (store : EvidenceSnapshotStore) :
    (after history store).auditLog =
      store.auditLog ++ (history.zip (replies history store)).filterMap fun call => auditRow call.1 call.2 := by
  induction history generalizing store with
  | nil => simp [after]
  | cons op history ih =>
    rw [after, ih, auditLog_perform, replies, List.zip_cons_cons, List.filterMap_cons, List.append_assoc]
    cases auditRow op (store.perform op).1 <;> rfl

theorem count_eq (store : EvidenceSnapshotStore) (tenantId : String) : store.count tenantId =
    (evidences store).countP fun evidence => decide (evidence.tenantId = tenantId) := by
  rw [evidences, List.countP_map, List.countP_eq_length_filter]
  rfl

/-- A reply depends on the evidences of the store only. -/
theorem reply_congr {store store' : EvidenceSnapshotStore} (h : evidences store = evidences store')
    (op : EvidenceOp) : (store.perform op).1 = (store'.perform op).1 := by
  have hsnapshot : ∀ evidenceId, (store.snapshot evidenceId).map (·.evidence) =
      (store'.snapshot evidenceId).map (·.evidence) := by
    intro evidenceId
    rw [snapshot_evidence, snapshot_evidence, h]
  cases op with
  | save evidence sourceAcl => rfl
  | get resolver evidenceId ctx =>
    have hsame := hsnapshot evidenceId
    refine congrArg EvidenceReply.access ?_
    unfold EvidenceSnapshotStore.get
    cases hrow : store.snapshot evidenceId with
    | none =>
      cases hrow' : store'.snapshot evidenceId with
      | none => rfl
      | some row' => simp [hrow, hrow'] at hsame
    | some row =>
      cases hrow' : store'.snapshot evidenceId with
      | none => simp [hrow, hrow'] at hsame
      | some row' =>
        have hevidence : row.evidence = row'.evidence := by simpa [hrow, hrow'] using hsame
        dsimp only
        rw [hevidence]
        split
        · rfl
        · split
          · rfl
          · split
            · rfl
            · split <;> rfl
  | existsId evidenceId =>
    have hsame := congrArg Option.isSome (hsnapshot evidenceId)
    rw [Option.isSome_map, Option.isSome_map] at hsame
    exact congrArg EvidenceReply.found hsame
  | count tenantId =>
    have hsame : store.count tenantId = store'.count tenantId := by rw [count_eq, count_eq, h]
    exact congrArg EvidenceReply.counted hsame

/-- The ACLs that are recorded make no difference to any reply. -/
theorem replies_withAcl (record : Evidence → ResourceAcl → ResourceAcl) (history : List EvidenceOp)
    {store store' : EvidenceSnapshotStore} (h : evidences store = evidences store') :
    replies (history.map (withAcl record)) store' = replies history store := by
  induction history generalizing store store' with
  | nil => rfl
  | cons op history ih =>
    have hreply : (store'.perform (withAcl record op)).1 = (store.perform op).1 := by
      rw [reply_congr h.symm]
      cases op <;> rfl
    have hnext : evidences (store.perform op).2 = evidences (store'.perform (withAcl record op)).2 := by
      cases op with
      | save evidence sourceAcl =>
        change evidences (store.save evidence sourceAcl) = evidences (store'.save evidence (record evidence sourceAcl))
        rw [evidences_save, evidences_save, h]
      | get resolver evidenceId ctx =>
        change evidences (store.get resolver evidenceId ctx).2 = evidences (store'.get resolver evidenceId ctx).2
        rw [evidences_get, evidences_get, h]
      | existsId evidenceId => exact h
      | count tenantId => exact h
    rw [List.map_cons, replies, replies, hreply, ih hnext]

end Runs

end EvidenceHistory

open EvidenceSnapshotStore EvidenceHistory

/-- In every history of the store, while the control plane changes as it likes: a read releases what
the first save of its id recorded, in full only to callers of the tenant who are allowed now or are
auditors; the audit log is the list of the auditors' grants; the ACLs that were recorded are never
used; and a snapshot is counted once. -/
theorem evidence_history (history : List EvidenceOp) :
    (∀ before resolver evidenceId ctx rest, history = before ++ .get resolver evidenceId ctx :: rest →
      ∃ result audited, (replies history empty)[before.length]? = some (.access result) ∧
        Release resolver ctx (firstSaved before evidenceId) result audited) ∧
    (∀ before evidenceId rest, history = before ++ .existsId evidenceId :: rest →
      (replies history empty)[before.length]? = some (.found (firstSaved before evidenceId).isSome)) ∧
    (∀ before tenantId rest, history = before ++ .count tenantId :: rest →
      (replies history empty)[before.length]? = some (.counted
        ((firstsBy (·.evidenceId) (saved before)).countP fun ev => decide (ev.tenantId = tenantId)))) ∧
    (after history empty).auditLog =
      (history.zip (replies history empty)).filterMap (fun call => auditRow call.1 call.2) ∧
    ∀ record, replies (history.map (withAcl record)) empty = replies history empty := by
  refine ⟨?_, ?_, ?_, auditLog_after history empty, fun record => replies_withAcl record history rfl⟩
  · rintro before resolver evidenceId ctx rest rfl
    obtain ⟨audited, hrelease, -⟩ := @get_release (after before empty) resolver evidenceId ctx
    rw [snapshot_after] at hrelease
    exact ⟨_, audited, reply_at before rest _ empty, hrelease⟩
  · rintro before evidenceId rest rfl
    rw [reply_at, ← snapshot_after, Option.isSome_map]
    rfl
  · rintro before tenantId rest rfl
    rw [reply_at, ← evidences_after, ← count_eq]
    rfl

end AgenticRag
