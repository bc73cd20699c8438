import AgenticRag.Storage.ActiveSwitch

/-!
# Reading document rows back

Reading a row builds a `SourceDocument`, which re-runs its validators. Demoting a version
closes its effective window and activating one opens it without clearing the end, so a
version that is activated again after it was superseded has an `effective_from` behind
its `effective_to` and cannot be read. Every row stays readable exactly along the runs
in which no version is activated after the end of its window, or demoted before its start.
-/

namespace AgenticRag.MetadataStore

open Routine

/-- Every row passes the validators, and no accessor raises. -/
structure RowsReadable (s : MetadataStore) : Prop where
  valid : ∀ row ∈ s.documents, row.toDocumentColumns.Valid
  document : ∀ ref, ∃ found, s.getDocument ref = .ok found
  active : ∀ doc, ∃ found, s.getActiveDocument doc = .ok found
  latest : ∀ doc, ∃ found, s.getDocumentLatest doc = .ok found

theorem readDocument_ok {row : Option DocumentRow}
    (h : ∀ found ∈ row, found.toDocumentColumns.Valid) : ∃ found, readDocument row = .ok found := by
  cases row with
  | none => exact ⟨none, rfl⟩
  | some row =>
    have hvalid := h row rfl
    refine ⟨some { row.toDocumentColumns with valid := hvalid }, ?_⟩
    simp only [readDocument, rowToDocument, dif_pos hvalid]
    rfl

theorem rowsReadable_iff {s : MetadataStore} :
    RowsReadable s ↔ ∀ row ∈ s.documents, row.toDocumentColumns.Valid := by
  refine ⟨RowsReadable.valid, fun hvalid => ⟨hvalid, ?_, ?_, ?_⟩⟩
  · intro ref
    exact readDocument_ok fun row hrow => hvalid row (documentRow_mem hrow).1
  · intro doc
    exact readDocument_ok fun row hrow => hvalid row (Table.selectOne_some hrow).1
  · intro doc
    exact readDocument_ok fun row hrow => hvalid row (Table.mem_select.mp (latestBy_mem hrow)).1

section Switching

/-- An activation of `target` at time `now` in place of `previous`. -/
structure Switch where
  now : Timestamp
  doc : DocRef
  previous : Option String
  target : String

/-- The switch of a commit in state `s`, if its checks pass there. -/
def commitSwitch (s : MetadataStore) (now : Timestamp) (doc : DocRef) (new : String)
    (expected : Nat) : Option Switch :=
  if s.getActiveVersion doc ≠ some new ∧ s.getCurrentRevision doc = expected ∧
      (s.documentRow ⟨doc, new⟩).isSome then
    some ⟨now, doc, s.getActiveVersion doc, new⟩
  else none

/-- The switch of a rollback in state `s`, if its checks pass there. -/
def rollbackSwitch (s : MetadataStore) (now : Timestamp) (doc : DocRef)
    (toVersion : Option String) (expected : Option Nat) : Option Switch := do
  let previous ← s.getActiveVersion doc
  let target ← toVersion.or ((s.rollbackCandidate doc).map (·.ref.version))
  let row ← s.documentRow ⟨doc, target⟩
  if row.status ≠ .deleted ∧ target ≠ previous ∧
      (expected = none ∨ expected = some (s.getCurrentRevision doc)) then
    some ⟨now, doc, some previous, target⟩
  else none

/-- The switch a call makes in state `s`. -/
def LifecycleCall.switch (s : MetadataStore) : LifecycleCall → Option Switch
  | .commitActiveVersion now doc new expected => commitSwitch s now doc new expected
  | .rollbackActiveVersion now doc toVersion expected => rollbackSwitch s now doc toVersion expected
  | _ => none

/-- The target's window has not ended, and the window of the version it replaces has begun. -/
def Switch.Timely (s : MetadataStore) (switch : Switch) : Prop :=
  (∀ row ∈ s.documents, row.ref = ⟨switch.doc, switch.target⟩ →
    ∀ upper ∈ row.effectiveTo, switch.now ≤ upper) ∧
  ∀ version ∈ switch.previous, ∀ row ∈ s.documents, row.ref = ⟨switch.doc, version⟩ →
    ∀ lower ∈ row.effectiveFrom, lower ≤ switch.now

/-- A call whose switch, if it makes one, is timely. -/
def LifecycleCall.Timely (s : MetadataStore) (call : LifecycleCall) : Prop :=
  ∀ switch ∈ call.switch s, switch.Timely s

instance (s : MetadataStore) (switch : Switch) : Decidable (switch.Timely s) :=
  inferInstanceAs (Decidable ((_ : Prop) ∧ _))

instance (s : MetadataStore) (call : LifecycleCall) : Decidable (call.Timely s) :=
  inferInstanceAs (Decidable (∀ switch ∈ call.switch s, _))

/-- The rows after a switch are valid exactly if it was timely. -/
theorem switchDocuments_valid {s : MetadataStore}
    (hvalid : ∀ row ∈ s.documents, row.toDocumentColumns.Valid) (switch : Switch)
    (hother : switch.previous ≠ some switch.target) (revision : Nat) :
    (∀ row ∈ switchDocuments switch.now switch.doc revision switch.previous switch.target s.documents,
      row.toDocumentColumns.Valid) ↔ switch.Timely s := by
  constructor
  · intro hafter
    constructor
    · intro row hrow href upper hupper
      have hactivated := hafter _ ((mem_switchDocuments hother).mpr (Or.inl ⟨row, hrow, href, rfl⟩))
      exact hactivated.2.1 upper hupper switch.now rfl
    · intro version hversion row hrow href lower hlower
      have hdemoted := hafter _ ((mem_switchDocuments hother).mpr
        (Or.inr (Or.inl ⟨row, hrow, ⟨version, hversion, href⟩, rfl⟩)))
      exact hdemoted.2.1 switch.now rfl lower hlower
  · rintro ⟨htarget, hprevious⟩ row hrow
    rcases (mem_switchDocuments hother).mp hrow with ⟨old, hold, href, rfl⟩ |
      ⟨old, hold, ⟨version, hversion, href⟩, rfl⟩ | ⟨hold, -, -⟩
    · refine ⟨(hvalid old hold).1, ?_, by simp [activateRow], by simp [activateRow]⟩
      intro upper hupper lower hlower
      rw [← Option.some.inj hlower]
      exact htarget old hold href upper hupper
    · refine ⟨(hvalid old hold).1, ?_, by simp [demoteRow], by simp [demoteRow]⟩
      intro upper hupper lower hlower
      rw [← Option.some.inj hupper]
      exact hprevious version hversion old hold href lower hlower
    · exact hvalid row hold

end Switching

section Calls

variable {s t : MetadataStore}

/-- An update that leaves the window alone and keeps the timestamps its status needs. -/
theorem update_valid {p : DocumentRow → Bool} {f : DocumentRow → DocumentRow}
    (hvalid : ∀ row ∈ s.documents, row.toDocumentColumns.Valid)
    (hf : ∀ row, row.toDocumentColumns.Valid → p row = true → (f row).toDocumentColumns.Valid)
    (ht : t.documents = Table.update p f s.documents) :
    ∀ row ∈ t.documents, row.toDocumentColumns.Valid := by
  intro row hrow
  rw [ht] at hrow
  rcases Table.mem_update.mp hrow with ⟨old, hold, hp, rfl⟩ | ⟨hold, -⟩
  · exact hf old (hvalid old hold) hp
  · exact hvalid row hold

theorem acquireJob_valid {args : AcquireArgs} {r : Except PyError (JobStatus × Nat)}
    (hvalid : ∀ row ∈ s.documents, row.toDocumentColumns.Valid) (h : acquireJob args s = (r, t)) :
    ∀ row ∈ t.documents, row.toDocumentColumns.Valid := by
  rcases acquireJob_cases h with ⟨e, -, -, rfl⟩ | ⟨claimed, s', htxn, -, hmark⟩
  · exact hvalid
  obtain ⟨previousVersion, s₁, s₂, hclaim, hupsert, hbind⟩ := acquireJobTransaction_ok htxn
  have hs₁ : s₁.documents = s.documents := by
    rcases claimLease_cases hclaim with ⟨-, -, rfl⟩ | ⟨lease, -, -, -, rfl⟩ |
      ⟨lease, reason, -, -, -, rfl⟩ <;> rfl
  have hs' : s'.documents = s₂.documents := by
    rcases bindJobRow_cases hbind with ⟨-, -, -, rfl⟩ | ⟨row, -, -, -, -, -, rfl⟩ |
      ⟨row, -, -, -, -, -, rfl⟩ | ⟨-, rfl⟩ <;> rfl
  have hvalid₁ : ∀ row ∈ s₁.documents, row.toDocumentColumns.Valid := by
    rw [hs₁]
    exact hvalid
  rw [markStep_documents hmark, hs']
  cases hdocument : args.document with
  | none =>
    rw [hdocument] at hupsert
    obtain ⟨-, rfl⟩ := Prod.mk.inj hupsert
    exact hvalid₁
  | some document =>
    rw [hdocument] at hupsert
    rcases upsertDocumentBuild_cases hupsert with ⟨-, -, rfl, -⟩ | ⟨row, -, -, -, rfl⟩ |
      ⟨row, -, -, -, rfl⟩ | ⟨herr, -⟩
    · intro row hrow
      rcases Table.mem_insert.mp hrow with hold | rfl
      · exact hvalid₁ row hold
      · exact document.valid
    · exact update_valid hvalid₁ (fun _ _ _ => document.valid) rfl
    · exact hvalid₁
    · simp at herr

theorem logicalDelete_valid {deletedAt : Timestamp} {ref : VersionRef} {r : Except PyError Nat}
    (hvalid : ∀ row ∈ s.documents, row.toDocumentColumns.Valid)
    (h : logicalDelete deletedAt ref s = (r, t)) :
    ∀ row ∈ t.documents, row.toDocumentColumns.Valid := by
  rcases logicalDelete_cases h with ⟨row, -, -, -, -, rfl⟩ | rfl
  · refine update_valid hvalid (fun old hold _ => ?_) rfl
    exact ⟨hold.1, hold.2.1, by simp [deleteRow], by simp [deleteRow]⟩
  · exact hvalid

theorem updateDocumentAcl_valid {ref : VersionRef} {acl : AclFields} {r : Except PyError Unit}
    (hvalid : ∀ row ∈ s.documents, row.toDocumentColumns.Valid)
    (h : updateDocumentAcl ref acl s = (r, t)) :
    ∀ row ∈ t.documents, row.toDocumentColumns.Valid := by
  rcases updateDocumentAcl_cases h with ⟨row, -, -, -, rfl⟩ | ⟨-, rfl, -⟩ | ⟨-, rfl⟩
  · refine update_valid hvalid ?_ rfl
    exact fun _ hold _ => hold
  · exact hvalid
  · exact hvalid

theorem markDocumentFailed_valid {ref : VersionRef} {r : Except PyError Unit}
    (hvalid : ∀ row ∈ s.documents, row.toDocumentColumns.Valid)
    (h : markDocumentFailed ref s = (r, t)) :
    ∀ row ∈ t.documents, row.toDocumentColumns.Valid := by
  rcases markDocumentFailed_cases h with ⟨-, rfl⟩ | ⟨-, rfl⟩
  · refine update_valid hvalid (fun old hold _ => ?_) rfl
    exact ⟨hold.1, hold.2.1, by simp, by simp⟩
  · exact hvalid

end Calls

section Runs

variable {s : MetadataStore}

private theorem void_state {σ ε α : Type} (m : Routine σ ε α) (s : σ) :
    ((do let _ ← m; pure ()) s : Except ε Unit × σ).2 = (m s).2 := by
  rw [bind_apply]
  rcases m s with ⟨outcome, t⟩
  cases outcome <;> rfl

theorem commitActiveVersion_valid_iff (hinv : LifecycleInvariant s)
    (hvalid : ∀ row ∈ s.documents, row.toDocumentColumns.Valid) (now : Timestamp) (doc : DocRef)
    (new : String) (expected : Nat) :
    (∀ row ∈ (commitActiveVersion now doc new expected s).2.documents,
        row.toDocumentColumns.Valid) ↔
      (LifecycleCall.commitActiveVersion now doc new expected).Timely s := by
  simp only [LifecycleCall.Timely, LifecycleCall.switch]
  unfold commitSwitch
  split
  · rename_i hswitch
    obtain ⟨hother, rfl, hsome⟩ := hswitch
    obtain ⟨row, hrow⟩ := Option.isSome_iff_exists.mp hsome
    rw [commitActiveVersion_switches hinv hother ⟨row, documentRow_mem hrow⟩]
    simp only [Option.mem_def, Option.some.injEq, forall_eq']
    exact switchDocuments_valid hvalid ⟨now, doc, s.getActiveVersion doc, new⟩ hother _
  · rename_i hno
    have hsame : (commitActiveVersion now doc new expected s).2 = s := by
      rcases commitActiveVersion_cases (Prod.ext rfl rfl :
          commitActiveVersion now doc new expected s = (_, _)) with
        ⟨-, -, hs⟩ | ⟨hother, hcurrent, -, -, row, hrow, href⟩ | ⟨e, -, hs⟩
      · exact hs
      · refine absurd ⟨hother, hcurrent, ?_⟩ hno
        cases hnone : s.documentRow ⟨doc, new⟩ with
        | some found => rfl
        | none => exact absurd href (documentRow_none.mp hnone row hrow)
      · exact hs
    rw [hsame]
    exact iff_of_true hvalid (by simp)

theorem rollbackSwitch_some {now : Timestamp} {doc : DocRef} {toVersion : Option String}
    {expected : Option Nat} {switch : Switch} :
    rollbackSwitch s now doc toVersion expected = some switch ↔
      ∃ previous target row, s.getActiveVersion doc = some previous ∧
        toVersion.or ((s.rollbackCandidate doc).map (·.ref.version)) = some target ∧
        s.documentRow ⟨doc, target⟩ = some row ∧
        (row.status ≠ .deleted ∧ target ≠ previous ∧
          (expected = none ∨ expected = some (s.getCurrentRevision doc))) ∧
        ⟨now, doc, some previous, target⟩ = switch := by
  simp only [rollbackSwitch, Option.bind_eq_bind, Option.bind_eq_some_iff,
    Option.ite_none_right_eq_some, Option.some.injEq]
  constructor
  · rintro ⟨previous, hprevious, target, htarget, row, hrow, hchecks, rfl⟩
    exact ⟨previous, target, row, hprevious, htarget, hrow, hchecks, rfl⟩
  · rintro ⟨previous, target, row, hprevious, htarget, hrow, hchecks, rfl⟩
    exact ⟨previous, hprevious, target, htarget, row, hrow, hchecks, rfl⟩

theorem rollbackActiveVersion_valid_iff (hinv : LifecycleInvariant s)
    (hvalid : ∀ row ∈ s.documents, row.toDocumentColumns.Valid) (now : Timestamp) (doc : DocRef)
    (toVersion : Option String) (expected : Option Nat) :
    (∀ row ∈ (rollbackActiveVersion now doc toVersion expected s).2.documents,
        row.toDocumentColumns.Valid) ↔
      (LifecycleCall.rollbackActiveVersion now doc toVersion expected).Timely s := by
  simp only [LifecycleCall.Timely, LifecycleCall.switch, Option.mem_def]
  cases hswitch : rollbackSwitch s now doc toVersion expected with
  | some switch =>
    obtain ⟨previous, target, row, hprevious, htarget, hrow, ⟨hlive, hother, hfresh⟩, rfl⟩ :=
      rollbackSwitch_some.mp hswitch
    rw [rollbackActiveVersion_switches hinv hprevious htarget hrow hlive hother hfresh]
    simp only [Option.some.injEq, forall_eq']
    refine switchDocuments_valid hvalid ⟨now, doc, some previous, target⟩ ?_ _
    simpa using hother.symm
  | none =>
    have hsame : (rollbackActiveVersion now doc toVersion expected s).2 = s := by
      rcases rollbackActiveVersion_cases (Prod.ext rfl rfl :
          rollbackActiveVersion now doc toVersion expected s = (_, _)) with
        ⟨_, -, -, hs⟩ | ⟨previous, target, row, hprevious, hother, hrow, hlive,
          ⟨htarget, hfresh⟩, -, -⟩ | ⟨e, -, hs⟩
      · exact hs
      · have hsome : rollbackSwitch s now doc toVersion expected =
            some ⟨now, doc, some previous, target⟩ := rollbackSwitch_some.mpr
          ⟨previous, target, row, hprevious, htarget, hrow, ⟨hlive, hother, hfresh⟩, rfl⟩
        simp [hswitch] at hsome
      · exact hs
    rw [hsame]
    exact iff_of_true hvalid (by simp)

/-- After one call every row is valid exactly if its switch was timely. -/
theorem LifecycleCall.valid_iff (hinv : LifecycleInvariant s)
    (hvalid : ∀ row ∈ s.documents, row.toDocumentColumns.Valid) (call : LifecycleCall) :
    (∀ row ∈ (call.run s).2.documents, row.toDocumentColumns.Valid) ↔ call.Timely s := by
  cases call with
  | acquireJob args processing =>
    refine iff_of_true ?_ (by simp [Timely, switch])
    simp only [run, void_state]
    exact acquireJob_valid hvalid rfl
  | commitActiveVersion now doc newVersion expectedRevision =>
    simp only [run, void_state]
    exact commitActiveVersion_valid_iff hinv hvalid now doc newVersion expectedRevision
  | rollbackActiveVersion now doc toVersion expectedRevision =>
    simp only [run, void_state]
    exact rollbackActiveVersion_valid_iff hinv hvalid now doc toVersion expectedRevision
  | logicalDelete deletedAt ref =>
    refine iff_of_true ?_ (by simp [Timely, switch])
    simp only [run, void_state]
    exact logicalDelete_valid hvalid rfl
  | updateDocumentAcl ref acl =>
    exact iff_of_true (updateDocumentAcl_valid hvalid rfl) (by simp [Timely, switch])
  | markDocumentFailed ref =>
    exact iff_of_true (markDocumentFailed_valid hvalid rfl) (by simp [Timely, switch])

/-- Every call of the sequence is timely when it is made. -/
def TimelyRun : MetadataStore → List LifecycleCall → Prop
  | _, [] => True
  | s, call :: calls => call.Timely s ∧ TimelyRun (call.run s).2 calls

instance TimelyRun.decidable : ∀ (s : MetadataStore) (calls : List LifecycleCall),
    Decidable (TimelyRun s calls)
  | _, [] => isTrue trivial
  | s, call :: calls =>
    haveI := TimelyRun.decidable (call.run s).2 calls
    inferInstanceAs (Decidable (call.Timely s ∧ TimelyRun (call.run s).2 calls))

theorem runCalls_valid_iff (hinv : LifecycleInvariant s)
    (hvalid : ∀ row ∈ s.documents, row.toDocumentColumns.Valid) (calls : List LifecycleCall) :
    (∀ earlier, earlier <+: calls → RowsReadable (runCalls s earlier)) ↔ TimelyRun s calls := by
  induction calls generalizing s with
  | nil =>
    refine iff_of_true (fun earlier hearlier => ?_) trivial
    rw [List.prefix_nil.mp hearlier]
    exact rowsReadable_iff.mpr hvalid
  | cons call calls ih =>
    have hinv' : LifecycleInvariant (call.run s).2 := (LifecycleCall.lifecycle rfl).invariant hinv
    constructor
    · intro h
      have hfirst := rowsReadable_iff.mp (h [call] ⟨calls, rfl⟩)
      refine ⟨(call.valid_iff hinv hvalid).mp hfirst, (ih hinv' hfirst).mp ?_⟩
      intro earlier hearlier
      exact h (call :: earlier) (List.prefix_cons_inj call |>.mpr hearlier)
    · rintro ⟨htimely, hrest⟩ earlier hearlier
      have hfirst := (call.valid_iff hinv hvalid).mpr htimely
      cases earlier with
      | nil => exact rowsReadable_iff.mpr hvalid
      | cons head earlier =>
        obtain ⟨rfl, htail⟩ := List.cons_prefix_cons.mp hearlier
        exact (ih hinv' hfirst).mpr hrest earlier htail

/-- In every state along a sequence of calls every row can be read back exactly if each call that moves
the active version is timely. The sequence starts without documents; the clock of a call is arbitrary and
may run back. -/
theorem rows_readable_iff (s : MetadataStore) (hfresh : s.documents = [])
    (calls : List LifecycleCall) :
    (∀ earlier, earlier <+: calls → RowsReadable (runCalls s earlier)) ↔ TimelyRun s calls :=
  runCalls_valid_iff (lifecycleInvariant_empty hfresh) (by simp [hfresh]) calls

/-- Publish a version and replace it. -/
private def replaceCalls : List LifecycleCall :=
  [.acquireJob (Sample.acquire "job-1" "v1" "attempt-1" 0) Sample.acquire_first,
    .commitActiveVersion 1 Sample.doc "v1" 0,
    .acquireJob (Sample.acquire "job-2" "v2" "attempt-2" 1) Sample.acquire_second,
    .commitActiveVersion 2 Sample.doc "v2" 1]

theorem rows_readable_iff_replaced :
    RowsReadable (runCalls Sample.store replaceCalls) :=
  (rows_readable_iff Sample.store rfl replaceCalls).mpr (by decide) _ List.prefix_rfl

/-- A rollback leaves a version whose window begins after its end. -/
theorem rows_readable_counterexample :
    ¬∀ (s : MetadataStore) (calls : List LifecycleCall), s.documents = [] →
      RowsReadable (runCalls s calls) := by
  intro h
  obtain ⟨found, hfound⟩ := (h Sample.store
    (replaceCalls ++ [.rollbackActiveVersion 3 Sample.doc none none]) rfl).document ⟨Sample.doc, "v1"⟩
  have hraises : (runCalls Sample.store
      (replaceCalls ++ [.rollbackActiveVersion 3 Sample.doc none none])).getDocument
        ⟨Sample.doc, "v1"⟩ = .error .validationError := rfl
  rw [hraises] at hfound
  simp at hfound

end Runs

end AgenticRag.MetadataStore
