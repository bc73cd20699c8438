import AgenticRag.Storage.MetadataStore

/-!
# What each store method can do

One inversion lemma per method: the outcomes it has and the tables it changes.
Later modules use these lemmas and never unfold a method again.
-/

namespace AgenticRag.MetadataStore

open Routine

section Lookups

theorem documentRow_mem {s : MetadataStore} {ref : VersionRef} {row : DocumentRow}
    (h : s.documentRow ref = some row) : row ∈ s.documents ∧ row.ref = ref := by
  obtain ⟨hmem, href⟩ := Table.selectOne_some h
  exact ⟨hmem, by simpa [ofVersion] using href⟩

theorem documentRow_none {s : MetadataStore} {ref : VersionRef} :
    s.documentRow ref = none ↔ ∀ row ∈ s.documents, row.ref ≠ ref := by
  simp [documentRow, Table.selectOne_none, ofVersion]

theorem buildRow_mem {s : MetadataStore} {ref : VersionRef} {row : BuildRow}
    (h : s.buildRow ref = some row) : row ∈ s.builds ∧ row.ref = ref := by
  obtain ⟨hmem, href⟩ := Table.selectOne_some h
  exact ⟨hmem, by simpa using href⟩

theorem jobRow_mem {s : MetadataStore} {jobId : String} {row : JobRow}
    (h : s.jobRow jobId = some row) : row ∈ s.jobs ∧ row.jobId = jobId := by
  obtain ⟨hmem, hid⟩ := Table.selectOne_some h
  exact ⟨hmem, by simpa using hid⟩

theorem jobRow_none {s : MetadataStore} {jobId : String} :
    s.jobRow jobId = none ↔ ∀ row ∈ s.jobs, row.jobId ≠ jobId := by
  simp [jobRow, Table.selectOne_none]

theorem getActiveVersion_some {s : MetadataStore} {doc : DocRef} {version : String}
    (h : s.getActiveVersion doc = some version) :
    ∃ row ∈ s.documents, row.ref = ⟨doc, version⟩ ∧ row.status = .active := by
  unfold getActiveVersion at h
  cases hrow : Table.selectOne (activeOf doc) s.documents with
  | none => simp [hrow] at h
  | some row =>
    obtain ⟨hmem, hactive⟩ := Table.selectOne_some hrow
    simp only [activeOf, ofDoc, Bool.and_eq_true, decide_eq_true_eq] at hactive
    simp only [hrow, Option.map_some, Option.some.injEq] at h
    refine ⟨row, hmem, ?_, hactive.2⟩
    rw [← h, ← hactive.1]

theorem getActiveVersion_none {s : MetadataStore} {doc : DocRef} :
    s.getActiveVersion doc = none ↔
      ∀ row ∈ s.documents, row.ref.doc = doc → row.status ≠ .active := by
  simp [getActiveVersion, Table.selectOne_none, activeOf, ofDoc]

/-- A document that was read has the columns of its row. -/
theorem readDocument_some {found : Option DocumentRow} {document : SourceDocument}
    (h : readDocument found = .ok (some document)) :
    ∃ row, found = some row ∧ document.toDocumentColumns = row.toDocumentColumns := by
  unfold readDocument at h
  cases found with
  | none => simp at h
  | some row =>
    refine ⟨row, rfl, ?_⟩
    simp only [rowToDocument] at h
    split at h
    · simp only [Except.map, Except.ok.injEq, Option.some.injEq] at h
      rw [← h]
    · simp [Except.map] at h

theorem getDocument_some {s : MetadataStore} {ref : VersionRef} {document : SourceDocument}
    (h : s.getDocument ref = .ok (some document)) :
    ∃ row, s.documentRow ref = some row ∧
      document.toDocumentColumns = row.toDocumentColumns :=
  readDocument_some h

end Lookups

section Statements

/-- An `UPDATE` of `documents` succeeds with the updated table or raises and
changes nothing. -/
theorem updateDocuments_cases {p : DocumentRow → Bool} {f : DocumentRow → DocumentRow}
    {s t : MetadataStore} {r : Except PyError Nat} (h : updateDocuments p f s = (r, t)) :
    (r = .ok (Table.select p s.documents).length ∧
        t = { s with documents := Table.update p f s.documents }) ∨
      (r = .error .integrityError ∧ t = s) := by
  unfold updateDocuments at h
  simp only at h
  split at h
  · obtain ⟨rfl, rfl⟩ := Prod.mk.inj h
    exact Or.inl ⟨rfl, rfl⟩
  · obtain ⟨rfl, rfl⟩ := Prod.mk.inj h
    exact Or.inr ⟨rfl, rfl⟩

theorem insertDocument_cases {row : DocumentRow} {s t : MetadataStore} {r : Except PyError Unit}
    (h : insertDocument row s = (r, t)) :
    (r = .ok () ∧ t = { s with documents := Table.insert row s.documents } ∧
        (row.status = .active → s.getActiveVersion row.ref.doc = none)) ∨
      (r = .error .integrityError ∧ t = s) := by
  unfold insertDocument at h
  split at h
  · rename_i hallowed
    obtain ⟨rfl, rfl⟩ := Prod.mk.inj h
    refine Or.inl ⟨rfl, rfl, fun hactive => ?_⟩
    simpa [hactive] using hallowed.2
  · obtain ⟨rfl, rfl⟩ := Prod.mk.inj h
    exact Or.inr ⟨rfl, rfl⟩

/-- A step marker is written iff it exists already or its job does. -/
theorem markStep_cases {jobId : String} {step : Step} {status : String} {s t : MetadataStore}
    {r : Except PyError Unit} (h : markStep jobId step status s = (r, t)) :
    (r = .ok () ∧ t = { s with steps := t.steps } ∧
        ∀ row ∈ t.steps, row ∈ s.steps ∨
          (row = ⟨jobId, step, status⟩ ∧
            ((s.jobRow jobId).isSome ∨ ∃ old ∈ s.steps, old.jobId = jobId))) ∨
      (r = .error .integrityError ∧ t = s ∧ s.jobRow jobId = none) := by
  unfold markStep at h
  simp only at h
  split at h
  · rename_i hexists
    obtain ⟨rfl, rfl⟩ := Prod.mk.inj h
    refine Or.inl ⟨rfl, rfl, ?_⟩
    intro row hrow
    rcases Table.mem_update.mp hrow with ⟨old, hold, hsame, rfl⟩ | ⟨hmem, -⟩
    · simp only [decide_eq_true_eq] at hsame
      obtain ⟨rfl, rfl⟩ := hsame
      exact Or.inr ⟨rfl, Or.inr ⟨old, hold, rfl⟩⟩
    · exact Or.inl hmem
  · split at h
    · rename_i hjob
      obtain ⟨rfl, rfl⟩ := Prod.mk.inj h
      refine Or.inl ⟨rfl, rfl, ?_⟩
      intro row hrow
      rcases Table.mem_insert.mp hrow with hmem | rfl
      · exact Or.inl hmem
      · exact Or.inr ⟨rfl, Or.inl hjob⟩
    · rename_i hjob
      obtain ⟨rfl, rfl⟩ := Prod.mk.inj h
      exact Or.inr ⟨rfl, rfl, by simpa using hjob⟩

end Statements

section AcquireJob

/-- The lease row an acquire leaves behind. -/
def leaseFor (args : AcquireArgs) (generation : Nat) (previousVersion : Option String) : BuildRow :=
  { ref := args.ref
    ownerJobId := args.jobId
    status := .running
    baseRevision := args.baseRevision
    leaseGeneration := generation
    previousActiveVersion := previousVersion
    attemptId := args.attemptId }

/-- The lease can be taken over or renewed by these arguments. -/
def Claimable (s : MetadataStore) (args : AcquireArgs) (lease : BuildRow) : Prop :=
  if lease.ownerJobId ≠ args.jobId then
    (s.getJobStatus lease.ownerJobId).any JobStatus.inFlight = false
  else
    lease.status = .running → lease.attemptId ≠ args.attemptId → args.recover = true

/-- `claimLease` inserts generation 1, or advances the generation of a claimable
lease, or raises `BuildConflict` on one that is not. -/
theorem claimLease_cases {args : AcquireArgs} {s t : MetadataStore}
    {r : Except PyError (Nat × Option String)} (h : claimLease args s = (r, t)) :
    (s.buildRow args.ref = none ∧ r = .ok (1, s.getActiveVersion args.ref.doc) ∧
        t = { s with
          builds := Table.insert (leaseFor args 1 (s.getActiveVersion args.ref.doc)) s.builds }) ∨
      (∃ lease, s.buildRow args.ref = some lease ∧ Claimable s args lease ∧
        r = .ok (lease.leaseGeneration + 1, lease.previousActiveVersion) ∧
        t = { s with
          builds := Table.update (fun row => decide (row.ref = args.ref))
            (fun _ => leaseFor args (lease.leaseGeneration + 1) lease.previousActiveVersion)
            s.builds }) ∨
      (∃ lease reason, s.buildRow args.ref = some lease ∧ ¬Claimable s args lease ∧
        r = .error (.buildConflict reason) ∧ t = s) := by
  unfold claimLease at h
  rw [get_bind] at h
  have hrenew : ∀ lease : BuildRow,
      Table.update (fun row => decide (row.ref = args.ref))
        (fun row => { row with
          ownerJobId := args.jobId
          status := .running
          baseRevision := args.baseRevision
          leaseGeneration := lease.leaseGeneration + 1
          previousActiveVersion := lease.previousActiveVersion
          attemptId := args.attemptId }) s.builds =
      Table.update (fun row => decide (row.ref = args.ref))
        (fun _ => leaseFor args (lease.leaseGeneration + 1) lease.previousActiveVersion)
        s.builds := by
    intro lease
    apply List.map_congr_left
    intro row _
    by_cases href : row.ref = args.ref
    · simp [href, leaseFor]
    · simp [href]
  cases hlease : s.buildRow args.ref with
  | none =>
    left
    simp only [hlease] at h
    obtain ⟨rfl, rfl⟩ := Prod.mk.inj h
    exact ⟨rfl, rfl, rfl⟩
  | some lease =>
    right
    simp only [hlease] at h
    by_cases howner : lease.ownerJobId = args.jobId
    · by_cases hlive : lease.status = .running ∧ lease.attemptId ≠ args.attemptId ∧
          args.recover = false
      · right
        simp only [howner, ne_eq, not_true_eq_false, if_false, hlive] at h
        obtain ⟨rfl, rfl⟩ := Prod.mk.inj h
        refine ⟨lease, _, rfl, ?_, rfl, rfl⟩
        simp [Claimable, howner, hlive]
      · left
        simp only [howner, ne_eq, not_true_eq_false, if_false, hlive] at h
        obtain ⟨rfl, rfl⟩ := Prod.mk.inj h
        refine ⟨lease, rfl, ?_, rfl, by rw [← hrenew]⟩
        simp only [Claimable, howner, ne_eq, not_true_eq_false, if_false]
        intro hrunning hattempt
        by_contra hrecover
        exact hlive ⟨hrunning, hattempt, by simpa using hrecover⟩
    · by_cases hflight : (s.getJobStatus lease.ownerJobId).any JobStatus.inFlight = true
      · right
        simp only [howner, ne_eq, not_false_eq_true, if_true, hflight] at h
        obtain ⟨rfl, rfl⟩ := Prod.mk.inj h
        refine ⟨lease, _, rfl, ?_, rfl, rfl⟩
        simp [Claimable, howner, hflight]
      · left
        simp only [howner, ne_eq, not_false_eq_true, if_true, hflight, Bool.false_eq_true,
          if_false] at h
        obtain ⟨rfl, rfl⟩ := Prod.mk.inj h
        refine ⟨lease, rfl, ?_, rfl, by rw [← hrenew]⟩
        simp only [Claimable, ne_eq, howner, not_false_eq_true, if_true]
        simpa using hflight

/-- The document row of an acquire is inserted with revision 0, refreshed while
it was never activated, or left alone. -/
theorem upsertDocumentBuild_cases {document : SourceDocument} {s t : MetadataStore}
    {r : Except PyError Unit} (h : upsertDocumentBuild document s = (r, t)) :
    (s.documentRow document.ref = none ∧ r = .ok () ∧
        t = { s with
          documents := Table.insert { document.toDocumentColumns with lifecycleRevision := 0 }
            s.documents } ∧
        (document.status = .active → s.getActiveVersion document.ref.doc = none)) ∨
      (∃ row, s.documentRow document.ref = some row ∧
        (row.status = .processing ∨ row.status = .failed) ∧ r = .ok () ∧
        t = { s with
          documents := Table.update (ofVersion document.ref)
            (fun row => { document.toDocumentColumns with
              lifecycleRevision := row.lifecycleRevision }) s.documents }) ∨
      (∃ row, s.documentRow document.ref = some row ∧
        ¬(row.status = .processing ∨ row.status = .failed) ∧ r = .ok () ∧ t = s) ∨
      (r = .error .integrityError ∧ t = s) := by
  unfold upsertDocumentBuild at h
  rw [get_bind] at h
  cases hrow : s.documentRow document.ref with
  | none =>
    simp only [hrow] at h
    rcases insertDocument_cases h with ⟨rfl, rfl, hactive⟩ | ⟨rfl, rfl⟩
    · exact Or.inl ⟨rfl, rfl, rfl, hactive⟩
    · exact Or.inr (Or.inr (Or.inr ⟨rfl, rfl⟩))
  | some row =>
    simp only [hrow] at h
    right
    by_cases hopen : row.status = .processing ∨ row.status = .failed
    · rw [if_pos hopen] at h
      rcases bind_cases h with ⟨e, hupdate, rfl⟩ | ⟨count, s', hupdate, hdone⟩
      · rcases updateDocuments_cases hupdate with ⟨hok, -⟩ | ⟨herr, rfl⟩
        · simp at hok
        · obtain rfl := Except.error.inj herr
          exact Or.inr (Or.inr ⟨rfl, rfl⟩)
      · rcases updateDocuments_cases hupdate with ⟨-, rfl⟩ | ⟨herr, -⟩
        · obtain ⟨rfl, rfl⟩ := Prod.mk.inj hdone
          exact Or.inl ⟨row, rfl, hopen, rfl, rfl⟩
        · simp at herr
    · rw [if_neg hopen] at h
      obtain ⟨rfl, rfl⟩ := Prod.mk.inj h
      exact Or.inr (Or.inl ⟨row, rfl, hopen, rfl, rfl⟩)

/-- The job row a first acquire inserts. -/
def jobFor (args : AcquireArgs) (previousVersion : Option String) : JobRow :=
  { jobId := args.jobId
    ref := args.ref
    status := .running
    rawHash := args.rawHash
    baseRevision := args.baseRevision
    previousActiveVersion := previousVersion
    parentCount := 0
    childCount := 0
    errorCode := none
    manifest := none }

/-- Re-acquiring puts a finished job back to running; its base revision stays. -/
def reopenJob (previousVersion : Option String) (row : JobRow) : JobRow :=
  { row with
    status := .running
    errorCode := none
    previousActiveVersion := previousVersion }

theorem bindJobRow_cases {args : AcquireArgs} {previousVersion : Option String}
    {s t : MetadataStore} {r : Except PyError JobStatus}
    (h : bindJobRow args previousVersion s = (r, t)) :
    (s.jobRow args.jobId = none ∧ (s.documentRow args.ref).isSome ∧ r = .ok .running ∧
        t = { s with jobs := Table.insert (jobFor args previousVersion) s.jobs }) ∨
      (∃ row, s.jobRow args.jobId = some row ∧ row.ref = args.ref ∧ row.rawHash = args.rawHash ∧
        row.status ≠ .running ∧ r = .ok .running ∧
        t = { s with
          jobs := Table.update (fun row => decide (row.jobId = args.jobId))
            (reopenJob previousVersion) s.jobs }) ∨
      (∃ row, s.jobRow args.jobId = some row ∧ row.ref = args.ref ∧ row.rawHash = args.rawHash ∧
        row.status = .running ∧ r = .ok .running ∧ t = s) ∨
      ((∃ e, r = .error e) ∧ t = s) := by
  unfold bindJobRow at h
  rw [get_bind] at h
  cases hrow : s.jobRow args.jobId with
  | none =>
    simp only [hrow] at h
    rcases bind_cases h with ⟨e, hinsert, rfl⟩ | ⟨_, s', hinsert, hdone⟩
    · unfold insertJob at hinsert
      split at hinsert
      · simp at hinsert
      · exact Or.inr (Or.inr (Or.inr ⟨⟨e, rfl⟩, (Prod.mk.inj hinsert).2.symm⟩))
    · unfold insertJob at hinsert
      split at hinsert
      · rename_i hdocument
        obtain ⟨-, rfl⟩ := Prod.mk.inj hinsert
        obtain ⟨rfl, rfl⟩ := Prod.mk.inj hdone
        exact Or.inl ⟨rfl, hdocument, rfl, rfl⟩
      · simp at hinsert
  | some row =>
    simp only [hrow] at h
    right
    by_cases hidentity : row.ref ≠ args.ref ∨ row.rawHash ≠ args.rawHash
    · rw [if_pos hidentity] at h
      obtain ⟨rfl, rfl⟩ := Prod.mk.inj h
      exact Or.inr (Or.inr ⟨⟨_, rfl⟩, rfl⟩)
    · rw [if_neg hidentity] at h
      push Not at hidentity
      by_cases hrunning : row.status = .running
      · rw [if_neg (by simpa using hrunning)] at h
        obtain ⟨rfl, rfl⟩ := Prod.mk.inj h
        exact Or.inr (Or.inl ⟨row, rfl, hidentity.1, hidentity.2, hrunning, by rw [hrunning], rfl⟩)
      · rw [if_pos hrunning] at h
        obtain ⟨rfl, rfl⟩ := Prod.mk.inj h
        exact Or.inl ⟨row, rfl, hidentity.1, hidentity.2, hrunning, rfl, rfl⟩

/-- A committed acquire is its three parts run one after the other. -/
theorem acquireJobTransaction_ok {args : AcquireArgs} {s t : MetadataStore}
    {status : JobStatus} {generation : Nat}
    (h : acquireJobTransaction args s = (.ok (status, generation), t)) :
    ∃ previousVersion s₁ s₂,
      claimLease args s = (.ok (generation, previousVersion), s₁) ∧
      upsertOptionalDocument args.document s₁ = (.ok (), s₂) ∧
      bindJobRow args previousVersion s₂ = (.ok status, t) := by
  unfold acquireJobTransaction at h
  rw [transaction_ok] at h
  rcases bind_cases h with ⟨e, -, herr⟩ | ⟨⟨g, previousVersion⟩, s₁, hclaim, h⟩
  · simp at herr
  rcases bind_cases h with ⟨e, -, herr⟩ | ⟨_, s₂, hupsert, h⟩
  · simp at herr
  rcases bind_cases h with ⟨e, -, herr⟩ | ⟨bound, s₃, hbind, h⟩
  · simp at herr
  simp only [pure_apply, Prod.mk.injEq, Except.ok.injEq] at h
  obtain ⟨⟨rfl, rfl⟩, rfl⟩ := h
  exact ⟨previousVersion, s₁, s₂, hclaim, hupsert, hbind⟩

/-- After a committed acquire the job row exists, so its marker can be written. -/
theorem acquireJobTransaction_jobRow {args : AcquireArgs} {s t : MetadataStore}
    {claimed : JobStatus × Nat} (h : acquireJobTransaction args s = (.ok claimed, t)) :
    ∃ row ∈ t.jobs, row.jobId = args.jobId ∧ row.ref = args.ref := by
  obtain ⟨previousVersion, s₁, s₂, -, -, hbind⟩ := acquireJobTransaction_ok h
  rcases bindJobRow_cases hbind with ⟨-, -, -, rfl⟩ | ⟨row, hrow, href, -, -, -, rfl⟩ |
      ⟨row, hrow, href, -, -, -, rfl⟩ | ⟨⟨e, herr⟩, -⟩
  · exact ⟨jobFor args previousVersion, Table.mem_insert.mpr (Or.inr rfl), rfl, rfl⟩
  · obtain ⟨hmem, hid⟩ := jobRow_mem hrow
    refine ⟨reopenJob previousVersion row, Table.mem_update.mpr (Or.inl ⟨row, hmem, ?_, rfl⟩), hid,
      href⟩
    simpa using hid
  · obtain ⟨hmem, hid⟩ := jobRow_mem hrow
    exact ⟨row, hmem, hid, href⟩
  · simp at herr

/-- `acquire_job` either raises inside its transaction, or commits and marks the
step; the marker cannot fail because the job row was just bound. -/
theorem acquireJob_cases {args : AcquireArgs} {s t : MetadataStore}
    {r : Except PyError (JobStatus × Nat)} (h : acquireJob args s = (r, t)) :
    (∃ e, acquireJobTransaction args s = (.error e, s) ∧ r = .error e ∧ t = s) ∨
      (∃ claimed s', acquireJobTransaction args s = (.ok claimed, s') ∧ r = .ok claimed ∧
        markStep args.jobId .acquire "done" s' = (.ok (), t)) := by
  unfold acquireJob at h
  rcases bind_cases h with ⟨e, htxn, rfl⟩ | ⟨claimed, s', htxn, h⟩
  · obtain rfl := transaction_error htxn
    exact Or.inl ⟨e, htxn, rfl, rfl⟩
  · right
    rcases bind_cases h with ⟨e, hmark, rfl⟩ | ⟨_, s'', hmark, h⟩
    · obtain ⟨row, hrow, hid, -⟩ := acquireJobTransaction_jobRow htxn
      rcases markStep_cases hmark with ⟨hok, -⟩ | ⟨-, -, hnone⟩
      · simp at hok
      · exact absurd hid (jobRow_none.mp hnone row hrow)
    · obtain ⟨rfl, rfl⟩ := Prod.mk.inj h
      exact ⟨claimed, s', htxn, rfl, hmark⟩

end AcquireJob

section ActiveVersion

/-- The table after the previously active version, if any, was demoted. -/
def demotedDocuments (now : Timestamp) (doc : DocRef) (revision : Nat) :
    Option String → List DocumentRow → List DocumentRow
  | some old, documents => Table.update (ofVersion ⟨doc, old⟩) (demoteRow now revision) documents
  | none, documents => documents

/-- The table after `previous` was demoted and `new` activated. -/
def switchDocuments (now : Timestamp) (doc : DocRef) (revision : Nat) (previous : Option String)
    (new : String) (documents : List DocumentRow) : List DocumentRow :=
  Table.update (ofVersion ⟨doc, new⟩) (activateRow now revision)
    (demotedDocuments now doc revision previous documents)

/-- Demoting and then activating succeeds with the switched table, or fails and
the transaction around it rolls back. -/
private theorem demote_activate_ok {now : Timestamp} {doc : DocRef} {revision : Nat}
    {previous : Option String} {new : String} {conflict : SwitchConflict}
    {value result : Nat × Option String} {s t : MetadataStore}
    (h : (do
        demotePrevious now doc revision previous
        let rowcount ← updateDocuments (ofVersion ⟨doc, new⟩) (activateRow now revision)
        if rowcount = 0 then raise (.activeVersionConflict conflict) else pure value :
          StoreMethod (Nat × Option String)) s = (.ok result, t)) :
    result = value ∧
      t = { s with documents := switchDocuments now doc revision previous new s.documents } ∧
      ∃ row ∈ demotedDocuments now doc revision previous s.documents, row.ref = ⟨doc, new⟩ := by
  rcases bind_cases h with ⟨e, -, herr⟩ | ⟨_, s₁, hdemote, h⟩
  · simp at herr
  have hs₁ : s₁ = { s with
      documents := demotedDocuments now doc revision previous s.documents } := by
    cases previous with
    | none =>
      simp only [demotePrevious, pure_apply, Prod.mk.injEq] at hdemote
      exact hdemote.2.symm
    | some old =>
      simp only [demotePrevious] at hdemote
      rcases bind_cases hdemote with ⟨e, -, herr⟩ | ⟨_, s', hupdate, hdone⟩
      · simp at herr
      · obtain ⟨-, rfl⟩ := Prod.mk.inj hdone
        rcases updateDocuments_cases hupdate with ⟨-, rfl⟩ | ⟨herr, -⟩
        · rfl
        · simp at herr
  rcases bind_cases h with ⟨e, -, herr⟩ | ⟨rowcount, s₂, hupdate, h⟩
  · simp at herr
  rcases updateDocuments_cases hupdate with ⟨hcount, rfl⟩ | ⟨herr, -⟩
  · obtain rfl := Except.ok.inj hcount
    by_cases hzero : (Table.select (ofVersion ⟨doc, new⟩) s₁.documents).length = 0
    · rw [if_pos hzero] at h
      simp at h
    · rw [if_neg hzero] at h
      obtain ⟨hvalue, rfl⟩ := Prod.mk.inj h
      obtain ⟨row, hrow⟩ := List.exists_mem_of_length_pos (Nat.pos_of_ne_zero hzero)
      refine ⟨(Except.ok.inj hvalue).symm, by rw [hs₁]; rfl, row, ?_, ?_⟩
      · have hmem := (Table.mem_select.mp hrow).1
        rw [hs₁] at hmem
        exact hmem
      · simpa [ofVersion] using (Table.mem_select.mp hrow).2
  · simp at herr

/-- `commit_active_version` finds the version active already, or wins the
compare-and-swap and switches, or raises and changes nothing. -/
theorem commitActiveVersion_cases {now : Timestamp} {doc : DocRef} {new : String}
    {expected : Nat} {s t : MetadataStore} {r : Except PyError (Nat × Option String)}
    (h : commitActiveVersion now doc new expected s = (r, t)) :
    (s.getActiveVersion doc = some new ∧
        r = .ok (s.getCurrentRevision doc, some new) ∧ t = s) ∨
      (s.getActiveVersion doc ≠ some new ∧ s.getCurrentRevision doc = expected ∧
        r = .ok (expected + 1, s.getActiveVersion doc) ∧
        t = { s with
          documents := switchDocuments now doc (expected + 1) (s.getActiveVersion doc) new
            s.documents } ∧
        ∃ row ∈ s.documents, row.ref = ⟨doc, new⟩) ∨
      (∃ e, r = .error e ∧ t = s) := by
  unfold commitActiveVersion at h
  cases r with
  | error e => exact Or.inr (Or.inr ⟨e, rfl, transaction_error h⟩)
  | ok value =>
    rw [transaction_ok, get_bind] at h
    simp only at h
    by_cases hsame : s.getActiveVersion doc = some new
    · rw [if_pos hsame] at h
      obtain ⟨hvalue, rfl⟩ := Prod.mk.inj h
      refine Or.inl ⟨hsame, ?_, rfl⟩
      rw [← hvalue, hsame]
    · rw [if_neg hsame] at h
      right
      by_cases hstale : s.getCurrentRevision doc ≠ expected
      · rw [if_pos hstale] at h
        simp at h
      · rw [if_neg hstale] at h
        push Not at hstale
        obtain ⟨rfl, rfl, row, hrow, href⟩ := demote_activate_ok h
        refine Or.inl ⟨hsame, hstale, by rw [hstale], by rw [hstale], ?_⟩
        cases hprevious : s.getActiveVersion doc with
        | none =>
          rw [hprevious] at hrow
          exact ⟨row, hrow, href⟩
        | some old =>
          rw [hprevious] at hrow
          rcases Table.mem_update.mp hrow with ⟨before, hmem, -, rfl⟩ | ⟨hmem, -⟩
          · exact ⟨before, hmem, href⟩
          · exact ⟨row, hmem, href⟩

/-- `rollback_active_version` never picks a deleted version. -/
theorem rollbackActiveVersion_cases {now : Timestamp} {doc : DocRef}
    {toVersion : Option String} {expected : Option Nat} {s t : MetadataStore}
    {r : Except PyError (Nat × Option String)}
    (h : rollbackActiveVersion now doc toVersion expected s = (r, t)) :
    (∃ previous, s.getActiveVersion doc = some previous ∧
        r = .ok (s.getCurrentRevision doc, some previous) ∧ t = s) ∨
      (∃ previous target row, s.getActiveVersion doc = some previous ∧ target ≠ previous ∧
        s.documentRow ⟨doc, target⟩ = some row ∧ row.status ≠ .deleted ∧
        (toVersion.or ((s.rollbackCandidate doc).map (·.ref.version)) = some target ∧
          (expected = none ∨ expected = some (s.getCurrentRevision doc))) ∧
        r = .ok (s.getCurrentRevision doc + 1, some previous) ∧
        t = { s with
          documents := switchDocuments now doc (s.getCurrentRevision doc + 1) (some previous)
            target s.documents }) ∨
      (∃ e, r = .error e ∧ t = s) := by
  unfold rollbackActiveVersion at h
  cases r with
  | error e => exact Or.inr (Or.inr ⟨e, rfl, transaction_error h⟩)
  | ok value =>
    rw [transaction_ok, get_bind] at h
    simp only at h
    cases hactive : s.getActiveVersion doc with
    | none =>
      simp only [hactive] at h
      simp at h
    | some previous =>
      simp only [hactive] at h
      rcases bind_cases h with ⟨e, -, herr⟩ | ⟨target, s₁, htarget, h⟩
      · simp at herr
      have hresolved : s₁ = s ∧
          toVersion.or ((s.rollbackCandidate doc).map (·.ref.version)) = some target := by
        unfold resolveRollbackTarget at htarget
        rw [get_bind] at htarget
        cases toVersion with
        | some version =>
          obtain ⟨hv, rfl⟩ := Prod.mk.inj htarget
          exact ⟨rfl, by rw [Option.some_or, Except.ok.inj hv]⟩
        | none =>
          cases hcandidate : s.rollbackCandidate doc with
          | some row =>
            simp only [hcandidate] at htarget
            obtain ⟨hv, rfl⟩ := Prod.mk.inj htarget
            exact ⟨rfl, by rw [Option.none_or, Option.map_some, Except.ok.inj hv]⟩
          | none =>
            simp only [hcandidate] at htarget
            simp at htarget
      obtain ⟨rfl, hnamed⟩ := hresolved
      cases hrow : s₁.documentRow ⟨doc, target⟩ with
      | none =>
        simp only [hrow] at h
        simp at h
      | some row =>
        simp only [hrow] at h
        by_cases hdeleted : row.status = .deleted
        · rw [if_pos hdeleted] at h
          simp at h
        rw [if_neg hdeleted] at h
        by_cases hsame : target = previous
        · rw [if_pos hsame] at h
          obtain ⟨hvalue, rfl⟩ := Prod.mk.inj h
          exact Or.inl ⟨previous, rfl, by rw [← hvalue], rfl⟩
        rw [if_neg hsame] at h
        by_cases hstale : expected ≠ none ∧ expected ≠ some (s₁.getCurrentRevision doc)
        · rw [if_pos hstale] at h
          simp at h
        · rw [if_neg hstale] at h
          have hfresh : expected = none ∨ expected = some (s₁.getCurrentRevision doc) := by tauto
          obtain ⟨rfl, rfl, -⟩ := demote_activate_ok h
          exact Or.inr (Or.inl ⟨previous, target, row, rfl, hsame, hrow, hdeleted,
            ⟨hnamed, hfresh⟩, rfl, rfl⟩)

theorem latestBy_mem {later : Bool} {rows : List DocumentRow} {row : DocumentRow}
    (h : latestBy later rows = some row) : row ∈ rows := by
  induction rows generalizing row with
  | nil => simp [latestBy] at h
  | cons first rows ih =>
    unfold latestBy at h
    cases hrest : latestBy later rows with
    | none =>
      simp only [hrest, Option.some.injEq] at h
      simp [h]
    | some best =>
      simp only [hrest] at h
      split at h
      · simp only [Option.some.injEq] at h
        simp [h]
      · simp only [Option.some.injEq] at h
        exact List.mem_cons_of_mem _ (ih (h ▸ hrest))

/-- The latest version that is found is one of the document asked for. -/
theorem getDocumentLatest_doc {s : MetadataStore} {doc : DocRef} {document : SourceDocument}
    (h : s.getDocumentLatest doc = .ok (some document)) : document.ref.doc = doc := by
  obtain ⟨row, hrow, hcolumns⟩ := readDocument_some h
  have hof := (Table.mem_select.mp (latestBy_mem hrow)).2
  rw [hcolumns]
  exact of_decide_eq_true hof

/-- The active version that is found is one of the document asked for. -/
theorem getActiveDocument_doc {s : MetadataStore} {doc : DocRef} {document : SourceDocument}
    (h : s.getActiveDocument doc = .ok (some document)) : document.ref.doc = doc := by
  obtain ⟨row, hrow, hcolumns⟩ := readDocument_some h
  have hof := (Table.selectOne_some hrow).2
  simp only [activeOf, ofDoc, Bool.and_eq_true, decide_eq_true_eq] at hof
  rw [hcolumns]
  exact hof.1

/-- `logical_delete` deletes one active version or changes nothing. -/
theorem logicalDelete_cases {deletedAt : Timestamp} {ref : VersionRef} {s t : MetadataStore}
    {r : Except PyError Nat} (h : logicalDelete deletedAt ref s = (r, t)) :
    (∃ row ∈ s.documents, row.ref.doc = ref.doc ∧ row.status = .active ∧
        r = .ok (row.lifecycleRevision + 1) ∧
        t = { s with
          documents := Table.update (ofVersion row.ref)
            (deleteRow deletedAt (row.lifecycleRevision + 1)) s.documents }) ∨
      t = s := by
  unfold logicalDelete at h
  cases r with
  | error e => exact Or.inr (transaction_error h)
  | ok value =>
    rw [transaction_ok, get_bind] at h
    cases htarget : s.documentRow ref with
    | none =>
      simp only [htarget] at h
      exact Or.inr (Prod.mk.inj h).2.symm
    | some target =>
      simp only [htarget] at h
      by_cases hdeleted : target.status = .deleted
      · rw [if_pos hdeleted] at h
        exact Or.inr (Prod.mk.inj h).2.symm
      rw [if_neg hdeleted] at h
      -- the victim is an active version of the document in both cases
      have hvictim : ∀ row,
          (if target.status = .active then some target
            else latestBy true (Table.select (activeOf ref.doc) s.documents)) = some row →
          row ∈ s.documents ∧ row.ref.doc = ref.doc ∧ row.status = .active := by
        intro row hrow
        by_cases hactive : target.status = .active
        · rw [if_pos hactive] at hrow
          obtain rfl := Option.some.inj hrow
          obtain ⟨hmem, href⟩ := documentRow_mem htarget
          exact ⟨hmem, by rw [href], hactive⟩
        · rw [if_neg hactive] at hrow
          obtain ⟨hmem, hof⟩ := Table.mem_select.mp (latestBy_mem hrow)
          simp only [activeOf, ofDoc, Bool.and_eq_true, decide_eq_true_eq] at hof
          exact ⟨hmem, hof⟩
      cases hchoice : (if target.status = .active then some target
            else latestBy true (Table.select (activeOf ref.doc) s.documents)) with
      | none =>
        simp only [hchoice] at h
        exact Or.inr (Prod.mk.inj h).2.symm
      | some row =>
        simp only [hchoice] at h
        obtain ⟨hmem, hdoc, hactive⟩ := hvictim row hchoice
        have href : (⟨ref.doc, row.ref.version⟩ : VersionRef) = row.ref := by rw [← hdoc]
        rw [href] at h
        rcases bind_cases h with ⟨e, -, herr⟩ | ⟨_, s', hupdate, hdone⟩
        · simp at herr
        rcases updateDocuments_cases hupdate with ⟨-, rfl⟩ | ⟨herr, -⟩
        · obtain ⟨hvalue, rfl⟩ := Prod.mk.inj hdone
          exact Or.inl ⟨row, hmem, hdoc, hactive, hvalue.symm, rfl⟩
        · simp at herr

/-- `update_document_acl` rewrites an active version and advances its revision,
or changes nothing. -/
theorem updateDocumentAcl_cases {ref : VersionRef} {acl : AclFields} {s t : MetadataStore}
    {r : Except PyError Unit} (h : updateDocumentAcl ref acl s = (r, t)) :
    (∃ row, s.documentRow ref = some row ∧ row.status = .active ∧ r = .ok () ∧
        t = { s with
          documents := Table.update (ofVersion ref)
            (fun old => { old with acl, lifecycleRevision := row.lifecycleRevision + 1 })
            s.documents }) ∨
      (r = .ok () ∧ t = s ∧ ∀ row, s.documentRow ref = some row → row.status ≠ .active) ∨
      ((∃ e, r = .error e) ∧ t = s) := by
  unfold updateDocumentAcl at h
  cases r with
  | error e => exact Or.inr (Or.inr ⟨⟨e, rfl⟩, transaction_error h⟩)
  | ok value =>
    rw [transaction_ok, get_bind] at h
    cases hrow : s.documentRow ref with
    | none =>
      simp only [hrow] at h
      exact Or.inr (Or.inl ⟨rfl, (Prod.mk.inj h).2.symm, by simp⟩)
    | some row =>
      simp only [hrow] at h
      by_cases hactive : row.status = .active
      · rw [if_neg (by simpa using hactive)] at h
        rcases bind_cases h with ⟨e, -, herr⟩ | ⟨_, s', hupdate, hdone⟩
        · simp at herr
        rcases updateDocuments_cases hupdate with ⟨-, rfl⟩ | ⟨herr, -⟩
        · obtain ⟨-, rfl⟩ := Prod.mk.inj hdone
          exact Or.inl ⟨row, rfl, hactive, rfl, rfl⟩
        · simp at herr
      · rw [if_pos hactive] at h
        refine Or.inr (Or.inl ⟨rfl, (Prod.mk.inj h).2.symm, ?_⟩)
        intro row' hrow'
        obtain rfl := Option.some.inj hrow'
        exact hactive

/-- The rows `mark_document_failed` touches. -/
def openOf (ref : VersionRef) (row : DocumentRow) : Bool :=
  ofVersion ref row && decide (row.status = .processing ∨ row.status = .failed)

theorem markDocumentFailed_cases {ref : VersionRef} {s t : MetadataStore}
    {r : Except PyError Unit} (h : markDocumentFailed ref s = (r, t)) :
    (r = .ok () ∧ t = { s with
        documents := Table.update (openOf ref)
          (fun row => { row with status := .failed, deprecated := false }) s.documents }) ∨
      ((∃ e, r = .error e) ∧ t = s) := by
  unfold markDocumentFailed at h
  rcases bind_cases h with ⟨e, hupdate, rfl⟩ | ⟨_, s', hupdate, hdone⟩
  · rcases updateDocuments_cases hupdate with ⟨hok, -⟩ | ⟨-, rfl⟩
    · simp at hok
    · exact Or.inr ⟨⟨e, rfl⟩, rfl⟩
  · obtain ⟨rfl, rfl⟩ := Prod.mk.inj hdone
    rcases updateDocuments_cases hupdate with ⟨-, rfl⟩ | ⟨herr, -⟩
    · exact Or.inl ⟨rfl, rfl⟩
    · simp at herr

end ActiveVersion

section Jobs

/-- The lease status a terminal job leaves behind. -/
def terminalLease : JobStatus → Option LeaseStatus
  | .succeeded => some .done
  | .failed => some .failed
  | _ => none

theorem markJobTerminal_eq (jobId : String) (status : JobStatus) (parentCount childCount : Nat)
    (errorCode : Option String) (s : MetadataStore) :
    markJobTerminal jobId status parentCount childCount errorCode s =
      (.ok (), { s with
        jobs := Table.update (fun row => decide (row.jobId = jobId))
          (fun row => { row with status, parentCount, childCount, errorCode }) s.jobs
        builds := match terminalLease status with
          | some lease => Table.update (fun row => decide (row.ownerJobId = jobId))
              (fun row => { row with status := lease }) s.builds
          | none => s.builds }) := by
  cases status <;> rfl

/-- `upsert_chunk_record` writes one row or raises. -/
theorem upsertChunkRecord_cases {chunk : ChunkRecord} {s t : MetadataStore}
    {r : Except PyError Unit} (h : upsertChunkRecord chunk s = (r, t)) :
    (r = .ok () ∧ (s.documentRow chunk.ref).isSome ∧ t = { s with chunks := t.chunks } ∧
        ∀ row, row ∈ t.chunks ↔
          row = chunk ∨ (row ∈ s.chunks ∧ row.chunkId ≠ chunk.chunkId)) ∨
      (r = .error .integrityError ∧ t = s) := by
  unfold upsertChunkRecord at h
  split at h
  · rename_i hdocument
    split at h
    · rename_i hexists
      obtain ⟨rfl, rfl⟩ := Prod.mk.inj h
      refine Or.inl ⟨rfl, hdocument, rfl, ?_⟩
      intro row
      simp only [Table.mem_update, decide_eq_true_eq, decide_eq_false_iff_not]
      obtain ⟨old, hold, hid⟩ := List.any_eq_true.mp hexists
      simp only [decide_eq_true_eq] at hid
      constructor
      · rintro (⟨_, -, -, rfl⟩ | h)
        · exact Or.inl rfl
        · exact Or.inr h
      · rintro (rfl | h)
        · exact Or.inl ⟨old, hold, hid, rfl⟩
        · exact Or.inr h
    · rename_i hfresh
      obtain ⟨rfl, rfl⟩ := Prod.mk.inj h
      refine Or.inl ⟨rfl, hdocument, rfl, ?_⟩
      intro row
      simp only [Table.mem_insert]
      simp only [List.any_eq_true, decide_eq_true_eq, not_exists, not_and] at hfresh
      constructor
      · rintro (hmem | rfl)
        · exact Or.inr ⟨hmem, hfresh row hmem⟩
        · exact Or.inl rfl
      · rintro (rfl | ⟨hmem, -⟩)
        · exact Or.inr rfl
        · exact Or.inl hmem
  · obtain ⟨rfl, rfl⟩ := Prod.mk.inj h
    exact Or.inr ⟨rfl, rfl⟩

/-- `delete_document` removes the leases, markers and jobs of the document in any
case, and the document rows unless a chunk row still refers to them. -/
theorem deleteDocument_cases {doc : DocRef} {s t : MetadataStore} {r : Except PyError Unit}
    (h : deleteDocument doc s = (r, t)) :
    t.builds = Table.delete (fun row => decide (row.ref.doc = doc)) s.builds ∧
      t.jobs = Table.delete (fun row => decide (row.ref.doc = doc)) s.jobs ∧
      t.steps = Table.delete (fun row => decide (row.jobId ∈
        (Table.select (fun row => decide (row.ref.doc = doc)) s.jobs).map (·.jobId))) s.steps ∧
      t.chunks = s.chunks ∧ t.corpora = s.corpora ∧
      (((∃ row ∈ s.chunks, row.ref.doc = doc) ∧ r = .error .integrityError ∧
          t.documents = s.documents) ∨
        ((∀ row ∈ s.chunks, row.ref.doc ≠ doc) ∧ r = .ok () ∧
          t.documents = Table.delete (ofDoc doc) s.documents)) := by
  unfold deleteDocument at h
  simp only [bind_apply, modify_apply, get_apply] at h
  by_cases hchunk : s.chunks.any (fun row => decide (row.ref.doc = doc)) = true
  · rw [if_pos hchunk] at h
    obtain ⟨rfl, rfl⟩ := Prod.mk.inj h
    refine ⟨rfl, rfl, rfl, rfl, rfl, Or.inl ⟨?_, rfl, rfl⟩⟩
    simpa using hchunk
  · rw [if_neg hchunk] at h
    obtain ⟨rfl, rfl⟩ := Prod.mk.inj h
    refine ⟨rfl, rfl, rfl, rfl, rfl, Or.inr ⟨?_, rfl, rfl⟩⟩
    simpa using hchunk

end Jobs

end AgenticRag.MetadataStore
