import AgenticRag.Storage.Transactions

/-!
# The document lifecycle

What any sequence of store methods can do to the version rows of a document.
`LifecycleStep` lists the seven shapes of change; every method is one of them,
and the invariant is proved once per shape: at most one version of a document is
active, it is not deprecated, and it carries the largest `lifecycle_revision`.
-/

namespace AgenticRag.MetadataStore

open Routine

/-- A change of the `documents` table by one store method. -/
inductive LifecycleStep (s t : MetadataStore) : Prop
  /-- The method raised, was a no-op, or concerns other tables. -/
  | stay (hsame : t.documents = s.documents)
  /-- A first acquire inserts the version with revision 0. -/
  | enrol (row : DocumentRow) (hnew : ∀ other ∈ s.documents, other.ref ≠ row.ref)
      (hrevision : row.lifecycleRevision = 0) (hstatus : row.status = .processing)
      (hdocuments : t.documents = Table.insert row s.documents)
  /-- A later acquire rewrites a version that was never activated. -/
  | refresh (columns : DocumentColumns) (row : DocumentRow) (hrow : row ∈ s.documents)
      (href : row.ref = columns.ref)
      (hopen : row.status = .processing ∨ row.status = .failed)
      (hstatus : columns.status = .processing)
      (hdocuments : t.documents = Table.update (ofVersion columns.ref)
        (fun old => { columns with lifecycleRevision := old.lifecycleRevision }) s.documents)
  /-- `commit` and `rollback` move the active version. -/
  | switch (now : Timestamp) (doc : DocRef) (new : String)
      (hother : s.getActiveVersion doc ≠ some new)
      (hexists : ∃ row ∈ s.documents, row.ref = ⟨doc, new⟩)
      (hdocuments : t.documents = switchDocuments now doc (s.getCurrentRevision doc + 1)
        (s.getActiveVersion doc) new s.documents)
  /-- `logical_delete` retires the active version. -/
  | retire (deletedAt : Timestamp) (row : DocumentRow) (hrow : row ∈ s.documents)
      (hactive : row.status = .active)
      (hdocuments : t.documents = Table.update (ofVersion row.ref)
        (deleteRow deletedAt (row.lifecycleRevision + 1)) s.documents)
  /-- `update_document_acl` rewrites the access columns of the active version. -/
  | reacl (acl : AclFields) (row : DocumentRow) (hrow : row ∈ s.documents)
      (hactive : row.status = .active)
      (hdocuments : t.documents = Table.update (ofVersion row.ref)
        (fun old => { old with acl, lifecycleRevision := row.lifecycleRevision + 1 }) s.documents)
  /-- `mark_document_failed` on versions that were never activated. -/
  | fail (ref : VersionRef)
      (hdocuments : t.documents = Table.update (openOf ref)
        (fun row => { row with status := .failed, deprecated := false }) s.documents)

theorem LifecycleStep.congr {s t u : MetadataStore} (h : LifecycleStep s t)
    (heq : u.documents = t.documents) : LifecycleStep s u := by
  cases h with
  | stay hsame => exact .stay (heq.trans hsame)
  | enrol row hnew hrevision hstatus hdocuments =>
    exact .enrol row hnew hrevision hstatus (heq.trans hdocuments)
  | refresh columns row hrow href hopen hstatus hdocuments =>
    exact .refresh columns row hrow href hopen hstatus (heq.trans hdocuments)
  | switch now doc new hother hexists hdocuments =>
    exact .switch now doc new hother hexists (heq.trans hdocuments)
  | retire deletedAt row hrow hactive hdocuments =>
    exact .retire deletedAt row hrow hactive (heq.trans hdocuments)
  | reacl acl row hrow hactive hdocuments =>
    exact .reacl acl row hrow hactive (heq.trans hdocuments)
  | fail ref hdocuments => exact .fail ref (heq.trans hdocuments)

section Refinement

/-- The version row an acquire enrols, refreshes or leaves alone. -/
theorem acquireJobTransaction_documents {args : AcquireArgs} {s t : MetadataStore}
    {claimed : JobStatus × Nat}
    (hprocessing : ∀ document ∈ args.document, document.status = .processing)
    (h : acquireJobTransaction args s = (.ok claimed, t)) :
    t.documents = s.documents ∨
      (∃ row : DocumentRow, (∀ other ∈ s.documents, other.ref ≠ row.ref) ∧
        row.lifecycleRevision = 0 ∧ row.status = .processing ∧
        t.documents = Table.insert row s.documents) ∨
      (∃ (columns : DocumentColumns) (row : DocumentRow), row ∈ s.documents ∧
        row.ref = columns.ref ∧ (row.status = .processing ∨ row.status = .failed) ∧
        columns.status = .processing ∧
        t.documents = Table.update (ofVersion columns.ref)
          (fun old => { columns with lifecycleRevision := old.lifecycleRevision })
          s.documents) := by
  obtain ⟨previousVersion, s₁, s₂, hclaim, hupsert, hbind⟩ := acquireJobTransaction_ok h
  have hs₁ : s₁.documents = s.documents := by
    rcases claimLease_cases hclaim with ⟨-, -, rfl⟩ | ⟨lease, -, -, -, rfl⟩ |
      ⟨lease, reason, -, -, -, rfl⟩ <;> rfl
  have hs₂ : t.documents = s₂.documents := by
    rcases bindJobRow_cases hbind with ⟨-, -, -, rfl⟩ | ⟨row, -, -, -, -, -, rfl⟩ |
      ⟨row, -, -, -, -, -, rfl⟩ | ⟨-, rfl⟩ <;> rfl
  cases hdocument : args.document with
  | none =>
    rw [hdocument] at hupsert
    obtain ⟨-, rfl⟩ := Prod.mk.inj hupsert
    exact Or.inl (hs₂.trans hs₁)
  | some document =>
    rw [hdocument] at hupsert
    have hstatus := hprocessing document hdocument
    rcases upsertDocumentBuild_cases hupsert with ⟨hnone, -, rfl, -⟩ |
      ⟨row, hrow, hopen, -, rfl⟩ | ⟨row, -, -, -, rfl⟩ | ⟨herr, -⟩
    · refine Or.inr (Or.inl
        ⟨{ document.toDocumentColumns with lifecycleRevision := 0 }, ?_, rfl, hstatus, ?_⟩)
      · rw [← hs₁]
        exact documentRow_none.mp hnone
      · rw [hs₂, ← hs₁]
    · obtain ⟨hmem, href⟩ := documentRow_mem hrow
      refine Or.inr (Or.inr ⟨document.toDocumentColumns, row, hs₁ ▸ hmem, href, hopen, hstatus, ?_⟩)
      rw [hs₂, ← hs₁]
    · exact Or.inl (hs₂.trans hs₁)
    · simp at herr

theorem acquireJobTransaction_lifecycle {args : AcquireArgs} {s t : MetadataStore}
    {r : Except PyError (JobStatus × Nat)}
    (hprocessing : ∀ document ∈ args.document, document.status = .processing)
    (h : acquireJobTransaction args s = (r, t)) : LifecycleStep s t := by
  cases r with
  | error e => exact .stay (by rw [transaction_error h])
  | ok claimed =>
    rcases acquireJobTransaction_documents hprocessing h with hsame |
      ⟨row, hnew, hrevision, hstatus, ht⟩ | ⟨columns, row, hrow, href, hopen, hstatus, ht⟩
    · exact .stay hsame
    · exact .enrol row hnew hrevision hstatus ht
    · exact .refresh columns row hrow href hopen hstatus ht

theorem markStep_documents {jobId : String} {step : Step} {status : String} {s t : MetadataStore}
    {r : Except PyError Unit} (h : markStep jobId step status s = (r, t)) :
    t.documents = s.documents := by
  rcases markStep_cases h with ⟨-, heq, -⟩ | ⟨-, rfl, -⟩
  · rw [heq]
  · rfl

theorem acquireJob_lifecycle {args : AcquireArgs} {s t : MetadataStore}
    {r : Except PyError (JobStatus × Nat)}
    (hprocessing : ∀ document ∈ args.document, document.status = .processing)
    (h : acquireJob args s = (r, t)) : LifecycleStep s t := by
  rcases acquireJob_cases h with ⟨e, -, -, rfl⟩ | ⟨claimed, s', htxn, -, hmark⟩
  · exact .stay rfl
  · exact (acquireJobTransaction_lifecycle hprocessing htxn).congr (markStep_documents hmark)

theorem commitActiveVersion_lifecycle {now : Timestamp} {doc : DocRef} {new : String}
    {expected : Nat} {s t : MetadataStore} {r : Except PyError (Nat × Option String)}
    (h : commitActiveVersion now doc new expected s = (r, t)) : LifecycleStep s t := by
  rcases commitActiveVersion_cases h with ⟨-, -, rfl⟩ | ⟨hother, hcurrent, -, rfl, hexists⟩ |
    ⟨e, -, rfl⟩
  · exact .stay rfl
  · exact .switch now doc new hother hexists (by rw [hcurrent])
  · exact .stay rfl

theorem rollbackActiveVersion_lifecycle {now : Timestamp} {doc : DocRef}
    {toVersion : Option String} {expected : Option Nat} {s t : MetadataStore}
    {r : Except PyError (Nat × Option String)}
    (h : rollbackActiveVersion now doc toVersion expected s = (r, t)) : LifecycleStep s t := by
  rcases rollbackActiveVersion_cases h with ⟨previous, -, -, rfl⟩ |
    ⟨previous, target, row, hactive, hne, hrow, -, -, -, rfl⟩ | ⟨e, -, rfl⟩
  · exact .stay rfl
  · refine .switch now doc target ?_ ⟨row, documentRow_mem hrow⟩ (by rw [hactive])
    rw [hactive]
    simpa using hne.symm
  · exact .stay rfl

theorem logicalDelete_lifecycle {deletedAt : Timestamp} {ref : VersionRef} {s t : MetadataStore}
    {r : Except PyError Nat} (h : logicalDelete deletedAt ref s = (r, t)) : LifecycleStep s t := by
  rcases logicalDelete_cases h with ⟨row, hrow, -, hactive, -, rfl⟩ | rfl
  · exact .retire deletedAt row hrow hactive rfl
  · exact .stay rfl

theorem updateDocumentAcl_lifecycle {ref : VersionRef} {acl : AclFields} {s t : MetadataStore}
    {r : Except PyError Unit} (h : updateDocumentAcl ref acl s = (r, t)) : LifecycleStep s t := by
  rcases updateDocumentAcl_cases h with ⟨row, hrow, hactive, -, rfl⟩ | ⟨-, rfl, -⟩ | ⟨-, rfl⟩
  · obtain ⟨hmem, href⟩ := documentRow_mem hrow
    exact .reacl acl row hmem hactive (by rw [href])
  · exact .stay rfl
  · exact .stay rfl

theorem markDocumentFailed_lifecycle {ref : VersionRef} {s t : MetadataStore}
    {r : Except PyError Unit} (h : markDocumentFailed ref s = (r, t)) : LifecycleStep s t := by
  rcases markDocumentFailed_cases h with ⟨-, rfl⟩ | ⟨-, rfl⟩
  · exact .fail ref rfl
  · exact .stay rfl

end Refinement

/-- At most one active version per document, never deprecated, with the largest
revision of the document. -/
structure LifecycleInvariant (s : MetadataStore) : Prop where
  keys : Table.KeyUnique (·.ref) s.documents
  oneActive : ∀ first ∈ s.documents, ∀ second ∈ s.documents,
    first.status = .active → second.status = .active → first.ref.doc = second.ref.doc →
      first = second
  notDeprecated : ∀ row ∈ s.documents, row.status = .active → row.deprecated = false
  current : ∀ row ∈ s.documents, row.status = .active →
    ∀ other ∈ s.documents, other.ref.doc = row.ref.doc →
      other.lifecycleRevision ≤ row.lifecycleRevision

section Rows

theorem mem_demotedDocuments {now : Timestamp} {doc : DocRef} {revision : Nat}
    {previous : Option String} {documents : List DocumentRow} {row : DocumentRow} :
    row ∈ demotedDocuments now doc revision previous documents ↔
      (∃ old ∈ documents, (∃ v ∈ previous, old.ref = ⟨doc, v⟩) ∧
        row = demoteRow now revision old) ∨
      (row ∈ documents ∧ ∀ v ∈ previous, row.ref ≠ ⟨doc, v⟩) := by
  cases previous with
  | none => simp [demotedDocuments]
  | some v =>
    simp only [demotedDocuments, Table.mem_update, ofVersion, decide_eq_true_eq,
      decide_eq_false_iff_not, Option.mem_def, Option.some.injEq, exists_eq_left', forall_eq']

theorem mem_switchDocuments {now : Timestamp} {doc : DocRef} {revision : Nat}
    {previous : Option String} {new : String} {documents : List DocumentRow} {row : DocumentRow}
    (hother : previous ≠ some new) :
    row ∈ switchDocuments now doc revision previous new documents ↔
      (∃ old ∈ documents, old.ref = ⟨doc, new⟩ ∧ row = activateRow now revision old) ∨
      (∃ old ∈ documents, (∃ v ∈ previous, old.ref = ⟨doc, v⟩) ∧
        row = demoteRow now revision old) ∨
      (row ∈ documents ∧ row.ref ≠ ⟨doc, new⟩ ∧ ∀ v ∈ previous, row.ref ≠ ⟨doc, v⟩) := by
  have hdistinct : ∀ v ∈ previous, v ≠ new := by
    rintro v hv rfl
    exact hother hv
  simp only [switchDocuments, Table.mem_update, mem_demotedDocuments, ofVersion,
    decide_eq_true_eq, decide_eq_false_iff_not]
  constructor
  · rintro (⟨old, ⟨before, -, ⟨v, hv, href⟩, rfl⟩ | ⟨hold, -⟩, hnew, rfl⟩ |
      ⟨⟨old, hold, hv, rfl⟩ | ⟨hmem, hkeep⟩, hne⟩)
    · simp only [demoteRow, href, VersionRef.mk.injEq, true_and] at hnew
      exact absurd hnew (hdistinct v hv)
    · exact Or.inl ⟨old, hold, hnew, rfl⟩
    · exact Or.inr (Or.inl ⟨old, hold, hv, rfl⟩)
    · exact Or.inr (Or.inr ⟨hmem, hne, hkeep⟩)
  · rintro (⟨old, hold, href, rfl⟩ | ⟨old, hold, ⟨v, hv, href⟩, rfl⟩ | ⟨hmem, hne, hkeep⟩)
    · refine Or.inl ⟨old, Or.inr ⟨hold, ?_⟩, href, rfl⟩
      intro v hv heq
      rw [href] at heq
      exact hdistinct v hv (by simpa using heq.symm)
    · refine Or.inr ⟨Or.inl ⟨old, hold, ⟨v, hv, href⟩, rfl⟩, ?_⟩
      simp only [demoteRow, href, VersionRef.mk.injEq, true_and]
      exact hdistinct v hv
    · exact Or.inr ⟨Or.inr ⟨hmem, hkeep⟩, hne⟩

theorem lifecycleRevision_le {s : MetadataStore} {doc : DocRef} {row : DocumentRow}
    (hrow : row ∈ s.documents) (hdoc : row.ref.doc = doc) :
    row.lifecycleRevision ≤ s.getCurrentRevision doc :=
  Table.le_maximum hrow (by simp [ofDoc, hdoc])

/-- The active version's row is the only active row of its document. -/
theorem LifecycleInvariant.active_row {s : MetadataStore} (hinv : LifecycleInvariant s)
    {row : DocumentRow} (hrow : row ∈ s.documents) (hactive : row.status = .active) :
    s.getActiveVersion row.ref.doc = some row.ref.version := by
  cases hversion : s.getActiveVersion row.ref.doc with
  | none => exact absurd hactive (getActiveVersion_none.mp hversion row hrow rfl)
  | some version =>
    obtain ⟨found, hfound, href, hstatus⟩ := getActiveVersion_some hversion
    have hsame := hinv.oneActive found hfound row hrow hstatus hactive (by rw [href])
    rw [← hsame, href]

/-- The maximum revision of a document with an active version is that version's. -/
theorem LifecycleInvariant.revision_of_active {s : MetadataStore} (hinv : LifecycleInvariant s)
    {row : DocumentRow} (hrow : row ∈ s.documents) (hactive : row.status = .active) :
    s.getCurrentRevision row.ref.doc = row.lifecycleRevision := by
  apply Table.maximum_eq hrow (by simp [ofDoc])
  intro other hother hof
  exact hinv.current row hrow hactive other hother (by simpa [ofDoc] using hof)

end Rows

section Preservation

variable {s t : MetadataStore}

theorem LifecycleInvariant.congr (hinv : LifecycleInvariant s)
    (h : t.documents = s.documents) : LifecycleInvariant t := by
  constructor
  · rw [h]; exact hinv.keys
  · rw [h]; exact hinv.oneActive
  · rw [h]; exact hinv.notDeprecated
  · rw [h]; exact hinv.current

/-- With the invariant on both sides, the active version is determined by which
rows are active. -/
theorem getActiveVersion_congr {doc : DocRef} (hs : LifecycleInvariant s)
    (ht : LifecycleInvariant t)
    (h : ∀ version, (∃ row ∈ t.documents, row.ref = ⟨doc, version⟩ ∧ row.status = .active) ↔
      (∃ row ∈ s.documents, row.ref = ⟨doc, version⟩ ∧ row.status = .active)) :
    t.getActiveVersion doc = s.getActiveVersion doc := by
  apply Option.ext
  intro version
  have hiff : ∀ {u : MetadataStore}, LifecycleInvariant u →
      (version ∈ u.getActiveVersion doc ↔
        ∃ row ∈ u.documents, row.ref = ⟨doc, version⟩ ∧ row.status = .active) := by
    intro u hu
    constructor
    · exact getActiveVersion_some
    · rintro ⟨row, hrow, href, hactive⟩
      have hversion := hu.active_row hrow hactive
      rw [href] at hversion
      exact hversion
  simpa using (hiff ht).trans ((h version).trans (hiff hs).symm)

/-- Inserting a processing row with revision 0. -/
private theorem enrol_invariant (hinv : LifecycleInvariant s) {row : DocumentRow}
    (hnew : ∀ other ∈ s.documents, other.ref ≠ row.ref) (hrevision : row.lifecycleRevision = 0)
    (hstatus : row.status = .processing) (ht : t.documents = Table.insert row s.documents) :
    LifecycleInvariant t := by
  have hidle : row.status ≠ .active := by simp [hstatus]
  constructor
  · rw [ht]
    exact hinv.keys.insert hnew
  · rw [ht]
    intro first hfirst second hsecond hactive hactive' hdoc
    rcases Table.mem_insert.mp hfirst with hfirst | rfl
    · rcases Table.mem_insert.mp hsecond with hsecond | rfl
      · exact hinv.oneActive first hfirst second hsecond hactive hactive' hdoc
      · exact absurd hactive' hidle
    · exact absurd hactive hidle
  · rw [ht]
    intro old hold hactive
    rcases Table.mem_insert.mp hold with hold | rfl
    · exact hinv.notDeprecated old hold hactive
    · exact absurd hactive hidle
  · rw [ht]
    intro old hold hactive other hother hdoc
    rcases Table.mem_insert.mp hold with hold | rfl
    · rcases Table.mem_insert.mp hother with hother | rfl
      · exact hinv.current old hold hactive other hother hdoc
      · omega
    · exact absurd hactive hidle

/-- An `UPDATE` that keeps identities and revisions and touches or creates no
active row. -/
private theorem update_idle_invariant (hinv : LifecycleInvariant s) {p : DocumentRow → Bool}
    {f : DocumentRow → DocumentRow} (ht : t.documents = Table.update p f s.documents)
    (href : ∀ row ∈ s.documents, p row = true → (f row).ref = row.ref)
    (hrevision : ∀ row, (f row).lifecycleRevision = row.lifecycleRevision)
    (hafter : ∀ row ∈ s.documents, p row = true → (f row).status ≠ .active) :
    LifecycleInvariant t := by
  -- an active row of the new table was there before
  have hold : ∀ row ∈ t.documents, row.status = .active → row ∈ s.documents := by
    intro row hrow hactive
    rw [ht] at hrow
    rcases Table.mem_update.mp hrow with ⟨old, hmem, hp, rfl⟩ | ⟨hmem, -⟩
    · exact absurd hactive (hafter old hmem hp)
    · exact hmem
  -- any row has a predecessor with the same identity and revision
  have hpast : ∀ row ∈ t.documents, ∃ old ∈ s.documents, old.ref = row.ref ∧
      old.lifecycleRevision = row.lifecycleRevision := by
    intro row hrow
    rw [ht] at hrow
    rcases Table.mem_update.mp hrow with ⟨old, hmem, hp, rfl⟩ | ⟨hmem, -⟩
    · exact ⟨old, hmem, (href old hmem hp).symm, (hrevision old).symm⟩
    · exact ⟨row, hmem, rfl, rfl⟩
  constructor
  · rw [ht]
    exact hinv.keys.update href
  · intro first hfirst second hsecond hactive hactive'
    exact hinv.oneActive first (hold first hfirst hactive) second (hold second hsecond hactive')
      hactive hactive'
  · intro row hrow hactive
    exact hinv.notDeprecated row (hold row hrow hactive) hactive
  · intro row hrow hactive other hother hdoc
    obtain ⟨past, hmem, hpref, hprev⟩ := hpast other hother
    rw [← hprev]
    exact hinv.current row (hold row hrow hactive) hactive past hmem (by rw [hpref, hdoc])

/-- An `UPDATE` of the active version's row that advances its revision by one. -/
private theorem update_active_invariant (hinv : LifecycleInvariant s) {row : DocumentRow}
    (hrow : row ∈ s.documents) (hactive : row.status = .active) {f : DocumentRow → DocumentRow}
    (href : (f row).ref = row.ref) (hrevision : (f row).lifecycleRevision = row.lifecycleRevision + 1)
    (hdeprecated : (f row).status = .active → (f row).deprecated = false)
    (ht : t.documents = Table.update (ofVersion row.ref) f s.documents) :
    LifecycleInvariant t := by
  have honly : ∀ old ∈ s.documents, ofVersion row.ref old = true → old = row := by
    intro old hold hof
    exact hinv.keys.eq_of_key hold hrow (by simpa [ofVersion] using hof)
  have hmem : ∀ new, new ∈ t.documents ↔ new = f row ∨ (new ∈ s.documents ∧ new.ref ≠ row.ref) := by
    intro new
    rw [ht, Table.mem_update]
    constructor
    · rintro (⟨old, hold, hof, rfl⟩ | ⟨hnew, hof⟩)
      · rw [honly old hold hof]
        exact Or.inl rfl
      · exact Or.inr ⟨hnew, by simpa [ofVersion] using hof⟩
    · rintro (rfl | ⟨hnew, hne⟩)
      · exact Or.inl ⟨row, hrow, by simp [ofVersion], rfl⟩
      · exact Or.inr ⟨hnew, by simpa [ofVersion] using hne⟩
  -- another active row of the same document would be the row itself
  have hother : ∀ old ∈ s.documents, old.ref ≠ row.ref → old.status = .active →
      old.ref.doc ≠ row.ref.doc := by
    intro old hold hne hold_active hdoc
    exact hne (by rw [hinv.oneActive old hold row hrow hold_active hactive hdoc])
  constructor
  · rw [ht]
    apply hinv.keys.update
    intro old hold hof
    rw [honly old hold hof, href]
  · intro first hfirst second hsecond hfa hsa hdoc
    rcases (hmem first).mp hfirst with rfl | ⟨hf, hfne⟩
    · rcases (hmem second).mp hsecond with rfl | ⟨hs', hsne⟩
      · rfl
      · exact absurd (by rw [← hdoc, href]) (hother second hs' hsne hsa)
    · rcases (hmem second).mp hsecond with rfl | ⟨hs', hsne⟩
      · exact absurd (by rw [hdoc, href]) (hother first hf hfne hfa)
      · exact hinv.oneActive first hf second hs' hfa hsa hdoc
  · intro new hnew hnew_active
    rcases (hmem new).mp hnew with rfl | ⟨hn, -⟩
    · exact hdeprecated hnew_active
    · exact hinv.notDeprecated new hn hnew_active
  · intro new hnew hnew_active other hoth hdoc
    rcases (hmem new).mp hnew with rfl | ⟨hn, hne⟩
    · rcases (hmem other).mp hoth with rfl | ⟨ho, -⟩
      · exact le_refl _
      · have hle := hinv.current row hrow hactive other ho (by rw [hdoc, href])
        omega
    · rcases (hmem other).mp hoth with rfl | ⟨ho, -⟩
      · exact absurd (by rw [← hdoc, href]) (hother new hn hne hnew_active)
      · exact hinv.current new hn hnew_active other ho hdoc

/-- Moving the active version to `new` with the next revision. -/
private theorem switch_invariant (hinv : LifecycleInvariant s) {now : Timestamp} {doc : DocRef}
    {new : String} (hother : s.getActiveVersion doc ≠ some new)
    (ht : t.documents = switchDocuments now doc (s.getCurrentRevision doc + 1)
      (s.getActiveVersion doc) new s.documents) : LifecycleInvariant t := by
  have hmem : ∀ row, row ∈ t.documents ↔ _ := fun row => by rw [ht, mem_switchDocuments hother]
  -- a row that was active before and is untouched belongs to another document
  have huntouched : ∀ row ∈ s.documents, row.status = .active →
      (∀ v ∈ s.getActiveVersion doc, row.ref ≠ ⟨doc, v⟩) → row.ref.doc ≠ doc := by
    rintro row hrow hactive hkeep rfl
    exact hkeep row.ref.version (hinv.active_row hrow hactive) rfl
  -- every revision of the document stays at most the new one
  have hbound : ∀ row ∈ t.documents, row.ref.doc = doc →
      row.lifecycleRevision ≤ s.getCurrentRevision doc + 1 := by
    intro row hrow hdoc
    rcases (hmem row).mp hrow with ⟨old, -, -, rfl⟩ | ⟨old, -, -, rfl⟩ | ⟨hold, -, -⟩
    · exact le_refl _
    · exact le_refl _
    · have hle := lifecycleRevision_le hold hdoc
      omega
  constructor
  · rw [ht]
    apply Table.KeyUnique.update
    · cases s.getActiveVersion doc with
      | none => exact hinv.keys
      | some v => exact hinv.keys.update fun row _ _ => rfl
    · exact fun row _ _ => rfl
  · intro first hfirst second hsecond hfa hsa hdoc
    rcases (hmem first).mp hfirst with ⟨old, hold, href, rfl⟩ | ⟨old, -, -, rfl⟩ |
        ⟨hf, -, hkeep⟩
    · rcases (hmem second).mp hsecond with ⟨old', hold', href', rfl⟩ | ⟨old', -, -, rfl⟩ |
          ⟨hs', -, hkeep'⟩
      · rw [hinv.keys.eq_of_key hold hold' (href.trans href'.symm)]
      · simp [demoteRow] at hsa
      · refine absurd ?_ (huntouched second hs' hsa hkeep')
        rw [← hdoc]
        simp [activateRow, href]
    · simp [demoteRow] at hfa
    · rcases (hmem second).mp hsecond with ⟨old', hold', href', rfl⟩ | ⟨old', -, -, rfl⟩ |
          ⟨hs', -, -⟩
      · refine absurd ?_ (huntouched first hf hfa hkeep)
        rw [hdoc]
        simp [activateRow, href']
      · simp [demoteRow] at hsa
      · exact hinv.oneActive first hf second hs' hfa hsa hdoc
  · intro row hrow hactive
    rcases (hmem row).mp hrow with ⟨old, -, -, rfl⟩ | ⟨old, -, -, rfl⟩ | ⟨hold, -, -⟩
    · rfl
    · simp [demoteRow] at hactive
    · exact hinv.notDeprecated row hold hactive
  · intro row hrow hactive other hoth hdoc
    rcases (hmem row).mp hrow with ⟨old, -, href, rfl⟩ | ⟨old, -, -, rfl⟩ | ⟨hold, -, hkeep⟩
    · refine hbound other hoth ?_
      rw [hdoc]
      simp [activateRow, href]
    · simp [demoteRow] at hactive
    · have hforeign := huntouched row hold hactive hkeep
      rcases (hmem other).mp hoth with ⟨old, -, href, rfl⟩ | ⟨old, -, ⟨v, -, href⟩, rfl⟩ |
          ⟨ho, -, -⟩
      · exact absurd (by rw [← hdoc]; simp [activateRow, href]) hforeign
      · exact absurd (by rw [← hdoc]; simp [demoteRow, href]) hforeign
      · exact hinv.current row hold hactive other ho hdoc

/-- Every lifecycle step keeps the invariant. -/
theorem LifecycleStep.invariant (hstep : LifecycleStep s t) (hinv : LifecycleInvariant s) :
    LifecycleInvariant t := by
  cases hstep with
  | stay hsame => exact hinv.congr hsame
  | enrol row hnew hrevision hstatus ht => exact enrol_invariant hinv hnew hrevision hstatus ht
  | refresh columns row hrow href hopen hstatus ht =>
    refine update_idle_invariant hinv ht ?_ (fun _ => rfl) ?_
    · intro old _ hof
      simpa [ofVersion] using (of_decide_eq_true hof).symm
    · simp [hstatus]
  | switch now doc new hother hexists ht => exact switch_invariant hinv hother ht
  | retire deletedAt row hrow hactive ht =>
    exact update_active_invariant hinv hrow hactive rfl rfl (by simp [deleteRow]) ht
  | reacl acl row hrow hactive ht =>
    exact update_active_invariant hinv hrow hactive rfl rfl
      (fun _ => hinv.notDeprecated row hrow hactive) ht
  | fail ref ht =>
    exact update_idle_invariant hinv ht (fun _ _ _ => rfl) (fun _ => rfl) (by simp)

/-- Rows are never removed: each one evolves into a row of the same version with
at least its revision, and becomes deleted only past the document's maximum. -/
theorem LifecycleStep.evolve (hstep : LifecycleStep s t) (hinv : LifecycleInvariant s)
    {row : DocumentRow} (hrow : row ∈ s.documents) :
    ∃ next ∈ t.documents, next.ref = row.ref ∧ row.lifecycleRevision ≤ next.lifecycleRevision ∧
      (next.status = .deleted → row.status = .deleted ∨
        s.getCurrentRevision row.ref.doc < next.lifecycleRevision) := by
  cases hstep with
  | stay hsame => exact ⟨row, hsame ▸ hrow, rfl, le_refl _, Or.inl⟩
  | enrol new hnew hrevision hstatus ht =>
    exact ⟨row, by rw [ht]; exact Table.mem_insert.mpr (Or.inl hrow), rfl, le_refl _, Or.inl⟩
  | refresh columns old hold href hopen hstatus ht =>
    by_cases hsame : ofVersion columns.ref row = true
    · refine ⟨{ columns with lifecycleRevision := row.lifecycleRevision }, ?_, ?_, le_refl _, ?_⟩
      · rw [ht]
        exact Table.mem_update.mpr (Or.inl ⟨row, hrow, hsame, rfl⟩)
      · exact (of_decide_eq_true hsame).symm
      · simp [hstatus]
    · refine ⟨row, ?_, rfl, le_refl _, Or.inl⟩
      rw [ht]
      exact Table.mem_update.mpr (Or.inr ⟨hrow, by simpa using hsame⟩)
  | switch now doc new hother hexists ht =>
    by_cases hnew : row.ref = ⟨doc, new⟩
    · refine ⟨activateRow now (s.getCurrentRevision doc + 1) row, ?_, rfl, ?_, ?_⟩
      · rw [ht, mem_switchDocuments hother]
        exact Or.inl ⟨row, hrow, hnew, rfl⟩
      · have hle : row.lifecycleRevision ≤ s.getCurrentRevision doc :=
          lifecycleRevision_le hrow (by rw [hnew])
        simp only [activateRow]
        omega
      · simp [activateRow]
    · by_cases hprevious : ∃ v ∈ s.getActiveVersion doc, row.ref = ⟨doc, v⟩
      · refine ⟨demoteRow now (s.getCurrentRevision doc + 1) row, ?_, rfl, ?_, ?_⟩
        · rw [ht, mem_switchDocuments hother]
          exact Or.inr (Or.inl ⟨row, hrow, hprevious, rfl⟩)
        · obtain ⟨v, -, href⟩ := hprevious
          have hle : row.lifecycleRevision ≤ s.getCurrentRevision doc :=
            lifecycleRevision_le hrow (by rw [href])
          simp only [demoteRow]
          omega
        · simp [demoteRow]
      · refine ⟨row, ?_, rfl, le_refl _, Or.inl⟩
        rw [ht, mem_switchDocuments hother]
        exact Or.inr (Or.inr ⟨hrow, hnew, fun v hv heq => hprevious ⟨v, hv, heq⟩⟩)
  | retire deletedAt victim hvictim hactive ht =>
    by_cases hsame : ofVersion victim.ref row = true
    · have heq : row = victim := hinv.keys.eq_of_key hrow hvictim (of_decide_eq_true hsame)
      subst heq
      refine ⟨deleteRow deletedAt (row.lifecycleRevision + 1) row, ?_, rfl, Nat.le_succ _, ?_⟩
      · rw [ht]
        exact Table.mem_update.mpr (Or.inl ⟨row, hrow, hsame, rfl⟩)
      · intro _
        right
        rw [hinv.revision_of_active hrow hactive]
        exact Nat.lt_succ_self _
    · refine ⟨row, ?_, rfl, le_refl _, Or.inl⟩
      rw [ht]
      exact Table.mem_update.mpr (Or.inr ⟨hrow, by simpa using hsame⟩)
  | reacl acl target htarget hactive ht =>
    by_cases hsame : ofVersion target.ref row = true
    · have heq : row = target := hinv.keys.eq_of_key hrow htarget (of_decide_eq_true hsame)
      subst heq
      refine ⟨{ row with acl, lifecycleRevision := row.lifecycleRevision + 1 }, ?_, rfl,
        Nat.le_succ _, Or.inl⟩
      rw [ht]
      exact Table.mem_update.mpr (Or.inl ⟨row, hrow, hsame, rfl⟩)
    · refine ⟨row, ?_, rfl, le_refl _, Or.inl⟩
      rw [ht]
      exact Table.mem_update.mpr (Or.inr ⟨hrow, by simpa using hsame⟩)
  | fail ref ht =>
    by_cases hsame : openOf ref row = true
    · refine ⟨{ row with status := .failed, deprecated := false }, ?_, rfl, le_refl _, by simp⟩
      rw [ht]
      exact Table.mem_update.mpr (Or.inl ⟨row, hrow, hsame, rfl⟩)
    · refine ⟨row, ?_, rfl, le_refl _, Or.inl⟩
      rw [ht]
      exact Table.mem_update.mpr (Or.inr ⟨hrow, by simpa using hsame⟩)

theorem LifecycleStep.revision_le (hstep : LifecycleStep s t) (hinv : LifecycleInvariant s)
    (doc : DocRef) : s.getCurrentRevision doc ≤ t.getCurrentRevision doc := by
  apply Table.maximum_le
  intro row hrow hof
  obtain ⟨next, hnext, href, hle, -⟩ := hstep.evolve hinv hrow
  have hdoc : next.ref.doc = doc := by rw [href]; simpa [ofDoc] using hof
  exact hle.trans (lifecycleRevision_le hnext hdoc)

/-- Every row continues a row of the same version or is newly enrolled. -/
theorem LifecycleStep.origin (hstep : LifecycleStep s t) {row : DocumentRow}
    (hrow : row ∈ t.documents) :
    (∃ old ∈ s.documents, old.ref = row.ref) ∨ row.status = .processing := by
  cases hstep with
  | stay hsame => exact Or.inl ⟨row, hsame ▸ hrow, rfl⟩
  | enrol new hnew hrevision hstatus ht =>
    rw [ht] at hrow
    rcases Table.mem_insert.mp hrow with hold | rfl
    · exact Or.inl ⟨row, hold, rfl⟩
    · exact Or.inr hstatus
  | refresh columns old hold href hopen hstatus ht =>
    rw [ht] at hrow
    rcases Table.mem_update.mp hrow with ⟨-, -, -, rfl⟩ | ⟨hmem, -⟩
    · exact Or.inr hstatus
    · exact Or.inl ⟨row, hmem, rfl⟩
  | switch now doc new hother hexists ht =>
    rw [ht] at hrow
    rcases (mem_switchDocuments hother).mp hrow with ⟨old, hold, -, rfl⟩ | ⟨old, hold, -, rfl⟩ |
      ⟨hold, -, -⟩
    · exact Or.inl ⟨old, hold, rfl⟩
    · exact Or.inl ⟨old, hold, rfl⟩
    · exact Or.inl ⟨row, hold, rfl⟩
  | retire deletedAt victim hvictim hactive ht =>
    rw [ht] at hrow
    rcases Table.mem_update.mp hrow with ⟨old, hold, -, rfl⟩ | ⟨hold, -⟩
    · exact Or.inl ⟨old, hold, rfl⟩
    · exact Or.inl ⟨row, hold, rfl⟩
  | reacl acl target htarget hactive ht =>
    rw [ht] at hrow
    rcases Table.mem_update.mp hrow with ⟨old, hold, -, rfl⟩ | ⟨hold, -⟩
    · exact Or.inl ⟨old, hold, rfl⟩
    · exact Or.inl ⟨row, hold, rfl⟩
  | fail ref ht =>
    rw [ht] at hrow
    rcases Table.mem_update.mp hrow with ⟨old, hold, -, rfl⟩ | ⟨hold, -⟩
    · exact Or.inl ⟨old, hold, rfl⟩
    · exact Or.inl ⟨row, hold, rfl⟩

/-- An update that neither makes a version of the document active nor takes one away. -/
theorem activeRows_update {doc : DocRef} {p : DocumentRow → Bool} {f : DocumentRow → DocumentRow}
    (ht : t.documents = Table.update p f s.documents)
    (hsame : ∀ row ∈ s.documents, p row = true → ∀ version,
      ((f row).ref = ⟨doc, version⟩ ∧ (f row).status = .active ↔ row.ref = ⟨doc, version⟩ ∧ row.status = .active))
    (version : String) :
    (∃ row ∈ t.documents, row.ref = ⟨doc, version⟩ ∧ row.status = .active) ↔
      (∃ row ∈ s.documents, row.ref = ⟨doc, version⟩ ∧ row.status = .active) := by
  simp only [ht, Table.mem_update]
  constructor
  · rintro ⟨_, ⟨old, hold, hp, rfl⟩ | ⟨hold, -⟩, hactive⟩
    · exact ⟨old, hold, (hsame old hold hp version).mp hactive⟩
    · exact ⟨_, hold, hactive⟩
  · rintro ⟨old, hold, hactive⟩
    cases hp : p old with
    | true => exact ⟨f old, Or.inl ⟨old, hold, hp, rfl⟩, (hsame old hold hp version).mpr hactive⟩
    | false => exact ⟨old, Or.inr ⟨hold, hp⟩, hactive⟩

/-- A switch of another document leaves its rows alone. -/
theorem activeRows_switch {now : Timestamp} {doc doc' : DocRef} {revision : Nat} {previous : Option String}
    {new : String} (hdoc : doc' ≠ doc) (hother : previous ≠ some new)
    (ht : t.documents = switchDocuments now doc' revision previous new s.documents) (version : String) :
    (∃ row ∈ t.documents, row.ref = ⟨doc, version⟩ ∧ row.status = .active) ↔
      (∃ row ∈ s.documents, row.ref = ⟨doc, version⟩ ∧ row.status = .active) := by
  simp only [ht, mem_switchDocuments hother]
  constructor
  · rintro ⟨_, ⟨old, -, href, rfl⟩ | ⟨old, -, ⟨v, -, href⟩, rfl⟩ | ⟨hold, -, -⟩, href', hactive⟩
    · simp only [activateRow, href, VersionRef.mk.injEq] at href'
      exact absurd href'.1 hdoc
    · simp [demoteRow] at hactive
    · exact ⟨_, hold, href', hactive⟩
  · rintro ⟨old, hold, href', hactive⟩
    have hapart : ∀ v, old.ref ≠ ⟨doc', v⟩ := by
      intro v heq
      rw [href', VersionRef.mk.injEq] at heq
      exact hdoc heq.1.symm
    exact ⟨old, Or.inr (Or.inr ⟨hold, hapart new, fun v _ => hapart v⟩), href', hactive⟩

/-- A step that moves the active version of a document raises the maximum
revision of that document. -/
theorem LifecycleStep.active_change (hstep : LifecycleStep s t) (hinv : LifecycleInvariant s)
    {doc : DocRef} (hchange : s.getActiveVersion doc ≠ t.getActiveVersion doc) :
    s.getCurrentRevision doc < t.getCurrentRevision doc := by
  have hinv' := hstep.invariant hinv
  -- it is enough to find a row of the document with a larger revision
  have hraise : ∀ row ∈ t.documents, row.ref.doc = doc →
      s.getCurrentRevision doc < row.lifecycleRevision →
        s.getCurrentRevision doc < t.getCurrentRevision doc := by
    intro row hrow hdoc hlt
    exact lt_of_lt_of_le hlt (lifecycleRevision_le hrow hdoc)
  -- in every other case the active rows of the document are the same
  have hkeeps : (∀ version, (∃ row ∈ t.documents, row.ref = ⟨doc, version⟩ ∧ row.status = .active) ↔
      (∃ row ∈ s.documents, row.ref = ⟨doc, version⟩ ∧ row.status = .active)) →
        s.getCurrentRevision doc < t.getCurrentRevision doc :=
    fun hactive => absurd (getActiveVersion_congr hinv hinv' hactive).symm hchange
  cases hstep with
  | stay hsame => exact absurd (by simp [getActiveVersion, hsame]) hchange
  | enrol row hnew hrevision hstatus ht =>
    refine hkeeps fun version => ?_
    simp only [ht, Table.mem_insert]
    constructor
    · rintro ⟨old, hold | rfl, href, hactive⟩
      · exact ⟨old, hold, href, hactive⟩
      · simp [hstatus] at hactive
    · rintro ⟨old, hold, href, hactive⟩
      exact ⟨old, Or.inl hold, href, hactive⟩
  | refresh columns row hrow href hopen hstatus ht =>
    refine hkeeps (activeRows_update ht fun old hold hp version => iff_of_false ?_ ?_)
    · simp [hstatus]
    · have hsame := hinv.keys.eq_of_key hold hrow ((of_decide_eq_true hp).trans href.symm)
      subst hsame
      rcases hopen with h | h <;> simp [h]
  | switch now doc' new hother hexists ht =>
    by_cases hdoc : doc' = doc
    · subst hdoc
      obtain ⟨row, hrow, href⟩ := hexists
      refine hraise (activateRow now (s.getCurrentRevision doc' + 1) row) ?_ ?_ (Nat.lt_succ_self _)
      · rw [ht, mem_switchDocuments hother]
        exact Or.inl ⟨row, hrow, href, rfl⟩
      · simp [activateRow, href]
    · exact hkeeps (activeRows_switch hdoc hother ht)
  | retire deletedAt row hrow hactive ht =>
    by_cases hdoc : row.ref.doc = doc
    · refine hraise (deleteRow deletedAt (row.lifecycleRevision + 1) row) ?_ hdoc ?_
      · rw [ht]
        exact Table.mem_update.mpr (Or.inl ⟨row, hrow, by simp [ofVersion], rfl⟩)
      · rw [← hdoc, hinv.revision_of_active hrow hactive]
        exact Nat.lt_succ_self _
    · refine hkeeps (activeRows_update ht fun old hold hp version => iff_of_false (by simp [deleteRow]) ?_)
      rintro ⟨href, -⟩
      have hsame : old.ref = row.ref := of_decide_eq_true hp
      exact hdoc (by rw [← hsame, href])
  | reacl acl row hrow hactive ht => exact hkeeps (activeRows_update ht fun _ _ _ _ => Iff.rfl)
  | fail ref ht =>
    refine hkeeps (activeRows_update ht fun old hold hp version => iff_of_false (by simp) ?_)
    rintro ⟨-, hactive⟩
    simp [openOf, hactive] at hp

end Preservation

section Histories

/-- The calls that write version rows, with the row `_step_acquire` passes along
always in status `processing`. -/
inductive LifecycleCall where
  | acquireJob (args : AcquireArgs)
      (processing : ∀ document ∈ args.document, document.status = .processing)
  | commitActiveVersion (now : Timestamp) (doc : DocRef) (newVersion : String)
      (expectedRevision : Nat)
  | rollbackActiveVersion (now : Timestamp) (doc : DocRef) (toVersion : Option String)
      (expectedRevision : Option Nat)
  | logicalDelete (deletedAt : Timestamp) (ref : VersionRef)
  | updateDocumentAcl (ref : VersionRef) (acl : AclFields)
  | markDocumentFailed (ref : VersionRef)

/-- Run the call and forget what it returns. -/
def LifecycleCall.run : LifecycleCall → StoreMethod Unit
  | .acquireJob args _ => do
    let _ ← MetadataStore.acquireJob args
    pure ()
  | .commitActiveVersion now doc newVersion expectedRevision => do
    let _ ← MetadataStore.commitActiveVersion now doc newVersion expectedRevision
    pure ()
  | .rollbackActiveVersion now doc toVersion expectedRevision => do
    let _ ← MetadataStore.rollbackActiveVersion now doc toVersion expectedRevision
    pure ()
  | .logicalDelete deletedAt ref => do
    let _ ← MetadataStore.logicalDelete deletedAt ref
    pure ()
  | .updateDocumentAcl ref acl => MetadataStore.updateDocumentAcl ref acl
  | .markDocumentFailed ref => MetadataStore.markDocumentFailed ref

/-- The store after a sequence of calls, whether each returned or raised. -/
def runCalls (s : MetadataStore) (calls : List LifecycleCall) : MetadataStore :=
  calls.foldl (fun s call => (call.run s).2) s

/-- Dropping the result of a routine keeps its final state and its exception. -/
private theorem void_cases {ε σ α : Type} {m : Routine σ ε α} {s t : σ} {r : Except ε Unit}
    (h : (do let _ ← m; pure ()) s = (r, t)) :
    ∃ r', m s = (r', t) ∧ ∀ e, r = .error e ↔ r' = .error e := by
  rcases bind_cases h with ⟨e, hm, rfl⟩ | ⟨a, s', hm, hdone⟩
  · exact ⟨_, hm, by simp⟩
  · obtain ⟨rfl, rfl⟩ := Prod.mk.inj hdone
    exact ⟨_, hm, by simp⟩

theorem LifecycleCall.lifecycle {call : LifecycleCall} {s t : MetadataStore}
    {r : Except PyError Unit} (h : call.run s = (r, t)) : LifecycleStep s t := by
  cases call with
  | acquireJob args processing =>
    obtain ⟨_, hrun, -⟩ := void_cases h
    exact acquireJob_lifecycle processing hrun
  | commitActiveVersion now doc newVersion expectedRevision =>
    obtain ⟨_, hrun, -⟩ := void_cases h
    exact commitActiveVersion_lifecycle hrun
  | rollbackActiveVersion now doc toVersion expectedRevision =>
    obtain ⟨_, hrun, -⟩ := void_cases h
    exact rollbackActiveVersion_lifecycle hrun
  | logicalDelete deletedAt ref =>
    obtain ⟨_, hrun, -⟩ := void_cases h
    exact logicalDelete_lifecycle hrun
  | updateDocumentAcl ref acl => exact updateDocumentAcl_lifecycle h
  | markDocumentFailed ref => exact markDocumentFailed_lifecycle h

/-- A call that raises leaves the whole store as it was: the transactions roll
back, and the single statements fail as a whole. -/
theorem LifecycleCall.raise_unchanged {call : LifecycleCall} {s t : MetadataStore} {e : PyError}
    (h : call.run s = (.error e, t)) : t = s := by
  cases call with
  | acquireJob args processing =>
    obtain ⟨r, hrun, herr⟩ := void_cases h
    rcases acquireJob_cases hrun with ⟨_, -, -, rfl⟩ | ⟨claimed, _, -, rfl, -⟩
    · rfl
    · exact absurd ((herr e).mp rfl) (by simp)
  | commitActiveVersion now doc newVersion expectedRevision =>
    obtain ⟨r, hrun, herr⟩ := void_cases h
    rw [(herr e).mp rfl] at hrun
    exact transaction_error hrun
  | rollbackActiveVersion now doc toVersion expectedRevision =>
    obtain ⟨r, hrun, herr⟩ := void_cases h
    rw [(herr e).mp rfl] at hrun
    exact transaction_error hrun
  | logicalDelete deletedAt ref =>
    obtain ⟨r, hrun, herr⟩ := void_cases h
    rw [(herr e).mp rfl] at hrun
    exact transaction_error hrun
  | updateDocumentAcl ref acl => exact transaction_error h
  | markDocumentFailed ref =>
    rcases markDocumentFailed_cases h with ⟨hok, -⟩ | ⟨-, rfl⟩
    · simp at hok
    · rfl

/-- A store without version rows satisfies the invariant. -/
theorem lifecycleInvariant_empty {s : MetadataStore} (h : s.documents = []) :
    LifecycleInvariant s := by
  constructor <;> simp [h, Table.KeyUnique]

theorem runCalls_invariant {s : MetadataStore} (hinv : LifecycleInvariant s)
    (calls : List LifecycleCall) : LifecycleInvariant (runCalls s calls) := by
  induction calls generalizing s with
  | nil => exact hinv
  | cons call calls ih => exact ih ((LifecycleCall.lifecycle rfl).invariant hinv)

/-- In every state a history of calls reaches, each document has at most one
active version, which is not deprecated and carries the document's largest
revision; the next call raises that maximum when it moves the active version, and
leaves every version row alone when it raises. -/
theorem active_version_register (s : MetadataStore) (hfresh : s.documents = [])
    (calls : List LifecycleCall) :
    let reached := runCalls s calls
    (∀ first ∈ reached.documents, ∀ second ∈ reached.documents,
      first.status = .active → second.status = .active → first.ref.doc = second.ref.doc →
        first.ref = second.ref) ∧
    (∀ row ∈ reached.documents, row.status = .active →
      row.deprecated = false ∧ row.lifecycleRevision = reached.getCurrentRevision row.ref.doc) ∧
    (∀ call : LifecycleCall,
      (∀ doc, reached.getActiveVersion doc ≠ (call.run reached).2.getActiveVersion doc →
        reached.getCurrentRevision doc < (call.run reached).2.getCurrentRevision doc) ∧
      (∀ e, (call.run reached).1 = .error e →
        (call.run reached).2.documents = reached.documents)) := by
  have hinv := runCalls_invariant (lifecycleInvariant_empty hfresh) calls
  refine ⟨?_, ?_, ?_⟩
  · intro first hfirst second hsecond hfa hsa hdoc
    rw [hinv.oneActive first hfirst second hsecond hfa hsa hdoc]
  · intro row hrow hactive
    exact ⟨hinv.notDeprecated row hrow hactive, (hinv.revision_of_active hrow hactive).symm⟩
  · intro call
    refine ⟨fun doc hchange => (LifecycleCall.lifecycle rfl).active_change hinv hchange, ?_⟩
    intro e herr
    exact congrArg documents (LifecycleCall.raise_unchanged (Prod.ext herr rfl))

/-- Publish a version, replace it, roll back to it and delete it. -/
private def sampleCalls : List LifecycleCall :=
  [.acquireJob (Sample.acquire "job-1" "v1" "attempt-1" 0) Sample.acquire_first,
    .commitActiveVersion 1 Sample.doc "v1" 0,
    .acquireJob (Sample.acquire "job-2" "v2" "attempt-2" 1) Sample.acquire_second,
    .commitActiveVersion 2 Sample.doc "v2" 1,
    .rollbackActiveVersion 3 Sample.doc none none]

theorem active_version_register_sample :
    (runCalls Sample.store sampleCalls).getActiveVersion Sample.doc = some "v1" ∧
      ∀ row ∈ (runCalls Sample.store sampleCalls).documents, row.status = .active →
        row.deprecated = false ∧ row.lifecycleRevision =
          (runCalls Sample.store sampleCalls).getCurrentRevision row.ref.doc :=
  ⟨by decide, (active_version_register Sample.store rfl sampleCalls).2.1⟩

end Histories

end AgenticRag.MetadataStore
