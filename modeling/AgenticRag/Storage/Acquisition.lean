import AgenticRag.Storage.Lifecycle

/-!
# What an acquire and a commit that returned leave behind

The job row an acquire binds, the version rows it may enrol or refresh, and the version
that is active after a commit. Up to the times they record, both write what follows from
the tables they find.
-/

namespace AgenticRag.MetadataStore

open Routine

/-- The version a first lease on the build captures, or the one the lease carries on. -/
def capturedVersion (s : MetadataStore) (ref : VersionRef) : Option String :=
  match s.buildRow ref with
  | none => s.getActiveVersion ref.doc
  | some lease => lease.previousActiveVersion

/-- The version a job hides when it publishes: an acquire writes the captured version into
the job row unless that row is still `running`. -/
def replacedVersion (s : MetadataStore) (jobId : String) (ref : VersionRef) : Option String :=
  match s.jobRow jobId with
  | none => s.capturedVersion ref
  | some job => if job.status = .running then job.previousActiveVersion else s.capturedVersion ref

theorem claimLease_captured {args : AcquireArgs} {s s₁ : MetadataStore} {generation : Nat}
    {previousVersion : Option String}
    (h : claimLease args s = (.ok (generation, previousVersion), s₁)) :
    previousVersion = s.capturedVersion args.ref ∧ s₁ = { s with builds := s₁.builds } := by
  unfold capturedVersion
  rcases claimLease_cases h with ⟨hnone, hr, rfl⟩ | ⟨lease, hlease, -, hr, rfl⟩ |
    ⟨lease, reason, -, -, hr, -⟩
  · rw [hnone]
    exact ⟨(Prod.mk.inj (Except.ok.inj hr)).2, rfl⟩
  · rw [hlease]
    exact ⟨(Prod.mk.inj (Except.ok.inj hr)).2, rfl⟩
  · simp at hr

theorem upsertOptionalDocument_frame {document : Option SourceDocument} {s t : MetadataStore}
    {r : Except PyError Unit} (h : upsertOptionalDocument document s = (r, t)) :
    t = { s with documents := t.documents } := by
  cases document with
  | none =>
    obtain ⟨-, rfl⟩ := Prod.mk.inj h
    rfl
  | some document =>
    rcases upsertDocumentBuild_cases h with ⟨-, -, rfl, -⟩ | ⟨row, -, -, -, rfl⟩ |
      ⟨row, -, -, -, rfl⟩ | ⟨-, rfl⟩ <;> rfl

/-- The version rows with the row of a document enrolled, or refreshed if the version was
never activated. -/
def enrolledDocuments (document : SourceDocument) (documents : List DocumentRow) :
    List DocumentRow :=
  match Table.selectOne (ofVersion document.ref) documents with
  | none => Table.insert { document.toDocumentColumns with lifecycleRevision := 0 } documents
  | some row =>
    if row.status = .processing ∨ row.status = .failed then
      Table.update (ofVersion document.ref)
        (fun row => { document.toDocumentColumns with lifecycleRevision := row.lifecycleRevision })
        documents
    else documents

/-- The job rows with the row of a job inserted, or put back to running. -/
def boundJobs (args : AcquireArgs) (s : MetadataStore) : List JobRow :=
  match s.jobRow args.jobId with
  | none => Table.insert (jobFor args (s.capturedVersion args.ref)) s.jobs
  | some row =>
    if row.status = .running then s.jobs
    else Table.update (fun row => decide (row.jobId = args.jobId))
      (reopenJob (s.capturedVersion args.ref)) s.jobs

theorem upsertDocumentBuild_eq {document : SourceDocument} {s t : MetadataStore}
    (h : upsertDocumentBuild document s = (.ok (), t)) :
    t = { s with documents := enrolledDocuments document s.documents } := by
  unfold enrolledDocuments
  rcases upsertDocumentBuild_cases h with ⟨hnone, -, rfl, -⟩ | ⟨row, hrow, hopen, -, rfl⟩ |
    ⟨row, hrow, hclosed, -, rfl⟩ | ⟨herr, -⟩
  · rw [show Table.selectOne (ofVersion document.ref) s.documents = none from hnone]
  · rw [show Table.selectOne (ofVersion document.ref) s.documents = some row from hrow]
    simp only [if_pos hopen]
  · rw [show Table.selectOne (ofVersion document.ref) t.documents = some row from hrow]
    simp only [if_neg hclosed]
  · simp at herr

theorem bindJobRow_eq {args : AcquireArgs} {s t : MetadataStore} {status : JobStatus}
    {previousVersion : Option String}
    (h : bindJobRow args previousVersion s = (.ok status, t)) :
    t = { s with
      jobs := match s.jobRow args.jobId with
        | none => Table.insert (jobFor args previousVersion) s.jobs
        | some row =>
          if row.status = .running then s.jobs
          else Table.update (fun row => decide (row.jobId = args.jobId))
            (reopenJob previousVersion) s.jobs } := by
  rcases bindJobRow_cases h with ⟨hnone, -, -, rfl⟩ | ⟨row, hrow, -, -, hstopped, -, rfl⟩ |
    ⟨row, hrow, -, -, hrunning, -, rfl⟩ | ⟨⟨e, herr⟩, -⟩
  · simp only [hnone]
  · simp only [hrow, if_neg hstopped]
  · simp only [hrow, if_pos hrunning]
  · simp at herr

/-- What a committed acquire writes besides the lease depends on neither the attempt nor
the generation. -/
theorem acquireJobTransaction_eq {args : AcquireArgs} {document : SourceDocument}
    {s t : MetadataStore} {claimed : JobStatus × Nat} (hdocument : args.document = some document)
    (h : acquireJobTransaction args s = (.ok claimed, t)) :
    t = { s with
      builds := t.builds
      documents := enrolledDocuments document s.documents
      jobs := boundJobs args s } := by
  obtain ⟨previousVersion, s₁, s₂, hclaim, hupsert, hbind⟩ := acquireJobTransaction_ok h
  obtain ⟨rfl, hs₁⟩ := claimLease_captured hclaim
  rw [hdocument] at hupsert
  have hs₂ := upsertDocumentBuild_eq hupsert
  have ht := bindJobRow_eq hbind
  rw [hs₁] at hs₂
  rw [hs₂] at ht
  rw [ht]
  rfl

/-- After an acquire the job runs, and will hide the replaced version. -/
theorem acquireJobTransaction_job {args : AcquireArgs} {s t : MetadataStore}
    {claimed : JobStatus × Nat} (h : acquireJobTransaction args s = (.ok claimed, t)) :
    ∃ job, t.jobRow args.jobId = some job ∧ job.status = .running ∧
      job.previousActiveVersion = s.replacedVersion args.jobId args.ref := by
  obtain ⟨previousVersion, s₁, s₂, hclaim, hupsert, hbind⟩ := acquireJobTransaction_ok h
  obtain ⟨rfl, hs₁⟩ := claimLease_captured hclaim
  have hs₂ := upsertOptionalDocument_frame hupsert
  have hjobs : s₂.jobs = s.jobs := by rw [hs₂, hs₁]
  have hrow : s₂.jobRow args.jobId = s.jobRow args.jobId := by
    unfold jobRow
    rw [hjobs]
  unfold replacedVersion
  rcases bindJobRow_cases hbind with ⟨hnone, -, -, rfl⟩ | ⟨job, hjob, -, -, hstatus, -, rfl⟩ |
    ⟨job, hjob, -, -, hstatus, -, rfl⟩ | ⟨⟨e, herr⟩, -⟩
  · refine ⟨jobFor args (s.capturedVersion args.ref), ?_, rfl, ?_⟩
    · have hmissing : Table.selectOne (fun row : JobRow => decide (row.jobId = args.jobId)) s₂.jobs =
          none := hnone
      unfold jobRow
      rw [Table.selectOne_insert, hmissing]
      simp [jobFor]
    · rw [← hrow, hnone]
      rfl
  · refine ⟨reopenJob (s.capturedVersion args.ref) job, ?_, rfl, ?_⟩
    · have hfound : Table.selectOne (fun row : JobRow => decide (row.jobId = args.jobId)) s₂.jobs =
          some job := hjob
      have hid : job.jobId = args.jobId := (jobRow_mem hjob).2
      unfold jobRow
      rw [Table.selectOne_update, hfound]
      · simp [hid]
      · intro row _
        split <;> rfl
    · rw [← hrow, hjob]
      simp only [if_neg hstatus]
      rfl
  · refine ⟨job, hjob, hstatus, ?_⟩
    rw [← hrow, hjob]
    simp only [if_pos hstatus]
  · simp at herr

/-- An acquire touches no active row, whose version was committed already. -/
theorem acquireJobTransaction_activeRows {args : AcquireArgs} {s t : MetadataStore}
    {claimed : JobStatus × Nat} (hinv : LifecycleInvariant s)
    (hprocessing : ∀ document ∈ args.document, document.status = .processing)
    (h : acquireJobTransaction args s = (.ok claimed, t)) {row : DocumentRow}
    (hactive : row.status = .active) : row ∈ t.documents ↔ row ∈ s.documents := by
  rcases acquireJobTransaction_documents hprocessing h with hsame |
    ⟨new, -, -, hstatus, ht⟩ | ⟨columns, first, hfirst, href, hopen, hstatus, ht⟩
  · rw [hsame]
  · rw [ht, Table.mem_insert, or_iff_left]
    rintro rfl
    simp [hstatus] at hactive
  · rw [ht, Table.mem_update]
    constructor
    · rintro (⟨old, -, -, rfl⟩ | ⟨hmem, -⟩)
      · simp [hstatus] at hactive
      · exact hmem
    · intro hmem
      refine Or.inr ⟨hmem, ?_⟩
      simp only [ofVersion, decide_eq_false_iff_not]
      intro hsame
      obtain rfl := hinv.keys.eq_of_key hmem hfirst (hsame.trans href.symm)
      rcases hopen with h | h <;> simp [h] at hactive

theorem acquireJobTransaction_active {args : AcquireArgs} {s t : MetadataStore}
    {claimed : JobStatus × Nat} (hinv : LifecycleInvariant s)
    (hprocessing : ∀ document ∈ args.document, document.status = .processing)
    (h : acquireJobTransaction args s = (.ok claimed, t)) (doc : DocRef) :
    t.getActiveVersion doc = s.getActiveVersion doc := by
  have hinv' := (acquireJobTransaction_lifecycle hprocessing h).invariant hinv
  have hrows : ∀ row : DocumentRow, row.status = .active →
      (row ∈ t.documents ↔ row ∈ s.documents) :=
    fun row => acquireJobTransaction_activeRows hinv hprocessing h
  apply getActiveVersion_congr hinv hinv'
  intro version
  constructor
  · rintro ⟨row, hrow, href, hactive⟩
    exact ⟨row, (hrows row hactive).mp hrow, href, hactive⟩
  · rintro ⟨row, hrow, href, hactive⟩
    exact ⟨row, (hrows row hactive).mpr hrow, href, hactive⟩

/-- The row an acquire leaves for its version has the content hash of its document. -/
theorem acquireJobTransaction_content {args : AcquireArgs} {s t : MetadataStore}
    {claimed : JobStatus × Nat} {hash : String}
    (hdocument : ∀ document ∈ args.document, document.contentHash = hash)
    (hold : ∀ row ∈ s.documents, row.ref = args.ref → row.contentHash = hash)
    (h : acquireJobTransaction args s = (.ok claimed, t)) :
    ∀ row ∈ t.documents, row.ref = args.ref → row.contentHash = hash := by
  obtain ⟨previousVersion, s₁, s₂, hclaim, hupsert, hbind⟩ := acquireJobTransaction_ok h
  have hs₁ : s₁.documents = s.documents := by rw [(claimLease_captured hclaim).2]
  have hs₂ : t.documents = s₂.documents := by
    rcases bindJobRow_cases hbind with ⟨-, -, -, rfl⟩ | ⟨row, -, -, -, -, -, rfl⟩ |
      ⟨row, -, -, -, -, -, rfl⟩ | ⟨-, rfl⟩ <;> rfl
  rw [hs₂]
  intro row hrow href
  cases hargs : args.document with
  | none =>
    rw [hargs] at hupsert
    obtain ⟨-, rfl⟩ := Prod.mk.inj hupsert
    exact hold row (hs₁ ▸ hrow) href
  | some document =>
    have hhash := hdocument document hargs
    rw [hargs] at hupsert
    rcases upsertDocumentBuild_cases hupsert with ⟨-, -, rfl, -⟩ | ⟨first, -, -, -, rfl⟩ |
      ⟨first, -, -, -, rfl⟩ | ⟨-, rfl⟩
    · rcases Table.mem_insert.mp hrow with hmem | rfl
      · exact hold row (hs₁ ▸ hmem) href
      · exact hhash
    · rcases Table.mem_update.mp hrow with ⟨old, -, -, rfl⟩ | ⟨hmem, -⟩
      · exact hhash
      · exact hold row (hs₁ ▸ hmem) href
    · exact hold row (hs₁ ▸ hrow) href
    · exact hold row (hs₁ ▸ hrow) href

/-- A commit keeps the content hash of every version. -/
theorem commitActiveVersion_content {now : Timestamp} {doc : DocRef} {new : String} {expected : Nat}
    {s t : MetadataStore} {r : Except PyError (Nat × Option String)}
    (h : commitActiveVersion now doc new expected s = (r, t)) :
    ∀ row ∈ t.documents, ∃ old ∈ s.documents, old.ref = row.ref ∧
      old.contentHash = row.contentHash := by
  intro row hrow
  rcases commitActiveVersion_cases h with ⟨-, -, rfl⟩ | ⟨hother, -, -, rfl, -⟩ | ⟨e, -, rfl⟩
  · exact ⟨row, hrow, rfl, rfl⟩
  · rcases (mem_switchDocuments hother).mp hrow with ⟨old, hold, -, rfl⟩ | ⟨old, hold, -, rfl⟩ |
      ⟨hold, -, -⟩
    · exact ⟨old, hold, rfl, rfl⟩
    · exact ⟨old, hold, rfl, rfl⟩
    · exact ⟨row, hold, rfl, rfl⟩
  · exact ⟨row, hrow, rfl, rfl⟩

/-- A commit that returned leaves its version active. -/
theorem commitActiveVersion_active {now : Timestamp} {doc : DocRef} {new : String} {expected : Nat}
    {s t : MetadataStore} {switched : Nat × Option String} (hinv : LifecycleInvariant s)
    (h : commitActiveVersion now doc new expected s = (.ok switched, t)) :
    t.getActiveVersion doc = some new := by
  have hinv' := (commitActiveVersion_lifecycle h).invariant hinv
  rcases commitActiveVersion_cases h with ⟨hactive, -, rfl⟩ |
    ⟨hother, -, -, ht, row, hrow, href⟩ | ⟨e, herr, -⟩
  · exact hactive
  · have hmem : activateRow now (expected + 1) row ∈ t.documents := by
      rw [ht, mem_switchDocuments hother]
      exact Or.inl ⟨row, hrow, href, rfl⟩
    have hactive := hinv'.active_row hmem rfl
    simpa [activateRow, href] using hactive
  · simp at herr

section Times

/-- A version row without the times a switch records. -/
def untimed (row : DocumentRow) : DocumentRow :=
  { row with effectiveFrom := none, effectiveTo := none, indexedAt := none }

/-- The version rows without the times. -/
def untimedDocuments (s : MetadataStore) : List DocumentRow := s.documents.map untimed

variable {s s' t t' : MetadataStore}

theorem getActiveVersion_untimed (h : s.untimedDocuments = s'.untimedDocuments) (doc : DocRef) :
    s.getActiveVersion doc = s'.getActiveVersion doc := by
  have hversion : ∀ s : MetadataStore, s.getActiveVersion doc =
      (Table.selectOne (activeOf doc) s.untimedDocuments).map (·.ref.version) := by
    intro s
    have hcolumn : ∀ row, activeOf doc (untimed row) = activeOf doc row := fun _ => rfl
    unfold untimedDocuments
    rw [Table.selectOne_map hcolumn, Option.map_map]
    rfl
  rw [hversion s, hversion s', h]

theorem getCurrentRevision_untimed (h : s.untimedDocuments = s'.untimedDocuments) (doc : DocRef) :
    s.getCurrentRevision doc = s'.getCurrentRevision doc := by
  have hrevision : ∀ s : MetadataStore, s.getCurrentRevision doc =
      Table.maximum (ofDoc doc) (·.lifecycleRevision) s.untimedDocuments := by
    intro s
    have hcolumn : ∀ row, ofDoc doc (untimed row) = ofDoc doc row := fun _ => rfl
    have hvalue : ∀ row, (untimed row).lifecycleRevision = row.lifecycleRevision := fun _ => rfl
    unfold untimedDocuments
    rw [Table.maximum_map hcolumn hvalue]
    rfl
  rw [hrevision s, hrevision s', h]

/-- Updates by version that write the same columns up to the times. -/
theorem update_untimed {f f' : DocumentRow → DocumentRow} (ref : VersionRef)
    (hf : ∀ row row', untimed row = untimed row' → untimed (f row) = untimed (f' row'))
    {documents documents' : List DocumentRow}
    (h : documents.map untimed = documents'.map untimed) :
    (Table.update (ofVersion ref) f documents).map untimed =
      (Table.update (ofVersion ref) f' documents').map untimed := by
  induction documents generalizing documents' with
  | nil =>
    obtain rfl := List.map_eq_nil_iff.mp h.symm
    rfl
  | cons row documents ih =>
    cases documents' with
    | nil => simp at h
    | cons row' documents' =>
      obtain ⟨hrow, hrest⟩ := List.cons.inj h
      have hcolumn : ofVersion ref (untimed row) = ofVersion ref (untimed row') := by rw [hrow]
      replace hcolumn : ofVersion ref row = ofVersion ref row' := hcolumn
      have htail := ih hrest
      simp only [Table.update, List.map_cons, hcolumn] at htail ⊢
      rw [htail]
      congr 1
      split
      · exact hf row row' hrow
      · exact hrow

theorem switchDocuments_untimed (now now' : Timestamp) (doc : DocRef) (revision : Nat)
    (previous : Option String) (new : String) {documents documents' : List DocumentRow}
    (h : documents.map untimed = documents'.map untimed) :
    (switchDocuments now doc revision previous new documents).map untimed =
      (switchDocuments now' doc revision previous new documents').map untimed := by
  have hdemote : ∀ row row', untimed row = untimed row' →
      untimed (demoteRow now revision row) = untimed (demoteRow now' revision row') := by
    intro row row' hrow
    have hsame : untimed (demoteRow now revision (untimed row)) =
        untimed (demoteRow now revision (untimed row')) := by rw [hrow]
    exact hsame
  have hactivate : ∀ row row', untimed row = untimed row' →
      untimed (activateRow now revision row) = untimed (activateRow now' revision row') := by
    intro row row' hrow
    have hsame : untimed (activateRow now revision (untimed row)) =
        untimed (activateRow now revision (untimed row')) := by rw [hrow]
    exact hsame
  apply update_untimed _ hactivate
  cases previous with
  | none => exact h
  | some old => exact update_untimed _ hdemote h

/-- Up to the times, a commit writes the same from the same version rows. -/
theorem commitActiveVersion_untimed {now now' : Timestamp} {doc : DocRef} {new : String}
    {expected expected' : Nat} {switched switched' : Nat × Option String}
    (hsame : s.untimedDocuments = s'.untimedDocuments)
    (h : commitActiveVersion now doc new expected s = (.ok switched, t))
    (h' : commitActiveVersion now' doc new expected' s' = (.ok switched', t')) :
    t.untimedDocuments = t'.untimedDocuments := by
  have hactive := getActiveVersion_untimed hsame doc
  have hrevision := getCurrentRevision_untimed hsame doc
  rcases commitActiveVersion_cases h with ⟨hown, -, rfl⟩ | ⟨hother, hcurrent, -, rfl, -⟩ | ⟨e, herr, -⟩
  · rcases commitActiveVersion_cases h' with ⟨-, -, rfl⟩ | ⟨hother', -⟩ | ⟨e, herr, -⟩
    · exact hsame
    · exact absurd (hactive.symm.trans hown) hother'
    · simp at herr
  · rcases commitActiveVersion_cases h' with ⟨hown', -⟩ | ⟨-, hcurrent', -, rfl, -⟩ | ⟨e, herr, -⟩
    · exact absurd (hactive.trans hown') hother
    · have hexpected : expected = expected' := by
        rw [← hcurrent, ← hcurrent', hrevision]
      unfold untimedDocuments at hsame ⊢
      rw [switchDocuments_untimed now now' doc _ _ new hsame, hactive, hexpected]
    · simp at herr
  · simp at herr

end Times

end AgenticRag.MetadataStore
