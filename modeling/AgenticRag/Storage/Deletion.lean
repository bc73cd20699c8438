import AgenticRag.Storage.Lifecycle
import AgenticRag.Storage.World

/-!
# Deletions are final

Nothing in `commit_active_version` looks at the status of the version it
activates. What keeps a deleted version deleted is the revision a job captured at
its first acquire: a deletion raises the revision of the document, so a job that
saw its version alive is fenced off by the compare-and-swap. `Fenced` says this
of one job, `DeletionInvariant` of every job that passed `verify`, and `Later`
collects what no method undoes.
-/

namespace AgenticRag.MetadataStore

open Routine

/-- The version row exists and is logically deleted. -/
def Deleted (s : MetadataStore) (ref : VersionRef) : Prop :=
  ∃ row ∈ s.documents, row.ref = ref ∧ row.status = .deleted

/-- If the job's version is deleted, its compare-and-swap can only fail. -/
def Fenced (s : MetadataStore) (job : JobRow) : Prop :=
  s.Deleted job.ref → job.baseRevision < s.getCurrentRevision job.ref.doc

/-- The job `jobId` is bound to `ref` and fenced. -/
def JobFenced (s : MetadataStore) (jobId : String) (ref : VersionRef) : Prop :=
  ∃ job ∈ s.jobs, job.jobId = jobId ∧ job.ref = ref ∧ s.Fenced job

structure DeletionInvariant (s : MetadataStore) : Prop where
  lifecycle : LifecycleInvariant s
  jobKeys : Table.KeyUnique (·.jobId) s.jobs
  base : ∀ job ∈ s.jobs, job.baseRevision ≤ s.getCurrentRevision job.ref.doc
  verified : ∀ marker ∈ s.steps, marker.stepName = .verify → marker.status = "done" →
    ∃ job ∈ s.jobs, job.jobId = marker.jobId ∧ s.Fenced job

/-- What the methods other than a purge never undo. -/
structure Later (s t : MetadataStore) : Prop where
  deleted : ∀ ref, s.Deleted ref → t.Deleted ref
  revision : ∀ doc, s.getCurrentRevision doc ≤ t.getCurrentRevision doc
  jobs : ∀ job ∈ s.jobs, ∃ next ∈ t.jobs,
    next.jobId = job.jobId ∧ next.ref = job.ref ∧ next.baseRevision = job.baseRevision
  deletion : ∀ ref, t.Deleted ref →
    s.Deleted ref ∨ s.getCurrentRevision ref.doc < t.getCurrentRevision ref.doc

/-- From a good state the store gets into a later good state. -/
def Evolves (s t : MetadataStore) : Prop :=
  DeletionInvariant s → DeletionInvariant t ∧ Later s t

section Later

variable {s t u : MetadataStore}

theorem Later.refl (s : MetadataStore) : Later s s :=
  ⟨fun _ h => h, fun _ => le_refl _, fun job hjob => ⟨job, hjob, rfl, rfl, rfl⟩,
    fun _ h => Or.inl h⟩

theorem Later.trans (hst : Later s t) (htu : Later t u) : Later s u := by
  constructor
  · exact fun ref h => htu.deleted ref (hst.deleted ref h)
  · exact fun doc => (hst.revision doc).trans (htu.revision doc)
  · intro job hjob
    obtain ⟨next, hnext, hid, href, hbase⟩ := hst.jobs job hjob
    obtain ⟨last, hlast, hid', href', hbase'⟩ := htu.jobs next hnext
    exact ⟨last, hlast, hid'.trans hid, href'.trans href, hbase'.trans hbase⟩
  · intro ref hdeleted
    rcases htu.deletion ref hdeleted with hmid | hlt
    · rcases hst.deletion ref hmid with hfirst | hlt
      · exact Or.inl hfirst
      · exact Or.inr (lt_of_lt_of_le hlt (htu.revision ref.doc))
    · exact Or.inr (lt_of_le_of_lt (hst.revision ref.doc) hlt)

theorem Evolves.refl (s : MetadataStore) : Evolves s s := fun h => ⟨h, Later.refl s⟩

theorem Evolves.trans (hst : Evolves s t) (htu : Evolves t u) : Evolves s u := by
  intro h
  obtain ⟨ht, hlater⟩ := hst h
  obtain ⟨hu, hlater'⟩ := htu ht
  exact ⟨hu, hlater.trans hlater'⟩

/-- A fenced job stays fenced: its own base revision is at most the revision at
which the version can be deleted next. -/
theorem Fenced.later {job next : JobRow} (hinv : DeletionInvariant s) (hlater : Later s t)
    (hjob : job ∈ s.jobs) (href : next.ref = job.ref)
    (hbase : next.baseRevision = job.baseRevision) (h : s.Fenced job) : t.Fenced next := by
  intro hdeleted
  rw [href] at hdeleted ⊢
  rw [hbase]
  rcases hlater.deletion job.ref hdeleted with hbefore | hlt
  · exact lt_of_lt_of_le (h hbefore) (hlater.revision job.ref.doc)
  · exact lt_of_le_of_lt (hinv.base job hjob) hlt

theorem JobFenced.later {jobId : String} {ref : VersionRef} (hinv : DeletionInvariant s)
    (hlater : Later s t) (h : s.JobFenced jobId ref) : t.JobFenced jobId ref := by
  obtain ⟨job, hjob, hid, href, hfenced⟩ := h
  obtain ⟨next, hnext, hid', href', hbase⟩ := hlater.jobs job hjob
  exact ⟨next, hnext, hid'.trans hid, href'.trans href,
    Fenced.later hinv hlater hjob href' hbase hfenced⟩

/-- The job row is the one its id looks up. -/
theorem DeletionInvariant.jobRow (hinv : DeletionInvariant s) {job : JobRow} (hjob : job ∈ s.jobs) :
    s.jobRow job.jobId = some job :=
  Table.selectOne_of_key hinv.jobKeys hjob

end Later

/-- What a method does to the job rows. -/
inductive JobStep (s t : MetadataStore) : Prop
  /-- Every row keeps its id, version and base revision. -/
  | rewrite (p : JobRow → Bool) (f : JobRow → JobRow) (hid : ∀ job, (f job).jobId = job.jobId)
      (href : ∀ job, (f job).ref = job.ref)
      (hbase : ∀ job, (f job).baseRevision = job.baseRevision)
      (hjobs : t.jobs = Table.update p f s.jobs)
  /-- A first acquire adds a row whose base revision is not ahead. -/
  | enlist (job : JobRow) (hnew : ∀ old ∈ s.jobs, old.jobId ≠ job.jobId)
      (hbase : job.baseRevision ≤ s.getCurrentRevision job.ref.doc)
      (hjobs : t.jobs = Table.insert job s.jobs)

theorem JobStep.same {s t : MetadataStore} (h : t.jobs = s.jobs) : JobStep s t :=
  .rewrite (fun _ => false) id (fun _ => rfl) (fun _ => rfl) (fun _ => rfl)
    (by simp [h, Table.update])

section Evolution

variable {s t : MetadataStore}

theorem JobStep.keys (hstep : JobStep s t) (hkeys : Table.KeyUnique (·.jobId) s.jobs) :
    Table.KeyUnique (·.jobId) t.jobs := by
  cases hstep with
  | rewrite p f hid href hbase hjobs =>
    rw [hjobs]
    exact hkeys.update fun job _ _ => hid job
  | enlist job hnew hbase hjobs =>
    rw [hjobs]
    exact hkeys.insert hnew

theorem JobStep.forward (hstep : JobStep s t) :
    ∀ job ∈ s.jobs, ∃ next ∈ t.jobs,
      next.jobId = job.jobId ∧ next.ref = job.ref ∧ next.baseRevision = job.baseRevision := by
  intro job hjob
  cases hstep with
  | rewrite p f hid href hbase hjobs =>
    by_cases hp : p job = true
    · refine ⟨f job, ?_, hid job, href job, hbase job⟩
      rw [hjobs]
      exact Table.mem_update.mpr (Or.inl ⟨job, hjob, hp, rfl⟩)
    · refine ⟨job, ?_, rfl, rfl, rfl⟩
      rw [hjobs]
      exact Table.mem_update.mpr (Or.inr ⟨hjob, by simpa using hp⟩)
  | enlist new hnew hbase hjobs =>
    refine ⟨job, ?_, rfl, rfl, rfl⟩
    rw [hjobs]
    exact Table.mem_insert.mpr (Or.inl hjob)

theorem JobStep.backward (hstep : JobStep s t) :
    ∀ job ∈ t.jobs, (∃ old ∈ s.jobs, old.jobId = job.jobId ∧ old.ref = job.ref ∧
      old.baseRevision = job.baseRevision) ∨
        job.baseRevision ≤ s.getCurrentRevision job.ref.doc := by
  intro job hjob
  cases hstep with
  | rewrite p f hid href hbase hjobs =>
    rw [hjobs] at hjob
    rcases Table.mem_update.mp hjob with ⟨old, hold, -, rfl⟩ | ⟨hold, -⟩
    · exact Or.inl ⟨old, hold, (hid old).symm, (href old).symm, (hbase old).symm⟩
    · exact Or.inl ⟨job, hold, rfl, rfl, rfl⟩
  | enlist new hnew hbase hjobs =>
    rw [hjobs] at hjob
    rcases Table.mem_insert.mp hjob with hold | rfl
    · exact Or.inl ⟨job, hold, rfl, rfl, rfl⟩
    · exact Or.inr hbase

/-- A deletion shows in the revision of its document. -/
theorem LifecycleStep.deletion (hstep : LifecycleStep s t) (hinv : LifecycleInvariant s)
    (ref : VersionRef) (hdeleted : t.Deleted ref) :
    s.Deleted ref ∨ s.getCurrentRevision ref.doc < t.getCurrentRevision ref.doc := by
  obtain ⟨row, hrow, href, hstatus⟩ := hdeleted
  rcases hstep.origin hrow with ⟨old, hold, hsame⟩ | hprocessing
  · obtain ⟨next, hnext, hnextref, -, hnextdeleted⟩ := hstep.evolve hinv hold
    have heq : next = row :=
      (hstep.invariant hinv).keys.eq_of_key hnext hrow (hnextref.trans hsame)
    rw [heq] at hnextdeleted
    rcases hnextdeleted hstatus with hbefore | hlt
    · exact Or.inl ⟨old, hold, hsame.trans href, hbefore⟩
    · right
      rw [hsame, href] at hlt
      exact lt_of_lt_of_le hlt (lifecycleRevision_le hrow (by rw [href]))
  · simp [hstatus] at hprocessing

/-- A method evolves the store if its effect on the version rows is a lifecycle
step that keeps deletions, its effect on the job rows a job step, and it writes
no `verify` marker for an unfenced job. -/
theorem evolves_of (hdocuments : LifecycleInvariant s → LifecycleStep s t)
    (hdeleted : LifecycleInvariant s → ∀ ref, s.Deleted ref → t.Deleted ref) (hjobs : JobStep s t)
    (hmarkers : DeletionInvariant s → ∀ marker ∈ t.steps, marker.stepName = .verify →
      marker.status = "done" → marker ∈ s.steps ∨ ∃ ref, s.JobFenced marker.jobId ref) :
    Evolves s t := by
  intro hinv
  have hstep := hdocuments hinv.lifecycle
  have hlater : Later s t :=
    { deleted := hdeleted hinv.lifecycle
      revision := hstep.revision_le hinv.lifecycle
      jobs := hjobs.forward
      deletion := hstep.deletion hinv.lifecycle }
  refine ⟨?_, hlater⟩
  constructor
  · exact hstep.invariant hinv.lifecycle
  · exact hjobs.keys hinv.jobKeys
  · intro job hjob
    rcases hjobs.backward job hjob with ⟨old, hold, -, href, hbase⟩ | hbase
    · rw [← href, ← hbase]
      exact (hinv.base old hold).trans (hlater.revision _)
    · exact hbase.trans (hlater.revision _)
  · intro marker hmarker hname hdone
    have hfenced : ∃ ref, s.JobFenced marker.jobId ref := by
      rcases hmarkers hinv marker hmarker hname hdone with hold | hnew
      · obtain ⟨job, hjob, hid, hfenced⟩ := hinv.verified marker hold hname hdone
        exact ⟨job.ref, job, hjob, hid, rfl, hfenced⟩
      · exact hnew
    obtain ⟨ref, hfenced⟩ := hfenced
    obtain ⟨job, hjob, hid, -, hfenced⟩ := hfenced.later hinv hlater
    exact ⟨job, hjob, hid, hfenced⟩

/-- Methods that leave version rows and markers alone. -/
theorem evolves_of_jobs (hdocuments : t.documents = s.documents) (hjobs : JobStep s t)
    (hsteps : ∀ marker ∈ t.steps, marker.stepName = .verify → marker ∈ s.steps) : Evolves s t := by
  refine evolves_of (fun _ => .stay hdocuments) ?_ hjobs
    fun _ marker hmarker hname _ => Or.inl (hsteps marker hmarker hname)
  rintro _ ref ⟨row, hrow, h⟩
  exact ⟨row, hdocuments ▸ hrow, h⟩

/-- Methods that only write version rows. -/
theorem evolves_of_documents (hdocuments : LifecycleInvariant s → LifecycleStep s t)
    (hdeleted : LifecycleInvariant s → ∀ ref, s.Deleted ref → t.Deleted ref)
    (hjobs : t.jobs = s.jobs) (hsteps : t.steps = s.steps) : Evolves s t :=
  evolves_of hdocuments hdeleted (.same hjobs) fun _ _ hmarker _ _ => Or.inl (hsteps ▸ hmarker)

/-- An `UPDATE` that keeps identities and touches no deleted row keeps deletions. -/
theorem deleted_update {p : DocumentRow → Bool} {f : DocumentRow → DocumentRow}
    (ht : t.documents = Table.update p f s.documents)
    (hskip : ∀ row ∈ s.documents, row.status = .deleted → p row = false) (ref : VersionRef)
    (h : s.Deleted ref) : t.Deleted ref := by
  obtain ⟨row, hrow, href, hstatus⟩ := h
  refine ⟨row, ?_, href, hstatus⟩
  rw [ht]
  exact Table.mem_update.mpr (Or.inr ⟨hrow, hskip row hrow hstatus⟩)

/-- Activating a version that is not deleted keeps deletions. -/
theorem deleted_switch {now : Timestamp} {doc : DocRef} {revision : Nat} {new : String}
    (hinv : LifecycleInvariant s) (hother : s.getActiveVersion doc ≠ some new)
    (ht : t.documents = switchDocuments now doc revision (s.getActiveVersion doc) new s.documents)
    (hnew : ¬s.Deleted ⟨doc, new⟩) (ref : VersionRef) (h : s.Deleted ref) : t.Deleted ref := by
  obtain ⟨row, hrow, href, hstatus⟩ := h
  refine ⟨row, ?_, href, hstatus⟩
  rw [ht, mem_switchDocuments hother]
  refine Or.inr (Or.inr ⟨hrow, fun heq => hnew ⟨row, hrow, heq, hstatus⟩, ?_⟩)
  intro version hversion heq
  -- the version to demote is active, so it is not this row's
  obtain ⟨active, hactive, hactiveref, hactivestatus⟩ := getActiveVersion_some hversion
  have hsame := hinv.keys.eq_of_key hactive hrow (hactiveref.trans heq.symm)
  rw [hsame, hstatus] at hactivestatus
  simp at hactivestatus

end Evolution

section Methods

variable {s t : MetadataStore}

theorem acquireJobTransaction_evolves {args : AcquireArgs} {r : Except PyError (JobStatus × Nat)}
    (hprocessing : ∀ document ∈ args.document, document.status = .processing)
    (hbase : args.baseRevision ≤ s.getCurrentRevision args.ref.doc)
    (h : acquireJobTransaction args s = (r, t)) : Evolves s t := by
  cases r with
  | error e =>
    rw [transaction_error h]
    exact Evolves.refl s
  | ok claimed =>
    have hdocuments := acquireJobTransaction_documents hprocessing h
    have hstep := acquireJobTransaction_lifecycle hprocessing h
    obtain ⟨previousVersion, s₁, s₂, hclaim, hupsert, hbind⟩ := acquireJobTransaction_ok h
    have hs₁ : s₁.jobs = s.jobs ∧ s₁.steps = s.steps := by
      rcases claimLease_cases hclaim with ⟨-, -, rfl⟩ | ⟨lease, -, -, -, rfl⟩ |
        ⟨lease, reason, -, -, -, rfl⟩ <;> exact ⟨rfl, rfl⟩
    have hs₂ : s₂.jobs = s₁.jobs ∧ s₂.steps = s₁.steps := by
      cases hdocument : args.document with
      | none =>
        rw [hdocument] at hupsert
        obtain ⟨-, rfl⟩ := Prod.mk.inj hupsert
        exact ⟨rfl, rfl⟩
      | some document =>
        rw [hdocument] at hupsert
        rcases upsertDocumentBuild_cases hupsert with ⟨-, -, rfl, -⟩ | ⟨row, -, -, -, rfl⟩ |
          ⟨row, -, -, -, rfl⟩ | ⟨-, rfl⟩ <;> exact ⟨rfl, rfl⟩
    have hjobs : s₂.jobs = s.jobs := hs₂.1.trans hs₁.1
    have hsteps : t.steps = s.steps := by
      rcases bindJobRow_cases hbind with ⟨-, -, -, rfl⟩ | ⟨row, -, -, -, -, -, rfl⟩ |
        ⟨row, -, -, -, -, -, rfl⟩ | ⟨-, rfl⟩ <;> exact hs₂.2.trans hs₁.2
    refine evolves_of (fun _ => hstep) ?_ ?_ fun _ _ hmarker _ _ => Or.inl (hsteps ▸ hmarker)
    · intro hinv
      rcases hdocuments with hsame | ⟨row, -, -, -, ht⟩ | ⟨columns, row, hrow, href, hopen, -, ht⟩
      · rintro ref ⟨row, hrow, h⟩
        exact ⟨row, hsame ▸ hrow, h⟩
      · rintro ref ⟨old, hold, h⟩
        exact ⟨old, by rw [ht]; exact Table.mem_insert.mpr (Or.inl hold), h⟩
      · apply deleted_update ht
        intro old hold hdeleted
        -- the refreshed version was never activated, hence not deleted
        by_contra hof
        simp only [ofVersion, decide_eq_false_iff_not, not_not] at hof
        have hsame := hinv.keys.eq_of_key hold hrow (hof.trans href.symm)
        rw [hsame] at hdeleted
        rcases hopen with hopen | hopen <;> simp [hopen] at hdeleted
    · rcases bindJobRow_cases hbind with ⟨hnone, -, -, ht⟩ | ⟨row, -, -, -, -, -, ht⟩ |
        ⟨row, -, -, -, -, -, rfl⟩ | ⟨-, rfl⟩
      · refine .enlist (jobFor args previousVersion) ?_ hbase ?_
        · rw [← hjobs]
          exact jobRow_none.mp hnone
        · rw [ht, ← hjobs]
      · exact .rewrite (fun row => decide (row.jobId = args.jobId)) (reopenJob previousVersion)
          (fun _ => rfl) (fun _ => rfl) (fun _ => rfl) (by rw [ht, ← hjobs])
      · exact .same hjobs
      · exact .same hjobs

/-- The compare-and-swap of a fenced job never reactivates a deleted version. -/
theorem commitActiveVersion_evolves {now : Timestamp} {doc : DocRef} {new : String}
    {expected : Nat} {r : Except PyError (Nat × Option String)}
    (hfenced : s.Deleted ⟨doc, new⟩ → expected < s.getCurrentRevision doc)
    (h : commitActiveVersion now doc new expected s = (r, t)) : Evolves s t := by
  have hstep := commitActiveVersion_lifecycle h
  rcases commitActiveVersion_cases h with ⟨-, -, rfl⟩ | ⟨hother, hcurrent, -, rfl, -⟩ | ⟨e, -, rfl⟩
  · exact Evolves.refl _
  · refine evolves_of_documents (fun _ => hstep) ?_ rfl rfl
    intro hinv
    apply deleted_switch hinv hother rfl
    intro hdeleted
    have hlt := hfenced hdeleted
    omega
  · exact Evolves.refl _

/-- Without the fence the commit would do just that: it takes the deleted `v1` back
when it is given the current revision. -/
example :
    let deleted := [.acquireJob (Sample.acquire "job-1" "v1" "attempt-1" 0) (by
        simp [Sample.acquire, Sample.processing]),
      .commitActiveVersion 1 Sample.doc "v1" 0, .logicalDelete 2 ⟨Sample.doc, "v1"⟩]
    let s := runCalls Sample.store deleted
    (s.documents.map (·.status)) = [.deleted] ∧
      (commitActiveVersion 3 Sample.doc "v1" 2 s).2.getActiveVersion Sample.doc = some "v1" := by
  decide +kernel

theorem rollbackActiveVersion_evolves {now : Timestamp} {doc : DocRef} {toVersion : Option String}
    {expected : Option Nat} {r : Except PyError (Nat × Option String)}
    (h : rollbackActiveVersion now doc toVersion expected s = (r, t)) : Evolves s t := by
  have hstep := rollbackActiveVersion_lifecycle h
  rcases rollbackActiveVersion_cases h with ⟨previous, -, -, rfl⟩ |
    ⟨previous, target, row, hactive, hne, hrow, hstatus, -, -, ht⟩ | ⟨e, -, rfl⟩
  · exact Evolves.refl _
  · refine evolves_of_documents (fun _ => hstep) ?_ (by rw [ht]) (by rw [ht])
    intro hinv
    have hother : s.getActiveVersion doc ≠ some target := by
      rw [hactive]
      simpa using hne.symm
    apply deleted_switch hinv hother (by rw [ht, hactive])
    rintro ⟨deleted, hdeleted, href, hgone⟩
    obtain ⟨hmem, hrowref⟩ := documentRow_mem hrow
    have hsame := hinv.keys.eq_of_key hdeleted hmem (href.trans hrowref.symm)
    rw [hsame] at hgone
    exact hstatus hgone
  · exact Evolves.refl _

theorem logicalDelete_evolves {deletedAt : Timestamp} {ref : VersionRef} {r : Except PyError Nat}
    (h : logicalDelete deletedAt ref s = (r, t)) : Evolves s t := by
  have hstep := logicalDelete_lifecycle h
  rcases logicalDelete_cases h with ⟨row, hrow, -, hactive, -, ht⟩ | rfl
  · refine evolves_of_documents (fun _ => hstep) ?_ (by rw [ht]) (by rw [ht])
    intro hinv
    apply deleted_update (by rw [ht])
    intro old hold hdeleted
    by_contra hof
    simp only [ofVersion, decide_eq_false_iff_not, not_not] at hof
    have hsame := hinv.keys.eq_of_key hold hrow hof
    rw [hsame, hactive] at hdeleted
    simp at hdeleted
  · exact Evolves.refl _

theorem updateDocumentAcl_evolves {ref : VersionRef} {acl : AclFields} {r : Except PyError Unit}
    (h : updateDocumentAcl ref acl s = (r, t)) : Evolves s t := by
  have hstep := updateDocumentAcl_lifecycle h
  rcases updateDocumentAcl_cases h with ⟨row, hrow, hactive, -, ht⟩ | ⟨-, rfl, -⟩ | ⟨-, rfl⟩
  · refine evolves_of_documents (fun _ => hstep) ?_ (by rw [ht]) (by rw [ht])
    intro hinv
    apply deleted_update (by rw [ht])
    intro old hold hdeleted
    by_contra hof
    simp only [ofVersion, decide_eq_false_iff_not, not_not] at hof
    obtain ⟨hmem, href⟩ := documentRow_mem hrow
    have hsame := hinv.keys.eq_of_key hold hmem (hof.trans href.symm)
    rw [hsame, hactive] at hdeleted
    simp at hdeleted
  · exact Evolves.refl _
  · exact Evolves.refl _

theorem markDocumentFailed_evolves {ref : VersionRef} {r : Except PyError Unit}
    (h : markDocumentFailed ref s = (r, t)) : Evolves s t := by
  have hstep := markDocumentFailed_lifecycle h
  rcases markDocumentFailed_cases h with ⟨-, ht⟩ | ⟨-, rfl⟩
  · refine evolves_of_documents (fun _ => hstep) ?_ (by rw [ht]) (by rw [ht])
    intro _
    apply deleted_update (by rw [ht])
    intro old _ hdeleted
    simp [openOf, hdeleted]
  · exact Evolves.refl _

/-- A marker of another step, or the `verify` marker of a fenced job. -/
theorem markStep_evolves {jobId : String} {step : Step} {status : String}
    {r : Except PyError Unit}
    (hverify : step = .verify → DeletionInvariant s → ∃ ref, s.JobFenced jobId ref)
    (h : markStep jobId step status s = (r, t)) : Evolves s t := by
  rcases markStep_cases h with ⟨-, heq, hsteps⟩ | ⟨-, rfl, -⟩
  · refine evolves_of (fun _ => .stay (by rw [heq])) ?_ (.same (by rw [heq])) ?_
    · rintro _ ref ⟨row, hrow, h⟩
      exact ⟨row, by rw [heq]; exact hrow, h⟩
    · intro hinv marker hmarker hname _
      rcases hsteps marker hmarker with hold | ⟨rfl, -⟩
      · exact Or.inl hold
      · exact Or.inr (hverify hname hinv)
  · exact Evolves.refl _

theorem markJobTerminal_evolves {jobId : String} {status : JobStatus} {parentCount childCount : Nat}
    {errorCode : Option String} {r : Except PyError Unit}
    (h : markJobTerminal jobId status parentCount childCount errorCode s = (r, t)) :
    Evolves s t := by
  rw [markJobTerminal_eq] at h
  obtain ⟨-, rfl⟩ := Prod.mk.inj h
  refine evolves_of_jobs rfl (.rewrite _ _ ?_ ?_ ?_ rfl) fun _ hmarker _ => hmarker
  · exact fun _ => rfl
  · exact fun _ => rfl
  · exact fun _ => rfl

theorem setJobManifest_evolves {jobId : String} {manifest : Manifest} {r : Except PyError Unit}
    (h : setJobManifest jobId manifest s = (r, t)) : Evolves s t := by
  obtain ⟨-, rfl⟩ := Prod.mk.inj h
  refine evolves_of_jobs rfl (.rewrite _ _ ?_ ?_ ?_ rfl) fun _ hmarker _ => hmarker
  · exact fun _ => rfl
  · exact fun _ => rfl
  · exact fun _ => rfl

theorem clearSteps_evolves {jobId : String} {r : Except PyError Unit}
    (h : clearSteps jobId s = (r, t)) : Evolves s t := by
  obtain ⟨-, rfl⟩ := Prod.mk.inj h
  exact evolves_of_jobs rfl (.same rfl) fun _ hmarker _ => (Table.mem_delete.mp hmarker).1

theorem upsertChunkRecord_evolves {chunk : ChunkRecord} {r : Except PyError Unit}
    (h : upsertChunkRecord chunk s = (r, t)) : Evolves s t := by
  rcases upsertChunkRecord_cases h with ⟨-, -, ht, -⟩ | ⟨-, rfl⟩
  · refine evolves_of_jobs (by rw [ht]) (.same (by rw [ht])) fun marker hmarker _ => ?_
    rw [ht] at hmarker
    exact hmarker
  · exact Evolves.refl _

theorem deleteChunkRecords_evolves {ref : VersionRef} {r : Except PyError Unit}
    (h : deleteChunkRecords ref s = (r, t)) : Evolves s t := by
  obtain ⟨-, rfl⟩ := Prod.mk.inj h
  exact evolves_of_jobs rfl (.same rfl) fun _ hmarker _ => hmarker

end Methods

end AgenticRag.MetadataStore

namespace AgenticRag

/-- The methods that keep deletions final whoever calls them: all but an acquire,
a commit, a `verify` marker and a purge. -/
def MetadataOp.Harmless {β : Type} : MetadataOp β → Prop
  | .acquireJobTransaction _ => False
  | .markStep _ step _ => step ≠ .verify
  | .commitActiveVersion _ _ _ => False
  | .deleteDocument _ => False
  | _ => True

def StoreOp.Harmless {β : Type} : StoreOp β → Prop
  | .metadata op => op.Harmless
  | _ => True

theorem MetadataOp.Harmless.evolves {β : Type} {op : MetadataOp β} (hop : op.Harmless)
    (now : Timestamp) (s : MetadataStore) : MetadataStore.Evolves s (op.eval now s).2 := by
  cases op with
  | acquireJobTransaction args => exact hop.elim
  | markStep jobId step status =>
    exact MetadataStore.markStep_evolves (fun hstep => absurd hstep hop) rfl
  | clearSteps jobId => exact MetadataStore.clearSteps_evolves rfl
  | markJobTerminal jobId status parentCount childCount errorCode =>
    exact MetadataStore.markJobTerminal_evolves rfl
  | setJobManifest jobId manifest => exact MetadataStore.setJobManifest_evolves rfl
  | commitActiveVersion doc newVersion expectedRevision => exact hop.elim
  | rollbackActiveVersion doc toVersion expectedRevision =>
    exact MetadataStore.rollbackActiveVersion_evolves rfl
  | logicalDelete ref => exact MetadataStore.logicalDelete_evolves rfl
  | updateDocumentAcl ref acl => exact MetadataStore.updateDocumentAcl_evolves rfl
  | markDocumentFailed ref => exact MetadataStore.markDocumentFailed_evolves rfl
  | upsertChunkRecord chunk => exact MetadataStore.upsertChunkRecord_evolves rfl
  | deleteChunkRecords ref => exact MetadataStore.deleteChunkRecords_evolves rfl
  | deleteDocument doc => exact hop.elim

end AgenticRag
