import AgenticRag.Ingestion.VersionContent
import AgenticRag.Storage.Acquisition

/-!
# The tenure of a job on its version

From its acquire to its end a job owns the build of its version. What each of its
accesses does to that: nobody else can take the version over while the job is in flight
or the version is active, and a job that ends otherwise leaves nothing behind.
-/

namespace AgenticRag

open MetadataStore IngestionJob

/-- An acquire that would take an active version with another content over from a job that
is not in flight any more. -/
def StoreOp.Overrules : {β : Type} → StoreOp β → World → Prop
  | _, .metadata (.acquireJobTransaction args), w =>
    (∃ row ∈ w.metadata.documents, row.ref = args.ref ∧ row.status = .active ∧
      row.contentHash ≠ args.rawHash) ∧
    ∀ owner, w.metadata.getBuildOwner args.ref = some owner →
      (w.metadata.getJobStatus owner).any JobStatus.inFlight = false
  | _, _, _ => False

section Tenure

variable (svc : Services) (req : IngestionRequest)

def OwnsVersion (w : World) : Prop := w.metadata.getBuildOwner req.ref = some req.jobId

/-- It also is in flight, or the version is active: nobody takes it over. -/
def HoldsVersion (w : World) : Prop :=
  OwnsVersion req w ∧ ((w.metadata.getJobStatus req.jobId).any JobStatus.inFlight = true ∨ w.Active req.ref)

/-- No lease, job row or marker of the job. -/
structure Untouched (jobId : String) (w : World) : Prop where
  builds : ∀ build ∈ w.metadata.builds, build.ownerJobId ≠ jobId
  jobs : w.metadata.getJobStatus jobId = none
  steps : ∀ row ∈ w.metadata.steps, row.jobId ≠ jobId

/-- A row of the version is one a commit may activate, or has activated. -/
def Committable (ref : VersionRef) (w : World) : Prop :=
  ∀ row ∈ w.metadata.documents, row.ref = ref →
    row.status = .processing ∨ row.status = .failed ∨ row.status = .active

/-- The version is the request's: all that is stored for it was built from the request,
and nothing is stored once the job could be taken over. -/
structure Possessed (w : World) : Prop where
  owns : OwnsVersion req w
  built : BuiltFrom svc req w
  committable : Committable req.ref w
  idle : HoldsVersion req w ∨ w.Bare req.ref

/-- Nothing is stored for the version and nobody builds it. -/
structure Vacant (ref : VersionRef) (w : World) : Prop where
  lease : w.metadata.getBuildOwner ref = none
  rows : ∀ row ∈ w.metadata.documents, row.ref ≠ ref
  bare : w.Bare ref

/-- The job at work on its version; `done` says whether it has committed. -/
structure Tenure (done : Bool) (w : World) : Prop where
  positive : PositiveGenerations w.metadata
  holds : HoldsVersion req w
  built : BuiltFrom svc req w
  committable : Committable req.ref w
  committed : done = true → w.Active req.ref
  marker : ∀ row ∈ w.metadata.steps, row.jobId = req.jobId → row.stepName = .commit → done = true

/-- What a step of the job leaves of the traces of other jobs. -/
structure Elsewhere (w w' : World) : Prop where
  builds : ∀ build ∈ w'.metadata.builds, build.ownerJobId = req.jobId ∨
    ∃ old ∈ w.metadata.builds, old.ownerJobId = build.ownerJobId
  jobs : ∀ jobId, jobId ≠ req.jobId → w'.metadata.getJobStatus jobId = w.metadata.getJobStatus jobId
  steps : ∀ row ∈ w'.metadata.steps, row ∈ w.metadata.steps ∨ row.jobId = req.jobId

variable {svc req} {done : Bool} {w w' : World}

theorem Untouched.elsewhere {jobId : String} (hother : jobId ≠ req.jobId) (hw : Untouched jobId w)
    (h : Elsewhere req w w') : Untouched jobId w' := by
  constructor
  · intro build hbuild
    rcases h.builds build hbuild with howner | ⟨old, hold, howner⟩
    · rw [howner]
      exact hother.symm
    · rw [← howner]
      exact hw.builds old hold
  · rw [h.jobs jobId hother]
    exact hw.jobs
  · intro row hrow
    rcases h.steps row hrow with hold | hmine
    · exact hw.steps row hold
    · rw [hmine]
      exact hother.symm

theorem Untouched.not_owns {jobId : String} (hw : Untouched jobId w) (ref : VersionRef) :
    w.metadata.getBuildOwner ref ≠ some jobId := by
  intro howner
  obtain ⟨lease, hlease, howner⟩ := Option.map_eq_some_iff.mp howner
  exact hw.builds lease (buildRow_mem hlease).1 howner

/-- A method of the metadata store that writes no chunk row leaves a version bare. -/
theorem bare_metadata {β : Type} {op : MetadataOp β} (hchunks : .chunks ∉ op.writes)
    {ref : VersionRef} {r : Except PyError β} (h : (StoreOp.metadata op).Outcome w r w')
    (hw : w.Bare ref) : w'.Bare ref := by
  rcases h.state with rfl | rfl
  · exact hw
  · obtain ⟨r, s, hrun⟩ : ∃ r s, op.eval w.clock w.metadata = (r, s) := ⟨_, _, rfl⟩
    have hsame := (MetadataOp.frame hrun).chunks hchunks
    simp only [StoreOp.eval, hrun]
    exact ⟨hw.points, hw.parents, fun row hrow => hw.chunks row (hsame ▸ hrow)⟩

/-- Nothing was built from anything. -/
theorem Vacant.built {ref : VersionRef} (h : Vacant ref w) (href : req.ref = ref) :
    BuiltFrom svc req w := by
  subst href
  constructor
  · exact fun row hrow href => absurd href (h.rows row hrow)
  · exact fun row hrow href => absurd href (h.bare.chunks row hrow)
  · exact fun name points hpoints point hpoint href =>
      absurd href (h.bare.points name points hpoints point hpoint)
  · exact fun parent hparent href => absurd href (h.bare.parents parent hparent)

theorem Tenure.possessed (h : Tenure svc req done w) : Possessed svc req w :=
  ⟨h.holds.1, h.built, h.committable, Or.inl h.holds⟩

theorem IngestionJob.Served.elsewhere {committed : Bool} (h : Served req committed w w') : Elsewhere req w w' := by
  refine ⟨fun build hbuild => Or.inr ⟨build, ?_, rfl⟩, fun jobId _ => h.jobs jobId,
    fun row hrow => (h.steps row hrow).imp id And.left⟩
  rw [← h.builds]
  exact hbuild

theorem getBuildOwner_congr {s t : MetadataStore} (h : t.builds = s.builds) (ref : VersionRef) :
    t.getBuildOwner ref = s.getBuildOwner ref := by
  simp only [getBuildOwner, buildRow, h]

/-- The accesses of a job at work keep its tenure. -/
theorem Tenure.own {β : Type} {op : StoreOp β} (h : Tenure svc req done w)
    (hop : OwnAccess svc req done op) {r : Except PyError β} (hout : op.Outcome w r w') :
    Tenure svc req done w' := by
  have hserved := hop.served hout
  have hactive := hserved.active req.ref
  constructor
  · rw [PositiveGenerations, hserved.builds]
    exact h.positive
  · refine ⟨(getBuildOwner_congr hserved.builds _).trans h.holds.1, ?_⟩
    rw [hserved.jobs]
    exact h.holds.2.imp id hactive
  · exact h.built.own hop hout
  · intro row hrow href
    obtain ⟨old, hold, hsame, -, hstatus⟩ := hserved.rows row hrow
    rcases hstatus with hstatus | hfailed
    · rw [hstatus]
      exact h.committable old hold (hsame.trans href)
    · exact Or.inr (Or.inl hfailed)
  · exact fun hdone => hactive (h.committed hdone)
  · intro row hrow hjob hcommit
    rcases hserved.steps row hrow with hold | ⟨-, hmarked⟩
    · exact h.marker row hold hjob hcommit
    · exact hmarked hcommit

end Tenure

section Acquire

variable {svc : Services} {req other : IngestionRequest} {args : AcquireArgs} {w w' : World}

/-- The job right after its acquire: nothing is written yet. -/
structure Claimed (svc : Services) (req : IngestionRequest) (w : World) : Prop where
  tenure : Tenure svc req false w
  bare : w.Bare req.ref

/-- The row of a version that was never active takes the columns of the submission. -/
theorem enrolledDocuments_open {document : SourceDocument} {documents : List DocumentRow}
    (hopen : ∀ row ∈ documents, row.ref = document.ref →
      row.status = .processing ∨ row.status = .failed) :
    ∀ row ∈ enrolledDocuments document documents, row.ref = document.ref →
      row.contentHash = document.contentHash ∧ row.status = document.status := by
  unfold enrolledDocuments
  cases hfound : Table.selectOne (ofVersion document.ref) documents with
  | none =>
    intro row hrow href
    rcases Table.mem_insert.mp hrow with hold | rfl
    · have hmissing := Table.selectOne_none.mp hfound row hold
      simp [ofVersion, href] at hmissing
    · exact ⟨rfl, rfl⟩
  | some first =>
    obtain ⟨hmem, hfirst⟩ := Table.selectOne_some hfound
    have hstatus := hopen first hmem (of_decide_eq_true hfirst)
    simp only [if_pos hstatus]
    intro row hrow href
    rcases Table.mem_update.mp hrow with ⟨old, -, -, rfl⟩ | ⟨-, hother⟩
    · exact ⟨rfl, rfl⟩
    · simp [ofVersion, href] at hother

/-- Binding a job row leaves the rows of other jobs alone. -/
theorem boundJobs_other {s t : MetadataStore} (ht : t.jobs = boundJobs args s) {jobId : String}
    (hother : jobId ≠ args.jobId) : t.getJobStatus jobId = s.getJobStatus jobId := by
  unfold getJobStatus jobRow
  rw [ht]
  unfold boundJobs
  cases hrow : s.jobRow args.jobId with
  | none =>
    have hforeign : (jobFor args (s.capturedVersion args.ref)).jobId ≠ jobId := hother.symm
    simp [Table.selectOne_insert, hforeign]
  | some job =>
    dsimp only
    split
    · rfl
    · rw [Table.selectOne_update]
      · cases hfound : Table.selectOne (fun row : JobRow => decide (row.jobId = jobId)) s.jobs with
        | none => rfl
        | some row =>
          have hid : row.jobId = jobId := of_decide_eq_true (Table.selectOne_some hfound).2
          have hforeign : row.jobId ≠ args.jobId := by rw [hid]; exact hother
          simp [hforeign]
      · intro row _
        split <;> rfl

/-- An acquire that returned leaves the traces of other jobs alone. -/
theorem acquire_elsewhere (hargs : AcquiresFor svc req args) {claimed : JobStatus × Nat}
    {t : MetadataStore} (h : acquireJobTransaction args w.metadata = (.ok claimed, t)) :
    Elsewhere req w { w with metadata := t } := by
  obtain ⟨document, hdocument, -⟩ := hargs.document
  have ht := acquireJobTransaction_eq hdocument h
  have hrun : (MetadataOp.acquireJobTransaction args).eval w.clock w.metadata = (.ok claimed, t) := h
  refine ⟨fun build hbuild => ?_, fun jobId hother => ?_, fun row hrow => Or.inl ?_⟩
  · obtain ⟨previousVersion, s₁, hclaim, hbuilds⟩ := acquireJobTransaction_claim h
    rw [show t.builds = s₁.builds from hbuilds] at hbuild
    rcases claimLease_cases hclaim with ⟨-, -, rfl⟩ | ⟨lease, -, -, -, rfl⟩ |
      ⟨lease, reason, -, -, herr, -⟩
    · rcases Table.mem_insert.mp hbuild with hold | rfl
      · exact Or.inr ⟨build, hold, rfl⟩
      · exact Or.inl hargs.jobId
    · rcases Table.mem_update.mp hbuild with ⟨old, -, -, rfl⟩ | ⟨hold, -⟩
      · exact Or.inl hargs.jobId
      · exact Or.inr ⟨build, hold, rfl⟩
    · simp at herr
  · rw [← hargs.jobId] at hother
    exact boundJobs_other (by rw [ht]) hother
  · have hsteps := (MetadataOp.frame hrun).steps (by simp [MetadataOp.writes])
    rw [← hsteps]
    exact hrow

/-- An acquire that returned, of a version that holds nothing and was never active. -/
theorem acquire_claimed (hargs : AcquiresFor svc req args) (hpositive : PositiveGenerations w.metadata)
    (hopen : ∀ row ∈ w.metadata.documents, row.ref = req.ref →
      row.status = .processing ∨ row.status = .failed)
    (hbare : w.Bare req.ref) (huntouched : Untouched req.jobId w) {claimed : JobStatus × Nat}
    {t : MetadataStore} (h : acquireJobTransaction args w.metadata = (.ok claimed, t)) :
    Claimed svc req { w with metadata := t } ∧ t.getLeaseGeneration req.ref = claimed.2 := by
  obtain ⟨document, hdocument, hcolumns⟩ := hargs.document
  have ht := acquireJobTransaction_eq hdocument h
  have href : document.ref = req.ref := congrArg DocumentColumns.ref hcolumns
  have hchunks : t.chunks = w.metadata.chunks := by rw [ht]
  have hsteps : t.steps = w.metadata.steps := by rw [ht]
  have hdocuments : t.documents = enrolledDocuments document w.metadata.documents := by rw [ht]
  obtain ⟨-, ⟨previous, hlease⟩, -⟩ := acquireJobTransaction_generation h
  rw [hargs.ref] at hlease
  obtain ⟨job, hjob, hrunning, -⟩ := acquireJobTransaction_job h
  rw [hargs.jobId] at hjob
  have hrows : ∀ row ∈ t.documents, row.ref = req.ref →
      row.contentHash = rawHash svc req ∧ row.status = .processing := by
    intro row hrow hrowref
    rw [hdocuments] at hrow
    rw [← href] at hopen hrowref
    obtain ⟨hhash, hstatus⟩ := enrolledDocuments_open hopen row hrow hrowref
    rw [hcolumns] at hhash hstatus
    exact ⟨hhash, hstatus⟩
  have hbare' : World.Bare { w with metadata := t } req.ref :=
    ⟨hbare.points, hbare.parents, fun row hrow => hbare.chunks row (hchunks ▸ hrow)⟩
  refine ⟨⟨⟨?_, ⟨?_, Or.inl ?_⟩, ?_, ?_, by simp, ?_⟩, hbare'⟩, ?_⟩
  · exact hpositive.acquire h
  · simp only [OwnsVersion, getBuildOwner, hlease, Option.map_some, leaseFor, hargs.jobId]
  · simp only [getJobStatus, hjob, Option.map_some, hrunning]
    rfl
  · refine ⟨fun row hrow hrowref => (hrows row hrow hrowref).1, ?_, ?_, ?_⟩
    · exact fun row hrow hrowref => absurd hrowref (hbare'.chunks row hrow)
    · exact fun name points hpoints point hpoint hrowref =>
        absurd hrowref (hbare.points name points hpoints point hpoint)
    · exact fun parent hparent hrowref => absurd hrowref (hbare.parents parent hparent)
  · exact fun row hrow hrowref => Or.inl (hrows row hrow hrowref).2
  · intro row hrow hown
    exact absurd hown (huntouched.steps row (hsteps ▸ hrow))
  · simp only [getLeaseGeneration, hlease, leaseFor]

/-- While another job holds the version, an acquire that returns overrules it. -/
theorem acquire_overrules (hargs : AcquiresFor svc req args) (href : other.ref = req.ref)
    (hjobs : other.jobId ≠ req.jobId) (hcontents : rawHash svc other ≠ rawHash svc req)
    (hholds : HoldsVersion other w) (hbuilt : BuiltFrom svc other w) {claimed : JobStatus × Nat}
    {t : MetadataStore} (h : acquireJobTransaction args w.metadata = (.ok claimed, t)) :
    (StoreOp.metadata (.acquireJobTransaction args)).Overrules w := by
  obtain ⟨howns, hbusy⟩ := hholds
  have howner : w.metadata.getBuildOwner args.ref = some other.jobId := by
    rw [hargs.ref, ← href]
    exact howns
  obtain ⟨lease, hlease, hleaseowner⟩ := Option.map_eq_some_iff.mp howner
  obtain ⟨previousVersion, s₁, hclaim, -⟩ := acquireJobTransaction_claim h
  have hidle : (w.metadata.getJobStatus other.jobId).any JobStatus.inFlight = false := by
    rcases claimLease_cases hclaim with ⟨hnone, -, -⟩ | ⟨found, hfound, hclaimable, -, -⟩ |
      ⟨found, reason, -, -, herr, -⟩
    · rw [hlease] at hnone
      simp at hnone
    · obtain rfl := Option.some.inj (hlease.symm.trans hfound)
      have hforeign : lease.ownerJobId ≠ args.jobId := by
        rw [hleaseowner, hargs.jobId]
        exact hjobs
      rw [Claimable, if_pos hforeign, hleaseowner] at hclaimable
      exact hclaimable
    · simp at herr
  refine ⟨?_, fun owner hown => ?_⟩
  · obtain ⟨row, hrow, hrowref, hactive⟩ := hbusy.resolve_left (by simp [hidle])
    refine ⟨row, hrow, ?_, hactive, ?_⟩
    · rw [hargs.ref, hrowref, href]
    · rw [hbuilt.rows row hrow hrowref, hargs.rawHash]
      exact hcontents
  · obtain rfl := Option.some.inj (howner.symm.trans hown)
    exact hidle

end Acquire

section Commit

variable {svc : Services} {req : IngestionRequest} {done : Bool} {w w' : World}

/-- A commit activates the rows of its version, or leaves them alone. -/
theorem commit_rows {now : Timestamp} {ref : VersionRef} {expected : Nat} {s t : MetadataStore}
    {r : Except PyError (Nat × Option String)}
    (h : commitActiveVersion now ref.doc ref.version expected s = (r, t)) :
    (∀ row ∈ t.documents, row.ref = ref → ∃ old ∈ s.documents, old.ref = ref ∧
        old.contentHash = row.contentHash ∧ (row.status = old.status ∨ row.status = .active)) ∧
      ((∃ row ∈ s.documents, row.ref = ref ∧ row.status = .active) →
        ∃ row ∈ t.documents, row.ref = ref ∧ row.status = .active) ∧
      ∀ switched, r = .ok switched → ∃ row ∈ t.documents, row.ref = ref ∧ row.status = .active := by
  have hsame : ∀ row ∈ s.documents, row.ref = ref → ∃ old ∈ s.documents, old.ref = ref ∧
      old.contentHash = row.contentHash ∧ (row.status = old.status ∨ row.status = .active) :=
    fun row hrow href => ⟨row, hrow, href, rfl, Or.inl rfl⟩
  rcases commitActiveVersion_cases h with ⟨hactive, -, rfl⟩ | ⟨hother, -, -, rfl, first, hfirst, href⟩ |
    ⟨e, herr, rfl⟩
  · exact ⟨hsame, id, fun _ _ => getActiveVersion_some hactive⟩
  · have hswitched : ∃ row ∈ switchDocuments now ref.doc (expected + 1) (s.getActiveVersion ref.doc)
        ref.version s.documents, row.ref = ref ∧ row.status = .active :=
      ⟨_, (mem_switchDocuments hother).mpr (Or.inl ⟨first, hfirst, href, rfl⟩), href, rfl⟩
    refine ⟨fun row hrow hrowref => ?_, fun _ => hswitched, fun _ _ => hswitched⟩
    rcases (mem_switchDocuments hother).mp hrow with ⟨old, hold, holdref, rfl⟩ |
      ⟨old, hold, ⟨version, hversion, holdref⟩, rfl⟩ | ⟨hold, -, -⟩
    · exact ⟨old, hold, holdref, rfl, Or.inr rfl⟩
    · have hsameref : old.ref = ref := hrowref
      rw [holdref] at hsameref
      have hversions : version = ref.version := congrArg VersionRef.version hsameref
      rw [hversions] at hversion
      exact absurd hversion hother
    · exact hsame row hold hrowref
  · refine ⟨hsame, id, fun switched hok => ?_⟩
    rw [herr] at hok
    simp at hok

/-- The commit of a job at work: it keeps its tenure, and has committed if it returned. -/
theorem Tenure.commit (h : Tenure svc req done w) {expected : Nat}
    {r : Except PyError (Nat × Option String)}
    (hout : (StoreOp.metadata
      (.commitActiveVersion req.ref.doc req.ref.version expected)).Outcome w r w') :
    Tenure svc req done w' ∧ Elsewhere req w w' ∧
      ∀ switched, r = .ok switched → Tenure svc req true w' := by
  obtain ⟨hstate, hresult⟩ := hout.metadata
  obtain ⟨r', t, hrun⟩ : ∃ r' t, MetadataOp.eval w.clock
      (.commitActiveVersion req.ref.doc req.ref.version expected) w.metadata = (r', t) :=
    ⟨_, _, rfl⟩
  have hframe := MetadataOp.frame hrun
  have hbuilds := hframe.builds (by simp [MetadataOp.writes])
  have hjobs := hframe.jobs (by simp [MetadataOp.writes])
  have hsteps := hframe.steps (by simp [MetadataOp.writes])
  have hchunks := hframe.chunks (by simp [MetadataOp.writes])
  obtain ⟨hrows, hactive, hreturned⟩ := commit_rows hrun
  have hstatus : ∀ jobId, t.getJobStatus jobId = w.metadata.getJobStatus jobId := by
    intro jobId
    simp only [getJobStatus, jobRow, hjobs]
  have hsame : Elsewhere req w { w with metadata := t } := by
    refine ⟨fun build hbuild => Or.inr ⟨build, hbuilds ▸ hbuild, rfl⟩, fun jobId _ => hstatus jobId,
      fun row hrow => Or.inl (hsteps ▸ hrow)⟩
  have htenure : Tenure svc req done { w with metadata := t } := by
    refine ⟨?_, ⟨?_, ?_⟩, ?_, ?_, fun hdone => hactive (h.committed hdone), ?_⟩
    · rw [PositiveGenerations, hbuilds]
      exact h.positive
    · exact (getBuildOwner_congr hbuilds _).trans h.holds.1
    · rw [hstatus]
      exact h.holds.2.imp id hactive
    · refine ⟨fun row hrow href => ?_, fun row hrow => h.built.chunks row (hchunks ▸ hrow),
        h.built.points, h.built.parents⟩
      obtain ⟨old, hold, hsameref, hhash, -⟩ := hrows row hrow href
      exact hhash.symm.trans (h.built.rows old hold hsameref)
    · intro row hrow href
      obtain ⟨old, hold, hsameref, -, hkept | hswitched⟩ := hrows row hrow href
      · rw [hkept]
        exact h.committable old hold hsameref
      · exact Or.inr (Or.inr hswitched)
    · exact fun row hrow => h.marker row (hsteps ▸ hrow)
  rw [hrun] at hstate
  rcases hstate with rfl | rfl
  · refine ⟨h, ?_, fun switched hok => ?_⟩
    · exact ⟨fun build hbuild => Or.inr ⟨build, hbuild, rfl⟩, fun _ _ => rfl, fun _ hrow => Or.inl hrow⟩
    · have hreturn := (hresult switched hok).symm.trans hrun
      obtain ⟨rfl, hsame⟩ := Prod.mk.inj hreturn
      have hcommitted := hreturned switched rfl
      rw [← hsame] at hcommitted
      exact ⟨h.positive, h.holds, h.built, h.committable, fun _ => hcommitted, fun _ _ _ _ => rfl⟩
  · refine ⟨htenure, hsame, fun switched hok => ?_⟩
    have hreturn := (hresult switched hok).symm.trans hrun
    obtain ⟨rfl, -⟩ := Prod.mk.inj hreturn
    exact ⟨htenure.positive, htenure.holds, htenure.built, htenure.committable,
      fun _ => hreturned switched rfl, fun _ _ _ _ => rfl⟩

end Commit

section Terminal

variable {svc : Services} {req : IngestionRequest} {done : Bool} {w w' : World} {status : JobStatus}
  {parentCount childCount : Nat} {errorCode : Option String}

/-- What the final status of a job writes: its own row and the state of its leases. -/
structure Terminated (jobId : String) (w w' : World) : Prop where
  clock : w'.clock = w.clock
  documents : w'.metadata.documents = w.metadata.documents
  chunks : w'.metadata.chunks = w.metadata.chunks
  steps : w'.metadata.steps = w.metadata.steps
  vectors : w'.vectors = w.vectors
  parents : w'.parents = w.parents
  positive : PositiveGenerations w.metadata → PositiveGenerations w'.metadata
  owners : ∀ ref, w'.metadata.getBuildOwner ref = w.metadata.getBuildOwner ref
  generations : ∀ ref, w'.metadata.getLeaseGeneration ref = w.metadata.getLeaseGeneration ref
  builds : ∀ build ∈ w'.metadata.builds, ∃ old ∈ w.metadata.builds,
    old.ownerJobId = build.ownerJobId
  jobs : ∀ other, other ≠ jobId → w'.metadata.getJobStatus other = w.metadata.getJobStatus other

theorem Terminated.refl (jobId : String) (w : World) : Terminated jobId w w :=
  ⟨rfl, rfl, rfl, rfl, rfl, rfl, id, fun _ => rfl, fun _ => rfl, fun build h => ⟨build, h, rfl⟩,
    fun _ _ => rfl⟩

theorem terminated {jobId : String} {r : Except PyError Unit}
    (hout : (StoreOp.metadata
      (.markJobTerminal jobId status parentCount childCount errorCode)).Outcome w r w') :
    Terminated jobId w w' := by
  rcases hout.state with rfl | rfl
  · exact .refl jobId _
  · have hstatus : terminalLease status = none ∨ ∃ lease, terminalLease status = some lease :=
      Option.eq_none_or_eq_some _
    have hpositive := fun h : PositiveGenerations w.metadata =>
      PositiveGenerations.markJobTerminal jobId status parentCount childCount errorCode h
    have htoken := @markJobTerminal_token w.metadata jobId status parentCount childCount errorCode
    refine ⟨rfl, ?_, ?_, ?_, rfl, rfl, hpositive, fun ref => (htoken ref).2,
      fun ref => (htoken ref).1, fun build hbuild => ?_, fun other hother => ?_⟩
    · simp only [StoreOp.eval, MetadataOp.eval, markJobTerminal_eq]
    · simp only [StoreOp.eval, MetadataOp.eval, markJobTerminal_eq]
    · simp only [StoreOp.eval, MetadataOp.eval, markJobTerminal_eq]
    · simp only [StoreOp.eval, MetadataOp.eval, markJobTerminal_eq] at hbuild
      rcases hstatus with hnone | ⟨lease, hlease⟩
      · rw [hnone] at hbuild
        exact ⟨build, hbuild, rfl⟩
      · rw [hlease] at hbuild
        rcases Table.mem_update.mp hbuild with ⟨old, hold, -, rfl⟩ | ⟨hold, -⟩
        · exact ⟨old, hold, rfl⟩
        · exact ⟨build, hold, rfl⟩
    · simp only [StoreOp.eval, MetadataOp.eval, markJobTerminal_eq, getJobStatus, jobRow]
      rw [Table.selectOne_update]
      · cases hfound : Table.selectOne (fun row : JobRow => decide (row.jobId = other))
            w.metadata.jobs with
        | none => rfl
        | some row =>
          have hid : row.jobId = other := of_decide_eq_true (Table.selectOne_some hfound).2
          have hforeign : row.jobId ≠ jobId := by rw [hid]; exact hother
          simp [hforeign]
      · intro row _
        split <;> rfl

/-- A job that has left no trace ends without one. -/
theorem terminated_untouched {jobId : String} (hw : Untouched jobId w) {r : Except PyError Unit}
    (hout : (StoreOp.metadata
      (.markJobTerminal jobId status parentCount childCount errorCode)).Outcome w r w') : w' = w := by
  have hstay : ∀ {ρ : Type} (p : ρ → Bool) (f : ρ → ρ) (rows : List ρ),
      (∀ row ∈ rows, p row = false) → Table.update p f rows = rows := by
    intro ρ p f rows hnone
    unfold Table.update
    rw [List.map_congr_left (g := id) fun row hrow => by simp [hnone row hrow], List.map_id]
  have hnojob : w.metadata.jobRow jobId = none := by
    have hstatus := hw.jobs
    unfold getJobStatus at hstatus
    exact Option.map_eq_none_iff.mp hstatus
  rcases hout.state with rfl | rfl
  · rfl
  · simp only [StoreOp.eval, MetadataOp.eval, markJobTerminal_eq]
    rw [hstay _ _ w.metadata.jobs fun row hrow => by simpa using jobRow_none.mp hnojob row hrow]
    cases terminalLease status with
    | none => rfl
    | some lease =>
      dsimp only
      rw [hstay _ _ w.metadata.builds fun build hbuild => by simpa using hw.builds build hbuild]

theorem Terminated.elsewhere (h : Terminated req.jobId w w') : Elsewhere req w w' := by
  refine ⟨fun build hbuild => Or.inr (h.builds build hbuild), h.jobs, fun row hrow => Or.inl ?_⟩
  rw [← h.steps]
  exact hrow

theorem Terminated.active (h : Terminated req.jobId w w') {ref : VersionRef} :
    w'.Active ref ↔ w.Active ref := by
  simp only [World.Active, h.documents]

theorem Terminated.built {jobId : String} (h : Terminated jobId w w') (hw : BuiltFrom svc req w) :
    BuiltFrom svc req w' := by
  constructor
  · rw [h.documents]
    exact hw.rows
  · rw [h.chunks]
    exact hw.chunks
  · rw [h.vectors]
    exact hw.points
  · rw [h.parents]
    exact hw.parents

/-- A job that ends with its version active, or with nothing stored for it, leaves the
version in its own possession. -/
theorem Tenure.terminate (hw : Tenure svc req done w) (h : Terminated req.jobId w w')
    (hsettled : w.Active req.ref ∨ w.Bare req.ref) : Possessed svc req w' := by
  have howns : OwnsVersion req w' := (h.owners req.ref).trans hw.holds.1
  refine ⟨howns, h.built hw.built, ?_, ?_⟩
  · rw [Committable, h.documents]
    exact hw.committable
  · refine hsettled.imp (fun hactive => ⟨howns, Or.inr (h.active.mpr hactive)⟩) fun hbare => ?_
    refine ⟨?_, ?_, ?_⟩
    · rw [h.vectors]
      exact hbare.points
    · rw [h.parents]
      exact hbare.parents
    · rw [h.chunks]
      exact hbare.chunks

/-- A job that has committed is still at work after its final status. -/
theorem Tenure.terminate_committed (hw : Tenure svc req true w) (h : Terminated req.jobId w w') :
    Tenure svc req true w' := by
  have hactive := hw.committed rfl
  have hpossessed := hw.terminate h (Or.inl hactive)
  exact ⟨h.positive hw.positive, ⟨hpossessed.owns, Or.inr (h.active.mpr hactive)⟩, hpossessed.built,
    hpossessed.committable, fun _ => h.active.mpr hactive, fun _ _ _ _ => rfl⟩

end Terminal

section Clock

variable {svc : Services} {req : IngestionRequest} {done : Bool} {w : World}

theorem Tenure.clock (h : Tenure svc req done w) (clock : Timestamp) :
    Tenure svc req done { w with clock } :=
  ⟨h.positive, h.holds, ⟨h.built.rows, h.built.chunks, h.built.points, h.built.parents⟩,
    h.committable, h.committed, h.marker⟩

theorem Possessed.clock (h : Possessed svc req w) (clock : Timestamp) :
    Possessed svc req { w with clock } :=
  ⟨h.owns, ⟨h.built.rows, h.built.chunks, h.built.points, h.built.parents⟩, h.committable,
    h.idle.imp id fun hbare => ⟨hbare.points, hbare.parents, hbare.chunks⟩⟩

theorem Vacant.clock {ref : VersionRef} (h : Vacant ref w) (clock : Timestamp) :
    Vacant ref { w with clock } :=
  ⟨h.lease, h.rows, ⟨h.bare.points, h.bare.parents, h.bare.chunks⟩⟩

theorem Claimed.clock (h : Claimed svc req w) (clock : Timestamp) :
    Claimed svc req { w with clock } :=
  ⟨h.tenure.clock clock, ⟨h.bare.points, h.bare.parents, h.bare.chunks⟩⟩

end Clock

section Stored

/-- The version is stored with the content of the request. -/
structure Stored (svc : Services) (req : IngestionRequest) (w : World) : Prop where
  built : BuiltFrom svc req w
  row : ∃ row ∈ w.metadata.documents, row.ref = req.ref

variable {svc : Services} {req : IngestionRequest} {w w' : World}

theorem Stored.clock (h : Stored svc req w) (clock : Timestamp) : Stored svc req { w with clock } :=
  ⟨⟨h.built.rows, h.built.chunks, h.built.points, h.built.parents⟩, h.row⟩

/-- Writes to the control plane that keep the chunk rows, the version's row and its
content hash. -/
theorem Stored.metadata {s : MetadataStore} (hw : Stored svc req w)
    (hchunks : s.chunks = w.metadata.chunks)
    (hhash : ∀ row ∈ s.documents, row.ref = req.ref → row.contentHash = rawHash svc req)
    (hrow : ∃ row ∈ s.documents, row.ref = req.ref) : Stored svc req { w with metadata := s } :=
  ⟨⟨hhash, fun row hmem => hw.built.chunks row (hchunks ▸ hmem), hw.built.points, hw.built.parents⟩,
    hrow⟩

theorem Stored.own {β : Type} {op : StoreOp β} (hw : Stored svc req w)
    (hop : OwnAccess svc req true op) {r : Except PyError β} (hout : op.Outcome w r w') :
    Stored svc req w' := by
  obtain ⟨row, hrow, href⟩ := hw.row
  obtain ⟨row', hrow', hsame⟩ := (hop.served hout).kept row hrow
  exact ⟨hw.built.own hop hout, row', hrow', hsame.trans href⟩

/-- Enrolling a version keeps the rows there are. -/
theorem enrolledDocuments_keeps (document : SourceDocument) (documents : List DocumentRow) :
    ∀ row ∈ documents, ∃ row' ∈ enrolledDocuments document documents, row'.ref = row.ref := by
  intro row hrow
  unfold enrolledDocuments
  cases Table.selectOne (ofVersion document.ref) documents with
  | none => exact ⟨row, Table.mem_insert.mpr (Or.inl hrow), rfl⟩
  | some first =>
    dsimp only
    split
    · exact update_keeps_keys (fun row : DocumentRow => row.ref)
        (fun old hold => (of_decide_eq_true hold).symm) documents row hrow
    · exact ⟨row, hrow, rfl⟩

theorem Stored.acquire {args : AcquireArgs} (hw : Stored svc req w)
    (hargs : AcquiresFor svc req args) {r : Except PyError (JobStatus × Nat)}
    (hout : (StoreOp.metadata (.acquireJobTransaction args)).Outcome w r w') : Stored svc req w' := by
  obtain ⟨result, t, hrun⟩ : ∃ result t, acquireJobTransaction args w.metadata = (result, t) :=
    ⟨_, _, rfl⟩
  have heval : MetadataOp.eval w.clock (.acquireJobTransaction args) w.metadata = (result, t) := hrun
  have hstate := hout.metadata.1
  rw [heval] at hstate
  rcases hstate with rfl | rfl
  · exact hw
  · cases result with
    | error e =>
      obtain rfl := Routine.transaction_error hrun
      exact hw
    | ok claimed =>
      obtain ⟨document, hdocument, hcolumns⟩ := hargs.document
      have ht := acquireJobTransaction_eq hdocument hrun
      have hsubmitted : ∀ other ∈ args.document, other.contentHash = rawHash svc req := by
        intro other hother
        obtain rfl := Option.some.inj (hdocument.symm.trans hother)
        exact congrArg DocumentColumns.contentHash hcolumns
      apply hw.metadata
      · rw [ht]
      · rw [← hargs.ref]
        apply acquireJobTransaction_content hsubmitted ?_ hrun
        rw [hargs.ref]
        exact hw.built.rows
      · obtain ⟨row, hrow, href⟩ := hw.row
        obtain ⟨row', hrow', hsame⟩ := enrolledDocuments_keeps document w.metadata.documents row hrow
        exact ⟨row', by rw [ht]; exact hrow', hsame.trans href⟩

theorem Stored.commit {expected : Nat} (hw : Stored svc req w)
    {r : Except PyError (Nat × Option String)}
    (hout : (StoreOp.metadata
      (.commitActiveVersion req.ref.doc req.ref.version expected)).Outcome w r w') :
    Stored svc req w' := by
  obtain ⟨result, t, hrun⟩ : ∃ result t, MetadataOp.eval w.clock
      (.commitActiveVersion req.ref.doc req.ref.version expected) w.metadata = (result, t) :=
    ⟨_, _, rfl⟩
  have hstate := hout.metadata.1
  rw [hrun] at hstate
  rcases hstate with rfl | rfl
  · exact hw
  · obtain ⟨hrows, -, -⟩ := commit_rows hrun
    apply hw.metadata
    · exact (MetadataOp.frame hrun).chunks (by simp [MetadataOp.writes])
    · intro row hrow href
      obtain ⟨old, hold, hsame, hhash, -⟩ := hrows row hrow href
      exact hhash.symm.trans (hw.built.rows old hold hsame)
    · rcases commitActiveVersion_cases hrun with ⟨-, -, rfl⟩ | ⟨hother, -, -, rfl, row, hrow, href⟩ |
        ⟨e, -, rfl⟩
      · exact hw.row
      · exact ⟨_, (mem_switchDocuments hother).mpr (Or.inl ⟨row, hrow, href, rfl⟩), href⟩
      · exact hw.row

theorem Stored.terminate (hw : Stored svc req w) (h : Terminated req.jobId w w') :
    Stored svc req w' := by
  refine ⟨h.built hw.built, ?_⟩
  rw [h.documents]
  exact hw.row

end Stored

end AgenticRag
