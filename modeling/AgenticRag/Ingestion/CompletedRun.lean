import AgenticRag.Ingestion.StepEffects
import AgenticRag.Storage.Frames
import AgenticRag.Storage.Lifecycle

/-!
# Runs that return a result

A run of a job that is not stopped early and returns `indexed` has acquired the build
and gone through the eight steps in order, performing those without a marker. Each
table and store is written by few of the steps, so what the run leaves in it follows
from them.
-/

namespace AgenticRag.IngestionJob

open MetadataStore StoreProgram Method

variable {svc : Services} {req : IngestionRequest} {t t' : JobState} {w w' : World} {u : Unit}

/-- The arguments `_step_acquire` passes to `acquire_job`. -/
def acquireArgs (svc : Services) (req : IngestionRequest) (options : RunOptions)
    (document : SourceDocument) (w : World) : AcquireArgs where
  jobId := req.jobId
  ref := req.ref
  rawHash := rawHash svc req
  baseRevision := w.metadata.getCurrentRevision req.ref.doc
  document := some document
  attemptId := options.attemptId
  recover := options.recover

theorem stepAcquire_finishes {options : RunOptions}
    (h : Finishes (stepAcquire svc req options) t w u t' w') :
    ∃ document claimed m m', buildSourceDocument svc req = .ok document ∧
      acquireJobTransaction (acquireArgs svc req options document w) w.metadata =
        (.ok claimed, m) ∧
      markStep req.jobId .acquire "done" m = (.ok (), m') ∧
      w' = { w with metadata := m' } ∧ t' = { t with leaseGeneration := claimed.2 } := by
  simp only [stepAcquire, completes_bind, finishes_read] at h
  obtain ⟨revision, t₁, w₁, ⟨rfl, rfl, rfl⟩, h⟩ := h
  cases hdocument : buildSourceDocument svc req with
  | error e => simp [hdocument] at h
  | ok document =>
    simp only [hdocument, completes_bind, finishes_metadata, completes_assign] at h
    obtain ⟨claimed, t₂, w₂, ⟨rfl, m, hm, rfl⟩, _, t₃, w₃, ⟨rfl, m', hm', rfl⟩, rfl, rfl⟩ := h
    exact ⟨document, claimed, m, m', rfl, hm, hm', rfl, rfl⟩

/-- The marker of a step of this job. -/
def Marked (req : IngestionRequest) (w : World) (name : Step) : Prop :=
  w.metadata.isStepDone req.jobId name = true

instance (w : World) (name : Step) : Decidable (Marked req w name) :=
  inferInstanceAs (Decidable (_ = _))

/-- The stores with one more marker of the job. -/
structure AddsMarker (req : IngestionRequest) (name : Step) (w w' : World) : Prop where
  stores : ∃ steps, w' = { w with metadata := { w.metadata with steps } }
  marked : ∀ other, Marked req w' other ↔ Marked req w other ∨ other = name

theorem markStep_adds {name : Step} {m : MetadataStore}
    (h : markStep req.jobId name "done" w.metadata = (.ok (), m)) :
    AddsMarker req name w { w with metadata := m } := by
  obtain ⟨hm, hdone⟩ := markStep_done h
  refine ⟨⟨m.steps, by rw [← hm]⟩, fun other => ?_⟩
  simp only [Marked, hdone, Bool.or_eq_true, decide_eq_true_eq, true_and]

/-- A step that has its marker is skipped; another one is performed and marked. -/
theorem runStep_finishes {name : Step} (h : Finishes (runStep svc req name) t w u t' w') :
    (Marked req w name ∧ t' = t ∧ w' = w) ∨
      (¬Marked req w name ∧ ∃ w₁, Finishes (step svc req name) t w () t' w₁ ∧
        AddsMarker req name w₁ w') := by
  simp only [runStep, completes_bind, finishes_read] at h
  obtain ⟨done, t₁, w₁, ⟨rfl, rfl, rfl⟩, h⟩ := h
  rcases completes_ite.mp h with ⟨hdone, h⟩ | ⟨hdone, h⟩
  · obtain ⟨-, rfl, rfl⟩ := completes_pure.mp h
    exact Or.inl ⟨hdone, rfl, rfl⟩
  · simp only [completes_bind, finishes_metadata] at h
    obtain ⟨_, t₂, w₂, hstep, rfl, m, hm, rfl⟩ := h
    exact Or.inr ⟨hdone, w₂, hstep, markStep_adds hm⟩

section Frames

/-- What a step leaves alone: everything but the tables and stores its name says. -/
structure Leaves (name : Step) (w w' : World) : Prop where
  documents : name ≠ .commit → w'.metadata.documents = w.metadata.documents
  builds : name ≠ .finalize → w'.metadata.builds = w.metadata.builds
  jobs : name ≠ .finalize → w'.metadata.jobs = w.metadata.jobs
  steps : w'.metadata.steps = w.metadata.steps
  chunks : name ≠ .writeQdrant → w'.metadata.chunks = w.metadata.chunks
  corpora : w'.metadata.corpora = w.metadata.corpora
  vectors : name ≠ .writeQdrant → name ≠ .publish → w'.vectors = w.vectors
  parents : name ≠ .writeParents → name ≠ .publish → w'.parents = w.parents
  rest : w'.clock = w.clock ∧ w'.pointers = w.pointers ∧ w'.findings = w.findings

theorem Leaves.refl (name : Step) (w : World) : Leaves name w w :=
  ⟨fun _ => rfl, fun _ => rfl, fun _ => rfl, rfl, fun _ => rfl, rfl, fun _ _ => rfl, fun _ _ => rfl,
    rfl, rfl, rfl⟩

/-- A filled list stays the chunker's, and a step other than `parse` keeps it that way. -/
theorem step_finishes {name : Step} (hcoherent : Coherent svc req t)
    (hparse : name = .parse → t.childrenList = [])
    (h : Finishes (step svc req name) t w u t' w') : Coherent svc req t' ∧ Leaves name w w' := by
  cases name with
  | acquire =>
    obtain ⟨-, rfl, rfl⟩ := completes_pure.mp h
    exact ⟨hcoherent, .refl _ _⟩
  | parse =>
    obtain ⟨rfl, rfl⟩ := completes_assign.mp h
    exact ⟨fun hfilled => absurd (hparse rfl) hfilled, .refl _ _⟩
  | chunk =>
    obtain ⟨rfl, hchunked, -⟩ := ensureChunked_finishes hcoherent h
    exact ⟨hchunked.coherent, .refl _ _⟩
  | writeParents =>
    obtain ⟨hchunked, -, rfl⟩ := stepWriteParents_finishes hcoherent h
    exact ⟨hchunked.coherent, fun _ => rfl, fun _ => rfl, fun _ => rfl, rfl, fun _ => rfl, rfl,
      fun _ _ => rfl, fun hne => absurd rfl hne, rfl, rfl, rfl⟩
  | writeQdrant =>
    obtain ⟨hchunked, -, v, -, rfl⟩ := stepWriteQdrant_finishes hcoherent h
    exact ⟨hchunked.coherent, fun _ => rfl, fun _ => rfl, fun _ => rfl, rfl,
      fun hne => absurd rfl hne, rfl, fun hne => absurd rfl hne, fun _ _ => rfl, rfl, rfl, rfl⟩
  | verify =>
    obtain ⟨hchunked, -, rfl, -⟩ := stepVerify_finishes hcoherent h
    exact ⟨hchunked.coherent, .refl _ _⟩
  | commit =>
    obtain ⟨rfl, switched, m, hm, rfl⟩ := stepCommit_finishes h
    have hframe := @MetadataOp.frame _ (.commitActiveVersion req.ref.doc req.ref.version
      (w.metadata.getJobBaseRevision req.jobId)) w.clock _ _ _ hm
    refine ⟨fun hfilled => ?_, fun hne => absurd rfl hne, fun _ => hframe.builds (by simp [MetadataOp.writes]),
      fun _ => hframe.jobs (by simp [MetadataOp.writes]), hframe.steps (by simp [MetadataOp.writes]),
      fun _ => hframe.chunks (by simp [MetadataOp.writes]), hframe.corpora, fun _ _ => rfl,
      fun _ _ => rfl, rfl, rfl, rfl⟩
    exact ⟨(hcoherent hfilled).chunks, (hcoherent hfilled).parsedHash⟩
  | publish =>
    obtain ⟨hchunked, v, v', -, -, rfl⟩ := stepPublish_finishes hcoherent h
    exact ⟨hchunked.coherent, fun _ => rfl, fun _ => rfl, fun _ => rfl, rfl, fun _ => rfl, rfl,
      fun _ hne => absurd rfl hne, fun _ hne => absurd rfl hne, rfl, rfl, rfl⟩
  | finalize =>
    obtain ⟨rfl, rfl⟩ := stepFinalize_finishes h
    exact ⟨hcoherent, fun _ => rfl, fun hne => absurd rfl hne, fun hne => absurd rfl hne, rfl,
      fun _ => rfl, rfl, fun _ _ => rfl, fun _ _ => rfl, rfl, rfl, rfl⟩

end Frames

/-- An iteration of the step loop from one state of job and stores to the next. -/
def Performs (svc : Services) (req : IngestionRequest) (name : Step) (before after : JobState × World) :
    Prop :=
  Finishes (runStep svc req name) before.1 before.2 () after.1 after.2

section Iteration

variable {name : Step} {before after : JobState × World}

/-- The step ran, and the marker was added after it. -/
theorem Performs.cases (h : Performs svc req name before after) :
    (Marked req before.2 name ∧ after = before) ∨
      (¬Marked req before.2 name ∧ ∃ w₁, Finishes (step svc req name) before.1 before.2 () after.1 w₁ ∧
        AddsMarker req name w₁ after.2) := by
  rcases runStep_finishes h with ⟨hmarked, ht, hw⟩ | h
  · exact Or.inl ⟨hmarked, Prod.ext ht hw⟩
  · exact Or.inr h

/-- The tables a step does not write are left alone by its iteration. -/
structure Passes (req : IngestionRequest) (name : Step) (w w' : World) : Prop where
  documents : name ≠ .commit → w'.metadata.documents = w.metadata.documents
  builds : name ≠ .finalize → w'.metadata.builds = w.metadata.builds
  jobs : name ≠ .finalize → w'.metadata.jobs = w.metadata.jobs
  marked : ∀ other, Marked req w' other ↔ Marked req w other ∨ other = name
  chunks : name ≠ .writeQdrant → w'.metadata.chunks = w.metadata.chunks
  corpora : w'.metadata.corpora = w.metadata.corpora
  vectors : name ≠ .writeQdrant → name ≠ .publish → w'.vectors = w.vectors
  parents : name ≠ .writeParents → name ≠ .publish → w'.parents = w.parents
  rest : w'.clock = w.clock ∧ w'.pointers = w.pointers ∧ w'.findings = w.findings

theorem Performs.passes (hcoherent : Coherent svc req before.1)
    (hparse : name = .parse → before.1.childrenList = [])
    (h : Performs svc req name before after) :
    Coherent svc req after.1 ∧ Passes req name before.2 after.2 := by
  rcases h.cases with ⟨hmarked, rfl⟩ | ⟨-, w₁, hstep, ⟨steps, hstores⟩, hadds⟩
  · refine ⟨hcoherent, fun _ => rfl, fun _ => rfl, fun _ => rfl, fun other => ?_, fun _ => rfl, rfl,
      fun _ _ => rfl, fun _ _ => rfl, rfl, rfl, rfl⟩
    constructor
    · exact Or.inl
    · rintro (hother | rfl)
      · exact hother
      · exact hmarked
  · obtain ⟨hcoherent', hleaves⟩ := step_finishes hcoherent hparse hstep
    have hmarked : ∀ other, Marked req w₁ other ↔ Marked req before.2 other := by
      intro other
      simp only [Marked, isStepDone, hleaves.steps]
    refine ⟨hcoherent', ?_⟩
    rw [hstores] at hadds ⊢
    exact ⟨hleaves.documents, hleaves.builds, hleaves.jobs,
      fun other => (hadds other).trans (or_congr_left (hmarked other)), hleaves.chunks,
      hleaves.corpora, hleaves.vectors, hleaves.parents, hleaves.rest⟩

end Iteration

/-- A pass through the step loop, with the states between its iterations. -/
structure BuildRun (svc : Services) (req : IngestionRequest) (start finish : JobState × World) where
  parsed : JobState × World
  chunked : JobState × World
  written : JobState × World
  uploaded : JobState × World
  verified : JobState × World
  committed : JobState × World
  published : JobState × World
  parse : Performs svc req .parse start parsed
  chunk : Performs svc req .chunk parsed chunked
  writeParents : Performs svc req .writeParents chunked written
  writeQdrant : Performs svc req .writeQdrant written uploaded
  verify : Performs svc req .verify uploaded verified
  commit : Performs svc req .commit verified committed
  publish : Performs svc req .publish committed published
  finalize : Performs svc req .finalize published finish
  fresh : start.1.childrenList = []

theorem buildSteps_finishes (hfresh : t.childrenList = [])
    (h : Finishes (forEach buildSteps (runStep svc req)) t w u t' w') :
    Nonempty (BuildRun svc req (t, w) (t', w')) := by
  simp only [buildSteps, completes_forEach_cons, completes_forEach_nil] at h
  obtain ⟨t₁, w₁, h₁, t₂, w₂, h₂, t₃, w₃, h₃, t₄, w₄, h₄, t₅, w₅, h₅, t₆, w₆, h₆, t₇, w₇, h₇,
    t₈, w₈, h₈, rfl, rfl⟩ := h
  exact ⟨⟨(t₁, w₁), (t₂, w₂), (t₃, w₃), (t₄, w₄), (t₅, w₅), (t₆, w₆), (t₇, w₇), h₁, h₂, h₃, h₄, h₅,
    h₆, h₇, h₈, hfresh⟩⟩

namespace BuildRun

variable {start finish : JobState × World} (run : BuildRun svc req start finish)

include run

theorem parsed_passes : Coherent svc req run.parsed.1 ∧ Passes req .parse start.2 run.parsed.2 :=
  run.parse.passes (fun hfilled => absurd run.fresh hfilled) fun _ => run.fresh

theorem chunked_passes :
    Coherent svc req run.chunked.1 ∧ Passes req .chunk run.parsed.2 run.chunked.2 :=
  run.chunk.passes run.parsed_passes.1 (by simp)

theorem written_passes :
    Coherent svc req run.written.1 ∧ Passes req .writeParents run.chunked.2 run.written.2 :=
  run.writeParents.passes run.chunked_passes.1 (by simp)

theorem uploaded_passes :
    Coherent svc req run.uploaded.1 ∧ Passes req .writeQdrant run.written.2 run.uploaded.2 :=
  run.writeQdrant.passes run.written_passes.1 (by simp)

theorem verified_passes :
    Coherent svc req run.verified.1 ∧ Passes req .verify run.uploaded.2 run.verified.2 :=
  run.verify.passes run.uploaded_passes.1 (by simp)

theorem committed_passes :
    Coherent svc req run.committed.1 ∧ Passes req .commit run.verified.2 run.committed.2 :=
  run.commit.passes run.verified_passes.1 (by simp)

theorem published_passes :
    Coherent svc req run.published.1 ∧ Passes req .publish run.committed.2 run.published.2 :=
  run.publish.passes run.committed_passes.1 (by simp)

theorem finished_passes :
    Coherent svc req finish.1 ∧ Passes req .finalize run.published.2 finish.2 :=
  run.finalize.passes run.published_passes.1 (by simp)

/-- The stores when a step is due, and the markers it and the later steps had all along. -/
theorem due :
    (∀ name, name ≠ .parse → name ≠ .chunk →
      (Marked req run.chunked.2 name ↔ Marked req start.2 name)) ∧
    (Marked req run.written.2 .writeQdrant ↔ Marked req start.2 .writeQdrant) ∧
    (Marked req run.uploaded.2 .verify ↔ Marked req start.2 .verify) ∧
    (Marked req run.verified.2 .commit ↔ Marked req start.2 .commit) ∧
    (Marked req run.committed.2 .publish ↔ Marked req start.2 .publish) ∧
    (Marked req run.published.2 .finalize ↔ Marked req start.2 .finalize) := by
  refine ⟨fun name hparse hchunk => ?_, ?_, ?_, ?_, ?_, ?_⟩ <;>
    simp_all [run.parsed_passes.2.marked, run.chunked_passes.2.marked, run.written_passes.2.marked,
      run.uploaded_passes.2.marked, run.verified_passes.2.marked, run.committed_passes.2.marked,
      run.published_passes.2.marked]

/-- Nothing but the commit writes the version rows. -/
theorem documents_before : run.verified.2.metadata.documents = start.2.metadata.documents := by
  rw [run.verified_passes.2.documents (by simp), run.uploaded_passes.2.documents (by simp),
    run.written_passes.2.documents (by simp), run.chunked_passes.2.documents (by simp),
    run.parsed_passes.2.documents (by simp)]

theorem documents_after : finish.2.metadata.documents = run.committed.2.metadata.documents := by
  rw [run.finished_passes.2.documents (by simp), run.published_passes.2.documents (by simp)]

/-- Nothing but the finalization writes the job rows. -/
theorem jobs_before : run.published.2.metadata.jobs = start.2.metadata.jobs := by
  rw [run.published_passes.2.jobs (by simp), run.committed_passes.2.jobs (by simp),
    run.verified_passes.2.jobs (by simp), run.uploaded_passes.2.jobs (by simp),
    run.written_passes.2.jobs (by simp), run.chunked_passes.2.jobs (by simp),
    run.parsed_passes.2.jobs (by simp)]

theorem parents_before : run.chunked.2.parents = start.2.parents := by
  rw [run.chunked_passes.2.parents (by simp) (by simp),
    run.parsed_passes.2.parents (by simp) (by simp)]

theorem parents_between : run.committed.2.parents = run.written.2.parents := by
  rw [run.committed_passes.2.parents (by simp) (by simp),
    run.verified_passes.2.parents (by simp) (by simp),
    run.uploaded_passes.2.parents (by simp) (by simp)]

theorem parents_after : finish.2.parents = run.published.2.parents :=
  run.finished_passes.2.parents (by simp) (by simp)

theorem vectors_before : run.written.2.vectors = start.2.vectors := by
  rw [run.written_passes.2.vectors (by simp) (by simp),
    run.chunked_passes.2.vectors (by simp) (by simp),
    run.parsed_passes.2.vectors (by simp) (by simp)]

theorem vectors_between : run.committed.2.vectors = run.uploaded.2.vectors := by
  rw [run.committed_passes.2.vectors (by simp) (by simp),
    run.verified_passes.2.vectors (by simp) (by simp)]

theorem vectors_after : finish.2.vectors = run.published.2.vectors :=
  run.finished_passes.2.vectors (by simp) (by simp)

theorem chunks_before : run.written.2.metadata.chunks = start.2.metadata.chunks := by
  rw [run.written_passes.2.chunks (by simp), run.chunked_passes.2.chunks (by simp),
    run.parsed_passes.2.chunks (by simp)]

theorem chunks_after : run.committed.2.metadata.chunks = run.uploaded.2.metadata.chunks := by
  rw [run.committed_passes.2.chunks (by simp), run.verified_passes.2.chunks (by simp)]

end BuildRun

section Run

variable {options : RunOptions} {result : IngestionResult}

/-- The job that owns the build of the version has succeeded. -/
def OwnerSucceeded (s : MetadataStore) (ref : VersionRef) : Prop :=
  ∃ owner, s.getBuildOwner ref = some owner ∧ owner ≠ "" ∧
    s.getJobStatus owner = some .succeeded

/-- A delivery that is answered without building: the version is published, or was
superseded. -/
def AlreadyBuilt (s : MetadataStore) (row : DocumentRow) : Prop :=
  (row.status = .active ∧ OwnerSucceeded s row.ref) ∨ row.status = .deprecated

/-- What a delivery that was not refused found: the version has the submitted content,
and is built again unless it already was. -/
structure Admits (svc : Services) (req : IngestionRequest) (w : World) (built : Prop) : Prop where
  identity : identityMismatch svc req (w.metadata.getJobIdentity req.jobId) = false
  content : ∀ row, w.metadata.documentRow req.ref = some row → row.contentHash = rawHash svc req
  built : built ↔ ∃ row, w.metadata.documentRow req.ref = some row ∧ AlreadyBuilt w.metadata row

theorem resumeActive_finishes (h : Finishes (resumeActive svc req options) t w result t' w') :
    (OwnerSucceeded w.metadata req.ref ∧
        Finishes (shortCircuitAlreadyIndexed svc req) t w result t' w') ∨
      (¬OwnerSucceeded w.metadata req.ref ∧
        Finishes (guardedBuild svc req options) t w result t' w') := by
  simp only [resumeActive, completes_bind, finishes_read] at h
  obtain ⟨owner, t₁, w₁, ⟨rfl, rfl, rfl⟩, h⟩ := h
  cases howner : w₁.metadata.getBuildOwner req.ref with
  | none =>
    simp only [howner] at h
    refine Or.inr ⟨?_, h⟩
    rintro ⟨owner, hsome, -⟩
    simp [howner] at hsome
  | some owner =>
    simp only [howner, completes_ite, completes_bind, finishes_read] at h
    rcases h with ⟨hempty, h⟩ | ⟨hnamed, status, t₂, w₂, ⟨rfl, rfl, rfl⟩, h⟩
    · refine Or.inr ⟨?_, h⟩
      rintro ⟨other, hsome, hnamed, -⟩
      obtain rfl := Option.some.inj (howner.symm.trans hsome)
      exact hnamed hempty
    · rcases h with ⟨hsucceeded, h⟩ | ⟨hother, h⟩
      · exact Or.inl ⟨⟨owner, howner, hnamed, hsucceeded⟩, h⟩
      · refine Or.inr ⟨?_, h⟩
        rintro ⟨other, hsome, -, hsucceeded⟩
        obtain rfl := Option.some.inj (howner.symm.trans hsome)
        exact hother hsucceeded

theorem getDocument_none {s : MetadataStore} {ref : VersionRef} (h : s.getDocument ref = .ok none) :
    s.documentRow ref = none := by
  unfold getDocument readDocument at h
  cases hrow : s.documentRow ref with
  | none => rfl
  | some row =>
    simp only [hrow] at h
    cases hdocument : rowToDocument row with
    | error e => simp [hdocument, Except.map] at h
    | ok document => simp [hdocument, Except.map] at h

/-- A delivery is answered at once if the version is already built, and builds it
otherwise. -/
theorem runBody_finishes (h : Finishes (runBody svc req options) t w result t' w') :
    (Admits svc req w True ∧ Finishes (shortCircuitAlreadyIndexed svc req) t w result t' w') ∨
      (Admits svc req w False ∧ Finishes (guardedBuild svc req options) t w result t' w') := by
  simp only [runBody, validateJobIdentity, completes_bind, finishes_read, completes_ite,
    finishes_raise, and_false, false_or, completes_pure, finishes_tryRead] at h
  obtain ⟨_, t₁, w₁, ⟨identity, t₂, w₂, ⟨rfl, rfl, rfl⟩, hidentity, -, rfl, rfl⟩, existing, t₃, w₃,
    ⟨hexisting, rfl, rfl⟩, h⟩ := h
  have hbound : identityMismatch svc req (w₃.metadata.getJobIdentity req.jobId) = false := by
    simpa using hidentity
  cases existing with
  | none =>
    have hnone := getDocument_none hexisting
    refine Or.inr ⟨⟨hbound, by simp [hnone], by simp [hnone]⟩, h⟩
  | some document =>
    obtain ⟨row, hrow, hcolumns⟩ := getDocument_some hexisting
    have hhash : document.contentHash = row.contentHash :=
      congrArg DocumentColumns.contentHash hcolumns
    have hstatus : document.status = row.status := congrArg DocumentColumns.status hcolumns
    have href : row.ref = req.ref := (documentRow_mem hrow).2
    simp only [completes_ite, finishes_raise, and_false, false_or, hhash, hstatus] at h
    obtain ⟨hcontent, h⟩ := h
    push Not at hcontent
    have hadmits : ∀ built, (built ↔ AlreadyBuilt w₃.metadata row) →
        Admits svc req w₃ built := by
      intro built hbuilt
      refine ⟨hbound, fun other hother => ?_, hbuilt.trans ?_⟩
      · obtain rfl := Option.some.inj (hrow.symm.trans hother)
        exact hcontent
      · constructor
        · exact fun h => ⟨row, hrow, h⟩
        · rintro ⟨other, hother, h⟩
          obtain rfl := Option.some.inj (hrow.symm.trans hother)
          exact h
    rcases h with ⟨hactive, h⟩ | ⟨hidle, h⟩
    · rcases resumeActive_finishes h with ⟨hsucceeded, h⟩ | ⟨hopen, h⟩
      · exact Or.inl ⟨hadmits True (iff_of_true trivial (Or.inl ⟨hactive, href ▸ hsucceeded⟩)), h⟩
      · refine Or.inr ⟨hadmits False (iff_of_false not_false ?_), h⟩
        rintro (⟨-, hsucceeded⟩ | hdeprecated)
        · exact hopen (href ▸ hsucceeded)
        · simp [hactive] at hdeprecated
    · rcases h with ⟨hdeprecated, h⟩ | ⟨hother, h⟩
      · exact Or.inl ⟨hadmits True (iff_of_true trivial (Or.inr hdeprecated)), h⟩
      · refine Or.inr ⟨hadmits False (iff_of_false not_false ?_), h⟩
        rintro (⟨hactive, -⟩ | hdeprecated)
        · exact hidle hactive
        · exact hother hdeprecated

/-- The answer without a build touches no table but those of jobs and leases. -/
theorem shortCircuit_finishes
    (h : Finishes (shortCircuitAlreadyIndexed svc req) t w result t' w') :
    result.status = .alreadyIndexed ∧ w'.metadata.documents = w.metadata.documents := by
  simp only [shortCircuitAlreadyIndexed, completes_bind, finishes_read, completes_ite,
    finishes_raise, and_false, false_or, completes_pure, finishes_metadata] at h
  obtain ⟨identity, t₁, w₁, ⟨rfl, rfl, rfl⟩, -, status, t₂, w₂, ⟨rfl, rfl, rfl⟩, h⟩ := h
  rcases h with ⟨-, _, t₃, w₃, ⟨rfl, m, hm, rfl⟩, rfl, rfl, rfl⟩ | ⟨-, rfl, rfl, rfl⟩
  · have hframe := @MetadataOp.frame _ (.markJobTerminal req.jobId .succeeded 0 0 none) w₂.clock
      _ _ _ hm
    exact ⟨rfl, hframe.documents (by simp [MetadataOp.writes])⟩
  · exact ⟨rfl, rfl⟩

theorem fail_finishes {e : PyError} (h : Finishes (fail svc req e) t w result t' w') :
    result.status = .failed := by
  simp only [fail, completes_bind, completes_pure] at h
  obtain ⟨_, t₁, w₁, -, _, t₂, w₂, -, rfl, -⟩ := h
  rfl

/-- An exception never ends in a result that says `indexed` or `already_indexed`. -/
theorem onException_finishes {e : PyError}
    (h : Finishes (onException svc req e) t w result t' w') :
    result.status = .failed ∨ result.status = .buildConflict := by
  cases e with
  | buildConflict reason =>
    obtain ⟨rfl, -, -⟩ := completes_pure.mp h
    exact Or.inr rfl
  | _ => exact Or.inl (fail_finishes h)

/-- A run that built the version: what it found and acquired, and its steps. -/
structure Built (svc : Services) (req : IngestionRequest) (options : RunOptions)
    (result : IngestionResult) (w w' : World) : Prop where
  admits : Admits svc req w False
  run : ∃ document claimed m acquired me', buildSourceDocument svc req = .ok document ∧
    acquireJobTransaction (acquireArgs svc req options document w) w.metadata = (.ok claimed, m) ∧
    AddsMarker req .acquire { w with metadata := m } acquired ∧
    Nonempty (BuildRun svc req ({ initial with leaseGeneration := claimed.2 }, acquired) (me', w')) ∧
    result = { status := .indexed, parentCount := me'.parentsList.length,
               childCount := me'.childrenList.length, errorCode := none }

theorem stepsUpTo_full {options : RunOptions} (h : ¬stoppedEarly options = true) :
    stepsUpTo options.maxStep = buildSteps := by
  simp only [stoppedEarly, decide_eq_true_eq] at h
  cases hmax : options.maxStep with
  | none => rfl
  | some name =>
    have hlast : name = .finalize := by
      by_contra hne
      exact h ⟨by simp [hmax], by simp [hmax, hne]⟩
    subst hlast
    decide

/-- A build performs all its steps, is stopped early after some, or ends in an exception. -/
theorem guardedBuild_outcome (hadmits : Admits svc req w False)
    (h : Finishes (guardedBuild svc req options) initial w result t' w') :
    Built svc req options result w w' ∨
      (result.status = .inProgress ∧ stoppedEarly options = true ∧ ∃ me acquired,
        Finishes (stepAcquire svc req options) initial w () me acquired ∧
        Finishes (forEach (stepsUpTo options.maxStep) (runStep svc req)) me acquired () t' w') ∨
      ∃ e t₁ w₁, (build svc req options).Ends StoreOp.Outcome initial w (.error e) t₁ w₁ ∧
        Finishes (onException svc req e) t₁ w₁ result t' w' := by
  rcases completes_tryCatch.mp h with h | h
  · simp only [build, completes_bind] at h
    obtain ⟨_, t₁, w₁, hacquire, _, t₂, w₂, hsteps, hfinish⟩ := h
    by_cases hstopped : stoppedEarly options = true
    · simp only [finishBuild, if_pos hstopped, completes_pure] at hfinish
      obtain ⟨rfl, rfl, rfl⟩ := hfinish
      exact Or.inr (Or.inl ⟨rfl, hstopped, t₁, w₁, hacquire, hsteps⟩)
    · obtain ⟨document, claimed, m, m', hdocument, htxn, hmark, rfl, rfl⟩ :=
        stepAcquire_finishes hacquire
      simp only [finishBuild, if_neg hstopped, completes_bind, completes_self, completes_pure] at hfinish
      obtain ⟨me, t₃, w₃, ⟨rfl, rfl, rfl⟩, rfl, rfl, rfl⟩ := hfinish
      rw [stepsUpTo_full hstopped] at hsteps
      exact Or.inl ⟨hadmits, document, claimed, m, { w with metadata := m' }, t', hdocument, htxn,
        markStep_adds (w := { w with metadata := m }) hmark, buildSteps_finishes rfl hsteps, rfl⟩
  · exact Or.inr (Or.inr h)

/-- A build that is not stopped early performs all its steps, or ends in an exception. -/
theorem guardedBuild_finishes (hfull : options.maxStep = none) (hadmits : Admits svc req w False)
    (h : Finishes (guardedBuild svc req options) initial w result t' w') :
    Built svc req options result w w' ∨ result.status = .failed ∨
      result.status = .buildConflict := by
  rcases guardedBuild_outcome hadmits h with hbuilt | ⟨-, hstopped, -⟩ | ⟨e, t₁, w₁, -, h⟩
  · exact Or.inl hbuilt
  · simp [stoppedEarly, hfull] at hstopped
  · exact Or.inr (onException_finishes h)

theorem Built.indexed (h : Built svc req options result w w') : result.status = .indexed := by
  obtain ⟨document, claimed, m, acquired, me', -, -, -, -, rfl⟩ := h.run
  rfl

/-- The result `indexed` of a run that is not stopped early means that it built the
version. -/
theorem runBody_indexed (hfull : options.maxStep = none) (hstatus : result.status = .indexed)
    (h : Finishes (runBody svc req options) initial w result t' w') :
    Built svc req options result w w' := by
  rcases runBody_finishes h with ⟨-, h⟩ | ⟨hadmits, h⟩
  · rw [(shortCircuit_finishes h).1] at hstatus
    simp at hstatus
  · rcases guardedBuild_finishes hfull hadmits h with h | h | h
    · exact h
    · simp [hstatus] at h
    · simp [hstatus] at h

end Run

end AgenticRag.IngestionJob
