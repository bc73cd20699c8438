import AgenticRag.Ingestion.Repetition
import AgenticRag.Storage.BuildLease

/-!
# Attempts that do not succeed

An attempt may be turned away because another one holds the lease, stop early, or crash
between two steps or between the effect of a step and its marker. None of them leaves the
stores in the middle of a step.
-/

namespace AgenticRag.IngestionJob

open MetadataStore StoreProgram Method

variable {svc : Services} {req : IngestionRequest} {w w' : World}

section Refusals

/-- The exception of an attempt that was turned away. -/
def Refusal (e : PyError) : Prop := ∃ reason, e = .buildConflict reason

theorem not_refusal_fault : ¬Refusal .fault := by
  rintro ⟨reason, h⟩
  simp at h

theorem reads_ensureChunked : Reads StoreOp.Outcome (ensureChunked svc req) := by
  refine reads_bind reads_self fun me => ?_
  split
  · exact reads_pure
  · split
    · exact reads_raise
    · exact reads_assign

theorem reads_assertOwnsBuild : Reads StoreOp.Outcome (assertOwnsBuild req) := by
  refine reads_bind reads_read fun owner => reads_bind reads_read fun generation => ?_
  refine reads_bind reads_self fun me => ?_
  split
  · exact reads_raise
  · exact reads_pure

theorem reads_stepVerify : Reads StoreOp.Outcome (stepVerify svc req) := by
  refine reads_bind reads_ensureChunked fun _ => reads_bind reads_self fun me => ?_
  refine reads_bind (reads_forEach fun parent => reads_bind reads_read fun stored => ?_) fun _ => ?_
  · split
    · exact reads_raise
    · split
      · exact reads_raise
      · exact reads_pure
  refine reads_bind ?_ fun _ => reads_bind reads_read fun records => ?_
  · unfold verifyPoints
    dsimp only
    split
    · exact reads_pure
    · refine reads_bind reads_tryRead fun found => ?_
      split
      · exact reads_raise
      · split
        · exact reads_pure
        · exact reads_raise
  · split
    · exact reads_raise
    · refine reads_bind reads_tryRead fun current => ?_
      split
      · exact reads_raise
      · split
        · exact reads_pure
        · exact reads_raise

theorem spares_upsertChunks {α : Type} {record : α → ChunkRecord} {xs : List α} :
    Spares StoreOp.Outcome Refusal
      (forEach xs fun x => metadata (.upsertChunkRecord (record x)) : JobProgram Unit) := by
  refine spares_forEach fun x => spares_metadata not_refusal_fault ?_
  rintro now s e m h ⟨reason, rfl⟩
  rcases upsertChunkRecord_cases h with ⟨hok, -⟩ | ⟨herr, -⟩
  · simp at hok
  · simp at herr

theorem spares_markStep {name : Step} :
    Spares StoreOp.Outcome Refusal
      (metadata (.markStep req.jobId name "done") : JobProgram Unit) := by
  refine spares_metadata not_refusal_fault ?_
  rintro now s e m h ⟨reason, rfl⟩
  rcases markStep_cases h with ⟨hok, -⟩ | ⟨herr, -⟩
  · simp at hok
  · simp at herr

theorem spares_upsertPoints {name : String} {batch : List Point} :
    Spares StoreOp.Outcome Refusal (vectors (.upsert name batch) : JobProgram Unit) := by
  refine spares_upsert not_refusal_fault ?_
  rintro ⟨reason, h⟩
  simp at h

theorem unmoved_publishArtifacts : Unmoved StoreOp.Outcome Refusal (publishArtifacts svc req) := by
  refine unmoved_bind reads_ensureChunked fun _ => unmoved_bind reads_self fun me => ?_
  refine Spares.unmoved (spares_bind spares_upsertPoints fun _ => ?_)
  refine spares_bind (spares_forEach fun parent => ?_) fun _ => ?_
  · refine spares_bind (spares_read not_refusal_fault) fun stored => ?_
    split
    · exact spares_pure
    · exact spares_parents not_refusal_fault
  · refine spares_bind (spares_read not_refusal_fault) fun previous => ?_
    split
    · exact spares_pure
    · split
      · exact spares_pure
      · refine spares_bind (spares_read not_refusal_fault) fun rows => ?_
        refine spares_bind (spares_forEach fun row => spares_parents not_refusal_fault) fun _ => ?_
        dsimp only
        split
        · exact spares_pure
        · exact spares_upsertPoints

/-- A step turns an attempt away before it writes anything. -/
theorem unmoved_step (name : Step) : Unmoved StoreOp.Outcome Refusal (step svc req name) := by
  cases name with
  | acquire => exact reads_pure.unmoved
  | parse => exact reads_assign.unmoved
  | chunk => exact reads_ensureChunked.unmoved
  | writeParents =>
    refine unmoved_bind reads_ensureChunked fun _ => unmoved_bind reads_self fun me => ?_
    exact (spares_forEach fun parent => spares_parents not_refusal_fault).unmoved
  | writeQdrant =>
    refine unmoved_bind reads_ensureChunked fun _ => unmoved_bind reads_self fun me => ?_
    exact (spares_bind spares_upsertPoints fun _ =>
      spares_bind spares_upsertChunks fun _ => spares_upsertChunks).unmoved
  | verify => exact reads_stepVerify.unmoved
  | commit =>
    refine unmoved_bind reads_assertOwnsBuild fun _ => unmoved_bind reads_read fun revision => ?_
    refine unmoved_bind_spares (unmoved_metadata not_refusal_fault ?_) fun _ => spares_assign
    intro now s e m h
    rcases commitActiveVersion_cases h with ⟨-, hok, -⟩ | ⟨-, -, hok, -⟩ | ⟨e', -, hkept⟩
    · simp at hok
    · simp at hok
    · exact hkept
  | publish => exact unmoved_bind reads_assertOwnsBuild fun _ => unmoved_publishArtifacts
  | finalize =>
    refine unmoved_bind reads_self fun me => Spares.unmoved ?_
    refine spares_bind (spares_metadata not_refusal_fault ?_) fun _ =>
      spares_metadata not_refusal_fault ?_
    · rintro now s e m h -
      simp [MetadataOp.eval, setJobManifest, updateJobs] at h
    · rintro now s e m h -
      simp [MetadataOp.eval, markJobTerminal_eq] at h

theorem unmoved_runStep (name : Step) : Unmoved StoreOp.Outcome Refusal (runStep svc req name) := by
  refine unmoved_bind reads_read fun done => ?_
  split
  · exact reads_pure.unmoved
  · exact unmoved_bind_spares (unmoved_step name) fun _ => spares_markStep

theorem unmoved_stepAcquire {options : RunOptions} :
    Unmoved StoreOp.Outcome Refusal (stepAcquire svc req options) := by
  refine unmoved_bind reads_read fun revision => ?_
  split
  · exact reads_raise.unmoved
  · refine unmoved_bind_spares (unmoved_metadata not_refusal_fault ?_) fun claimed =>
      spares_bind spares_markStep fun _ => spares_assign
    intro now s e m h
    exact Routine.transaction_error h

end Refusals

section Enrolment

/-- The version is enrolled and its build belongs to this job, which runs. A row that was
never activated has the columns the request gives it. -/
structure Enrolled (svc : Services) (req : IngestionRequest) (w : World) : Prop where
  row : ∃ row ∈ w.metadata.documents, row.ref = req.ref
  columns : ∀ row ∈ w.metadata.documents, row.ref = req.ref → row.status ≠ .deprecated ∧
    (row.status = .processing ∨ row.status = .failed →
      row.toDocumentColumns = sourceColumns svc req)
  job : ∃ job, w.metadata.jobRow req.jobId = some job ∧ job.status = .running
  owner : w.metadata.getBuildOwner req.ref = some req.jobId

theorem Enrolled.congr (h : Enrolled svc req w) (hdocuments : w'.metadata.documents = w.metadata.documents)
    (hjobs : w'.metadata.jobs = w.metadata.jobs) (hbuilds : w'.metadata.builds = w.metadata.builds) :
    Enrolled svc req w' := by
  refine ⟨?_, ?_, ?_, ?_⟩
  · rw [hdocuments]
    exact h.row
  · rw [hdocuments]
    exact h.columns
  · unfold jobRow
    rw [hjobs]
    exact h.job
  · unfold getBuildOwner buildRow
    rw [hbuilds]
    exact h.owner

/-- The acquire of an attempt, with or without its marker. -/
structure Acquires (svc : Services) (req : IngestionRequest) (options : RunOptions) (w w' : World) :
    Prop where
  transaction : ∃ document claimed m, buildSourceDocument svc req = .ok document ∧
    acquireJobTransaction (acquireArgs svc req options document w) w.metadata = (.ok claimed, m) ∧
    ∃ steps, w' = { w with metadata := { m with steps } }
  marked : ∀ name ≠ .acquire, Marked req w' name ↔ Marked req w name

theorem acquires_unmarked {options : RunOptions} {document : SourceDocument}
    {claimed : JobStatus × Nat} {m : MetadataStore}
    (hdocument : buildSourceDocument svc req = .ok document)
    (htxn : acquireJobTransaction (acquireArgs svc req options document w) w.metadata =
      (.ok claimed, m)) : Acquires svc req options w { w with metadata := m } := by
  refine ⟨⟨document, claimed, m, hdocument, htxn, m.steps, rfl⟩, fun name _ => ?_⟩
  rw [acquireJobTransaction_eq rfl htxn]
  rfl

theorem acquires_marked {options : RunOptions} {document : SourceDocument}
    {claimed : JobStatus × Nat} {m : MetadataStore}
    (hdocument : buildSourceDocument svc req = .ok document)
    (htxn : acquireJobTransaction (acquireArgs svc req options document w) w.metadata =
      (.ok claimed, m)) (hmark : AddsMarker req .acquire { w with metadata := m } w') :
    Acquires svc req options w w' := by
  obtain ⟨⟨steps, rfl⟩, hmarked⟩ := hmark
  refine ⟨⟨document, claimed, m, hdocument, htxn, steps, rfl⟩, fun name hname => ?_⟩
  rw [hmarked name, or_iff_left hname]
  exact (acquires_unmarked hdocument htxn).marked name hname

theorem acquires_of_finishes {options : RunOptions} {me : JobState}
    (h : Finishes (stepAcquire svc req options) initial w () me w') :
    Acquires svc req options w w' ∧ me.childrenList = [] ∧ me.parentsList = [] := by
  obtain ⟨document, claimed, m, m', hdocument, htxn, hmark, rfl, rfl⟩ := stepAcquire_finishes h
  exact ⟨acquires_marked hdocument htxn (markStep_adds (w := { w with metadata := m }) hmark), rfl,
    rfl⟩

theorem acquireJobTransaction_owner {args : AcquireArgs} {claimed : JobStatus × Nat}
    {s t : MetadataStore} (h : acquireJobTransaction args s = (.ok claimed, t)) :
    t.getBuildOwner args.ref = some args.jobId := by
  obtain ⟨status, generation⟩ := claimed
  obtain ⟨-, ⟨previous, hlease⟩, -⟩ := acquireJobTransaction_generation h
  simp only [getBuildOwner, hlease, Option.map_some, leaseFor]

/-- A first acquire enrols the version, unless it was superseded. -/
theorem Acquires.enrolled {options : RunOptions} (hinv : LifecycleInvariant w.metadata)
    (hcurrent : ∀ row ∈ w.metadata.documents, row.ref = req.ref → row.status ≠ .deprecated)
    (h : Acquires svc req options w w') : Enrolled svc req w' := by
  obtain ⟨document, claimed, m, hdocument, htxn, steps, rfl⟩ := h.transaction
  have hcolumns := buildSourceDocument_columns svc req hdocument
  have href : document.ref = req.ref := congrArg DocumentColumns.ref hcolumns
  have hm := acquireJobTransaction_eq rfl htxn
  have hdocuments : m.documents = enrolledDocuments document w.metadata.documents := by rw [hm]
  obtain ⟨job, hjob, hrunning, -⟩ := acquireJobTransaction_job htxn
  have hfresh : ∀ revision (row : DocumentRow),
      row = { document.toDocumentColumns with lifecycleRevision := revision } →
      row.status ≠ .deprecated ∧ (row.status = .processing ∨ row.status = .failed →
        row.toDocumentColumns = sourceColumns svc req) := by
    rintro revision row rfl
    rw [hcolumns]
    exact ⟨by simp [sourceColumns], fun _ => rfl⟩
  refine ⟨?_, ?_, ⟨job, hjob, hrunning⟩, ?_⟩
  · dsimp only
    rw [hdocuments]
    unfold enrolledDocuments
    split
    · exact ⟨_, Table.mem_insert.mpr (Or.inr rfl), href⟩
    · rename_i old hold
      obtain ⟨hmem, hver⟩ := Table.selectOne_some hold
      split
      · exact ⟨_, Table.mem_update.mpr (Or.inl ⟨old, hmem, hver, rfl⟩), href⟩
      · exact ⟨old, hmem, (of_decide_eq_true hver).trans href⟩
  · dsimp only
    rw [hdocuments]
    intro row hrow hver
    unfold enrolledDocuments at hrow
    split at hrow
    · rename_i hnone
      rcases Table.mem_insert.mp hrow with hmem | rfl
      · have hother := Table.selectOne_none.mp hnone row hmem
        simp [ofVersion, hver, href] at hother
      · exact hfresh _ _ rfl
    · rename_i old hold
      obtain ⟨hmem, hsame⟩ := Table.selectOne_some hold
      split at hrow
      · rcases Table.mem_update.mp hrow with ⟨before, -, -, rfl⟩ | ⟨-, hother⟩
        · exact hfresh _ _ rfl
        · simp [ofVersion, hver, href] at hother
      · rename_i hclosed
        obtain rfl := hinv.keys.eq_of_key hmem hrow
          ((of_decide_eq_true hsame).trans (href.trans hver.symm))
        exact ⟨hcurrent old hmem hver, fun hopen => absurd hopen hclosed⟩
  · exact acquireJobTransaction_owner htxn

/-- Acquiring an enrolled version again changes the lease only. -/
theorem Acquires.again {options : RunOptions} (hinv : LifecycleInvariant w.metadata)
    (henrolled : Enrolled svc req w)
    (h : Acquires svc req options w w') :
    w'.metadata.documents = w.metadata.documents ∧ w'.metadata.jobs = w.metadata.jobs ∧
      w'.metadata.chunks = w.metadata.chunks ∧ w'.vectors = w.vectors ∧ w'.parents = w.parents ∧
      Enrolled svc req w' := by
  obtain ⟨document, claimed, m, hdocument, htxn, steps, rfl⟩ := h.transaction
  have hcolumns := buildSourceDocument_columns svc req hdocument
  have href : document.ref = req.ref := congrArg DocumentColumns.ref hcolumns
  have hm := acquireJobTransaction_eq rfl htxn
  obtain ⟨job, hjob, hrunning⟩ := henrolled.job
  have hjobs : m.jobs = w.metadata.jobs := by
    have hrow : w.metadata.jobRow (acquireArgs svc req options document w).jobId = some job := hjob
    rw [hm]
    simp only [boundJobs, hrow, if_pos hrunning]
  have hdocuments : m.documents = w.metadata.documents := by
    rw [hm]
    dsimp only
    unfold enrolledDocuments
    split
    · rename_i hnone
      obtain ⟨row, hrow, hver⟩ := henrolled.row
      have hother := Table.selectOne_none.mp hnone row hrow
      simp [ofVersion, hver, href] at hother
    · rename_i old hold
      split
      · rename_i hopen
        obtain ⟨hmem, hsame⟩ := Table.selectOne_some hold
        have hver : old.ref = document.ref := of_decide_eq_true hsame
        have hsource := (henrolled.columns old hmem (hver.trans href)).2 hopen
        unfold Table.update
        conv_rhs => rw [← List.map_id w.metadata.documents]
        apply List.map_congr_left
        intro row hrow
        by_cases hrowVer : ofVersion document.ref row = true
        · obtain rfl := hinv.keys.eq_of_key hmem hrow (hver.trans (of_decide_eq_true hrowVer).symm)
          rw [if_pos hrowVer, hcolumns, ← hsource]
          rfl
        · rw [if_neg hrowVer]
          rfl
      · rfl
  have hbuilds := acquireJobTransaction_owner htxn
  refine ⟨hdocuments, hjobs, ?_, rfl, rfl, ?_⟩
  · dsimp only
    rw [hm]
  · refine ⟨?_, ?_, ⟨job, ?_, hrunning⟩, hbuilds⟩
    · dsimp only
      rw [hdocuments]
      exact henrolled.row
    · dsimp only
      rw [hdocuments]
      exact henrolled.columns
    · unfold jobRow
      dsimp only
      rw [hjobs]
      exact hjob

theorem Acquires.sameArtifacts {options : RunOptions} (hinv : LifecycleInvariant w.metadata)
    (henrolled : Enrolled svc req w) (h : Acquires svc req options w w') :
    SameArtifacts req w' w := by
  obtain ⟨hdocuments, hjobs, hchunks, hvectors, hparents, -⟩ := h.again hinv henrolled
  refine ⟨?_, hchunks, hvectors, fun parentId => by rw [hparents], ?_⟩
  · unfold untimedDocuments
    rw [hdocuments]
  · unfold getJobPreviousVersion jobRow
    rw [hjobs]

/-- Two attempts that start alike acquire alike, at whatever time. -/
theorem Acquires.alike {options options' : RunOptions} {clock : Timestamp} {u' : World}
    (h : Acquires svc req options w w')
    (h' : Acquires svc req options' { w with clock } u') : SameArtifacts req u' w' := by
  obtain ⟨document, claimed, m, hdocument, htxn, steps, rfl⟩ := h.transaction
  obtain ⟨document', claimed', m', hdocument', htxn', steps', rfl⟩ := h'.transaction
  obtain rfl := Except.ok.inj (hdocument.symm.trans hdocument')
  have hm := acquireJobTransaction_eq rfl htxn
  have hm' := acquireJobTransaction_eq rfl htxn'
  rw [hm, hm']
  exact ⟨rfl, rfl, rfl, fun _ => rfl, rfl⟩

theorem Acquires.invariant {options : RunOptions} (hinv : LifecycleInvariant w.metadata)
    (h : Acquires svc req options w w') : LifecycleInvariant w'.metadata := by
  obtain ⟨document, claimed, m, hdocument, htxn, steps, rfl⟩ := h.transaction
  have hprocessing : ∀ other ∈ some document, other.status = .processing := by
    intro other hother
    obtain rfl := Option.some.inj hother
    rw [buildSourceDocument_columns svc req hdocument]
    rfl
  exact ((acquireJobTransaction_lifecycle hprocessing htxn).invariant hinv).congr rfl

/-- The steps before the finalization keep the version enrolled. -/
theorem Performed.enrolled {name : Step} (hname : name ≠ .finalize) (henrolled : Enrolled svc req w)
    (h : Performed svc req name w w') : Enrolled svc req w' := by
  obtain ⟨-, me, me', hcoherent, hparse, hstep⟩ := h
  have hleaves := (step_finishes hcoherent hparse hstep).2
  by_cases hcommit : name = .commit
  · subst hcommit
    obtain ⟨-, switched, m, hm, rfl⟩ := stepCommit_finishes hstep
    rcases commitActiveVersion_cases hm with ⟨-, -, rfl⟩ | ⟨hother, -, -, rfl, -⟩ | ⟨e, herr, -⟩
    · exact henrolled
    · refine ⟨?_, ?_, henrolled.job, henrolled.owner⟩
      · obtain ⟨row, hrow, hver⟩ := henrolled.row
        exact ⟨_, (mem_switchDocuments hother).mpr (Or.inl ⟨row, hrow, hver, rfl⟩), hver⟩
      · intro row hrow hver
        rcases (mem_switchDocuments hother).mp hrow with ⟨old, -, -, rfl⟩ |
          ⟨old, -, ⟨version, hversion, hold⟩, rfl⟩ | ⟨hmem, -, -⟩
        · simp [activateRow]
        · have hsame : (⟨req.ref.doc, version⟩ : VersionRef) = req.ref := hold.symm.trans hver
          have hown : version = req.ref.version := congrArg VersionRef.version hsame
          exact absurd (hown ▸ hversion) hother
        · exact henrolled.columns row hmem hver
    · simp at herr
  · exact henrolled.congr (hleaves.documents hcommit) (hleaves.jobs hname) (hleaves.builds hname)

theorem Performed.invariant_after {name : Step} (h : Performed svc req name w w') :
    LifecycleInvariant w'.metadata := by
  obtain ⟨hinv, me, me', hcoherent, hparse, hstep⟩ := h
  by_cases hcommit : name = .commit
  · subst hcommit
    obtain ⟨-, switched, m, hm, rfl⟩ := stepCommit_finishes hstep
    exact (commitActiveVersion_lifecycle hm).invariant hinv
  · exact hinv.congr ((step_finishes hcoherent hparse hstep).2.documents hcommit)

end Enrolment

section Loops

theorem Performs.turn {name : Step} {before after : JobState × World}
    (hinv : LifecycleInvariant before.2.metadata) (hcoherent : Coherent svc req before.1)
    (hparse : name = .parse → before.1.childrenList = [])
    (h : Performs svc req name before after) :
    (markedSteps svc req).Turn name before.2 after.2 ∧ LifecycleInvariant after.2.metadata := by
  rcases h.cases with ⟨hmarked, rfl⟩ | ⟨hdue, w₁, hstep, hmark⟩
  · exact ⟨Or.inl ⟨hmarked, rfl⟩, hinv⟩
  · have hperformed : Performed svc req name before.2 w₁ :=
      ⟨hinv, before.1, after.1, hcoherent, hparse, hstep⟩
    refine ⟨Or.inr ⟨hdue, w₁, hperformed, hmark⟩, ?_⟩
    obtain ⟨steps, hstores⟩ := hmark.stores
    rw [hstores]
    exact hperformed.invariant_after.congr rfl

theorem forEach_loop {steps : List Step} {me me' : JobState}
    (hinv : LifecycleInvariant w.metadata) (hcoherent : Coherent svc req me)
    (hparse : me.childrenList ≠ [] → .parse ∉ steps) (hlater : .parse ∉ steps.tail)
    (h : Finishes (forEach steps (runStep svc req)) me w () me' w') :
    (markedSteps svc req).Loop steps w w' ∧ LifecycleInvariant w'.metadata ∧
      Coherent svc req me' := by
  induction steps generalizing me w with
  | nil =>
    obtain ⟨rfl, rfl⟩ := completes_forEach_nil.mp h
    exact ⟨.nil _, hinv, hcoherent⟩
  | cons name steps ih =>
    obtain ⟨me₁, w₁, hstep, hrest⟩ := completes_forEach_cons.mp h
    have hperforms : Performs svc req name (me, w) (me₁, w₁) := hstep
    have hhead : name = .parse → me.childrenList = [] := by
      rintro rfl
      by_contra hfilled
      exact hparse hfilled List.mem_cons_self
    obtain ⟨hturn, hinv₁⟩ := hperforms.turn hinv hcoherent hhead
    obtain ⟨hloop, hinv', hcoherent'⟩ := ih hinv₁ (hperforms.passes hcoherent hhead).1
      (fun _ => hlater) (fun hmem => hlater (List.mem_of_mem_tail hmem)) hrest
    exact ⟨.cons hturn hloop, hinv', hcoherent'⟩

/-- A loop over the first steps of a job. -/
theorem prefix_loop {before after : List Step} {me me' : JobState}
    (hinv : LifecycleInvariant w.metadata) (hempty : me.childrenList = [])
    (hbegins : before ++ after = buildSteps)
    (h : Finishes (forEach before (runStep svc req)) me w () me' w') :
    (markedSteps svc req).Loop before w w' ∧ LifecycleInvariant w'.metadata ∧
      Coherent svc req me' ∧ (.parse ∉ before → me'.childrenList = []) := by
  have hlater : .parse ∉ before.tail := by
    cases before with
    | nil => simp
    | cons first before =>
      have hsplit : first :: (before ++ after) = buildSteps := hbegins
      obtain ⟨-, hrest⟩ := List.cons.inj hsplit
      intro hmem
      have hparse : Step.parse ∈ before ++ after := List.mem_append_left _ hmem
      rw [hrest] at hparse
      simp at hparse
  obtain ⟨hloop, hinv', hcoherent⟩ := forEach_loop hinv (fun hfilled => absurd hempty hfilled)
    (fun hfilled => absurd hempty hfilled) hlater h
  refine ⟨hloop, hinv', hcoherent, fun hnone => ?_⟩
  cases before with
  | nil =>
    obtain ⟨rfl, -⟩ := completes_forEach_nil.mp h
    exact hempty
  | cons first before =>
    obtain ⟨rfl, -⟩ := List.cons.inj hbegins
    simp at hnone

theorem BuildRun.loop {start finish : JobState × World} (run : BuildRun svc req start finish)
    (hinv : LifecycleInvariant start.2.metadata) :
    (markedSteps svc req).Loop buildSteps start.2 finish.2 := by
  obtain ⟨h₁, hinv₁⟩ := run.parse.turn hinv (fun hfilled => absurd run.fresh hfilled) fun _ => run.fresh
  obtain ⟨h₂, hinv₂⟩ := run.chunk.turn hinv₁ run.parsed_passes.1 (by simp)
  obtain ⟨h₃, hinv₃⟩ := run.writeParents.turn hinv₂ run.chunked_passes.1 (by simp)
  obtain ⟨h₄, hinv₄⟩ := run.writeQdrant.turn hinv₃ run.written_passes.1 (by simp)
  obtain ⟨h₅, hinv₅⟩ := run.verify.turn hinv₄ run.uploaded_passes.1 (by simp)
  obtain ⟨h₆, hinv₆⟩ := run.commit.turn hinv₅ run.verified_passes.1 (by simp)
  obtain ⟨h₇, hinv₇⟩ := run.publish.turn hinv₆ run.committed_passes.1 (by simp)
  obtain ⟨h₈, -⟩ := run.finalize.turn hinv₇ run.published_passes.1 (by simp)
  exact .cons h₁ (.cons h₂ (.cons h₃ (.cons h₄ (.cons h₅ (.cons h₆ (.cons h₇ (.cons h₈ (.nil _))))))))

/-- A loop that does not finalize keeps the version enrolled. -/
theorem loop_enrolled {steps : List Step} (hfinalize : .finalize ∉ steps)
    (h : (markedSteps svc req).Loop steps w w') (henrolled : Enrolled svc req w) :
    Enrolled svc req w' := by
  induction h with
  | nil => exact henrolled
  | cons hturn _ ih =>
    apply ih fun hmem => hfinalize (List.mem_cons_of_mem _ hmem)
    rcases hturn with ⟨-, rfl⟩ | ⟨-, w₁, hstep, hmark⟩
    · exact henrolled
    · obtain ⟨steps, rfl⟩ := AddsMarker.stores hmark
      have hname := fun hlast => hfinalize (List.mem_cons.mpr (Or.inl hlast))
      exact (Performed.enrolled (fun hlast => hname hlast.symm) henrolled hstep).congr rfl rfl rfl

end Loops

section Attempts

/-- An attempt that did not succeed: it returned `build_conflict` or `in_progress`, or it
crashed, right after the acquire transaction, between two steps, or after the effect of a
step and before its marker. -/
inductive Attempt (svc : Services) (req : IngestionRequest) : World → World → Prop
  | returned {options : RunOptions} {result : IngestionResult} {me : JobState} {w w' : World}
      (hrun : Finishes (runBody svc req options) initial w result me w')
      (hstatus : result.status = .buildConflict ∨ result.status = .inProgress) : Attempt svc req w w'
  | acquiring {options : RunOptions} {document : SourceDocument} {claimed : JobStatus × Nat}
      {m : MetadataStore} {w : World} (hadmits : Admits svc req w False)
      (hdocument : buildSourceDocument svc req = .ok document)
      (htransaction : acquireJobTransaction (acquireArgs svc req options document w) w.metadata =
        (.ok claimed, m)) : Attempt svc req w { w with metadata := m }
  | between {options : RunOptions} {before after : List Step} {me me' : JobState}
      {w acquired w' : World} (hadmits : Admits svc req w False)
      (hsteps : stepsUpTo options.maxStep = before ++ after)
      (hacquire : Finishes (stepAcquire svc req options) initial w () me acquired)
      (hrun : Finishes (forEach before (runStep svc req)) me acquired () me' w') :
      Attempt svc req w w'
  | unmarked {options : RunOptions} {before after : List Step} {name : Step}
      {me me₁ me' : JobState} {w acquired w₁ w' : World} (hadmits : Admits svc req w False)
      (hsteps : stepsUpTo options.maxStep = before ++ name :: after)
      (hacquire : Finishes (stepAcquire svc req options) initial w () me acquired)
      (hrun : Finishes (forEach before (runStep svc req)) me acquired () me₁ w₁)
      (hdue : ¬Marked req w₁ name) (hstep : Finishes (step svc req name) me₁ w₁ () me' w') :
      Attempt svc req w w'

/-- What an attempt that did not succeed leaves behind: nothing, or an acquired build with
the effects of some first steps, of which the last may lack its marker. -/
inductive CutOff (svc : Services) (req : IngestionRequest) : World → World → Prop
  | before (w : World) : CutOff svc req w w
  | between {options : RunOptions} {before after : List Step} {w acquired w' : World}
      (hacquires : Acquires svc req options w acquired) (hbegins : before ++ after = buildSteps)
      (hloop : (markedSteps svc req).Loop before acquired w') : CutOff svc req w w'
  | unmarked {options : RunOptions} {before after : List Step} {name : Step}
      {w acquired w₁ w' : World} (hacquires : Acquires svc req options w acquired)
      (hbegins : before ++ name :: after = buildSteps)
      (hloop : (markedSteps svc req).Loop before acquired w₁) (hdue : ¬Marked req w₁ name)
      (hstep : Performed svc req name w₁ w') : CutOff svc req w w'

theorem stepsUpTo_prefix (maxStep : Option Step) : stepsUpTo maxStep <+: buildSteps := by
  cases maxStep with
  | none => exact List.prefix_refl _
  | some name => cases name <;> decide

theorem prefix_of_stepsUpTo {maxStep : Option Step} {before after : List Step}
    (h : stepsUpTo maxStep = before ++ after) : ∃ rest, before ++ (after ++ rest) = buildSteps := by
  obtain ⟨rest, hrest⟩ := stepsUpTo_prefix maxStep
  refine ⟨rest, ?_⟩
  rw [← List.append_assoc, ← h, hrest]

theorem buildSteps_nodup : buildSteps.Nodup := by decide

theorem CutOff.of_steps {options : RunOptions} {before after : List Step} {me me' : JobState}
    {acquired : World} (hinv : LifecycleInvariant w.metadata)
    (hsteps : stepsUpTo options.maxStep = before ++ after)
    (hacquire : Finishes (stepAcquire svc req options) initial w () me acquired)
    (hrun : Finishes (forEach before (runStep svc req)) me acquired () me' w') :
    CutOff svc req w w' ∧ LifecycleInvariant w'.metadata := by
  obtain ⟨hacquires, hempty, -⟩ := acquires_of_finishes hacquire
  obtain ⟨rest, hbegins⟩ := prefix_of_stepsUpTo hsteps
  obtain ⟨hloop, hinv', -⟩ := prefix_loop (hacquires.invariant hinv) hempty hbegins hrun
  exact ⟨.between hacquires hbegins hloop, hinv'⟩

/-- An attempt that was turned away, wherever in its run. -/
theorem refused_cutOff {options : RunOptions} {e : PyError} {me : JobState}
    (hinv : LifecycleInvariant w.metadata) (he : Refusal e)
    (h : (build svc req options).Ends StoreOp.Outcome initial w (.error e) me w') :
    CutOff svc req w w' ∧ LifecycleInvariant w'.metadata := by
  rcases ends_bind.mp h with ⟨_, me₁, acquired, hacquire, hrest⟩ | ⟨e', he', hacquire⟩
  · rcases ends_bind.mp hrest with ⟨_, me₂, w₂, -, hfinish⟩ | ⟨e', he', hsteps⟩
    · unfold finishBuild at hfinish
      split at hfinish
      · exact absurd he (spares_pure _ _ _ _ _ hfinish)
      · exact absurd he (spares_bind spares_self (fun _ => spares_pure) _ _ _ _ _ hfinish)
    · obtain rfl := Except.error.inj he'
      obtain ⟨before, name, after, me₂, w₂, hsplit, hbefore, hstep⟩ := ends_forEach_error hsteps
      obtain rfl : w' = w₂ := unmoved_runStep name _ _ _ _ _ hstep he
      exact CutOff.of_steps hinv hsplit hacquire hbefore
  · obtain rfl := Except.error.inj he'
    obtain rfl : w' = w := unmoved_stepAcquire _ _ _ _ _ hacquire he
    exact ⟨.before _, hinv⟩

/-- No attempt leaves the stores in the middle of a step. -/
theorem Attempt.cutOff (hinv : LifecycleInvariant w.metadata) (h : Attempt svc req w w') :
    CutOff svc req w w' ∧ LifecycleInvariant w'.metadata := by
  cases h with
  | returned hrun hstatus =>
    rcases runBody_finishes hrun with ⟨-, h⟩ | ⟨hadmits, h⟩
    · simp [(shortCircuit_finishes h).1] at hstatus
    · rcases guardedBuild_outcome hadmits h with hbuilt | ⟨-, -, me, acquired, hacquire, hsteps⟩ |
        ⟨e, me, w₁, hbuild, hexception⟩
      · simp [hbuilt.indexed] at hstatus
      · exact CutOff.of_steps hinv (List.append_nil _).symm hacquire hsteps
      · cases e with
        | buildConflict reason =>
          obtain ⟨-, -, rfl⟩ := completes_pure.mp hexception
          exact refused_cutOff hinv ⟨reason, rfl⟩ hbuild
        | _ => simp [fail_finishes hexception] at hstatus
  | acquiring hadmits hdocument htransaction =>
    have hacquires := acquires_unmarked hdocument htransaction
    exact ⟨.between hacquires (List.nil_append _) (.nil _), hacquires.invariant hinv⟩
  | between hadmits hsteps hacquire hrun => exact CutOff.of_steps hinv hsteps hacquire hrun
  | @unmarked _ _ _ name _ _ _ _ _ w₁ _ hadmits hsteps hacquire hrun hdue hstep =>
    obtain ⟨hacquires, hempty, -⟩ := acquires_of_finishes hacquire
    obtain ⟨rest, hbegins⟩ := prefix_of_stepsUpTo hsteps
    obtain ⟨hloop, hinv', hcoherent, hparse⟩ :=
      prefix_loop (hacquires.invariant hinv) hempty hbegins hrun
    have hperformed : Performed svc req name w₁ w' := by
      refine ⟨hinv', _, _, hcoherent, ?_, hstep⟩
      rintro rfl
      apply hparse
      have hnodup := hbegins ▸ buildSteps_nodup
      exact fun hmem => List.disjoint_of_nodup_append hnodup hmem (by simp)
    exact ⟨.unmarked hacquires hbegins hloop hdue hperformed, hperformed.invariant_after⟩

end Attempts

end AgenticRag.IngestionJob
