import AgenticRag.Ingestion.Interruption

/-!
# Resuming an interrupted ingestion

Attempts of one request follow each other until one succeeds. Compared with an ingestion
that was never interrupted, what they leave behind is the same as long as the attempt that
succeeds still has to publish. Later, nothing in it chunks the content again, and the counts
it reports and stores are those of an empty object.
-/

namespace AgenticRag.IngestionJob

open MetadataStore StoreProgram Method

variable {svc : Services} {req : IngestionRequest} {w₀ w w' u : World} {options : RunOptions}
  {result : IngestionResult} {me : JobState}

/-- Attempts that did not succeed, one after the other; the clock moves on its own. -/
inductive Interrupted (svc : Services) (req : IngestionRequest) (w₀ : World) : World → Prop
  | start : Interrupted svc req w₀ w₀
  | tick {w : World} (clock : Timestamp) (h : Interrupted svc req w₀ w) :
      Interrupted svc req w₀ { w with clock }
  | attempt {w w' : World} (h : Interrupted svc req w₀ w) (hattempt : Attempt svc req w w') :
      Interrupted svc req w₀ w'

def jobReport (s : MetadataStore) (jobId : String) : Option (Option Manifest × Nat × Nat) :=
  (s.jobRow jobId).map fun job => (job.manifest, job.parentCount, job.childCount)

/-- Two deliveries have had the same outcome: version rows up to the recorded times, chunk
rows, points and parents, the job's report, and the counts of the result. -/
structure SameOutcome (req : IngestionRequest) (result other : IngestionResult) (w u : World) :
    Prop where
  documents : w.metadata.untimedDocuments = u.metadata.untimedDocuments
  chunks : w.metadata.chunks = u.metadata.chunks
  points : w.vectors = u.vectors
  parents : ∀ parentId, w.parents.get parentId = u.parents.get parentId
  report : jobReport w.metadata req.jobId = jobReport u.metadata req.jobId
  parentCount : result.parentCount = other.parentCount
  childCount : result.childCount = other.childCount

section Progress

/-- An interrupted ingestion on its way to `final`. -/
structure Underway (svc : Services) (req : IngestionRequest) (final w : World) : Prop where
  standing : (markedSteps svc req).Standing final buildSteps w
  enrolled : Enrolled svc req w

/-- Where an ingestion that still has to publish stands: not begun, or underway. -/
structure Pending (svc : Services) (req : IngestionRequest) (w₀ final w : World) : Prop where
  invariant : LifecycleInvariant w.metadata
  inOrder : (markedSteps svc req).InOrder buildSteps w
  unpublished : ¬Marked req w .publish →
    (∃ clock, w = { w₀ with clock }) ∨ Underway svc req final w

/-- The ingestion that is never interrupted: what it acquired and how it went on. -/
structure Uninterrupted (svc : Services) (req : IngestionRequest) (w₀ final : World) : Prop where
  invariant : LifecycleInvariant w₀.metadata
  current : ∀ row ∈ w₀.metadata.documents, row.ref = req.ref → row.status ≠ .deprecated
  fresh : ∀ name ∈ buildSteps, ¬Marked req w₀ name
  run : ∃ options acquired, Acquires svc req options w₀ acquired ∧
    (markedSteps svc req).Undisturbed buildSteps acquired final

theorem acquire_notin {name : Step} (h : name ∈ buildSteps) : name ≠ .acquire := by
  rintro rfl
  simp [buildSteps] at h

theorem Uninterrupted.acquires (h : Uninterrupted svc req w₀ u) {clock : Timestamp} {acquired : World}
    (hacquires : Acquires svc req options { w₀ with clock } acquired) :
    Underway svc req u acquired := by
  obtain ⟨options₀, acquired₀, hacquires₀, hundisturbed⟩ := h.run
  refine ⟨hundisturbed.standing (fun name hname hmarked => ?_) (hacquires₀.alike hacquires),
    Acquires.enrolled (w := { w₀ with clock }) h.invariant h.current hacquires⟩
  exact h.fresh name hname ((hacquires.marked name (acquire_notin hname)).mp hmarked)

/-- Acquiring again changes nothing about how far the ingestion got. -/
theorem Underway.acquires (hinv : LifecycleInvariant w.metadata) (h : Underway svc req u w)
    (hacquires : Acquires svc req options w w') : Underway svc req u w' := by
  refine ⟨h.standing.congr (fun name hname => hacquires.marked name (acquire_notin hname)) ?_,
    (hacquires.again hinv h.enrolled).2.2.2.2.2⟩
  exact fun _ hsame => (hacquires.sameArtifacts hinv h.enrolled).trans hsame

theorem Pending.acquires (huninterrupted : Uninterrupted svc req w₀ u)
    (h : Pending svc req w₀ u w) (hunpublished : ¬Marked req w .publish)
    (hacquires : Acquires svc req options w w') : Underway svc req u w' := by
  rcases h.unpublished hunpublished with ⟨clock, rfl⟩ | hunderway
  · exact huninterrupted.acquires hacquires
  · exact hunderway.acquires h.invariant hacquires

theorem finalize_after_publish {before after : List Step} (h : before ++ after = buildSteps)
    (hpublish : .publish ∉ before) : .finalize ∉ before := by
  have hbeginnings : ∀ steps ∈ buildSteps.inits, Step.publish ∉ steps → Step.finalize ∉ steps := by
    decide
  exact hbeginnings before ((List.mem_inits _ _).mpr ⟨after, h⟩) hpublish

theorem Pending.acquired_inOrder (h : (markedSteps svc req).InOrder buildSteps w)
    (hacquires : Acquires svc req options w w') : (markedSteps svc req).InOrder buildSteps w' := by
  refine List.Pairwise.imp_of_mem ?_ h
  intro first second hfirst hsecond himp hmarked
  have hold := (hacquires.marked second (acquire_notin hsecond)).mp hmarked
  exact (hacquires.marked first (acquire_notin hfirst)).mpr (himp hold)

/-- An attempt that is cut off leaves the ingestion standing. -/
theorem Pending.cutOff (huninterrupted : Uninterrupted svc req w₀ u) (h : Pending svc req w₀ u w)
    (hcut : CutOff svc req w w') (hinv' : LifecycleInvariant w'.metadata) :
    Pending svc req w₀ u w' := by
  have hrepeatable := markedSteps_repeatable svc req
  cases hcut with
  | before => exact h
  | @between options before after _ acquired _ hacquires hbegins hloop =>
    have hnodup := hbegins.symm ▸ buildSteps_nodup
    have horder := Pending.acquired_inOrder h.inOrder hacquires
    refine ⟨hinv', ?_, fun hunpublished => Or.inr ?_⟩
    · rw [← hbegins] at horder ⊢
      exact horder.loop hrepeatable hnodup hloop
    · have hmarks := hloop.marked hrepeatable .publish
      have hbefore : .publish ∉ before := fun hmem => hunpublished (hmarks.mpr (Or.inr hmem))
      have hacquired : ¬Marked req acquired .publish := fun hold =>
        hunpublished (hmarks.mpr (Or.inl hold))
      have hunderway := h.acquires huninterrupted
        (fun hold => hacquired ((hacquires.marked .publish (by simp)).mpr hold)) hacquires
      refine ⟨?_, loop_enrolled (finalize_after_publish hbegins hbefore) hloop hunderway.enrolled⟩
      have hstanding := hunderway.standing
      rw [← hbegins] at hstanding ⊢
      exact hstanding.loop hrepeatable hnodup hloop
  | @unmarked options before after name _ acquired w₁ _ hacquires hbegins hloop hdue hstep =>
    have hnodup := hbegins.symm ▸ buildSteps_nodup
    have horder := Pending.acquired_inOrder h.inOrder hacquires
    refine ⟨hinv', ?_, fun hunpublished => Or.inr ?_⟩
    · rw [← hbegins] at horder ⊢
      exact (horder.loop hrepeatable hnodup hloop).perform hrepeatable hstep
    · have hmarks := hloop.marked hrepeatable .publish
      have hlater : ¬Marked req w₁ .publish := fun hold =>
        hunpublished ((hrepeatable.perform_marked hstep .publish).mpr hold)
      have hbefore : .publish ∉ before := fun hmem => hlater (hmarks.mpr (Or.inr hmem))
      have hacquired : ¬Marked req acquired .publish := fun hold => hlater (hmarks.mpr (Or.inl hold))
      have hunderway := h.acquires huninterrupted
        (fun hold => hacquired ((hacquires.marked .publish (by simp)).mpr hold)) hacquires
      have hname : name ≠ .finalize := by
        rintro rfl
        have hsplit : (before ++ [.finalize]) ++ after = buildSteps := by
          rw [← hbegins, List.append_assoc]
          rfl
        refine finalize_after_publish hsplit ?_ (by simp)
        simpa using hbefore
      have henrolled := loop_enrolled (finalize_after_publish hbegins hbefore) hloop hunderway.enrolled
      refine ⟨?_, Performed.enrolled hname henrolled hstep⟩
      have hstanding := hunderway.standing
      rw [← hbegins] at hstanding ⊢
      exact hstanding.effect hrepeatable hnodup hloop hdue hstep

theorem Interrupted.pending (huninterrupted : Uninterrupted svc req w₀ u)
    (h : Interrupted svc req w₀ w) : Pending svc req w₀ u w := by
  induction h with
  | start =>
    refine ⟨huninterrupted.invariant, ?_, fun _ => Or.inl ⟨w₀.clock, rfl⟩⟩
    refine List.Pairwise.imp_of_mem ?_ (List.pairwise_of_forall fun _ _ => trivial)
    exact fun _ hsecond _ hmarked => absurd hmarked (huninterrupted.fresh _ hsecond)
  | @tick w clock _ ih =>
    refine ⟨ih.invariant, ih.inOrder, fun hunpublished => ?_⟩
    rcases ih.unpublished hunpublished with ⟨other, rfl⟩ | hunderway
    · exact Or.inl ⟨clock, rfl⟩
    · have hstanding : (markedSteps svc req).Standing u buildSteps { w with clock } := by
        refine MarkedSteps.Standing.congr (fun name _ => ?_) (fun _ hsame => ?_) hunderway.standing
        · exact Iff.rfl
        · exact ⟨hsame.documents, hsame.chunks, hsame.vectors, hsame.parents, hsame.replaced⟩
      exact Or.inr ⟨hstanding, hunderway.enrolled.congr rfl rfl rfl⟩
  | attempt _ hattempt ih =>
    obtain ⟨hcut, hinv'⟩ := hattempt.cutOff ih.invariant
    exact ih.cutOff huninterrupted hcut hinv'

end Progress

section Reports

/-- A run that published has chunked the content, and its finalization reports that. -/
theorem BuildRun.reports {start finish : JobState × World} (run : BuildRun svc req start finish)
    (hpublish : ¬Marked req start.2 .publish) (hfinalize : ¬Marked req start.2 .finalize)
    (hjob : ∃ job, start.2.metadata.jobRow req.jobId = some job ∧ job.status = .running) :
    Filled svc req finish.1 ∧
      jobReport finish.2.metadata req.jobId = some (some (finalManifest svc req finish.1),
        finish.1.parentsList.length, finish.1.childrenList.length) := by
  obtain ⟨-, -, -, -, hpublishDue, hfinalizeDue⟩ := run.due
  obtain ⟨job, hjob, -⟩ := hjob
  have hfilled : Filled svc req run.published.1 := by
    rcases run.publish.cases with ⟨hmarked, -⟩ | ⟨-, w₁, hstep, -⟩
    · exact absurd (hpublishDue.mp hmarked) hpublish
    · exact (stepPublish_finishes run.committed_passes.1 hstep).1
  rcases run.finalize.cases with ⟨hmarked, -⟩ | ⟨-, w₁, hstep, ⟨steps, hstores⟩, -⟩
  · exact absurd (hfinalizeDue.mp hmarked) hfinalize
  · obtain ⟨hsame, rfl⟩ := stepFinalize_finishes hstep
    rw [hsame]
    refine ⟨hfilled, ?_⟩
    have hbefore : Table.selectOne (fun row : JobRow => decide (row.jobId = req.jobId))
        run.published.2.metadata.jobs = some job := by
      rw [run.jobs_before]
      exact hjob
    have hid : job.jobId = req.jobId := (jobRow_mem hjob).2
    rw [hstores]
    unfold jobReport jobRow
    rw [Table.selectOne_update, hbefore]
    · simp [hid]
    · intro row _
      split <;> rfl

theorem Filled.finalManifest_eq {me₀ : JobState} (h : Filled svc req me) (h₀ : Filled svc req me₀) :
    finalManifest svc req me = finalManifest svc req me₀ := by
  obtain ⟨hparents, hchildren⟩ := h.same_lists h₀
  unfold finalManifest
  rw [h.parsedHash, h₀.parsedHash, hparents, hchildren]

theorem Performs.skipped {name : Step} {start before after : JobState × World}
    (h : Performs svc req name before after) (hbefore : before = start)
    (hmarked : Marked req start.2 name) : after = start := by
  rcases h.cases with ⟨-, hsame⟩ | ⟨hdue, -⟩
  · exact hsame.trans hbefore
  · exact absurd (hbefore ▸ hmarked) hdue

/-- A run that finds everything published chunks nothing. -/
theorem BuildRun.unchunked {start finish : JobState × World} (run : BuildRun svc req start finish)
    (hempty : start.1.parentsList = [] ∧ start.1.childrenList = [])
    (hdone : ∀ name ∈ buildSteps.dropLast, Marked req start.2 name) :
    finish.1.parentsList = [] ∧ finish.1.childrenList = [] := by
  have h₁ : run.parsed = start := run.parse.skipped rfl (hdone _ (by decide))
  have h₂ : run.chunked = start := run.chunk.skipped h₁ (hdone _ (by decide))
  have h₃ : run.written = start := run.writeParents.skipped h₂ (hdone _ (by decide))
  have h₄ : run.uploaded = start := run.writeQdrant.skipped h₃ (hdone _ (by decide))
  have h₅ : run.verified = start := run.verify.skipped h₄ (hdone _ (by decide))
  have h₆ : run.committed = start := run.commit.skipped h₅ (hdone _ (by decide))
  have h₇ : run.published = start := run.publish.skipped h₆ (hdone _ (by decide))
  rcases run.finalize.cases with ⟨-, hsame⟩ | ⟨-, w₁, hstep, -⟩
  · rw [hsame, h₇]
    exact hempty
  · rw [(stepFinalize_finishes hstep).1, h₇]
    exact hempty

end Reports

/-- Markers in order: a marked publication comes after all steps before it. -/
theorem marked_before_publish (h : (markedSteps svc req).InOrder buildSteps w)
    (hpublish : Marked req w .publish) : ∀ name ∈ buildSteps.dropLast, Marked req w name := by
  have hsplit : buildSteps =
      [.parse, .chunk, .writeParents, .writeQdrant, .verify, .commit] ++ [.publish, .finalize] := rfl
  rw [MarkedSteps.InOrder, hsplit] at h
  obtain ⟨-, -, hbefore⟩ := List.pairwise_append.mp h
  intro name hname
  have hcases : name ∈ ([.parse, .chunk, .writeParents, .writeQdrant, .verify, .commit] : List Step) ∨
      name = .publish := by
    simp only [buildSteps, List.dropLast, List.mem_cons, List.not_mem_nil, or_false] at hname ⊢
    tauto
  rcases hcases with hearly | rfl
  · exact hbefore name hearly .publish (by simp) hpublish
  · exact hpublish

/-- While the publication is due, so is the finalization. -/
theorem unmarked_after_publish (h : (markedSteps svc req).Standing final buildSteps w)
    (hpublish : ¬Marked req w .publish) : ¬Marked req w .finalize := by
  have hsplit : buildSteps =
      [.parse, .chunk, .writeParents, .writeQdrant, .verify, .commit] ++ [.publish, .finalize] := rfl
  rw [hsplit] at h
  exact h.later_due hpublish .finalize (by simp)

/-- The parts of a run that built the version. -/
theorem Built.parts (h : Built svc req options result w w') :
    ∃ acquired me me', Acquires svc req options w acquired ∧ me.parentsList = [] ∧
      me.childrenList = [] ∧ Nonempty (BuildRun svc req (me, acquired) (me', w')) ∧
      result = { status := .indexed, parentCount := me'.parentsList.length,
                 childCount := me'.childrenList.length, errorCode := none } := by
  obtain ⟨document, claimed, m, acquired, me', hdocument, htxn, hmark, hrun, hresult⟩ := h.run
  exact ⟨acquired, _, me', acquires_marked hdocument htxn hmark, rfl, rfl, hrun, hresult⟩

/-- A run from the start is the ingestion that is never interrupted. -/
theorem uninterrupted_of_run (hinv : LifecycleInvariant w₀.metadata)
    (hfresh : ∀ name ∈ buildSteps, ¬Marked req w₀ name)
    (hbuilt : Built svc req options result w₀ u) : Uninterrupted svc req w₀ u := by
  obtain ⟨acquired, me, me', hacquires, -, -, ⟨run⟩, -⟩ := hbuilt.parts
  have hrepeatable := markedSteps_repeatable svc req
  refine ⟨hinv, ?_, hfresh, options, acquired, hacquires, ?_⟩
  · intro row hrow href hdeprecated
    refine hbuilt.admits.built.mpr ⟨row, ?_, Or.inr hdeprecated⟩
    exact href ▸ Table.selectOne_of_key hinv.keys hrow
  · refine (run.loop (hacquires.invariant hinv)).undisturbed hrepeatable buildSteps_nodup ?_
    intro name hname hmarked
    exact hfresh name hname ((hacquires.marked name (acquire_notin hname)).mp hmarked)

/-- A run that succeeds answers that the version is there already, or builds it. -/
theorem runBody_succeeded (hrun : Finishes (runBody svc req options) initial w result me w')
    (hsucceeded : result.status = .indexed ∨ result.status = .alreadyIndexed) :
    (Admits svc req w True ∧ result = .plain .alreadyIndexed none) ∨
      Built svc req options result w w' := by
  rcases runBody_finishes hrun with ⟨hadmits, h⟩ | ⟨hadmits, h⟩
  · simp only [shortCircuitAlreadyIndexed, completes_bind, finishes_read, completes_ite,
      finishes_raise, and_false, false_or, completes_pure] at h
    obtain ⟨identity, t₁, w₁, -, -, status, t₂, w₂, -, h⟩ := h
    rcases h with ⟨-, _, t₃, w₃, -, hresult, -⟩ | ⟨-, hresult, -⟩
    · exact Or.inl ⟨hadmits, hresult⟩
    · exact Or.inl ⟨hadmits, hresult⟩
  · rcases guardedBuild_outcome hadmits h with hbuilt | ⟨hstatus, -⟩ | ⟨e, t₁, w₁, -, hexception⟩
    · exact Or.inr hbuilt
    · simp [hstatus] at hsucceeded
    · rcases onException_finishes hexception with hstatus | hstatus <;> simp [hstatus] at hsucceeded

/-- A pending ingestion that is admitted has not been built. -/
theorem Pending.admits_false (hbuilt : ¬∃ row, w₀.metadata.documentRow req.ref = some row ∧
      AlreadyBuilt w₀.metadata row)
    (h : Pending svc req w₀ u w) (hunpublished : ¬Marked req w .publish)
    (hadmits : Admits svc req w True) : False := by
  obtain ⟨row, hrow, halready⟩ := hadmits.built.mp trivial
  rcases h.unpublished hunpublished with ⟨clock, rfl⟩ | hunderway
  · exact hbuilt ⟨row, hrow, halready⟩
  · obtain ⟨hmem, href⟩ := documentRow_mem hrow
    rcases halready with ⟨-, owner, howner, -, hsucceeded⟩ | hdeprecated
    · rw [href, hunderway.enrolled.owner] at howner
      obtain rfl := Option.some.inj howner
      obtain ⟨job, hjob, hrunning⟩ := hunderway.enrolled.job
      simp [getJobStatus, hjob, hrunning] at hsucceeded
    · exact (hunderway.enrolled.columns row hmem href).1 hdeprecated

/-- However often the ingestion of a request was interrupted, the attempt that succeeds ends
like an ingestion that was never interrupted if it still had to publish, and otherwise it
does not, unless the content has no chunks. -/
theorem interrupted_run_agrees (svc : Services) (req : IngestionRequest)
    {options₀ options : RunOptions} {result₀ result : IngestionResult} {me₀ me : JobState}
    {w₀ w w' u : World} (hreachable : ReachableStores svc w₀)
    (hfresh : ∀ name ∈ buildSteps, ¬Marked req w₀ name)
    (huninterrupted : Finishes (runBody svc req options₀) initial w₀ result₀ me₀ u)
    (hindexed : result₀.status = .indexed) (hattempts : Interrupted svc req w₀ w)
    (hrun : Finishes (runBody svc req options) initial w result me w')
    (hsucceeded : result.status = .indexed ∨ result.status = .alreadyIndexed) :
    (¬Marked req w .publish → SameOutcome req result result₀ w' u) ∧
      (svc.chunkMarkdown req.content req.ref ≠ .ok ([], []) →
        SameOutcome req result result₀ w' u → ¬Marked req w .publish) := by
  have hinv := hreachable.invariant.lifecycle
  have hbuilt₀ : Built svc req options₀ result₀ w₀ u := by
    rcases runBody_succeeded huninterrupted (Or.inl hindexed) with ⟨-, rfl⟩ | hbuilt
    · simp [IngestionResult.plain] at hindexed
    · exact hbuilt
  have hbase := uninterrupted_of_run hinv hfresh hbuilt₀
  have hpending := hattempts.pending hbase
  obtain ⟨acquired₀, start₀, finish₀, hacquires₀, -, -, ⟨run₀⟩, rfl⟩ := hbuilt₀.parts
  have hunmarked₀ : ∀ name ∈ buildSteps, ¬Marked req acquired₀ name := fun name hname hmarked =>
    hfresh name hname ((hacquires₀.marked name (acquire_notin hname)).mp hmarked)
  obtain ⟨hfilled₀, hreport₀⟩ := run₀.reports (hunmarked₀ _ (by decide)) (hunmarked₀ _ (by decide))
    (hacquires₀.enrolled hinv hbase.current).job
  constructor
  · intro hunpublished
    rcases runBody_succeeded hrun hsucceeded with ⟨hadmits, -⟩ | hbuilt
    · exact (hpending.admits_false (fun h => hbuilt₀.admits.built.mpr h) hunpublished hadmits).elim
    obtain ⟨acquired, start, finish, hacquires, -, -, ⟨run⟩, rfl⟩ := hbuilt.parts
    obtain ⟨hstanding, henrolled⟩ := hpending.acquires hbase hunpublished hacquires
    have hagrees : SameArtifacts req w' u :=
      hstanding.agrees (markedSteps_repeatable svc req) buildSteps_nodup
        (run.loop (hacquires.invariant hpending.invariant))
    have hpublish : ¬Marked req acquired .publish := fun hmarked =>
      hunpublished ((hacquires.marked .publish (by simp)).mp hmarked)
    have hfinalize : ¬Marked req acquired .finalize := unmarked_after_publish hstanding hpublish
    obtain ⟨hfilled, hreport⟩ := run.reports hpublish hfinalize henrolled.job
    obtain ⟨hparents, hchildren⟩ := hfilled.same_lists hfilled₀
    refine ⟨hagrees.documents, hagrees.chunks, hagrees.vectors, hagrees.parents, ?_, ?_, ?_⟩
    · rw [hreport, hreport₀, hfilled.finalManifest_eq hfilled₀, hparents, hchildren]
    · exact congrArg List.length hparents
    · exact congrArg List.length hchildren
  · intro hcontent hsame hpublished
    have hempty : result.parentCount = 0 ∧ result.childCount = 0 := by
      rcases runBody_succeeded hrun hsucceeded with ⟨-, rfl⟩ | hbuilt
      · exact ⟨rfl, rfl⟩
      · obtain ⟨acquired, start, finish, hacquires, hparents, hchildren, ⟨run⟩, rfl⟩ := hbuilt.parts
        have hdone := marked_before_publish
          (Pending.acquired_inOrder hpending.inOrder hacquires)
          ((hacquires.marked .publish (by simp)).mpr hpublished)
        obtain ⟨hnoParents, hnoChildren⟩ := run.unchunked ⟨hparents, hchildren⟩ hdone
        exact ⟨congrArg List.length hnoParents, congrArg List.length hnoChildren⟩
    have hnoParents : finish₀.parentsList.length = 0 := hsame.parentCount.symm.trans hempty.1
    have hnoChildren : finish₀.childrenList.length = 0 := hsame.childCount.symm.trans hempty.2
    apply hcontent
    rw [hfilled₀.chunks, List.length_eq_zero_iff.mp hnoParents, List.length_eq_zero_iff.mp hnoChildren]

/-! One text, stopped after some of its steps and then recovered. -/

private def textRequest : IngestionRequest := Sample.request "job-1" "v1" "text"

private def textAcquired : (Except PyError Unit × JobState) × World :=
  (stepAcquire Sample.services textRequest (Sample.attempt "a") initial).exec StoreOp.eval
    Sample.world

/-- The process died between two steps. -/
private def stoppedAfter (steps : List Step) : (Except PyError Unit × JobState) × World :=
  (forEach steps (runStep Sample.services textRequest) textAcquired.1.2).exec StoreOp.eval
    textAcquired.2

private def recoverFrom (w : World) : (Except PyError IngestionResult × JobState) × World :=
  (runBody Sample.services textRequest (Sample.recovery "b") initial).exec StoreOp.eval w

private theorem recoverFrom_finishes {w : World} {result : IngestionResult}
    (h : (recoverFrom w).1.1 = .ok result) :
    Finishes (runBody Sample.services textRequest (Sample.recovery "b")) initial w result
      (recoverFrom w).1.2 (recoverFrom w).2 :=
  finishes_exec h

private theorem world_reachable : ReachableStores Sample.services Sample.world :=
  ⟨Sample.world, _, rfl, rfl, rfl, .refl, rfl⟩

private theorem world_unmarked : ∀ name ∈ buildSteps, ¬Marked textRequest Sample.world name := by
  decide

private theorem stoppedAfter_interrupted {steps after : List Step}
    (hsteps : steps ++ after = buildSteps) (hstopped : (stoppedAfter steps).1.1 = .ok ()) :
    Interrupted Sample.services textRequest Sample.world (stoppedAfter steps).2 := by
  have hacquired : textAcquired.1.1 = .ok () := by decide +kernel
  have hacquire : Finishes (stepAcquire Sample.services textRequest (Sample.attempt "a")) initial
      Sample.world () textAcquired.1.2 textAcquired.2 := finishes_exec hacquired
  have hnone : Sample.world.metadata.documentRow textRequest.ref = none := by decide
  have hadmits : Admits Sample.services textRequest Sample.world False :=
    ⟨by decide, by simp [hnone], by simp [hnone]⟩
  have hplanned : stepsUpTo (Sample.attempt "a").maxStep = steps ++ after := hsteps.symm
  exact .attempt .start (.between hadmits hplanned hacquire (finishes_exec hstopped))

/-- A process dies after publishing; the recovery reports and stores counts of zero. -/
theorem interrupted_run_agrees_counterexample :
    ∃ w w' u result result₀ me me₀, ReachableStores Sample.services Sample.world ∧
      (∀ name ∈ buildSteps, ¬Marked textRequest Sample.world name) ∧
      Finishes (runBody Sample.services textRequest (Sample.recovery "b")) initial Sample.world
        result₀ me₀ u ∧ result₀.status = .indexed ∧
      Interrupted Sample.services textRequest Sample.world w ∧
      Finishes (runBody Sample.services textRequest (Sample.recovery "b")) initial w result me w' ∧
      result.status = .indexed ∧ ¬SameOutcome textRequest result result₀ w' u := by
  have hstopped : (stoppedAfter buildSteps.dropLast).1.1 = .ok () := by decide +kernel
  have hrecovered : (recoverFrom (stoppedAfter buildSteps.dropLast).2).1.1 =
      .ok { status := .indexed, parentCount := 0, childCount := 0, errorCode := none } := by
    decide +kernel
  have hwhole : (recoverFrom Sample.world).1.1 =
      .ok { status := .indexed, parentCount := 1, childCount := 1, errorCode := none } := by
    decide +kernel
  refine ⟨_, _, _, _, _, _, _, world_reachable, world_unmarked, recoverFrom_finishes hwhole, rfl,
    stoppedAfter_interrupted rfl hstopped, recoverFrom_finishes hrecovered, rfl, ?_⟩
  intro hsame
  exact absurd hsame.parentCount (by decide)

/-- A process that dies before publishing is recovered completely. -/
theorem interrupted_run_agrees_unpublished :
    SameOutcome textRequest
      { status := .indexed, parentCount := 1, childCount := 1, errorCode := none }
      { status := .indexed, parentCount := 1, childCount := 1, errorCode := none }
      (recoverFrom (stoppedAfter [.parse, .chunk, .writeParents, .writeQdrant]).2).2
      (recoverFrom Sample.world).2 := by
  have hstopped : (stoppedAfter [.parse, .chunk, .writeParents, .writeQdrant]).1.1 = .ok () := by
    decide +kernel
  have hrecovered : (recoverFrom (stoppedAfter [.parse, .chunk, .writeParents, .writeQdrant]).2).1.1 =
      .ok { status := .indexed, parentCount := 1, childCount := 1, errorCode := none } := by
    decide +kernel
  have hwhole : (recoverFrom Sample.world).1.1 =
      .ok { status := .indexed, parentCount := 1, childCount := 1, errorCode := none } := by
    decide +kernel
  have hunpublished : ¬Marked textRequest
      (stoppedAfter [.parse, .chunk, .writeParents, .writeQdrant]).2 .publish := by
    decide +kernel
  exact (interrupted_run_agrees Sample.services textRequest world_reachable
    world_unmarked (recoverFrom_finishes hwhole) rfl (stoppedAfter_interrupted rfl hstopped)
    (recoverFrom_finishes hrecovered) (Or.inl rfl)).1 hunpublished

end AgenticRag.IngestionJob
