import AgenticRag.Ingestion.IndexedVersion

/-!
# Updates that name their version by its content

`DocumentManager.update` without an explicit version takes the hash of the content as the
version. Submitting content again names a version that may exist already, and which of the
early exits it takes depends on what became of that version since.
-/

namespace AgenticRag

open MetadataStore StoreProgram Method IngestionJob

/-- The active version of the document has this content hash. -/
def MetadataStore.ActiveContent (s : MetadataStore) (doc : DocRef) (hash : String) : Prop :=
  ∃ row ∈ s.documents, row.ref.doc = doc ∧ row.status = .active ∧ row.contentHash = hash

/-- The delivery does not switch the active version: its version was superseded before, or
its job has committed it before. -/
def SwitchSkipped (req : IngestionRequest) (w : World) : Prop :=
  (∃ row, w.metadata.documentRow req.ref = some row ∧ row.status = .deprecated) ∨
    Marked req w .commit

section Delivery

variable {svc : Services} {req : IngestionRequest} {options : RunOptions}
  {result : IngestionResult} {w w' : World} {me : JobState}

theorem activeContent_congr {s t : MetadataStore} (h : t.documents = s.documents) (doc : DocRef)
    (hash : String) : t.ActiveContent doc hash ↔ s.ActiveContent doc hash := by
  unfold ActiveContent
  rw [h]

/-- With one active version per document, its content is that of the row found for it. -/
theorem activeContent_iff {s : MetadataStore} (hinv : LifecycleInvariant s) {ref : VersionRef}
    {row : DocumentRow} (hrow : row ∈ s.documents) (href : row.ref = ref)
    (hactive : s.getActiveVersion ref.doc = some ref.version) (hash : String) :
    s.ActiveContent ref.doc hash ↔ row.contentHash = hash := by
  obtain ⟨found, hfound, hfoundRef, hstatus⟩ := getActiveVersion_some hactive
  obtain rfl : found = row := hinv.keys.eq_of_key hfound hrow (hfoundRef.trans href.symm)
  constructor
  · rintro ⟨other, hother, hdoc, hotherActive, hhash⟩
    have hsame := hinv.oneActive other hother found hfound hotherActive hstatus
      (by rw [hdoc, hfoundRef])
    rw [← hsame]
    exact hhash
  · intro hhash
    exact ⟨found, hfound, by rw [hfoundRef], hstatus, hhash⟩

/-- After a complete delivery that was accepted, the submitted content is active exactly if
the switch took place or it was active already. -/
theorem delivery_activates (hinv : LifecycleInvariant w.metadata) (hfull : options.maxStep = none)
    (hrun : Finishes (runBody svc req options) initial w result me w')
    (hstatus : result.status = .indexed ∨ result.status = .alreadyIndexed) :
    w'.metadata.ActiveContent req.ref.doc (rawHash svc req) ↔
      (SwitchSkipped req w → w.metadata.ActiveContent req.ref.doc (rawHash svc req)) := by
  rcases runBody_finishes hrun with ⟨hadmits, h⟩ | ⟨hadmits, h⟩
  · rw [activeContent_congr (shortCircuit_finishes h).2]
    obtain ⟨row, hrow, hbuilt⟩ := hadmits.built.mp trivial
    obtain ⟨hmem, href⟩ := documentRow_mem hrow
    rcases hbuilt with ⟨hactive, -⟩ | hdeprecated
    · have hcontent : w.metadata.ActiveContent req.ref.doc (rawHash svc req) :=
        ⟨row, hmem, by rw [href], hactive, hadmits.content row hrow⟩
      exact iff_of_true hcontent fun _ => hcontent
    · have hskipped : SwitchSkipped req w := Or.inl ⟨row, hrow, hdeprecated⟩
      simp only [hskipped, forall_const]
  · have hbuilt : Built svc req options result w w' := by
      rcases guardedBuild_finishes hfull hadmits h with hbuilt | hfailed | hfailed
      · exact hbuilt
      · simp [hfailed] at hstatus
      · simp [hfailed] at hstatus
    obtain ⟨acquired, me₀, me', hacquired, ⟨run⟩⟩ := hbuilt.acquired hinv
    by_cases hmarked : Marked req w .commit
    · have hsame := run.documents_skipped ((hacquired.marked .commit (by simp)).mpr hmarked)
      have hskipped : SwitchSkipped req w := Or.inr hmarked
      simp only [hskipped, forall_const]
      rw [activeContent_congr hsame]
      unfold ActiveContent
      constructor
      · rintro ⟨row, hrow, hdoc, hactive, hhash⟩
        exact ⟨row, (hacquired.activeRows row hactive).mp hrow, hdoc, hactive, hhash⟩
      · rintro ⟨row, hrow, hdoc, hactive, hhash⟩
        exact ⟨row, (hacquired.activeRows row hactive).mpr hrow, hdoc, hactive, hhash⟩
    · have hnot : ¬SwitchSkipped req w := by
        rintro (⟨row, hrow, hdeprecated⟩ | hmark)
        · exact hadmits.built.mpr ⟨row, hrow, Or.inr hdeprecated⟩
        · exact hmarked hmark
      simp only [hnot, false_implies, iff_true]
      have hactive := (run.active hacquired.invariant).mpr
        fun hmark => absurd ((hacquired.marked .commit (by simp)).mp hmark) hmarked
      obtain ⟨row, hrow, href, -⟩ := getActiveVersion_some hactive
      refine (activeContent_iff (run.invariant hacquired.invariant) hrow href hactive _).mpr ?_
      refine run.content (hacquired.content _ rfl ?_) row hrow href
      intro old hold holdRef
      exact hadmits.content old (holdRef ▸ Table.selectOne_of_key hinv.keys hold)

end Delivery

/-- Stores stay reachable when a job runs on its own, however it ends. -/
theorem ReachableStores.runBody {svc : Services} {w w' : World} (hw : ReachableStores svc w)
    {req : IngestionRequest} {options : RunOptions} {r : Except PyError IngestionResult}
    {me : JobState} (hrun : (runBody svc req options).Ends StoreOp.Outcome initial w r me w') :
    ReachableStores svc w' := by
  obtain ⟨w₀, P, hdocuments, hjobs, hsteps, hreaches, rfl⟩ := hw
  refine ⟨w₀, ⟨w', P.threads⟩, hdocuments, hjobs, hsteps, hreaches.trans ?_, rfl⟩
  exact System.reaches_of_runs (S := lifecycleSystem svc) (i := .ingest req options) trivial
    (Method.runs_launch hrun)

theorem ReachableStores.tick {svc : Services} {w : World} (hw : ReachableStores svc w)
    (clock : Timestamp) : ReachableStores svc { w with clock } := by
  obtain ⟨w₀, P, hdocuments, hjobs, hsteps, hreaches, rfl⟩ := hw
  exact ⟨w₀, ⟨_, P.threads⟩, hdocuments, hjobs, hsteps,
    hreaches.tail ⟨.env, .env ⟨clock, rfl⟩, trivial⟩, rfl⟩

namespace DocumentManager

variable {svc : Services} {ctx : SecurityContext} {corpusId documentId : String} {args : UpdateArgs}
  {w w' : World}

/-- The request an update makes for a document. -/
structure Requests (svc : Services) (doc : DocRef) (args : UpdateArgs) (req : IngestionRequest) :
    Prop where
  ref : req.ref = ⟨doc, args.version svc⟩
  content : req.content = args.content
  jobId : req.jobId = args.jobId

/-- The document an update writes: it is of the caller's tenant unless `**meta` names one. -/
def UpdateArgs.document (args : UpdateArgs) (ctx : SecurityContext) (corpusId documentId : String) : DocRef :=
  ⟨args.tenantId.getD ctx.tenantId, corpusId, documentId⟩

/-- An update that resolved the active version runs a job for its request; anything else
leaves the stores alone. -/
theorem update_ends {r : Except PyError IngestionResult}
    (h : (update svc ctx corpusId documentId args).Ends StoreOp.Outcome () w r () w') :
    (w' = w ∧ ∃ e, r = .error e) ∨
      ∃ req options me, Requests svc (args.document ctx corpusId documentId) args req ∧
        options.maxStep = none ∧ (runBody svc req options).Ends StoreOp.Outcome initial w r me w' := by
  rcases ends_bind.mp h with ⟨document, t₁, w₁, hresolve, hingest⟩ | ⟨e, hr, hresolve⟩
  · simp only [resolveActive, completes_bind, finishes_tryRead] at hresolve
    obtain ⟨found, t₂, w₂, ⟨hfound, -, rfl⟩, hresolve⟩ := hresolve
    cases found with
    | none => simp at hresolve
    | some active =>
      simp only [completes_ite, completes_pure, finishes_raise, and_false, or_false] at hresolve
      obtain ⟨-, rfl, -, rfl⟩ := hresolve
      obtain ⟨row, hrow, hcolumns⟩ := readDocument_some hfound
      have hdoc : document.ref.doc = ⟨ctx.tenantId, corpusId, documentId⟩ := by
        have href : document.ref = row.ref := congrArg DocumentColumns.ref hcolumns
        have hof := (Table.selectOne_some hrow).2
        simp only [activeOf, ofDoc, Bool.and_eq_true, decide_eq_true_eq] at hof
        rw [href]
        exact hof.1
      have href : (⟨⟨args.tenantId.getD document.ref.doc.tenantId, corpusId, documentId⟩,
          args.version svc⟩ : VersionRef) = ⟨args.document ctx corpusId documentId, args.version svc⟩ := by
        rw [hdoc]
        rfl
      unfold ingest at hingest
      split at hingest
      · obtain ⟨-, me, hrun⟩ := ends_onObject.mp hingest
        exact Or.inr ⟨_, _, me, ⟨href, rfl, rfl⟩, rfl, hrun⟩
      · refine Or.inl ⟨ends_raise hingest, ?_⟩
        cases r with
        | ok result => exact absurd (finishes_raise.mp hingest) not_false
        | error e => exact ⟨e, rfl⟩
  · refine Or.inl ⟨?_, e, hr⟩
    rcases ends_bind.mp hresolve with ⟨found, ⟨⟩, w₁, hread, hrest⟩ | ⟨e', -, hread⟩
    · obtain rfl : w₁ = w := ends_tryRead hread
      cases found with
      | none => exact ends_raise hrest
      | some active =>
        dsimp only at hrest
        split at hrest
        · exact hrest.2
        · exact ends_raise hrest
    · exact ends_tryRead hread

/-- Any number of updates by any callers, of the documents of one corpus and document id and
without an explicit version, one after the other, each of which returned or raised; the clock
moves on its own. -/
inductive UpdateHistory (svc : Services) (doc : DocRef) : World → World → Prop
  | start (w : World) : UpdateHistory svc doc w w
  | tick {w₀ w : World} (clock : Timestamp) (h : UpdateHistory svc doc w₀ w) :
      UpdateHistory svc doc w₀ { w with clock }
  | call {w₀ w w' : World} (ctx : SecurityContext) (args : UpdateArgs)
      {r : Except PyError IngestionResult} (h : UpdateHistory svc doc w₀ w)
      (hversion : args.documentVersion = none)
      (hcall : (update svc ctx doc.corpusId doc.documentId args).Ends StoreOp.Outcome () w r () w') :
      UpdateHistory svc doc w₀ w'

theorem UpdateHistory.reachable {doc : DocRef} {w₀ w : World}
    (h : UpdateHistory svc doc w₀ w) (hw₀ : ReachableStores svc w₀) : ReachableStores svc w := by
  induction h with
  | start => exact hw₀
  | tick clock _ ih => exact ih.tick clock
  | call ctx args _ _ hcall ih =>
    rcases update_ends hcall with ⟨rfl, -⟩ | ⟨req, options, me, -, -, hrun⟩
    · exact ih
    · exact ih.runBody hrun

/-- The submitted content names a version that was superseded before, or one that this job
has committed before. -/
def SkipsSwitch (svc : Services) (doc : DocRef) (args : UpdateArgs) (w : World) : Prop :=
  (∃ row, w.metadata.documentRow ⟨doc, svc.sha256 args.content⟩ = some row ∧
      row.status = .deprecated) ∨
    w.metadata.isStepDone args.jobId .commit = true

/-- After any sequence of updates, one that returns `indexed` or `already_indexed` leaves a
version with the submitted content active exactly if it switches to it, or one was active. The
sequence starts in any reachable stores; `doc` is the document whose update returned. -/
theorem update_activates_content (svc : Services) (doc : DocRef) {w₀ w w' : World}
    (hreachable : ReachableStores svc w₀) (hhistory : UpdateHistory svc doc w₀ w)
    (ctx : SecurityContext) (args : UpdateArgs)
    (htenant : args.tenantId.getD ctx.tenantId = doc.tenantId)
    (hversion : args.documentVersion = none) {result : IngestionResult}
    (hcall : Finishes (update svc ctx doc.corpusId doc.documentId args) () w result () w')
    (hstatus : result.status = .indexed ∨ result.status = .alreadyIndexed) :
    w'.metadata.ActiveContent doc (svc.sha256 args.content) ↔
      (SkipsSwitch svc doc args w → w.metadata.ActiveContent doc (svc.sha256 args.content)) := by
  have hinv := (hhistory.reachable hreachable).invariant.lifecycle
  rcases update_ends hcall with ⟨-, e, he⟩ | ⟨req, options, me, hrequests, hfull, hrun⟩
  · simp at he
  have hdelivery := delivery_activates hinv hfull hrun hstatus
  have href : req.ref = ⟨doc, svc.sha256 args.content⟩ := by
    rw [hrequests.ref, UpdateArgs.document, htenant]
    simp [UpdateArgs.version, hversion]
  have hhash : rawHash svc req = svc.sha256 args.content := by
    unfold rawHash
    rw [hrequests.content]
  have hskips : SwitchSkipped req w ↔ SkipsSwitch svc doc args w := by
    unfold SwitchSkipped SkipsSwitch Marked
    rw [href, hrequests.jobId]
  rw [href, hhash, hskips] at hdelivery
  exact hdelivery

private def resubmit (jobId content : String) : UpdateArgs where
  content := content
  jobId := jobId
  documentVersion := none
  acl := none
  tenantId := none
  overrides := id
  attemptId := "attempt of " ++ jobId

/-- An update by `root` on its own. -/
private def submit (w : World) (jobId content : String) :
    (Except PyError IngestionResult × Unit) × World :=
  (update Sample.services Sample.admin Sample.doc.corpusId Sample.doc.documentId
    (resubmit jobId content) ()).exec StoreOp.eval w

private theorem submit_finishes {w : World} {jobId content : String} {result : IngestionResult}
    (h : (submit w jobId content).1.1 = .ok result) :
    Finishes (update Sample.services Sample.admin Sample.doc.corpusId Sample.doc.documentId
      (resubmit jobId content)) () w result () (submit w jobId content).2 :=
  finishes_exec h

/-- The text `one` was ingested. -/
private def ingested : World :=
  ((lifecycleMachine Sample.services).play ⟨Sample.world, []⟩
    (.spawn (.ingest (Sample.request "job-1" "#one" "one") (Sample.attempt "a")) ::
      advance 0 60)).store

private theorem ingested_reachable : ReachableStores Sample.services ingested :=
  ⟨Sample.world, _, rfl, rfl, rfl, (lifecycleMachine Sample.services).play_reaches _ _, rfl⟩

private theorem UpdateHistory.submit {w : World}
    (h : UpdateHistory Sample.services Sample.doc ingested w) (jobId content : String) :
    UpdateHistory Sample.services Sample.doc ingested (submit w jobId content).2 :=
  .call Sample.admin (resubmit jobId content) h rfl
    (ends_exec fun _ _ => Or.inl rfl)

/-- The text is changed and put back: the second update reports it as indexed already while
the text before it stays active. -/
theorem update_activates_content_counterexample :
    ∃ w₀ w result w', ReachableStores Sample.services w₀ ∧
      UpdateHistory Sample.services Sample.doc w₀ w ∧
      Finishes (update Sample.services Sample.admin Sample.doc.corpusId Sample.doc.documentId
        (resubmit "job-3" "one")) () w result () w' ∧
      result.status = .alreadyIndexed ∧
      ¬w'.metadata.ActiveContent Sample.doc (Sample.services.sha256 "one") := by
  have hresult : (submit (submit ingested "job-2" "two").2 "job-3" "one").1.1 =
      .ok { status := .alreadyIndexed, parentCount := 0, childCount := 0, errorCode := none } := by
    decide +kernel
  have hactive : ∀ row ∈ (submit (submit ingested "job-2" "two").2 "job-3" "one").2.metadata.documents,
      row.status = .active → row.contentHash ≠ Sample.services.sha256 "one" := by
    decide +kernel
  refine ⟨ingested, _, _, _, ingested_reachable,
    (UpdateHistory.start ingested).submit "job-2" "two", submit_finishes hresult, rfl, ?_⟩
  rintro ⟨row, hrow, -, hstatus, hhash⟩
  exact hactive row hrow hstatus hhash

/-- The first change of the text. -/
theorem update_activates_content_first :
    (submit ingested "job-2" "two").2.metadata.ActiveContent Sample.doc
      (Sample.services.sha256 "two") := by
  have hresult : (submit ingested "job-2" "two").1.1 =
      .ok { status := .indexed, parentCount := 1, childCount := 1, errorCode := none } := by
    decide +kernel
  apply (update_activates_content Sample.services Sample.doc ingested_reachable (.start ingested)
    Sample.admin (resubmit "job-2" "two") rfl rfl (submit_finishes hresult) (Or.inl rfl)).mpr
  rintro (⟨row, hrow, -⟩ | hmarked)
  · have hnone : ingested.metadata.documentRow
        ⟨Sample.doc, Sample.services.sha256 "two"⟩ = none := by decide +kernel
    have hsome := hnone.symm.trans hrow
    simp at hsome
  · have hunmarked : ingested.metadata.isStepDone "job-2" .commit = false := by decide +kernel
    have hboth := hunmarked.symm.trans hmarked
    simp at hboth

end DocumentManager

end AgenticRag
