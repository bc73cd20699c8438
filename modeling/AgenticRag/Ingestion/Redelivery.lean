import AgenticRag.Ingestion.IndexedVersion
import AgenticRag.Storage.BuildLease

/-!
# Delivering a request again

A request that has succeeded is answered from the control plane: the version is active
and its build is owned by a job that has succeeded, so nothing is built. The answer
still marks the job of the delivery as succeeded, with the default counts of
`mark_job_terminal`: under the original job id it overwrites the parent and child counts
of the original job with 0.
-/

namespace AgenticRag.IngestionJob

open MetadataStore StoreProgram Method

variable {svc : Services} {req : IngestionRequest} {w w' w'' : World}

section Success

/-- The version is active, and its build is owned by the job, which has succeeded. -/
structure Succeeded (svc : Services) (req : IngestionRequest) (w : World) : Prop where
  row : ∃ row, w.metadata.documentRow req.ref = some row ∧ row.status = .active ∧
    row.contentHash = rawHash svc req
  lease : ∃ lease, w.metadata.buildRow req.ref = some lease ∧ lease.ownerJobId = req.jobId ∧
    lease.status = .done
  job : w.metadata.getJobStatus req.jobId = some .succeeded
  named : req.jobId ≠ ""

theorem BuildRun.builds_before {start finish : JobState × World} (run : BuildRun svc req start finish) :
    run.published.2.metadata.builds = start.2.metadata.builds := by
  rw [run.published_passes.2.builds (by simp), run.committed_passes.2.builds (by simp),
    run.verified_passes.2.builds (by simp), run.uploaded_passes.2.builds (by simp),
    run.written_passes.2.builds (by simp), run.chunked_passes.2.builds (by simp),
    run.parsed_passes.2.builds (by simp)]

/-- A lease of the job is done once the job has been finalized. -/
theorem BuildRun.lease_done {start finish : JobState × World} (run : BuildRun svc req start finish)
    (hfinalize : ¬Marked req start.2 .finalize) {lease : BuildRow}
    (hlease : start.2.metadata.buildRow req.ref = some lease) (howner : lease.ownerJobId = req.jobId) :
    finish.2.metadata.buildRow req.ref = some { lease with status := .done } := by
  obtain ⟨-, -, -, -, -, hdue⟩ := run.due
  rcases run.finalize.cases with ⟨hmarked, -⟩ | ⟨-, w₁, hstep, ⟨steps, hstores⟩, -⟩
  · exact absurd (hdue.mp hmarked) hfinalize
  · obtain ⟨-, rfl⟩ := stepFinalize_finishes hstep
    have hfound : Table.selectOne (fun row : BuildRow => decide (row.ref = req.ref))
        run.published.2.metadata.builds = some lease := by
      rw [run.builds_before]
      exact hlease
    rw [hstores]
    simp only [buildRow]
    rw [Table.selectOne_update, hfound]
    · simp [howner]
    · intro row _
      split <;> rfl

/-- A build that leaves the version active and its job succeeded. -/
theorem Built.succeeded {options : RunOptions} {result : IngestionResult}
    (hinv : LifecycleInvariant w.metadata) (h : Built svc req options result w w')
    (hactive : w'.metadata.getActiveVersion req.ref.doc = some req.ref.version)
    (hjob : w'.metadata.getJobStatus req.jobId = some .succeeded) (hnamed : req.jobId ≠ "") :
    Succeeded svc req w' := by
  obtain ⟨document, claimed, m, acquired, me', hdocument, htransaction, ⟨⟨steps, hsteps⟩, -⟩, ⟨run⟩, -⟩ :=
    h.run
  obtain ⟨acquired', me, me'', hacquired, ⟨run'⟩⟩ := h.acquired hinv
  constructor
  · obtain ⟨row, hrow, href, hstatus⟩ := getActiveVersion_some hactive
    have hkeys := (run'.invariant hacquired.invariant).keys
    refine ⟨row, ?_, hstatus, ?_⟩
    · have hfound : documentRow w'.metadata row.ref = some row := Table.selectOne_of_key hkeys hrow
      rwa [href] at hfound
    · refine run'.content (hacquired.content _ rfl fun old hold holdref => ?_) row hrow href
      have hfound : documentRow w.metadata old.ref = some old := Table.selectOne_of_key hinv.keys hold
      rw [holdref] at hfound
      exact h.admits.content old hfound
  · obtain ⟨-, ⟨previous, hlease⟩, -⟩ := acquireJobTransaction_generation htransaction
    have hfinalize : ¬Marked req acquired .finalize := by
      obtain ⟨bound, hbound, hrunning, -⟩ := acquireJobTransaction_job htransaction
      apply (run.job ?_ hrunning).mp hjob
      rw [hsteps]
      exact hbound
    have hheld : acquired.metadata.buildRow req.ref =
        some (leaseFor (acquireArgs svc req options document w) claimed.2 previous) := by
      rw [hsteps]
      exact hlease
    exact ⟨_, run.lease_done hfinalize hheld rfl, rfl, rfl⟩
  · exact hjob
  · exact hnamed

end Success

section Answer

/-- The request under another job id. -/
def again (req : IngestionRequest) (jobId : String) : IngestionRequest := { req with jobId }

/-- The stores after a job has been marked as succeeded with the default counts. -/
def marked (jobId : String) (w : World) : World :=
  { w with metadata := (markJobTerminal jobId .succeeded 0 0 none w.metadata).2 }

/-- What a re-delivery must leave alone. -/
structure Unchanged (req : IngestionRequest) (w w' : World) : Prop where
  documents : w'.metadata.documents = w.metadata.documents
  chunks : w'.metadata.chunks = w.metadata.chunks
  vectors : w'.vectors = w.vectors
  parents : w'.parents = w.parents
  lease : w'.metadata.buildRow req.ref = w.metadata.buildRow req.ref
  job : (w'.metadata.jobRow req.jobId).map (fun job =>
      (job.status, job.parentCount, job.childCount, job.manifest)) =
    (w.metadata.jobRow req.jobId).map fun job =>
      (job.status, job.parentCount, job.childCount, job.manifest)

theorem Unchanged.refl (req : IngestionRequest) (w : World) : Unchanged req w w :=
  ⟨rfl, rfl, rfl, rfl, rfl, rfl⟩

theorem Unchanged.trans (h : Unchanged req w w') (h' : Unchanged req w' w'') : Unchanged req w w'' :=
  ⟨h'.documents.trans h.documents, h'.chunks.trans h.chunks, h'.vectors.trans h.vectors,
    h'.parents.trans h.parents, h'.lease.trans h.lease, h'.job.trans h.job⟩

def CountsZero (req : IngestionRequest) (w : World) : Prop :=
  ∀ job, w.metadata.jobRow req.jobId = some job → job.parentCount = 0 ∧ job.childCount = 0

theorem marked_jobRow (jobId : String) (other : String) (w : World) :
    (marked jobId w).metadata.jobRow other = (w.metadata.jobRow other).map fun row =>
      if row.jobId = jobId then
        { row with status := .succeeded, parentCount := 0, childCount := 0, errorCode := none }
      else row := by
  simp only [marked, markJobTerminal_eq, jobRow]
  rw [Table.selectOne_update]
  · simp
  · intro row _
    split <;> rfl

theorem marked_buildRow (jobId : String) (ref : VersionRef) (w : World) :
    (marked jobId w).metadata.buildRow ref = (w.metadata.buildRow ref).map fun row =>
      if row.ownerJobId = jobId then { row with status := .done } else row := by
  simp only [marked, markJobTerminal_eq, buildRow, terminalLease]
  rw [Table.selectOne_update]
  · simp
  · intro row _
    split <;> rfl

theorem Succeeded.marked (h : Succeeded svc req w) (jobId : String) :
    Succeeded svc req (marked jobId w) := by
  obtain ⟨lease, hlease, howner, hdone⟩ := h.lease
  constructor
  · exact h.row
  · refine ⟨lease, ?_, howner, hdone⟩
    rw [marked_buildRow, hlease]
    simp only [Option.map_some, Option.some.injEq]
    split
    · rw [← hdone]
    · rfl
  · have hjob := h.job
    unfold getJobStatus at hjob ⊢
    rw [marked_jobRow]
    cases hrow : w.metadata.jobRow req.jobId with
    | none => simp [hrow] at hjob
    | some row =>
      simp only [hrow, Option.map_some, Option.some.injEq] at hjob ⊢
      split
      · rfl
      · exact hjob
  · exact h.named

theorem CountsZero.marked (h : CountsZero req w) (jobId : String) :
    CountsZero req (marked jobId w) := by
  intro job hjob
  rw [marked_jobRow] at hjob
  obtain ⟨old, hold, rfl⟩ := Option.map_eq_some_iff.mp hjob
  split
  · exact ⟨rfl, rfl⟩
  · exact h old hold

theorem countsZero_marked (req : IngestionRequest) (w : World) :
    CountsZero req (IngestionJob.marked req.jobId w) := by
  intro job hjob
  rw [marked_jobRow] at hjob
  obtain ⟨old, hold, rfl⟩ := Option.map_eq_some_iff.mp hjob
  simp [(jobRow_mem hold).2]

/-- Marking the job of a delivery is seen exactly in the counts of the original job. -/
theorem Succeeded.unchanged_marked (h : Succeeded svc req w) {jobId : String}
    (hcounts : jobId = req.jobId → CountsZero req w) : Unchanged req w (IngestionJob.marked jobId w) := by
  obtain ⟨lease, hlease, -, hdone⟩ := h.lease
  constructor
  · rfl
  · rfl
  · rfl
  · rfl
  · rw [marked_buildRow, hlease]
    simp only [Option.map_some, Option.some.injEq]
    split
    · rw [← hdone]
    · rfl
  · have hjob := h.job
    unfold getJobStatus at hjob
    rw [marked_jobRow]
    cases hrow : w.metadata.jobRow req.jobId with
    | none => simp [hrow] at hjob
    | some row =>
      simp only [hrow, Option.map_some, Option.some.injEq] at hjob ⊢
      split
      · rename_i hid
        obtain ⟨hparents, hchildren⟩ := hcounts (hid.symm.trans (jobRow_mem hrow).2) row hrow
        simp [hjob, hparents, hchildren]
      · rfl

/-- What an answered delivery may do: nothing, or mark its job. -/
def answerRegime (jobId : String) : Regime World StoreOp PyError where
  out := StoreOp.Outcome
  rely w w' := w' = w
  guar w w' := w' = w ∨ w' = marked jobId w
  rely_refl _ := rfl
  rely_trans h h' := h'.trans h

theorem onStores_answerRegime (jobId : String) : OnStores (answerRegime jobId) where
  out h := h
  idle _ := Or.inl rfl

theorem shortCircuit_wp {jobId : String} (hreq : req.jobId = jobId) (t : JobState) (w : World) :
    (shortCircuitAlreadyIndexed svc req).wp (answerRegime jobId) (fun _ _ _ => True) t w := by
  have hR := onStores_answerRegime jobId
  subst hreq
  apply wp_bind
  apply wp_read hR
  · rintro w₁ w₂ rfl rfl
    dsimp only
    split
    · exact wp_raise hR fun _ _ _ => trivial
    · apply wp_bind
      apply wp_read hR
      · rintro w₁ w₂ rfl rfl
        dsimp only
        split
        · apply wp_bind
          apply wp_metadata hR
          · rintro w₁ rfl
            exact Or.inr rfl
          · exact fun _ _ _ _ _ _ _ _ => wp_pure fun _ _ => trivial
          · exact fun _ _ _ _ _ _ _ _ _ => trivial
        · exact wp_pure fun _ _ => trivial
      · exact fun _ _ _ _ _ => trivial
  · exact fun _ _ _ _ _ => trivial

/-- A delivery of a request that has succeeded is answered or refused. -/
theorem Succeeded.runBody_wp (h : Succeeded svc req w) (jobId : String) (options : RunOptions) :
    (runBody svc (again req jobId) options).wp (answerRegime jobId) (fun _ _ _ => True) initial w := by
  have hR := onStores_answerRegime jobId
  obtain ⟨row, hrow, hactive, hhash⟩ := h.row
  obtain ⟨lease, hlease, howner, -⟩ := h.lease
  apply wp_bind
  refine @wp_mono _ _ _ _ _ _ _ (fun _ _ w' => w' = w) _ _ _ ?_ ?_
  · rintro r t w' rfl
    cases r with
    | error e => exact fun _ _ => trivial
    | ok _ =>
      apply wp_bind
      apply wp_tryRead hR
      · rintro found w₁ w₂ rfl hfound rfl
        cases found with
        | none =>
          have hnone := getDocument_none hfound
          exact absurd (hnone.symm.trans hrow) (by simp)
        | some document =>
          obtain ⟨found, hfoundrow, hcolumns⟩ := getDocument_some hfound
          obtain rfl := Option.some.inj (hfoundrow.symm.trans hrow)
          have hsame : document.contentHash = rawHash svc (again req jobId) :=
            (congrArg DocumentColumns.contentHash hcolumns).trans hhash
          have hstatus : document.status = .active :=
            (congrArg DocumentColumns.status hcolumns).trans hactive
          dsimp only
          rw [if_neg (not_not.mpr hsame), if_pos hstatus]
          apply wp_bind
          apply wp_read hR
          · rintro w₃ w₄ rfl rfl
            have hbuild : w₄.metadata.getBuildOwner (again req jobId).ref = some req.jobId := by
              simp [getBuildOwner, again, hlease, howner]
            rw [hbuild]
            dsimp only
            rw [if_neg h.named]
            apply wp_bind
            apply wp_read hR
            · rintro w₅ w₆ rfl rfl
              dsimp only
              rw [if_pos h.job]
              exact shortCircuit_wp rfl _ _
            · exact fun _ _ _ _ _ => trivial
          · exact fun _ _ _ _ _ => trivial
      · exact fun _ _ _ _ _ => trivial
  · apply wp_bind
    apply wp_read hR
    · rintro w₁ w₂ rfl rfl
      dsimp only
      split
      · exact wp_raise hR fun _ _ h => h
      · exact wp_pure fun _ h => h
    · exact fun _ _ h _ h' => h'.trans h

/-- What a delivery that was answered has done. -/
theorem shortCircuit_marks {result : IngestionResult} {t t' : JobState}
    (h : Finishes (shortCircuitAlreadyIndexed svc req) t w result t' w') :
    (w.metadata.getJobStatus req.jobId ≠ none ∧ w' = marked req.jobId w) ∨
      (w.metadata.getJobStatus req.jobId = none ∧ w' = w) := by
  simp only [shortCircuitAlreadyIndexed, completes_bind, finishes_read, completes_ite,
    finishes_raise, and_false, false_or, completes_pure, finishes_metadata] at h
  obtain ⟨identity, t₁, w₁, ⟨rfl, rfl, rfl⟩, -, status, t₂, w₂, ⟨rfl, rfl, rfl⟩, h⟩ := h
  rcases h with ⟨hknown, _, t₃, w₃, ⟨rfl, m, hm, rfl⟩, rfl, rfl, rfl⟩ | ⟨hunknown, rfl, rfl, rfl⟩
  · have hstores : (markJobTerminal req.jobId .succeeded 0 0 none w₂.metadata).2 = m :=
      congrArg Prod.snd hm
    exact Or.inl ⟨hknown, by rw [marked, hstores]⟩
  · exact Or.inr ⟨not_not.mp hunknown, rfl⟩

end Answer

section Deliveries

/-- A delivery of the request: the job id it is delivered under, and how it is run. -/
structure Delivery where
  jobId : String
  options : RunOptions

/-- The delivery runs alone; it returns, raises or breaks off. -/
def Attempted (svc : Services) (req : IngestionRequest) (delivery : Delivery) (w w' : World) : Prop :=
  (runBody svc (again req delivery.jobId) delivery.options initial).Leads StoreOp.Outcome w w'

/-- The delivery runs alone and returns a result. -/
def Answered (svc : Services) (req : IngestionRequest) (delivery : Delivery) (w w' : World) : Prop :=
  ∃ result me, Finishes (runBody svc (again req delivery.jobId) delivery.options) initial w result me w'

/-- Deliveries one after the other, with nothing in between. -/
inductive Successively (deliver : Delivery → World → World → Prop) : List Delivery → World → World → Prop
  | nil (w : World) : Successively deliver [] w w
  | cons {delivery : Delivery} {rest : List Delivery} {w w₁ w' : World}
      (hfirst : deliver delivery w w₁) (hrest : Successively deliver rest w₁ w') :
      Successively deliver (delivery :: rest) w w'

theorem Successively.mono {D D' : Delivery → World → World → Prop}
    (himp : ∀ delivery w w', D delivery w w' → D' delivery w w') {deliveries : List Delivery}
    (h : Successively D deliveries w w') : Successively D' deliveries w w' := by
  induction h with
  | nil w => exact .nil w
  | cons hfirst hrest ih => exact .cons (himp _ _ _ hfirst) ih

theorem Answered.attempted {delivery : Delivery} (h : Answered svc req delivery w w') :
    Attempted svc req delivery w w' := by
  obtain ⟨result, me, hrun⟩ := h
  have hruns : Prog.Runs _ _ _ _ _ := hrun
  exact hruns.leads

variable {delivery : Delivery}

/-- A delivery of a request that has succeeded marks its job, or does nothing. -/
theorem Attempted.settled (h : Attempted svc req delivery w w') (hw : Succeeded svc req w) :
    Relation.ReflTransGen (fun w w' => w' = w ∨ w' = marked delivery.jobId w) w w' :=
  Prog.Leads.of_wp h (R := answerRegime delivery.jobId) (fun _ _ _ _ hout => hout)
    (hw.runBody_wp delivery.jobId delivery.options)

theorem Attempted.succeeded (h : Attempted svc req delivery w w') (hw : Succeeded svc req w) :
    Succeeded svc req w' := by
  have hsteps := h.settled hw
  clear h
  induction hsteps with
  | refl => exact hw
  | tail _ hstep ih =>
    rcases hstep with rfl | rfl
    · exact ih
    · exact ih.marked delivery.jobId

theorem Attempted.countsZero (h : Attempted svc req delivery w w') (hw : Succeeded svc req w)
    (hcounts : CountsZero req w) : CountsZero req w' := by
  have hsteps := h.settled hw
  clear h
  induction hsteps with
  | refl => exact hcounts
  | tail _ hstep ih =>
    rcases hstep with rfl | rfl
    · exact ih
    · exact ih.marked delivery.jobId

theorem Unchanged.countsZero (h : Unchanged req w w') : CountsZero req w' ↔ CountsZero req w := by
  have hjob := h.job
  unfold CountsZero
  cases hrow : w.metadata.jobRow req.jobId with
  | none =>
    cases hrow' : w'.metadata.jobRow req.jobId with
    | none => simp
    | some row' => simp [hrow, hrow'] at hjob
  | some row =>
    cases hrow' : w'.metadata.jobRow req.jobId with
    | none => simp [hrow, hrow'] at hjob
    | some row' =>
      simp only [hrow, hrow', Option.map_some, Option.some.injEq, Prod.mk.injEq] at hjob
      simp [hjob.2.1, hjob.2.2.1]

theorem Attempted.unchanged (h : Attempted svc req delivery w w') (hw : Succeeded svc req w)
    (hcounts : delivery.jobId = req.jobId → CountsZero req w) : Unchanged req w w' := by
  have hstays : Unchanged req w w' ∧ Succeeded svc req w' := by
    have hsteps := h.settled hw
    clear h
    induction hsteps with
    | refl => exact ⟨Unchanged.refl req w, hw⟩
    | tail _ hstep ih =>
      obtain ⟨hsame, hsucceeded⟩ := ih
      rcases hstep with rfl | rfl
      · exact ⟨hsame, hsucceeded⟩
      · have hmarked := hsucceeded.unchanged_marked fun hid => hsame.countsZero.mpr (hcounts hid)
        exact ⟨hsame.trans hmarked, hsucceeded.marked delivery.jobId⟩
  exact hstays.1

/-- An answer under the original job id resets the counts. -/
theorem Answered.countsZero (h : Answered svc req delivery w w') (hw : Succeeded svc req w)
    (hid : delivery.jobId = req.jobId) : CountsZero req w' := by
  obtain ⟨result, me, hrun⟩ := h
  have hsame : again req delivery.jobId = req := by rw [hid]; rfl
  rw [hsame] at hrun
  rcases runBody_finishes hrun with ⟨-, hshort⟩ | ⟨hadmits, -⟩
  · rcases shortCircuit_marks hshort with ⟨-, rfl⟩ | ⟨hunknown, -⟩
    · exact countsZero_marked req w
    · exact absurd (hunknown.symm.trans hw.job) (by simp)
  · obtain ⟨row, hrow, hactive, -⟩ := hw.row
    obtain ⟨lease, hlease, howner, -⟩ := hw.lease
    have hbuilt : AlreadyBuilt w.metadata row := by
      refine Or.inl ⟨hactive, req.jobId, ?_, hw.named, hw.job⟩
      simp [getBuildOwner, (documentRow_mem hrow).2, hlease, howner]
    exact (hadmits.built.mpr ⟨row, hrow, hbuilt⟩).elim

/-- Only a re-delivery under the original job id can be seen. -/
theorem Successively.unchanged {deliveries : List Delivery}
    (h : Successively (Attempted svc req) deliveries w w') (hw : Succeeded svc req w)
    (hcounts : ∀ delivery ∈ deliveries, delivery.jobId = req.jobId → CountsZero req w) :
    Unchanged req w w' := by
  induction h with
  | nil w => exact Unchanged.refl req w
  | cons hfirst hrest ih =>
    have hsame := hfirst.unchanged hw (hcounts _ (by simp))
    refine hsame.trans (ih (hfirst.succeeded hw) fun other hother hid => ?_)
    exact hsame.countsZero.mpr (hcounts other (by simp [hother]) hid)

theorem Successively.countsZero {deliveries : List Delivery}
    (h : Successively (Answered svc req) deliveries w w') (hw : Succeeded svc req w)
    (hid : ∃ delivery ∈ deliveries, delivery.jobId = req.jobId) : CountsZero req w' := by
  have hkeeps : ∀ {rest w₁ w'}, Successively (Answered svc req) rest w₁ w' → Succeeded svc req w₁ →
      CountsZero req w₁ → CountsZero req w' := by
    intro rest w₁ w' h
    induction h with
    | nil w => exact fun _ hzero => hzero
    | cons hfirst _ ih =>
      exact fun hw hzero => ih (hfirst.attempted.succeeded hw) (hfirst.attempted.countsZero hw hzero)
  induction h with
  | nil w => simp at hid
  | cons hfirst hrest ih =>
    have hw₁ := hfirst.attempted.succeeded hw
    obtain ⟨delivery, hdelivery, hsame⟩ := hid
    rcases List.mem_cons.mp hdelivery with rfl | hlater
    · exact hkeeps hrest hw₁ (hfirst.countsZero hw hsame)
    · exact ih hw₁ ⟨delivery, hlater, hsame⟩

end Deliveries

end AgenticRag.IngestionJob

namespace AgenticRag

open IngestionJob StoreProgram Method

/-- A run that is reported as indexed, leaves its version active and its job succeeded: then
deliveries of the request, whichever of them raise or break off, change nothing the original
delivery has left unless one of them reuses a job id that has counts. Deliveries that are
all answered change something exactly then. -/
theorem redeliveries_unchanged_iff (svc : Services) (req : IngestionRequest) (options : RunOptions)
    (hfull : options.maxStep = none) (hnamed : req.jobId ≠ "") {w₀ w : World}
    {result : IngestionResult} {me : JobState} (hreachable : ReachableStores svc w₀)
    (h : Finishes (runBody svc req options) initial w₀ result me w) (hstatus : result.status = .indexed)
    (hactive : w.metadata.getActiveVersion req.ref.doc = some req.ref.version)
    (hjob : w.metadata.getJobStatus req.jobId = some .succeeded) (deliveries : List Delivery) :
    (∀ w', Successively (Attempted svc req) deliveries w w' →
      (∀ delivery ∈ deliveries, delivery.jobId = req.jobId → CountsZero req w) →
      Unchanged req w w') ∧
    (∀ w', Successively (Answered svc req) deliveries w w' →
      (Unchanged req w w' ↔
        ∀ delivery ∈ deliveries, delivery.jobId = req.jobId → CountsZero req w)) := by
  have hbuilt := runBody_indexed hfull hstatus h
  have hw := hbuilt.succeeded hreachable.invariant.lifecycle hactive hjob hnamed
  refine ⟨fun w' hruns => hruns.unchanged hw, fun w' hruns => ⟨?_, ?_⟩⟩
  · intro hsame delivery hdelivery hid
    exact hsame.countsZero.mp (hruns.countsZero hw ⟨delivery, hdelivery, hid⟩)
  · exact (hruns.mono fun _ _ _ => Answered.attempted).unchanged hw

/-- The request for `v1`, delivered under a job id. -/
private def runAgain (jobId : String) (w : World) : (Except PyError IngestionResult × JobState) × World :=
  (runBody Sample.services (again (Sample.request "job-1" "v1" "text") jobId) (Sample.attempt "b")
    initial).exec StoreOp.eval w

private def delivered : World := (runAgain "job-1" Sample.world).2

private theorem runAgain_answered {jobId : String} {w : World} {result : IngestionResult}
    (hresult : (runAgain jobId w).1.1 = .ok result) :
    Answered Sample.services (Sample.request "job-1" "v1" "text") ⟨jobId, Sample.attempt "b"⟩ w
      (runAgain jobId w).2 :=
  ⟨result, _, finishes_exec hresult⟩

private theorem runAgain_indexed : (runAgain "job-1" Sample.world).1.1 =
    .ok { status := .indexed, parentCount := 1, childCount := 1, errorCode := none } := by
  decide +kernel

private theorem sample_reachable : ReachableStores Sample.services Sample.world :=
  ⟨Sample.world, ⟨Sample.world, []⟩, rfl, rfl, rfl,
    (lifecycleMachine Sample.services).play_reaches _ [], rfl⟩

/-- Delivered once more under `job-2`, the request leaves everything as it is. -/
theorem redeliveries_unchanged_new_job :
    Unchanged (Sample.request "job-1" "v1" "text") delivered (runAgain "job-2" delivered).2 := by
  have hanswered : (runAgain "job-2" delivered).1.1 =
      .ok { status := .alreadyIndexed, parentCount := 0, childCount := 0, errorCode := none } := by
    decide +kernel
  refine ((redeliveries_unchanged_iff Sample.services (Sample.request "job-1" "v1" "text")
    (Sample.attempt "b") rfl (by decide) sample_reachable (finishes_exec runAgain_indexed) rfl
    (by decide +kernel) (by decide +kernel) [⟨"job-2", Sample.attempt "b"⟩]).2 _
    (.cons (runAgain_answered hanswered) (.nil _))).mpr ?_
  intro delivery hdelivery hid
  rw [List.mem_singleton.mp hdelivery] at hid
  simp [Sample.request] at hid

/-- Delivered once more under `job-1`, the request resets the counts of its job. -/
theorem redeliveries_unchanged_counterexample :
    ∃ w₀ w w' result me, ReachableStores Sample.services w₀ ∧
      Finishes (runBody Sample.services (Sample.request "job-1" "v1" "text") (Sample.attempt "b"))
        initial w₀ result me w ∧ result.status = .indexed ∧
      Successively (Answered Sample.services (Sample.request "job-1" "v1" "text"))
        [⟨"job-1", Sample.attempt "b"⟩] w w' ∧
      ¬Unchanged (Sample.request "job-1" "v1" "text") w w' := by
  have hanswered : (runAgain "job-1" delivered).1.1 =
      .ok { status := .alreadyIndexed, parentCount := 0, childCount := 0, errorCode := none } := by
    decide +kernel
  refine ⟨Sample.world, delivered, _, _, _, sample_reachable, finishes_exec runAgain_indexed, rfl,
    .cons (runAgain_answered hanswered) (.nil _), ?_⟩
  intro hsame
  have hcounts : ((runAgain "job-1" delivered).2.metadata.jobRow "job-1").map
        (fun job => (job.parentCount, job.childCount)) = some (0, 0) ∧
      (delivered.metadata.jobRow "job-1").map
        (fun job => (job.parentCount, job.childCount)) = some (1, 1) := by
    decide +kernel
  have hjob := congrArg (Option.map fun columns => (columns.2.1, columns.2.2.1)) hsame.job
  simp only [Option.map_map, Function.comp_def] at hjob
  exact absurd ((hcounts.1.symm.trans hjob).trans hcounts.2) (by decide)

end AgenticRag
