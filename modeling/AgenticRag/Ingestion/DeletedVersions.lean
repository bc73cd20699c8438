import AgenticRag.Ingestion.JobOperations
import AgenticRag.Storage.StoreLogic

/-!
# Deleted versions under concurrent jobs

Any number of jobs, logical deletes, ACL tightenings and rollbacks run over one
set of stores, interleaved at every access, with faults and crashes. A job that
returns from `verify` is fenced against later deletions, and the `verify` marker
carries that fact to a resumed run, so `commit` never reactivates a deleted
version.
-/

namespace AgenticRag

open MetadataStore StoreProgram Method

/-- The stores evolve by steps that keep deletions final. -/
def deletionRegime : Regime World StoreOp PyError where
  out := StoreOp.Outcome
  rely w w' := Evolves w.metadata w'.metadata
  guar w w' := Evolves w.metadata w'.metadata
  rely_refl w := Evolves.refl w.metadata
  rely_trans := Evolves.trans

theorem StoreOp.Harmless.evolves {β : Type} {op : StoreOp β} (hop : op.Harmless) {w w' : World}
    {r : Except PyError β} (h : op.Outcome w r w') : Evolves w.metadata w'.metadata := by
  rcases h.state with rfl | rfl
  · exact Evolves.refl _
  · cases op with
    | metadata op => exact MetadataOp.Harmless.evolves hop w.clock w.metadata
    | read view => exact Evolves.refl _
    | raise e => exact Evolves.refl _
    | vectors op done => exact Evolves.refl _
    | parents op done => exact Evolves.refl _
    | setPointer corpusId name done => exact Evolves.refl _
    | recordFinding finding done => exact Evolves.refl _

namespace IngestionJob

section Knowledge

/-- The job row of the request exists. -/
def KnowsJob (req : IngestionRequest) (w : World) : Prop :=
  DeletionInvariant w.metadata ∧
    ∃ job ∈ w.metadata.jobs, job.jobId = req.jobId ∧ job.ref = req.ref

/-- The job of the request is fenced against deletions of its version. -/
def KnowsFenced (req : IngestionRequest) (w : World) : Prop :=
  DeletionInvariant w.metadata ∧ w.metadata.JobFenced req.jobId req.ref

variable {req} {w w' : World}

theorem KnowsJob.stable (h : Evolves w.metadata w'.metadata) (hw : KnowsJob req w) :
    KnowsJob req w' := by
  obtain ⟨hinv, job, hjob, hid, href⟩ := hw
  obtain ⟨hinv', hlater⟩ := h hinv
  obtain ⟨next, hnext, hid', href', -⟩ := hlater.jobs job hjob
  exact ⟨hinv', next, hnext, hid'.trans hid, href'.trans href⟩

theorem KnowsFenced.stable (h : Evolves w.metadata w'.metadata) (hw : KnowsFenced req w) :
    KnowsFenced req w' := by
  obtain ⟨hinv', hlater⟩ := h hw.1
  exact ⟨hinv', hw.2.later hw.1 hlater⟩

theorem KnowsFenced.knowsJob (hw : KnowsFenced req w) : KnowsJob req w := by
  obtain ⟨hinv, job, hjob, hid, href, -⟩ := hw
  exact ⟨hinv, job, hjob, hid, href⟩

/-- A job whose version is alive is fenced. -/
theorem KnowsJob.fenced (hw : KnowsJob req w) (halive : ¬w.metadata.Deleted req.ref) :
    KnowsFenced req w := by
  obtain ⟨hinv, job, hjob, hid, href⟩ := hw
  exact ⟨hinv, job, hjob, hid, href, fun hdeleted => absurd (href ▸ hdeleted) halive⟩

/-- The `verify` marker of a job vouches for it. -/
theorem KnowsJob.fenced_of_marker (hw : KnowsJob req w)
    (hmarker : w.metadata.isStepDone req.jobId .verify = true) : KnowsFenced req w := by
  obtain ⟨hinv, job, hjob, hid, href⟩ := hw
  obtain ⟨marker, hmem, hdone⟩ := List.any_eq_true.mp hmarker
  obtain ⟨hmarkerid, hname, hstatus⟩ := of_decide_eq_true hdone
  obtain ⟨verified, hverified, hvid, hfenced⟩ := hinv.verified marker hmem hname hstatus
  have hsame : verified = job := hinv.jobKeys.eq_of_key hverified hjob (by
    rw [hvid, hmarkerid, hid])
  exact ⟨hinv, job, hjob, hid, href, hsame ▸ hfenced⟩

end Knowledge

section Runs

theorem onStores_deletionRegime : OnStores deletionRegime where
  out h := h
  idle w := Evolves.refl w.metadata

/-- A first part made of harmless operations carries a stable fact over. -/
theorem wp_bind_harmless {τ α β : Type} {F : World → Prop}
    (hF : ∀ {w w'}, Evolves w.metadata w'.metadata → F w → F w') {m : StoreProgram τ α}
    {f : α → StoreProgram τ β} {post : Except PyError β → τ → World → Prop}
    (hm : HarmlessMethod m) (hf : ∀ a t w, F w → (f a).wp deletionRegime post t w)
    (herror : ∀ e t w, F w → post (.error e) t w) {t : τ} {w : World} (hw : F w) :
    (m >>= f).wp deletionRegime post t w :=
  Method.wp_bind_of_uses (fun _ hop _ _ _ h => StoreOp.Harmless.evolves hop h) (fun _ _ h => h)
    (fun _ _ => hF) hm hf herror hw

theorem wp_harmless {τ α : Type} {m : StoreProgram τ α} (hm : HarmlessMethod m) (t : τ)
    (w : World) : m.wp deletionRegime (fun _ _ _ => True) t w :=
  Method.wp_of_uses (fun _ hop _ _ _ h => StoreOp.Harmless.evolves hop h) hm t w

/-- A harmless method keeps a stable fact. -/
theorem wp_harmless_keeps {τ α : Type} {F : World → Prop}
    (hF : ∀ {w w'}, Evolves w.metadata w'.metadata → F w → F w') {m : StoreProgram τ α}
    (hm : HarmlessMethod m) {t : τ} {w : World} (hw : F w) :
    m.wp deletionRegime (fun _ _ w => F w) t w :=
  wp_mono (fun _ _ _ h => h.2)
    (wp_frame (fun _ _ => hF) (fun _ _ => hF) (wp_harmless hm t w) hw)

/-- The postcondition of a part of a run: the fact `F` if it returned. -/
def Returning {τ α : Type} (F : World → Prop) : Except PyError α → τ → World → Prop
  | .ok _, _, w => F w
  | .error _, _, _ => True

theorem Returning.of {τ α : Type} {F : World → Prop} {r : Except PyError α} {t : τ} {w : World}
    (h : F w) : Returning F r t w := by
  cases r with
  | ok a => exact h
  | error e => trivial

variable (svc : Services) (req : IngestionRequest)

/-- A committed acquire leaves the job row behind; the base revision it captured
was current when it was read. -/
theorem stepAcquire_wp (options : RunOptions) {t : JobState} {w : World}
    (hinv : DeletionInvariant w.metadata) :
    (stepAcquire svc req options).wp deletionRegime (Returning (KnowsJob req)) t w := by
  apply wp_bind
  apply wp_read onStores_deletionRegime
  · intro w₁ w₂ hw₁ hw₂
    have hinv₁ := (hw₁ hinv).1
    cases hdocument : buildSourceDocument svc req with
    | error e => exact wp_raise onStores_deletionRegime fun _ _ _ => trivial
    | ok document =>
      have hprocessing : document.status = .processing := by
        rw [buildSourceDocument_columns svc req hdocument]
        rfl
      apply wp_bind
      apply wp_metadata onStores_deletionRegime
      · intro w₃ hw₃
        refine acquireJobTransaction_evolves (by simpa using hprocessing) ?_ rfl
        exact ((hw₂ hinv₁).2.revision _).trans ((hw₃ (hw₂ hinv₁).1).2.revision _)
      · intro claimed w₃ w₄ w₅ hw₃ hacquired hw₄ hw₅
        have hinv₄ := (hw₄ (hw₃ (hw₂ hinv₁).1).1).1
        have hknows : KnowsJob req w₄ := ⟨hinv₄, acquireJobTransaction_jobRow hacquired⟩
        refine wp_bind_harmless KnowsJob.stable (harmless_metadata _ (by simp [MetadataOp.Harmless]))
          ?_ (fun _ _ _ _ => trivial) (hknows.stable hw₅)
        intro _ t w₆ hw₆
        exact wp_assign fun w₇ hw₇ => hw₆.stable hw₇
      · intro e w₃ w₄ w₅ _ _ _ w₆ _
        trivial
  · intro e w' _ w'' _
    trivial

/-- `verify` returns only for a version that was not deleted when it was read. -/
theorem verifyCommittable_wp {t : JobState} {w : World} (hw : KnowsJob req w) :
    (verifyCommittable req).wp deletionRegime (Returning (KnowsFenced req)) t w := by
  apply wp_bind
  apply wp_tryRead onStores_deletionRegime
  · intro current w₁ w₂ hw₁ hcurrent hw₂
    cases current with
    | none => exact wp_raise onStores_deletionRegime fun _ _ _ => trivial
    | some document =>
      show (if document.status = .processing ∨ document.status = .failed ∨
        document.status = .active then pure () else raise (.runtimeError "unexpected status") :
          JobProgram Unit).wp _ _ _ _
      split
      · rename_i hstatus
        have hknows := hw.stable hw₁
        have halive : ¬w₁.metadata.Deleted req.ref := by
          rintro ⟨row, hrow, href, hdeleted⟩
          obtain ⟨found, hfound, hsame⟩ := getDocument_some hcurrent
          obtain ⟨hmem, hfoundref⟩ := documentRow_mem hfound
          have heq := hknows.1.lifecycle.keys.eq_of_key hrow hmem (href.trans hfoundref.symm)
          rw [heq, ← hsame] at hdeleted
          simp [hdeleted] at hstatus
        exact wp_pure fun w₃ hw₃ => ((hknows.fenced halive).stable hw₂).stable hw₃
      · exact wp_raise onStores_deletionRegime fun _ _ _ => trivial
  · intro e w' _ w'' _
    trivial

theorem stepVerify_wp {t : JobState} {w : World} (hw : KnowsJob req w) :
    (stepVerify svc req).wp deletionRegime (Returning (KnowsFenced req)) t w := by
  refine wp_bind_harmless KnowsJob.stable ((harmless_accesses req).ensureChunked svc) ?_
    (fun _ _ _ _ => trivial) hw
  intro _ t w hw
  refine wp_bind_harmless KnowsJob.stable Uses.self ?_ (fun _ _ _ _ => trivial) hw
  intro me t w hw
  refine wp_bind_harmless KnowsJob.stable
    (Uses.forEach (harmless_accesses req).verifyParent me.parentsList) ?_ (fun _ _ _ _ => trivial) hw
  intro _ t w hw
  refine wp_bind_harmless KnowsJob.stable ((harmless_accesses req).verifyPoints svc _) ?_
    (fun _ _ _ _ => trivial) hw
  intro _ t w hw
  refine wp_bind_harmless KnowsJob.stable (harmless_read _) ?_ (fun _ _ _ _ => trivial) hw
  intro records t w hw
  split
  · exact wp_raise onStores_deletionRegime fun _ _ _ => trivial
  · exact verifyCommittable_wp req hw

/-- The revision `commit` compares against is the fenced job's base revision. -/
theorem stepCommit_wp {t : JobState} {w : World} (hw : KnowsFenced req w) :
    (stepCommit req).wp deletionRegime (Returning (KnowsFenced req)) t w := by
  refine wp_bind_harmless KnowsFenced.stable (harmless_accesses req).assertOwnsBuild ?_
    (fun _ _ _ _ => trivial) hw
  intro _ t w hw
  apply wp_bind
  apply wp_read onStores_deletionRegime
  · intro w₁ w₂ hw₁ hw₂
    have hknows := hw.stable hw₁
    obtain ⟨hinv, job, hjob, hid, href, hfenced⟩ := hknows
    have hbase : w₁.metadata.getJobBaseRevision req.jobId = job.baseRevision := by
      unfold getJobBaseRevision
      rw [← hid, hinv.jobRow hjob]
    simp only [hbase]
    apply wp_bind
    apply wp_metadata onStores_deletionRegime
    · intro w₃ hw₃
      have hlater := ((hw₂.trans hw₃) hinv).2
      apply commitActiveVersion_evolves _ rfl
      intro hdeleted
      have h : (w₃.metadata).Fenced job := Fenced.later hinv hlater hjob rfl rfl hfenced
      rw [Fenced, href] at h
      exact h hdeleted
    · intro switched w₃ w₄ w₅ hw₃ _ hw₄ hw₅
      exact wp_assign fun w₆ hw₆ => ((((hw.stable hw₁).stable (hw₂.trans hw₃)).stable hw₄).stable
        hw₅).stable hw₆
    · intro e w₃ w₄ w₅ _ _ _ w₆ _
      trivial
  · intro e w' _ w'' _
    trivial

/-- `commit` comes after `verify`. -/
def verifyFirst : List Step → Bool
  | [] => true
  | .verify :: _ => true
  | .commit :: _ => false
  | _ :: rest => verifyFirst rest

theorem verifyFirst_stepsUpTo (maxStep : Option Step) : verifyFirst (stepsUpTo maxStep) = true := by
  cases maxStep with
  | none => rfl
  | some name => cases name <;> rfl

/-- Before the remaining steps: the job is bound, and fenced unless `verify` is
still to come. -/
def LoopFact (req : IngestionRequest) (rest : List Step) (w : World) : Prop :=
  KnowsJob req w ∧ (verifyFirst rest = true ∨ KnowsFenced req w)

variable {req} in
theorem LoopFact.stable {rest : List Step} {w w' : World} (h : Evolves w.metadata w'.metadata)
    (hw : LoopFact req rest w) : LoopFact req rest w' :=
  ⟨hw.1.stable h, hw.2.imp id (KnowsFenced.stable h)⟩

variable {req} in
/-- A step that neither verifies nor commits passes the fact on. -/
theorem LoopFact.tail {name : Step} {rest : List Step} {w : World} (hverify : name ≠ .verify)
    (hcommit : name ≠ .commit) (hw : LoopFact req (name :: rest) w) : LoopFact req rest w := by
  refine ⟨hw.1, hw.2.imp ?_ id⟩
  intro hfirst
  cases name with
  | verify => exact absurd rfl hverify
  | commit => exact absurd rfl hcommit
  | _ => exact hfirst

variable {req} in
theorem KnowsFenced.loopFact {rest : List Step} {w : World} (hw : KnowsFenced req w) :
    LoopFact req rest w :=
  ⟨hw.knowsJob, Or.inr hw⟩

/-- One iteration of the step loop, whether the step is skipped or performed. -/
theorem runStep_wp {name : Step} {rest : List Step} {t : JobState} {w : World}
    (hw : LoopFact req (name :: rest) w) :
    (runStep svc req name).wp deletionRegime (Returning (LoopFact req rest)) t w := by
  apply wp_bind
  apply wp_read onStores_deletionRegime
  · intro w₁ w₂ hw₁ hw₂
    have hfact := hw.stable hw₁
    -- what holds after the step, given that it returned
    have hmark : ∀ {t : JobState} {w : World}, LoopFact req rest w →
        (name = .verify → KnowsFenced req w) →
        (metadata (.markStep req.jobId name "done") : JobProgram Unit).wp deletionRegime
          (Returning (LoopFact req rest)) t w := by
      intro t w hrest hfenced
      apply wp_metadata onStores_deletionRegime
      · intro w₃ hw₃
        exact markStep_evolves (fun hname _ => ⟨req.ref, ((hfenced hname).stable hw₃).2⟩) rfl
      · intro _ w₃ w₄ w₅ hw₃ _ hw₄ hw₅
        exact ((hrest.stable hw₃).stable hw₄).stable hw₅
      · exact fun _ _ _ _ _ _ _ => trivial
    cases hdone : w₁.metadata.isStepDone req.jobId name with
    | true =>
      refine wp_pure fun w₃ hw₃ => LoopFact.stable (hw₂.trans hw₃) ?_
      by_cases hverify : name = .verify
      · rw [hverify] at hdone
        exact (hfact.1.fenced_of_marker hdone).loopFact
      · by_cases hcommit : name = .commit
        · subst hcommit
          exact (hfact.2.resolve_left (by simp [verifyFirst])).loopFact
        · exact hfact.tail hverify hcommit
    | false =>
      have hfact₂ := hfact.stable hw₂
      apply wp_bind
      by_cases hverify : name = .verify
      · subst hverify
        refine wp_mono ?_ (stepVerify_wp svc req hfact₂.1)
        intro r t w hr
        cases r with
        | ok _ => exact hmark (KnowsFenced.loopFact hr) fun _ => hr
        | error e => exact fun _ _ => trivial
      · by_cases hcommit : name = .commit
        · subst hcommit
          refine wp_mono ?_ (stepCommit_wp req (hfact₂.2.resolve_left (by simp [verifyFirst])))
          intro r t w hr
          cases r with
          | ok _ => exact hmark (KnowsFenced.loopFact hr) fun _ => hr
          | error e => exact fun _ _ => trivial
        · refine wp_mono ?_ (wp_harmless_keeps LoopFact.stable
            ((harmless_accesses req).step svc hcommit) (hfact₂.tail hverify hcommit))
          intro r t w hr
          cases r with
          | ok _ => exact hmark hr fun hname => absurd hname hverify
          | error e => exact fun _ _ => trivial
  · intro e w' _ w'' _
    trivial

theorem build_wp (options : RunOptions) {t : JobState} {w : World}
    (hinv : DeletionInvariant w.metadata) :
    (build svc req options).wp deletionRegime (fun _ _ _ => True) t w := by
  apply wp_bind
  refine wp_mono ?_ (stepAcquire_wp svc req options hinv)
  intro r t w hr
  cases r with
  | error e => exact fun _ _ => trivial
  | ok _ =>
    apply wp_bind
    apply wp_forEach (fun rest _ w => LoopFact req rest w)
    · exact fun rest _ _ _ h hw => hw.stable h
    · intro name rest t w hw
      refine wp_mono ?_ (runStep_wp svc req hw)
      intro r t w hr
      cases r with
      | ok _ => exact hr
      | error e => exact fun _ _ _ _ => trivial
    · intro t w _
      refine wp_harmless (Uses.ite (Uses.pure _) ?_) t w
      exact Uses.bind Uses.self fun me => Uses.pure _
    · exact ⟨hr, Or.inl (verifyFirst_stepsUpTo options.maxStep)⟩

theorem guardedBuild_wp (options : RunOptions) {t : JobState} {w : World}
    (hinv : DeletionInvariant w.metadata) :
    (guardedBuild svc req options).wp deletionRegime (fun _ _ _ => True) t w := by
  apply wp_tryCatch
  refine wp_mono ?_ (build_wp svc req options hinv)
  intro r t w _
  cases r with
  | ok result => exact fun _ _ => trivial
  | error e => exact wp_harmless ((harmless_accesses req).onException svc e) t w

/-- Every run of a job respects the regime. -/
theorem runBody_wp (options : RunOptions) {t : JobState} {w : World}
    (hinv : DeletionInvariant w.metadata) :
    (runBody svc req options).wp deletionRegime (fun _ _ _ => True) t w := by
  have hstable : ∀ {w w' : World}, Evolves w.metadata w'.metadata →
      DeletionInvariant w.metadata → DeletionInvariant w'.metadata := fun h hw => (h hw).1
  refine wp_bind_harmless hstable ((harmless_accesses req).validateJobIdentity svc) ?_
    (fun _ _ _ _ => trivial) hinv
  intro _ t w hw
  refine wp_bind_harmless hstable (harmless_tryRead _) ?_ (fun _ _ _ _ => trivial) hw
  intro existing t w hw
  have hshort := fun t w => wp_harmless ((harmless_accesses req).shortCircuitAlreadyIndexed svc) t w
  cases existing with
  | none => exact guardedBuild_wp svc req options hw
  | some document =>
    dsimp only
    split
    · exact wp_harmless (harmless_raise _) t w
    · split
      · refine wp_bind_harmless hstable (harmless_read _) ?_ (fun _ _ _ _ => trivial) hw
        intro owner t w hw
        cases owner with
        | none => exact guardedBuild_wp svc req options hw
        | some owner =>
          dsimp only
          split
          · exact guardedBuild_wp svc req options hw
          · refine wp_bind_harmless hstable (harmless_read _) ?_ (fun _ _ _ _ => trivial) hw
            intro status t w hw
            split
            · exact hshort t w
            · exact guardedBuild_wp svc req options hw
      · split
        · exact hshort t w
        · exact guardedBuild_wp svc req options hw

end Runs

end IngestionJob

/-- The operations that may run concurrently on a document. -/
inductive LifecycleRequest where
  | ingest (req : IngestionRequest) (options : RunOptions)
  | delete (ctx : SecurityContext) (corpusId documentId : String)
  | tightenAcl (ctx : SecurityContext) (corpusId documentId : String) (acl : ResourceAcl)
  | rollback (doc : DocRef) (toVersion : Option String) (expectedRevision : Option Nat)

/-- The program a request starts; its result or exception goes to the caller. -/
def LifecycleRequest.program (svc : Services) : LifecycleRequest → Prog StoreOp PyError Unit
  | .ingest req options => IngestionJob.run svc req options
  | .delete ctx corpusId documentId => (DocumentManager.delete ctx corpusId documentId).launch ()
  | .tightenAcl ctx corpusId documentId acl =>
    (DocumentManager.tightenAcl ctx corpusId documentId acl).launch ()
  | .rollback doc toVersion expectedRevision =>
    (DocumentManager.rollbackActiveVersion doc toVersion expectedRevision).launch ()

/-- Any number of requests over shared stores; the clock moves on its own. -/
def lifecycleSystem (svc : Services) : System World StoreOp PyError LifecycleRequest Unit where
  out := StoreOp.Outcome
  env w w' := ∃ clock, w' = { w with clock }
  start := LifecycleRequest.program svc
  mayStart _ _ := True

theorem deletionInvariant_empty {s : MetadataStore} (hdocuments : s.documents = [])
    (hjobs : s.jobs = []) (hsteps : s.steps = []) : DeletionInvariant s where
  lifecycle := lifecycleInvariant_empty hdocuments
  jobKeys := by simp [Table.KeyUnique, hjobs]
  base := by simp [hjobs]
  verified := by simp [hsteps]

/-- All requests keep deletions final, each in the presence of all others. -/
theorem lifecycleSystem_disciplined (svc : Services) {w : World}
    (hinv : DeletionInvariant w.metadata) :
    System.Disciplined (lifecycleSystem svc) deletionRegime w where
  out _ _ _ _ h := h
  env := by
    rintro w w' ⟨clock, rfl⟩
    exact Evolves.refl _
  guar _ _ h := h
  start := by
    intro i w' hw'
    have hharmless : ∀ {α : Type} {m : ManagerProgram α}, HarmlessMethod m →
        (m.launch ()).wp deletionRegime (fun _ _ => True) w' :=
      fun hm => Method.wp_launch (IngestionJob.wp_harmless hm () w')
    cases i with
    | ingest req options =>
      exact Method.wp_launch (IngestionJob.runBody_wp svc req options (hw' hinv).1)
    | delete ctx corpusId documentId =>
      exact hharmless (DocumentManager.delete_harmless ctx corpusId documentId)
    | tightenAcl ctx corpusId documentId acl =>
      exact hharmless (DocumentManager.tightenAcl_harmless ctx corpusId documentId acl)
    | rollback doc toVersion expectedRevision =>
      exact hharmless
        (DocumentManager.rollbackActiveVersion_harmless doc toVersion expectedRevision)

/-- In every interleaving of runs, takeovers, crashes, deletes, tightenings and rollbacks, a version row
that is deleted at one time is deleted at every later time. The document table starts empty, as do the
jobs and their markers; calls and faults are arbitrary. -/
theorem deleted_versions_stay_deleted (svc : Services) (w : World)
    (hfresh : w.metadata.documents = [] ∧ w.metadata.jobs = [] ∧ w.metadata.steps = [])
    {P P' : Pool World StoreOp PyError LifecycleRequest Unit}
    (hrun : (lifecycleSystem svc).Reaches (fun _ _ _ => True) ⟨w, []⟩ P)
    (hlater : (lifecycleSystem svc).Reaches (fun _ _ _ => True) P P') :
    ∀ row ∈ P.store.metadata.documents, row.status = .deleted →
      ∀ later ∈ P'.store.metadata.documents, later.ref = row.ref →
        later.status = .deleted ∧ later.status ≠ .active := by
  intro row hrow hstatus later hmem href
  have hinv := deletionInvariant_empty hfresh.1 hfresh.2.1 hfresh.2.2
  have hdisciplined := lifecycleSystem_disciplined svc hinv
  have hgood := (hdisciplined.sound hrun).1 hinv
  have hevolves := hdisciplined.sound_between hrun hlater hgood.1
  obtain ⟨kept, hkept, hkeptref, hdeleted⟩ := hevolves.2.deleted row.ref ⟨row, hrow, rfl, hstatus⟩
  have hsame := hevolves.1.lifecycle.keys.eq_of_key hkept hmem (hkeptref.trans href.symm)
  rw [← hsame, hdeleted]
  simp

/-- The schedulable part of the system: every request is admitted. -/
def lifecycleMachine (svc : Services) : System.Machine (lifecycleSystem svc) Choice where
  eval c op w := op.answer w c
  admits _ _ := true
  eval_out c op w := op.answer_outcome w c
  admits_mayStart _ _ _ := trivial

/-- Let a thread perform its next `n` operations. -/
def advance {ι : Type} (thread n : Nat) : List (System.Move Choice ι) :=
  List.replicate n (.step thread .normal)

/-- `v1` is ingested; an update to `v2` has passed `verify` when `v1` is deleted. -/
private def deletedDuringUpdate : Pool World StoreOp PyError LifecycleRequest Unit :=
  (lifecycleMachine Sample.services).play ⟨Sample.world, []⟩
    (.spawn (.ingest (Sample.request "job-1" "v1" "text") (Sample.attempt "a")) :: advance 0 60 ++
      .spawn (.ingest (Sample.request "job-2" "v2" "new text") (Sample.attempt "b")) ::
        advance 0 30 ++
      .spawn (.delete Sample.admin "policies" "travel") :: advance 1 8)

/-- The update goes on, the first job is recovered and a rollback is tried. -/
private def afterDeletion : Pool World StoreOp PyError LifecycleRequest Unit :=
  (lifecycleMachine Sample.services).play deletedDuringUpdate
    (advance 0 40 ++
      .spawn (.ingest (Sample.request "job-1" "v1" "text") (Sample.recovery "c")) :: advance 0 60 ++
      .spawn (.rollback Sample.doc (some "v1") none) :: advance 0 10)

theorem deleted_versions_stay_deleted_sample :
    (∃ row ∈ deletedDuringUpdate.store.metadata.documents, row.status = .deleted) ∧
      ∀ row ∈ deletedDuringUpdate.store.metadata.documents, row.status = .deleted →
        ∀ later ∈ afterDeletion.store.metadata.documents, later.ref = row.ref →
          later.status = .deleted ∧ later.status ≠ .active :=
  ⟨by decide +kernel,
    deleted_versions_stay_deleted Sample.services Sample.world ⟨rfl, rfl, rfl⟩
      ((lifecycleMachine Sample.services).play_reaches _ _)
      ((lifecycleMachine Sample.services).play_reaches _ _)⟩

end AgenticRag
