import AgenticRag.Foundations.Beside
import AgenticRag.Ingestion.DeletedVersions
import AgenticRag.Storage.ActiveSwitch
import AgenticRag.Storage.Frames

/-!
# A delete against the jobs that run beside it

A logical delete wins over a job by raising the revision of the document above the
base revision the job captured. It raises the revision only when it retires an
active version: a delete that finds its latest row deleted already, or no version
active, returns normally and leaves the jobs that were acquired before it free to
commit.
-/

namespace AgenticRag

open MetadataStore StoreProgram Method

namespace MetadataStore

/-- Every job of the document has a base revision below the current one. -/
def Outdated (s : MetadataStore) (doc : DocRef) : Prop :=
  ∀ job ∈ s.jobs, job.ref.doc = doc → job.baseRevision < s.getCurrentRevision doc

/-- `logical_delete` of the version finds something to retire. -/
def Deletable (s : MetadataStore) (ref : VersionRef) : Prop :=
  (∃ row ∈ s.documents, row.ref = ref ∧ row.status ≠ .deleted) ∧ s.getActiveVersion ref.doc ≠ none

/-- The row `get_document_latest` reads is deleted. -/
def LatestDeleted (s : MetadataStore) (doc : DocRef) : Prop :=
  ∃ row ∈ latestBy true (Table.select (ofDoc doc) s.documents), row.status = .deleted

instance (s : MetadataStore) (doc : DocRef) : Decidable (s.Outdated doc) :=
  inferInstanceAs (Decidable (∀ job ∈ s.jobs, _))

instance (s : MetadataStore) (ref : VersionRef) : Decidable (s.Deletable ref) :=
  inferInstanceAs (Decidable ((∃ row ∈ s.documents, _) ∧ _))

instance (s : MetadataStore) (doc : DocRef) : Decidable (s.LatestDeleted doc) :=
  inferInstanceAs (Decidable (∃ row ∈ latestBy true _, _))

variable {s t : MetadataStore}

theorem latestBy_of_mem {rows : List DocumentRow} {row : DocumentRow} (later : Bool)
    (h : row ∈ rows) : ∃ best ∈ rows, latestBy later rows = some best := by
  cases hlatest : latestBy later rows with
  | some best => exact ⟨best, latestBy_mem hlatest, rfl⟩
  | none =>
    cases rows with
    | nil => simp at h
    | cons first rest =>
      unfold latestBy at hlatest
      cases hrest : latestBy later rest with
      | none => simp [hrest] at hlatest
      | some best =>
        simp only [hrest] at hlatest
        split at hlatest <;> simp at hlatest

/-- A delete that finds something retires an active version and raises the revision. -/
theorem logicalDelete_retires (hinv : LifecycleInvariant s) {ref : VersionRef}
    (hdeletable : s.Deletable ref) (deletedAt : Timestamp) :
    s.getCurrentRevision ref.doc <
      (logicalDelete deletedAt ref s).2.getCurrentRevision ref.doc := by
  obtain ⟨⟨target, htarget, href, hlive⟩, hactive⟩ := hdeletable
  have hrow : s.documentRow ref = some target := by
    rw [← href]
    exact Table.selectOne_of_key hinv.keys htarget
  -- whichever row is retired, it is an active one of the document
  have hvictim : ∃ row ∈ s.documents, row.ref.doc = ref.doc ∧ row.status = .active ∧
      (if target.status = .active then some target
        else latestBy true (Table.select (activeOf ref.doc) s.documents)) = some row := by
    split
    · rename_i htargetactive
      exact ⟨target, htarget, by rw [href], htargetactive, rfl⟩
    · obtain ⟨version, hversion⟩ := Option.ne_none_iff_exists'.mp hactive
      obtain ⟨row, hmem, hrowref, hrowactive⟩ := getActiveVersion_some hversion
      have hselected : row ∈ Table.select (activeOf ref.doc) s.documents :=
        Table.mem_select.mpr ⟨hmem, by simp [activeOf, ofDoc, hrowref, hrowactive]⟩
      obtain ⟨best, hbest, hlatest⟩ := latestBy_of_mem true hselected
      obtain ⟨hbestmem, hbestactive⟩ := Table.mem_select.mp hbest
      simp only [activeOf, ofDoc, Bool.and_eq_true, decide_eq_true_eq] at hbestactive
      exact ⟨best, hbestmem, hbestactive.1, hbestactive.2, hlatest⟩
  obtain ⟨row, hmem, hdoc, hrowactive, hchosen⟩ := hvictim
  have hsame : (⟨ref.doc, row.ref.version⟩ : VersionRef) = row.ref := by rw [← hdoc]
  have hretired : LifecycleStep s { s with
      documents := Table.update (ofVersion row.ref)
        (deleteRow deletedAt (row.lifecycleRevision + 1)) s.documents } :=
    .retire deletedAt row hmem hrowactive rfl
  have hafter := hretired.invariant hinv
  have hupdate := updateDocuments_ok (s := s) hafter.keys hafter.oneActive
  have hrun : logicalDelete deletedAt ref s = (.ok (row.lifecycleRevision + 1), { s with
      documents := Table.update (ofVersion row.ref)
        (deleteRow deletedAt (row.lifecycleRevision + 1)) s.documents }) := by
    unfold logicalDelete
    rw [Routine.transaction_ok, Routine.get_bind]
    simp only [hrow, if_neg hlive, hchosen, hsame]
    rw [Routine.bind_ok hupdate]
    rfl
  have hnew : deleteRow deletedAt (row.lifecycleRevision + 1) row ∈
      (logicalDelete deletedAt ref s).2.documents := by
    rw [hrun]
    exact Table.mem_update.mpr (Or.inl ⟨row, hmem, by simp [ofVersion], rfl⟩)
  have hle := lifecycleRevision_le hnew hdoc
  have hcurrent := hinv.revision_of_active hmem hrowactive
  rw [hdoc] at hcurrent
  simp only [deleteRow] at hle
  omega

end MetadataStore

section Delete

/-- A `logical_delete` that retires a version, or that has no job to fence off. -/
def MetadataOp.Effective {β : Type} (s : MetadataStore) : MetadataOp β → Prop
  | .logicalDelete ref => s.Deletable ref ∨ s.Outdated ref.doc
  | _ => True

def StoreOp.Effective {β : Type} (w : World) : StoreOp β → Prop
  | .metadata op => op.Effective w.metadata
  | _ => True

/-- What a delete of the document finds: its first access reads the latest row, and it
may be deleted already only if no job is left to fence off. -/
def EffectiveDelete (doc : DocRef) : System.CallCondition World StoreOp PyError :=
  fun past w _ op =>
    (past = [] → w.metadata.LatestDeleted doc → w.metadata.Outdated doc) ∧ op.Effective w

/-- The jobs of the document in `w₀` have been overtaken by a later revision. -/
structure FencedSince (w₀ : World) (doc : DocRef) (w : World) : Prop where
  invariant : DeletionInvariant w.metadata
  overtaken : ∀ job ∈ w₀.metadata.jobs, job.ref.doc = doc → ∃ next ∈ w.metadata.jobs,
    next.jobId = job.jobId ∧ next.ref = job.ref ∧
      next.baseRevision < w.metadata.getCurrentRevision doc

theorem FencedSince.stable {w₀ w w' : World} {doc : DocRef}
    (h : Evolves w.metadata w'.metadata) (hw : FencedSince w₀ doc w) : FencedSince w₀ doc w' := by
  obtain ⟨hinv', hlater⟩ := h hw.invariant
  refine ⟨hinv', fun job hjob hdoc => ?_⟩
  obtain ⟨next, hnext, hid, href, hlt⟩ := hw.overtaken job hjob hdoc
  obtain ⟨last, hlast, hid', href', hbase⟩ := hlater.jobs next hnext
  refine ⟨last, hlast, hid'.trans hid, href'.trans href, ?_⟩
  rw [hbase]
  exact lt_of_lt_of_le hlt (hlater.revision doc)

/-- When every job is outdated, the earlier ones are fenced. -/
theorem MetadataStore.Outdated.fencedSince {w₀ w : World} {doc : DocRef} (hinv : DeletionInvariant w.metadata)
    (hlater : Later w₀.metadata w.metadata) (hw : w.metadata.Outdated doc) :
    FencedSince w₀ doc w := by
  refine ⟨hinv, fun job hjob hdoc => ?_⟩
  obtain ⟨next, hnext, hid, href, -⟩ := hlater.jobs job hjob
  exact ⟨next, hnext, hid, href, hw next hnext (by rw [href, hdoc])⟩

theorem logicalDelete_outdates {s : MetadataStore} {ref : VersionRef} {deletedAt : Timestamp}
    (hinv : DeletionInvariant s) (heffective : s.Deletable ref ∨ s.Outdated ref.doc) :
    (logicalDelete deletedAt ref s).2.Outdated ref.doc := by
  have hrun : (MetadataOp.logicalDelete ref).eval deletedAt s =
      ((logicalDelete deletedAt ref s).1, (logicalDelete deletedAt ref s).2) := rfl
  have hjobs := (MetadataOp.frame hrun).jobs (by simp [MetadataOp.writes])
  have hevolves : Evolves s (logicalDelete deletedAt ref s).2 := logicalDelete_evolves rfl
  intro job hjob hdoc
  rw [hjobs] at hjob
  rcases heffective with hdeletable | houtdated
  · have hbase := hinv.base job hjob
    have hraised := logicalDelete_retires hinv.lifecycle hdeletable deletedAt
    rw [hdoc] at hbase
    omega
  · have hbase := houtdated job hjob hdoc
    have hrevision := (hevolves hinv).2.revision ref.doc
    omega

abbrev deleteRegime (doc : DocRef) :
    Regime (World × List (Visit World StoreOp PyError)) StoreOp PyError :=
  deletionRegime.visiting (EffectiveDelete doc)

variable {w₀ w : World} {doc : DocRef} {past : List (Visit World StoreOp PyError)}

/-- A part of a delete after the fence is established. -/
theorem wp_fenced {α : Type} {m : ManagerProgram α} (hm : HarmlessMethod m)
    (hw : FencedSince w₀ doc w) :
    m.wp (deleteRegime doc) (fun r t s => IngestionJob.Returning (FencedSince w₀ doc) r t s.1) ()
      (w, past) := by
  refine wp_mono ?_ (wp_recorded (IngestionJob.wp_harmless_keeps FencedSince.stable hm hw) past)
  exact fun _ _ _ hs => IngestionJob.Returning.of hs.1

theorem wp_refused (e : PyError) :
    (raise e : ManagerProgram Unit).wp (deleteRegime doc)
      (fun r t s => IngestionJob.Returning (FencedSince w₀ doc) r t s.1) () (w, past) :=
  wp_mono (fun _ _ _ h => h.1)
    (wp_recorded (wp_raise IngestionJob.onStores_deletionRegime fun _ _ _ => trivial) past)

/-- The deletion of the version that was read, and its propagation. -/
theorem wp_retire (document : SourceDocument) (hinv : DeletionInvariant w.metadata)
    (hlater : Later w₀.metadata w.metadata) (hdoc : document.ref.doc = doc) :
    (do
        let _ ← metadata (.logicalDelete document.ref)
        let name ← DocumentManager.collection doc.corpusId
        let pointIds ← DocumentManager.listPointIds name document.ref
        vectors (.updatePayload name pointIds (.lifecycle .deleted true))
        parents (.deprecateDocument document.ref) : ManagerProgram Unit).wp (deleteRegime doc)
      (fun r t s => IngestionJob.Returning (FencedSince w₀ doc) r t s.1) () (w, past) := by
  apply wp_bind
  apply wp_perform
  rintro ⟨w₁, past₁⟩ ⟨hw₁, -⟩ r ⟨w₂, past₂⟩ ⟨hout, ⟨-, heffective⟩, -⟩
  obtain ⟨hstate, hresult⟩ := hout.metadata
  obtain ⟨hinv₁, hlater₁⟩ := hw₁ hinv
  have hevolves : Evolves w₁.metadata w₂.metadata := by
    rcases hstate with rfl | rfl
    · exact Evolves.refl _
    · exact logicalDelete_evolves rfl
  refine ⟨hevolves, ?_⟩
  rintro ⟨w₃, past₃⟩ ⟨hw₃, -⟩
  cases r with
  | error e => exact fun _ _ => trivial
  | ok revision =>
    have hafter : w₂.metadata = (logicalDelete w₁.clock document.ref w₁.metadata).2 :=
      (congrArg Prod.snd (hresult revision rfl)).symm
    have houtdated : w₂.metadata.Outdated doc := by
      rw [hafter, ← hdoc]
      exact logicalDelete_outdates hinv₁ heffective
    obtain ⟨hinv₂, hlater₂⟩ := hevolves hinv₁
    have hfenced := houtdated.fencedSince hinv₂ ((hlater.trans hlater₁).trans hlater₂)
    refine wp_fenced ?_ (hfenced.stable hw₃)
    refine Uses.bind (harmless_read _) fun name => ?_
    refine Uses.bind (DocumentManager.listPointIds_harmless _ _) fun pointIds => ?_
    exact Uses.bind (harmless_vectors _) fun _ => harmless_parents _

/-- A delete that returns has overtaken every job that was there when it began. -/
theorem delete_wp (ctx : SecurityContext) (corpusId documentId : String)
    (hinv : DeletionInvariant w₀.metadata) :
    (DocumentManager.delete ctx corpusId documentId).wp
      (deleteRegime ⟨ctx.tenantId, corpusId, documentId⟩)
      (fun r t s => IngestionJob.Returning
        (FencedSince w₀ ⟨ctx.tenantId, corpusId, documentId⟩) r t s.1) () (w₀, []) := by
  apply wp_bind
  apply wp_perform
  rintro ⟨w₁, past₁⟩ ⟨hw₁, rfl⟩ r ⟨w₂, past₂⟩ ⟨hout, ⟨hlatest, -⟩, -⟩
  obtain ⟨rfl, hfound⟩ := hout.read
  refine ⟨Evolves.refl _, ?_⟩
  rintro ⟨w₃, past₃⟩ ⟨hw₃, -⟩
  obtain ⟨hinv₂, hlater₂⟩ := hw₁ hinv
  obtain ⟨hinv₃, hlater₃⟩ := hw₃ hinv₂
  cases r with
  | error e => exact fun _ _ => trivial
  | ok found =>
    cases found with
    | none => exact wp_refused _
    | some document =>
      obtain ⟨row, hrow, hcolumns⟩ := readDocument_some (hfound _ rfl)
      have hdoc : document.ref.doc = ⟨ctx.tenantId, corpusId, documentId⟩ := by
        have hmem := (Table.mem_select.mp (latestBy_mem hrow)).2
        simpa [ofDoc, hcolumns] using hmem
      dsimp only
      split
      · exact wp_refused _
      · split
        · rename_i hdeleted
          have houtdated := hlatest rfl ⟨row, hrow, by rw [← hdeleted, hcolumns]⟩
          have hfenced := (houtdated.fencedSince hinv₂ hlater₂).stable hw₃
          exact wp_fenced (Uses.pure ()) hfenced
        · exact wp_retire document hinv₃ (hlater₂.trans hlater₃) hdoc

end Delete

section Jobs

/-- The methods of the metadata store that activate no version. -/
def MetadataOp.Passive {β : Type} : MetadataOp β → Prop
  | .acquireJobTransaction args => ∀ document ∈ args.document, document.status = .processing
  | .commitActiveVersion _ _ _ => False
  | .rollbackActiveVersion _ _ _ => False
  | .deleteDocument _ => False
  | _ => True

def StoreOp.Passive {β : Type} : StoreOp β → Prop
  | .metadata op => op.Passive
  | _ => True

/-- No version of the document becomes active. -/
def ActivatesNothing (doc : DocRef) (s t : MetadataStore) : Prop :=
  ∀ version, t.getActiveVersion doc = some version → s.getActiveVersion doc = some version

theorem activatesNothing_of {doc : DocRef} {s t : MetadataStore} (hinv : LifecycleInvariant s)
    (h : ∀ row ∈ t.documents, row.status = .active →
      ∃ old ∈ s.documents, old.ref = row.ref ∧ old.status = .active) :
    ActivatesNothing doc s t := by
  intro version hversion
  obtain ⟨row, hrow, href, hactive⟩ := getActiveVersion_some hversion
  obtain ⟨old, hold, hsame, holdactive⟩ := h row hrow hactive
  have hactiveversion := hinv.active_row hold holdactive
  rw [hsame, href] at hactiveversion
  exact hactiveversion

theorem activatesNothing_of_same {doc : DocRef} {s t : MetadataStore} (hinv : LifecycleInvariant s)
    (h : t.documents = s.documents) : ActivatesNothing doc s t :=
  activatesNothing_of hinv fun row hrow hactive => ⟨row, h ▸ hrow, rfl, hactive⟩

/-- An update whose rewritten rows are active only if they were. -/
theorem activatesNothing_of_update {doc : DocRef} {s t : MetadataStore}
    (hinv : LifecycleInvariant s) {p : DocumentRow → Bool} {f : DocumentRow → DocumentRow}
    (ht : t.documents = Table.update p f s.documents)
    (hf : ∀ row ∈ s.documents, p row = true → (f row).status = .active →
      (f row).ref = row.ref ∧ row.status = .active) : ActivatesNothing doc s t := by
  refine activatesNothing_of hinv fun row hrow hactive => ?_
  rw [ht] at hrow
  rcases Table.mem_update.mp hrow with ⟨old, hold, hp, rfl⟩ | ⟨hold, -⟩
  · obtain ⟨href, holdactive⟩ := hf old hold hp hactive
    exact ⟨old, hold, href.symm, holdactive⟩
  · exact ⟨row, hold, rfl, hactive⟩

theorem MetadataOp.Passive.activatesNothing {β : Type} {op : MetadataOp β} (hop : op.Passive)
    {now : Timestamp} {s t : MetadataStore} {r : Except PyError β} (hinv : LifecycleInvariant s)
    (hrun : op.eval now s = (r, t)) (doc : DocRef) : ActivatesNothing doc s t := by
  cases op with
  | acquireJobTransaction args =>
    cases r with
    | error e =>
      rw [Routine.transaction_error hrun]
      exact fun _ h => h
    | ok claimed =>
      rcases acquireJobTransaction_documents hop hrun with hsame | ⟨row, -, -, hstatus, ht⟩ |
        ⟨columns, row, -, -, -, hstatus, ht⟩
      · exact activatesNothing_of_same hinv hsame
      · refine activatesNothing_of hinv fun other hother hactive => ?_
        rw [ht] at hother
        rcases Table.mem_insert.mp hother with hold | rfl
        · exact ⟨other, hold, rfl, hactive⟩
        · simp [hstatus] at hactive
      · exact activatesNothing_of_update hinv ht fun old _ _ hactive => by simp [hstatus] at hactive
  | commitActiveVersion doc newVersion expectedRevision => exact hop.elim
  | rollbackActiveVersion doc toVersion expectedRevision => exact hop.elim
  | deleteDocument doc => exact hop.elim
  | logicalDelete ref =>
    rcases logicalDelete_cases hrun with ⟨row, -, -, -, -, rfl⟩ | rfl
    · exact activatesNothing_of_update hinv rfl fun old _ _ hactive => by
        simp [deleteRow] at hactive
    · exact fun _ h => h
  | updateDocumentAcl ref acl =>
    rcases updateDocumentAcl_cases hrun with ⟨row, -, -, -, rfl⟩ | ⟨-, rfl, -⟩ | ⟨-, rfl⟩
    · exact activatesNothing_of_update hinv rfl fun old _ _ hactive => ⟨rfl, hactive⟩
    · exact fun _ h => h
    · exact fun _ h => h
  | markDocumentFailed ref =>
    rcases markDocumentFailed_cases hrun with ⟨-, rfl⟩ | ⟨-, rfl⟩
    · exact activatesNothing_of_update hinv rfl fun old _ _ hactive => by simp at hactive
    · exact fun _ h => h
  | _ =>
    exact activatesNothing_of_same hinv
      ((MetadataOp.frame hrun).documents (by simp [MetadataOp.writes]))

theorem StoreOp.Passive.activatesNothing {β : Type} {op : StoreOp β} (hop : op.Passive)
    {w w' : World} {r : Except PyError β} (hinv : LifecycleInvariant w.metadata)
    (hout : op.Outcome w r w') (doc : DocRef) : ActivatesNothing doc w.metadata w'.metadata := by
  rcases hout.state with rfl | rfl
  · exact fun _ h => h
  · cases op with
    | metadata op => exact MetadataOp.Passive.activatesNothing hop hinv rfl doc
    | _ => exact fun _ h => h

namespace IngestionJob

variable (svc : Services) (req : IngestionRequest)

/-- The job's base revision is below the revision of its document. -/
def Overtaken (w : World) : Prop :=
  ∃ job ∈ w.metadata.jobs, job.jobId = req.jobId ∧
    job.baseRevision < w.metadata.getCurrentRevision req.ref.doc

/-- Once it is overtaken, a run of the job activates nothing. -/
def Outrun (w w' : World) : Prop :=
  Overtaken req w → ActivatesNothing req.ref.doc w.metadata w'.metadata

theorem Outrun.refl (w : World) : Outrun req w w := fun _ _ h => h

variable {req} in
/-- The revision `commit` compares against is the base revision of the overtaken row. -/
theorem commit_outrun {w w' : World} {expectedRev now : Nat}
    {r : Except PyError (Nat × Option String)} {t : MetadataStore}
    (hlater : Later w.metadata w'.metadata) (hinv' : DeletionInvariant w'.metadata)
    (hexpected : w.metadata.getJobBaseRevision req.jobId = expectedRev)
    (hrun : commitActiveVersion now req.ref.doc req.ref.version expectedRev w'.metadata = (r, t))
    (hovertaken : Overtaken req w') : ActivatesNothing req.ref.doc w'.metadata t := by
  obtain ⟨job, hjob, hid, hbehind⟩ := hovertaken
  rcases commitActiveVersion_cases hrun with ⟨-, -, rfl⟩ | ⟨-, hcurrent, -, -, -⟩ | ⟨-, -, rfl⟩
  · exact fun _ h => h
  · exfalso
    cases hrow : w.metadata.jobRow req.jobId with
    | none =>
      simp only [getJobBaseRevision, hrow] at hexpected
      omega
    | some row =>
      obtain ⟨hmem, hrowid⟩ := Table.selectOne_some hrow
      obtain ⟨next, hnext, hnextid, -, hbase⟩ := hlater.jobs row hmem
      have hsame : next = job := by
        refine hinv'.jobKeys.eq_of_key hnext hjob ?_
        rw [hnextid, of_decide_eq_true hrowid, hid]
      simp only [getJobBaseRevision, hrow] at hexpected
      rw [← hsame, hbase] at hbehind
      omega
  · exact fun _ h => h

/-- The fact a run carries along. -/
abbrev Sound (w : World) : Prop := DeletionInvariant w.metadata

variable {req} in
theorem stepCommit_keeps :
    Keeps (deletionRegime.given (Outrun req)) Sound (stepCommit req) := by
  have hrely : ∀ {w w' : World}, Evolves w.metadata w'.metadata → Sound w → Sound w' :=
    fun h hw => (h hw).1
  have hS : Stable (deletionRegime.given (Outrun req)) (fun _ : JobState => Sound)
      (fun _ : PyError => fun _ => Sound) := .of_rely hrely
  refine .bind hS (Keeps.of_uses hrely (P := StoreOp.Passive) ?_ ?_) fun _ => ?_
  · intro β op hop w r w' hw hout
    exact ⟨fun _ => hop.activatesNothing hw.lifecycle hout.1 _, hrely hout.2 hw⟩
  · exact StepAccesses.assertOwnsBuild (by constructor <;> intros <;> trivial)
  -- the base revision is read here, and its job row cannot change any more
  intro me w hw
  apply wp_bind
  apply wp_perform
  intro w₁ hw₁ r w₂ hread
  obtain ⟨rfl, hexpected⟩ := hread.1.read
  refine ⟨Outrun.refl req _, fun w₃ hw₃ => ?_⟩
  have hsound₂ := hrely hw₁ hw
  cases r with
  | error e => exact fun w₄ hw₄ => hrely (hw₃.trans hw₄) hsound₂
  | ok expectedRev =>
    have hbase := Except.ok.inj (hexpected expectedRev rfl)
    apply wp_bind
    apply wp_perform
    intro w₄ hw₄ r w₅ hcommit
    have hlater := (hw₃.trans hw₄) hsound₂
    have hguar : Outrun req w₄ w₅ := by
      rcases hcommit.1.metadata.1 with rfl | rfl
      · exact Outrun.refl req _
      · exact commit_outrun hlater.2 hlater.1 hbase rfl
    have hsound₅ := hrely hcommit.2 hlater.1
    refine ⟨hguar, fun w₆ hw₆ => ?_⟩
    cases r with
    | error e => exact fun w₇ hw₇ => hrely (hw₆.trans hw₇) hsound₅
    | ok switched => exact wp_assign fun w₇ hw₇ => hrely (hw₆.trans hw₇) hsound₅

theorem runBody_outrun (options : RunOptions) :
    Keeps (deletionRegime.given (Outrun req)) Sound (runBody svc req options) := by
  have hrely : ∀ {w w' : World}, Evolves w.metadata w'.metadata → Sound w → Sound w' :=
    fun h hw => (h hw).1
  have haccesses : StepAccesses req StoreOp.Passive := by constructor <;> intros <;> trivial
  refine haccesses.runBody_keeps svc hrely ?_ ?_ ?_ stepCommit_keeps options
  · intro β op hop w r w' hw hout
    exact ⟨fun _ => hop.activatesNothing hw.lifecycle hout.1 _, hrely hout.2 hw⟩
  · exact fun args _ _ hprocessing => hprocessing
  · exact fun name => trivial

end IngestionJob

/-- The guarantee of a request: a job also stays behind once it is overtaken. -/
def outrunRegime : LifecycleRequest → Regime World StoreOp PyError
  | .ingest req _ => deletionRegime.strengthen (IngestionJob.Outrun req)
  | _ => deletionRegime

theorem lifecycleSystem_outrun (svc : Services) {w : World} (hinv : DeletionInvariant w.metadata) :
    System.DisciplinedBy (lifecycleSystem svc) (fun _ _ _ => True) deletionRegime.rely outrunRegime
      w where
  refl := deletionRegime.rely_refl
  trans := deletionRegime.rely_trans
  absorbs i _ _ h := by cases i <;> exact h
  out {_ _ _ _ i _ _ _ _ _} h _ := by cases i <;> exact h
  env := (lifecycleSystem_disciplined svc hinv).env
  guar i _ _ h := by
    cases i with
    | ingest req options => exact h.1
    | _ => exact h
  start P i _ _ hs := by
    have hplain := (lifecycleSystem_disciplined svc hinv).start i P.store hs
    cases i with
    | ingest req options =>
      have hrun := IngestionJob.runBody_outrun svc req options IngestionJob.initial P.store
        (hs hinv).1
      refine Prog.wp_mono (fun _ _ _ => trivial) (Prog.wp_strengthen hplain
        (Method.wp_launch (wp_mono (fun _ _ _ _ => trivial) hrun)))
    | _ => exact hplain

/-- A delete that returns, having found what it needed, leaves every job that held a lease of the document
when it began unable to make any version active: a step of such a job leaves the active version as it was.
Other calls and jobs may interleave with the delete and go on after it; a delete that changed nothing
fences nobody. -/
theorem delete_fences_jobs (svc : Services) (w : World)
    (hfresh : w.metadata.documents = [] ∧ w.metadata.jobs = [] ∧ w.metadata.steps = [])
    {P₀ P₁ P₂ P₃ : Pool World StoreOp PyError LifecycleRequest Unit} (ctx : SecurityContext)
    (corpusId documentId : String) {past : List (Visit World StoreOp PyError)}
    (hbefore : (lifecycleSystem svc).Reaches (fun _ _ _ => True) ⟨w, []⟩ P₀)
    (hdelete : (lifecycleSystem svc).ReachesBeside (fun _ _ _ => True)
      (EffectiveDelete ⟨ctx.tenantId, corpusId, documentId⟩)
      ⟨P₀, [], DocumentManager.delete ctx corpusId documentId ()⟩ ⟨P₁, past, .ret (.ok (), ())⟩)
    (hafter : (lifecycleSystem svc).Reaches (fun _ _ _ => True) P₁ P₂)
    {thread : Thread StoreOp PyError LifecycleRequest Unit} {event : Event StoreOp PyError}
    (hstep : (lifecycleSystem svc).Step P₂ (.perform thread event) P₃)
    {req : IngestionRequest} {options : RunOptions} (hthread : thread.origin = .ingest req options)
    (hdoc : req.ref.doc = ⟨ctx.tenantId, corpusId, documentId⟩)
    (hlease : ∃ job ∈ P₀.store.metadata.jobs, job.jobId = req.jobId ∧ job.ref = req.ref)
    (version : String)
    (hactive : P₃.store.metadata.getActiveVersion req.ref.doc = some version) :
    P₂.store.metadata.getActiveVersion req.ref.doc = some version := by
  have hinv := deletionInvariant_empty hfresh.1 hfresh.2.1 hfresh.2.2
  have hd := lifecycleSystem_outrun svc hinv
  have hattends : System.Attends (lifecycleSystem svc) deletionRegime.rely deletionRegime.rely
      (EffectiveDelete ⟨ctx.tenantId, corpusId, documentId⟩)
      (deleteRegime ⟨ctx.tenantId, corpusId, documentId⟩) := .visiting id id id
  have hkept₀ := (hd.run (System.Kept.empty hd) hbefore).1
  have hinv₀ : DeletionInvariant P₀.store.metadata := (hkept₀.store hinv).1
  obtain ⟨hkept₁, hfenced⟩ := hd.returned hd.calm hattends hdelete hkept₀
    (delete_wp ctx corpusId documentId hinv₀)
  obtain ⟨hkept₂, hrely⟩ := hd.run hkept₁ hafter
  -- the job row that was there at the beginning is still there, and overtaken
  obtain ⟨job, hjob, hid, href⟩ := hlease
  obtain ⟨next, hnext, hnextid, -, hbehind⟩ :=
    (FencedSince.stable hrely hfenced).overtaken job hjob (by rw [href, hdoc])
  obtain ⟨-, -, hguar⟩ := hd.step hkept₂ hstep trivial
  have houtrun := hguar thread event rfl
  rw [hthread] at houtrun
  exact houtrun.2 ⟨next, hnext, hnextid.trans hid, by rw [hdoc]; exact hbehind⟩ version hactive

/-- A test for a delete that finds something to retire. -/
def effectiveTest (doc : DocRef) (w : World) : {β : Type} → StoreOp β → Bool
  | _, .metadata (.logicalDelete ref) =>
    decide (w.metadata.LatestDeleted doc → w.metadata.Outdated doc) &&
      decide (w.metadata.Deletable ref)
  | _, _ => decide (w.metadata.LatestDeleted doc → w.metadata.Outdated doc)

theorem effectiveTest_sound {doc : DocRef} {past : List (Visit World StoreOp PyError)} {w : World}
    {β : Type} {op : StoreOp β} (h : effectiveTest doc w op = true) :
    EffectiveDelete doc past w op := by
  cases op with
  | metadata op =>
    cases op with
    | logicalDelete ref =>
      obtain ⟨hlatest, hdeletable⟩ := Bool.and_eq_true_iff.mp h
      exact ⟨fun _ => of_decide_eq_true hlatest, Or.inl (of_decide_eq_true hdeletable)⟩
    | _ => exact ⟨fun _ => of_decide_eq_true h, trivial⟩
  | _ => exact ⟨fun _ => of_decide_eq_true h, trivial⟩

/-- `v1` is active and `job-2` is about to commit `v2`. -/
private def updating : Pool World StoreOp PyError LifecycleRequest Unit :=
  (lifecycleMachine Sample.services).play ⟨Sample.world, []⟩
    (.spawn (.ingest (Sample.request "job-1" "v1" "text") (Sample.attempt "a")) :: advance 0 60 ++
      .spawn (.ingest (Sample.request "job-2" "v2" "new text") (Sample.attempt "b")) ::
        advance 0 27)

/-- `job-1` is about to commit the only version. -/
private def building : Pool World StoreOp PyError LifecycleRequest Unit :=
  (lifecycleMachine Sample.services).play ⟨Sample.world, []⟩
    (.spawn (.ingest (Sample.request "job-1" "v1" "text") (Sample.attempt "a")) :: advance 0 27)

/-- The document is deleted, without interruption, before the job goes on. -/
private def deleteFrom (P : Pool World StoreOp PyError LifecycleRequest Unit) :
    Pool World StoreOp PyError LifecycleRequest Unit :=
  ⟨((DocumentManager.delete Sample.admin "policies" "travel" ()).exec StoreOp.eval P.store).2,
    P.threads⟩

private def stepFrom (P : Pool World StoreOp PyError LifecycleRequest Unit) :
    Pool World StoreOp PyError LifecycleRequest Unit :=
  (lifecycleMachine Sample.services).play P (advance 0 1)

/-- The update to `v2` cannot commit after the delete. -/
theorem delete_fences_jobs_updating :
    (updating.store.metadata.getActiveVersion Sample.doc = some "v1" ∧
      (deleteFrom updating).store.metadata.getActiveVersion Sample.doc = none) ∧
    ∀ version, (stepFrom (deleteFrom updating)).store.metadata.getActiveVersion Sample.doc =
        some version →
      (deleteFrom updating).store.metadata.getActiveVersion Sample.doc = some version := by
  obtain ⟨past, hdelete⟩ : ∃ past, (lifecycleMachine Sample.services).playBeside
      (fun _ _ _ => true) (fun _ w _ op => effectiveTest Sample.doc w op)
      ⟨updating, [], DocumentManager.delete Sample.admin "policies" "travel" ()⟩
      (List.replicate 10 (.call .normal)) =
        some ⟨deleteFrom updating, past, .ret (.ok (), ())⟩ := ⟨_, rfl⟩
  obtain ⟨thread, event, hmove, horigin⟩ : ∃ thread event,
      (lifecycleMachine Sample.services).move (deleteFrom updating) (.step 0 .normal) =
          some (.perform thread event, stepFrom (deleteFrom updating)) ∧
        thread.origin =
          .ingest (Sample.request "job-2" "v2" "new text") (Sample.attempt "b") :=
    ⟨_, _, rfl, rfl⟩
  refine ⟨by decide +kernel, fun version hactive => ?_⟩
  exact delete_fences_jobs Sample.services Sample.world ⟨rfl, rfl, rfl⟩ Sample.admin "policies"
    "travel" ((lifecycleMachine Sample.services).play_reaches _ _)
    ((lifecycleMachine Sample.services).playBeside_reaches (fun _ _ _ _ => trivial)
      (fun _ _ _ _ => effectiveTest_sound) hdelete)
    Relation.ReflTransGen.refl ((lifecycleMachine Sample.services).move_step hmove) horigin rfl
    (by decide +kernel) version hactive

/-- With no active version the delete fences nothing: the job it ran beside publishes the
document. -/
theorem delete_fences_jobs_counterexample :
    ¬∀ (svc : Services) (w : World) (P₀ P₁ P₂ P₃ : Pool World StoreOp PyError LifecycleRequest Unit)
      (ctx : SecurityContext) (corpusId documentId : String) (past : List (Visit World StoreOp PyError))
      (thread : Thread StoreOp PyError LifecycleRequest Unit) (event : Event StoreOp PyError)
      (req : IngestionRequest) (options : RunOptions),
      (w.metadata.documents = [] ∧ w.metadata.jobs = [] ∧ w.metadata.steps = []) →
      (lifecycleSystem svc).Reaches (fun _ _ _ => True) ⟨w, []⟩ P₀ →
      (lifecycleSystem svc).ReachesBeside (fun _ _ _ => True) (fun _ _ _ _ => True)
        ⟨P₀, [], DocumentManager.delete ctx corpusId documentId ()⟩ ⟨P₁, past, .ret (.ok (), ())⟩ →
      (lifecycleSystem svc).Reaches (fun _ _ _ => True) P₁ P₂ →
      (lifecycleSystem svc).Step P₂ (.perform thread event) P₃ →
      thread.origin = .ingest req options → req.ref.doc = ⟨ctx.tenantId, corpusId, documentId⟩ →
      (∃ job ∈ P₀.store.metadata.jobs, job.jobId = req.jobId ∧ job.ref = req.ref) →
      ∀ version, P₃.store.metadata.getActiveVersion req.ref.doc = some version →
        P₂.store.metadata.getActiveVersion req.ref.doc = some version := by
  intro hclaim
  obtain ⟨past, hdelete⟩ : ∃ past, (lifecycleMachine Sample.services).playBeside
      (fun _ _ _ => true) (fun _ _ _ _ => true)
      ⟨building, [], DocumentManager.delete Sample.admin "policies" "travel" ()⟩
      (List.replicate 10 (.call .normal)) =
        some ⟨deleteFrom building, past, .ret (.ok (), ())⟩ := ⟨_, rfl⟩
  obtain ⟨thread, event, hmove, horigin⟩ : ∃ thread event,
      (lifecycleMachine Sample.services).move (deleteFrom building) (.step 0 .normal) =
          some (.perform thread event, stepFrom (deleteFrom building)) ∧
        thread.origin = .ingest (Sample.request "job-1" "v1" "text") (Sample.attempt "a") :=
    ⟨_, _, rfl, rfl⟩
  have hactive := hclaim Sample.services Sample.world building (deleteFrom building)
    (deleteFrom building) (stepFrom (deleteFrom building)) Sample.admin "policies" "travel" past
    thread event (Sample.request "job-1" "v1" "text") (Sample.attempt "a") ⟨rfl, rfl, rfl⟩
    ((lifecycleMachine Sample.services).play_reaches _ _)
    ((lifecycleMachine Sample.services).playBeside_reaches (fun _ _ _ _ => trivial)
      (fun _ _ _ _ _ => trivial) hdelete)
    Relation.ReflTransGen.refl ((lifecycleMachine Sample.services).move_step hmove) horigin rfl
    (by decide +kernel) "v1" (by decide +kernel)
  have hnone : (deleteFrom building).store.metadata.getActiveVersion
      (Sample.request "job-1" "v1" "text").ref.doc = none := by decide +kernel
  simp [hnone] at hactive

end Jobs

end AgenticRag
