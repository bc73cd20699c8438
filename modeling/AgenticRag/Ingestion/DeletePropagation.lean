import AgenticRag.Ingestion.DeleteFence
import AgenticRag.Ingestion.LiveCollection
import AgenticRag.Ingestion.TenantIsolation
import AgenticRag.Storage.Completions

/-!
# What a logical delete reaches

`delete` authorises and propagates the row that `get_document_latest` reads, while
`logical_delete` retires the active row whichever it is. A rollback gives the version it
demotes the revision of the one it activates, and the tie goes to the later row: the
delete then checks the ACL of the demoted version and flags its points and parents,
and those of the version it retires stay visible.
-/

namespace AgenticRag

open MetadataStore StoreProgram Method

section Stores

/-- The ids of every collection are unique. -/
def VectorStore.Keyed (vectors : VectorStore) : Prop :=
  ∀ name, Table.KeyUnique (·.id) (vectors.points name)

theorem VectorStore.modifyCollection_keyed {name : String} {f : List Point → List Point}
    {v v' : VectorStore} {r : Except PyError Unit} (h : modifyCollection name f v = (r, v'))
    (hf : Table.KeyUnique (·.id) (v.points name) → Table.KeyUnique (·.id) (f (v.points name)))
    (hv : v.Keyed) : v'.Keyed := by
  rcases modifyCollection_cases h with ⟨points, hpoints, -, rfl⟩ | ⟨-, -, rfl⟩
  · intro other
    by_cases hname : other = name
    · subst hname
      simpa [VectorStore.points, hpoints] using hf (hv other)
    · have hother := hv other
      simpa [VectorStore.points, hname] using hother
  · exact hv

theorem VectorOp.keyed {op : VectorOp} {v v' : VectorStore} {r : Except PyError Unit}
    (h : op.eval v = (r, v')) (hv : v.Keyed) : v'.Keyed := by
  cases op with
  | upsert name batch =>
    simp only [VectorOp.eval, VectorStore.upsert, Routine.ite_apply] at h
    split at h
    · exact (Prod.mk.inj h).2 ▸ hv
    · exact VectorStore.modifyCollection_keyed h (fun hpoints => upsert_unique hpoints batch) hv
  | delete name pointIds =>
    simp only [VectorOp.eval, VectorStore.delete, Routine.ite_apply] at h
    split at h
    · exact (Prod.mk.inj h).2 ▸ hv
    · exact VectorStore.modifyCollection_keyed h (fun hpoints => hpoints.delete) hv
  | updatePayload name pointIds patch =>
    simp only [VectorOp.eval, VectorStore.updatePayload, Routine.ite_apply] at h
    split at h
    · exact (Prod.mk.inj h).2 ▸ hv
    · exact VectorStore.modifyCollection_keyed h
        (fun hpoints => hpoints.update fun _ _ _ => rfl) hv
  | createCollection name =>
    simp only [VectorOp.eval, VectorStore.createCollection] at h
    cases hname : v name with
    | some points =>
      rw [hname] at h
      exact (Prod.mk.inj h).2 ▸ hv
    | none =>
      rw [hname] at h
      obtain ⟨-, rfl⟩ := Prod.mk.inj h
      intro other
      by_cases hother : other = name
      · subst hother
        simp [VectorStore.points, Table.KeyUnique]
      · have hkept := hv other
        simpa [VectorStore.points, hother] using hkept

/-- A payload update that took place. -/
theorem VectorStore.updatePayload_points {name : String} {pointIds : List String}
    {patch : PayloadPatch} {v v' : VectorStore}
    (h : updatePayload name pointIds patch v = (.ok (), v')) :
    v'.points name = Table.update (fun point => decide (point.id ∈ pointIds))
        (fun point => { point with payload := patch.apply point.payload }) (v.points name) ∧
      ∀ other ≠ name, v'.points other = v.points other := by
  unfold updatePayload at h
  rw [Routine.ite_apply] at h
  split at h
  · rename_i hempty
    obtain ⟨-, rfl⟩ := Prod.mk.inj h
    simp [List.isEmpty_iff.mp hempty, Table.update]
  · rcases modifyCollection_cases h with ⟨points, hpoints, -, rfl⟩ | ⟨-, herr, -⟩
    · refine ⟨by simp [VectorStore.points, hpoints], fun other hother => ?_⟩
      simp [VectorStore.points, hother]
    · simp at herr

theorem VectorStore.mem_listPointIds {name : String} {ref : VersionRef} {v : VectorStore}
    {pointIds : List String} (h : v.listPointIdsByDocument name ref = .ok pointIds) {id : String} :
    id ∈ pointIds ↔ ∃ point ∈ v.points name, point.payload.ref = ref ∧ point.id = id := by
  unfold listPointIdsByDocument scrollAll at h
  cases hname : v name with
  | none =>
    rw [hname] at h
    cases h
  | some points =>
    rw [hname] at h
    obtain rfl := Except.ok.inj h
    simp [VectorStore.points, hname, and_assoc]

end Stores

section Histories

/-- The row that an acquire enrols is in status `processing`. -/
def MetadataOp.EnrolsProcessing {β : Type} : MetadataOp β → Prop
  | .acquireJobTransaction args => ∀ document ∈ args.document, document.status = .processing
  | _ => True

def StoreOp.EnrolsProcessing {β : Type} : StoreOp β → Prop
  | .metadata op => op.EnrolsProcessing
  | _ => True

theorem MetadataStore.LifecycleInvariant.purge {s t : MetadataStore} {doc : DocRef}
    (hinv : LifecycleInvariant s) (ht : t.documents = Table.delete (ofDoc doc) s.documents) :
    LifecycleInvariant t := by
  have hold : ∀ row ∈ t.documents, row ∈ s.documents := by
    intro row hrow
    rw [ht] at hrow
    exact (Table.mem_delete.mp hrow).1
  constructor
  · rw [ht]
    exact hinv.keys.delete
  · exact fun first hfirst second hsecond =>
      hinv.oneActive first (hold first hfirst) second (hold second hsecond)
  · exact fun row hrow => hinv.notDeprecated row (hold row hrow)
  · exact fun row hrow hactive other hother =>
      hinv.current row (hold row hrow) hactive other (hold other hother)

theorem MetadataOp.lifecycle {β : Type} {op : MetadataOp β} {now : Timestamp} {s t : MetadataStore}
    {r : Except PyError β} (hop : op.EnrolsProcessing)
    (h : op.eval now s = (r, t)) (hinv : LifecycleInvariant s) : LifecycleInvariant t := by
  cases op with
  | acquireJobTransaction args => exact (acquireJobTransaction_lifecycle hop h).invariant hinv
  | commitActiveVersion doc newVersion expectedRevision =>
    exact (commitActiveVersion_lifecycle h).invariant hinv
  | rollbackActiveVersion doc toVersion expectedRevision =>
    exact (rollbackActiveVersion_lifecycle h).invariant hinv
  | logicalDelete ref => exact (logicalDelete_lifecycle h).invariant hinv
  | updateDocumentAcl ref acl => exact (updateDocumentAcl_lifecycle h).invariant hinv
  | markDocumentFailed ref => exact (markDocumentFailed_lifecycle h).invariant hinv
  | deleteDocument doc =>
    obtain ⟨-, -, -, -, -, hdocuments⟩ := deleteDocument_cases h
    rcases hdocuments with ⟨-, -, hkept⟩ | ⟨-, -, hdeleted⟩
    · exact hinv.congr hkept
    · exact hinv.purge hdeleted
  | _ => exact hinv.congr ((MetadataOp.frame h).documents (by simp [MetadataOp.writes]))

/-- What every access keeps: the lifecycle of the version rows and the ids of the points. -/
structure World.Ordered (w : World) : Prop where
  lifecycle : LifecycleInvariant w.metadata
  points : w.vectors.Keyed

theorem StoreOp.EnrolsProcessing.ordered {β : Type} {op : StoreOp β} (hop : op.EnrolsProcessing)
    {w w' : World} {r : Except PyError β} (h : op.Outcome w r w') (hw : w.Ordered) : w'.Ordered := by
  rcases h.state with rfl | rfl
  · exact hw
  · cases op with
    | metadata op => exact ⟨MetadataOp.lifecycle hop rfl hw.lifecycle, hw.points⟩
    | vectors op done => exact ⟨hw.lifecycle, VectorOp.keyed rfl hw.points⟩
    | _ => exact ⟨hw.lifecycle, hw.points⟩

/-- Calls of any tenants, any number of them at a time; the clock moves on its own. -/
def managerSystem (svc : Services) : System World StoreOp PyError ManagerCall Unit where
  out := StoreOp.Outcome
  env w w' := ∃ clock, w' = { w with clock }
  start := ManagerCall.program svc
  mayStart _ _ := True

theorem StoreOp.Harmless.enrolsProcessing {β : Type} {op : StoreOp β} (hop : op.Harmless) :
    op.EnrolsProcessing := by
  cases op with
  | metadata op =>
    cases op with
    | acquireJobTransaction args => exact hop.elim
    | _ => trivial
  | _ => trivial

abbrev Enrolling {τ α : Type} (m : StoreProgram τ α) : Prop := Uses StoreOp.EnrolsProcessing m

theorem enrolling_of_harmless {τ α : Type} {m : StoreProgram τ α} (hm : HarmlessMethod m) :
    Enrolling m :=
  Uses.mono (fun _ hop => StoreOp.Harmless.enrolsProcessing hop) hm

theorem enrolling_runBody (svc : Services) (req : IngestionRequest) (options : RunOptions) :
    Enrolling (IngestionJob.runBody svc req options) := by
  have accesses : IngestionJob.StepAccesses req StoreOp.EnrolsProcessing := by
    constructor <;> intros <;> trivial
  exact accesses.runBody svc (fun _ _ _ h => h) (fun _ => trivial) (fun _ => trivial) options

theorem enrolling_ingest (svc : Services) (ref : VersionRef) (content : String) (acl : ResourceAcl)
    (jobId : String) (source : SourceMeta) (options : RunOptions) :
    Enrolling (DocumentManager.ingest svc ref content acl jobId source options) := by
  unfold DocumentManager.ingest
  split
  · intro me
    exact Prog.Uses.bind (enrolling_runBody svc _ options _) fun _ => trivial
  · exact Uses.perform trivial

theorem enrolling_reconcilePurge (doc : DocRef) : Enrolling (DocumentManager.reconcilePurge doc) := by
  refine Uses.bind (Uses.perform trivial) fun name => ?_
  refine Uses.bind (Uses.perform trivial) fun versions => ?_
  refine Uses.bind (Uses.forEach (fun version => ?_) _) fun _ => Uses.perform trivial
  refine Uses.bind (Uses.perform trivial) fun pointIds => ?_
  refine Uses.bind (Uses.perform trivial) fun _ => ?_
  exact Uses.bind (Uses.perform trivial) fun _ => Uses.perform trivial

theorem enrolling_rebuildDocument (svc : Services) (ref : VersionRef) :
    Enrolling (DocumentManager.rebuildDocument svc ref) := by
  refine Uses.bind (Uses.perform trivial) fun name => ?_
  refine Uses.bind (Uses.perform trivial) fun rows => ?_
  refine Uses.bind (Uses.perform trivial) fun _ => Uses.forEach (fun parentId => ?_) _
  refine Uses.ite (Uses.pure ()) ?_
  cases DocumentManager.rebuiltParent ref parentId (DocumentManager.childrenOfParent rows parentId) with
  | none => exact Uses.pure ()
  | some parent => exact Uses.perform trivial

theorem enrolling_purge (ctx : SecurityContext) (corpusId documentId : String) :
    Enrolling (DocumentManager.purge ctx corpusId documentId) := by
  refine Uses.bind (Uses.perform trivial) fun found => ?_
  cases found with
  | none => exact Uses.pure ()
  | some document =>
    refine Uses.ite (Uses.perform trivial) (Uses.ite (Uses.perform trivial) ?_)
    exact enrolling_reconcilePurge document.ref.doc

theorem ManagerCall.enrolling (svc : Services) (call : ManagerCall) :
    (call.program svc).Uses StoreOp.EnrolsProcessing := by
  cases call with
  | ingest ref content acl jobId source options =>
    exact (enrolling_ingest svc ref content acl jobId source options).launch ()
  | update ctx corpusId documentId args =>
    refine Uses.launch (Uses.bind ?_ fun document => enrolling_ingest svc _ _ _ _ _ _) ()
    exact enrolling_of_harmless (DocumentManager.resolveActive_harmless ctx corpusId documentId)
  | delete ctx corpusId documentId =>
    exact (enrolling_of_harmless (DocumentManager.delete_harmless ctx corpusId documentId)).launch ()
  | purge ctx corpusId documentId => exact (enrolling_purge ctx corpusId documentId).launch ()
  | tightenAcl ctx corpusId documentId acl =>
    exact (enrolling_of_harmless
      (DocumentManager.tightenAcl_harmless ctx corpusId documentId acl)).launch ()
  | rollbackActiveVersion doc toVersion expectedRevision =>
    exact (enrolling_of_harmless
      (DocumentManager.rollbackActiveVersion_harmless doc toVersion expectedRevision)).launch ()
  | rebuildDocument ref => exact (enrolling_rebuildDocument svc ref).launch ()
  | reconcilePurge doc => exact (enrolling_reconcilePurge doc).launch ()

def orderedRegime : Regime World StoreOp PyError where
  out := StoreOp.Outcome
  rely w w' := w.Ordered → w'.Ordered
  guar w w' := w.Ordered → w'.Ordered
  rely_refl _ := id
  rely_trans h h' hw := h' (h hw)

theorem managerSystem_disciplined (svc : Services) (w : World) :
    System.Disciplined (managerSystem svc) orderedRegime w where
  out _ _ _ _ h := h
  env := by
    rintro w w' ⟨clock, rfl⟩ hw
    exact ⟨hw.lifecycle, hw.points⟩
  guar _ _ h := h
  start call w' _ := Prog.wp_of_uses
    (fun _ hop _ _ _ hout hw => StoreOp.EnrolsProcessing.ordered hop hout hw)
    (ManagerCall.enrolling svc call) w'

/-- The stores of a new tenant. -/
structure World.Fresh (w : World) : Prop where
  documents : w.metadata.documents = []
  points : ∀ name, w.vectors.points name = []

theorem World.Fresh.ordered {w : World} (h : w.Fresh) : w.Ordered where
  lifecycle := lifecycleInvariant_empty h.documents
  points name := by simp [h.points, Table.KeyUnique]

/-- Every state that calls reach is ordered, in whatever order they run. -/
theorem managerSystem_ordered {svc : Services} {w : World} (hfresh : w.Fresh)
    {cond : System.StepCondition World StoreOp PyError ManagerCall Unit}
    {P : Pool World StoreOp PyError ManagerCall Unit}
    (hrun : (managerSystem svc).Reaches cond ⟨w, []⟩ P) : P.store.Ordered :=
  ((managerSystem_disciplined svc w).sound hrun).1 hfresh.ordered

end Histories

section Delete

def Retired (status : PayloadStatus) (deprecated : Bool) : Prop :=
  status = .deleted ∨ status = .deprecated ∨ deprecated = true

instance (status : PayloadStatus) (deprecated : Bool) : Decidable (Retired status deprecated) :=
  inferInstanceAs (Decidable (_ ∨ _))

/-- The points of the version in a collection are flagged. -/
def World.PointsRetired (w : World) (name : String) (ref : VersionRef) : Prop :=
  ∀ point ∈ w.vectors.points name, point.payload.ref = ref →
    Retired point.payload.status point.payload.deprecated

def World.ParentsRetired (w : World) (ref : VersionRef) : Prop :=
  ∀ parent ∈ w.parents, parent.ref = ref →
    Retired parent.metadata.status parent.metadata.deprecated

instance (w : World) (name : String) (ref : VersionRef) : Decidable (w.PointsRetired name ref) :=
  inferInstanceAs (Decidable (∀ point ∈ w.vectors.points name, _))

instance (w : World) (ref : VersionRef) : Decidable (w.ParentsRetired ref) :=
  inferInstanceAs (Decidable (∀ parent ∈ w.parents, _))

/-- `can_manage_document` on the ACL of the row. -/
def Manages (ctx : SecurityContext) (row : DocumentRow) : Prop :=
  ∃ document : SourceDocument, document.ref = row.ref ∧ document.acl = row.acl ∧
    canManageDocument ctx document = true

def MetadataStore.ActiveRow (s : MetadataStore) (doc : DocRef) (row : DocumentRow) : Prop :=
  row ∈ s.documents ∧ row.ref.doc = doc ∧ row.status = .active

/-- What a delete that returned promises of the version that was active before. -/
structure DeleteHonoured (ctx : SecurityContext) (doc : DocRef) (w w' : World) : Prop where
  inactive : ∀ row, ¬w'.metadata.ActiveRow doc row
  points : ∀ row, w.metadata.ActiveRow doc row → ∀ name, w'.PointsRetired name row.ref
  parents : ∀ row, w.metadata.ActiveRow doc row → w'.ParentsRetired row.ref
  authorised : ∀ row, w.metadata.ActiveRow doc row → Manages ctx row

/-- The row that `get_document_latest` reads. -/
def MetadataStore.latestRow (s : MetadataStore) (doc : DocRef) : Option DocumentRow :=
  latestBy true (Table.select (ofDoc doc) s.documents)

/-- The delete resolves the active version: nothing visible of it lies outside the live
collection, and it is the latest row, unless the caller may manage it and it is flagged
already. -/
def DeleteResolves (ctx : SecurityContext) (doc : DocRef) (w : World) : Prop :=
  ∀ row, w.metadata.ActiveRow doc row →
    (∀ name ≠ w.resolveCollectionName doc.corpusId, w.PointsRetired name row.ref) ∧
      (w.metadata.latestRow doc = some row ∨
        ((∀ latest ∈ w.metadata.latestRow doc, latest.status ≠ .deleted) ∧ Manages ctx row ∧
          w.PointsRetired (w.resolveCollectionName doc.corpusId) row.ref ∧
            w.ParentsRetired row.ref))

/-- What a delete does that finds the row alive. -/
structure Propagated (row : DocumentRow) (w w' : World) : Prop where
  metadata : w'.metadata = (logicalDelete w.clock row.ref w.metadata).2
  points : ∃ pointIds, w.vectors.listPointIdsByDocument
      (w.resolveCollectionName row.ref.doc.corpusId) row.ref = .ok pointIds ∧
    VectorStore.updatePayload (w.resolveCollectionName row.ref.doc.corpusId) pointIds
      (.lifecycle .deleted true) w.vectors = (.ok (), w'.vectors)
  parents : w'.parents = ParentStore.deprecateDocument row.ref w.parents

variable {ctx : SecurityContext} {corpusId documentId : String} {w w' : World} {row : DocumentRow}

theorem latestRow_mem {s : MetadataStore} {doc : DocRef} (h : s.latestRow doc = some row) :
    row ∈ s.documents ∧ row.ref.doc = doc := by
  obtain ⟨hmem, hof⟩ := Table.mem_select.mp (latestBy_mem h)
  exact ⟨hmem, by simpa [ofDoc] using hof⟩

/-- The row a delete authorises is the latest one; it is deleted already, or it is
propagated. -/
theorem delete_finishes (h : Finishes (DocumentManager.delete ctx corpusId documentId) () w () () w') :
    ∃ row, w.metadata.latestRow ⟨ctx.tenantId, corpusId, documentId⟩ = some row ∧ Manages ctx row ∧
      ((row.status = .deleted ∧ w' = w) ∨ (row.status ≠ .deleted ∧ Propagated row w w')) := by
  obtain ⟨found, _, w₁, hread, hrest⟩ := completes_bind.mp h
  obtain ⟨hfound, -, rfl⟩ := finishes_tryRead.mp hread
  cases found with
  | none => exact (finishes_raise.mp hrest).elim
  | some document =>
    obtain ⟨row, hrow, hcolumns⟩ := readDocument_some hfound
    have href : document.ref = row.ref := congrArg DocumentColumns.ref hcolumns
    have hstatus : document.status = row.status := congrArg DocumentColumns.status hcolumns
    have hdoc : row.ref.doc = ⟨ctx.tenantId, corpusId, documentId⟩ := (latestRow_mem hrow).2
    refine ⟨row, hrow, ?_⟩
    rcases completes_ite.mp hrest with ⟨-, hraise⟩ | ⟨hmanage, hrest⟩
    · exact (finishes_raise.mp hraise).elim
    refine ⟨⟨document, href, congrArg DocumentColumns.acl hcolumns, by simpa using hmanage⟩, ?_⟩
    rcases completes_ite.mp hrest with ⟨hdeleted, hpure⟩ | ⟨hlive, hrest⟩
    · exact Or.inl ⟨hstatus ▸ hdeleted, (completes_pure.mp hpure).2.2⟩
    refine Or.inr ⟨hstatus ▸ hlive, ?_⟩
    obtain ⟨_, _, w₂, hdelete, hrest⟩ := completes_bind.mp hrest
    obtain ⟨-, m, hm, rfl⟩ := finishes_metadata.mp hdelete
    obtain ⟨name, _, w₃, hname, hrest⟩ := completes_bind.mp hrest
    obtain ⟨rfl, -, rfl⟩ := finishes_read.mp hname
    obtain ⟨pointIds, _, w₄, hids, hrest⟩ := completes_bind.mp hrest
    obtain ⟨hlist, -, rfl⟩ := finishes_tryRead.mp hids
    obtain ⟨_, _, w₅, hvectors, hparents⟩ := completes_bind.mp hrest
    obtain ⟨-, v, hv, rfl⟩ := finishes_vectors.mp hvectors
    obtain ⟨-, rfl⟩ := finishes_parents.mp hparents
    rw [href] at hm hlist
    refine ⟨(congrArg Prod.snd hm).symm, ⟨pointIds, ?_, ?_⟩, by rw [← href]; rfl⟩
    · rw [hdoc]
      exact hlist
    · rw [hdoc]
      exact hv

theorem Propagated.pointsRetired_iff (h : Propagated row w w') (hw : w.vectors.Keyed) (name : String)
    (ref : VersionRef) :
    w'.PointsRetired name ref ↔
      (name = w.resolveCollectionName row.ref.doc.corpusId ∧ ref = row.ref) ∨
        w.PointsRetired name ref := by
  obtain ⟨pointIds, hlist, hupdate⟩ := h.points
  obtain ⟨hlive, hothers⟩ := VectorStore.updatePayload_points hupdate
  unfold World.PointsRetired
  by_cases hname : name = w.resolveCollectionName row.ref.doc.corpusId
  · subst hname
    -- ids are unique, so the listed ids are those of the version
    have hof : ∀ point ∈ w.vectors.points (w.resolveCollectionName row.ref.doc.corpusId),
        (point.id ∈ pointIds ↔ point.payload.ref = row.ref) := by
      intro point hpoint
      rw [VectorStore.mem_listPointIds hlist]
      constructor
      · rintro ⟨other, hother, href, hid⟩
        rw [← (hw _).eq_of_key hother hpoint hid]
        exact href
      · exact fun href => ⟨point, hpoint, href, rfl⟩
    rw [hlive]
    constructor
    · intro hafter
      by_cases href : ref = row.ref
      · exact Or.inl ⟨rfl, href⟩
      · refine Or.inr fun point hpoint hpref => hafter point (Table.mem_update.mpr (Or.inr ⟨hpoint, ?_⟩)) hpref
        simpa [hof point hpoint, hpref] using href
    · intro hbefore point hpoint hpref
      rcases Table.mem_update.mp hpoint with ⟨old, hold, -, rfl⟩ | ⟨hold, hkept⟩
      · exact Or.inl rfl
      · rcases hbefore with ⟨-, rfl⟩ | hbefore
        · simp [hof point hold, hpref] at hkept
        · exact hbefore point hold hpref
  · rw [hothers name hname]
    simp [hname]

theorem Propagated.parentsRetired_iff (h : Propagated row w w') (ref : VersionRef) :
    w'.ParentsRetired ref ↔ ref = row.ref ∨ w.ParentsRetired ref := by
  unfold World.ParentsRetired
  rw [h.parents]
  constructor
  · intro hafter
    by_cases href : ref = row.ref
    · exact Or.inl href
    · refine Or.inr fun parent hparent hpref =>
        hafter parent (Table.mem_update.mpr (Or.inr ⟨hparent, ?_⟩)) hpref
      simpa [ParentStore.ofVersion, hpref] using href
  · intro hbefore parent hparent hpref
    rcases Table.mem_update.mp hparent with ⟨old, hold, -, rfl⟩ | ⟨hold, hkept⟩
    · exact Or.inr (Or.inr rfl)
    · rcases hbefore with rfl | hbefore
      · simp [ParentStore.ofVersion, hpref] at hkept
      · exact hbefore parent hold hpref

/-- After the retirement of a live version no version of the document is active. -/
theorem logicalDelete_inactive {s : MetadataStore} {now : Timestamp} (hinv : LifecycleInvariant s)
    (hrow : row ∈ s.documents) (hlive : row.status ≠ .deleted) (found : DocumentRow) :
    ¬(logicalDelete now row.ref s).2.ActiveRow row.ref.doc found := by
  rintro ⟨hfound, hdoc, hactive⟩
  have hrun : logicalDelete now row.ref s =
      ((logicalDelete now row.ref s).1, (logicalDelete now row.ref s).2) := rfl
  rcases logicalDelete_cases hrun with ⟨victim, hvictim, hvictimdoc, hvictimactive, -, hafter⟩ | hsame
  · rw [hafter] at hfound
    rcases Table.mem_update.mp hfound with ⟨old, -, -, rfl⟩ | ⟨hold, hother⟩
    · simp [deleteRow] at hactive
    · have heq := hinv.oneActive found hold victim hvictim hactive hvictimactive
        (hdoc.trans hvictimdoc.symm)
      simp [ofVersion, heq] at hother
  · -- a delete that changes nothing has found no active version
    rw [hsame] at hfound
    have hversion := hinv.active_row hfound hactive
    have hdeletable : s.Deletable row.ref := ⟨⟨row, hrow, rfl, hlive⟩, by rw [← hdoc, hversion]; simp⟩
    have hraised := logicalDelete_retires hinv hdeletable now
    rw [hsame] at hraised
    omega

variable {doc : DocRef}

/-- A latest row that is deleted resolves no active version. -/
theorem honoured_iff_of_deleted (hlatest : w.metadata.latestRow doc = some row)
    (hdeleted : row.status = .deleted) : DeleteHonoured ctx doc w w ↔ DeleteResolves ctx doc w := by
  constructor
  · intro honoured active hactive
    exact absurd hactive (honoured.inactive active)
  · intro hresolves
    have hnone : ∀ active, ¬w.metadata.ActiveRow doc active := by
      intro active hactive
      rcases (hresolves active hactive).2 with hsame | ⟨hnot, -⟩
      · obtain rfl := Option.some.inj (hlatest.symm.trans hsame)
        simp [hactive.2.2] at hdeleted
      · exact hnot row hlatest hdeleted
    exact ⟨hnone, fun active h => absurd h (hnone active), fun active h => absurd h (hnone active),
      fun active h => absurd h (hnone active)⟩

theorem Propagated.honoured_iff (h : Propagated row w w') (hw : w.Ordered)
    (hlatest : w.metadata.latestRow doc = some row) (hmanages : Manages ctx row)
    (hlive : row.status ≠ .deleted) : DeleteHonoured ctx doc w w' ↔ DeleteResolves ctx doc w := by
  obtain ⟨hmem, hdoc⟩ := latestRow_mem hlatest
  have hsame : ∀ active, w.metadata.ActiveRow doc active →
      (active.ref = row.ref ↔ w.metadata.latestRow doc = some active) := by
    rintro active ⟨hactive, -, -⟩
    rw [hlatest, Option.some.injEq]
    exact ⟨fun href => hw.lifecycle.keys.eq_of_key hmem hactive href.symm, fun heq => heq ▸ rfl⟩
  have hpoints := h.pointsRetired_iff hw.points
  rw [hdoc] at hpoints
  constructor
  · intro honoured active hactive
    constructor
    · intro name hname
      have hafter := (hpoints name active.ref).mp (honoured.points active hactive name)
      exact hafter.resolve_left fun hlivename => hname hlivename.1
    · by_cases href : active.ref = row.ref
      · exact Or.inl ((hsame active hactive).mp href)
      · have hlivepoints := (hpoints (w.resolveCollectionName doc.corpusId) active.ref).mp
          (honoured.points active hactive _)
        have hparents := (h.parentsRetired_iff active.ref).mp (honoured.parents active hactive)
        refine Or.inr ⟨?_, honoured.authorised active hactive,
          hlivepoints.resolve_left fun hof => href hof.2, hparents.resolve_left href⟩
        intro latest hfound
        obtain rfl := Option.some.inj (hlatest.symm.trans hfound)
        exact hlive
  · intro hresolves
    constructor
    · intro active hactive
      rw [h.metadata, ← hdoc] at hactive
      exact logicalDelete_inactive hw.lifecycle hmem hlive active hactive
    · intro active hactive name
      obtain ⟨hothers, hresolved⟩ := hresolves active hactive
      apply (hpoints name active.ref).mpr
      by_cases hname : name = w.resolveCollectionName doc.corpusId
      · rcases hresolved with hlatestactive | ⟨-, -, hretired, -⟩
        · exact Or.inl ⟨hname, (hsame active hactive).mpr hlatestactive⟩
        · exact Or.inr (hname ▸ hretired)
      · exact Or.inr (hothers name hname)
    · intro active hactive
      apply (h.parentsRetired_iff active.ref).mpr
      rcases (hresolves active hactive).2 with hlatestactive | ⟨-, -, -, hretired⟩
      · exact Or.inl ((hsame active hactive).mpr hlatestactive)
      · exact Or.inr hretired
    · intro active hactive
      rcases (hresolves active hactive).2 with hlatestactive | ⟨-, hauthorised, -⟩
      · obtain rfl := Option.some.inj (hlatest.symm.trans hlatestactive)
        exact hmanages
      · exact hauthorised

/-- In every state that calls reach, a delete that returns has hidden the version that was active, with the
consent of its ACL, exactly when it resolves that version. The calls before it interleave, fail and crash
as they like; the delete itself runs alone. -/
theorem delete_honoured_iff {svc : Services} {w₀ : World} (hfresh : w₀.Fresh)
    {P : Pool World StoreOp PyError ManagerCall Unit}
    (hrun : (managerSystem svc).Reaches (fun _ _ _ => True) ⟨w₀, []⟩ P)
    (hdelete : Finishes (DocumentManager.delete ctx corpusId documentId) () P.store () () w') :
    DeleteHonoured ctx ⟨ctx.tenantId, corpusId, documentId⟩ P.store w' ↔
      DeleteResolves ctx ⟨ctx.tenantId, corpusId, documentId⟩ P.store := by
  have hordered := managerSystem_ordered hfresh hrun
  obtain ⟨latest, hlatest, hmanages, hcases⟩ := delete_finishes hdelete
  rcases hcases with ⟨hdeleted, rfl⟩ | ⟨hlive, hpropagated⟩
  · exact honoured_iff_of_deleted hlatest hdeleted
  · exact hpropagated.honoured_iff hordered hlatest hmanages hlive

end Delete

section Runs

/-- The schedulable part of the system: every call is taken. -/
def managerMachine (svc : Services) : System.Machine (managerSystem svc) Choice where
  eval c op w := op.answer w c
  admits _ _ := true
  eval_out c op w := op.answer_outcome w c
  admits_mayStart _ _ _ := trivial

/-- The stores after calls that run one after the other, each to its end. -/
def afterCalls (svc : Services) (w : World) (calls : List ManagerCall) :
    Pool World StoreOp PyError ManagerCall Unit :=
  (managerMachine svc).play ⟨w, []⟩
    (calls.flatMap fun call => .spawn call :: List.replicate 60 (.step 0 .normal))

theorem sampleWorld_fresh : Sample.world.Fresh := by
  refine ⟨rfl, fun name => ?_⟩
  by_cases hname : name = "policies"
  · simp [VectorStore.points, Sample.world, hname]
  · simp [VectorStore.points, Sample.world, hname]

private def ingestVersion (jobId version content : String) : ManagerCall :=
  .ingest ⟨Sample.doc, version⟩ content { Sample.acl with tenantId := "acme" } jobId
    Sample.sourceMeta (Sample.attempt "a")

/-- `v1` has been replaced by `v2`. -/
private def updated : Pool World StoreOp PyError ManagerCall Unit :=
  afterCalls Sample.services Sample.world
    [ingestVersion "job-1" "v1" "text", ingestVersion "job-2" "v2" "new text"]

/-- The update has been rolled back. -/
private def rolledBack : Pool World StoreOp PyError ManagerCall Unit :=
  afterCalls Sample.services Sample.world
    [ingestVersion "job-1" "v1" "text", ingestVersion "job-2" "v2" "new text",
      .rollbackActiveVersion Sample.doc none none]

private def afterDelete (w : World) : World :=
  ((DocumentManager.delete Sample.admin "policies" "travel" ()).exec StoreOp.eval w).2

/-- No access goes to another collection. -/
private def Targeting (name : String) : System.StepCondition World StoreOp PyError ManagerCall Unit
  | _, .perform _ event, _ => event.op.Targets name
  | _, _, _ => True

private instance (name : String) :
    ∀ P label P', Decidable (Targeting name P label P')
  | _, .perform _ event, _ => inferInstanceAs (Decidable (event.op.Targets name))
  | _, .env, _ | _, .spawn _, _ | _, .finish _, _ | _, .crash _, _ => inferInstanceAs (Decidable True)

private theorem vectors_other {svc : Services} {name other : String} (hother : other ≠ name)
    {P P' : Pool World StoreOp PyError ManagerCall Unit} (hrun : (managerSystem svc).Reaches (Targeting name) P P') :
    P'.store.vectors other = P.store.vectors other := by
  refine System.Reaches.invariant (fun P' => P'.store.vectors other = P.store.vectors other) ?_ hrun rfl
  intro P₁ label P₂ hsame hcond hstep
  cases hstep with
  | env henv =>
    obtain ⟨clock, rfl⟩ := henv
    exact hsame
  | perform hout => exact ((StoreOp.Targets.outcome hcond hout).others other hother).trans hsame
  | spawn | finish | crash => exact hsame

/-- `v2` is hidden by the delete. -/
theorem delete_honoured_updated :
    updated.store.metadata.getActiveVersion Sample.doc = some "v2" ∧
      DeleteHonoured Sample.admin Sample.doc updated.store (afterDelete updated.store) := by
  have hconfined : (managerSystem Sample.services).Reaches (Targeting "policies") ⟨Sample.world, []⟩ updated :=
    (managerMachine Sample.services).passes_reaches
      (fun P label P' (h : decide (Targeting "policies" P label P') = true) => of_decide_eq_true h) _ _
      (by decide +kernel)
  have hlatest : ∀ row ∈ updated.store.metadata.documents, row.ref.doc = Sample.doc → row.status = .active →
      updated.store.metadata.latestRow Sample.doc = some row := by decide +kernel
  have hresolves : DeleteResolves Sample.admin Sample.doc updated.store := by
    rintro row ⟨hrow, hdoc, hactive⟩
    refine ⟨fun name hname point hpoint => ?_, Or.inl (hlatest row hrow hdoc hactive)⟩
    have hlive : name ≠ "policies" := hname
    have hempty : updated.store.vectors name = none := by
      rw [vectors_other hlive hconfined]
      simp [Sample.world, hlive]
    simp [VectorStore.points, hempty] at hpoint
  exact ⟨by decide +kernel, (delete_honoured_iff sampleWorld_fresh
    ((managerMachine Sample.services).play_reaches ⟨Sample.world, []⟩ _)
    (finishes_exec (a := ()) (by decide +kernel))).mpr hresolves⟩

/-- After a rollback the delete retires `v1` and flags the points of `v2`. -/
theorem delete_honoured_counterexample :
    Sample.world.Fresh ∧
      (managerSystem Sample.services).Reaches (fun _ _ _ => True) ⟨Sample.world, []⟩ rolledBack ∧
      Finishes (DocumentManager.delete Sample.admin "policies" "travel") () rolledBack.store () ()
        (afterDelete rolledBack.store) ∧
      ¬DeleteHonoured Sample.admin Sample.doc rolledBack.store (afterDelete rolledBack.store) := by
  refine ⟨sampleWorld_fresh, (managerMachine Sample.services).play_reaches _ _,
    finishes_exec (a := ()) (by decide +kernel), fun honoured => ?_⟩
  have hvisible : ∃ row ∈ rolledBack.store.metadata.documents, row.ref.doc = Sample.doc ∧
      row.status = .active ∧
      ¬(afterDelete rolledBack.store).PointsRetired "policies" row.ref := by decide +kernel
  obtain ⟨row, hrow, hdoc, hactive, hpoints⟩ := hvisible
  exact hpoints (honoured.points row ⟨hrow, hdoc, hactive⟩ "policies")

end Runs

end AgenticRag
