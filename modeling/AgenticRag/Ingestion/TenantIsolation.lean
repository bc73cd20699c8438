import AgenticRag.Ingestion.DocumentManager
import AgenticRag.Storage.Holdings
import AgenticRag.Storage.StoreLogic
import AgenticRag.Storage.Transactions

/-!
# Calls for one tenant beside the holdings of another

Any calls of the manager for other tenants, in any order and interrupted anywhere, leave what
a tenant holds as it is, as long as the ids they write are not the tenant's and no rebuild is
asked for a version of which the tenant has child rows. A rebuild reads the child rows of the
corpus without their tenant.
-/

namespace AgenticRag

/-- Everybody keeps what the stores hold of the tenant. -/
def besides (tenantId : String) (H : Holdings) (pointIdOf : String → String) :
    Regime World StoreOp PyError where
  out := fun op => op.Outcome
  rely w w' := w.Holds tenantId H pointIdOf → w'.Holds tenantId H pointIdOf
  guar w w' := w.Holds tenantId H pointIdOf → w'.Holds tenantId H pointIdOf
  rely_refl _ h := h
  rely_trans h h' hw := h' (h hw)

/-- From attributes in `A` the method leaves the tenant alone and gets back to `A`. -/
abbrev SparesTenant (tenantId : String) (H : Holdings) (pointIdOf : String → String) {τ α : Type}
    (A : τ → Prop) (m : StoreProgram τ α) : Prop :=
  Method.Maintains (besides tenantId H pointIdOf) (fun t w => A t ∧ w.Holds tenantId H pointIdOf)
    (fun _ t w => A t ∧ w.Holds tenantId H pointIdOf) m

section Rules

open Method StoreProgram

variable {tenantId : String} {H : Holdings} {pointIdOf : String → String} {τ υ α β : Type} {A : τ → Prop}

theorem sparesTenant_stable : Stable (besides tenantId H pointIdOf)
    (fun t w => A t ∧ w.Holds tenantId H pointIdOf)
    (fun (_ : PyError) t w => A t ∧ w.Holds tenantId H pointIdOf) :=
  ⟨fun hrely h => ⟨h.1, hrely h.2⟩, fun hrely h => ⟨h.1, hrely h.2⟩⟩

theorem sparesTenant_bind {m : StoreProgram τ α} {f : α → StoreProgram τ β}
    (hm : SparesTenant tenantId H pointIdOf A m) (hf : ∀ a, SparesTenant tenantId H pointIdOf A (f a)) :
    SparesTenant tenantId H pointIdOf A (m >>= f) :=
  Maintains.bind sparesTenant_stable hm hf

theorem sparesTenant_pure (a : α) : SparesTenant tenantId H pointIdOf A (pure a) :=
  Maintains.pure sparesTenant_stable a

theorem sparesTenant_assign {f : τ → τ} (hf : ∀ t, A t → A (f t)) :
    SparesTenant tenantId H pointIdOf A (assign f) :=
  Maintains.assign sparesTenant_stable fun t _ h => ⟨hf t h.1, h.2⟩

theorem sparesTenant_reraise (e : PyError) :
    SparesTenant tenantId H pointIdOf A (reraise e : StoreProgram τ α) :=
  fun _ _ hI _ hrely => ⟨hI.1, hrely hI.2⟩

theorem sparesTenant_perform {op : StoreOp α} (h : op.Avoids tenantId H pointIdOf) :
    SparesTenant tenantId H pointIdOf A (perform op) := by
  refine Maintains.perform sparesTenant_stable fun t w r w' hw hout => ?_
  have hkept := h.outcome hout hw.2
  refine ⟨fun _ => hkept, ?_⟩
  cases r with
  | ok a => exact ⟨hw.1, hkept⟩
  | error e => exact ⟨hw.1, hkept⟩

theorem sparesTenant_onStores : OnStores (besides tenantId H pointIdOf) := ⟨id, fun _ h => h⟩

/-- What an accessor returns, it has read from stores that hold what the tenant has. -/
theorem sparesTenant_tryRead {view : World → Except PyError α} {f : α → StoreProgram τ β}
    (hf : ∀ a w, w.Holds tenantId H pointIdOf → view w = .ok a →
      SparesTenant tenantId H pointIdOf A (f a)) :
    SparesTenant tenantId H pointIdOf A (tryRead view >>= f) := by
  intro t w hw
  apply wp_bind
  apply wp_tryRead sparesTenant_onStores
  · intro a w₁ w₂ hw₁ hview hw₂
    have hheld := hw₁ hw.2
    exact hf a w₁ hheld hview t w₂ ⟨hw.1, hw₂ hheld⟩
  · intro e w₁ hw₁ w₂ hw₂
    exact ⟨hw.1, hw₂ (hw₁ hw.2)⟩

theorem sparesTenant_read {view : World → α} {f : α → StoreProgram τ β}
    (hf : ∀ w, w.Holds tenantId H pointIdOf → SparesTenant tenantId H pointIdOf A (f (view w))) :
    SparesTenant tenantId H pointIdOf A (read view >>= f) := by
  refine sparesTenant_tryRead fun a w hw hview => ?_
  obtain rfl := Except.ok.inj hview
  exact hf w hw

theorem sparesTenant_self {f : τ → StoreProgram τ β}
    (hf : ∀ t, A t → SparesTenant tenantId H pointIdOf A (f t)) :
    SparesTenant tenantId H pointIdOf A (self >>= f) := by
  intro t w hw
  apply wp_bind
  apply wp_self
  intro w' hw'
  exact hf t hw.1 t w' ⟨hw.1, hw' hw.2⟩

theorem sparesTenant_forEach {body : α → StoreProgram τ Unit} {xs : List α}
    (h : ∀ x ∈ xs, SparesTenant tenantId H pointIdOf A (body x)) :
    SparesTenant tenantId H pointIdOf A (forEach xs body) :=
  Maintains.forEach sparesTenant_stable h

theorem sparesTenant_tryCatch {body : StoreProgram τ α} {handler : PyError → StoreProgram τ α}
    (hbody : SparesTenant tenantId H pointIdOf A body)
    (hhandler : ∀ e, SparesTenant tenantId H pointIdOf A (handler e)) :
    SparesTenant tenantId H pointIdOf A (tryCatch body handler) :=
  Maintains.tryCatch sparesTenant_stable hbody (fun _ _ _ h => h) hhandler

/-- A method of an object that is made for the call. -/
theorem sparesTenant_onObject {B : υ → Prop} {m : StoreProgram υ α} {t : υ} (ht : B t)
    (hm : SparesTenant tenantId H pointIdOf B m) :
    SparesTenant tenantId H pointIdOf A (onObject m t : StoreProgram τ α) := by
  intro me w hw
  apply Prog.wp_bind
  refine Prog.wp_mono ?_ (hm t w ⟨ht, hw.2⟩)
  rintro ⟨r, t'⟩ w' hw' w'' hrely
  cases r with
  | ok a => exact ⟨hw.1, hrely hw'.2⟩
  | error e => exact ⟨hw.1, hrely hw'.2⟩

end Rules

/-- The chunks of a content get ids that are none of the tenant's. -/
structure Holdings.FreshChunks (H : Holdings) (svc : Services) (content : String) (ref : VersionRef) :
    Prop where
  parents : ∀ parents children, svc.chunkMarkdown content ref = .ok (parents, children) →
    ∀ parent ∈ parents, H.ChunkFree parent.parentId ∧ H.ParentFree parent.parentId
  children : ∀ parents children, svc.chunkMarkdown content ref = .ok (parents, children) →
    ∀ child ∈ children, H.ChunkFree child.childId ∧ H.PointFree (svc.childPointId child.childId)

/-- The job owns none of the tenant's leases. -/
def Holdings.JobFree (H : Holdings) (jobId : String) : Prop := ∀ row ∈ H.builds, row.ownerJobId ≠ jobId

namespace IngestionJob

open Method StoreProgram

variable (tenantId : String) (H : Holdings) (svc : Services)

/-- The chunks in the attributes are another tenant's, with ids of their own. -/
structure ChunksApart (me : JobState) : Prop where
  parents : ∀ parent ∈ me.parentsList, parent.ref.doc.tenantId ≠ tenantId ∧
    H.ChunkFree parent.parentId ∧ H.ParentFree parent.parentId
  children : ∀ child ∈ me.childrenList, child.ref.doc.tenantId ≠ tenantId ∧
    H.ChunkFree child.childId ∧ H.PointFree (svc.childPointId child.childId) ∧ H.ParentFree child.parentId

/-- A job of another tenant. -/
structure RequestApart (req : IngestionRequest) : Prop where
  tenant : req.ref.doc.tenantId ≠ tenantId
  job : H.JobFree req.jobId
  chunks : H.FreshChunks svc req.content req.ref

variable {tenantId H svc} {req : IngestionRequest} {α : Type}

abbrev JobSpares (tenantId : String) (H : Holdings) (svc : Services) (m : JobProgram α) : Prop :=
  SparesTenant tenantId H svc.childPointId (ChunksApart tenantId H svc) m

theorem jobSpares_raise (e : PyError) : JobSpares tenantId H svc (raise e : JobProgram α) :=
  sparesTenant_perform trivial

theorem jobSpares_compareLease (owner : Option String) : JobSpares tenantId H svc (compareLease req owner) := by
  refine sparesTenant_read fun w _ => sparesTenant_self fun me _ => ?_
  exact Maintains.ite (jobSpares_raise _) (sparesTenant_pure ())

theorem jobSpares_assertOwnsBuild : JobSpares tenantId H svc (assertOwnsBuild req) :=
  sparesTenant_read fun _ _ => jobSpares_compareLease _

theorem jobSpares_validateJobIdentity : JobSpares tenantId H svc (validateJobIdentity svc req) :=
  sparesTenant_read fun _ _ => Maintains.ite (jobSpares_raise _) (sparesTenant_pure ())

/-- A child's parent is among the parents. -/
theorem parent_of_child {content : String} {ref : VersionRef} {parents : List ParentDraft}
    {children : List ChildChunk} (h : svc.chunkMarkdown content ref = .ok (parents, children))
    {child : ChildChunk} (hchild : child ∈ children) :
    ∃ parent ∈ parents, parent.parentId = child.parentId := by
  unfold Services.chunkMarkdown at h
  cases hsegs : svc.splitSections content with
  | error e => simp [hsegs, Except.map] at h
  | ok segs =>
    simp only [hsegs, Except.map, Except.ok.injEq, Prod.mk.injEq] at h
    obtain ⟨rfl, rfl⟩ := h
    obtain ⟨seg, hseg, hchild⟩ := List.mem_flatMap.mp hchild
    obtain ⟨idx, hidx, rfl⟩ := List.mem_mapIdx.mp hchild
    exact ⟨svc.parentOf ref seg, List.mem_map_of_mem hseg, rfl⟩

theorem jobSpares_ensureChunked (hreq : RequestApart tenantId H svc req) :
    JobSpares tenantId H svc (ensureChunked svc req) := by
  refine sparesTenant_self fun me _ => Maintains.ite (sparesTenant_pure ()) ?_
  cases hchunks : svc.chunkMarkdown req.content req.ref with
  | error e => exact jobSpares_raise e
  | ok chunks =>
    obtain ⟨parents, children⟩ := chunks
    obtain ⟨hparentRefs, hchildRefs⟩ := svc.chunkMarkdown_ref hchunks
    refine sparesTenant_assign fun me _ => ⟨?_, ?_⟩
    · intro parent hparent
      refine ⟨?_, hreq.chunks.parents _ _ hchunks parent hparent⟩
      rw [hparentRefs parent hparent]
      exact hreq.tenant
    · intro child hchild
      obtain ⟨hchunk, hpoint⟩ := hreq.chunks.children _ _ hchunks child hchild
      obtain ⟨parent, hparent, hid⟩ := parent_of_child hchunks hchild
      refine ⟨?_, hchunk, hpoint, ?_⟩
      · rw [hchildRefs child hchild]
        exact hreq.tenant
      · rw [← hid]
        exact (hreq.chunks.parents _ _ hchunks parent hparent).2

theorem jobSpares_stepAcquire (hreq : RequestApart tenantId H svc req) (options : RunOptions) :
    JobSpares tenantId H svc (stepAcquire svc req options) := by
  refine sparesTenant_read fun w _ => ?_
  cases hdocument : buildSourceDocument svc req with
  | error e => exact jobSpares_raise e
  | ok document =>
    have href : document.ref = req.ref :=
      congrArg DocumentColumns.ref (buildSourceDocument_columns svc req hdocument)
    refine sparesTenant_bind (sparesTenant_perform ⟨hreq.tenant, ?_⟩) fun claimed => ?_
    · rintro other ⟨⟩
      rw [href]
      exact hreq.tenant
    · refine sparesTenant_bind (sparesTenant_perform trivial) fun _ => ?_
      exact sparesTenant_assign fun me hme => ⟨hme.parents, hme.children⟩

theorem jobSpares_stepWriteParents (hreq : RequestApart tenantId H svc req) :
    JobSpares tenantId H svc (stepWriteParents svc req) := by
  refine sparesTenant_bind (jobSpares_ensureChunked hreq) fun _ => sparesTenant_self fun me hme => ?_
  refine sparesTenant_forEach fun parent hparent => sparesTenant_perform ?_
  obtain ⟨htenant, -, hfree⟩ := hme.parents parent hparent
  exact ⟨htenant, hfree⟩

/-- The points of the request's children. -/
theorem childPoints_spare {me : JobState} (hme : ChunksApart tenantId H svc me) (acl : AclFields)
    (status : PayloadStatus) : ∀ point ∈ me.childrenList.map fun child =>
      svc.childChunkToPoint child acl status false, point.Avoids tenantId H := by
  intro point hpoint
  obtain ⟨child, hchild, rfl⟩ := List.mem_map.mp hpoint
  obtain ⟨htenant, -, hfree, -⟩ := hme.children child hchild
  exact ⟨htenant, hfree⟩

theorem jobSpares_stepWriteQdrant (hreq : RequestApart tenantId H svc req) :
    JobSpares tenantId H svc (stepWriteQdrant svc req) := by
  refine sparesTenant_bind (jobSpares_ensureChunked hreq) fun _ => sparesTenant_self fun me hme => ?_
  refine sparesTenant_bind (sparesTenant_perform (childPoints_spare hme _ _)) fun _ => ?_
  refine sparesTenant_bind (sparesTenant_forEach fun child hchild => ?_) fun _ =>
    sparesTenant_forEach fun parent hparent => ?_
  · obtain ⟨-, hchunk, hpoint, hparent⟩ := hme.children child hchild
    exact sparesTenant_perform ⟨hreq.tenant, hchunk, fun _ => hpoint, fun _ _ => hparent, nofun⟩
  · obtain ⟨-, hchunk, hfree⟩ := hme.parents parent hparent
    exact sparesTenant_perform ⟨hreq.tenant, hchunk, nofun, nofun, fun _ => hfree⟩

theorem jobSpares_stepVerify (hreq : RequestApart tenantId H svc req) :
    JobSpares tenantId H svc (stepVerify svc req) := by
  have hparent : ∀ parent, JobSpares tenantId H svc (verifyParent req parent) := by
    intro parent
    refine sparesTenant_read fun w _ => ?_
    cases w.parents.get parent.parentId with
    | none => exact jobSpares_raise _
    | some stored => exact Maintains.ite (jobSpares_raise _) (sparesTenant_pure ())
  have hcommittable : JobSpares tenantId H svc (verifyCommittable req) := by
    refine sparesTenant_tryRead fun current w _ _ => ?_
    cases current with
    | none => exact jobSpares_raise _
    | some document => exact Maintains.ite (sparesTenant_pure ()) (jobSpares_raise _)
  refine sparesTenant_bind (jobSpares_ensureChunked hreq) fun _ => sparesTenant_self fun me hme => ?_
  refine sparesTenant_bind (sparesTenant_forEach fun parent _ => hparent parent) fun _ => ?_
  refine sparesTenant_bind ?_ fun _ => sparesTenant_read fun w _ =>
    Maintains.ite (jobSpares_raise _) hcommittable
  refine Maintains.ite (sparesTenant_pure ()) (sparesTenant_tryRead fun found w _ _ => ?_)
  exact Maintains.ite (jobSpares_raise _) (Maintains.ite (sparesTenant_pure ()) (jobSpares_raise _))

theorem jobSpares_stepCommit (hreq : RequestApart tenantId H svc req) :
    JobSpares tenantId H svc (stepCommit req) := by
  refine sparesTenant_bind jobSpares_assertOwnsBuild fun _ => sparesTenant_read fun w _ => ?_
  refine sparesTenant_bind (sparesTenant_perform hreq.tenant) fun _ => ?_
  exact sparesTenant_assign fun me hme => ⟨hme.parents, hme.children⟩

theorem jobSpares_publishParent {parent : ParentDraft} (hfree : H.ParentFree parent.parentId) :
    JobSpares tenantId H svc (publishParent parent) := by
  refine sparesTenant_read fun w hw => ?_
  cases hstored : w.parents.get parent.parentId with
  | none => exact sparesTenant_pure ()
  | some chunk =>
    obtain ⟨hmem, hid⟩ := Table.selectOne_some hstored
    have hsame : chunk.parentId = parent.parentId := of_decide_eq_true hid
    refine sparesTenant_perform ⟨?_, ?_⟩
    · intro htenant
      have hown : chunk ∈ H.parents := hw.parents ▸ Table.mem_select.mpr ⟨hmem, decide_eq_true htenant⟩
      exact hfree chunk hown hsame
    · intro other hother
      exact fun heq => hfree other hother (heq.trans hsame)

/-- The rows of the superseded version are rows of the request's tenant. -/
theorem jobSpares_publishSuperseded (hreq : RequestApart tenantId H svc req) (previousVersion : String) :
    JobSpares tenantId H svc (publishSuperseded svc req previousVersion) := by
  refine sparesTenant_read fun w hw => ?_
  have hrows : ∀ row ∈ w.metadata.listChunkRecords ⟨req.ref.doc, previousVersion⟩,
      row.ref.doc.tenantId ≠ tenantId ∧ H.RowApart svc.childPointId row := by
    intro row hrow
    obtain ⟨hmem, href⟩ := Table.mem_select.mp hrow
    have htenant : row.ref.doc.tenantId ≠ tenantId := by
      rw [of_decide_eq_true href]
      exact hreq.tenant
    exact ⟨htenant, hw.metadata.apart row hmem htenant⟩
  refine sparesTenant_bind (sparesTenant_forEach fun record hrecord => ?_) fun _ =>
    Maintains.ite (sparesTenant_pure ()) (sparesTenant_perform ?_)
  · obtain ⟨hrecord, hparent⟩ := List.mem_filter.mp hrecord
    exact sparesTenant_perform ((hrows record hrecord).2.parent (of_decide_eq_true hparent))
  · intro point hpoint
    obtain ⟨record, hrecord, rfl⟩ := List.mem_map.mp hpoint
    obtain ⟨hrecord, hchild⟩ := List.mem_filter.mp hrecord
    obtain ⟨htenant, hapart⟩ := hrows record hrecord
    exact ⟨htenant, hapart.point (of_decide_eq_true hchild)⟩

theorem jobSpares_stepPublish (hreq : RequestApart tenantId H svc req) :
    JobSpares tenantId H svc (stepPublish svc req) := by
  refine sparesTenant_bind jobSpares_assertOwnsBuild fun _ => ?_
  refine sparesTenant_bind (jobSpares_ensureChunked hreq) fun _ => sparesTenant_self fun me hme => ?_
  refine sparesTenant_bind (sparesTenant_perform (childPoints_spare hme _ _)) fun _ => ?_
  refine sparesTenant_bind (sparesTenant_forEach fun parent hparent => ?_) fun _ => ?_
  · exact jobSpares_publishParent (hme.parents parent hparent).2.2
  refine sparesTenant_read fun w _ => ?_
  cases w.metadata.getJobPreviousVersion req.jobId with
  | none => exact sparesTenant_pure ()
  | some version => exact Maintains.ite (sparesTenant_pure ()) (jobSpares_publishSuperseded hreq version)

theorem jobSpares_stepFinalize (hreq : RequestApart tenantId H svc req) :
    JobSpares tenantId H svc (stepFinalize svc req) := by
  refine sparesTenant_self fun me _ => sparesTenant_bind (sparesTenant_perform trivial) fun _ => ?_
  exact sparesTenant_perform hreq.job

theorem jobSpares_step (hreq : RequestApart tenantId H svc req) (name : Step) :
    JobSpares tenantId H svc (step svc req name) := by
  cases name with
  | acquire => exact sparesTenant_pure ()
  | parse => exact sparesTenant_assign fun me hme => ⟨hme.parents, hme.children⟩
  | chunk => exact jobSpares_ensureChunked hreq
  | writeParents => exact jobSpares_stepWriteParents hreq
  | writeQdrant => exact jobSpares_stepWriteQdrant hreq
  | verify => exact jobSpares_stepVerify hreq
  | commit => exact jobSpares_stepCommit hreq
  | publish => exact jobSpares_stepPublish hreq
  | finalize => exact jobSpares_stepFinalize hreq

theorem jobSpares_removeArtifacts (hreq : RequestApart tenantId H svc req) :
    JobSpares tenantId H svc (removeArtifacts svc req) := by
  refine sparesTenant_bind (jobSpares_ensureChunked hreq) fun _ => sparesTenant_self fun me hme => ?_
  refine sparesTenant_bind (sparesTenant_perform ?_) fun _ => ?_
  · intro pointId hid
    obtain ⟨child, hchild, rfl⟩ := List.mem_map.mp hid
    exact (hme.children child hchild).2.2.1
  refine sparesTenant_bind (sparesTenant_forEach fun parent hparent => ?_) fun _ => ?_
  · exact sparesTenant_perform (hme.parents parent hparent).2.2
  refine sparesTenant_bind (sparesTenant_perform hreq.tenant) fun _ => ?_
  exact sparesTenant_bind (sparesTenant_perform trivial) fun _ => sparesTenant_perform hreq.tenant

theorem jobSpares_onException (hreq : RequestApart tenantId H svc req) (e : PyError) :
    JobSpares tenantId H svc (onException svc req e) := by
  have howns : JobSpares tenantId H svc (stillOwnsBuild req) := by
    refine sparesTenant_tryCatch ?_ fun e => ?_
    · exact sparesTenant_bind jobSpares_assertOwnsBuild fun _ => sparesTenant_pure true
    · cases e with
      | buildConflict reason => exact sparesTenant_pure false
      | _ => exact sparesTenant_reraise _
  have hfail : ∀ e, JobSpares tenantId H svc (fail svc req e) := by
    intro e
    refine sparesTenant_bind (sparesTenant_self fun me _ => Maintains.ite (sparesTenant_pure ()) ?_) fun _ => ?_
    · refine sparesTenant_bind howns fun owns => ?_
      exact Maintains.ite (jobSpares_removeArtifacts hreq) (sparesTenant_pure ())
    · exact sparesTenant_bind (sparesTenant_perform hreq.job) fun _ => sparesTenant_pure _
  cases e with
  | buildConflict reason => exact sparesTenant_pure _
  | _ => exact hfail _

theorem jobSpares_guardedBuild (hreq : RequestApart tenantId H svc req) (options : RunOptions) :
    JobSpares tenantId H svc (guardedBuild svc req options) := by
  refine sparesTenant_tryCatch ?_ (jobSpares_onException hreq)
  refine sparesTenant_bind (jobSpares_stepAcquire hreq options) fun _ => ?_
  refine sparesTenant_bind (sparesTenant_forEach fun name _ => ?_) fun _ => ?_
  · refine sparesTenant_read fun w _ => Maintains.ite (sparesTenant_pure ()) ?_
    exact sparesTenant_bind (jobSpares_step hreq name) fun _ => sparesTenant_perform trivial
  · exact Maintains.ite (sparesTenant_pure _) (sparesTenant_self fun me _ => sparesTenant_pure _)

theorem jobSpares_shortCircuit (hreq : RequestApart tenantId H svc req) :
    JobSpares tenantId H svc (shortCircuitAlreadyIndexed svc req) := by
  refine sparesTenant_read fun w _ => Maintains.ite (jobSpares_raise _) ?_
  refine sparesTenant_read fun w _ => Maintains.ite ?_ (sparesTenant_pure _)
  exact sparesTenant_bind (sparesTenant_perform hreq.job) fun _ => sparesTenant_pure _

/-- A run of a job of another tenant. -/
theorem jobSpares_runBody (hreq : RequestApart tenantId H svc req) (options : RunOptions) :
    JobSpares tenantId H svc (runBody svc req options) := by
  have hbuild := jobSpares_guardedBuild hreq options
  have hshort := jobSpares_shortCircuit hreq
  refine sparesTenant_bind jobSpares_validateJobIdentity fun _ => ?_
  refine sparesTenant_tryRead fun existing w _ _ => ?_
  cases existing with
  | none => exact hbuild
  | some document =>
    refine Maintains.ite (jobSpares_raise _) (Maintains.ite ?_ (Maintains.ite hshort hbuild))
    refine sparesTenant_read fun w _ => ?_
    cases w.metadata.getBuildOwner req.ref with
    | none => exact hbuild
    | some owner =>
      exact Maintains.ite hbuild (sparesTenant_read fun w _ => Maintains.ite hshort hbuild)

end IngestionJob

namespace DocumentManager

open Method StoreProgram

variable {tenantId : String} {H : Holdings} {svc : Services} {α β : Type}

abbrev CallSpares (tenantId : String) (H : Holdings) (svc : Services) (m : ManagerProgram α) : Prop :=
  SparesTenant tenantId H svc.childPointId (fun _ => True) m

theorem callSpares_raise (e : PyError) : CallSpares tenantId H svc (raise e : ManagerProgram α) :=
  sparesTenant_perform trivial

/-- The points that are listed for a version of another tenant have ids of their own. -/
theorem callSpares_listPointIds {name : String} {ref : VersionRef} (htenant : ref.doc.tenantId ≠ tenantId)
    {f : List String → ManagerProgram β}
    (hf : ∀ pointIds, (∀ pointId ∈ pointIds, H.PointFree pointId) → CallSpares tenantId H svc (f pointIds)) :
    CallSpares tenantId H svc (listPointIds name ref >>= f) := by
  refine sparesTenant_tryRead fun pointIds w hw hlisted => hf pointIds fun pointId hid => ?_
  unfold VectorStore.listPointIdsByDocument VectorStore.scrollAll at hlisted
  have hothers := hw.vectors.apart name
  cases hpoints : w.vectors name with
  | none => simp [hpoints, Except.map] at hlisted
  | some points =>
    simp only [hpoints, Except.map, Except.ok.injEq] at hlisted
    rw [hpoints] at hothers
    subst hlisted
    obtain ⟨point, hpoint, rfl⟩ := List.mem_map.mp hid
    obtain ⟨hmem, href⟩ := List.mem_filter.mp hpoint
    apply hothers point hmem
    rw [of_decide_eq_true href]
    exact htenant

theorem callSpares_ingest {ref : VersionRef} {content jobId : String} (htenant : ref.doc.tenantId ≠ tenantId)
    (hjob : H.JobFree jobId) (hchunks : H.FreshChunks svc content ref) (acl : ResourceAcl)
    (source : SourceMeta) (options : RunOptions) :
    CallSpares tenantId H svc (ingest svc ref content acl jobId source options) := by
  unfold ingest
  split
  · rename_i hacl
    have hreq : IngestionJob.RequestApart tenantId H svc ⟨ref, content, acl, jobId, source, hacl⟩ :=
      ⟨htenant, hjob, hchunks⟩
    refine sparesTenant_onObject (B := IngestionJob.ChunksApart tenantId H svc) ?_
      (IngestionJob.jobSpares_runBody hreq options)
    exact ⟨nofun, nofun⟩
  · exact callSpares_raise _

section Calls

variable {ctx : SecurityContext} {corpusId documentId : String}

/-- What follows `_resolve_active`, whose document is the caller's. -/
theorem callSpares_resolveActive {f : SourceDocument → ManagerProgram β}
    (hf : ∀ document : SourceDocument, document.ref.doc = ⟨ctx.tenantId, corpusId, documentId⟩ →
      CallSpares tenantId H svc (f document)) :
    CallSpares tenantId H svc (resolveActive ctx corpusId documentId >>= f) := by
  intro t w hw
  apply wp_bind
  apply wp_bind
  apply wp_tryRead sparesTenant_onStores
  · intro found w₁ w₂ hw₁ hfound hw₂
    have hheld := hw₂ (hw₁ hw.2)
    cases found with
    | none =>
      apply wp_raise sparesTenant_onStores
      intro e w₃ hw₃ w₄ hw₄
      exact ⟨trivial, hw₄ (hw₃ hheld)⟩
    | some document =>
      dsimp only
      split
      · apply wp_pure
        intro w₃ hw₃
        exact hf document (MetadataStore.getActiveDocument_doc hfound) t w₃ ⟨trivial, hw₃ hheld⟩
      · apply wp_raise sparesTenant_onStores
        intro e w₃ hw₃ w₄ hw₄
        exact ⟨trivial, hw₄ (hw₃ hheld)⟩
  · intro e w₁ hw₁ w₂ hw₂ w₃ hw₃
    exact ⟨trivial, hw₃ (hw₂ (hw₁ hw.2))⟩

theorem callSpares_delete (htenant : ctx.tenantId ≠ tenantId) :
    CallSpares tenantId H svc (delete ctx corpusId documentId) := by
  refine sparesTenant_tryRead fun found w _ hfound => ?_
  cases found with
  | none => exact callSpares_raise _
  | some document =>
    have hdoc : document.ref.doc = ⟨ctx.tenantId, corpusId, documentId⟩ :=
      MetadataStore.getDocumentLatest_doc hfound
    have hother : document.ref.doc.tenantId ≠ tenantId := by
      rw [hdoc]
      exact htenant
    refine Maintains.ite (callSpares_raise _) (Maintains.ite (sparesTenant_pure ()) ?_)
    refine sparesTenant_bind (sparesTenant_perform hother) fun _ => sparesTenant_read fun w _ => ?_
    refine callSpares_listPointIds hother fun pointIds hfree => ?_
    exact sparesTenant_bind (sparesTenant_perform hfree) fun _ => sparesTenant_perform hother

theorem callSpares_reconcilePurge {doc : DocRef} (htenant : doc.tenantId ≠ tenantId) :
    CallSpares tenantId H svc (reconcilePurge doc) := by
  have hversion : ∀ name (ref : VersionRef), ref.doc.tenantId ≠ tenantId →
      CallSpares tenantId H svc (purgeVersion name ref) := by
    intro name ref hother
    refine callSpares_listPointIds hother fun pointIds hfree => ?_
    refine sparesTenant_bind (sparesTenant_perform hfree) fun _ => ?_
    exact sparesTenant_bind (sparesTenant_perform hother) fun _ => sparesTenant_perform hother
  refine sparesTenant_read fun w _ => sparesTenant_read fun w _ => ?_
  refine sparesTenant_bind (sparesTenant_forEach fun version _ => ?_) fun _ => sparesTenant_perform htenant
  exact hversion _ ⟨doc, version⟩ htenant

theorem callSpares_purge (htenant : ctx.tenantId ≠ tenantId) :
    CallSpares tenantId H svc (purge ctx corpusId documentId) := by
  refine sparesTenant_tryRead fun found w _ hfound => ?_
  cases found with
  | none => exact sparesTenant_pure ()
  | some document =>
    have hdoc : document.ref.doc = ⟨ctx.tenantId, corpusId, documentId⟩ :=
      MetadataStore.getDocumentLatest_doc hfound
    refine Maintains.ite (callSpares_raise _) (Maintains.ite (callSpares_raise _) ?_)
    apply callSpares_reconcilePurge
    rw [hdoc]
    exact htenant

theorem callSpares_tightenAcl (htenant : ctx.tenantId ≠ tenantId) (acl : ResourceAcl) :
    CallSpares tenantId H svc (tightenAcl ctx corpusId documentId acl) := by
  refine callSpares_resolveActive fun document hdoc => Maintains.ite (callSpares_raise _) ?_
  have hother : document.ref.doc.tenantId ≠ tenantId := by
    rw [hdoc]
    exact htenant
  refine sparesTenant_bind (sparesTenant_perform hother) fun _ => sparesTenant_read fun w _ => ?_
  refine callSpares_listPointIds hother fun pointIds hfree => ?_
  exact sparesTenant_bind (sparesTenant_perform hfree) fun _ => sparesTenant_perform hother

theorem callSpares_update {args : UpdateArgs} (htenant : args.tenantId.getD ctx.tenantId ≠ tenantId)
    (hjob : H.JobFree args.jobId) (hchunks : H.FreshChunks svc args.content
      ⟨⟨args.tenantId.getD ctx.tenantId, corpusId, documentId⟩, args.version svc⟩) :
    CallSpares tenantId H svc (update svc ctx corpusId documentId args) := by
  refine callSpares_resolveActive fun document hdoc => ?_
  rw [hdoc]
  exact callSpares_ingest htenant hjob hchunks _ _ _

theorem callSpares_syncVersion {doc : DocRef} (htenant : doc.tenantId ≠ tenantId) (name : String)
    (version : Option String) (active : Bool) :
    CallSpares tenantId H svc (syncVersion name doc version active) := by
  cases version with
  | none => exact sparesTenant_pure ()
  | some version =>
    have hother : (⟨doc, version⟩ : VersionRef).doc.tenantId ≠ tenantId := htenant
    refine callSpares_listPointIds hother fun pointIds hfree => Maintains.ite ?_ ?_
    · exact sparesTenant_bind (sparesTenant_perform hfree) fun _ => sparesTenant_perform hother
    · exact sparesTenant_bind (sparesTenant_perform hfree) fun _ => sparesTenant_perform hother

theorem callSpares_rollbackActiveVersion {doc : DocRef} (htenant : doc.tenantId ≠ tenantId)
    (toVersion : Option String) (expectedRevision : Option Nat) :
    CallSpares tenantId H svc (rollbackActiveVersion doc toVersion expectedRevision) := by
  refine sparesTenant_bind (sparesTenant_perform htenant) fun switched => ?_
  have htarget : CallSpares tenantId H svc (rolledBackTo doc toVersion) := by
    cases toVersion with
    | none => exact sparesTenant_perform trivial
    | some version => exact sparesTenant_pure _
  refine sparesTenant_bind htarget fun target => sparesTenant_read fun w _ => ?_
  refine sparesTenant_bind (sparesTenant_tryCatch ?_ fun e => ?_) fun _ => sparesTenant_pure _
  · refine sparesTenant_bind (callSpares_syncVersion htenant _ _ _) fun _ => ?_
    exact callSpares_syncVersion htenant _ _ _
  · exact sparesTenant_bind (sparesTenant_perform trivial) fun _ => sparesTenant_reraise e

/-- The tenant has no child row of a version with this corpus, document and version. -/
def NoNamesake (H : Holdings) (ref : VersionRef) : Prop :=
  ∀ row ∈ H.chunks, row.chunkType = .child → row.ref.doc.corpusId = ref.doc.corpusId →
    row.ref.doc.documentId = ref.doc.documentId → row.ref.version ≠ ref.version

theorem callSpares_rebuildDocument {ref : VersionRef} (htenant : ref.doc.tenantId ≠ tenantId)
    (hnone : NoNamesake H ref) : CallSpares tenantId H svc (rebuildDocument svc ref) := by
  refine sparesTenant_read fun _ _ => sparesTenant_read fun w hw => ?_
  have hrows : ∀ row ∈ childChunksOf ref.doc.corpusId ref.doc.documentId ref.version w.metadata,
      row.ref.doc.tenantId ≠ tenantId ∧ row.chunkType = .child ∧ H.RowApart svc.childPointId row := by
    intro row hrow
    obtain ⟨hmem, hselected⟩ := List.mem_filter.mp hrow
    obtain ⟨hcorpus, hchild, hdocument, hversion⟩ := of_decide_eq_true hselected
    have hother : row.ref.doc.tenantId ≠ tenantId := by
      intro hown
      have hheld : row ∈ H.chunks :=
        hw.metadata.chunks ▸ Table.mem_select.mpr ⟨hmem, decide_eq_true hown⟩
      exact hnone row hheld hchild hcorpus hdocument hversion
    exact ⟨hother, hchild, hw.metadata.apart row hmem hother⟩
  refine sparesTenant_bind (sparesTenant_perform ?_) fun _ => sparesTenant_forEach fun parentId _ => ?_
  · intro point hpoint
    obtain ⟨row, hrow, rfl⟩ := List.mem_map.mp hpoint
    obtain ⟨hother, hchild, hapart⟩ := hrows row hrow
    exact ⟨hother, hapart.point hchild⟩
  · by_cases hempty : parentId = ""
    · rw [if_pos hempty]
      exact sparesTenant_pure ()
    rw [if_neg hempty]
    unfold rebuiltParent
    cases hchildren : childrenOfParent
        (childChunksOf ref.doc.corpusId ref.doc.documentId ref.version w.metadata) parentId with
    | nil => exact sparesTenant_pure ()
    | cons first rest =>
      have hfirst : first ∈ childrenOfParent
          (childChunksOf ref.doc.corpusId ref.doc.documentId ref.version w.metadata) parentId := by
        rw [hchildren]
        exact List.mem_cons_self
      obtain ⟨hmem, hparent⟩ := List.mem_filter.mp ((List.mem_insertionSort _).mp hfirst)
      obtain ⟨-, hchild, hapart⟩ := hrows first hmem
      have hid : first.parentId.getD "" = parentId := of_decide_eq_true hparent
      have hfree := hapart.parentOf hchild (by rwa [hid])
      rw [hid] at hfree
      exact sparesTenant_perform ⟨htenant, hfree⟩

end Calls

end DocumentManager

inductive ManagerCall where
  | ingest (ref : VersionRef) (content : String) (acl : ResourceAcl) (jobId : String) (source : SourceMeta)
      (options : RunOptions)
  | update (ctx : SecurityContext) (corpusId documentId : String) (args : DocumentManager.UpdateArgs)
  | delete (ctx : SecurityContext) (corpusId documentId : String)
  | purge (ctx : SecurityContext) (corpusId documentId : String)
  | tightenAcl (ctx : SecurityContext) (corpusId documentId : String) (acl : ResourceAcl)
  | rollbackActiveVersion (doc : DocRef) (toVersion : Option String) (expectedRevision : Option Nat)
  | rebuildDocument (ref : VersionRef)
  | reconcilePurge (doc : DocRef)

namespace ManagerCall

def tenantId : ManagerCall → String
  | .ingest ref _ _ _ _ _ | .rebuildDocument ref => ref.doc.tenantId
  | .update ctx _ _ _ | .delete ctx _ _ | .purge ctx _ _ | .tightenAcl ctx _ _ _ => ctx.tenantId
  | .rollbackActiveVersion doc _ _ | .reconcilePurge doc => doc.tenantId

def program (svc : Services) : ManagerCall → Prog StoreOp PyError Unit
  | .ingest ref content acl jobId source options =>
    (DocumentManager.ingest svc ref content acl jobId source options).launch ()
  | .update ctx corpusId documentId args => (DocumentManager.update svc ctx corpusId documentId args).launch ()
  | .delete ctx corpusId documentId => (DocumentManager.delete ctx corpusId documentId).launch ()
  | .purge ctx corpusId documentId => (DocumentManager.purge ctx corpusId documentId).launch ()
  | .tightenAcl ctx corpusId documentId acl =>
    (DocumentManager.tightenAcl ctx corpusId documentId acl).launch ()
  | .rollbackActiveVersion doc toVersion expectedRevision =>
    (DocumentManager.rollbackActiveVersion doc toVersion expectedRevision).launch ()
  | .rebuildDocument ref => (DocumentManager.rebuildDocument svc ref).launch ()
  | .reconcilePurge doc => (DocumentManager.reconcilePurge doc).launch ()

/-- The call uses no id of the tenant: a job has an id of its own and makes chunks with ids of
their own, an update does not name the tenant in `**meta`, and a rebuild finds none of the
tenant's child rows. -/
def Apart (svc : Services) (tenantId : String) (H : Holdings) : ManagerCall → Prop
  | .ingest ref content _ jobId _ _ => H.JobFree jobId ∧ H.FreshChunks svc content ref
  | .update ctx corpusId documentId args => args.tenantId ≠ some tenantId ∧ H.JobFree args.jobId ∧
      H.FreshChunks svc args.content
        ⟨⟨args.tenantId.getD ctx.tenantId, corpusId, documentId⟩, args.version svc⟩
  | .rebuildDocument ref => DocumentManager.NoNamesake H ref
  | _ => True

/-- A call for another tenant that uses no id of the tenant leaves it alone. -/
theorem Apart.spares {svc : Services} {H : Holdings} {call : ManagerCall} {tenantId : String}
    (h : call.Apart svc tenantId H) (hother : call.tenantId ≠ tenantId) {w : World}
    (hw : w.Holds tenantId H svc.childPointId) :
    (call.program svc).wp (besides tenantId H svc.childPointId) (fun _ _ => True) w := by
  have hlaunch : ∀ {α : Type} {m : ManagerProgram α}, DocumentManager.CallSpares tenantId H svc m →
      (m.launch ()).wp (besides tenantId H svc.childPointId) (fun _ _ => True) w :=
    fun hm => Method.wp_launch (Method.wp_mono (fun _ _ _ _ => trivial) (hm () w ⟨trivial, hw⟩))
  cases call with
  | ingest ref content acl jobId source options =>
    exact hlaunch (DocumentManager.callSpares_ingest hother h.1 h.2 _ _ _)
  | update ctx corpusId documentId args =>
    have htenant : args.tenantId.getD ctx.tenantId ≠ tenantId := by
      cases hnamed : args.tenantId with
      | none => exact hother
      | some named => exact fun hsame => h.1 (hnamed.trans (congrArg some hsame))
    exact hlaunch (DocumentManager.callSpares_update htenant h.2.1 h.2.2)
  | delete ctx corpusId documentId => exact hlaunch (DocumentManager.callSpares_delete hother)
  | purge ctx corpusId documentId => exact hlaunch (DocumentManager.callSpares_purge hother)
  | tightenAcl ctx corpusId documentId acl => exact hlaunch (DocumentManager.callSpares_tightenAcl hother acl)
  | rollbackActiveVersion doc toVersion expectedRevision =>
    exact hlaunch (DocumentManager.callSpares_rollbackActiveVersion hother _ _)
  | rebuildDocument ref => exact hlaunch (DocumentManager.callSpares_rebuildDocument hother h)
  | reconcilePurge doc => exact hlaunch (DocumentManager.callSpares_reconcilePurge hother)

end ManagerCall

/-- Calls for one tenant, any number of them at a time; the clock moves on its own. -/
def tenantSystem (svc : Services) (caller : String) : System World StoreOp PyError ManagerCall Unit where
  out := StoreOp.Outcome
  env w w' := ∃ clock, w' = { w with clock }
  start := ManagerCall.program svc
  mayStart _ call := call.tenantId = caller

/-- Every call that starts uses no id of what the tenant has at that time. -/
def CallsApart (svc : Services) (tenantId : String) :
    System.StepCondition World StoreOp PyError ManagerCall Unit :=
  fun P label _ => ∀ call, label = .spawn call → call.Apart svc tenantId (P.store.holdings tenantId)

theorem tenantSystem_disciplined {svc : Services} {caller tenantId : String} (hother : caller ≠ tenantId)
    {w : World} (hapart : w.OthersApart svc.childPointId tenantId) :
    System.DisciplinedBy (tenantSystem svc caller) (CallsApart svc tenantId)
      (besides tenantId (w.holdings tenantId) svc.childPointId).rely
      (fun _ => besides tenantId (w.holdings tenantId) svc.childPointId) w where
  refl _ h := h
  trans h h' hw := h' (h hw)
  absorbs _ _ _ h := h
  out h _ := h
  env := by
    rintro w₁ w₂ ⟨clock, rfl⟩ hw
    exact ⟨hw.metadata, hw.vectors, hw.parents⟩
  guar _ _ _ h := h
  start := by
    intro P call hstart hcond hrely
    have hheld := hrely hapart.holds
    have hcall := hcond call rfl
    rw [hheld.holdings] at hcall
    apply hcall.spares _ hheld
    rw [show call.tenantId = caller from hstart]
    exact hother

/-- In every run of calls for another tenant that use none of its ids, what a tenant holds stays as it is:
documents, leases, chunk rows, points and parents. Calls interleave, fail and crash as they like; the
condition is on each call in the state in which it starts. -/
theorem holdings_unchanged {svc : Services} {caller tenantId : String} (hother : caller ≠ tenantId) {w : World}
    (hapart : w.OthersApart svc.childPointId tenantId) {P : Pool World StoreOp PyError ManagerCall Unit}
    (hrun : (tenantSystem svc caller).Reaches (CallsApart svc tenantId) ⟨w, []⟩ P) :
    P.store.holdings tenantId = w.holdings tenantId := by
  have hdisciplined := tenantSystem_disciplined hother hapart
  have hkept := (hdisciplined.run (.empty hdisciplined) hrun).1
  exact (hkept.store hapart.holds).holdings

/-- The schedulable part of the system. -/
def tenantMachine (svc : Services) (caller : String) : System.Machine (tenantSystem svc caller) Choice where
  eval c op w := op.answer w c
  admits _ call := decide (call.tenantId = caller)
  eval_out c op w := op.answer_outcome w c
  admits_mayStart _ call h := of_decide_eq_true (p := call.tenantId = caller) h

/-- The stores after one of the two tenants of a corpus has ingested a version. -/
private def ingestedByOne : World :=
  ((IngestionJob.run Sample.services (Sample.request "job" "1" "text") (Sample.attempt "a")).exec
    StoreOp.eval { Sample.world with
      metadata.corpora := [⟨"policies", "acme", none⟩, ⟨"policies", "globex", none⟩] }).2

/-- The same stores, whose only collection is that of the corpus. -/
private def sharedCorpus : World :=
  { ingestedByOne with
    vectors := fun name => if name = "policies" then ingestedByOne.vectors "policies" else none }

/-- All rows and points are those of the tenant that has ingested. -/
private theorem sharedCorpus_apart : sharedCorpus.OthersApart Sample.services.childPointId "acme" := by
  have hrows : ∀ row ∈ sharedCorpus.metadata.chunks, row.ref.doc.tenantId = "acme" := by decide +kernel
  have hpoints : ∀ point ∈ (sharedCorpus.vectors "policies").getD [],
      point.payload.ref.doc.tenantId = "acme" := by decide +kernel
  refine ⟨fun row hrow htenant => absurd (hrows row hrow) htenant, fun name point hpoint htenant => ?_⟩
  by_cases hname : name = "policies"
  · subst hname
    exact absurd (hpoints point hpoint) htenant
  · simp [sharedCorpus, hname] at hpoint

/-- The other tenant calls for its version of the same name, and the call runs to its end. -/
private def afterCall (call : ManagerCall) : Pool World StoreOp PyError ManagerCall Unit :=
  (tenantMachine Sample.services "globex").play ⟨sharedCorpus, []⟩
    (.spawn call :: List.replicate 12 (.step 0 .normal))

/-- A rebuild of a version that it does not even have takes the parents of the other tenant over. -/
theorem holdings_unchanged_counterexample :
    sharedCorpus.OthersApart Sample.services.childPointId "acme" ∧
      (tenantSystem Sample.services "globex").Reaches (fun _ _ _ => True) ⟨sharedCorpus, []⟩
        (afterCall (.rebuildDocument ⟨⟨"globex", "policies", "travel"⟩, "1"⟩)) ∧
      (afterCall (.rebuildDocument ⟨⟨"globex", "policies", "travel"⟩, "1"⟩)).store.holdings "acme" ≠
        sharedCorpus.holdings "acme" := by
  refine ⟨sharedCorpus_apart, (tenantMachine Sample.services "globex").play_reaches _ _, fun h => ?_⟩
  have hparents := congrArg (fun H => H.parents.length) h
  revert hparents
  decide +kernel

private def onlyPurges : Label StoreOp PyError ManagerCall Unit → Bool
  | .spawn (.reconcilePurge _) => true
  | .spawn _ => false
  | _ => true

private theorem onlyPurges_apart {P P' : Pool World StoreOp PyError ManagerCall Unit}
    {label : Label StoreOp PyError ManagerCall Unit} (h : onlyPurges label = true) :
    CallsApart Sample.services "acme" P label P' := by
  rintro call rfl
  cases call with
  | reconcilePurge doc => trivial
  | _ => cases h

/-- A purge of the same version leaves them where they are. -/
theorem holdings_unchanged_purge :
    (afterCall (.reconcilePurge ⟨"globex", "policies", "travel"⟩)).store.holdings "acme" =
      sharedCorpus.holdings "acme" := by
  apply holdings_unchanged (show "globex" ≠ "acme" by decide) sharedCorpus_apart
  exact (tenantMachine Sample.services "globex").passes_reaches (fun _ _ _ => onlyPurges_apart) _ _
    (by decide +kernel)

end AgenticRag
