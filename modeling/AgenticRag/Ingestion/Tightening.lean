import AgenticRag.Foundations.Beside
import AgenticRag.Ingestion.DeletedVersions
import AgenticRag.Storage.Artifacts

/-!
# An ACL tightening beside the jobs of the document

`tighten_acl` resolves the active version, commits the new ACL for it and then
patches its points and parents. The commit is silently skipped when the resolved
version is no longer active, so a job that commits in between leaves another version
active with the old ACL, and a job that publishes in between writes the old ACL of
its request again. Without these two the new ACL stays in force in all three stores.
-/

namespace AgenticRag

open MetadataStore StoreProgram Method

/-- The points of a collection; a missing collection has none. -/
def World.points (w : World) (name : String) : List Point := (w.vectors name).getD []

section Facts

variable (ref : VersionRef) (acl : AclFields)

/-- The version row has the ACL and is out of reach of an acquire. -/
def RowHas (s : MetadataStore) : Prop :=
  ∃ row ∈ s.documents, row.ref = ref ∧ row.acl = acl ∧ row.status ≠ .processing ∧
    row.status ≠ .failed

/-- The visible points of the version have the ACL, up to those with the given ids. -/
def PointsHave (ids : List String) (points : List Point) : Prop :=
  ∀ point ∈ points, point.payload.ref = ref → point.payload.Visible →
    point.payload.acl = acl ∨ point.id ∈ ids

def ParentsHave (parents : ParentStore) : Prop :=
  ∀ parent ∈ parents, parent.ref = ref → parent.Visible → parent.metadata.acl = acl

/-- Everything a reader of the version is shown carries the ACL. -/
structure InForce (w : World) : Prop where
  row : RowHas ref acl w.metadata
  points : PointsHave ref acl [] (w.points (w.resolveCollectionName ref.doc.corpusId))
  parents : ParentsHave ref acl w.parents

end Facts

/-- No ACL that a version row carries is undone in the data planes. -/
structure Undisturbed (w w' : World) : Prop where
  pointers : w'.pointers = w.pointers
  row : ∀ ref acl, RowHas ref acl w.metadata → RowHas ref acl w'.metadata
  points : ∀ ref acl, RowHas ref acl w.metadata → ∀ name ids,
    PointsHave ref acl ids (w.points name) → PointsHave ref acl ids (w'.points name)
  parents : ∀ ref acl, RowHas ref acl w.metadata →
    ParentsHave ref acl w.parents → ParentsHave ref acl w'.parents

theorem Undisturbed.refl (w : World) : Undisturbed w w :=
  ⟨rfl, fun _ _ h => h, fun _ _ _ _ _ h => h, fun _ _ _ h => h⟩

theorem Undisturbed.trans {w w' w'' : World} (h : Undisturbed w w') (h' : Undisturbed w' w'') :
    Undisturbed w w'' where
  pointers := h'.pointers.trans h.pointers
  row ref acl hrow := h'.row ref acl (h.row ref acl hrow)
  points ref acl hrow name ids hpoints :=
    h'.points ref acl (h.row ref acl hrow) name ids (h.points ref acl hrow name ids hpoints)
  parents ref acl hrow hparents :=
    h'.parents ref acl (h.row ref acl hrow) (h.parents ref acl hrow hparents)

theorem InForce.undisturbed {ref : VersionRef} {acl : AclFields} {w w' : World}
    (h : Undisturbed w w') (hw : InForce ref acl w) : InForce ref acl w' where
  row := h.row ref acl hw.row
  points := by
    have hname : w'.resolveCollectionName ref.doc.corpusId =
        w.resolveCollectionName ref.doc.corpusId := by
      simp only [World.resolveCollectionName, h.pointers]
    rw [hname]
    exact h.points ref acl hw.row _ _ hw.points
  parents := h.parents ref acl hw.row hw.parents

section Accesses

/-- The methods of jobs and deletes on the metadata store. -/
def MetadataOp.LeavesAcl {β : Type} : MetadataOp β → Prop
  | .acquireJobTransaction args => ∀ document ∈ args.document, document.status = .processing
  | .updateDocumentAcl _ _ => False
  | .rollbackActiveVersion _ _ _ => False
  | .deleteDocument _ => False
  | _ => True

/-- The accesses of jobs and deletes, whatever they write as visible. -/
def StoreOp.LeavesAcl {β : Type} : StoreOp β → Prop
  | .metadata op => op.LeavesAcl
  | .vectors (.updatePayload _ _ patch) _ => patch = .lifecycle .deleted true
  | .parents (.activateDocument _) _ => False
  | .parents (.updateAclDocument _ _) _ => False
  | .setPointer _ _ _ => False
  | _ => True

/-- What the access makes visible carries the ACL of its version row. -/
def StoreOp.AclAgrees {β : Type} (op : StoreOp β) (w : World) : Prop :=
  match op with
  | .vectors (.upsert _ batch) _ =>
    ∀ point ∈ batch, point.payload.Visible → ∀ row ∈ w.metadata.documents,
      row.ref = point.payload.ref → point.payload.acl = row.acl
  | .parents (.put chunk) _ =>
    chunk.Visible → ∀ row ∈ w.metadata.documents, row.ref = chunk.ref → chunk.metadata.acl = row.acl
  | _ => True

variable {ref : VersionRef} {acl : AclFields} {s t : MetadataStore}

theorem RowHas.same (h : t.documents = s.documents) (hs : RowHas ref acl s) : RowHas ref acl t := by
  obtain ⟨row, hrow, hrest⟩ := hs
  exact ⟨row, h ▸ hrow, hrest⟩

/-- An update that keeps the ACL of the rows an acquire cannot reach. -/
theorem RowHas.update {p : DocumentRow → Bool} {f : DocumentRow → DocumentRow}
    (ht : t.documents = Table.update p f s.documents)
    (hf : ∀ row ∈ s.documents, p row = true → row.status ≠ .processing → row.status ≠ .failed →
      (f row).ref = row.ref ∧ (f row).acl = row.acl ∧ (f row).status ≠ .processing ∧
        (f row).status ≠ .failed) (hs : RowHas ref acl s) : RowHas ref acl t := by
  obtain ⟨row, hrow, href, hacl, hprocessing, hfailed⟩ := hs
  cases hp : p row with
  | true =>
    obtain ⟨href', hacl', hprocessing', hfailed'⟩ := hf row hrow hp hprocessing hfailed
    refine ⟨f row, ?_, href'.trans href, hacl'.trans hacl, hprocessing', hfailed'⟩
    rw [ht]
    exact Table.mem_update.mpr (Or.inl ⟨row, hrow, hp, rfl⟩)
  | false =>
    refine ⟨row, ?_, href, hacl, hprocessing, hfailed⟩
    rw [ht]
    exact Table.mem_update.mpr (Or.inr ⟨hrow, hp⟩)

theorem MetadataOp.LeavesAcl.row {β : Type} {op : MetadataOp β} (hop : op.LeavesAcl)
    {now : Timestamp} {r : Except PyError β} (hinv : LifecycleInvariant s)
    (hrun : op.eval now s = (r, t)) (hs : RowHas ref acl s) : RowHas ref acl t := by
  cases op with
  | acquireJobTransaction args =>
    cases r with
    | error e =>
      rw [Routine.transaction_error hrun]
      exact hs
    | ok claimed =>
      rcases acquireJobTransaction_documents hop hrun with hsame | ⟨row, -, -, -, ht⟩ |
        ⟨columns, row, hrow, href, hopen, -, ht⟩
      · exact hs.same hsame
      · obtain ⟨old, hold, hrest⟩ := hs
        exact ⟨old, by rw [ht]; exact Table.mem_insert.mpr (Or.inl hold), hrest⟩
      · refine hs.update ht fun other hother hof hprocessing hfailed => ?_
        -- the refreshed row was never activated
        have hsame := hinv.keys.eq_of_key hother hrow ((of_decide_eq_true hof).trans href.symm)
        rw [hsame] at hprocessing hfailed
        rcases hopen with hopen | hopen
        · exact absurd hopen hprocessing
        · exact absurd hopen hfailed
  | commitActiveVersion doc newVersion expectedRevision =>
    rcases commitActiveVersion_cases hrun with ⟨-, -, rfl⟩ | ⟨hother, -, -, rfl, -⟩ | ⟨-, -, rfl⟩
    · exact hs
    · obtain ⟨row, hrow, href, hacl, hprocessing, hfailed⟩ := hs
      by_cases hnew : row.ref = ⟨doc, newVersion⟩
      · exact ⟨_, (mem_switchDocuments hother).mpr (Or.inl ⟨row, hrow, hnew, rfl⟩), href, hacl,
          by simp [activateRow], by simp [activateRow]⟩
      · by_cases hprevious : ∃ v ∈ s.getActiveVersion doc, row.ref = ⟨doc, v⟩
        · exact ⟨_, (mem_switchDocuments hother).mpr (Or.inr (Or.inl ⟨row, hrow, hprevious, rfl⟩)),
            href, hacl, by simp [demoteRow], by simp [demoteRow]⟩
        · refine ⟨row, (mem_switchDocuments hother).mpr (Or.inr (Or.inr ⟨hrow, hnew, ?_⟩)), href,
            hacl, hprocessing, hfailed⟩
          exact fun v hv hsame => hprevious ⟨v, hv, hsame⟩
    · exact hs
  | logicalDelete target =>
    rcases logicalDelete_cases hrun with ⟨row, -, -, -, -, rfl⟩ | rfl
    · exact hs.update rfl fun _ _ _ _ _ => ⟨rfl, rfl, by simp [deleteRow], by simp [deleteRow]⟩
    · exact hs
  | markDocumentFailed target =>
    rcases markDocumentFailed_cases hrun with ⟨-, rfl⟩ | ⟨-, rfl⟩
    · refine hs.update rfl fun row _ hopen hprocessing hfailed => ?_
      simp [openOf, hprocessing, hfailed] at hopen
    · exact hs
  | updateDocumentAcl target acl => exact hop.elim
  | rollbackActiveVersion doc toVersion expectedRevision => exact hop.elim
  | deleteDocument doc => exact hop.elim
  | _ => exact hs.same ((MetadataOp.frame hrun).documents (by simp [MetadataOp.writes]))

/-- A write to the collections leaves the points of a collection, or it rewrites them. -/
theorem points_modifyCollection {name : String} {f : List Point → List Point}
    {v v' : VectorStore} {r : Except PyError Unit}
    (h : VectorStore.modifyCollection name f v = (r, v')) (other : String) :
    (v' other).getD [] = (v other).getD [] ∨ (v' other).getD [] = f ((v other).getD []) := by
  rcases VectorStore.modifyCollection_cases h with ⟨points, hpoints, -, rfl⟩ | ⟨-, -, rfl⟩
  · by_cases hname : other = name
    · subst hname
      simp [hpoints]
    · simp [hname]
  · exact Or.inl rfl

/-- A batch whose visible points of the version have the ACL. -/
theorem PointsHave.upsert {ids : List String} {points batch : List Point}
    (hbatch : PointsHave ref acl [] batch) (h : PointsHave ref acl ids points) :
    PointsHave ref acl ids (batch.foldl upsertPoint points) := by
  intro point hpoint href hvisible
  rcases mem_upsert.mp hpoint with hnew | ⟨hold, -⟩
  · have hmem := List.mem_reverse.mp (List.mem_of_find?_eq_some hnew)
    exact (hbatch point hmem href hvisible).imp id (by simp)
  · exact h point hold href hvisible

theorem VectorOp.points {op : VectorOp} {v v' : VectorStore} {r : Except PyError Unit}
    {ids : List String} (hpatch : ∀ name pointIds patch, op = .updatePayload name pointIds patch →
      patch = .lifecycle .deleted true)
    (hbatch : ∀ name batch, op = .upsert name batch → PointsHave ref acl [] batch)
    (hrun : op.eval v = (r, v')) (name : String)
    (h : PointsHave ref acl ids ((v name).getD [])) : PointsHave ref acl ids ((v' name).getD []) := by
  have hstay : v' = v → PointsHave ref acl ids ((v' name).getD []) := by
    rintro rfl
    exact h
  cases op with
  | upsert other batch =>
    simp only [VectorOp.eval, VectorStore.upsert, Routine.ite_apply] at hrun
    split at hrun
    · exact hstay (Prod.mk.inj hrun).2.symm
    · rcases points_modifyCollection hrun name with hsame | hrewritten
      · rw [hsame]
        exact h
      · rw [hrewritten]
        exact PointsHave.upsert (hbatch other batch rfl) h
  | delete other pointIds =>
    simp only [VectorOp.eval, VectorStore.delete, Routine.ite_apply] at hrun
    split at hrun
    · exact hstay (Prod.mk.inj hrun).2.symm
    · rcases points_modifyCollection hrun name with hsame | hrewritten
      · rw [hsame]
        exact h
      · rw [hrewritten]
        exact fun point hpoint => h point (Table.mem_delete.mp hpoint).1
  | updatePayload other pointIds patch =>
    simp only [VectorOp.eval, VectorStore.updatePayload, Routine.ite_apply] at hrun
    split at hrun
    · exact hstay (Prod.mk.inj hrun).2.symm
    · rcases points_modifyCollection hrun name with hsame | hrewritten
      · rw [hsame]
        exact h
      · rw [hrewritten]
        intro point hpoint href hvisible
        rcases Table.mem_update.mp hpoint with ⟨old, -, -, rfl⟩ | ⟨hold, -⟩
        · -- a point that was marked deleted is not shown
          obtain rfl := hpatch other pointIds patch rfl
          simp [PayloadPatch.apply, PointPayload.Visible] at hvisible
        · exact h point hold href hvisible
  | createCollection other =>
    simp only [VectorOp.eval, VectorStore.createCollection] at hrun
    cases hother : v other with
    | some existing =>
      simp only [hother] at hrun
      exact hstay (Prod.mk.inj hrun).2.symm
    | none =>
      simp only [hother] at hrun
      obtain ⟨-, rfl⟩ := Prod.mk.inj hrun
      by_cases hname : name = other
      · subst hname
        simpa [hother] using h
      · simpa [hname] using h

theorem ParentsHave.update {parents : ParentStore} {p : ParentChunk → Bool}
    {f : ParentChunk → ParentChunk} (hf : ∀ parent, ¬(f parent).Visible)
    (h : ParentsHave ref acl parents) : ParentsHave ref acl (Table.update p f parents) := by
  intro parent hparent href hvisible
  rcases Table.mem_update.mp hparent with ⟨old, -, -, rfl⟩ | ⟨hold, -⟩
  · exact absurd hvisible (hf old)
  · exact h parent hold href hvisible

theorem ParentsHave.delete {parents : ParentStore} {p : ParentChunk → Bool}
    (h : ParentsHave ref acl parents) : ParentsHave ref acl (Table.delete p parents) :=
  fun parent hparent => h parent (Table.mem_delete.mp hparent).1

theorem not_visible_setLifecycle {status : PayloadStatus} (deprecated : Bool)
    (hstatus : status ≠ .active) (parent : ParentChunk) :
    ¬(ParentStore.setLifecycle status deprecated parent).Visible :=
  fun h => hstatus h.1

theorem ParentOp.parents {op : ParentOp} {parents : ParentStore}
    (hactivate : ∀ ref, op ≠ .activateDocument ref) (haccess : ∀ ref acl, op ≠ .updateAclDocument ref acl)
    (hput : ∀ chunk, op = .put chunk → chunk.ref = ref → chunk.Visible → chunk.metadata.acl = acl)
    (h : ParentsHave ref acl parents) : ParentsHave ref acl (op.eval parents) := by
  cases op with
  | put chunk =>
    intro parent hparent href hvisible
    simp only [ParentOp.eval, ParentStore.put] at hparent
    split at hparent
    · rcases Table.mem_update.mp hparent with ⟨_, -, -, rfl⟩ | ⟨hold, -⟩
      · exact hput _ rfl href hvisible
      · exact h parent hold href hvisible
    · rcases Table.mem_insert.mp hparent with hold | rfl
      · exact h parent hold href hvisible
      · exact hput _ rfl href hvisible
  | delete parentId => exact h.delete
  | deleteDocument target => exact h.delete
  | deprecateParent parentId => exact h.update (not_visible_setLifecycle true (by simp))
  | deprecateDocument target => exact h.update (not_visible_setLifecycle true (by simp))
  | activateDocument target => exact absurd rfl (hactivate target)
  | updateAclDocument target acl => exact absurd rfl (haccess target acl)

/-- Accesses of jobs and deletes that write nothing visible under an outdated ACL. -/
theorem StoreOp.LeavesAcl.undisturbed {β : Type} {op : StoreOp β} (hop : op.LeavesAcl)
    {w w' : World} {r : Except PyError β} (hagrees : op.AclAgrees w)
    (hinv : LifecycleInvariant w.metadata) (hout : op.Outcome w r w') : Undisturbed w w' := by
  rcases hout.state with rfl | rfl
  · exact Undisturbed.refl _
  · cases op with
    | metadata op =>
      exact ⟨rfl, fun _ _ hrow => MetadataOp.LeavesAcl.row hop hinv rfl hrow,
        fun _ _ _ _ _ h => h, fun _ _ _ h => h⟩
    | vectors op done =>
      refine ⟨rfl, fun _ _ h => h, ?_, fun _ _ _ h => h⟩
      rintro ref acl ⟨row, hrow, href, hacl, -⟩ name ids h
      refine VectorOp.points ?_ ?_ rfl name h
      · rintro name pointIds patch rfl
        exact hop
      · rintro name batch rfl point hpoint hpointref hvisible
        refine Or.inl ((hagrees point hpoint hvisible row hrow ?_).trans hacl)
        rw [href, hpointref]
    | parents op done =>
      refine ⟨rfl, fun _ _ h => h, fun _ _ _ _ _ h => h, ?_⟩
      rintro ref acl ⟨row, hrow, href, hacl, -⟩ h
      refine ParentOp.parents ?_ ?_ ?_ h
      · rintro ref rfl
        exact hop
      · rintro ref acl rfl
        exact hop
      · rintro chunk rfl hchunkref hvisible
        exact (hagrees hvisible row hrow (by rw [href, hchunkref])).trans hacl
    | setPointer corpusId name done => exact hop.elim
    | read view => exact Undisturbed.refl _
    | raise e => exact Undisturbed.refl _
    | recordFinding finding done =>
      exact ⟨rfl, fun _ _ h => h, fun _ _ _ _ _ h => h, fun _ _ _ h => h⟩

end Accesses

section Surroundings

/-- What others do between two accesses of the tightening. -/
def Quiet (w w' : World) : Prop :=
  Evolves w.metadata w'.metadata ∧ (DeletionInvariant w.metadata → Undisturbed w w')

theorem Quiet.trans {w w' w'' : World} (h : Quiet w w') (h' : Quiet w' w'') : Quiet w w'' :=
  ⟨h.1.trans h'.1, fun hinv => (h.2 hinv).trans (h'.2 (h.1 hinv).1)⟩

/-- Only jobs and deletes run beside the tightening. -/
def JobsAndDeletes : System.StepCondition World StoreOp PyError LifecycleRequest Unit :=
  fun _ label _ =>
    match label with
    | .spawn (.ingest _ _) => True
    | .spawn (.delete _ _ _) => True
    | .spawn _ => False
    | _ => True

/-- What they write as visible agrees with the version row. -/
def AclAgreement : System.StepCondition World StoreOp PyError LifecycleRequest Unit :=
  fun P label P' => JobsAndDeletes P label P' ∧
    ∀ thread event, label = .perform thread event → event.op.AclAgrees P.store

/-- The regime of the jobs and deletes beside a tightening. -/
def quietRegime : Regime World StoreOp PyError :=
  (deletionRegime.restrict StoreOp.AclAgrees).strengthen
    fun w w' => DeletionInvariant w.metadata → Undisturbed w w'

/-- A request all of whose accesses leave the ACLs alone. -/
theorem wp_quiet {code : Prog StoreOp PyError Unit} {w : World}
    (hplain : code.wp deletionRegime (fun _ _ => True) w) (huses : code.Uses StoreOp.LeavesAcl) :
    code.wp quietRegime (fun _ _ => True) w := by
  have hquiet : code.wp ((deletionRegime.restrict StoreOp.AclAgrees).given
      fun w w' => DeletionInvariant w.metadata → Undisturbed w w') (fun _ _ => True) w := by
    refine Prog.wp_of_uses ?_ huses w
    exact fun op hop s r s' hout hinv => hop.undisturbed hout.1.2 hinv.lifecycle hout.1.1
  exact Prog.wp_mono (fun _ _ _ => trivial) (Prog.wp_strengthen (Prog.wp_restrict hplain) hquiet)

theorem delete_leavesAcl (ctx : SecurityContext) (corpusId documentId : String) :
    (DocumentManager.delete ctx corpusId documentId).Uses StoreOp.LeavesAcl := by
  refine Uses.bind (Uses.perform trivial) fun found => ?_
  cases found with
  | none => exact Uses.perform trivial
  | some document =>
    refine Uses.ite (Uses.perform trivial) (Uses.ite (Uses.pure ()) ?_)
    refine Uses.bind (Uses.perform trivial) fun _ => ?_
    refine Uses.bind (Uses.perform trivial) fun name => ?_
    refine Uses.bind (Uses.perform trivial) fun pointIds => ?_
    exact Uses.bind (Uses.perform rfl) fun _ => Uses.perform trivial

theorem lifecycleSystem_quiet (svc : Services) {w : World} (hinv : DeletionInvariant w.metadata) :
    System.DisciplinedBy (lifecycleSystem svc) AclAgreement deletionRegime.rely
      (fun _ => quietRegime) w where
  refl := deletionRegime.rely_refl
  trans := deletionRegime.rely_trans
  absorbs _ _ _ h := h
  out h hcond := ⟨h, hcond.2 _ _ rfl⟩
  env := (lifecycleSystem_disciplined svc hinv).env
  guar _ _ _ h := h.1
  start P i _ hcond hs := by
    have hplain := (lifecycleSystem_disciplined svc hinv).start i P.store hs
    cases i with
    | ingest req options =>
      refine wp_quiet hplain (Method.Uses.launch ?_ _)
      have haccesses : IngestionJob.StepAccesses req StoreOp.LeavesAcl := by
        constructor <;> intros <;> trivial
      refine haccesses.runBody svc ?_ ?_ ?_ options
      · exact fun args _ _ hprocessing => hprocessing
      · exact fun expectedRev => trivial
      · exact fun name => trivial
    | delete ctx corpusId documentId =>
      exact wp_quiet hplain (Method.Uses.launch (delete_leavesAcl ctx corpusId documentId) ())
    | tightenAcl ctx corpusId documentId acl => exact hcond.1.elim
    | rollback doc toVersion expectedRevision => exact hcond.1.elim

theorem lifecycleSystem_calm (svc : Services) :
    System.Calm (lifecycleSystem svc) (fun _ => quietRegime) Quiet where
  refl w := ⟨Evolves.refl _, fun _ => Undisturbed.refl w⟩
  trans := Quiet.trans
  env := by
    rintro w w' ⟨clock, rfl⟩
    exact ⟨Evolves.refl _, fun _ => ⟨rfl, fun _ _ h => h, fun _ _ _ _ _ h => h, fun _ _ _ h => h⟩⟩
  guar _ _ _ h := h

end Surroundings

section Call

/-- The tightening itself: it relies on quiet surroundings. -/
def tightenRegime : Regime World StoreOp PyError where
  out := StoreOp.Outcome
  rely := Quiet
  guar w w' := Evolves w.metadata w'.metadata
  rely_refl w := ⟨Evolves.refl _, fun _ => Undisturbed.refl w⟩
  rely_trans := Quiet.trans

theorem onStores_tightenRegime : OnStores tightenRegime where
  out h := h
  idle w := Evolves.refl w.metadata

variable {ref : VersionRef} {acl : AclFields} {w w' : World}

/-- The new ACL is committed, and the points of the live collection carry it except
those still to be patched. -/
structure Patching (ref : VersionRef) (acl : AclFields) (name : String) (ids : List String)
    (w : World) : Prop where
  sound : DeletionInvariant w.metadata
  row : RowHas ref acl w.metadata
  live : w.resolveCollectionName ref.doc.corpusId = name
  points : PointsHave ref acl ids (w.points name)

theorem Patching.stable {name : String} {ids : List String} (h : Quiet w w')
    (hw : Patching ref acl name ids w) : Patching ref acl name ids w' := by
  have hcalm := h.2 hw.sound
  refine ⟨(h.1 hw.sound).1, hcalm.row ref acl hw.row, ?_, hcalm.points ref acl hw.row _ _ hw.points⟩
  rw [← hw.live]
  simp only [World.resolveCollectionName, hcalm.pointers]

/-- Patching the listed points leaves none with another ACL. -/
theorem PointsHave.patch {ids : List String} {points : List Point} (h : PointsHave ref acl ids points) :
    PointsHave ref acl [] (Table.update (fun point => decide (point.id ∈ ids))
      (fun point => { point with payload := (PayloadPatch.access acl).apply point.payload })
      points) := by
  intro point hpoint href hvisible
  rcases Table.mem_update.mp hpoint with ⟨old, -, -, rfl⟩ | ⟨hold, hnot⟩
  · exact Or.inl rfl
  · exact Or.inl ((h point hold href hvisible).resolve_right (of_decide_eq_false hnot))

theorem patch_points {name : String} {ids : List String} {v v' : VectorStore}
    (h : PointsHave ref acl ids ((v name).getD []))
    (hrun : VectorStore.updatePayload name ids (.access acl) v = (.ok (), v')) :
    PointsHave ref acl [] ((v' name).getD []) := by
  simp only [VectorStore.updatePayload, Routine.ite_apply] at hrun
  split at hrun
  · rename_i hempty
    obtain ⟨-, rfl⟩ := Prod.mk.inj hrun
    rwa [List.isEmpty_iff.mp hempty] at h
  · rcases VectorStore.modifyCollection_cases hrun with ⟨points, hpoints, -, rfl⟩ | ⟨-, hr, -⟩
    · rw [hpoints] at h
      simpa using PointsHave.patch h
    · simp at hr

/-- The parents are patched after the points. -/
theorem wp_updateParents {name : String} (hw : Patching ref acl name [] w) :
    (parents (.updateAclDocument ref acl) : ManagerProgram Unit).wp tightenRegime
      (IngestionJob.Returning (InForce ref acl)) () w := by
  apply wp_perform
  intro w₁ hw₁ r w₂ hout
  have hevolves : Evolves w₁.metadata w₂.metadata := by
    rcases hout.state with rfl | rfl <;> exact Evolves.refl _
  refine ⟨hevolves, fun w₃ hw₃ => ?_⟩
  cases r with
  | error e => trivial
  | ok _ =>
    have hbefore := hw.stable hw₁
    have hafter : w₂ = { w₁ with parents := ParentStore.updateAclDocument ref acl w₁.parents } :=
      (Prod.mk.inj hout.ok).2.symm
    have hforce : InForce ref acl w₂ := by
      rw [hafter]
      refine ⟨hbefore.row, ?_, ?_⟩
      · have hpoints := hbefore.points
        rw [← hbefore.live] at hpoints
        exact hpoints
      · intro parent hparent href _
        rcases Table.mem_update.mp hparent with ⟨old, -, -, rfl⟩ | ⟨-, hnot⟩
        · rfl
        · exact absurd href (of_decide_eq_false hnot)
    exact hforce.undisturbed (hw₃.2 (hevolves hbefore.sound).1)

theorem wp_patchPoints {name : String} {pointIds : List String}
    (hw : Patching ref acl name pointIds w) :
    (vectors (.updatePayload name pointIds (.access acl)) : ManagerProgram Unit).wp tightenRegime
      (IngestionJob.Returning (Patching ref acl name [])) () w := by
  apply wp_perform
  intro w₁ hw₁ r w₂ hout
  have hevolves : Evolves w₁.metadata w₂.metadata := by
    rcases hout.state with rfl | rfl <;> exact Evolves.refl _
  refine ⟨hevolves, fun w₃ hw₃ => ?_⟩
  cases r with
  | error e => trivial
  | ok _ =>
    have hbefore := hw.stable hw₁
    have hrun := hout.ok
    unfold StoreOp.eval at hrun
    cases hpatch : VectorStore.updatePayload name pointIds (.access acl) w₁.vectors with
    | mk outcome v =>
      simp only [VectorOp.eval, hpatch] at hrun
      obtain ⟨houtcome, rfl⟩ := Prod.mk.inj hrun
      cases outcome with
      | error e => simp [Except.map] at houtcome
      | ok _ =>
        refine Patching.stable hw₃ ⟨hbefore.sound, hbefore.row, hbefore.live, ?_⟩
        exact patch_points hbefore.points hpatch

/-- Every point of the version in the collection is listed. -/
theorem listed_pointsHave {name : String} {pointIds : List String}
    (h : w.vectors.listPointIdsByDocument name ref = .ok pointIds) :
    PointsHave ref acl pointIds (w.points name) := by
  intro point hpoint href _
  unfold VectorStore.listPointIdsByDocument VectorStore.scrollAll at h
  unfold World.points at hpoint
  cases hpoints : w.vectors name with
  | none => simp [hpoints, Except.map] at h
  | some points =>
    simp only [hpoints, Except.map, Except.ok.injEq] at h
    rw [hpoints] at hpoint
    rw [← h]
    exact Or.inr (List.mem_map.mpr ⟨point, List.mem_filter.mpr ⟨hpoint, by simp [href]⟩, rfl⟩)

/-- The second half of `tighten_acl`. -/
theorem wp_propagate (hinv : DeletionInvariant w.metadata) (hrow : RowHas ref acl w.metadata) :
    (do
        let name ← DocumentManager.collection ref.doc.corpusId
        let pointIds ← DocumentManager.listPointIds name ref
        vectors (.updatePayload name pointIds (.access acl))
        parents (.updateAclDocument ref acl) : ManagerProgram Unit).wp tightenRegime
      (IngestionJob.Returning (InForce ref acl)) () w := by
  have hkeep : ∀ {w w'}, Quiet w w' → DeletionInvariant w.metadata ∧ RowHas ref acl w.metadata →
      DeletionInvariant w'.metadata ∧ RowHas ref acl w'.metadata :=
    fun h hw => ⟨(h.1 hw.1).1, (h.2 hw.1).row ref acl hw.2⟩
  apply wp_bind
  apply wp_read onStores_tightenRegime
  · intro w₁ w₂ hw₁ hw₂
    obtain ⟨hinv₁, hrow₁⟩ := hkeep hw₁ ⟨hinv, hrow⟩
    apply wp_bind
    apply wp_tryRead onStores_tightenRegime
    · intro pointIds w₃ w₄ hw₃ hlisted hw₄
      obtain ⟨hinv₃, hrow₃⟩ := hkeep (hw₂.trans hw₃) ⟨hinv₁, hrow₁⟩
      have hname : w₃.resolveCollectionName ref.doc.corpusId =
          w₁.resolveCollectionName ref.doc.corpusId := by
        simp only [World.resolveCollectionName, ((hw₂.trans hw₃).2 hinv₁).pointers]
      have hpatching : Patching ref acl (w₁.resolveCollectionName ref.doc.corpusId) pointIds w₄ :=
        Patching.stable hw₄ ⟨hinv₃, hrow₃, hname, listed_pointsHave hlisted⟩
      apply wp_bind
      refine wp_mono ?_ (wp_patchPoints hpatching)
      intro r _ w₅ hw₅
      cases r with
      | error e => exact fun _ _ => trivial
      | ok _ => exact wp_updateParents hw₅
    · exact fun _ _ _ _ _ => trivial
  · exact fun _ _ _ _ _ => trivial

/-- The ACL update meets a document whose active version, if any, is the one it names. -/
def MetadataOp.HitsActive {β : Type} (s : MetadataStore) : MetadataOp β → Prop
  | .updateDocumentAcl ref _ =>
    ∀ row ∈ s.documents, row.ref.doc = ref.doc → row.status = .active → row.ref = ref
  | _ => True

def StoreOp.HitsActive {β : Type} (w : World) : StoreOp β → Prop
  | .metadata op => op.HitsActive w.metadata
  | _ => True

/-- No other version became active since the tightening resolved its own. -/
def StillActive : System.CallCondition World StoreOp PyError := fun _ w _ op => op.HitsActive w

/-- The committed update of the ACL in a record; at that point every active version of
the document got the ACL, and it is in force for that version in `w`. -/
def Tightened (doc : DocRef) (acl : AclFields) (past : List (Visit World StoreOp PyError))
    (w : World) : Prop :=
  ∃ visit ∈ past, ∃ ref,
    visit.event = ⟨StoreOp.metadata (MetadataOp.updateDocumentAcl ref acl), .ok ()⟩ ∧
    ∀ row ∈ visit.after.metadata.documents, row.ref.doc = doc → row.status = .active →
      row.acl = acl ∧ InForce row.ref acl w

theorem Tightened.undisturbed {doc : DocRef} {past : List (Visit World StoreOp PyError)}
    (h : Undisturbed w w') (hw : Tightened doc acl past w) : Tightened doc acl past w' := by
  obtain ⟨visit, hvisit, target, hevent, hactive⟩ := hw
  refine ⟨visit, hvisit, target, hevent, fun row hrow hdoc hstatus => ?_⟩
  obtain ⟨hacl, hforce⟩ := hactive row hrow hdoc hstatus
  exact ⟨hacl, hforce.undisturbed h⟩

/-- After the update every active row of the document is the named one, with the ACL. -/
theorem updateDocumentAcl_active {s t : MetadataStore} {r : Except PyError Unit}
    (hrun : updateDocumentAcl ref acl s = (r, t)) (hr : r = .ok ())
    (hhits : (MetadataOp.updateDocumentAcl ref acl).HitsActive s) {row : DocumentRow}
    (hrow : row ∈ t.documents) (hdoc : row.ref.doc = ref.doc) (hactive : row.status = .active)
    (hkeys : Table.KeyUnique (·.ref) s.documents) : row.ref = ref ∧ row.acl = acl := by
  rcases updateDocumentAcl_cases hrun with ⟨old, -, -, -, rfl⟩ | ⟨-, rfl, hidle⟩ | ⟨⟨e, he⟩, -⟩
  · rcases Table.mem_update.mp hrow with ⟨before, -, hof, rfl⟩ | ⟨hold, hnot⟩
    · exact ⟨of_decide_eq_true hof, rfl⟩
    · exact absurd (hhits row hold hdoc hactive) (of_decide_eq_false hnot)
  · have href := hhits row hrow hdoc hactive
    have hfound : t.documentRow ref = some row := by
      rw [← href]
      exact Table.selectOne_of_key hkeys hrow
    exact absurd hactive (hidle row hfound)
  · simp [he] at hr

/-- The commit of the ACL and its propagation. -/
theorem wp_commitAcl (acl : AclFields) {doc : DocRef} (hdoc : ref.doc = doc) (hinv : DeletionInvariant w.metadata)
    (past : List (Visit World StoreOp PyError)) :
    (do
        metadata (.updateDocumentAcl ref acl)
        let name ← DocumentManager.collection ref.doc.corpusId
        let pointIds ← DocumentManager.listPointIds name ref
        vectors (.updatePayload name pointIds (.access acl))
        parents (.updateAclDocument ref acl) : ManagerProgram Unit).wp
      (tightenRegime.visiting StillActive)
      (fun r _ s => r = .ok () → Tightened doc acl s.2 s.1) () (w, past) := by
  apply wp_bind
  apply wp_perform
  rintro ⟨w₁, past₁⟩ ⟨hw₁, -⟩ r ⟨w₂, past₂⟩ ⟨hout, hhits, hpast⟩
  have hinv₁ := (hw₁.1 hinv).1
  obtain ⟨hstate, hresult⟩ := hout.metadata
  have hevolves : Evolves w₁.metadata w₂.metadata := by
    rcases hstate with rfl | rfl
    · exact Evolves.refl _
    · exact updateDocumentAcl_evolves rfl
  refine ⟨hevolves, ?_⟩
  rintro ⟨w₃, past₃⟩ ⟨hw₃, hsame⟩
  cases r with
  | error e => exact fun _ _ h => by simp at h
  | ok _ =>
    have hrun := hresult () rfl
    have hinv₂ := (hevolves hinv₁).1
    have hinv₃ := (hw₃.1 hinv₂).1
    have hvisit : (⟨w₁, ⟨StoreOp.metadata (MetadataOp.updateDocumentAcl ref acl), .ok ()⟩, w₂⟩ :
        Visit World StoreOp PyError) ∈ past₃ := by
      dsimp only at hpast hsame
      rw [hsame, hpast]
      simp
    have hafter : ∀ row ∈ w₂.metadata.documents, row.ref.doc = ref.doc → row.status = .active →
        row.ref = ref ∧ row.acl = acl := fun row hrow hrowdoc hactive =>
      updateDocumentAcl_active hrun rfl hhits hrow hrowdoc hactive hinv₁.lifecycle.keys
    rcases updateDocumentAcl_cases hrun with ⟨old, hold, hactive, -, ht⟩ | ⟨-, -, hidle⟩ | ⟨⟨e, he⟩, -⟩
    · -- the version is active, so its row keeps the new ACL from here on
      have hrow : RowHas ref acl w₂.metadata := by
        obtain ⟨hmem, href⟩ := documentRow_mem hold
        refine ⟨{ old with acl, lifecycleRevision := old.lifecycleRevision + 1 }, ?_, href, rfl, ?_, ?_⟩
        · rw [ht]
          exact Table.mem_update.mpr (Or.inl ⟨old, hmem, by simp [ofVersion, href], rfl⟩)
        · simp [hactive]
        · simp [hactive]
      refine wp_mono ?_ (wp_recorded (wp_propagate hinv₃ ((hw₃.2 hinv₂).row ref acl hrow)) past₃)
      rintro r _ ⟨w₄, past₄⟩ ⟨hforce, hgrown⟩ rfl
      refine ⟨_, hgrown.subset hvisit, ref, rfl, fun row hrow hrowdoc hstatus => ?_⟩
      obtain ⟨href, hacl⟩ := hafter row hrow (by rw [hrowdoc, hdoc]) hstatus
      rw [href]
      exact ⟨hacl, hforce⟩
    · -- no version of the document is active
      have hplain : (do
          let name ← DocumentManager.collection ref.doc.corpusId
          let pointIds ← DocumentManager.listPointIds name ref
          vectors (.updatePayload name pointIds (.access acl))
          parents (.updateAclDocument ref acl) : ManagerProgram Unit).wp tightenRegime
            (fun _ _ _ => True) () w₃ := by
        refine wp_of_uses (fun op hop s r s' hout => StoreOp.Harmless.evolves hop hout) ?_ () w₃
        refine Uses.bind (harmless_read _) fun name => ?_
        refine Uses.bind (DocumentManager.listPointIds_harmless _ _) fun pointIds => ?_
        exact Uses.bind (harmless_vectors _) fun _ => harmless_parents _
      refine wp_mono ?_ (wp_recorded hplain past₃)
      rintro r _ ⟨w₄, past₄⟩ ⟨-, hgrown⟩ -
      refine ⟨_, hgrown.subset hvisit, ref, rfl, fun row hrow hrowdoc hstatus => ?_⟩
      obtain ⟨href, -⟩ := hafter row hrow (by rw [hrowdoc, hdoc]) hstatus
      have hsamestore : w₂.metadata = w₁.metadata := by
        rcases updateDocumentAcl_cases hrun with ⟨found, hfound, hfoundactive, -⟩ | ⟨-, h, -⟩ | ⟨-, h⟩
        · exact absurd hfoundactive (hidle found hfound)
        · exact h
        · exact h
      dsimp only at hrow
      rw [hsamestore] at hrow
      have hfound : w₁.metadata.documentRow ref = some row := by
        rw [← href]
        exact Table.selectOne_of_key hinv₁.lifecycle.keys hrow
      exact absurd hstatus (hidle row hfound)
    · simp at he

theorem wp_resolveActive (ctx : SecurityContext) (corpusId documentId : String)
    (hinv : DeletionInvariant w.metadata) :
    (DocumentManager.resolveActive ctx corpusId documentId).wp tightenRegime
      (fun r _ w => ∀ document, r = .ok document → DeletionInvariant w.metadata ∧
        document.ref.doc = ⟨ctx.tenantId, corpusId, documentId⟩) () w := by
  apply wp_bind
  apply wp_tryRead onStores_tightenRegime
  · intro found w₁ w₂ hw₁ hfound hw₂
    have hinv₂ := ((hw₁.trans hw₂).1 hinv).1
    have hraise : ∀ e : PyError, (raise e : ManagerProgram SourceDocument).wp tightenRegime
        (fun r _ w => ∀ document, r = .ok document → DeletionInvariant w.metadata ∧
          document.ref.doc = ⟨ctx.tenantId, corpusId, documentId⟩) () w₂ :=
      fun e => wp_raise onStores_tightenRegime fun _ _ _ _ h => by simp at h
    cases found with
    | none => exact hraise _
    | some document =>
      dsimp only
      split
      · obtain ⟨row, hrow, hcolumns⟩ := readDocument_some hfound
        have hmem := (Table.selectOne_some hrow).2
        simp only [activeOf, ofDoc, Bool.and_eq_true, decide_eq_true_eq] at hmem
        refine wp_pure fun w₃ hw₃ other hother => ?_
        obtain rfl := Except.ok.inj hother
        exact ⟨(hw₃.1 hinv₂).1, by rw [hcolumns, hmem.1]⟩
      · exact hraise _
  · exact fun e w₁ hw₁ w₂ hw₂ document h => by simp at h

/-- A tightening that returns has been applied to the active version, if any. -/
theorem tightenAcl_wp (ctx : SecurityContext) (corpusId documentId : String) (acl : ResourceAcl)
    (hinv : DeletionInvariant w.metadata) :
    (DocumentManager.tightenAcl ctx corpusId documentId acl).wp
      (tightenRegime.visiting StillActive)
      (fun r _ s => r = .ok () →
        Tightened ⟨ctx.tenantId, corpusId, documentId⟩ acl.toAclFields s.2 s.1) () (w, []) := by
  apply wp_bind
  refine wp_mono ?_ (wp_recorded (wp_resolveActive ctx corpusId documentId hinv) [])
  rintro r _ ⟨w₁, past₁⟩ ⟨hresolved, -⟩
  cases r with
  | error e => exact fun _ _ h => by simp at h
  | ok document =>
    obtain ⟨hinv₁, hdoc⟩ := hresolved document rfl
    dsimp only
    split
    · have hraise : (raise (.documentMutationError "ACL change is a widening, not a tightening") :
          ManagerProgram Unit).wp tightenRegime (fun r _ _ => r ≠ .ok ()) () w₁ :=
        wp_raise onStores_tightenRegime fun e _ _ => by simp
      refine wp_mono ?_ (wp_recorded hraise past₁)
      rintro r _ s ⟨hraised, -⟩ hr
      exact absurd hr hraised
    · have hcommit := wp_commitAcl acl.toAclFields hdoc hinv₁ past₁
      simp only [hdoc] at hcommit
      exact hcommit

end Call

/-- A tightening that returns was applied to the version active at its commit, and the
new ACL is in force for that version ever after, as long as no other version becomes
active before the commit and nothing is published under an outdated ACL. -/
theorem tighten_acl_in_force (svc : Services) (w : World)
    (hfresh : w.metadata.documents = [] ∧ w.metadata.jobs = [] ∧ w.metadata.steps = [])
    {P₀ P₁ P₂ : Pool World StoreOp PyError LifecycleRequest Unit} (ctx : SecurityContext)
    (corpusId documentId : String) (acl : ResourceAcl) {past : List (Visit World StoreOp PyError)}
    (hbefore : (lifecycleSystem svc).Reaches AclAgreement ⟨w, []⟩ P₀)
    (htighten : (lifecycleSystem svc).ReachesBeside AclAgreement StillActive
      ⟨P₀, [], DocumentManager.tightenAcl ctx corpusId documentId acl ()⟩
      ⟨P₁, past, .ret (.ok (), ())⟩)
    (hafter : (lifecycleSystem svc).Reaches AclAgreement P₁ P₂) :
    Tightened ⟨ctx.tenantId, corpusId, documentId⟩ acl.toAclFields past P₂.store := by
  have hinv := deletionInvariant_empty hfresh.1 hfresh.2.1 hfresh.2.2
  have hd := lifecycleSystem_quiet svc hinv
  have hcalm := lifecycleSystem_calm svc
  have hattends : System.Attends (lifecycleSystem svc) deletionRegime.rely Quiet StillActive
      (tightenRegime.visiting StillActive) := .visiting id id id
  have hkept₀ := (hd.run (System.Kept.empty hd) hbefore).1
  have hinv₀ : DeletionInvariant P₀.store.metadata := (hkept₀.store hinv).1
  obtain ⟨hkept₁, htightened⟩ := hd.returned hcalm hattends htighten hkept₀
    (tightenAcl_wp ctx corpusId documentId acl hinv₀)
  have hinv₁ : DeletionInvariant P₁.store.metadata := (hkept₁.store hinv).1
  exact (htightened rfl).undisturbed ((hd.run_calm hcalm hkept₁ hafter).2 hinv₁)

section Samples

def jobsAndDeletes : Label StoreOp PyError LifecycleRequest Unit → Bool
  | .spawn (.ingest _ _) => true
  | .spawn (.delete _ _ _) => true
  | .spawn _ => false
  | _ => true

def aclAgrees (w : World) : {β : Type} → StoreOp β → Bool
  | _, .vectors (.upsert _ batch) _ => batch.all fun point => decide (point.payload.Visible →
      ∀ row ∈ w.metadata.documents, row.ref = point.payload.ref → point.payload.acl = row.acl)
  | _, .parents (.put chunk) _ => decide (chunk.Visible →
      ∀ row ∈ w.metadata.documents, row.ref = chunk.ref → chunk.metadata.acl = row.acl)
  | _, _ => true

/-- A test for steps that agree with the version rows. -/
def agreementTest (P : Pool World StoreOp PyError LifecycleRequest Unit)
    (label : Label StoreOp PyError LifecycleRequest Unit) : Bool :=
  jobsAndDeletes label &&
    match label with
    | .perform _ event => aclAgrees P.store event.op
    | _ => true

theorem jobsAndDeletes_sound {P P' : Pool World StoreOp PyError LifecycleRequest Unit}
    {label : Label StoreOp PyError LifecycleRequest Unit} (h : jobsAndDeletes label = true) :
    JobsAndDeletes P label P' := by
  cases label with
  | spawn i =>
    cases i with
    | ingest req options => trivial
    | delete ctx corpusId documentId => trivial
    | tightenAcl ctx corpusId documentId acl => simp [jobsAndDeletes] at h
    | rollback doc toVersion expectedRevision => simp [jobsAndDeletes] at h
  | _ => trivial

theorem aclAgrees_sound {w : World} {β : Type} {op : StoreOp β} (h : aclAgrees w op = true) :
    op.AclAgrees w := by
  cases op with
  | vectors op done =>
    cases op with
    | upsert name batch =>
      exact fun point hpoint => of_decide_eq_true (List.all_eq_true.mp h point hpoint)
    | _ => trivial
  | parents op done =>
    cases op with
    | put chunk =>
      show chunk.Visible → ∀ row ∈ w.metadata.documents, row.ref = chunk.ref →
        chunk.metadata.acl = row.acl
      exact of_decide_eq_true h
    | _ => trivial
  | _ => trivial

/-- A test for an ACL update that names the active version. -/
def hitsActive (w : World) : {β : Type} → StoreOp β → Bool
  | _, .metadata (.updateDocumentAcl ref _) => decide (∀ row ∈ w.metadata.documents,
      row.ref.doc = ref.doc → row.status = .active → row.ref = ref)
  | _, _ => true

theorem hitsActive_sound {w : World} {β : Type} {op : StoreOp β} (h : hitsActive w op = true) :
    op.HitsActive w := by
  cases op with
  | metadata op =>
    cases op with
    | updateDocumentAcl ref acl =>
      show ∀ row ∈ w.metadata.documents, row.ref.doc = ref.doc → row.status = .active →
        row.ref = ref
      exact of_decide_eq_true h
    | _ => trivial
  | _ => trivial

theorem agreementTest_sound {P P' : Pool World StoreOp PyError LifecycleRequest Unit}
    {label : Label StoreOp PyError LifecycleRequest Unit} (h : agreementTest P label = true) :
    AclAgreement P label P' := by
  obtain ⟨hlabel, hevent⟩ := Bool.and_eq_true_iff.mp h
  refine ⟨jobsAndDeletes_sound hlabel, ?_⟩
  rintro thread event rfl
  exact aclAgrees_sound hevent

/-- Nobody but the owners any more. -/
private def restricted : ResourceAcl :=
  { Sample.acl with aclScope := .restricted, tenantId := "acme" }

private def sampleTightening : Prog StoreOp PyError (Except PyError Unit × Unit) :=
  DocumentManager.tightenAcl Sample.admin "policies" "travel" restricted ()

/-- `v1` is active. -/
private def published : Pool World StoreOp PyError LifecycleRequest Unit :=
  (lifecycleMachine Sample.services).play ⟨Sample.world, []⟩
    (.spawn (.ingest (Sample.request "job-1" "v1" "text") (Sample.attempt "a")) :: advance 0 60)

/-- The start of an update to `v2`. -/
private def update (n : Nat) : List (System.Move Choice LifecycleRequest) :=
  .spawn (.ingest (Sample.request "job-2" "v2" "new text") (Sample.attempt "b")) :: advance 0 n

/-- The tightening reads the active version, the update performs `n` accesses, and the
tightening goes on. -/
private def interrupted (n : Nat) : List (System.BesideMove Choice LifecycleRequest) :=
  .call .normal :: (update n).map .pool ++ List.replicate 10 (.call .normal)

/-- The update is caught between its acquire and its commit; it goes on afterwards. -/
theorem tighten_acl_in_force_interrupted :
    ∃ (past : List (Visit World StoreOp PyError)) (P : Pool World StoreOp PyError LifecycleRequest Unit),
      P.store.metadata.getActiveVersion Sample.doc = some "v1" ∧
        Tightened Sample.doc restricted.toAclFields past P.store := by
  obtain ⟨P, past, htighten, hactive, hafter⟩ : ∃ P past,
      (lifecycleMachine Sample.services).playBeside (fun P label _ => agreementTest P label)
          (fun _ w _ op => hitsActive w op) ⟨published, [], sampleTightening⟩ (interrupted 15) =
        some ⟨P, past, .ret (.ok (), ())⟩ ∧
      ((lifecycleMachine Sample.services).play P (advance 0 60)).store.metadata.getActiveVersion
          Sample.doc = some "v1" ∧
      (lifecycleMachine Sample.services).passes (fun P label _ => agreementTest P label) P
        (advance 0 60) = true := ⟨_, _, rfl, by decide +kernel, by decide +kernel⟩
  refine ⟨past, _, hactive, ?_⟩
  exact tighten_acl_in_force Sample.services Sample.world ⟨rfl, rfl, rfl⟩ Sample.admin "policies"
    "travel" restricted
    ((lifecycleMachine Sample.services).passes_reaches (fun _ _ _ => agreementTest_sound)
      ⟨Sample.world, []⟩ _ (by decide +kernel))
    ((lifecycleMachine Sample.services).playBeside_reaches (fun _ _ _ => agreementTest_sound)
      (fun _ _ _ _ => hitsActive_sound) htighten)
    ((lifecycleMachine Sample.services).passes_reaches (fun _ _ _ => agreementTest_sound) P _ hafter)

/-- The update commits `v2` after the tightening has resolved `v1`: the tightening returns
normally and no active row ever carries its ACL. -/
theorem tighten_acl_counterexample :
    ¬∀ (svc : Services) (w : World) (P₀ P₁ P₂ : Pool World StoreOp PyError LifecycleRequest Unit)
      (ctx : SecurityContext) (corpusId documentId : String) (acl : ResourceAcl)
      (past : List (Visit World StoreOp PyError)),
      (w.metadata.documents = [] ∧ w.metadata.jobs = [] ∧ w.metadata.steps = []) →
      (lifecycleSystem svc).Reaches JobsAndDeletes ⟨w, []⟩ P₀ →
      (lifecycleSystem svc).ReachesBeside JobsAndDeletes (fun _ _ _ _ => True)
        ⟨P₀, [], DocumentManager.tightenAcl ctx corpusId documentId acl ()⟩
        ⟨P₁, past, .ret (.ok (), ())⟩ →
      (lifecycleSystem svc).Reaches JobsAndDeletes P₁ P₂ →
      Tightened ⟨ctx.tenantId, corpusId, documentId⟩ acl.toAclFields past P₂.store := by
  intro hclaim
  obtain ⟨P, past, htighten, hwider⟩ : ∃ P past,
      (lifecycleMachine Sample.services).playBeside (fun _ label _ => jobsAndDeletes label)
          (fun _ _ _ _ => true) ⟨published, [], sampleTightening⟩ (interrupted 60) =
        some ⟨P, past, .ret (.ok (), ())⟩ ∧
      ∀ visit ∈ past, ∃ row ∈ visit.after.metadata.documents, row.ref.doc = Sample.doc ∧
        row.status = .active ∧ row.acl ≠ restricted.toAclFields :=
    ⟨_, _, rfl, by decide +kernel⟩
  obtain ⟨visit, hvisit, -, -, hactive⟩ := hclaim Sample.services Sample.world published P P
    Sample.admin "policies" "travel" restricted past ⟨rfl, rfl, rfl⟩
    ((lifecycleMachine Sample.services).passes_reaches (fun _ _ _ => jobsAndDeletes_sound)
      ⟨Sample.world, []⟩ _ (by decide +kernel))
    ((lifecycleMachine Sample.services).playBeside_reaches (fun _ _ _ => jobsAndDeletes_sound)
      (fun _ _ _ _ _ => trivial) htighten)
    Relation.ReflTransGen.refl
  obtain ⟨row, hrow, hdoc, hstatus, hacl⟩ := hwider visit hvisit
  exact hacl (hactive row hrow hdoc hstatus).1

end Samples

end AgenticRag
