import AgenticRag.Foundations.Resumption
import AgenticRag.Ingestion.IndexedVersion

/-!
# Performing a step of a job again

Each of the steps of a job may be performed after it was performed already, by an attempt
that was cut off before it wrote the marker. Readers see no difference: chunk ids and
point ids are derived from the content, and every write overwrites what it wrote before.
-/

namespace AgenticRag.IngestionJob

open MetadataStore StoreProgram Method

variable {svc : Services} {req : IngestionRequest} {w w' u u' : World} {me me' : JobState}

/-- The same version rows up to the recorded times, the same chunk rows and points, the same
parent under every id, and the same version for the job to hide. -/
structure SameArtifacts (req : IngestionRequest) (w u : World) : Prop where
  documents : w.metadata.untimedDocuments = u.metadata.untimedDocuments
  chunks : w.metadata.chunks = u.metadata.chunks
  vectors : w.vectors = u.vectors
  parents : ∀ parentId, w.parents.get parentId = u.parents.get parentId
  replaced : w.metadata.getJobPreviousVersion req.jobId =
    u.metadata.getJobPreviousVersion req.jobId

theorem SameArtifacts.symm (h : SameArtifacts req w u) : SameArtifacts req u w :=
  ⟨h.documents.symm, h.chunks.symm, h.vectors.symm, fun parentId => (h.parents parentId).symm,
    h.replaced.symm⟩

theorem SameArtifacts.trans {v : World} (h : SameArtifacts req w u) (h' : SameArtifacts req u v) :
    SameArtifacts req w v :=
  ⟨h.documents.trans h'.documents, h.chunks.trans h'.chunks, h.vectors.trans h'.vectors,
    fun parentId => (h.parents parentId).trans (h'.parents parentId), h.replaced.trans h'.replaced⟩

theorem AddsMarker.sameArtifacts {name : Step} (h : AddsMarker req name w w') :
    SameArtifacts req w' w := by
  obtain ⟨steps, rfl⟩ := h.stores
  exact ⟨rfl, rfl, rfl, fun _ => rfl, rfl⟩

/-- The effect of a step for some attempt of the job. -/
structure Performed (svc : Services) (req : IngestionRequest) (name : Step) (w w' : World) : Prop where
  invariant : LifecycleInvariant w.metadata
  step : ∃ me me', Coherent svc req me ∧ (name = .parse → me.childrenList = []) ∧
    Finishes (step svc req name) me w () me' w'

/-- The step loop of the job. -/
def markedSteps (svc : Services) (req : IngestionRequest) : MarkedSteps Step World where
  perform := Performed svc req
  mark := AddsMarker req
  Marked := Marked req
  Agrees := SameArtifacts req

theorem Filled.same_lists {other other' : JobState} (h : Filled svc req other)
    (h' : Filled svc req other') :
    other.parentsList = other'.parentsList ∧ other.childrenList = other'.childrenList := by
  have hsame := h.chunks.symm.trans h'.chunks
  simp only [Except.ok.injEq, Prod.mk.injEq] at hsame
  exact hsame

section Parents

theorem get_putParents_congr {store store' : ParentStore} (parents : List ParentDraft)
    (h : ∀ parentId, store.get parentId = store'.get parentId) (parentId : String) :
    (putParents req parents store).get parentId = (putParents req parents store').get parentId := by
  unfold putParents
  induction parents generalizing store store' with
  | nil => exact h parentId
  | cons parent parents ih =>
    rw [List.foldl_cons, List.foldl_cons]
    apply ih
    intro parentId
    rw [ParentStore.get_put, ParentStore.get_put, h]

theorem putParents_eq (parents : List ParentDraft) (store : ParentStore) :
    putParents req parents store =
      (parents.map (authorizedParent req)).foldl
        (Table.upsert fun parent : ParentChunk => parent.parentId) store := by
  unfold putParents
  rw [List.foldl_map]
  rfl

theorem putParents_putParents (parents : List ParentDraft) (store : ParentStore) :
    putParents req parents (putParents req parents store) = putParents req parents store := by
  simp only [putParents_eq, Table.upsertAll_upsertAll]

theorem get_published_congr {store store' : ParentStore} (rows : List ChunkRecord)
    (parents : List ParentDraft) (h : ∀ parentId, store.get parentId = store'.get parentId)
    (parentId : String) :
    (deprecateRows rows (parents.foldl promoteParent store)).get parentId =
      (deprecateRows rows (parents.foldl promoteParent store')).get parentId := by
  simp only [get_deprecateRows, get_promoteParents, h]

/-- Each of the two marks overwrites both. -/
theorem get_published_again (rows : List ChunkRecord) (parents : List ParentDraft)
    (store : ParentStore) (parentId : String) :
    (deprecateRows rows (parents.foldl promoteParent
        (deprecateRows rows (parents.foldl promoteParent store)))).get parentId =
      (deprecateRows rows (parents.foldl promoteParent store)).get parentId := by
  simp only [get_deprecateRows, get_promoteParents, Option.map_map]
  congr 1
  funext chunk
  simp only [Function.comp_apply]
  split <;> split <;> rfl

end Parents

section Steps

theorem writeParents_agrees (h : Performed svc req .writeParents u u')
    (h' : Performed svc req .writeParents w w')
    (hsame : SameArtifacts req w u ∨ SameArtifacts req w u') : SameArtifacts req w' u' := by
  obtain ⟨-, me, me', hcoherent, -, hstep⟩ := h
  obtain ⟨-, other, other', hcoherent', -, hstep'⟩ := h'
  obtain ⟨hfilled, -, rfl⟩ := stepWriteParents_finishes hcoherent hstep
  obtain ⟨hfilled', -, rfl⟩ := stepWriteParents_finishes hcoherent' hstep'
  rw [(hfilled'.same_lists hfilled).1]
  rcases hsame with hsame | hsame
  · exact ⟨hsame.documents, hsame.chunks, hsame.vectors, get_putParents_congr _ hsame.parents,
      hsame.replaced⟩
  · refine ⟨hsame.documents, hsame.chunks, hsame.vectors, fun parentId => ?_, hsame.replaced⟩
    rw [get_putParents_congr _ hsame.parents]
    exact congrArg (ParentStore.get · parentId) (putParents_putParents _ _)

theorem writeQdrant_agrees (h : Performed svc req .writeQdrant u u')
    (h' : Performed svc req .writeQdrant w w')
    (hsame : SameArtifacts req w u ∨ SameArtifacts req w u') : SameArtifacts req w' u' := by
  obtain ⟨-, me, me', hcoherent, -, hstep⟩ := h
  obtain ⟨-, other, other', hcoherent', -, hstep'⟩ := h'
  obtain ⟨hfilled, -, v, hv, rfl⟩ := stepWriteQdrant_finishes hcoherent hstep
  obtain ⟨hfilled', -, v', hv', rfl⟩ := stepWriteQdrant_finishes hcoherent' hstep'
  obtain rfl := VectorStore.upsert_eq hv
  obtain rfl := VectorStore.upsert_eq hv'
  rw [(hfilled'.same_lists hfilled).1, (hfilled'.same_lists hfilled).2]
  rcases hsame with hsame | hsame
  · refine ⟨hsame.documents, ?_, ?_, hsame.parents, hsame.replaced⟩
    · dsimp only
      rw [hsame.chunks]
    · dsimp only
      rw [hsame.vectors]
  · refine ⟨hsame.documents, ?_, ?_, hsame.parents, hsame.replaced⟩
    · dsimp only
      rw [hsame.chunks, Table.upsertAll_upsertAll]
    · dsimp only
      rw [hsame.vectors, VectorStore.upserted_upserted]

theorem commit_agrees (h : Performed svc req .commit u u') (h' : Performed svc req .commit w w')
    (hsame : SameArtifacts req w u ∨ SameArtifacts req w u') : SameArtifacts req w' u' := by
  obtain ⟨hinv, me, me', -, -, hstep⟩ := h
  obtain ⟨-, other, other', -, -, hstep'⟩ := h'
  obtain ⟨-, switched, m, hm, rfl⟩ := stepCommit_finishes hstep
  obtain ⟨-, switched', m', hm', rfl⟩ := stepCommit_finishes hstep'
  have hframe : m = { u.metadata with documents := m.documents } := by
    rcases commitActiveVersion_cases hm with ⟨-, -, rfl⟩ | ⟨-, -, -, rfl, -⟩ | ⟨e, herr, -⟩ <;>
      first | rfl | simp at herr
  have hframe' : m' = { w.metadata with documents := m'.documents } := by
    rcases commitActiveVersion_cases hm' with ⟨-, -, rfl⟩ | ⟨-, -, -, rfl, -⟩ | ⟨e, herr, -⟩ <;>
      first | rfl | simp at herr
  have hdocuments : m'.untimedDocuments = m.untimedDocuments := by
    rcases hsame with hsame | hsame
    · exact commitActiveVersion_untimed hsame.documents hm' hm
    · have hactive := commitActiveVersion_active hinv hm
      rw [← getActiveVersion_untimed hsame.documents] at hactive
      rcases commitActiveVersion_cases hm' with ⟨-, -, rfl⟩ | ⟨hother, -⟩ | ⟨e, herr, -⟩
      · exact hsame.documents
      · exact absurd hactive hother
      · simp at herr
  rw [hframe, hframe'] at hdocuments ⊢
  rcases hsame with hsame | hsame
  · exact ⟨hdocuments, hsame.chunks, hsame.vectors, hsame.parents, hsame.replaced⟩
  · rw [hframe] at hsame
    exact ⟨hdocuments, hsame.chunks, hsame.vectors, hsame.parents, hsame.replaced⟩

theorem publish_agrees (h : Performed svc req .publish u u') (h' : Performed svc req .publish w w')
    (hsame : SameArtifacts req w u ∨ SameArtifacts req w u') : SameArtifacts req w' u' := by
  obtain ⟨-, me, me', hcoherent, -, hstep⟩ := h
  obtain ⟨-, other, other', hcoherent', -, hstep'⟩ := h'
  obtain ⟨hfilled, v₁, v₂, hv₁, hv₂, rfl⟩ := stepPublish_finishes hcoherent hstep
  obtain ⟨hfilled', v₁', v₂', hv₁', hv₂', rfl⟩ := stepPublish_finishes hcoherent' hstep'
  obtain rfl := VectorStore.upsert_eq hv₁
  obtain rfl := VectorStore.upsert_eq hv₂
  obtain rfl := VectorStore.upsert_eq hv₁'
  obtain rfl := VectorStore.upsert_eq hv₂'
  simp only [(hfilled'.same_lists hfilled).1, (hfilled'.same_lists hfilled).2,
    VectorStore.upserted_append] at hsame ⊢
  have hrows : supersededRows req w.metadata = supersededRows req u.metadata := by
    rcases hsame with hsame | hsame <;>
      simp only [supersededRows, listChunkRecords, hsame.replaced, hsame.chunks]
  rw [hrows]
  rcases hsame with hsame | hsame
  · refine ⟨hsame.documents, hsame.chunks, ?_, get_published_congr _ _ hsame.parents,
      hsame.replaced⟩
    dsimp only
    rw [hsame.vectors]
  · refine ⟨hsame.documents, hsame.chunks, ?_, fun parentId => ?_, hsame.replaced⟩
    · dsimp only
      rw [hsame.vectors, VectorStore.upserted_upserted]
    · exact (get_published_congr _ _ hsame.parents parentId).trans (get_published_again _ _ _ _)

/-- A step that writes neither rows nor artifacts. -/
theorem idle_agrees (hw : SameArtifacts req w' w) (hu : SameArtifacts req u' u)
    (hsame : SameArtifacts req w u ∨ SameArtifacts req w u') : SameArtifacts req w' u' := by
  rcases hsame with hsame | hsame
  · exact (hw.trans hsame).trans hu.symm
  · exact hw.trans hsame

/-- The steps that leave the artifacts alone. -/
theorem Performed.idle {name : Step} (h : Performed svc req name w w')
    (hwrites : name ≠ .writeParents ∧ name ≠ .writeQdrant ∧ name ≠ .commit ∧ name ≠ .publish) :
    SameArtifacts req w' w := by
  obtain ⟨-, me, me', hcoherent, hparse, hstep⟩ := h
  obtain ⟨hparents, hvectors, hcommit, hpublish⟩ := hwrites
  have hleaves := (step_finishes hcoherent hparse hstep).2
  refine ⟨?_, hleaves.chunks hvectors, hleaves.vectors hvectors hpublish, fun parentId => ?_, ?_⟩
  · simp only [untimedDocuments, hleaves.documents hcommit]
  · rw [hleaves.parents hparents hpublish]
  · by_cases hfinalize : name = .finalize
    · subst hfinalize
      obtain ⟨-, rfl⟩ := stepFinalize_finishes hstep
      simp only [getJobPreviousVersion, jobRow]
      rw [Table.selectOne_update]
      · cases Table.selectOne (fun row : JobRow => decide (row.jobId = req.jobId)) w.metadata.jobs with
        | none => rfl
        | some row =>
          simp only [Option.map_some, Option.bind_some]
          split <;> rfl
      · intro row _
        split <;> rfl
    · simp only [getJobPreviousVersion, jobRow, hleaves.jobs hfinalize]

end Steps

theorem markedSteps_repeatable (svc : Services) (req : IngestionRequest) :
    (markedSteps svc req).Repeatable where
  mark_marked h := h.marked
  mark_agrees h _ hsame := h.sameArtifacts.trans hsame
  agrees_mark h _ hsame := hsame.trans h.sameArtifacts.symm
  perform_marked h := by
    obtain ⟨-, me, me', hcoherent, hparse, hstep⟩ := h
    intro name
    have hsteps := (step_finishes hcoherent hparse hstep).2.steps
    simp only [markedSteps, Marked, isStepDone, hsteps]
  perform_agrees {name _ _ _ _} h h' hsame := by
    cases name with
    | writeParents => exact writeParents_agrees h h' hsame
    | writeQdrant => exact writeQdrant_agrees h h' hsame
    | commit => exact commit_agrees h h' hsame
    | publish => exact publish_agrees h h' hsame
    | acquire => exact idle_agrees (h'.idle (by simp)) (h.idle (by simp)) hsame
    | parse => exact idle_agrees (h'.idle (by simp)) (h.idle (by simp)) hsame
    | chunk => exact idle_agrees (h'.idle (by simp)) (h.idle (by simp)) hsame
    | verify => exact idle_agrees (h'.idle (by simp)) (h.idle (by simp)) hsame
    | finalize => exact idle_agrees (h'.idle (by simp)) (h.idle (by simp)) hsame

end AgenticRag.IngestionJob
