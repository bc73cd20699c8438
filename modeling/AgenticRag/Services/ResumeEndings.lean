import AgenticRag.Services.RunEndings

/-!
# The endings of a resumed run

A run that is resumed ends in the same way as one that has not been cut off, except where it
ends without saving: after a recomputation that ends it, and where the checkpoint lists no final
evidence and no round is left.
-/

namespace AgenticRag

open Method CheckpointTable

namespace ChatWorld

section Unsaved

variable (W : ChatWorld) (texts : ChatTexts) (ctx : SecurityContext) (s : ChatStores)

/-- Some evidence is dropped, and the recomputation ends the run or leaves it without a round. -/
structure EndsRecomputed (ck : RunCheckpoint) : Prop where
  drops : ∃ ev ∈ ck.evidence, W.keeps ctx ev = false
  kept : (W.recomputed texts ctx s ck).2 ≠ []
  ends : ∃ coverage, W.judge s.calls ck.query ck.requiredFacts (W.recomputed texts ctx s ck).2 = .ok coverage ∧
    ((W.recomputed texts ctx s ck).1.conflictStatus = .contradicted ∨ coverage.overallStatus = .sufficient ∨
      ck.maxRounds ≤ ck.roundIndex)

/-- A running checkpoint lists no final evidence, all its evidence takes its place, and no round is
left. -/
structure EndsUnlisted (ck : RunCheckpoint) : Prop where
  gathered : ck.evidence ≠ []
  keeps : ∀ ev ∈ ck.evidence, W.keeps ctx ev = true
  running : ck.status = .running
  unlisted : ck.finalEvidenceIds = []
  spent : ck.maxRounds ≤ ck.roundIndex

/-- The resumed run ends in a state that its checkpoint does not tell. -/
def EndsUnsaved (ck : RunCheckpoint) : Prop := W.EndsRecomputed texts ctx s ck ∨ W.EndsUnlisted ctx ck

end Unsaved

section Plans

variable {W : ChatWorld} {model : List Message → Except ChatError ClaimExtraction} {texts : ChatTexts}
  {ctx : SecurityContext} {run : RunArgs} {t : IterationState} {s : ChatStores} {runId : String}
  {request : ResumeRequest} {ck : RunCheckpoint} {firstResult : FastPathResult} {corpus : CorpusConfig}
  {surviving : List Evidence}

/-- What follows a plan ends as a run does. -/
def Follows (W : ChatWorld) (model : List Message → Except ChatError ClaimExtraction) (texts : ChatTexts)
    (ctx : SecurityContext) (runId : String) : Except ChatError ResumePlan → IterationState → ChatStores → Prop
  | .ok plan, t, s => (followPlan texts ctx plan).Passes W.eval (ChatStores.Kept runId)
      (Concludes model texts ctx runId) t s
  | .error _, _, _ => True

theorem Resumes.sound (h : W.Resumes ctx request s ck firstResult) (hs : s.Kept request.runId) :
    ck.Sound firstResult := by
  obtain ⟨row, hrow, rfl⟩ := loadRunCheckpoint_some h.loaded
  obtain ⟨-, -, found, hsound⟩ := hs row hrow
  have hfound : some found = some firstResult := hsound.first.symm.trans h.firstResult
  obtain rfl := Option.some.inj hfound
  exact hsound.with_status row.status

theorem Resumes.regular (h : W.Resumes ctx request s ck firstResult) (hsound : ck.Sound firstResult)
    (hcorpus : corpus.corpusId = ck.corpusId) : (ck.run request.runId firstResult corpus).Regular ctx :=
  ⟨rfl, hcorpus, hsound.retrieved, hsound.tenant.trans h.principal.1, hsound.corpus⟩

/-- The evidence with which a run is resumed. -/
theorem Resumes.gathers (h : W.Resumes ctx request s ck firstResult) (hsound : ck.Sound firstResult)
    (hsurviving : surviving.Sublist ck.evidence) (hsome : surviving ≠ []) :
    (stateFromCheckpoint texts ck surviving).Gathers ctx (ck.run request.runId firstResult corpus) := by
  refine ⟨byId_ne_nil hsome, byId_distinct surviving, fun ev hev => ?_⟩
  have hgathered := hsound.gathered ev (hsurviving.subset (mem_of_byId hev))
  rw [h.principal.1] at hgathered
  exact hgathered

/-- The final evidence of a resumed state has been gathered. -/
theorem stateFromCheckpoint_final (hsurviving : byId surviving = surviving) :
    (stateFromCheckpoint texts ck surviving).finalEvidence.Sublist
      (stateFromCheckpoint texts ck surviving).evidenceById := by
  unfold stateFromCheckpoint
  dsimp only
  split
  · exact List.nil_sublist _
  split
  · exact List.Sublist.refl _
  · rw [hsurviving]
    exact List.filter_sublist

/-- A checkpoint tells the state in which its run is resumed with all its evidence. -/
theorem Resumes.tells (h : W.Resumes ctx request s ck firstResult) (hsound : ck.Sound firstResult)
    (hsome : ck.evidence ≠ []) (hlists : ck.status = .completed ∨ ck.finalEvidenceIds ≠ []) :
    Tells model texts ctx (ck.run request.runId firstResult corpus) (stateFromCheckpoint texts ck ck.evidence) s := by
  have hrecords : ck.Records (stateFromCheckpoint texts ck ck.evidence) := hsound.records hlists
  have hconclusion : ck.conclusion model texts ctx =
      (stateFromCheckpoint texts ck ck.evidence).conclusion model texts ctx ck.query ck.corpusId firstResult :=
    hrecords.conclusion hsound (byId_ne_nil hsome) (stateFromCheckpoint_final (byId_of_distinct hsound.distinct))
  intro row hrow
  obtain ⟨row', hrow', rfl⟩ := loadRunCheckpoint_some h.loaded
  obtain rfl : row' = row := Option.some.inj (hrow'.symm.trans hrow)
  exact ⟨hrecords.of_status, hconclusion⟩

/-- A run that ends without evidence. -/
theorem passes_endWithoutEvidence {α : Type} {f : Unit → ChatMethod α}
    {post : Except ChatError α → IterationState → ChatStores → Prop} {report : Option ConflictReport} {reason : String}
    {ended : IterationState}
    (hended : ended = { t with
      finalEvidence := []
      finalReport := report
      coverage := some .abstaining
      finalReason := some reason
      conflictStop := false })
    (hsound : (checkpointOf ctx (ck.args runId firstResult) ck.roundIndex ended).Sound firstResult)
    (hs : s.Kept runId) (herror : ∀ e s', post (.error e) ended s')
    (hf : ∀ s', s'.Kept runId → (∀ row, s'.rowOf runId = some row →
        row.state = checkpointOf ctx (ck.args runId firstResult) ck.roundIndex ended) →
      (f ()).Passes W.eval (ChatStores.Kept runId) post ended s') :
    (endWithoutEvidence ctx runId ck firstResult report reason >>= f).Passes W.eval (ChatStores.Kept runId) post t
      s := by
  subst hended
  unfold endWithoutEvidence
  rw [passes_bind, passes_assign_bind]
  refine passes_save rfl hsound hs herror fun s' hs' hrow => ?_
  have hmarked := kept_marked hs' runId (show CheckpointStatus.completed ≠ .aborted by decide)
  have hsaving : (ck.args runId firstResult).saving = true := rfl
  unfold markDone
  rw [if_pos hsaving, passes_perform]
  refine ⟨hmarked, hf _ hmarked fun row hfound => ?_⟩
  obtain ⟨old, hold, hstate, -, -⟩ := rowOf_marked s' runId .completed hfound
  rw [hstate]
  exact hrow old hold

/-- The plan when all evidence is still authorized. -/
theorem planUnchanged_follows (hW : Steady model W) (h : W.Resumes ctx request s ck firstResult)
    (hsound : ck.Sound firstResult) (hs : s.Kept request.runId) (hcorpus : corpus.corpusId = ck.corpusId)
    (hsome : ck.evidence ≠ [])
    (hlisted : ck.status = .running → ck.finalEvidenceIds = [] → ck.roundIndex < ck.maxRounds) :
    (planUnchanged ctx ck (ck.run request.runId firstResult corpus)).Passes W.eval (ChatStores.Kept request.runId)
      (Follows W model texts ctx request.runId) (stateFromCheckpoint texts ck ck.evidence) s := by
  have htells (hlists : ck.status = .completed ∨ ck.finalEvidenceIds ≠ []) :
      Tells model texts ctx (ck.run request.runId firstResult corpus) (stateFromCheckpoint texts ck ck.evidence) s :=
    h.tells hsound hsome hlists
  unfold planUnchanged
  split
  · rename_i hcompleted
    rw [passes_self_bind]
    split
    · rename_i hnone
      rw [buildNoEvidenceRefusal_eq]
      refine passes_pure.mpr (passes_pure.mpr ((htells (.inl hcompleted)).concludes ?_))
      unfold IterationState.conclusion
      rw [if_pos hnone]
      rfl
    · rename_i hchosen
      refine passes_pure.mpr (passes_markDone rfl hs ?_)
      rintro _ rfl hs'
      exact finalizeIteration_concludes hW ((htells (.inl hcompleted)).marked .completed) hchosen hs'
  · rename_i hcompleted
    have hrunning : ck.status = .running := by
      have haborted := h.status
      cases hstatus : ck.status with
      | running => rfl
      | completed => exact absurd hstatus hcompleted
      | aborted => exact absurd hstatus haborted
    have hchosen : (stateFromCheckpoint texts ck ck.evidence).finalEvidence ≠ [] := by
      unfold stateFromCheckpoint
      dsimp only
      rw [if_neg fun hboth => hcompleted hboth.1]
      split
      · exact byId_ne_nil hsome
      · rename_i hids
        intro hnone
        have hlist := hsound.distinct.ids_filter hsound.final
        rw [hnone, List.map_nil] at hlist
        exact hids hlist.symm
    have hready : (stateFromCheckpoint texts ck ck.evidence).Ready ctx (ck.run request.runId firstResult corpus) :=
      ⟨h.gathers hsound (List.Sublist.refl _) hsome,
        stateFromCheckpoint_final (byId_of_distinct hsound.distinct), hchosen⟩
    refine passes_pure.mpr (loopRounds_concludes hW (h.regular hsound hcorpus) _ _ hready hs fun hzero => ?_)
    apply htells
    right
    intro hids
    have hmore := hlisted hrunning hids
    have hmax : (ck.run request.runId firstResult corpus).maxRounds = ck.maxRounds := rfl
    omega

theorem gathers_reopened (ht : t.Gathers ctx run) (status : CheckpointStatus) :
    (t.reopened status).Gathers ctx run := by
  unfold IterationState.reopened
  split
  · exact ⟨ht.nonempty, ht.distinct, ht.gathered⟩
  · exact ht

/-- The plan after some evidence has been dropped. -/
theorem planRevoked_follows (hW : Steady model W) (h : W.Resumes ctx request s ck firstResult)
    (hsound : ck.Sound firstResult) (hs : s.Kept request.runId) (hcorpus : corpus.corpusId = ck.corpusId)
    (hdrops : ∃ ev ∈ ck.evidence, W.keeps ctx ev = false) (hsome : ck.evidence.filter (W.keeps ctx) ≠ [])
    (hsaved : ¬W.EndsRecomputed texts ctx s ck) :
    (planRevoked texts ctx ck (ck.run request.runId firstResult corpus) (ck.evidence.filter (W.keeps ctx))).Passes
      W.eval (ChatStores.Kept request.runId) (Follows W model texts ctx request.runId)
      (stateFromCheckpoint texts ck (ck.evidence.filter (W.keeps ctx))) s := by
  have hregular := h.regular hsound hcorpus
  have hdistinct : DistinctIds (ck.evidence.filter (W.keeps ctx)) := hsound.distinct.sublist List.filter_sublist
  have hgathers : ((stateFromCheckpoint texts ck (ck.evidence.filter (W.keeps ctx))).reopened ck.status).Gathers ctx
      (ck.run request.runId firstResult corpus) :=
    gathers_reopened (h.gathers hsound List.filter_sublist hsome) ck.status
  have hevidence : ((stateFromCheckpoint texts ck (ck.evidence.filter (W.keeps ctx))).reopened
      ck.status).evidenceById = ck.evidence.filter (W.keeps ctx) := by
    unfold IterationState.reopened
    split <;> exact byId_of_distinct hdistinct
  have hreopens : Uses (fun {β} (op : ChatOp β) => ∀ s : ChatStores, s.Kept request.runId →
      (W.eval op s).2.Kept request.runId) (reopen request.runId ck.status) := by
    refine Uses.ite (Uses.bind (Uses.perform fun s hs => ?_) fun _ => Uses.assign _) (Uses.pure ())
    exact kept_marked hs request.runId (by decide)
  have hreopened : ChatStores.Kept request.runId { s with checkpoints :=
      if ck.status = .completed then markRunCheckpointRunning s.checkpoints request.runId else s.checkpoints } := by
    split
    · exact kept_marked hs request.runId (by decide)
    · exact hs
  unfold planRevoked
  rw [show (ck.run request.runId firstResult corpus).runId = request.runId from rfl,
    hreopens.passes_bind hs (returns_reopened ck.status _ s)]
  apply passes_conflictStage hreopened
  have hsub : (W.recomputed texts ctx s ck).2.Sublist (ck.evidence.filter (W.keeps ctx)) :=
    runConflictStage_sublist texts (W.now s.calls) ck.query (texts.parseTemporalScope ck.query) _
  have hends (hkept : (W.recomputed texts ctx s ck).2 ≠ []) {coverage : SufficiencyResult}
      (hjudged : W.judge s.calls ck.query ck.requiredFacts (W.recomputed texts ctx s ck).2 = .ok coverage) :
      ¬(W.recomputed texts ctx s ck).1.conflictStatus = .contradicted ∧ ¬coverage.overallStatus = .sufficient ∧
        ck.roundIndex < ck.maxRounds := by
    rw [← not_le, ← not_or, ← not_or]
    exact fun hends => hsaved ⟨hdrops, hkept, coverage, hjudged, hends⟩
  unfold recomputed at hsub hends
  dsimp only
  generalize runConflictStage texts (W.now s.calls) ck.query (texts.parseTemporalScope ck.query)
    (ck.evidence.filter (W.keeps ctx)) = staged at hsub hends ⊢
  obtain ⟨report, kept⟩ := staged
  dsimp only at hsub hends ⊢
  generalize (stateFromCheckpoint texts ck (ck.evidence.filter (W.keeps ctx))).reopened ck.status = t
    at hgathers hevidence ⊢
  split
  · -- the run ends without evidence
    have hended : IterationState.Gathers ctx (ck.run request.runId firstResult corpus) { t with
        finalEvidence := []
        finalReport := some report
        coverage := some .abstaining
        finalReason := some "temporal_no_evidence"
        conflictStop := false } :=
      ⟨hgathers.nonempty, hgathers.distinct, hgathers.gathered⟩
    have hsaves := checkpointOf_sound hregular hended (List.nil_sublist _) ck.roundIndex
    refine passes_endWithoutEvidence rfl hsaves hreopened (fun _ _ => trivial) fun s' hs' hrow => ?_
    rw [passes_self_bind, buildNoEvidenceRefusal_eq]
    refine passes_pure.mpr (passes_pure.mpr ?_)
    have hrecords := checkpointOf_records ctx (ck.args request.runId firstResult) ck.roundIndex { t with
        finalEvidence := []
        finalReport := some report
        coverage := some .abstaining
        finalReason := some "temporal_no_evidence"
        conflictStop := false }
    rintro env row ⟨⟩ hfound -
    rw [hrow row hfound]
    refine ⟨hrecords, (hrecords.conclusion hsaves hended.nonempty (List.nil_sublist _)).trans ?_⟩
    unfold IterationState.conclusion
    rw [if_pos rfl]
    rfl
  rename_i hkept
  rw [passes_assign_bind, passes_bind, passes_perform]
  refine ⟨hreopened, ?_⟩
  simp only [eval]
  cases hjudged : W.judge s.calls ck.query ck.requiredFacts kept with
  | error e => trivial
  | ok coverage =>
    obtain ⟨hreport, hcoverage, hmore⟩ := hends hkept hjudged
    dsimp only
    rw [passes_assign_bind, if_neg hreport, if_neg hcoverage]
    refine passes_pure.mpr (loopRounds_concludes hW hregular _ _ ?_ hreopened fun hzero => ?_)
    · refine ⟨⟨hgathers.nonempty, hgathers.distinct, hgathers.gathered⟩, ?_, hkept⟩
      rw [← hevidence] at hsub
      exact hsub
    · have hmax : (ck.run request.runId firstResult corpus).maxRounds = ck.maxRounds := rfl
      omega

/-- The plan of a checkpoint that has passed the checks. -/
theorem planGated_follows (hW : Steady model W) (h : W.Resumes ctx request s ck firstResult)
    (hs : s.Kept request.runId) (hsaved : ¬W.EndsUnsaved texts ctx s ck) :
    (planGated texts ctx request.runId ck firstResult).Passes W.eval (ChatStores.Kept request.runId)
      (Follows W model texts ctx request.runId) t s := by
  have hsound := h.sound hs
  obtain ⟨hrecomputed, hunlisted⟩ := not_or.mp hsaved
  have hreauthorizes : Uses (fun {β} (op : ChatOp β) => ∀ s : ChatStores, s.Kept request.runId →
      (W.eval op s).2.Kept request.runId) (reauthorizeAll ctx ck.evidence) :=
    uses_reauthorizeAll ctx (fun _ _ hs => hs) (fun _ _ hs => hs) (fun _ _ hs => hs) ck.evidence
  let found : ChatStores := { s with findings := s.findings ++ W.revocations ctx ck.evidence }
  have hfound : found.Kept request.runId := hs
  have hresumes : W.Resumes ctx request found ck firstResult := { h with }
  unfold planGated
  rw [hreauthorizes.passes_bind hs (returns_reauthorizeAll ck.evidence)]
  dsimp only
  split
  · -- all evidence is revoked
    rw [passes_assign_bind]
    have hsaves : (checkpointOf ctx (ck.args request.runId firstResult) ck.roundIndex
        { stateFromCheckpoint texts ck [] with
          finalEvidence := []
          finalReport := none
          coverage := some .abstaining
          finalReason := some "all_evidence_revoked"
          conflictStop := false }).Sound firstResult :=
      ⟨rfl, hsound.retrieved, hsound.tenant.trans h.principal.1, hsound.corpus, List.nodup_nil, List.nil_sublist _,
        by rintro ev ⟨⟩⟩
    refine passes_endWithoutEvidence rfl hsaves hfound (fun _ _ => trivial) fun s' hs' hrow => ?_
    rw [buildNoEvidenceRefusal_eq]
    refine passes_pure.mpr (passes_pure.mpr ?_)
    rintro env row ⟨⟩ hfound -
    rw [hrow row hfound]
    exact ⟨checkpointOf_records _ _ _ _, rfl⟩
  rename_i hsome
  rw [passes_bind, passes_perform]
  refine ⟨hfound, ?_⟩
  simp only [eval]
  cases hresolved : W.resolveCorpus ck.corpusId with
  | error e => trivial
  | ok corpus =>
    have hcorpus := hW.corpora ck.corpusId corpus hresolved
    dsimp only
    rw [passes_assign_bind]
    split
    · rename_i hdropped
      obtain ⟨ev, hev⟩ := List.exists_mem_of_ne_nil _ hdropped
      obtain ⟨hmem, hnot⟩ := List.mem_filter.mp hev
      have hdrops : ∃ ev ∈ ck.evidence, W.keeps ctx ev = false := ⟨ev, hmem, by simpa using hnot⟩
      exact planRevoked_follows hW hresumes hsound hfound hcorpus hdrops hsome
        fun hends => hrecomputed ⟨hends.drops, hends.kept, hends.ends⟩
    · rename_i hdropped
      have hkeeps : ∀ ev ∈ ck.evidence, W.keeps ctx ev = true := by
        simpa [List.filter_eq_nil_iff] using hdropped
      have hall : ck.evidence.filter (W.keeps ctx) = ck.evidence := List.filter_eq_self.mpr hkeeps
      rw [hall] at hsome ⊢
      refine planUnchanged_follows hW hresumes hsound hfound hcorpus hsome fun hrunning hids => ?_
      by_contra hspent
      exact hunlisted ⟨hsome, hkeeps, hrunning, hids, not_lt.mp hspent⟩

/-- A resumed run that does not end unsaved. -/
theorem resume_concludes (hW : Steady model W) (hs : s.Kept request.runId)
    (hsaved : ∀ ck firstResult, W.Resumes ctx request s ck firstResult → ¬W.EndsUnsaved texts ctx s ck) :
    (resumeRun texts ctx request).Passes W.eval (ChatStores.Kept request.runId)
      (Concludes model texts ctx request.runId) t s := by
  have hraises : ∀ (e : ChatError) t s, Concludes model texts ctx request.runId (.error e) t s := by
    rintro e t s env row ⟨⟩
  unfold resumeRun
  rw [passes_bind]
  refine passes_planResume _ t hs (fun e => hraises e t s) fun ck firstResult h => ?_
  apply (planGated_follows hW h hs (hsaved ck firstResult h)).mono
  intro r t' s' hr
  cases r with
  | ok plan => exact hr
  | error e => exact hraises e t' s'

/-- A run that ends without evidence, under the identity of its row, is saved. -/
theorem meets_endWithoutEvidence {α : Type} {f : Unit → ChatMethod α}
    {post : Except ChatError α → IterationState → ChatStores → Prop} (report : Option ConflictReport) (reason : String)
    {row : CheckpointRow} (hrow : s.rowOf runId = some row)
    (hidentity : row.identity = ⟨ctx.tenantId, ctx.userId, ctx.sessionId, ck.query, ck.corpusId, ctx.policyVersion⟩)
    (hf : ∀ t' s', (f ()).Meets W.eval post t' s') :
    (endWithoutEvidence ctx runId ck firstResult report reason >>= f).Meets W.eval post t s := by
  unfold endWithoutEvidence
  rw [meets_bind, meets_assign_bind]
  unfold saveCheckpoint
  have hsaving : (ck.args runId firstResult).saving = true := rfl
  rw [meets_bind, meets_self_bind, if_pos hsaving, meets_perform]
  have hsaved (ended : IterationState) :
      (saveRunCheckpoint s.checkpoints (checkpointOf ctx (ck.args runId firstResult) ck.roundIndex ended)).1 =
        .ok () := by
    have hfound : Table.selectOne
        (ofRun (checkpointOf ctx (ck.args runId firstResult) ck.roundIndex ended).runId) s.checkpoints = some row := hrow
    have hsame : ¬row.identity ≠ (checkpointOf ctx (ck.args runId firstResult) ck.roundIndex ended).identity :=
      not_not.mpr hidentity
    unfold saveRunCheckpoint
    rw [hfound]
    dsimp only
    rw [if_neg hsame]
  simp only [eval, hsaved]
  unfold markDone
  rw [if_pos hsaving, meets_perform]
  exact hf _ _

/-- A completed run whose evidence is all still authorized is resumed to what its checkpoint
concludes. -/
theorem Resumes.resume_completed (hmodel : ∀ calls messages, W.model calls messages = model messages)
    (h : W.Resumes ctx request s ck firstResult) (hs : s.Kept request.runId) (hcompleted : ck.status = .completed)
    (hkeeps : ∀ ev ∈ ck.evidence, W.keeps ctx ev = true) (hresolved : W.resolveCorpus ck.corpusId = .ok corpus) :
    (W.resume texts ctx request s).1.1 = ck.conclusion model texts ctx := by
  suffices hrun : (resumeRun texts ctx request).Meets W.eval (fun r _ _ => r = ck.conclusion model texts ctx) .empty s
    from hrun
  have hall : ck.evidence.filter (W.keeps ctx) = ck.evidence := List.filter_eq_self.mpr hkeeps
  have hnone : (ck.evidence.filter fun ev => !W.keeps ctx ev) = [] := by
    simpa [List.filter_eq_nil_iff] using hkeeps
  have hended : ck.ended texts = stateFromCheckpoint texts ck ck.evidence := by
    unfold RunCheckpoint.ended stateFromCheckpoint
    dsimp only
    rw [hcompleted]
  unfold resumeRun
  rw [meets_bind]
  apply h.meets
  unfold planGated
  rw [(returns_reauthorizeAll ck.evidence).meets_bind, hall, hnone]
  unfold RunCheckpoint.conclusion
  rw [h.firstResult]
  dsimp only
  split
  · rename_i hevidence
    obtain ⟨row, hrow, rfl⟩ := loadRunCheckpoint_some h.loaded
    obtain ⟨-, hsound⟩ := hs row hrow
    have hidentity : row.identity = ⟨ctx.tenantId, ctx.userId, ctx.sessionId, row.state.query, row.state.corpusId,
        ctx.policyVersion⟩ := by
      rw [hsound.identity, ← h.policyVersion, ← h.principal.1, ← h.principal.2.1, ← h.principal.2.2]
      rfl
    rw [meets_assign_bind]
    refine meets_endWithoutEvidence none "all_evidence_revoked" hrow hidentity fun t' s' => ?_
    rw [buildNoEvidenceRefusal_eq]
    rfl
  · rename_i hevidence
    rw [meets_bind, meets_perform]
    simp only [eval, hresolved]
    rw [meets_assign_bind, if_neg (by simp)]
    unfold planUnchanged
    rw [if_pos hcompleted, meets_self_bind, hended]
    unfold IterationState.conclusion
    split
    · rw [buildNoEvidenceRefusal_eq]
      rfl
    · rename_i hchosen
      rw [meets_pure]
      unfold followPlan
      dsimp only
      rw [(returns_markDone _ rfl).meets_bind]
      have hmarked : ChatStores.Kept request.runId { s with
          findings := s.findings ++ W.revocations ctx ck.evidence
          checkpoints := setStatus s.checkpoints request.runId .completed } :=
        kept_marked hs request.runId (by decide)
      apply (passes_finalizeIteration hmodel hmarked).2.mono
      rintro r t' s' ⟨hr, -, -⟩
      exact hr

end Plans

end ChatWorld

end AgenticRag
