import AgenticRag.Foundations.Parties
import AgenticRag.Ingestion.CompletedRun
import AgenticRag.Ingestion.VersionTenure

/-!
# Two contents for one version

Two jobs that deliver different contents for one version of one document. Both may pass
the content check before either of them has written a row, so it is the build lease that
has to keep them apart. It does as long as the owner's job is in flight, and a job that
ends without a commit leaves nothing behind; but a job that ends after its commit may be
taken over, and then the other content is built over an active version.
-/

namespace AgenticRag

open MetadataStore StoreProgram Method IngestionJob

inductive Side where
  | first
  | second
  deriving DecidableEq, Repr

def Side.other : Side → Side
  | .first => .second
  | .second => .first

/-- Two deliveries of different contents for one version, each under its own job id. -/
structure ContentRace (svc : Services) where
  ref : VersionRef
  req : Side → IngestionRequest
  options : Side → RunOptions
  version : ∀ side, (req side).ref = ref
  jobs : ∀ side, (req side.other).jobId ≠ (req side).jobId
  contents : ∀ side, rawHash svc (req side.other) ≠ rawHash svc (req side)

namespace ContentRace

variable {svc : Services} (race : ContentRace svc)

/-- At most one of the two contents is stored for the version. -/
structure OneContent (w : World) : Prop where
  positive : PositiveGenerations w.metadata
  stored : Vacant race.ref w ∨ ∃ side, Possessed svc (race.req side) w

/-- What the run of a side relies on: nothing changes while it holds the version, nobody
acts in its name, and the version keeps to one content. -/
structure Bears (side : Side) (w w' : World) : Prop where
  held : HoldsVersion (race.req side) w → ∃ clock, w' = { w with clock }
  untouched : Untouched (race.req side).jobId w → Untouched (race.req side).jobId w'
  oneContent : race.OneContent w → race.OneContent w'

/-- The run of a side beside the other one; nobody overrules an active version. -/
def regime (side : Side) : Regime World StoreOp PyError where
  out op w r w' := op.Outcome w r w' ∧ ¬op.Overrules w
  rely := race.Bears side
  guar := race.Bears side.other
  rely_refl w := ⟨fun _ => ⟨w.clock, rfl⟩, id, id⟩
  rely_trans := by
    rintro w₁ w₂ w₃ h h'
    refine ⟨fun hholds => ?_, fun hw => h'.untouched (h.untouched hw),
      fun hw => h'.oneContent (h.oneContent hw)⟩
    obtain ⟨clock, rfl⟩ := h.held hholds
    exact h'.held hholds

variable {race} {side : Side} {done : Bool} {me : JobState} {w w' : World}

theorem onStores : OnStores (race.regime side) where
  out h := h.1
  idle := (race.regime side.other).rely_refl

theorem sameVersion (side : Side) : (race.req side.other).ref = (race.req side).ref :=
  (race.version side.other).trans (race.version side).symm

/-- A version has one owner. -/
theorem not_owns_other (h : OwnsVersion (race.req side) w) : ¬OwnsVersion (race.req side.other) w := by
  intro hother
  rw [OwnsVersion, sameVersion] at hother
  exact race.jobs side (Option.some.inj (hother.symm.trans h))

theorem OneContent.of_tenure (h : Tenure svc (race.req side) done w) : race.OneContent w :=
  ⟨h.positive, Or.inr ⟨side, h.possessed⟩⟩

/-- A step of a side that does not hold the version against the other one. -/
theorem bears_other (hfree : ¬HoldsVersion (race.req side.other) w) (helse : Elsewhere (race.req side) w w')
    (hone : race.OneContent w') : race.Bears side.other w w' :=
  ⟨fun hholds => absurd hholds hfree, fun hw => hw.elsewhere (race.jobs side) helse, fun _ => hone⟩

theorem bears_of_tenure (h : Tenure svc (race.req side) done w)
    (helse : Elsewhere (race.req side) w w') (hone : race.OneContent w') :
    race.Bears side.other w w' :=
  bears_other (fun hholds => not_owns_other h.holds.1 hholds.1) helse hone

section Assertions

variable (race)

/-- The run has not acquired the version. -/
structure Waiting (side : Side) (w : World) : Prop where
  oneContent : race.OneContent w
  untouched : Untouched (race.req side).jobId w

/-- The run holds no token: it has not acquired the version, or does not know that it
has. -/
structure Unarmed (side : Side) (me : JobState) (w : World) : Prop where
  initial : me = initial
  state : race.Waiting side w ∨ Claimed svc (race.req side) w

/-- The run is at work with its token. -/
structure Working (side : Side) (done : Bool) (me : JobState) (w : World) : Prop where
  tenure : Tenure svc (race.req side) done w
  token : w.metadata.getLeaseGeneration (race.req side).ref = me.leaseGeneration
  coherent : Coherently svc (race.req side) me
  flag : me.commitPerformed = done

variable {race}

theorem Working.rely (h : race.Working side done me w) (hrely : (race.regime side).rely w w') :
    race.Working side done me w' := by
  obtain ⟨clock, rfl⟩ := hrely.held h.tenure.holds
  exact ⟨h.tenure.clock clock, h.token, h.coherent, h.flag⟩

theorem Unarmed.rely (h : race.Unarmed side me w) (hrely : (race.regime side).rely w w') :
    race.Unarmed side me w' := by
  refine ⟨h.initial, h.state.imp (fun hw => ?_) fun hw => ?_⟩
  · exact ⟨hrely.oneContent hw.oneContent, hrely.untouched hw.untouched⟩
  · obtain ⟨clock, rfl⟩ := hrely.held hw.tenure.holds
    exact hw.clock clock

theorem working_stable : Stable (race.regime side) (race.Working side done)
    (fun _ : PyError => race.Working side done) :=
  ⟨fun hrely h => h.rely hrely, fun hrely h => h.rely hrely⟩

theorem working_rules : ContentRules svc (race.req side) done (race.regime side)
    (race.Working side done) where
  onStores := onStores
  stable := working_stable
  perform op hop := by
    apply Maintains.perform working_stable
    rintro me w r w' h ⟨hout, -⟩
    have hserved := hop.served hout
    have htenure := h.tenure.own hop hout
    have hworking : race.Working side done me w' := by
      refine ⟨htenure, ?_, h.coherent, h.flag⟩
      simp only [← h.token, getLeaseGeneration, buildRow, hserved.builds]
    refine ⟨bears_of_tenure h.tenure hserved.elsewhere (.of_tenure htenure), ?_⟩
    cases r with
    | ok _ => exact hworking
    | error _ => exact hworking
  assign f hf me w h := by
    refine ⟨h.tenure, ?_, h.coherent.assign hf, hf.commitPerformed.trans h.flag⟩
    rw [hf.leaseGeneration]
    exact h.token
  coherent _ _ h := h.coherent
  built _ _ h := h.tenure.built

end Assertions

section Failure

/-- With its token the lease check passes, or a read faults. -/
theorem assertOwnsBuild_working (h : race.Working side done me w) :
    (assertOwnsBuild (race.req side)).wp (race.regime side) (fun r me w =>
      race.Working side done me w ∧ (r = .ok () ∨ r = .error .fault)) me w := by
  apply wp_bind
  refine wp_readOrFault onStores (fun w₁ w₂ hw₁ hw₂ => ?_) fun w₁ hw₁ w₂ hw₂ =>
    ⟨(h.rely hw₁).rely hw₂, Or.inr rfl⟩
  have h₁ := h.rely hw₁
  have howner : w₁.metadata.getBuildOwner (race.req side).ref = some (race.req side).jobId :=
    h₁.tenure.holds.1
  apply wp_bind
  refine wp_readOrFault onStores (fun w₃ w₄ hw₃ hw₄ => ?_) fun w₃ hw₃ w₄ hw₄ =>
    ⟨((h₁.rely hw₂).rely hw₃).rely hw₄, Or.inr rfl⟩
  have h₃ := (h₁.rely hw₂).rely hw₃
  apply wp_bind
  refine wp_self fun w₅ hw₅ => ?_
  have hheld : ¬(w₁.metadata.getBuildOwner (race.req side).ref ≠ some (race.req side).jobId ∨
      w₃.metadata.getLeaseGeneration (race.req side).ref ≠ me.leaseGeneration) := by
    push Not
    exact ⟨howner, h₃.token⟩
  simp only [hheld, if_false]
  exact wp_pure fun w₆ hw₆ => ⟨((h₃.rely hw₄).rely hw₅).rely hw₆, Or.inl rfl⟩

/-- Without a token the lease check raises. -/
theorem assertOwnsBuild_unarmed (h : race.Unarmed side me w) :
    (assertOwnsBuild (race.req side)).wp (race.regime side) (fun r me w =>
      race.Unarmed side me w ∧ ∃ e, r = .error e) me w := by
  apply wp_bind
  refine wp_read onStores (fun w₁ w₂ hw₁ hw₂ => ?_) fun e w₁ hw₁ w₂ hw₂ =>
    ⟨(h.rely hw₁).rely hw₂, e, rfl⟩
  have h₁ := h.rely hw₁
  apply wp_bind
  refine wp_read onStores (fun w₃ w₄ hw₃ hw₄ => ?_) fun e w₃ hw₃ w₄ hw₄ =>
    ⟨((h₁.rely hw₂).rely hw₃).rely hw₄, e, rfl⟩
  have hrely := (race.regime side).rely_trans hw₂ hw₃
  have h₃ := h₁.rely hrely
  apply wp_bind
  refine wp_self fun w₅ hw₅ => ?_
  have hlost : w₁.metadata.getBuildOwner (race.req side).ref ≠ some (race.req side).jobId ∨
      w₃.metadata.getLeaseGeneration (race.req side).ref ≠ me.leaseGeneration := by
    rcases h₁.state with hwaiting | hclaimed
    · exact Or.inl (hwaiting.untouched.not_owns _)
    · right
      obtain ⟨clock, rfl⟩ := hrely.held hclaimed.tenure.holds
      have hpositive := hclaimed.tenure.positive.of_owner hclaimed.tenure.holds.1
      rw [h.initial]
      exact hpositive.ne'
  simp only [hlost, if_true]
  apply wp_raise onStores
  exact fun e w₆ hw₆ => ⟨((h₃.rely hw₄).rely hw₅).rely hw₆, e, rfl⟩

theorem stillOwnsBuild_working (h : race.Working side done me w) :
    (stillOwnsBuild (race.req side)).wp (race.regime side) (fun r me w =>
      race.Working side done me w ∧ (r = .ok true ∨ ∃ e, r = .error e)) me w := by
  have hcheck : (do assertOwnsBuild (race.req side); pure true : JobProgram Bool).wp
      (race.regime side) (fun r me w =>
        race.Working side done me w ∧ (r = .ok true ∨ r = .error .fault)) me w := by
    apply wp_bind
    refine wp_mono ?_ (assertOwnsBuild_working h)
    rintro r me w ⟨h, rfl | rfl⟩
    · exact wp_pure fun w' hw' => ⟨h.rely hw', Or.inl rfl⟩
    · exact fun w' hw' => ⟨h.rely hw', Or.inr rfl⟩
  apply wp_tryCatch
  refine wp_mono ?_ hcheck
  rintro r me w ⟨h, rfl | rfl⟩
  · exact fun w' hw' => ⟨h.rely hw', Or.inl rfl⟩
  · exact wp_reraise fun w' hw' => ⟨h.rely hw', Or.inr ⟨_, rfl⟩⟩

theorem stillOwnsBuild_unarmed (h : race.Unarmed side me w) :
    (stillOwnsBuild (race.req side)).wp (race.regime side) (fun r me w =>
      race.Unarmed side me w ∧ r ≠ .ok true) me w := by
  have hcheck : (do assertOwnsBuild (race.req side); pure true : JobProgram Bool).wp
      (race.regime side) (fun r me w => race.Unarmed side me w ∧ ∃ e, r = .error e) me w := by
    apply wp_bind
    refine wp_mono ?_ (assertOwnsBuild_unarmed h)
    rintro r me w ⟨h, e, rfl⟩
    exact fun w' hw' => ⟨h.rely hw', e, rfl⟩
  apply wp_tryCatch
  refine wp_mono ?_ hcheck
  rintro r me w ⟨h, e, rfl⟩
  cases e with
  | buildConflict reason => exact wp_pure fun w' hw' => ⟨h.rely hw', by simp⟩
  | _ => exact wp_reraise fun w' hw' => ⟨h.rely hw', by simp⟩

/-- An access of the job at work, between two ticks of the clock. -/
theorem perform_working {β : Type} {op : StoreOp β} (hop : OwnAccess svc (race.req side) done op)
    (h : race.Working side done me w) {post : Except PyError β → JobState → World → Prop}
    (hpost : ∀ r clock clock' w', op.Outcome { w with clock } r w' →
      race.Working side done me { w' with clock := clock' } → post r me { w' with clock := clock' }) :
    (Method.perform op : JobProgram β).wp (race.regime side) post me w := by
  have hkeeps := working_rules.perform op hop me w h
  refine wp_perform fun w₁ hw₁ r w₂ hout => ?_
  obtain ⟨hguar, hnext⟩ := hkeeps w₁ hw₁ r w₂ hout
  refine ⟨hguar, fun w₃ hw₃ => ?_⟩
  have h₂ : race.Working side done me w₂ := by
    have hidle := hnext w₂ ((race.regime side).rely_refl w₂)
    cases r with
    | ok _ => exact hidle
    | error _ => exact hidle
  obtain ⟨clock, rfl⟩ := hw₁.held h.tenure.holds
  obtain ⟨clock', rfl⟩ := hw₃.held h₂.tenure.holds
  exact hpost r clock clock' w₂ hout.1 (h₂.rely hw₃)

def Pointless (ref : VersionRef) (w : World) : Prop :=
  ∀ name points, w.vectors name = some points → ∀ point ∈ points, point.payload.ref ≠ ref

/-- Removing the points of the request's children. -/
theorem deletePoints_working (h : race.Working side done me w)
    (hchunks : chunksOf svc (race.req side) = (me.parentsList, me.childrenList)) :
    (vectors (.delete (race.req side).ref.doc.corpusId
      (me.childrenList.map fun child => svc.childPointId child.childId)) : JobProgram Unit).wp
        (race.regime side) (fun r me w => race.Working side done me w ∧
          ∀ u, r = .ok u → Pointless (race.req side).ref w) me w := by
  have hremove : OwnAccess svc (race.req side) done (.vectors (.delete (race.req side).ref.doc.corpusId
      (me.childrenList.map fun child => svc.childPointId child.childId)) id) := trivial
  refine perform_working hremove h fun r clock clock' w' hout h' => ⟨h', ?_⟩
  rintro u rfl name points hpoints point hpoint href
  have heval := congrArg (fun result => result.2.vectors) hout.ok
  simp only [StoreOp.eval, VectorOp.eval] at heval
  simp only [← heval] at hpoints
  obtain ⟨found, hfound, hsub⟩ := delete_subset hpoints
  obtain ⟨hmem, hremoved⟩ := hsub point hpoint
  obtain ⟨hname, child, hchild, status, rfl⟩ := h.tenure.built.points name found hfound point hmem href
  apply hremoved hname
  rw [hchunks] at hchild
  exact List.mem_map_of_mem (f := fun child : ChildChunk => svc.childPointId child.childId) hchild

/-- Removing the request's parents one after the other. -/
theorem deleteParents_working {drafts : List ParentDraft} (h : race.Working side done me w)
    (hpoints : Pointless (race.req side).ref w)
    (hdrafts : ∀ parent ∈ w.parents, parent.ref = (race.req side).ref →
      parent.parentId ∈ drafts.map (·.parentId)) :
    (forEach drafts fun parent => parents (.delete parent.parentId) : JobProgram Unit).wp
      (race.regime side) (fun r me w => race.Working side done me w ∧ ∀ u, r = .ok u →
        Pointless (race.req side).ref w ∧ ∀ parent ∈ w.parents, parent.ref ≠ (race.req side).ref)
      me w := by
  apply wp_forEach (fun drafts me w => race.Working side done me w ∧
    Pointless (race.req side).ref w ∧ ∀ parent ∈ w.parents, parent.ref = (race.req side).ref →
      parent.parentId ∈ drafts.map (·.parentId))
  · rintro drafts me w w' hrely ⟨h, hpoints, hdrafts⟩
    have h' := h.rely hrely
    obtain ⟨clock, rfl⟩ := hrely.held h.tenure.holds
    exact ⟨h', hpoints, hdrafts⟩
  · rintro draft drafts me w ⟨h, hpoints, hdrafts⟩
    have hremove : OwnAccess svc (race.req side) done (.parents (.delete draft.parentId) id) := trivial
    refine perform_working hremove h
      fun r clock clock' w' hout h' => ?_
    cases r with
    | error e => exact fun w'' hw'' => ⟨h'.rely hw'', by simp⟩
    | ok u =>
      obtain ⟨-, rfl⟩ := Prod.mk.inj hout.ok
      refine ⟨h', hpoints, fun parent hparent href => ?_⟩
      obtain ⟨hmem, hkept⟩ := Table.mem_delete.mp hparent
      have hother : parent.parentId ≠ draft.parentId := of_decide_eq_false hkept
      exact (List.mem_cons.mp (hdrafts parent hmem href)).resolve_left hother
  · rintro me w ⟨h, hpoints, hdrafts⟩
    exact ⟨h, fun _ _ => ⟨hpoints, fun parent hparent href => by simpa using hdrafts parent hparent href⟩⟩
  · exact ⟨h, hpoints, hdrafts⟩

/-- Removing the chunk rows, the last of the version's artifacts. -/
theorem removeRows_working (h : race.Working side done me w)
    (hpoints : Pointless (race.req side).ref w)
    (hparents : ∀ parent ∈ w.parents, parent.ref ≠ (race.req side).ref) :
    (do
      metadata (.deleteChunkRecords (race.req side).ref)
      metadata (.clearSteps (race.req side).jobId)
      metadata (.markDocumentFailed (race.req side).ref) : JobProgram Unit).wp (race.regime side)
        (fun r me w => race.Working side done me w ∧ ∀ u, r = .ok u → w.Bare (race.req side).ref)
        me w := by
  have hdelete : OwnAccess svc (race.req side) done
      (.metadata (.deleteChunkRecords (race.req side).ref)) := trivial
  have hclear : OwnAccess svc (race.req side) done
      (.metadata (.clearSteps (race.req side).jobId)) := rfl
  have hfailed : OwnAccess svc (race.req side) done
      (.metadata (.markDocumentFailed (race.req side).ref)) := trivial
  apply wp_bind
  refine perform_working hdelete h
    fun r clock clock' w₁ hout h₁ => ?_
  cases r with
  | error e => exact fun w' hw' => ⟨h₁.rely hw', by simp⟩
  | ok u =>
    obtain ⟨-, rfl⟩ := Prod.mk.inj hout.ok
    have hbare : World.Bare { w with
        clock := clock'
        metadata := (deleteChunkRecords (race.req side).ref w.metadata).2 } (race.req side).ref :=
      ⟨hpoints, hparents, fun row hrow => of_decide_eq_false (Table.mem_delete.mp hrow).2⟩
    apply wp_bind
    refine perform_working hclear h₁
      fun r clock₁ clock₁' w₂ hout₂ h₂ => ?_
    have hbare₂ : w₂.Bare (race.req side).ref :=
      bare_metadata (by simp [MetadataOp.writes]) hout₂ ⟨hbare.points, hbare.parents, hbare.chunks⟩
    cases r with
    | error e => exact fun w' hw' => ⟨h₂.rely hw', by simp⟩
    | ok u =>
      refine perform_working hfailed h₂
        fun r clock₂ clock₂' w₃ hout₃ h₃ => ⟨h₃, fun _ _ => ?_⟩
      have hbare₃ : w₃.Bare (race.req side).ref :=
        bare_metadata (by simp [MetadataOp.writes]) hout₃
          ⟨hbare₂.points, hbare₂.parents, hbare₂.chunks⟩
      exact ⟨hbare₃.points, hbare₃.parents, hbare₃.chunks⟩

/-- A compensation that returns leaves nothing of the version. -/
theorem removeArtifacts_working (h : race.Working side done me w) :
    (removeArtifacts svc (race.req side)).wp (race.regime side) (fun r me w =>
      race.Working side done me w ∧ ∀ u, r = .ok u → w.Bare (race.req side).ref) me w := by
  have hrules := @working_rules svc race side done
  apply wp_bind
  refine wp_mono ?_ (hrules.ensureChunked h)
  rintro r me w ⟨h, hdone⟩
  cases r with
  | error e => exact fun w' hw' => ⟨h.rely hw', by simp⟩
  | ok u =>
    have hchunks := chunksOf_eq (hdone u rfl)
    apply wp_bind
    refine wp_self fun w₁ hw₁ => ?_
    have h₁ := h.rely hw₁
    apply wp_bind
    refine wp_mono ?_ (deletePoints_working h₁ hchunks)
    rintro r me₂ w₂ ⟨h₂, hpoints⟩
    cases r with
    | error e => exact fun w' hw' => ⟨h₂.rely hw', by simp⟩
    | ok u =>
      have hdrafts : ∀ parent ∈ w₂.parents, parent.ref = (race.req side).ref →
          parent.parentId ∈ me.parentsList.map (·.parentId) := by
        intro parent hparent href
        have hmem := h₂.tenure.built.parents parent hparent href
        rw [hchunks] at hmem
        exact List.mem_map_of_mem (f := fun draft : ParentDraft => draft.parentId) hmem
      apply wp_bind
      refine wp_mono ?_ (deleteParents_working h₂ (hpoints u rfl) hdrafts)
      rintro r me₃ w₃ ⟨h₃, hremoved⟩
      cases r with
      | error e => exact fun w' hw' => ⟨h₃.rely hw', by simp⟩
      | ok u => exact removeRows_working h₃ (hremoved u rfl).1 (hremoved u rfl).2

/-- The run may end: it has no token, or what it leaves is active or bare. -/
def Settled (race : ContentRace svc) (side : Side) (me : JobState) (w : World) : Prop :=
  race.Unarmed side me w ∨ ∃ done, race.Working side done me w ∧
    (w.Active (race.req side).ref ∨ w.Bare (race.req side).ref)

theorem Settled.rely (h : race.Settled side me w) (hrely : (race.regime side).rely w w') :
    race.Settled side me w' := by
  rcases h with h | ⟨done, h, hsettled⟩
  · exact Or.inl (h.rely hrely)
  · have h' := h.rely hrely
    obtain ⟨clock, rfl⟩ := hrely.held h.tenure.holds
    exact Or.inr ⟨done, h', hsettled.imp id fun hbare => ⟨hbare.points, hbare.parents, hbare.chunks⟩⟩

/-- The final status of a run that may end. -/
theorem Settled.terminate (h : race.Settled side me w) {status : JobStatus}
    {parentCount childCount : Nat} {errorCode : Option String} {r : Except PyError Unit}
    (hout : (StoreOp.metadata (.markJobTerminal (race.req side).jobId status parentCount childCount
      errorCode)).Outcome w r w') : race.Bears side.other w w' := by
  have hterminated := terminated hout
  have hend : ∀ {done : Bool}, Tenure svc (race.req side) done w →
      w.Active (race.req side).ref ∨ w.Bare (race.req side).ref → race.Bears side.other w w' := by
    intro done htenure hsettled
    have hpossessed := htenure.terminate hterminated hsettled
    exact bears_of_tenure htenure hterminated.elsewhere
      ⟨hterminated.positive htenure.positive, Or.inr ⟨side, hpossessed⟩⟩
  rcases h with hunarmed | ⟨done, hworking, hsettled⟩
  · rcases hunarmed.state with hwaiting | hclaimed
    · rw [terminated_untouched hwaiting.untouched hout]
      exact (race.regime side.other).rely_refl w
    · exact hend hclaimed.tenure (Or.inr hclaimed.bare)
  · exact hend hworking.tenure hsettled

/-- What a run that returned `indexed` leaves: its version is active and its own. -/
def Delivered (race : ContentRace svc) (side : Side) (r : Except PyError IngestionResult)
    (w : World) : Prop :=
  ∀ result, r = .ok result → result.status = .indexed →
    OwnsVersion (race.req side) w ∧ w.Active (race.req side).ref

/-- A failed run compensates what it has not committed. -/
theorem compensateUncommitted_settled
    (h : race.Unarmed side me w ∨ ∃ done, race.Working side done me w) :
    (compensateUncommitted svc (race.req side)).wp (race.regime side)
      (fun r me w => ∀ u, r = .ok u → race.Settled side me w) me w := by
  apply wp_bind
  refine wp_self fun w₁ hw₁ => ?_
  rcases h with h | ⟨done, h⟩
  · have h₁ := h.rely hw₁
    have hflag : me.commitPerformed = false := by rw [h.initial]; rfl
    simp only [hflag, Bool.false_eq_true, if_false]
    apply wp_bind
    refine wp_mono ?_ (stillOwnsBuild_unarmed h₁)
    rintro r me w ⟨h, hr⟩
    cases r with
    | error e => exact fun w' _ u hu => by simp at hu
    | ok owns =>
      cases owns with
      | true => exact absurd rfl hr
      | false => exact wp_pure fun w' hw' u _ => Or.inl (h.rely hw')
  · have h₁ := h.rely hw₁
    cases done with
    | true =>
      simp only [h.flag, if_true]
      refine wp_pure fun w₂ hw₂ u _ => ?_
      have h₂ := h₁.rely hw₂
      exact Or.inr ⟨true, h₂, Or.inl (h₂.tenure.committed rfl)⟩
    | false =>
      simp only [h.flag, Bool.false_eq_true, if_false]
      apply wp_bind
      refine wp_mono ?_ (stillOwnsBuild_working h₁)
      rintro r me w ⟨h, rfl | ⟨e, rfl⟩⟩
      · refine wp_mono ?_ (removeArtifacts_working h)
        rintro r me w ⟨h, hbare⟩ u hu
        exact Or.inr ⟨false, h, Or.inr (hbare u hu)⟩
      · exact fun w' _ u hu => by simp at hu

/-- However a run failed, it does not end with the other content's parts in place. -/
theorem onException_delivered {e : PyError}
    (h : race.Unarmed side me w ∨ ∃ done, race.Working side done me w) :
    (onException svc (race.req side) e).wp (race.regime side)
      (fun r _ w => race.Delivered side r w) me w := by
  have hfail : ∀ e, (fail svc (race.req side) e).wp (race.regime side)
      (fun r _ w => race.Delivered side r w) me w := by
    intro e
    apply wp_bind
    refine wp_mono ?_ (compensateUncommitted_settled h)
    intro r me w hsettled
    cases r with
    | error e => exact fun w' _ result hresult => by simp at hresult
    | ok u =>
      have hsettled := hsettled u rfl
      apply wp_bind
      refine wp_perform fun w₁ hw₁ r w₂ hout => ⟨(hsettled.rely hw₁).terminate hout.1, ?_⟩
      intro w₃ _
      cases r with
      | error e => exact fun w' _ result hresult => by simp at hresult
      | ok u =>
        refine wp_pure fun w' _ result hresult hindexed => ?_
        rw [← Except.ok.inj hresult] at hindexed
        simp [IngestionResult.plain] at hindexed
  cases e with
  | buildConflict reason =>
    refine wp_pure fun w' _ result hresult hindexed => ?_
    rw [← Except.ok.inj hresult] at hindexed
    simp [IngestionResult.plain] at hindexed
  | _ => exact hfail _

end Failure

section Build

/-- What a run without a lease finds: nothing, or the other run's version. -/
theorem Waiting.stored (h : race.Waiting side w) :
    Vacant race.ref w ∨ Possessed svc (race.req side.other) w := by
  refine h.oneContent.stored.imp id ?_
  rintro ⟨owner, hpossessed⟩
  have hforeign : owner ≠ side := by
    rintro rfl
    exact h.untouched.not_owns _ hpossessed.owns
  have hsame : owner = side.other := by
    cases owner <;> cases side <;> first | rfl | exact absurd rfl hforeign
  rw [← hsame]
  exact hpossessed

/-- A version the other run does not hold was never active and has no artifacts. -/
theorem Waiting.free (h : race.Waiting side w) (hfree : ¬HoldsVersion (race.req side.other) w) :
    (∀ row ∈ w.metadata.documents, row.ref = (race.req side).ref →
      row.status = .processing ∨ row.status = .failed) ∧ w.Bare (race.req side).ref := by
  rcases h.stored with hvacant | hpossessed
  · rw [race.version]
    exact ⟨fun row hrow href => absurd href (hvacant.rows row hrow), hvacant.bare⟩
  · rw [← sameVersion]
    refine ⟨fun row hrow href => ?_, hpossessed.idle.resolve_left hfree⟩
    rcases hpossessed.committable row hrow href with hstatus | hstatus | hactive
    · exact Or.inl hstatus
    · exact Or.inr hstatus
    · exact absurd ⟨hpossessed.owns, Or.inr ⟨row, hrow, href, hactive⟩⟩ hfree

/-- An acquire that is granted finds the version not held by the other run. -/
theorem Waiting.granted (h : race.Waiting side w) {args : AcquireArgs}
    (hargs : AcquiresFor svc (race.req side) args)
    (hallowed : ¬(StoreOp.metadata (.acquireJobTransaction args)).Overrules w)
    {claimed : JobStatus × Nat} {t : MetadataStore}
    (hrun : acquireJobTransaction args w.metadata = (.ok claimed, t)) :
    ¬HoldsVersion (race.req side.other) w := by
  intro hholds
  rcases h.stored with hvacant | hpossessed
  · have howner := hholds.1
    rw [OwnsVersion, race.version, hvacant.lease] at howner
    simp at howner
  · exact hallowed (acquire_overrules hargs (sameVersion side) (race.jobs side) (race.contents side)
      hholds hpossessed.built hrun)

/-- The acquire, against whatever the other run has done. -/
theorem Waiting.acquire (h : race.Waiting side w) {args : AcquireArgs}
    (hargs : AcquiresFor svc (race.req side) args) {r : Except PyError (JobStatus × Nat)}
    (hout : (race.regime side).out (.metadata (.acquireJobTransaction args)) w r w') :
    race.Bears side.other w w' ∧ ((w' = w ∧ ∃ e, r = .error e) ∨
      (Claimed svc (race.req side) w' ∧ ∀ claimed, r = .ok claimed →
        w'.metadata.getLeaseGeneration (race.req side).ref = claimed.2)) := by
  obtain ⟨hout, hallowed⟩ := hout
  obtain ⟨result, t, hrun⟩ : ∃ result t, acquireJobTransaction args w.metadata = (result, t) :=
    ⟨_, _, rfl⟩
  obtain ⟨hstate, hreturned⟩ := hout.metadata
  have heval : MetadataOp.eval w.clock (.acquireJobTransaction args) w.metadata = (result, t) := hrun
  rw [heval] at hstate
  have hidle : race.Bears side.other w w := (race.regime side.other).rely_refl w
  cases result with
  | error e =>
    -- a refused acquire changes nothing
    obtain rfl := Routine.transaction_error hrun
    have hsame : w' = w := by rcases hstate with rfl | rfl <;> rfl
    subst hsame
    refine ⟨hidle, Or.inl ⟨rfl, ?_⟩⟩
    cases r with
    | error e => exact ⟨e, rfl⟩
    | ok claimed =>
      have hboth := (hreturned claimed rfl).symm.trans heval
      simp at hboth
  | ok claimed =>
    have hfree := h.granted hargs hallowed hrun
    obtain ⟨hopen, hbare⟩ := h.free hfree
    obtain ⟨hclaimed, hgeneration⟩ := acquire_claimed hargs h.oneContent.positive hopen hbare
      h.untouched hrun
    rcases hstate with rfl | rfl
    · refine ⟨hidle, Or.inl ⟨rfl, ?_⟩⟩
      cases r with
      | error e => exact ⟨e, rfl⟩
      | ok claimed' =>
        have hboth := (hreturned claimed' rfl).symm.trans heval
        have howner := hclaimed.tenure.holds.1
        rw [← (Prod.mk.inj hboth).2] at howner
        exact absurd howner (h.untouched.not_owns _)
    · refine ⟨bears_other hfree (acquire_elsewhere hargs hrun) (.of_tenure hclaimed.tenure),
        Or.inr ⟨hclaimed, fun claimed' hr => ?_⟩⟩
      have hboth := (hreturned claimed' hr).symm.trans heval
      rw [Except.ok.inj (Prod.mk.inj hboth).1]
      exact hgeneration

/-- The marker of the acquire and the token. -/
theorem markAcquire_working {generation : Nat} (h : Claimed svc (race.req side) w)
    (hgeneration : w.metadata.getLeaseGeneration (race.req side).ref = generation) :
    (metadata (.markStep (race.req side).jobId .acquire "done") >>= fun _ =>
      assign fun me => { me with leaseGeneration := generation } : JobProgram Unit).wp
        (race.regime side) (fun r me w => match r with
          | .ok _ => race.Working side false me w
          | .error _ => race.Unarmed side me w) initial w := by
  have hop : OwnAccess svc (race.req side) false
      (.metadata (.markStep (race.req side).jobId .acquire "done")) := ⟨rfl, by simp⟩
  apply wp_bind
  refine wp_perform fun w₁ hw₁ r w₂ hout => ?_
  obtain ⟨clock, rfl⟩ := hw₁.held h.tenure.holds
  have h₁ := h.clock clock
  have hserved := hop.served hout.1
  have htenure := h₁.tenure.own hop hout.1
  have hclaimed : Claimed svc (race.req side) w₂ :=
    ⟨htenure, bare_metadata (by simp [MetadataOp.writes]) hout.1 h₁.bare⟩
  refine ⟨bears_of_tenure h₁.tenure hserved.elsewhere (.of_tenure htenure), fun w₃ hw₃ => ?_⟩
  cases r with
  | error e =>
    have hunarmed : race.Unarmed side initial w₂ := ⟨rfl, Or.inr hclaimed⟩
    exact fun w₄ hw₄ => (hunarmed.rely hw₃).rely hw₄
  | ok u =>
    have hworking : race.Working side false { initial with leaseGeneration := generation } w₂ := by
      refine ⟨htenure, ?_, fun hfilled => absurd rfl hfilled, rfl⟩
      rw [← hgeneration]
      simp only [getLeaseGeneration, buildRow, hserved.builds]
    exact wp_assign fun w₄ hw₄ => (hworking.rely hw₃).rely hw₄

/-- The acquire hands over to the step loop with its token. -/
theorem stepAcquire_working (options : RunOptions) (hw : race.Waiting side w) :
    (stepAcquire svc (race.req side) options).wp (race.regime side) (fun r me w => match r with
      | .ok _ => race.Working side false me w
      | .error _ => race.Unarmed side me w) initial w := by
  have hunarmed : race.Unarmed side initial w := ⟨rfl, Or.inl hw⟩
  apply wp_bind
  refine wp_read onStores (fun w₁ w₂ hw₁ hw₂ => ?_) fun e w₁ hw₁ w₂ hw₂ =>
    (hunarmed.rely hw₁).rely hw₂
  have hrely := (race.regime side).rely_trans hw₁ hw₂
  cases hdocument : buildSourceDocument svc (race.req side) with
  | error e =>
    apply wp_raise onStores
    exact fun e' w₃ hw₃ => (hunarmed.rely hrely).rely hw₃
  | ok document =>
    have hwaiting : race.Waiting side w₂ :=
      ⟨hrely.oneContent hw.oneContent, hrely.untouched hw.untouched⟩
    apply wp_bind
    refine wp_perform fun w₃ hw₃ r w₄ hout => ?_
    have hwaiting₃ : race.Waiting side w₃ :=
      ⟨hw₃.oneContent hwaiting.oneContent, hw₃.untouched hwaiting.untouched⟩
    have hcolumns := buildSourceDocument_columns svc (race.req side) hdocument
    obtain ⟨hguar, houtcome⟩ := hwaiting₃.acquire ⟨rfl, rfl, rfl, document, rfl, hcolumns⟩ hout
    refine ⟨hguar, fun w₅ hw₅ => ?_⟩
    have hunarmed₄ : race.Unarmed side initial w₄ := by
      refine ⟨rfl, ?_⟩
      rcases houtcome with ⟨rfl, -⟩ | ⟨hclaimed, -⟩
      · exact Or.inl hwaiting₃
      · exact Or.inr hclaimed
    cases r with
    | error e => exact fun w₆ hw₆ => (hunarmed₄.rely hw₅).rely hw₆
    | ok claimed =>
      rcases houtcome with ⟨-, e, herr⟩ | ⟨hclaimed, hgeneration⟩
      · simp at herr
      · obtain ⟨clock, rfl⟩ := hw₅.held hclaimed.tenure.holds
        exact markAcquire_working (hclaimed.clock clock) (hgeneration claimed rfl)

/-- The commit of a job at work. -/
theorem stepCommit_working (h : race.Working side done me w) :
    (stepCommit (race.req side)).wp (race.regime side) (fun r me w => match r with
      | .ok _ => race.Working side true me w
      | .error _ => race.Working side done me w) me w := by
  have hrules := @working_rules svc race side done
  refine hrules.assertOwnsBuild.wp_bind (fun _ me w h => ?_)
    (fun e me w h w' hw' => Working.rely h hw') h
  refine (hrules.read _).wp_bind (fun expectedRev me w h => ?_)
    (fun e me w h w' hw' => Working.rely h hw') h
  apply wp_bind
  refine wp_perform fun w₁ hw₁ r w₂ hout => ?_
  have h₁ := h.rely hw₁
  obtain ⟨htenure, helse, hcommitted⟩ := h₁.tenure.commit hout.1
  have htoken : w₂.metadata.getLeaseGeneration (race.req side).ref = me.leaseGeneration := by
    rw [← h₁.token]
    rcases hout.1.state with rfl | rfl
    · rfl
    · obtain ⟨r', t, hrun⟩ : ∃ r' t, MetadataOp.eval w₁.clock (.commitActiveVersion
          (race.req side).ref.doc (race.req side).ref.version expectedRev) w₁.metadata = (r', t) :=
        ⟨_, _, rfl⟩
      have hbuilds := (MetadataOp.frame hrun).builds (by simp [MetadataOp.writes])
      simp only [StoreOp.eval, hrun, getLeaseGeneration, buildRow, hbuilds]
  refine ⟨bears_of_tenure h₁.tenure helse (.of_tenure htenure), fun w₃ hw₃ => ?_⟩
  cases r with
  | error e =>
    have hworking : race.Working side done me w₂ := ⟨htenure, htoken, h.coherent, h.flag⟩
    exact fun w₄ hw₄ => (hworking.rely hw₃).rely hw₄
  | ok switched =>
    have hworking : race.Working side true { me with commitPerformed := true } w₂ :=
      ⟨hcommitted switched rfl, htoken, h.coherent, rfl⟩
    exact wp_assign fun w₄ hw₄ => (hworking.rely hw₃).rely hw₄

/-- The final status of a job that has committed. -/
theorem stepFinalize_working : Maintains (race.regime side) (race.Working side true)
    (fun _ : PyError => race.Working side true) (stepFinalize svc (race.req side)) := by
  have hrules := @working_rules svc race side true
  refine .bind working_stable (.self working_stable) fun me => ?_
  refine .bind working_stable (hrules.perform _ trivial) fun _ => ?_
  apply Maintains.perform working_stable
  intro me w r w' h hout
  have hterminated := terminated hout.1
  have htenure := h.tenure.terminate_committed hterminated
  have hworking : race.Working side true me w' :=
    ⟨htenure, (hterminated.generations _).trans h.token, h.coherent, h.flag⟩
  refine ⟨bears_of_tenure h.tenure hterminated.elsewhere (.of_tenure htenure), ?_⟩
  cases r with
  | ok _ => exact hworking
  | error _ => exact hworking

/-- `finalize` is not reached before `commit`. -/
def commitDue : List Step → Bool
  | [] => false
  | .commit :: _ => true
  | .finalize :: _ => false
  | _ :: steps => commitDue steps

theorem stepsUpTo_due (options : RunOptions) :
    commitDue (stepsUpTo options.maxStep) = true ∨
      (Step.finalize ∉ stepsUpTo options.maxStep ∧ stoppedEarly options = true) := by
  unfold stoppedEarly
  cases options.maxStep with
  | none => exact Or.inl rfl
  | some name => cases name <;> simp [stepsUpTo, buildSteps, commitDue]

/-- One step of the loop without its marker. -/
theorem step_working {name : Step} (h : race.Working side done me w)
    (hfinalize : name = .finalize → done = true) :
    (step svc (race.req side) name).wp (race.regime side) (fun r me w => match r with
      | .ok _ => race.Working side (done || decide (name = .commit)) me w
      | .error _ => race.Working side done me w) me w := by
  have hrules := @working_rules svc race side done
  by_cases hcommit : name = .commit
  · subst hcommit
    simp only [decide_true, Bool.or_true]
    exact stepCommit_working h
  · have hsame : (done || decide (name = .commit)) = done := by simp [hcommit]
    rw [hsame]
    have hstep : Maintains (race.regime side) (race.Working side done)
        (fun _ : PyError => race.Working side done) (step svc (race.req side) name) := by
      by_cases hlast : name = .finalize
      · subst hlast
        obtain rfl := hfinalize rfl
        exact stepFinalize_working
      · exact hrules.step hcommit hlast
    refine wp_mono ?_ (hstep me w h)
    intro r me w h
    cases r with
    | ok _ => exact h
    | error _ => exact h

/-- One iteration of the step loop; the commit is marked once it has taken place. -/
theorem runStep_working {name : Step} (h : race.Working side done me w)
    (hfinalize : name = .finalize → done = true) :
    (runStep svc (race.req side) name).wp (race.regime side) (fun r me w => match r with
      | .ok _ => race.Working side (done || decide (name = .commit)) me w
      | .error _ => ∃ done, race.Working side done me w) me w := by
  apply wp_bind
  refine wp_read onStores (fun w₁ w₂ hw₁ hw₂ => ?_) fun e w₁ hw₁ w₂ hw₂ =>
    ⟨done, (h.rely hw₁).rely hw₂⟩
  have h₁ := h.rely hw₁
  have h₂ := h₁.rely hw₂
  cases hmarked : w₁.metadata.isStepDone (race.req side).jobId name with
  | true =>
    have hsame : (done || decide (name = .commit)) = done := by
      by_cases hcommit : name = .commit
      · obtain ⟨row, hrow, hdone⟩ := List.any_eq_true.mp hmarked
        obtain ⟨hjob, hname, -⟩ := of_decide_eq_true hdone
        rw [h₁.tenure.marker row hrow hjob (hname.trans hcommit)]
        rfl
      · simp [hcommit]
    rw [hsame]
    exact wp_pure fun w₃ hw₃ => h₂.rely hw₃
  | false =>
    apply wp_bind
    refine wp_mono ?_ (step_working h₂ hfinalize)
    intro r me w h
    cases r with
    | error e => exact fun w' hw' => ⟨done, h.rely hw'⟩
    | ok u =>
      have hrules := @working_rules svc race side (done || decide (name = .commit))
      have hmark : OwnAccess svc (race.req side) (done || decide (name = .commit))
          (.metadata (.markStep (race.req side).jobId name "done")) :=
        ⟨rfl, fun hcommit => by simp [hcommit]⟩
      refine wp_mono ?_ (hrules.perform _ hmark me w h)
      intro r me w h
      cases r with
      | ok _ => exact h
      | error _ => exact ⟨_, h⟩

/-- The step loop commits before it ends, unless it is stopped early. -/
theorem loop_working {options : RunOptions} (h : race.Working side false me w) :
    (forEach (stepsUpTo options.maxStep) (runStep svc (race.req side))).wp (race.regime side)
      (fun r me w => match r with
        | .ok _ => ∃ done, race.Working side done me w ∧
            (done = true ∨ stoppedEarly options = true)
        | .error _ => ∃ done, race.Working side done me w) me w := by
  apply wp_forEach (fun steps me w => ∃ done, race.Working side done me w ∧
    (done = true ∨ commitDue steps = true ∨
      (Step.finalize ∉ steps ∧ stoppedEarly options = true)))
  · rintro steps me w w' hrely ⟨done, h, hdue⟩
    exact ⟨done, h.rely hrely, hdue⟩
  · rintro name steps me w ⟨done, h, hdue⟩
    have hfinalize : name = .finalize → done = true := by
      rintro rfl
      simpa [commitDue] using hdue
    refine wp_mono ?_ (runStep_working h hfinalize)
    intro r me w h
    cases r with
    | error e =>
      obtain ⟨done, h⟩ := h
      exact fun w' hw' => ⟨done, h.rely hw'⟩
    | ok u =>
      refine ⟨_, h, ?_⟩
      rcases hdue with hdone | hdue | ⟨hlast, hstopped⟩
      · exact Or.inl (by simp [hdone])
      · by_cases hcommit : name = .commit
        · exact Or.inl (by simp [hcommit])
        · refine Or.inr (Or.inl ?_)
          cases name <;> simp_all [commitDue]
      · exact Or.inr (Or.inr ⟨fun hmem => hlast (List.mem_cons_of_mem _ hmem), hstopped⟩)
  · rintro me w ⟨done, h, hdue⟩
    refine ⟨done, h, ?_⟩
    simpa [commitDue] using hdue
  · exact ⟨false, h, Or.inr (stepsUpTo_due options)⟩

theorem guardedBuild_delivered (options : RunOptions) (hw : race.Waiting side w) :
    (guardedBuild svc (race.req side) options).wp (race.regime side)
      (fun r _ w => race.Delivered side r w) initial w := by
  have hbuild : (build svc (race.req side) options).wp (race.regime side) (fun r me w => match r with
      | .ok result => result.status = .indexed → race.Working side true me w
      | .error _ => race.Unarmed side me w ∨ ∃ done, race.Working side done me w) initial w := by
    apply wp_bind
    refine wp_mono ?_ (stepAcquire_working options hw)
    intro r me w h
    cases r with
    | error e => exact fun w' hw' => Or.inl (h.rely hw')
    | ok u =>
      apply wp_bind
      refine wp_mono ?_ (loop_working h)
      intro r me w h
      cases r with
      | error e =>
        obtain ⟨done, h⟩ := h
        exact fun w' hw' => Or.inr ⟨done, h.rely hw'⟩
      | ok u =>
        obtain ⟨done, h, hdone⟩ := h
        by_cases hstopped : stoppedEarly options = true
        · simp only [finishBuild, if_pos hstopped]
          intro w' _ hindexed
          simp [IngestionResult.plain] at hindexed
        · obtain rfl := hdone.resolve_right hstopped
          simp only [finishBuild, if_neg hstopped]
          apply wp_bind
          exact wp_self fun w₁ hw₁ => wp_pure fun w₂ hw₂ _ => (h.rely hw₁).rely hw₂
  apply wp_tryCatch
  refine wp_mono ?_ hbuild
  intro r me w h
  cases r with
  | error e => exact onException_delivered h
  | ok result =>
    intro w' hw' result' hresult hindexed
    obtain rfl := Except.ok.inj hresult
    have hworking := (h hindexed).rely hw'
    exact ⟨hworking.tenure.holds.1, hworking.tenure.committed rfl⟩

/-- What a run that has not acquired the version reads of its row. -/
theorem Waiting.getDocument (h : race.Waiting side w) {document : SourceDocument}
    (hread : w.metadata.getDocument (race.req side).ref = .ok (some document)) :
    document.contentHash ≠ rawHash svc (race.req side) := by
  obtain ⟨row, hrow, hcolumns⟩ := getDocument_some hread
  obtain ⟨hmem, href⟩ := documentRow_mem hrow
  rw [congrArg DocumentColumns.contentHash hcolumns]
  rcases h.stored with hvacant | hpossessed
  · rw [race.version] at href
    exact absurd href (hvacant.rows row hmem)
  · rw [hpossessed.built.rows row hmem (href.trans (sameVersion side).symm)]
    exact race.contents side

/-- A run that finds the version stored raises, and builds it otherwise. -/
theorem runBody_delivered (options : RunOptions) (hw : race.Waiting side w) :
    (runBody svc (race.req side) options).wp (race.regime side)
      (fun r _ w => race.Delivered side r w) initial w := by
  have hraise : ∀ (e : PyError) (w : World), race.Delivered side (.error e) w := by
    intro e w result hresult
    simp at hresult
  have hlater : ∀ {w w'}, race.Waiting side w → (race.regime side).rely w w' → race.Waiting side w' :=
    fun hw hrely => ⟨hrely.oneContent hw.oneContent, hrely.untouched hw.untouched⟩
  apply wp_bind
  apply wp_bind
  refine wp_read onStores (fun w₁ w₂ hw₁ hw₂ => ?_) fun e w' _ _ _ _ _ => hraise e _
  have hw := hlater (hlater hw hw₁) hw₂
  dsimp only
  split
  · exact wp_raise onStores fun e w' _ _ _ => hraise e _
  refine wp_pure fun w₃ hw₃ => ?_
  have hw := hlater hw hw₃
  apply wp_bind
  refine wp_tryRead onStores (fun existing w₄ w₅ hw₄ hread hw₅ => ?_) fun e w' _ _ _ => hraise e _
  have hw₄ := hlater hw hw₄
  cases existing with
  | none => exact guardedBuild_delivered options (hlater hw₄ hw₅)
  | some document =>
    have hconflict := hw₄.getDocument hread
    simp only [hconflict, ne_eq, not_false_eq_true, if_true]
    exact wp_raise onStores fun e w' _ => hraise e _

end Build

end ContentRace

section Redelivery

variable (svc : Services) (req : IngestionRequest)

/-- The only run that writes a version which is stored already: it delivers the content the
version has. -/
def redeliveryRegime : Regime World StoreOp PyError where
  out op w r w' := op.Outcome w r w'
  rely w w' := ∃ clock, w' = { w with clock }
  guar w w' := Stored svc req w → Stored svc req w'
  rely_refl w := ⟨w.clock, rfl⟩
  rely_trans := by
    rintro w₁ w₂ w₃ ⟨clock, rfl⟩ ⟨clock', rfl⟩
    exact ⟨clock', rfl⟩

/-- A run that delivers another content: it changes nothing. -/
def spectatorRegime : Regime World StoreOp PyError where
  out op w r w' := op.Outcome w r w'
  rely w w' := Stored svc req w → Stored svc req w'
  guar w w' := w' = w
  rely_refl _ := id
  rely_trans h h' := fun hw => h' (h hw)

variable {svc req} {w w' : World}

/-- The run keeps the version stored with its content. -/
def Redelivering (svc : Services) (req : IngestionRequest) (me : JobState) (w : World) : Prop :=
  Coherently svc req me ∧ Stored svc req w

theorem redelivering_stable : Stable (redeliveryRegime svc req) (Redelivering svc req)
    (fun _ : PyError => Redelivering svc req) := by
  have hclock : ∀ {me w w'}, (redeliveryRegime svc req).rely w w' → Redelivering svc req me w →
      Redelivering svc req me w' := by
    rintro me w w' ⟨clock, rfl⟩ ⟨hme, hw⟩
    exact ⟨hme, hw.clock clock⟩
  exact ⟨hclock, hclock⟩

/-- An access that keeps the version stored, whatever it answers. -/
theorem redelivering_perform {β : Type} {op : StoreOp β}
    (hop : ∀ w r w', op.Outcome w r w' → Stored svc req w → Stored svc req w') :
    Maintains (redeliveryRegime svc req) (Redelivering svc req) (fun _ => Redelivering svc req)
      (Method.perform op : JobProgram β) := by
  apply Maintains.perform redelivering_stable
  rintro me w r w' ⟨hme, hw⟩ hout
  refine ⟨hop w r w' hout, ?_⟩
  cases r with
  | ok _ => exact ⟨hme, hop w _ w' hout hw⟩
  | error _ => exact ⟨hme, hop w _ w' hout hw⟩

theorem redelivery_rules :
    BuildRules svc req (redeliveryRegime svc req) (Redelivering svc req) where
  onStores := ⟨fun h => h, fun _ h => h⟩
  stable := redelivering_stable
  perform _ hop := redelivering_perform fun _ _ _ hout hw => hw.own hop hout
  assign _ hf _ _ h := ⟨h.1.assign hf, h.2⟩
  coherent _ _ h := h.1
  built _ _ h := h.2.built
  acquire _ hargs := redelivering_perform fun _ _ _ hout hw => hw.acquire hargs hout
  commit _ := redelivering_perform fun _ _ _ hout hw => hw.commit hout
  terminal _ _ _ _ := redelivering_perform fun _ _ _ hout hw => hw.terminate (terminated hout)
  token _ _ _ h := h
  flag _ _ h := h

/-- A run that delivers another content than the stored one changes nothing and raises. -/
theorem runBody_refused {other : IngestionRequest} (href : other.ref = req.ref)
    (hcontent : rawHash svc other ≠ rawHash svc req) (options : RunOptions) (hw : Stored svc req w) :
    (runBody svc other options).wp (spectatorRegime svc req) (fun r _ w =>
      Stored svc req w ∧ ∃ e, r = .error e) initial w := by
  have hR : OnStores (spectatorRegime svc req) := ⟨fun h => h, fun _ => rfl⟩
  apply wp_bind
  apply wp_bind
  refine wp_read hR (fun w₁ w₂ hw₁ hw₂ => ?_) fun e w' hw' _ h₁ _ h₂ =>
    ⟨h₂ (h₁ (hw' hw)), e, rfl⟩
  replace hw := hw₂ (hw₁ hw)
  dsimp only
  split
  · exact wp_raise hR fun e w' hw' w'' hw'' => ⟨hw'' (hw' hw), e, rfl⟩
  refine wp_pure fun w₃ hw₃ => ?_
  replace hw := hw₃ hw
  apply wp_bind
  refine wp_tryRead hR (fun existing w₄ w₅ hw₄ hread hw₅ => ?_) fun e w' hw' w'' hw'' =>
    ⟨hw'' (hw' hw), e, rfl⟩
  replace hw := hw₄ hw
  have hconflict : ∃ document, existing = some document ∧ document.contentHash ≠ rawHash svc other := by
    cases existing with
    | none =>
      obtain ⟨row, hrow, hrowref⟩ := hw.row
      have hmissing := documentRow_none.mp (getDocument_none hread) row hrow
      exact absurd (hrowref.trans href.symm) hmissing
    | some document =>
      obtain ⟨row, hrow, hcolumns⟩ := getDocument_some hread
      obtain ⟨hmem, hrowref⟩ := documentRow_mem hrow
      refine ⟨document, rfl, ?_⟩
      rw [congrArg DocumentColumns.contentHash hcolumns,
        hw.built.rows row hmem (hrowref.trans href)]
      exact hcontent.symm
  obtain ⟨document, rfl, hother⟩ := hconflict
  simp only [hother, ne_eq, not_false_eq_true, if_true]
  exact wp_raise hR fun e w' hw' => ⟨hw' (hw₅ hw), e, rfl⟩

end Redelivery

namespace ContentRace

variable {svc : Services} (race : ContentRace svc)

def system : System World StoreOp PyError Side (Except PyError IngestionResult × JobState) where
  out := StoreOp.Outcome
  env w w' := ∃ clock, w' = { w with clock }
  start side := runBody svc (race.req side) (race.options side) initial
  mayStart _ _ := False

/-- Both runs at their start. -/
def begins (w : World) :
    Pool World StoreOp PyError Side (Except PyError IngestionResult × JobState) :=
  ⟨w, [Side.first, Side.second].map fun side => ⟨side, [], race.system.start side⟩⟩

/-- No acquire overrules an active version. -/
def NoneOverruled : System.StepCondition World StoreOp PyError Side
    (Except PyError IngestionResult × JobState) :=
  fun P label _ => ∀ thread event, label = .perform thread event → ¬event.op.Overrules P.store

/-- A version that is new, to both jobs as well. -/
structure Unbuilt (w : World) : Prop where
  positive : PositiveGenerations w.metadata
  vacant : Vacant race.ref w
  untouched : ∀ side, Untouched (race.req side).jobId w

theorem parties : System.Parties race.system NoneOverruled race.regime where
  mayStart _ _ h := h
  out h hcond := ⟨h, hcond _ _ rfl⟩
  env := by
    rintro side w w' ⟨clock, rfl⟩
    refine ⟨fun _ => ⟨clock, rfl⟩, fun h => ⟨h.builds, h.jobs, h.steps⟩, fun h => ⟨h.positive, ?_⟩⟩
    exact h.stored.imp (fun hvacant => hvacant.clock clock)
      fun ⟨owner, hpossessed⟩ => ⟨owner, hpossessed.clock clock⟩
  guar i j hdistinct w w' h := by
    have hother : j = i.other := by
      cases i <;> cases j <;> first | rfl | exact absurd rfl hdistinct
    subst hother
    exact h

/-- The regimes of two runs of which one redelivers the stored content. -/
def redelivery (builder side : Side) : Regime World StoreOp PyError :=
  if side = builder then redeliveryRegime svc (race.req builder)
  else spectatorRegime svc (race.req builder)

theorem parties_redelivery (builder : Side) :
    System.Parties race.system NoneOverruled (race.redelivery builder) where
  mayStart _ _ h := h
  out := by
    intro s s' before after side past β op next r h _
    unfold redelivery
    split <;> exact h
  env := by
    rintro side w w' ⟨clock, rfl⟩
    unfold redelivery
    split
    · exact ⟨clock, rfl⟩
    · exact fun h => h.clock clock
  guar i j hdistinct w w' h := by
    unfold redelivery at h ⊢
    by_cases hi : i = builder
    · subst hi
      rw [if_pos rfl] at h
      rw [if_neg hdistinct.symm]
      exact h
    · rw [if_neg hi] at h
      obtain rfl : w' = w := h
      split
      · exact ⟨w'.clock, rfl⟩
      · exact id

variable {race} {w : World}
  {P P' : Pool World StoreOp PyError Side (Except PyError IngestionResult × JobState)}

/-- The pool in which both runs are at their start. -/
theorem joined_begins {R : Side → Regime World StoreOp PyError}
    {post : Side → Except PyError IngestionResult × JobState → World → Prop}
    (h : ∀ side, (race.system.start side).wp (R side) (post side) w) :
    System.Joined R post (race.begins w) := by
  refine ⟨by simp [begins], fun thread hthread => ?_⟩
  obtain ⟨side, -, rfl⟩ := List.mem_map.mp hthread
  exact h side

/-- A thread that has returned is the only one of its side. -/
theorem returned_only {R : Side → Regime World StoreOp PyError}
    {post : Side → Except PyError IngestionResult × JobState → World → Prop}
    (hP : System.Joined R post P)
    {thread : Thread StoreOp PyError Side (Except PyError IngestionResult × JobState)}
    (hthread : thread ∈ P.threads) {a : Except PyError IngestionResult × JobState}
    (hcode : thread.code = .ret a) :
    post thread.origin a P.store ∧
      ∀ other ∈ P.threads, other.origin = thread.origin → ∃ a, other.code = .ret a := by
  constructor
  · have hwp := hP.threads thread hthread
    rw [hcode] at hwp
    exact hwp P.store ((R thread.origin).rely_refl P.store)
  · intro other hother horigin
    have hsame : other = thread := List.inj_on_of_nodup_map hP.distinct hother hthread horigin
    rw [hsame]
    exact ⟨a, hcode⟩

/-- The version of two runs in one of the states they reach. -/
structure KeepsOneContent (race : ContentRace svc)
    (P : Pool World StoreOp PyError Side (Except PyError IngestionResult × JobState)) : Prop where
  /-- one of the two contents explains all that is stored -/
  content : ∃ side, BuiltFrom svc (race.req side) P.store
  /-- it is that of a run that has returned `indexed`, after which nothing changes -/
  indexed : ∀ thread ∈ P.threads, ∀ result me, thread.code = .ret (.ok result, me) →
    result.status = .indexed → Stored svc (race.req thread.origin) P.store ∧
      ∀ P', race.system.Reaches NoneOverruled P P' → ∃ clock, P'.store = { P.store with clock }

theorem keepsOneContent_unbuilt (hw : race.Unbuilt w)
    (hrun : race.system.Reaches NoneOverruled (race.begins w) P) : race.KeepsOneContent P := by
  have hone : race.OneContent w := ⟨hw.positive, Or.inl hw.vacant⟩
  have hjoined : System.Joined race.regime (fun side result w => race.Delivered side result.1 w)
      (race.begins w) :=
    joined_begins fun side => runBody_delivered (race.options side) ⟨hone, hw.untouched side⟩
  have hstore : race.OneContent P.store := by
    refine race.parties.invariant (I := race.OneContent) ?_ ?_ hjoined hone hrun
    · rintro w w' ⟨clock, rfl⟩ h
      exact ⟨h.positive, h.stored.imp (fun hvacant => hvacant.clock clock)
        fun ⟨owner, hpossessed⟩ => ⟨owner, hpossessed.clock clock⟩⟩
    · exact fun side w w' h => h.oneContent
  have hP := race.parties.run hjoined hrun
  constructor
  · rcases hstore.stored with hvacant | ⟨owner, hpossessed⟩
    · exact ⟨.first, hvacant.built (race.version _)⟩
    · exact ⟨owner, hpossessed.built⟩
  · intro thread hthread result me hcode hindexed
    obtain ⟨hdelivered, hreturned⟩ := returned_only hP hthread hcode
    obtain ⟨howns, hactive⟩ := hdelivered result rfl hindexed
    refine ⟨?_, fun P' hlater =>
      (race.parties.settled hP hreturned hlater).held ⟨howns, Or.inr hactive⟩⟩
    obtain ⟨row, hrow, href, -⟩ := hactive
    refine ⟨?_, row, hrow, href⟩
    rcases hstore.stored with hvacant | ⟨owner, hpossessed⟩
    · exact hvacant.built (race.version _)
    · have hsame : owner = thread.origin := by
        by_contra hdistinct
        have hother : thread.origin.other = owner := by
          cases horigin : thread.origin <;> cases owner <;>
            first | rfl | exact absurd horigin.symm hdistinct
        rw [← hother] at hpossessed
        exact not_owns_other howns hpossessed.owns
      rw [← hsame]
      exact hpossessed.built

theorem keepsOneContent_stored {builder : Side} (hw : Stored svc (race.req builder) w)
    (hrun : race.system.Reaches NoneOverruled (race.begins w) P) : race.KeepsOneContent P := by
  have hjoined : System.Joined (race.redelivery builder)
      (fun side result _ => side = builder ∨ ∃ e, result.1 = .error e) (race.begins w) := by
    apply joined_begins
    intro side
    unfold redelivery
    by_cases hside : side = builder
    · subst hside
      rw [if_pos rfl]
      have hfresh : Redelivering svc (race.req side) initial w := ⟨fun hfilled => absurd rfl hfilled, hw⟩
      exact Prog.wp_mono (fun _ _ _ => Or.inl rfl)
        (redelivery_rules.runBody (race.options side) initial w hfresh)
    · rw [if_neg hside]
      have hother : builder.other = side := by
        cases side <;> cases builder <;> first | rfl | exact absurd rfl hside
      subst hother
      exact Prog.wp_mono (fun _ _ h => Or.inr h.2)
        (runBody_refused (sameVersion builder) (race.contents builder) (race.options _) hw)
  have hparties := race.parties_redelivery builder
  have hstore : Stored svc (race.req builder) P.store := by
    refine hparties.invariant (I := Stored svc (race.req builder)) ?_ ?_ hjoined hw hrun
    · rintro w w' ⟨clock, rfl⟩ h
      exact h.clock clock
    · intro side w w' h
      unfold redelivery at h
      split at h
      · exact h
      · rw [show w' = w from h]
        exact id
  have hP := hparties.run hjoined hrun
  refine ⟨⟨builder, hstore.built⟩, fun thread hthread result me hcode hindexed => ?_⟩
  obtain ⟨hanswer, hreturned⟩ := returned_only hP hthread hcode
  have horigin : thread.origin = builder := by
    refine hanswer.resolve_right ?_
    rintro ⟨e, herr⟩
    simp at herr
  rw [horigin]
  refine ⟨hstore, fun P' hlater => ?_⟩
  rw [horigin] at hreturned
  have hrely := hparties.settled hP hreturned hlater
  unfold redelivery at hrely
  rw [if_pos rfl] at hrely
  exact hrely

/-- Two runs with different contents for one version that is new, or stored with one of the contents, in
any interleaving in which no acquire overrules an active version: all that is stored is of one content,
and after a run has returned `indexed` it is that run's and does not change again. Either run may fail or
crash at any point. -/
theorem runs_keep_one_content (race : ContentRace svc) (w : World)
    (hstart : race.Unbuilt w ∨ ∃ side, Stored svc (race.req side) w)
    (P : Pool World StoreOp PyError Side (Except PyError IngestionResult × JobState))
    (hrun : race.system.Reaches NoneOverruled (race.begins w) P) : race.KeepsOneContent P := by
  rcases hstart with hw | ⟨builder, hw⟩
  · exact keepsOneContent_unbuilt hw hrun
  · exact keepsOneContent_stored hw hrun

section Schedules

def machine (race : ContentRace svc) : System.Machine race.system Choice where
  eval c op w := op.answer w c
  admits _ _ := false
  eval_out c op w := op.answer_outcome w c
  admits_mayStart _ _ h := absurd h (by decide)

/-- A test for accesses that do not overrule an active version. -/
def sparesTest : {β : Type} → StoreOp β → World → Bool
  | _, .metadata (.acquireJobTransaction args), w =>
    !(w.metadata.documents.any fun row =>
        decide (row.ref = args.ref ∧ row.status = .active ∧ row.contentHash ≠ args.rawHash)) ||
      (w.metadata.getBuildOwner args.ref).any fun owner =>
        (w.metadata.getJobStatus owner).any JobStatus.inFlight
  | _, _, _ => true

theorem sparesTest_sound {β : Type} {op : StoreOp β} (h : sparesTest op w = true) :
    ¬op.Overrules w := by
  intro hoverrules
  unfold StoreOp.Overrules at hoverrules
  split at hoverrules
  · obtain ⟨⟨row, hrow, hactive⟩, hidle⟩ := hoverrules
    simp only [sparesTest, Bool.or_eq_true, Bool.not_eq_true', List.any_eq_false,
      decide_eq_true_eq] at h
    rcases h with hnone | hbusy
    · exact hnone row hrow hactive
    · obtain ⟨owner, howner, hbusy⟩ := Option.any_eq_true _ _ |>.mp hbusy
      rw [hidle owner howner] at hbusy
      simp at hbusy
  · exact hoverrules

def noneOverruledTest
    (P : Pool World StoreOp PyError Side (Except PyError IngestionResult × JobState))
    (label : Label StoreOp PyError Side (Except PyError IngestionResult × JobState))
    (_ : Pool World StoreOp PyError Side (Except PyError IngestionResult × JobState)) : Bool :=
  match label with
  | .perform _ event => sparesTest event.op P.store
  | _ => true

theorem noneOverruledTest_sound
    {label : Label StoreOp PyError Side (Except PyError IngestionResult × JobState)}
    (h : noneOverruledTest P label P' = true) : NoneOverruled P label P' := by
  rintro thread event rfl
  exact sparesTest_sound h

/-- Two submissions of `v1` with different texts. -/
private def twoTexts : ContentRace Sample.services where
  ref := ⟨Sample.doc, "v1"⟩
  req
    | .first => Sample.request "job-1" "v1" "text"
    | .second => Sample.request "job-2" "v1" "other text"
  options
    | .first => Sample.attempt "a"
    | .second => Sample.attempt "b"
  version side := by cases side <;> rfl
  jobs side := by cases side <;> decide
  contents side := by cases side <;> decide

private theorem twoTexts_unbuilt : twoTexts.Unbuilt Sample.world where
  positive := by simp [PositiveGenerations, Sample.world, Sample.store]
  vacant := by
    refine ⟨rfl, by simp [Sample.world, Sample.store], ?_⟩
    constructor <;> simp [Sample.world, Sample.store]
  untouched side := by
    constructor <;> simp [Sample.world, Sample.store, getJobStatus, jobRow, Table.selectOne]

/-- Both runs have found no row of `v1` when the first one acquires it. -/
private def raced (moves : List (System.Move Choice Side)) :
    Pool World StoreOp PyError Side (Except PyError IngestionResult × JobState) :=
  twoTexts.machine.play (twoTexts.begins Sample.world) (advance 0 2 ++ advance 1 2 ++ moves)

/-- The second run tries to acquire while the first one is at work. -/
theorem runs_keep_one_content_raced :
    twoTexts.KeepsOneContent (raced (advance 0 20 ++ advance 1 2 ++ advance 0 19)) :=
  runs_keep_one_content twoTexts Sample.world (Or.inl twoTexts_unbuilt) _
    (twoTexts.machine.passes_reaches (fun _ _ _ => noneOverruledTest_sound) _ _ (by decide +kernel))

/-- The first run ends in `INDEXED`; the second one, which had found no row before, then
takes the version over and writes its own chunks beside those of the first. -/
theorem runs_keep_one_content_counterexample :
    ¬∀ (svc : Services) (race : ContentRace svc) (w : World)
      (P : Pool World StoreOp PyError Side (Except PyError IngestionResult × JobState)),
      race.Unbuilt w → race.system.Reaches (fun _ _ _ => True) (race.begins w) P →
        ∃ side, BuiltFrom svc (race.req side) P.store := by
  intro hclaim
  obtain ⟨side, hbuilt⟩ := hclaim Sample.services twoTexts Sample.world
    (raced (advance 0 39 ++ advance 1 20)) twoTexts_unbuilt (twoTexts.machine.play_reaches _ _)
  cases side with
  | first =>
    have hchunk : ∃ row ∈ (raced (advance 0 39 ++ advance 1 20)).store.metadata.chunks,
        row.ref = ⟨Sample.doc, "v1"⟩ ∧ row ∉ ownRecords Sample.services (twoTexts.req .first) := by
      decide +kernel
    obtain ⟨row, hrow, href, hother⟩ := hchunk
    exact hother (hbuilt.chunks row hrow href)
  | second =>
    have hhash : ∃ row ∈ (raced (advance 0 39 ++ advance 1 20)).store.metadata.documents,
        row.ref = ⟨Sample.doc, "v1"⟩ ∧
          row.contentHash ≠ rawHash Sample.services (twoTexts.req .second) := by
      decide +kernel
    obtain ⟨row, hrow, href, hother⟩ := hhash
    exact hother (hbuilt.rows row hrow href)

end Schedules

end ContentRace

end AgenticRag
