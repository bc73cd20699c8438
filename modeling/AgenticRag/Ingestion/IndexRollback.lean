import AgenticRag.Ingestion.IndexSwitch

/-!
# The rollback target

`rollback_index` does not look at the switches: its target is the collection that was live
when the build with the latest recorded start began.
-/

namespace AgenticRag

open IndexStores

/-- A rollback that runs alone is under way: time passes and it executes statements. -/
def Alone (_ : IndexSystem) : IndexMove → Prop
  | .wait _ | .proceed _ _ => True
  | _ => False

instance (s : IndexSystem) (move : IndexMove) : Decidable (Alone s move) :=
  match move with
  | .wait _ | .proceed _ _ => .isTrue trivial
  | .build _ | .switch _ _ _ | .rollback _ _ => .isFalse id

/-- From `s`, where no call is in progress, a rollback of the corpus runs alone and has
written both pointers; only the release of its lease is left. -/
def RollsBack (svc : Services) (corpusId owner : String) (s s' : IndexSystem) : Prop :=
  s.calls = [] ∧
    Transition.Reaches (indexStep svc) Alone { s with calls := [.findTarget corpusId owner] } s' ∧
    ∃ sw, s'.calls = [.release sw .returned]

section Builds

/-- What a build row says about the state in which the build began. -/
def IndexBuild.BegunIn (build : IndexBuild) (s : IndexStores) : Prop :=
  build.previousCollection = some (s.resolveCollectionName build.corpusId) ∧
    build.startedAt = s.world.clock

/-- The rows of two builds differ in their status at most. -/
structure IndexBuild.SameOrigin (old build : IndexBuild) : Prop where
  buildId : build.buildId = old.buildId
  corpusId : build.corpusId = old.corpusId
  previous : build.previousCollection = old.previousCollection
  started : build.startedAt = old.startedAt

theorem IndexBuild.SameOrigin.refl (build : IndexBuild) : build.SameOrigin build :=
  ⟨rfl, rfl, rfl, rfl⟩

theorem IndexBuild.SameOrigin.trans {first second third : IndexBuild}
    (h : first.SameOrigin second) (h' : second.SameOrigin third) : first.SameOrigin third :=
  ⟨h'.buildId.trans h.buildId, h'.corpusId.trans h.corpusId, h'.previous.trans h.previous,
    h'.started.trans h.started⟩

theorem IndexBuild.SameOrigin.begunIn {old build : IndexBuild} {s : IndexStores}
    (h : old.SameOrigin build) (hbegun : old.BegunIn s) : build.BegunIn s :=
  ⟨by rw [h.previous, h.corpusId, hbegun.1], h.started.trans hbegun.2⟩

/-- The row was written by a build with these arguments that began in `s`. -/
structure IndexBuild.WrittenBy (build : IndexBuild) (args : IndexBuildArgs) (s : IndexStores) : Prop where
  buildId : build.buildId = args.buildId
  corpusId : build.corpusId = args.corpusId
  begun : build.BegunIn s

theorem IndexBuild.SameOrigin.writtenBy {old build : IndexBuild} {args : IndexBuildArgs}
    {s : IndexStores} (h : old.SameOrigin build) (hwritten : old.WrittenBy args s) :
    build.WrittenBy args s :=
  ⟨h.buildId.trans hwritten.buildId, h.corpusId.trans hwritten.corpusId, h.begunIn hwritten.begun⟩

theorem sameOrigin_update {p : IndexBuild → Bool} {status : IndexBuildStatus}
    {builds : List IndexBuild} {build : IndexBuild}
    (h : build ∈ Table.update p (fun row => { row with status := status }) builds) :
    ∃ old ∈ builds, old.SameOrigin build := by
  rcases Table.mem_update.mp h with ⟨old, hold, -, rfl⟩ | ⟨hold, -⟩
  · exact ⟨old, hold, rfl, rfl, rfl, rfl⟩
  · exact ⟨build, hold, .refl build⟩

/-- A build writes at most one new row, about the state in which it began. -/
theorem buildIndexV2_builds (svc : Services) (args : IndexBuildArgs) (s : IndexStores)
    {build : IndexBuild} (h : build ∈ (buildIndexV2 svc args s).2.builds) :
    (∃ old ∈ s.builds, old.SameOrigin build) ∨ build.WrittenBy args s := by
  let Recorded := fun (t : IndexStores) => ∀ build ∈ t.builds,
    (∃ old ∈ s.builds, old.SameOrigin build) ∨ build.WrittenBy args s
  have htrans : ∀ t u v : IndexStores, (Recorded t → Recorded u) → (Recorded u → Recorded v) →
      Recorded t → Recorded v := fun _ _ _ h h' => h' ∘ h
  have hquiet : ∀ {α : Type} {m : IndexMethod α}, (∀ t, (m t).2 = t) →
      m.Keeps fun t u => Recorded t → Recorded u :=
    fun h => Routine.keeps_of_unchanged (fun _ => id) h
  have hvectors : ∀ op, (onVectors op).Keeps fun t u => Recorded t → Recorded u := fun _ _ h => h
  have hbegin : ∀ row : IndexBuild, row.WrittenBy args s →
      (beginIndexBuild row).Keeps fun t u => Recorded t → Recorded u := by
    intro row hwritten
    refine Routine.keeps_bind htrans (hquiet fun _ => rfl) fun found => ?_
    dsimp only
    split
    · exact hquiet fun _ => rfl
    · intro t ht build hbuild
      rcases Table.mem_insert.mp hbuild with hold | rfl
      · exact ht build hold
      · exact Or.inr hwritten
  have hcomplete : (completeIndexBuild args.buildId).Keeps fun t u => Recorded t → Recorded u := by
    intro t ht build hbuild
    obtain ⟨old, hold, horigin⟩ := sameOrigin_update hbuild
    rcases ht old hold with ⟨first, hfirst, hsame⟩ | hwritten
    · exact Or.inl ⟨first, hfirst, hsame.trans horigin⟩
    · exact Or.inr (horigin.writtenBy hwritten)
  have hstart : Recorded s := fun build hbuild => Or.inl ⟨build, hbuild, .refl build⟩
  suffices hrecorded : Recorded (buildIndexV2 svc args s).2 from hrecorded build h
  unfold buildIndexV2
  rw [Routine.get_bind]
  refine Routine.keeps_bind (R := fun t u => Recorded t → Recorded u) htrans (hvectors _)
    (fun _ => ?_) s hstart
  refine Routine.keeps_bind htrans (hvectors _) fun _ => ?_
  refine Routine.keeps_bind htrans (hbegin _ ⟨rfl, rfl, rfl, rfl⟩) fun _ => ?_
  exact Routine.keeps_bind htrans hcomplete fun _ => hquiet fun _ => rfl

end Builds

section Statements

variable {s s' : IndexStores} {corpusId owner : String}

/-- What a statement of a call leaves alone. -/
structure CallFrame (s s' : IndexStores) : Prop where
  clock : s'.world.clock = s.world.clock
  builds : ∀ build ∈ s'.builds, ∃ old ∈ s.builds, old.SameOrigin build
  registered : ∀ corpusId, (s'.world.pointers corpusId).isSome = (s.world.pointers corpusId).isSome

theorem CallFrame.refl (s : IndexStores) : CallFrame s s :=
  ⟨rfl, fun build hbuild => ⟨build, hbuild, .refl build⟩, fun _ => rfl⟩

theorem CallFrame.withLeases (s : IndexStores) (leases : List SwitchLease) :
    CallFrame s { s with leases := leases } :=
  ⟨rfl, (CallFrame.refl s).builds, fun _ => rfl⟩

theorem acquireIndexSwitchLease_frame (corpusId owner : String) :
    (acquireIndexSwitchLease corpusId owner).Keeps CallFrame := by
  intro s
  unfold acquireIndexSwitchLease
  rw [Routine.get_bind]
  cases s.leaseOf corpusId with
  | none => exact .withLeases s _
  | some held =>
    dsimp only
    split
    · exact .withLeases s _
    · split
      · exact .withLeases s _
      · exact .refl s

theorem setActiveCollectionAtomic_frame (corpusId : String) (name : Option String) (owner : String) :
    (setActiveCollectionAtomic corpusId name owner).Keeps CallFrame := by
  refine Routine.keeps_transaction CallFrame.refl fun s => ?_
  rw [Routine.get_bind]
  cases s.leaseOf corpusId with
  | none => exact .refl s
  | some lease =>
    by_cases howner : lease.owner = owner
    · simp only [howner, ne_eq, not_true_eq_false, if_false]
      exact ⟨rfl, fun _ h => sameOrigin_update h, fun _ => rfl⟩
    · simp only [howner, ne_eq, not_false_eq_true, if_true]
      exact .refl s

theorem flipPointer_registered {name other : String} {pointers : String → Option String} :
    (flipPointer corpusId name pointers other).isSome = (pointers other).isSome := by
  unfold flipPointer
  cases hold : pointers corpusId with
  | none => rfl
  | some old =>
    by_cases hother : other = corpusId
    · subst hother
      simp [hold]
    · simp [Function.update_of_ne hother]

theorem SwitchCall.statement_frame (call : SwitchCall) (registryFails : Bool) (s : IndexStores) :
    CallFrame s (call.statement registryFails s).1 := by
  cases call with
  | findTarget corpusId owner =>
    simp only [statement]
    split
    · exact .refl s
    · split <;> exact .refl s
  | checkTarget sw =>
    simp only [statement]
    split <;> exact .refl s
  | readPrevious sw => exact .refl s
  | acquire sw previous =>
    have hframe := acquireIndexSwitchLease_frame sw.corpusId sw.owner s
    simp only [statement]
    split <;> simp_all
  | flip sw previous =>
    have hframe := setActiveCollectionAtomic_frame sw.corpusId (some sw.target) sw.owner s
    simp only [statement]
    split <;> simp_all
  | mirror sw previous =>
    simp only [statement]
    split
    · exact .refl s
    · exact ⟨rfl, (CallFrame.refl s).builds, fun _ => flipPointer_registered⟩
  | compensate sw previous =>
    have hframe := setActiveCollectionAtomic_frame sw.corpusId previous sw.owner s
    simp only [statement]
    split <;> simp_all
  | release sw outcome => exact .withLeases s _

end Statements

section Runs

variable {svc : Services} {start s s' : IndexSystem}

abbrev Runs (svc : Services) : IndexSystem → IndexSystem → Prop :=
  Transition.Reaches (indexStep svc) fun _ _ => True

theorem registered_step {move : IndexMove} (hstep : indexStep svc s move = some s') (corpusId : String) :
    (s'.stores.world.pointers corpusId).isSome = (s.stores.world.pointers corpusId).isSome := by
  cases move with
  | build args =>
    obtain rfl := Option.some.inj hstep
    exact congrArg (fun pointers => (pointers corpusId).isSome) (buildIndexV2_frame svc args s.stores).live
  | proceed k registryFails =>
    obtain ⟨call, -, rfl⟩ := Option.map_eq_some_iff.mp hstep
    exact (call.statement_frame registryFails s.stores).registered corpusId
  | wait | switch | rollback =>
    obtain rfl := Option.some.inj hstep
    rfl

theorem Runs.registered (hrun : Runs svc s s') (corpusId : String) :
    (s'.stores.world.pointers corpusId).isSome = (s.stores.world.pointers corpusId).isSome :=
  hrun.invariant (I := fun t : IndexSystem => (t.stores.world.pointers corpusId).isSome =
      (s.stores.world.pointers corpusId).isSome)
    (fun h _ hstep => (registered_step hstep corpusId).trans h) rfl

/-- The build that wrote the row ran between `start` and `s`. -/
def BuiltBetween (svc : Services) (start s : IndexSystem) (build : IndexBuild) : Prop :=
  ∃ before args after, Runs svc start before ∧ indexStep svc before (.build args) = some after ∧
    Runs svc after s ∧ build.WrittenBy args before.stores

theorem BuiltBetween.later {old build : IndexBuild} {move : IndexMove}
    (h : BuiltBetween svc start s old) (horigin : old.SameOrigin build)
    (hstep : indexStep svc s move = some s') : BuiltBetween svc start s' build := by
  obtain ⟨before, args, after, hbefore, hbuild, hafter, hwritten⟩ := h
  exact ⟨before, args, after, hbefore, hbuild, hafter.tail move trivial hstep,
    horigin.writtenBy hwritten⟩

/-- Every recorded build ran. -/
theorem Runs.built (hempty : start.stores.builds = []) (hrun : Runs svc start s) :
    ∀ build ∈ s.stores.builds, BuiltBetween svc start s build := by
  induction hrun with
  | refl => simp [hempty]
  | @tail s s' move hrun _ hstep ih =>
    intro build hbuild
    cases move with
    | build args =>
      have hafter := Option.some.inj hstep
      rw [← hafter] at hbuild
      rcases buildIndexV2_builds svc args s.stores hbuild with
        ⟨old, hold, horigin⟩ | hwritten
      · exact (ih old hold).later horigin hstep
      · exact ⟨s, args, s', hrun, hstep, .refl, hwritten⟩
    | proceed k registryFails =>
      obtain ⟨call, -, hafter⟩ := Option.map_eq_some_iff.mp hstep
      rw [← hafter] at hbuild
      obtain ⟨old, hold, horigin⟩ := (call.statement_frame registryFails s.stores).builds build hbuild
      exact (ih old hold).later horigin hstep
    | wait | switch | rollback =>
      have hafter := Option.some.inj hstep
      rw [← hafter] at hbuild
      exact (ih build hbuild).later (.refl build) hstep

end Runs

section Rollbacks

variable {svc : Services} {corpusId owner : String} {s s' : IndexSystem}

/-- Where a rollback of the corpus that began in `s` stands: it has read the target and not
written the live pointer yet, or it has written it, or it will raise. -/
def SwitchCall.RollingBack (corpusId : String) (s m : IndexStores) : SwitchCall → Prop
  | .findTarget corpus _ =>
    corpus = corpusId ∧ m.builds = s.builds ∧ m.world.pointers = s.world.pointers
  | .checkTarget sw | .readPrevious sw | .acquire sw _ | .flip sw _ | .mirror sw _ =>
    sw.corpusId = corpusId ∧ s.latestPrevious corpusId = some sw.target ∧ sw.target ≠ "" ∧
      m.world.pointers = s.world.pointers
  | .release sw .returned =>
    sw.corpusId = corpusId ∧ s.latestPrevious corpusId = some sw.target ∧ sw.target ≠ "" ∧
      m.world.pointers = flipPointer corpusId sw.target s.world.pointers
  | .compensate _ _ | .release _ (.raised _) => True

theorem SwitchCall.RollingBack.proceed {call next : SwitchCall} {registryFails : Bool}
    {s m : IndexStores} (h : call.RollingBack corpusId s m)
    (hnext : (call.statement registryFails m).2 = .next next) :
    next.RollingBack corpusId s (call.statement registryFails m).1 := by
  cases call with
  | findTarget corpus owner =>
    obtain ⟨rfl, hbuilds, hlive⟩ := h
    have htarget : m.latestPrevious corpus = s.latestPrevious corpus := by
      unfold IndexStores.latestPrevious
      rw [hbuilds]
    simp only [statement] at hnext ⊢
    cases hprevious : m.latestPrevious corpus with
    | none => simp [hprevious] at hnext
    | some previous =>
      by_cases hempty : previous = ""
      · simp [hprevious, hempty] at hnext
      · simp only [hprevious, hempty, if_false, SwitchRest.next.injEq] at hnext ⊢
        subst hnext
        exact ⟨rfl, htarget.symm.trans hprevious, hempty, hlive⟩
  | checkTarget sw =>
    simp only [statement] at hnext ⊢
    cases hpresent : m.world.vectors sw.target with
    | none => simp [hpresent] at hnext
    | some points =>
      simp only [hpresent, SwitchRest.next.injEq] at hnext ⊢
      subst hnext
      exact h
  | readPrevious sw =>
    simp only [statement, SwitchRest.next.injEq] at hnext ⊢
    subst hnext
    exact h
  | acquire sw previous =>
    rcases acquireIndexSwitchLease_cases sw.corpusId sw.owner m with
      ⟨m', hrun, hleases, -⟩ | hrun
    · simp only [statement, hrun, SwitchRest.next.injEq] at hnext ⊢
      subst hnext
      obtain ⟨hcorpus, htarget, hnamed, hlive⟩ := h
      exact ⟨hcorpus, htarget, hnamed, by rw [hleases.1, hlive]⟩
    · simp [statement, hrun] at hnext
  | flip sw previous =>
    rcases setActiveCollectionAtomic_cases sw.corpusId (some sw.target) sw.owner m with
      ⟨m', hrun, -, hflips⟩ | ⟨e, hrun, -⟩
    · simp only [statement, hrun, SwitchRest.next.injEq] at hnext ⊢
      subst hnext
      obtain ⟨hcorpus, htarget, hnamed, hlive⟩ := h
      exact ⟨hcorpus, htarget, hnamed, hflips.live.trans hlive⟩
    · simp only [statement, hrun, SwitchRest.next.injEq] at hnext ⊢
      subst hnext
      trivial
  | mirror sw previous =>
    obtain ⟨hcorpus, htarget, hnamed, hlive⟩ := h
    cases registryFails with
    | true =>
      simp only [statement, if_true, SwitchRest.next.injEq] at hnext ⊢
      subst hnext
      trivial
    | false =>
      simp only [statement, Bool.false_eq_true, if_false, SwitchRest.next.injEq] at hnext ⊢
      subst hnext
      exact ⟨hcorpus, htarget, hnamed, by rw [hlive, hcorpus]⟩
  | compensate sw previous =>
    rcases setActiveCollectionAtomic_cases sw.corpusId previous sw.owner m with
      ⟨m', hrun, -, -⟩ | ⟨e, hrun, -⟩
    · simp only [statement, hrun, SwitchRest.next.injEq] at hnext ⊢
      subst hnext
      trivial
    · simp only [statement, hrun, SwitchRest.next.injEq] at hnext ⊢
      subst hnext
      trivial
  | release sw outcome => simp [statement] at hnext

/-- The system while a rollback that began in `s` runs alone. -/
def RollingBack (corpusId : String) (s m : IndexSystem) : Prop :=
  m.calls = [] ∨ ∃ call, m.calls = [call] ∧ call.RollingBack corpusId s.stores m.stores

theorem RollingBack.step {m m' : IndexSystem} {move : IndexMove} (h : RollingBack corpusId s m)
    (halone : Alone m move) (hstep : indexStep svc m move = some m') : RollingBack corpusId s m' := by
  cases move with
  | build | switch | rollback => exact absurd halone id
  | wait duration =>
    obtain rfl := Option.some.inj hstep
    rcases h with hidle | ⟨call, hcall, hstands⟩
    · exact Or.inl hidle
    · refine Or.inr ⟨call, hcall, ?_⟩
      cases call with
      | release sw outcome => cases outcome <;> exact hstands
      | _ => exact hstands
  | proceed k registryFails =>
    obtain ⟨call, hcall, rfl⟩ := Option.map_eq_some_iff.mp hstep
    rcases h with hidle | ⟨only, honly, hstands⟩
    · simp [hidle] at hcall
    · rw [honly] at hcall
      obtain ⟨rfl, rfl⟩ : k = 0 ∧ only = call := by
        cases k <;> simp_all
      cases hrest : (only.statement registryFails m.stores).2 with
      | ended outcome =>
        left
        simp [honly]
      | next next =>
        right
        exact ⟨next, by simp [honly], hstands.proceed hrest⟩

/-- A rollback that writes the live pointer writes the target it read. -/
theorem RollsBack.flipped (h : RollsBack svc corpusId owner s s') :
    ∃ target, s.stores.latestPrevious corpusId = some target ∧ target ≠ "" ∧
      s'.stores.world.pointers = flipPointer corpusId target s.stores.world.pointers := by
  obtain ⟨-, hrun, sw, hcalls⟩ := h
  have hstands : RollingBack corpusId s s' :=
    hrun.invariant RollingBack.step (Or.inr ⟨_, rfl, rfl, rfl, rfl⟩)
  rcases hstands with hidle | ⟨call, hcall, hstands⟩
  · simp [hidle] at hcalls
  · obtain rfl : call = .release sw .returned := by simpa [hcalls] using hcall.symm
    obtain ⟨-, htarget, hnamed, hlive⟩ := hstands
    exact ⟨sw.target, htarget, hnamed, hlive⟩

end Rollbacks

end AgenticRag
