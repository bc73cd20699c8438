import AgenticRag.Ingestion.IndexMigration

/-!
# Two pointers, one lease

The persisted and the live pointer of a corpus differ only while some call is still to write
one of them. A lease that expires between two statements does no harm by itself: the fence of
`set_active_collection_atomic` refuses the late call. What it does not cover is the live
pointer, and a compensation whose value was read before the lease.
-/

namespace AgenticRag

namespace IndexStores

/-- The persisted pointer, or the corpus id if it is null, is the live pointer. -/
def Agree (s : IndexStores) (corpusId : String) : Prop :=
  (s.getActiveCollection corpusId).getD corpusId = s.resolveCollectionName corpusId

/-- The corpus is registered in the metadata store and in the live registry, or in neither. -/
def RegisteredAlike (s : IndexStores) (corpusId : String) : Prop :=
  (∃ row ∈ s.world.metadata.corpora, row.corpusId = corpusId) ↔
    (s.world.pointers corpusId).isSome = true

/-- The owner's row is in the lease table. -/
def Holds (s : IndexStores) (corpusId owner : String) : Prop :=
  ∃ lease, s.leaseOf corpusId = some lease ∧ lease.owner = owner

instance (s : IndexStores) (corpusId : String) : Decidable (s.Agree corpusId) :=
  inferInstanceAs (Decidable (_ = _))

instance (s : IndexStores) (corpusId : String) : Decidable (s.RegisteredAlike corpusId) :=
  inferInstanceAs (Decidable (_ ↔ _))

instance (s : IndexStores) (corpusId owner : String) : Decidable (s.Holds corpusId owner) :=
  inferInstanceAs (Decidable (∃ lease ∈ s.leaseOf corpusId, lease.owner = owner))

end IndexStores

/-- The switch of a call inside the `try` block, which its owner's lease guards. -/
def SwitchCall.guarded : SwitchCall → Option PointerSwitch
  | .flip sw _ | .mirror sw _ | .compensate sw _ | .release sw _ => some sw
  | _ => none

def SwitchCall.BetweenWrites (corpusId : String) : SwitchCall → Prop
  | .mirror sw _ | .compensate sw _ => sw.corpusId = corpusId
  | _ => False

/-- The call is about to flip the persisted pointer for the owner. -/
def SwitchCall.AboutToFlip (corpusId owner : String) : SwitchCall → Prop
  | .flip sw _ => sw.corpusId = corpusId ∧ sw.owner = owner
  | _ => False

/-- The call is still to write a pointer of the corpus: it is between its two writes, or about
to flip for the owner who has the lease. -/
def SwitchCall.Pending (s : IndexStores) (corpusId : String) (call : SwitchCall) : Prop :=
  call.BetweenWrites corpusId ∨
    ∃ lease ∈ s.leaseOf corpusId, call.AboutToFlip corpusId lease.owner

/-- The owner has the lease, and no other guarded call of the corpus is the owner's. -/
def PointerSwitch.Leased (sw : PointerSwitch) (s : IndexStores) (others : List SwitchCall) : Prop :=
  s.Holds sw.corpusId sw.owner ∧ ∀ other ∈ others, ∀ sw' ∈ other.guarded,
    ¬(sw'.corpusId = sw.corpusId ∧ sw'.owner = sw.owner)

/-- The persisted pointer, or the corpus id if it is null, is the target. A corpus that the live
registry does not know has no live pointer. -/
def PointerSwitch.Current (sw : PointerSwitch) (s : IndexStores) : Prop :=
  s.world.pointers sw.corpusId = none ∨
    (s.getActiveCollection sw.corpusId).getD sw.corpusId = sw.target

/-- What the next statement of a call may meet.

A flip that takes place: the corpus is registered alike and the target has a name. A live write
of a call that does not have the lease to itself: the persisted pointer still is its target. A
compensation that takes place restores the live pointer; one that is refused finds the pointers
in agreement. The last three do not matter while another call is still to write. A release must
not take the lease from another call of its owner that has to repair the pointers. -/
def SwitchCall.Orderly (s : IndexStores) (registryFails : Bool) (others : List SwitchCall) :
    SwitchCall → Prop
  | .flip sw _ => s.Holds sw.corpusId sw.owner → s.RegisteredAlike sw.corpusId ∧ sw.target ≠ ""
  | .mirror sw _ => registryFails = false → ¬sw.Leased s others →
      sw.Current s ∨ ∃ other ∈ others, other.Pending s sw.corpusId
  | .compensate sw previous =>
      (if s.Holds sw.corpusId sw.owner then
        previous.getD sw.corpusId = s.resolveCollectionName sw.corpusId
      else s.Agree sw.corpusId) ∨ ∃ other ∈ others, other.Pending s sw.corpusId
  | .release sw _ => s.Holds sw.corpusId sw.owner →
      (∃ other ∈ others, other.AboutToFlip sw.corpusId sw.owner) →
        s.Agree sw.corpusId ∨ ∃ other ∈ others, other.BetweenWrites sw.corpusId
  | _ => True

/-- The call that proceeds meets what it may meet. -/
def IndexSystem.Orderly (s : IndexSystem) : IndexMove → Prop
  | .proceed k registryFails => ∀ call ∈ s.calls[k]?,
      call.Orderly s.stores registryFails (s.calls.eraseIdx k)
  | _ => True

section Decisions

instance (corpusId : String) (call : SwitchCall) : Decidable (call.BetweenWrites corpusId) := by
  cases call <;> unfold SwitchCall.BetweenWrites <;> infer_instance

instance (corpusId owner : String) (call : SwitchCall) : Decidable (call.AboutToFlip corpusId owner) := by
  cases call <;> unfold SwitchCall.AboutToFlip <;> infer_instance

instance (s : IndexStores) (corpusId : String) (call : SwitchCall) : Decidable (call.Pending s corpusId) :=
  inferInstanceAs (Decidable (_ ∨ ∃ lease ∈ s.leaseOf corpusId, _))

instance (sw : PointerSwitch) (s : IndexStores) (others : List SwitchCall) :
    Decidable (sw.Leased s others) :=
  inferInstanceAs (Decidable (_ ∧ ∀ other ∈ others, ∀ sw' ∈ other.guarded, _))

instance (sw : PointerSwitch) (s : IndexStores) : Decidable (sw.Current s) :=
  inferInstanceAs (Decidable (_ ∨ _))

instance (s : IndexStores) (registryFails : Bool) (others : List SwitchCall) (call : SwitchCall) :
    Decidable (call.Orderly s registryFails others) := by
  cases call <;> unfold SwitchCall.Orderly <;> infer_instance

instance (s : IndexSystem) (move : IndexMove) : Decidable (s.Orderly move) := by
  cases move <;> unfold IndexSystem.Orderly <;> infer_instance

end Decisions

section Statements

open IndexStores

variable {s s' : IndexStores} {corpusId owner : String} {name : Option String}

theorem registeredRow_setVectorCollection {corpora : List CorpusRow} {other : String} :
    MetadataStore.registeredRow (setVectorCollection corpusId name corpora) other =
      if other = corpusId then
        (MetadataStore.registeredRow corpora corpusId).map
          fun row => { row with vectorCollection := name }
      else MetadataStore.registeredRow corpora other := by
  unfold MetadataStore.registeredRow setVectorCollection
  by_cases hother : other = corpusId
  · subst hother
    rw [if_pos rfl]
    exact Table.selectFirst_update (fun _ => rfl) fun _ => rfl
  · rw [if_neg hother]
    refine Table.selectFirst_update_disjoint fun row _ hrow => ?_
    have hcorpus : row.corpusId = corpusId := of_decide_eq_true hrow
    simp [hcorpus, Ne.symm hother]

/-- Nothing about a corpus has changed. -/
structure IndexStores.Same (s s' : IndexStores) (corpusId : String) : Prop where
  lease : s'.leaseOf corpusId = s.leaseOf corpusId
  persisted : s'.getActiveCollection corpusId = s.getActiveCollection corpusId
  registered : (∃ row ∈ s'.world.metadata.corpora, row.corpusId = corpusId) ↔
    ∃ row ∈ s.world.metadata.corpora, row.corpusId = corpusId
  live : s'.world.pointers corpusId = s.world.pointers corpusId

theorem IndexStores.Same.refl (s : IndexStores) (corpusId : String) : s.Same s corpusId :=
  ⟨rfl, rfl, Iff.rfl, rfl⟩

namespace IndexStores.Same

theorem resolve (h : s.Same s' corpusId) :
    s'.resolveCollectionName corpusId = s.resolveCollectionName corpusId := by
  unfold IndexStores.resolveCollectionName World.resolveCollectionName
  rw [h.live]

theorem agree (h : s.Same s' corpusId) : s'.Agree corpusId ↔ s.Agree corpusId := by
  unfold IndexStores.Agree
  rw [h.persisted, h.resolve]

theorem holds (h : s.Same s' corpusId) : s'.Holds corpusId owner ↔ s.Holds corpusId owner := by
  unfold IndexStores.Holds
  rw [h.lease]

theorem registeredAlike (h : s.Same s' corpusId) :
    s'.RegisteredAlike corpusId ↔ s.RegisteredAlike corpusId := by
  unfold IndexStores.RegisteredAlike
  rw [h.registered, h.live]

end IndexStores.Same

/-- The lease tables before and after differ for one corpus only. -/
def LeasesBut (corpusId : String) (s s' : IndexStores) : Prop :=
  s'.world = s.world ∧ ∀ other, other ≠ corpusId → s'.leaseOf other = s.leaseOf other

theorem LeasesBut.same (h : LeasesBut corpusId s s') {other : String} (hother : other ≠ corpusId) :
    s.Same s' other := by
  obtain ⟨hworld, hlease⟩ := h
  refine ⟨hlease other hother, ?_, by rw [hworld], by rw [hworld]⟩
  unfold IndexStores.getActiveCollection
  rw [hworld]

theorem LeasesBut.agree (h : LeasesBut corpusId s s') (other : String) :
    s'.Agree other ↔ s.Agree other := by
  unfold IndexStores.Agree IndexStores.getActiveCollection IndexStores.resolveCollectionName
  rw [h.1]

section Leases

variable {leases : List SwitchLease} {lease : SwitchLease} {other : String}

theorem lease_insert
    (habsent : Table.selectOne (fun row => decide (row.corpusId = lease.corpusId)) leases = none) :
    Table.selectOne (fun row => decide (row.corpusId = other)) (Table.insert lease leases) =
      if other = lease.corpusId then some lease
      else Table.selectOne (fun row => decide (row.corpusId = other)) leases :=
  Table.lookup_insert habsent

theorem lease_update :
    Table.selectOne (fun row => decide (row.corpusId = other))
        (Table.update (fun row => decide (row.corpusId = lease.corpusId)) (fun _ => lease) leases) =
      if other = lease.corpusId then
        (Table.selectOne (fun row => decide (row.corpusId = lease.corpusId)) leases).map fun _ => lease
      else Table.selectOne (fun row => decide (row.corpusId = other)) leases :=
  Table.lookup_update fun _ _ => rfl

theorem lease_delete :
    Table.selectOne (fun row => decide (row.corpusId = other))
        (Table.delete (fun row => decide (row.corpusId = corpusId)) leases) =
      if other = corpusId then none
      else Table.selectOne (fun row => decide (row.corpusId = other)) leases :=
  Table.lookup_delete

end Leases

/-- A lease table in which the caller has the row of the corpus, and all else is as before. -/
theorem holds_of_lookup {leases : List SwitchLease} {acquiredAt : Timestamp}
    (h : ∀ other, Table.selectOne (fun row => decide (row.corpusId = other)) leases =
      if other = corpusId then some ⟨corpusId, owner, acquiredAt⟩ else s.leaseOf other) :
    LeasesBut corpusId s { s with leases := leases } ∧
      { s with leases := leases }.Holds corpusId owner :=
  ⟨⟨rfl, fun other hother => (h other).trans (if_neg hother)⟩,
    _, (h corpusId).trans (if_pos rfl), rfl⟩

/-- The lease of the corpus is granted to the caller, or nothing changes. -/
theorem acquireIndexSwitchLease_cases (corpusId owner : String) (s : IndexStores) :
    (∃ s', acquireIndexSwitchLease corpusId owner s = (.ok true, s') ∧ LeasesBut corpusId s s' ∧
        s'.Holds corpusId owner) ∨
      acquireIndexSwitchLease corpusId owner s = (.ok false, s) := by
  let lease : SwitchLease := ⟨corpusId, owner, s.world.clock⟩
  unfold acquireIndexSwitchLease
  simp only [Routine.bind_apply, Routine.get_apply]
  cases hlease : s.leaseOf corpusId with
  | none =>
    have hlookup : ∀ other, Table.selectOne (fun row => decide (row.corpusId = other))
        (Table.insert lease s.leases) = if other = corpusId then some lease else s.leaseOf other :=
      fun other => lease_insert hlease
    exact Or.inl ⟨_, rfl, holds_of_lookup hlookup⟩
  | some held =>
    dsimp only
    split
    · have hlookup : ∀ other, Table.selectOne (fun row => decide (row.corpusId = other))
          (Table.update (fun row => decide (row.corpusId = lease.corpusId)) (fun _ => lease) s.leases) =
            if other = corpusId then some lease else s.leaseOf other := by
        intro other
        rw [lease_update]
        split
        · exact congrArg (Option.map fun _ => lease) hlease
        · rfl
      exact Or.inl ⟨_, rfl, holds_of_lookup hlookup⟩
    · split
      · have hgone : Table.selectOne (fun row => decide (row.corpusId = lease.corpusId))
            (Table.delete (fun row => decide (row.corpusId = corpusId)) s.leases) = none :=
          lease_delete.trans (if_pos rfl)
        have hlookup : ∀ other, Table.selectOne (fun row => decide (row.corpusId = other))
            (Table.insert lease (Table.delete (fun row => decide (row.corpusId = corpusId)) s.leases)) =
              if other = corpusId then some lease else s.leaseOf other := by
          intro other
          rw [lease_insert hgone]
          split
          · rfl
          · rename_i hother
            exact lease_delete.trans (if_neg hother)
        exact Or.inl ⟨_, rfl, holds_of_lookup hlookup⟩
      · exact Or.inr rfl

theorem acquireIndexSwitchLease_keyed {granted : Bool}
    (hkeyed : Table.KeyUnique SwitchLease.corpusId s.leases)
    (hrun : acquireIndexSwitchLease corpusId owner s = (.ok granted, s')) :
    Table.KeyUnique SwitchLease.corpusId s'.leases := by
  have hfree : ∀ leases : List SwitchLease,
      Table.selectOne (fun row => decide (row.corpusId = corpusId)) leases = none →
        ∀ row ∈ leases, row.corpusId ≠ corpusId :=
    fun leases hnone row hrow => of_decide_eq_false (Table.selectOne_none.mp hnone row hrow)
  unfold acquireIndexSwitchLease at hrun
  simp only [Routine.bind_apply, Routine.get_apply] at hrun
  cases hlease : s.leaseOf corpusId with
  | none =>
    rw [hlease] at hrun
    obtain ⟨-, rfl⟩ := Prod.mk.inj hrun
    exact hkeyed.insert (hfree _ hlease)
  | some held =>
    rw [hlease] at hrun
    dsimp only at hrun
    split at hrun
    · obtain ⟨-, rfl⟩ := Prod.mk.inj hrun
      exact hkeyed.update fun row _ hcolumn => (of_decide_eq_true hcolumn).symm
    · split at hrun
      · obtain ⟨-, rfl⟩ := Prod.mk.inj hrun
        refine hkeyed.delete.insert fun row hrow hcolumn => ?_
        have hkept := (Table.mem_delete.mp hrow).2
        simp [hcolumn] at hkept
      · obtain ⟨-, rfl⟩ := Prod.mk.inj hrun
        exact hkeyed

/-- The persisted pointer of a corpus is written, and nothing else but build states. -/
structure Flips (corpusId : String) (name : Option String) (s s' : IndexStores) : Prop where
  leases : s'.leases = s.leases
  live : s'.world.pointers = s.world.pointers
  corpora : s'.world.metadata.corpora =
    setVectorCollection corpusId name s.world.metadata.corpora

theorem setActiveCollectionAtomic_held (h : s.Holds corpusId owner) :
    ∃ s', setActiveCollectionAtomic corpusId name owner s = (.ok (), s') ∧
      Flips corpusId name s s' := by
  obtain ⟨lease, hlease, rfl⟩ := h
  let written : IndexStores := { s with
    world.metadata.corpora := setVectorCollection corpusId name s.world.metadata.corpora
    builds := Table.update
      (fun build => decide (build.corpusId = corpusId ∧ some build.collectionName = name))
      (fun build => { build with status := .switched }) s.builds }
  have hrun : setActiveCollectionAtomic corpusId name lease.owner s = (.ok (), written) := by
    simp [setActiveCollectionAtomic, Routine.transaction, Routine.bind_apply, hlease, written]
  exact ⟨written, hrun, rfl, rfl, rfl⟩

theorem setActiveCollectionAtomic_cases (corpusId : String) (name : Option String) (owner : String)
    (s : IndexStores) :
    (∃ s', setActiveCollectionAtomic corpusId name owner s = (.ok (), s') ∧
        s.Holds corpusId owner ∧ Flips corpusId name s s') ∨
      ∃ e, setActiveCollectionAtomic corpusId name owner s = (.error e, s) ∧
        ¬s.Holds corpusId owner := by
  cases hlease : s.leaseOf corpusId with
  | none =>
    right
    refine ⟨.leaseNotHeld corpusId owner, ?_, by simp [IndexStores.Holds, hlease]⟩
    simp [setActiveCollectionAtomic, Routine.transaction, Routine.bind_apply, hlease]
  | some lease =>
    by_cases howner : lease.owner = owner
    · have hholds : s.Holds corpusId owner := ⟨lease, hlease, howner⟩
      obtain ⟨s', hrun, hflips⟩ := setActiveCollectionAtomic_held hholds
      exact Or.inl ⟨s', hrun, hholds, hflips⟩
    · right
      refine ⟨.leaseNotHeld corpusId owner, ?_, by simp [IndexStores.Holds, hlease, howner]⟩
      simp [setActiveCollectionAtomic, Routine.transaction, Routine.bind_apply, hlease, howner]

namespace Flips

theorem registered (h : Flips corpusId name s s') (other : String) :
    (∃ row ∈ s'.world.metadata.corpora, row.corpusId = other) ↔
      ∃ row ∈ s.world.metadata.corpora, row.corpusId = other := by
  rw [h.corpora]
  unfold setVectorCollection Table.update
  constructor
  · rintro ⟨row, hrow, hcolumn⟩
    obtain ⟨old, hold, rfl⟩ := List.mem_map.mp hrow
    refine ⟨old, hold, ?_⟩
    split at hcolumn <;> exact hcolumn
  · rintro ⟨old, hold, hcolumn⟩
    refine ⟨_, List.mem_map_of_mem hold, ?_⟩
    split <;> exact hcolumn

theorem same (h : Flips corpusId name s s') {other : String} (hother : other ≠ corpusId) :
    s.Same s' other := by
  refine ⟨by rw [leaseOf, leaseOf, h.leases], ?_, h.registered other, by rw [h.live]⟩
  unfold IndexStores.getActiveCollection MetadataStore.getActiveCollection
  rw [h.corpora, registeredRow_setVectorCollection, if_neg hother]

theorem registeredAlike (h : Flips corpusId name s s') (other : String) :
    s'.RegisteredAlike other ↔ s.RegisteredAlike other := by
  unfold IndexStores.RegisteredAlike
  rw [h.registered, h.live]

theorem leaseOf (h : Flips corpusId name s s') (other : String) : s'.leaseOf other = s.leaseOf other := by
  rw [IndexStores.leaseOf, IndexStores.leaseOf, h.leases]

theorem holds (h : Flips corpusId name s s') (other owner : String) :
    s'.Holds other owner ↔ s.Holds other owner := by
  unfold IndexStores.Holds
  rw [h.leaseOf]

/-- The persisted pointer of a registered corpus is the written name. -/
theorem persisted (h : Flips corpusId name s s') (hregistered : s.RegisteredAlike corpusId) :
    s'.getActiveCollection corpusId =
      if (s.world.pointers corpusId).isSome then name else none := by
  unfold IndexStores.getActiveCollection MetadataStore.getActiveCollection
  rw [h.corpora, registeredRow_setVectorCollection, if_pos rfl, Option.bind_map]
  cases hfound : MetadataStore.registeredRow s.world.metadata.corpora corpusId with
  | none =>
    have hunknown : ¬(s.world.pointers corpusId).isSome = true := by
      intro hknown
      obtain ⟨row, hrow, hcolumn⟩ := hregistered.mpr hknown
      have hno := Table.selectFirst_none.mp hfound row hrow
      simp [hcolumn] at hno
    rw [if_neg hunknown]
    rfl
  | some row =>
    obtain ⟨hmem, hcolumn⟩ := Table.selectFirst_some hfound
    rw [if_pos (hregistered.mp ⟨row, hmem, by simpa using hcolumn⟩)]
    rfl

end Flips

theorem flipPointer_of_ne {pointers : String → Option String} {name other : String}
    (hother : other ≠ corpusId) : flipPointer corpusId name pointers other = pointers other := by
  unfold flipPointer
  cases pointers corpusId with
  | none => rfl
  | some _ => exact Function.update_of_ne hother _ _

theorem releaseIndexSwitchLease_same {other : String} (hother : other ≠ corpusId) :
    s.Same (releaseIndexSwitchLease corpusId owner s).2 other := by
  refine ⟨?_, rfl, Iff.rfl, rfl⟩
  apply Table.selectOne_delete_disjoint
  intro row _ hcolumn
  simp only [decide_eq_true_eq] at hcolumn
  simp [hcolumn, hother]

theorem flipPointer_none (name : String) (pointers : String → Option String) (other : String) :
    flipPointer corpusId name pointers other = none ↔ pointers other = none := by
  by_cases hother : other = corpusId
  · subst hother
    unfold flipPointer
    cases hlive : pointers other <;> simp [hlive]
  · rw [flipPointer_of_ne hother]

/-- Releasing a lease takes it from its owner and from nobody else. -/
theorem releaseIndexSwitchLease_holds (hkeyed : Table.KeyUnique SwitchLease.corpusId s.leases)
    {other : String} : (releaseIndexSwitchLease corpusId owner s).2.Holds corpusId other ↔
      s.Holds corpusId other ∧ other ≠ owner := by
  constructor
  · rintro ⟨lease, hlease, rfl⟩
    obtain ⟨hmem, hcorpus⟩ := Table.selectOne_some hlease
    obtain ⟨hold, hkept⟩ := Table.mem_delete.mp hmem
    have hcolumn : lease.corpusId = corpusId := of_decide_eq_true hcorpus
    refine ⟨⟨lease, ?_, rfl⟩, fun howner => ?_⟩
    · rw [← hcolumn]
      exact Table.selectOne_of_key hkeyed hold
    · simp [hcolumn, howner] at hkept
  · rintro ⟨⟨lease, hlease, rfl⟩, hother⟩
    exact ⟨lease, Table.selectOne_delete_kept hlease (by simp [hother]), rfl⟩

/-- A corpus has one lease, and so one holder. -/
theorem IndexStores.Holds.unique {other : String} (h : s.Holds corpusId owner)
    (h' : s.Holds corpusId other) : owner = other := by
  obtain ⟨lease, hlease, rfl⟩ := h
  obtain ⟨lease', hlease', rfl⟩ := h'
  rw [Option.some.inj (hlease.symm.trans hlease')]

end Statements

def SwitchCall.corpusId : SwitchCall → String
  | .findTarget corpusId _ => corpusId
  | .checkTarget sw | .readPrevious sw | .acquire sw _ | .flip sw _ | .mirror sw _
  | .compensate sw _ | .release sw _ => sw.corpusId

section Calls

open IndexStores

variable {s s' : IndexStores} {call : SwitchCall} {registryFails : Bool} {rest : SwitchRest}

theorem SwitchCall.corpusId_of_guarded {sw : PointerSwitch} (h : call.guarded = some sw) :
    call.corpusId = sw.corpusId := by
  cases call <;> simp [guarded] at h <;> exact congrArg PointerSwitch.corpusId h

theorem SwitchCall.guarded_of_pending {corpusId : String} (h : call.Pending s corpusId) :
    ∃ sw, call.guarded = some sw ∧ sw.corpusId = corpusId := by
  rcases h with h | ⟨lease, -, h⟩
  · cases call with
    | mirror sw previous => exact ⟨sw, rfl, h⟩
    | compensate sw previous => exact ⟨sw, rfl, h⟩
    | _ => exact h.elim
  · cases call with
    | flip sw previous => exact ⟨sw, rfl, h.1⟩
    | _ => exact h.elim

/-- Which calls are pending depends on the lease only. -/
theorem SwitchCall.pending_congr {corpusId : String} (h : s'.leaseOf corpusId = s.leaseOf corpusId) :
    call.Pending s' corpusId ↔ call.Pending s corpusId := by
  unfold Pending
  rw [h]

/-- Everything the next statement of a call can do. -/
inductive SwitchCall.Effect (registryFails : Bool) (s : IndexStores) :
    SwitchCall → IndexStores → SwitchRest → Prop
  | checked {call : SwitchCall} {rest : SwitchRest} (hfree : call.guarded = none)
      (hrest : ∀ next, rest = .next next → next.guarded = none) : Effect registryFails s call s rest
  | acquired {sw : PointerSwitch} {previous : Option String} {s' : IndexStores}
      (hrun : acquireIndexSwitchLease sw.corpusId sw.owner s = (.ok true, s'))
      (hleases : LeasesBut sw.corpusId s s') (hholds : s'.Holds sw.corpusId sw.owner) :
      Effect registryFails s (.acquire sw previous) s' (.next (.flip sw previous))
  | flipped {sw : PointerSwitch} {previous : Option String} {s' : IndexStores}
      (hholds : s.Holds sw.corpusId sw.owner) (hflips : Flips sw.corpusId (some sw.target) s s') :
      Effect registryFails s (.flip sw previous) s' (.next (.mirror sw previous))
  | notFlipped {sw : PointerSwitch} {previous : Option String} {e : IndexError}
      (hlost : ¬s.Holds sw.corpusId sw.owner) :
      Effect registryFails s (.flip sw previous) s (.next (.release sw (.raised e)))
  | mirrored {sw : PointerSwitch} {previous : Option String} (hwrites : registryFails = false) :
      Effect registryFails s (.mirror sw previous)
        { s with world.pointers := flipPointer sw.corpusId sw.target s.world.pointers }
        (.next (.release sw .returned))
  | notMirrored {sw : PointerSwitch} {previous : Option String} (hfails : registryFails = true) :
      Effect registryFails s (.mirror sw previous) s (.next (.compensate sw previous))
  | compensated {sw : PointerSwitch} {previous : Option String} {s' : IndexStores} {e : IndexError}
      (hholds : s.Holds sw.corpusId sw.owner) (hflips : Flips sw.corpusId previous s s') :
      Effect registryFails s (.compensate sw previous) s' (.next (.release sw (.raised e)))
  | notCompensated {sw : PointerSwitch} {previous : Option String} {e : IndexError}
      (hlost : ¬s.Holds sw.corpusId sw.owner) :
      Effect registryFails s (.compensate sw previous) s (.next (.release sw (.raised e)))
  | released {sw : PointerSwitch} {outcome : SwitchOutcome} :
      Effect registryFails s (.release sw outcome)
        (releaseIndexSwitchLease sw.corpusId sw.owner s).2 (.ended outcome)

theorem SwitchCall.statement_effect (call : SwitchCall) (registryFails : Bool) (s : IndexStores) :
    Effect registryFails s call (call.statement registryFails s).1
      (call.statement registryFails s).2 := by
  cases call with
  | findTarget corpusId owner =>
    simp only [statement]
    split
    · exact .checked rfl (by simp)
    · split
      · exact .checked rfl (by simp)
      · exact .checked rfl (by simp [guarded])
  | checkTarget sw =>
    simp only [statement]
    split
    · exact .checked rfl (by simp)
    · exact .checked rfl (by simp [guarded])
  | readPrevious sw => exact .checked rfl (by simp [statement, guarded])
  | acquire sw previous =>
    rcases acquireIndexSwitchLease_cases sw.corpusId sw.owner s with
      ⟨s', hrun, hleases, hholds⟩ | hrun
    · simpa [statement, hrun] using Effect.acquired hrun hleases hholds
    · simp only [statement, hrun]
      exact .checked rfl (by simp)
  | flip sw previous =>
    rcases setActiveCollectionAtomic_cases sw.corpusId (some sw.target) sw.owner s with
      ⟨s', hrun, hholds, hflips⟩ | ⟨e, hrun, hlost⟩
    · simpa [statement, hrun] using Effect.flipped hholds hflips
    · simpa [statement, hrun] using Effect.notFlipped hlost
  | mirror sw previous =>
    simp only [statement]
    split
    · rename_i hfails
      exact .notMirrored hfails
    · rename_i hwrites
      exact .mirrored (Bool.eq_false_of_not_eq_true hwrites)
  | compensate sw previous =>
    rcases setActiveCollectionAtomic_cases sw.corpusId previous sw.owner s with
      ⟨s', hrun, hholds, hflips⟩ | ⟨e, hrun, hlost⟩
    · simpa [statement, hrun] using Effect.compensated hholds hflips
    · simpa [statement, hrun] using Effect.notCompensated hlost
  | release sw outcome => exact .released

/-- A statement about one corpus changes nothing about the others. -/
theorem SwitchCall.Effect.same {rest : SwitchRest} {other : String}
    (h : Effect registryFails s call s' rest) (hother : other ≠ call.corpusId) :
    s.Same s' other := by
  cases h with
  | checked => exact .refl s other
  | acquired _ hleases _ => exact hleases.same hother
  | flipped _ hflips => exact hflips.same hother
  | notFlipped => exact .refl s other
  | mirrored => exact ⟨rfl, rfl, Iff.rfl, flipPointer_of_ne hother⟩
  | notMirrored => exact .refl s other
  | compensated _ hflips => exact hflips.same hother
  | notCompensated => exact .refl s other
  | released => exact releaseIndexSwitchLease_same hother

/-- No statement registers a corpus in one of the stores alone. -/
theorem SwitchCall.Effect.registeredAlike (h : Effect registryFails s call s' rest) (corpusId : String) :
    s'.RegisteredAlike corpusId ↔ s.RegisteredAlike corpusId := by
  by_cases hcorpus : corpusId = call.corpusId
  · cases h with
    | checked | notFlipped | notMirrored | notCompensated | released => rfl
    | acquired _ hleases _ =>
      unfold IndexStores.RegisteredAlike
      rw [hleases.1]
    | flipped _ hflips => exact hflips.registeredAlike corpusId
    | compensated _ hflips => exact hflips.registeredAlike corpusId
    | @mirrored sw previous =>
      obtain rfl : corpusId = sw.corpusId := hcorpus
      unfold IndexStores.RegisteredAlike flipPointer
      cases hlive : s.world.pointers sw.corpusId <;> simp [hlive]
  · exact (h.same hcorpus).registeredAlike

/-- Lease tables keep their primary key. -/
theorem SwitchCall.Effect.keyed (h : Effect registryFails s call s' rest)
    (hkeyed : Table.KeyUnique SwitchLease.corpusId s.leases) :
    Table.KeyUnique SwitchLease.corpusId s'.leases := by
  cases h with
  | checked | notFlipped | mirrored | notMirrored | notCompensated => exact hkeyed
  | flipped _ hflips => exact hflips.leases ▸ hkeyed
  | compensated _ hflips => exact hflips.leases ▸ hkeyed
  | acquired hrun => exact acquireIndexSwitchLease_keyed hkeyed hrun
  | released => exact hkeyed.delete

/-- The live pointer of a corpus is the mirrored name. -/
theorem agree_mirrored {sw : PointerSwitch} (htarget : sw.target ≠ "")
    (hregistered : s.RegisteredAlike sw.corpusId) (hcurrent : sw.Current s) :
    { s with world.pointers := flipPointer sw.corpusId sw.target s.world.pointers }.Agree
      sw.corpusId := by
  unfold Agree IndexStores.resolveCollectionName World.resolveCollectionName flipPointer
  cases hlive : s.world.pointers sw.corpusId with
  | none =>
    have hunknown : MetadataStore.registeredRow s.world.metadata.corpora sw.corpusId = none := by
      refine Table.selectFirst_none.mpr fun row hrow hcolumn => ?_
      have hknown := hregistered.mp ⟨row, hrow, of_decide_eq_true hcolumn⟩
      simp [hlive] at hknown
    simp [IndexStores.getActiveCollection, MetadataStore.getActiveCollection, hunknown, hlive]
  | some name =>
    have hpersisted : (s.getActiveCollection sw.corpusId).getD sw.corpusId = sw.target := by
      rcases hcurrent with hnone | hpersisted
      · rw [hlive] at hnone
        cases hnone
      · exact hpersisted
    refine Eq.trans hpersisted ?_
    simp [htarget]

/-- The restored pointer is the live one. -/
theorem agree_compensated {corpusId : String} {previous : Option String}
    (hflips : Flips corpusId previous s s') (hregistered : s.RegisteredAlike corpusId)
    (hprevious : previous.getD corpusId = s.resolveCollectionName corpusId) :
    s'.Agree corpusId := by
  unfold Agree
  rw [hflips.persisted hregistered]
  have hlive : s'.resolveCollectionName corpusId = s.resolveCollectionName corpusId := by
    unfold IndexStores.resolveCollectionName World.resolveCollectionName
    rw [hflips.live]
  rw [hlive]
  cases hpointer : s.world.pointers corpusId with
  | some name => simpa using hprevious
  | none =>
    simp [IndexStores.resolveCollectionName, World.resolveCollectionName, hpointer]

end Calls

/-- What a call between its writes relies on: the flip found the corpus registered alike and
the target named. -/
def SwitchCall.Ready (s : IndexStores) : SwitchCall → Prop
  | .mirror sw _ => s.RegisteredAlike sw.corpusId ∧ sw.target ≠ ""
  | .compensate sw _ => s.RegisteredAlike sw.corpusId
  | _ => True

/-- A call between its writes that has the lease to itself still finds what it flipped. -/
def SwitchCall.Undisturbed (s : IndexStores) (others : List SwitchCall) : SwitchCall → Prop
  | .mirror sw _ => sw.Leased s others → sw.Current s
  | _ => True

/-- The pointers of each corpus agree, or a call is still to write one of them; and the calls
between their writes find what they rely on. -/
structure Coherent (s : IndexStores) (calls : List SwitchCall) : Prop where
  keyed : Table.KeyUnique SwitchLease.corpusId s.leases
  ready : ∀ call ∈ calls, call.Ready s
  undisturbed : ∀ call others, calls.Perm (call :: others) → call.Undisturbed s others
  covered : ∀ corpusId, s.Agree corpusId ∨ ∃ call ∈ calls, call.Pending s corpusId

section Runs

open IndexStores

variable {s s' : IndexStores} {call : SwitchCall} {others : List SwitchCall}
  {registryFails : Bool} {rest : SwitchRest}

/-- The calls after a statement of one of them. -/
def SwitchRest.beside (others : List SwitchCall) : SwitchRest → List SwitchCall
  | .next call => call :: others
  | .ended _ => others

/-- A lease that is one call's after a statement of another call was its own before, and the
statement has kept the persisted pointer: only the owner of the lease writes it. -/
theorem SwitchCall.Effect.undisturbed {sw : PointerSwitch}
    (h : Effect registryFails s call s' rest)
    (hkeyed : Table.KeyUnique SwitchLease.corpusId s.leases) (hleased : sw.Leased s' (rest.beside others)) :
    sw.Leased s (call :: others) ∧ (sw.Current s → sw.Current s') := by
  obtain ⟨hholds, halone⟩ := hleased
  -- the statement's own call counts as another one before it and after it
  have hothers : ∀ other ∈ others, ∀ sw' ∈ other.guarded,
      ¬(sw'.corpusId = sw.corpusId ∧ sw'.owner = sw.owner) := by
    intro other hother
    cases rest with
    | next next => exact halone other (List.mem_cons_of_mem _ hother)
    | ended outcome => exact halone other hother
  have hbefore : ∀ {mine : Option PointerSwitch}, call.guarded = mine →
      (∀ sw' ∈ mine, ¬(sw'.corpusId = sw.corpusId ∧ sw'.owner = sw.owner)) →
        ∀ other ∈ call :: others, ∀ sw' ∈ other.guarded,
          ¬(sw'.corpusId = sw.corpusId ∧ sw'.owner = sw.owner) := by
    rintro mine rfl hmine other hother
    rcases List.mem_cons.mp hother with rfl | hother
    · exact hmine
    · exact hothers other hother
  have hgoesOn : ∀ {next : SwitchCall}, rest = .next next → call.guarded = next.guarded →
      ∀ other ∈ call :: others, ∀ sw' ∈ other.guarded,
        ¬(sw'.corpusId = sw.corpusId ∧ sw'.owner = sw.owner) := by
    rintro next rfl hguarded
    exact hbefore hguarded (halone next List.mem_cons_self)
  by_cases hcorpus : sw.corpusId = call.corpusId
  · cases h with
    | checked hfree => exact ⟨⟨hholds, hbefore hfree (by simp)⟩, id⟩
    | @acquired acquirer previous _ hrun hleases hgranted =>
      -- the lease has just been granted to the other call
      have hsameOwner : sw.owner = acquirer.owner := hholds.unique (hcorpus ▸ hgranted)
      exact absurd ⟨hcorpus.symm, hsameOwner.symm⟩ (halone _ List.mem_cons_self acquirer rfl)
    | @flipped flipper previous _ hheld hflips =>
      -- the fence: it is the other call's owner who has the lease
      have hheld' : s'.Holds sw.corpusId flipper.owner := (hflips.holds _ _).mpr (hcorpus ▸ hheld)
      exact absurd ⟨hcorpus.symm, (hholds.unique hheld').symm⟩
        (halone _ List.mem_cons_self flipper rfl)
    | @notFlipped flipper previous e hlost =>
      exact ⟨⟨hholds, hgoesOn rfl rfl⟩, id⟩
    | @mirrored writer previous hwrites =>
      refine ⟨⟨hholds, hgoesOn rfl rfl⟩, ?_⟩
      rintro (hunknown | hpersisted)
      · left
        exact (flipPointer_none _ _ _).mpr hunknown
      · exact Or.inr hpersisted
    | notMirrored =>
      exact ⟨⟨hholds, hgoesOn rfl rfl⟩, id⟩
    | @compensated writer previous _ _ hheld hflips =>
      have hheld' : s'.Holds sw.corpusId writer.owner := (hflips.holds _ _).mpr (hcorpus ▸ hheld)
      exact absurd ⟨hcorpus.symm, (hholds.unique hheld').symm⟩
        (halone _ List.mem_cons_self writer rfl)
    | notCompensated =>
      exact ⟨⟨hholds, hgoesOn rfl rfl⟩, id⟩
    | @released releaser outcome =>
      have hkept : s.Holds sw.corpusId sw.owner ∧ sw.owner ≠ releaser.owner := by
        have hiff := @releaseIndexSwitchLease_holds s releaser.corpusId releaser.owner hkeyed sw.owner
        rw [show sw.corpusId = releaser.corpusId from hcorpus] at hholds ⊢
        exact hiff.mp hholds
      refine ⟨⟨hkept.1, hbefore rfl ?_⟩, id⟩
      rintro sw' ⟨⟩ ⟨-, howner⟩
      exact hkept.2 howner.symm
  · have hsame := h.same hcorpus
    refine ⟨⟨hsame.holds.mp hholds, hbefore rfl fun sw' hguarded hboth => ?_⟩, ?_⟩
    · exact hcorpus (hboth.1.symm.trans (SwitchCall.corpusId_of_guarded hguarded).symm)
    · unfold PointerSwitch.Current
      rw [hsame.live, hsame.persisted]
      exact id

/-- Calls that keep a place beside a statement. -/
theorem SwitchRest.mem_beside {other : SwitchCall} (h : other ∈ others) : other ∈ rest.beside others := by
  cases rest with
  | next next => exact List.mem_cons_of_mem _ h
  | ended outcome => exact h

theorem SwitchCall.Undisturbed.perm {others' : List SwitchCall} (h : call.Undisturbed s others)
    (hperm : others.Perm others') : call.Undisturbed s others' := by
  cases call with
  | mirror sw previous =>
    exact fun hleased => h ⟨hleased.1, fun other hother => hleased.2 other (hperm.mem_iff.mp hother)⟩
  | _ => trivial

theorem SwitchCall.ready_of_free (h : call.guarded = none) : call.Ready s := by
  cases call with
  | mirror => cases h
  | compensate => cases h
  | _ => trivial

theorem SwitchCall.undisturbed_of_free (h : call.guarded = none) : call.Undisturbed s others := by
  cases call with
  | mirror => cases h
  | _ => trivial

/-- A call that has flipped finds its target, and what comes next finds the corpus registered
alike. -/
theorem SwitchCall.Effect.next (h : Effect registryFails s call s' rest) (hready : call.Ready s)
    (horderly : call.Orderly s registryFails others) {next : SwitchCall} (hrest : rest = .next next) :
    next.Ready s' ∧ next.Undisturbed s' others := by
  have hregistered := h.registeredAlike
  cases h with
  | checked hfree hnext =>
    have hfreeNext := hnext next hrest
    exact ⟨ready_of_free hfreeNext, undisturbed_of_free hfreeNext⟩
  | acquired =>
    obtain rfl := SwitchRest.next.inj hrest
    exact ⟨trivial, trivial⟩
  | @flipped sw previous _ hheld hflips =>
    obtain rfl := SwitchRest.next.inj hrest
    obtain ⟨halike, htarget⟩ := horderly hheld
    refine ⟨⟨(hregistered _).mpr halike, htarget⟩, fun _ => ?_⟩
    unfold PointerSwitch.Current
    rw [hflips.persisted halike, hflips.live]
    cases s.world.pointers sw.corpusId <;> simp
  | notFlipped | mirrored | compensated | notCompensated =>
    obtain rfl := SwitchRest.next.inj hrest
    exact ⟨trivial, trivial⟩
  | notMirrored =>
    obtain rfl := SwitchRest.next.inj hrest
    exact ⟨hready.1, trivial⟩
  | released => cases hrest

/-- A call that stays beside a statement is still to write where the statement has left the lease. -/
theorem SwitchRest.pending_beside {corpusId : String} (hlease : s'.leaseOf corpusId = s.leaseOf corpusId)
    (h : ∃ other ∈ others, other.Pending s corpusId) :
    ∃ other ∈ rest.beside others, other.Pending s' corpusId := by
  obtain ⟨other, hother, hpending⟩ := h
  exact ⟨other, SwitchRest.mem_beside hother, (SwitchCall.pending_congr hlease).mpr hpending⟩

theorem Coherent.covered_cases (hs : Coherent s (call :: others)) (corpusId : String) :
    s.Agree corpusId ∨ call.Pending s corpusId ∨ ∃ other ∈ others, other.Pending s corpusId := by
  rcases hs.covered corpusId with hagree | ⟨other, hother, hpending⟩
  · exact Or.inl hagree
  · rcases List.mem_cons.mp hother with rfl | hother
    · exact Or.inr (Or.inl hpending)
    · exact Or.inr (Or.inr ⟨other, hother, hpending⟩)

/-- A statement about another corpus leaves the pointers and the calls that are to write them. -/
theorem SwitchCall.Effect.covered_elsewhere (h : Effect registryFails s call s' rest)
    (hs : Coherent s (call :: others)) {corpusId : String} (hcorpus : corpusId ≠ call.corpusId) :
    s'.Agree corpusId ∨ ∃ other ∈ rest.beside others, other.Pending s' corpusId := by
  have hsame := h.same hcorpus
  rcases hs.covered_cases corpusId with hagree | hpending | hpending
  · exact Or.inl (hsame.agree.mpr hagree)
  · obtain ⟨sw, hguarded, hsw⟩ := SwitchCall.guarded_of_pending hpending
    exact absurd (hsw.symm.trans (SwitchCall.corpusId_of_guarded hguarded).symm) hcorpus
  · exact Or.inr (SwitchRest.pending_beside hsame.lease hpending)

/-- A release leaves a call that is to write, unless it takes the lease from one that is about to
flip. -/
theorem Coherent.covered_release {sw : PointerSwitch} {outcome : SwitchOutcome}
    (hs : Coherent s (.release sw outcome :: others))
    (horderly : (SwitchCall.release sw outcome).Orderly s registryFails others) :
    s.Agree sw.corpusId ∨ ∃ other ∈ others,
      other.Pending (releaseIndexSwitchLease sw.corpusId sw.owner s).2 sw.corpusId := by
  have hwriting : (∃ other ∈ others, other.BetweenWrites sw.corpusId) →
      ∃ other ∈ others, other.Pending (releaseIndexSwitchLease sw.corpusId sw.owner s).2 sw.corpusId :=
    fun ⟨other, hother, hwrites⟩ => ⟨other, hother, Or.inl hwrites⟩
  rcases hs.covered_cases sw.corpusId with hagree | hpending | ⟨other, hother, hpending⟩
  · exact Or.inl hagree
  · rcases hpending with hwrites | ⟨lease, -, hflips⟩
    · exact hwrites.elim
    · exact hflips.elim
  · rcases hpending with hwrites | ⟨lease, hlease, hflips⟩
    · exact Or.inr (hwriting ⟨other, hother, hwrites⟩)
    · by_cases howner : lease.owner = sw.owner
      · rw [howner] at hflips
        rcases horderly ⟨lease, hlease, howner⟩ ⟨other, hother, hflips⟩ with hagree | hwrites
        · exact Or.inl hagree
        · exact Or.inr (hwriting hwrites)
      · obtain ⟨kept, hkept, hsame⟩ :=
          (releaseIndexSwitchLease_holds hs.keyed).mpr ⟨⟨lease, hlease, rfl⟩, howner⟩
        exact Or.inr ⟨other, hother, Or.inr ⟨kept, hkept, hsame ▸ hflips⟩⟩

/-- A statement of the last call that is to write a pointer of a corpus leaves the pointers in
agreement. -/
theorem SwitchCall.Effect.covered (h : Effect registryFails s call s' rest)
    (hs : Coherent s (call :: others)) (horderly : call.Orderly s registryFails others)
    (corpusId : String) :
    s'.Agree corpusId ∨ ∃ other ∈ rest.beside others, other.Pending s' corpusId := by
  by_cases hcorpus : corpusId = call.corpusId
  · cases h with
    | @checked _ rest hfree hnext =>
      rcases hs.covered_cases corpusId with hagree | hpending | hpending
      · exact Or.inl hagree
      · obtain ⟨sw, hguarded, -⟩ := SwitchCall.guarded_of_pending hpending
        rw [hfree] at hguarded
        cases hguarded
      · exact Or.inr (SwitchRest.pending_beside rfl hpending)
    | @acquired sw previous _ hrun hleases hgranted =>
      obtain rfl : corpusId = sw.corpusId := hcorpus
      obtain ⟨lease, hlease, howner⟩ := hgranted
      exact Or.inr ⟨_, List.mem_cons_self, Or.inr ⟨lease, hlease, rfl, howner.symm⟩⟩
    | @flipped sw previous _ hheld hflips =>
      exact Or.inr ⟨_, List.mem_cons_self, Or.inl hcorpus.symm⟩
    | @notFlipped sw previous e hlost =>
      obtain rfl : corpusId = sw.corpusId := hcorpus
      rcases hs.covered_cases sw.corpusId with hagree | hpending | hpending
      · exact Or.inl hagree
      · rcases hpending with hwrites | ⟨lease, hlease, -, howner⟩
        · exact hwrites.elim
        · exact absurd ⟨lease, hlease, howner.symm⟩ hlost
      · exact Or.inr (SwitchRest.pending_beside rfl hpending)
    | @mirrored sw previous hwrites =>
      obtain rfl : corpusId = sw.corpusId := hcorpus
      obtain ⟨hregistered, htarget⟩ := hs.ready _ List.mem_cons_self
      by_cases hleased : sw.Leased s others
      · exact Or.inl (agree_mirrored htarget hregistered (hs.undisturbed _ _ (.refl _) hleased))
      · rcases horderly hwrites hleased with hcurrent | hpending
        · exact Or.inl (agree_mirrored htarget hregistered hcurrent)
        · exact Or.inr (SwitchRest.pending_beside rfl hpending)
    | notMirrored => exact Or.inr ⟨_, List.mem_cons_self, Or.inl hcorpus.symm⟩
    | @compensated sw previous _ e hheld hflips =>
      obtain rfl : corpusId = sw.corpusId := hcorpus
      rcases horderly with hrestores | hpending
      · rw [if_pos hheld] at hrestores
        exact Or.inl (agree_compensated hflips (hs.ready _ List.mem_cons_self) hrestores)
      · exact Or.inr (SwitchRest.pending_beside (hflips.leaseOf _) hpending)
    | @notCompensated sw previous e hlost =>
      obtain rfl : corpusId = sw.corpusId := hcorpus
      rcases horderly with hagree | hpending
      · rw [if_neg hlost] at hagree
        exact Or.inl hagree
      · exact Or.inr (SwitchRest.pending_beside rfl hpending)
    | @released sw outcome =>
      obtain rfl : corpusId = sw.corpusId := hcorpus
      exact hs.covered_release horderly
  · exact h.covered_elsewhere hs hcorpus

/-- What one statement preserves. -/
theorem Coherent.advance (hs : Coherent s (call :: others)) (h : call.Effect registryFails s s' rest)
    (horderly : call.Orderly s registryFails others) : Coherent s' (rest.beside others) where
  keyed := h.keyed hs.keyed
  ready other hother := by
    have hkept : ∀ other ∈ others, other.Ready s' := by
      intro other hother
      have hold := hs.ready other (List.mem_cons_of_mem _ hother)
      cases other with
      | mirror sw previous => exact ⟨(h.registeredAlike _).mpr hold.1, hold.2⟩
      | compensate sw previous => exact (h.registeredAlike _).mpr hold
      | _ => trivial
    cases rest with
    | ended outcome => exact hkept other hother
    | next next =>
      rcases List.mem_cons.mp hother with rfl | hother
      · exact (h.next (hs.ready _ List.mem_cons_self) horderly rfl).1
      · exact hkept other hother
  undisturbed := by
    -- another call, beside the calls that are left
    have hother : ∀ other left, others.Perm (other :: left) → other.Undisturbed s' (rest.beside left) := by
      intro other left hperm
      cases other with
      | mirror sw previous =>
        intro hleased
        obtain ⟨hbefore, hcurrent⟩ := h.undisturbed hs.keyed hleased
        exact hcurrent (hs.undisturbed _ _ ((hperm.cons call).trans (List.Perm.swap ..)) hbefore)
      | _ => trivial
    intro other left hperm
    cases rest with
    | ended outcome => exact hother other left hperm
    | next next =>
      rcases perm_cons_cases hperm with ⟨rfl, hleft⟩ | ⟨rest', hothers, hleft⟩
      · exact (h.next (hs.ready _ List.mem_cons_self) horderly rfl).2.perm hleft
      · exact (hother other rest' hothers).perm hleft.symm
  covered := h.covered hs horderly

theorem Coherent.perm {calls calls' : List SwitchCall} (h : Coherent s calls) (hperm : calls.Perm calls') :
    Coherent s calls' where
  keyed := h.keyed
  ready call hcall := h.ready call (hperm.mem_iff.mpr hcall)
  undisturbed call others hcalls := h.undisturbed call others (hperm.trans hcalls)
  covered corpusId := (h.covered corpusId).imp_right fun ⟨call, hcall, hpending⟩ =>
    ⟨call, hperm.mem_iff.mp hcall, hpending⟩

/-- Stores in which nothing about any corpus has changed. -/
theorem Coherent.congr {calls : List SwitchCall} (hsame : ∀ corpusId, s.Same s' corpusId)
    (hleases : s'.leases = s.leases) (h : Coherent s calls) : Coherent s' calls where
  keyed := hleases ▸ h.keyed
  ready call hcall := by
    have hold := h.ready call hcall
    cases call with
    | mirror sw previous => exact ⟨(hsame _).registeredAlike.mpr hold.1, hold.2⟩
    | compensate sw previous => exact (hsame _).registeredAlike.mpr hold
    | _ => trivial
  undisturbed call others hcalls := by
    have hold := h.undisturbed call others hcalls
    cases call with
    | mirror sw previous =>
      intro hleased
      have hcurrent := hold ⟨(hsame _).holds.mp hleased.1, hleased.2⟩
      unfold PointerSwitch.Current at hcurrent ⊢
      rwa [(hsame _).live, (hsame _).persisted]
    | _ => trivial
  covered corpusId := (h.covered corpusId).imp (hsame corpusId).agree.mpr fun ⟨call, hcall, hpending⟩ =>
    ⟨call, hcall, (SwitchCall.pending_congr (hsame corpusId).lease).mpr hpending⟩

/-- A call that begins. -/
theorem Coherent.begin {calls : List SwitchCall} (h : Coherent s calls)
    (hfree : call.guarded = none) : Coherent s (calls ++ [call]) := by
  suffices hfirst : Coherent s (call :: calls) from hfirst.perm (List.perm_append_singleton _ _).symm
  refine ⟨h.keyed, fun other hother => ?_, fun other left hperm => ?_, fun corpusId => ?_⟩
  · rcases List.mem_cons.mp hother with rfl | hother
    · exact SwitchCall.ready_of_free hfree
    · exact h.ready other hother
  · rcases perm_cons_cases hperm with ⟨rfl, -⟩ | ⟨rest, hcalls, hleft⟩
    · exact SwitchCall.undisturbed_of_free hfree
    · have hold := h.undisturbed other rest hcalls
      cases other with
      | mirror sw previous =>
        exact fun hleased => hold ⟨hleased.1, fun other hother =>
          hleased.2 other (hleft.mem_iff.mpr (List.mem_cons_of_mem _ hother))⟩
      | _ => trivial
  · exact (h.covered corpusId).imp_right fun ⟨other, hother, hpending⟩ =>
      ⟨other, List.mem_cons_of_mem _ hother, hpending⟩

/-- What a build leaves alone. -/
structure BuildFrame (s s' : IndexStores) : Prop where
  clock : s'.world.clock = s.world.clock
  metadata : s'.world.metadata = s.world.metadata
  live : s'.world.pointers = s.world.pointers
  leases : s'.leases = s.leases

theorem buildIndexV2_frame (svc : Services) (args : IndexBuildArgs) :
    (buildIndexV2 svc args).Keeps BuildFrame := by
  have hrefl : ∀ s, BuildFrame s s := fun _ => ⟨rfl, rfl, rfl, rfl⟩
  have htrans : ∀ s t u, BuildFrame s t → BuildFrame t u → BuildFrame s u := fun _ _ _ h h' =>
    ⟨h'.clock.trans h.clock, h'.metadata.trans h.metadata, h'.live.trans h.live,
      h'.leases.trans h.leases⟩
  have hquiet : ∀ {α : Type} {m : IndexMethod α}, (∀ s, (m s).2 = s) → m.Keeps BuildFrame :=
    fun h => Routine.keeps_of_unchanged hrefl h
  have hvectors : ∀ op, (onVectors op).Keeps BuildFrame := fun _ _ => ⟨rfl, rfl, rfl, rfl⟩
  have hbegin : ∀ build, (beginIndexBuild build).Keeps BuildFrame := by
    intro build
    refine Routine.keeps_bind htrans (hquiet fun _ => rfl) fun found => ?_
    dsimp only
    split
    · exact hquiet fun _ => rfl
    · exact fun s => ⟨rfl, rfl, rfl, rfl⟩
  have hcomplete : ∀ buildId, (completeIndexBuild buildId).Keeps BuildFrame :=
    fun _ _ => ⟨rfl, rfl, rfl, rfl⟩
  refine Routine.keeps_bind htrans (hquiet fun _ => rfl) fun found => ?_
  refine Routine.keeps_bind htrans (hvectors _) fun _ => ?_
  refine Routine.keeps_bind htrans (hvectors _) fun _ => ?_
  refine Routine.keeps_bind htrans (hbegin _) fun _ => ?_
  exact Routine.keeps_bind htrans (hcomplete _) fun _ => hquiet fun _ => rfl

theorem BuildFrame.same (h : BuildFrame s s') (corpusId : String) : s.Same s' corpusId := by
  refine ⟨by rw [leaseOf, leaseOf, h.leases], ?_, by rw [h.metadata], by rw [h.live]⟩
  rw [IndexStores.getActiveCollection, IndexStores.getActiveCollection, h.metadata]

/-- What one move preserves. -/
theorem Coherent.step {svc : Services} {m m' : IndexSystem} {move : IndexMove}
    (h : Coherent m.stores m.calls) (horderly : m.Orderly move)
    (hstep : indexStep svc m move = some m') : Coherent m'.stores m'.calls := by
  cases move with
  | wait duration =>
    obtain rfl := Option.some.inj hstep
    exact Coherent.congr (s := m.stores) (fun _ => ⟨rfl, rfl, Iff.rfl, rfl⟩) rfl h
  | build args =>
    obtain rfl := Option.some.inj hstep
    have hframe := buildIndexV2_frame svc args m.stores
    exact h.congr hframe.same hframe.leases
  | switch corpusId target owner =>
    obtain rfl := Option.some.inj hstep
    exact h.begin rfl
  | rollback corpusId owner =>
    obtain rfl := Option.some.inj hstep
    exact h.begin rfl
  | proceed k registryFails =>
    obtain ⟨call, hcall, rfl⟩ := Option.map_eq_some_iff.mp hstep
    obtain ⟨before, after, hcalls, herase, hset⟩ := split_at_position hcall
    have hmeets := horderly call hcall
    rw [herase] at hmeets
    have hfirst : Coherent m.stores (call :: (before ++ after)) := by
      apply h.perm
      rw [hcalls]
      exact List.perm_middle
    have hadvanced := hfirst.advance (call.statement_effect registryFails m.stores) hmeets
    simp only [herase, hset]
    cases hrest : (call.statement registryFails m.stores).2 with
    | next next =>
      rw [hrest] at hadvanced
      exact hadvanced.perm List.perm_middle.symm
    | ended outcome =>
      rw [hrest] at hadvanced
      exact hadvanced

end Runs

/-- In every run whose statements are orderly the two pointers of every corpus agree whenever no
call is in progress. Owners, targets and builds are arbitrary, leases may expire and be taken
over between any two statements, and the live registry may fail; the run starts in agreement,
with one lease row for each corpus. -/
theorem index_pointers_agree (svc : Services) {start s : IndexSystem} (hidle : start.calls = [])
    (hkeyed : Table.KeyUnique SwitchLease.corpusId start.stores.leases)
    (hstart : ∀ corpusId, start.stores.Agree corpusId)
    (hrun : Transition.Reaches (indexStep svc) IndexSystem.Orderly start s) (hquiet : s.calls = [])
    (corpusId : String) : s.stores.Agree corpusId := by
  have hcoherent : Coherent s.stores s.calls := by
    apply hrun.invariant (I := fun m => Coherent m.stores m.calls)
    · exact fun h horderly hstep => h.step horderly hstep
    · rw [hidle]
      exact ⟨hkeyed, by simp, by simp, fun corpusId => Or.inl (hstart corpusId)⟩
  rcases hcoherent.covered corpusId with hagree | ⟨call, hcall, -⟩
  · exact hagree
  · rw [hquiet] at hcall
    cases hcall

/-- One corpus with two further collections. -/
private def migrated : IndexSystem where
  stores :=
    { world :=
        { Sample.world with
          vectors := fun name => if name ∈ ["policies", "policies_v2", "policies_v3"] then some [] else none }
      leases := []
      builds := [] }
  calls := []
  succeeded := fun _ => none

private theorem migrated_agree (corpusId : String) : migrated.stores.Agree corpusId := by
  by_cases hcorpus : corpusId = "policies"
  · subst hcorpus
    decide
  · have hpersisted : migrated.stores.getActiveCollection corpusId = none := by
      have hrow : ¬"policies" = corpusId := fun h => hcorpus h.symm
      simp [migrated, IndexStores.getActiveCollection, MetadataStore.getActiveCollection,
        MetadataStore.registeredRow, Sample.world, Sample.store, Table.selectFirst, Table.select, hrow]
    have hlive : migrated.stores.resolveCollectionName corpusId = corpusId := by
      simp [migrated, IndexStores.resolveCollectionName, World.resolveCollectionName,
        Sample.world, hcorpus]
    unfold IndexStores.Agree
    rw [hpersisted, hlive]
    rfl

/-- A switch to one collection is in the middle of its two writes when its lease expires and
another owner switches to another collection. -/
private def overtaken : List IndexMove :=
  [.switch "policies" "policies_v2" "a", .proceed 0 false, .proceed 0 false, .proceed 0 false,
    .proceed 0 false, .wait 301000000, .switch "policies" "policies_v3" "b", .proceed 1 false,
    .proceed 1 false, .proceed 1 false, .proceed 1 false, .proceed 1 false, .proceed 1 false,
    .proceed 0 false, .proceed 0 false]

theorem index_pointers_agree_counterexample :
    (∀ corpusId, migrated.stores.Agree corpusId) ∧
      Transition.Reaches (indexStep Sample.services) (fun _ _ => True) migrated
        (Transition.play (indexStep Sample.services) migrated overtaken) ∧
      (Transition.play (indexStep Sample.services) migrated overtaken).calls = [] ∧
      ¬(Transition.play (indexStep Sample.services) migrated overtaken).stores.Agree "policies" :=
  ⟨migrated_agree, Transition.reaches_play overtaken (by decide +kernel), by decide +kernel,
    by decide +kernel⟩

/-- A switch has its lease when the lease expires; another owner takes it over and switches to
another collection. The late flip is refused. -/
private def takenOver : List IndexMove :=
  .switch "policies" "policies_v2" "a" :: List.replicate 3 (.proceed 0 false) ++
    [.wait 301000000, .switch "policies" "policies_v3" "b"] ++ List.replicate 6 (.proceed 1 false) ++
    List.replicate 2 (.proceed 0 false)

theorem index_pointers_agree_takeover :
    let s := Transition.play (indexStep Sample.services) migrated takenOver
    s.stores.Agree "policies" ∧ s.stores.getActiveCollection "policies" = some "policies_v3" ∧
      s.succeeded "policies" = some "policies_v3" :=
  ⟨@index_pointers_agree Sample.services migrated _ rfl List.nodup_nil migrated_agree
    (Transition.reaches_play takenOver (by decide +kernel)) (by decide +kernel) "policies",
    by decide +kernel, by decide +kernel⟩

end AgenticRag
