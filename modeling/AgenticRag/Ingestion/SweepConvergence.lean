import AgenticRag.Foundations.Sweep
import AgenticRag.Ingestion.IndexRestart

/-!
# Reconciling every corpus

A reconciler run with no other writer on corpora that need no rebuild and no purge: all active
versions have points and parents, and nothing of a deleted version lingers. The sweep over the
points is then a map of the collection and the sweep over the parents a map of the Parent Store,
so the runs over the corpora can be told apart by their collections and their parents.
-/

namespace AgenticRag

open StoreProgram Method

/-- The stores with other points in one collection. -/
abbrev World.withCollection (w : World) (name : String) (points : List Point) : World :=
  { w with vectors := Function.update w.vectors name (some points) }

namespace Reconciler

/-- `reconcile_all`: `leased` answers `acquire_reconciler_lease` for each corpus. -/
def reconcileAll (svc : Services) (corpusIds : List String) (leased : String → Bool) : ManagerProgram Unit :=
  forEach corpusIds fun corpusId => reconcileCorpus svc corpusId (leased corpusId)

/-- The version is among the listed ones. -/
def Listed (keys : List VersionKey) (key : VersionKey) : Prop := key ∈ keys

instance (keys : List VersionKey) (key : VersionKey) : Decidable (Listed keys key) :=
  inferInstanceAs (Decidable (key ∈ keys))

/-- The repair of a scanned point; `none` removes it. -/
def repairPoint (active known : List VersionKey) (point : Point) : Option Point :=
  let key := point.payload.ref.key
  if ¬Listed known key then
    none
  else if Listed active key ∧ point.payload.status ≠ .active then
    some { point with payload := (PayloadPatch.lifecycle .active false).apply point.payload }
  else if ¬Listed active key ∧ point.payload.status = .active then
    some { point with payload := (PayloadPatch.lifecycle .deprecated true).apply point.payload }
  else
    -- a point whose status fits is not looked at further, deprecated or not
    some point

/-- A parent that does not read as its version does. -/
def Drifted (active : List VersionKey) (parent : ParentChunk) : Prop :=
  parent.ref.key ∈ active ↔ ¬parent.Visible

instance (active : List VersionKey) (parent : ParentChunk) : Decidable (Drifted active parent) :=
  inferInstanceAs (Decidable (_ ↔ _))

def setRight (active : List VersionKey) (parent : ParentChunk) : ParentChunk :=
  if Listed active parent.ref.key then ParentStore.setLifecycle .active false parent
  else ParentStore.setLifecycle .inactive true parent

/-- A parent that the sweep of a corpus keeps. -/
def Stays (corpusId : String) (known : List VersionKey) (parent : ParentChunk) : Prop :=
  parent.ref.doc.corpusId = corpusId → parent.ref.key ∈ known

instance (corpusId : String) (known : List VersionKey) (parent : ParentChunk) :
    Decidable (Stays corpusId known parent) :=
  inferInstanceAs (Decidable (_ → _))

/-- The versions of a corpus with a parent that drifted: the whole version is set right. -/
def driftedRefs (corpusId : String) (active known : List VersionKey) (parents : List ParentChunk) : List VersionRef :=
  (parents.filter fun parent => decide (parent.ref.doc.corpusId = corpusId ∧ Listed known parent.ref.key ∧
    Drifted active parent)).map (·.ref)

def settle (active : List VersionKey) (refs : List VersionRef) (parent : ParentChunk) : ParentChunk :=
  if parent.ref ∈ refs then setRight active parent else parent

/-- The Parent Store after the sweep of a corpus. -/
def repairParents (corpusId : String) (active known : List VersionKey) (parents : ParentStore) : ParentStore :=
  (parents.filter fun parent => decide (Stays corpusId known parent)).map
    (settle active (driftedRefs corpusId active known parents))

/-- The collections after the sweep of one. -/
def repairVectors (name : String) (active known : List VersionKey) (vectors : VectorStore) : VectorStore :=
  match vectors name with
  | some points => Function.update vectors name (some (points.filterMap (repairPoint active known)))
  | none => vectors

def parentsOf (corpusId : String) (parents : ParentStore) : List ParentChunk :=
  parents.filter fun parent => decide (parent.ref.doc.corpusId = corpusId)

/-- The active versions of a corpus have points and parents, and nothing of a deleted one lingers. -/
structure Complete (corpusId : String) (active deleted : List VersionKey) (points : List Point)
    (parents : List ParentChunk) : Prop where
  hasPoints : ∀ key ∈ active, ∃ point ∈ points, point.payload.ref.key = key
  hasParents : ∀ key ∈ active, ∃ parent ∈ parents, parent.ref = key.within corpusId
  noPoints : ∀ key ∈ deleted, ∀ point ∈ points, point.payload.ref ≠ key.within corpusId
  noParents : ∀ key ∈ deleted, ∀ parent ∈ parents, parent.ref ≠ key.within corpusId

/-- Points and parents are of known versions and read as these do. -/
structure Synced (active known : List VersionKey) (points : List Point) (parents : List ParentChunk) : Prop where
  onPoints : ∀ point ∈ points,
    point.payload.ref.key ∈ known ∧ (point.payload.status = .active ↔ point.payload.ref.key ∈ active)
  onParents : ∀ parent ∈ parents, parent.ref.key ∈ known ∧ (parent.Visible ↔ parent.ref.key ∈ active)

end Reconciler

section Corpus

variable (w : World) (corpusId : String)

def World.persistedCollection : String :=
  Reconciler.effectiveCollection corpusId (w.metadata.getActiveCollection corpusId)

/-- The stores once the live pointer follows the persisted one. -/
def World.realigned : World :=
  if w.resolveCollectionName corpusId ≠ w.persistedCollection corpusId then
    { w with pointers := flipPointer corpusId (w.persistedCollection corpusId) w.pointers }
  else w

/-- The collection that a sweep of the corpus scans. -/
def World.sweptCollection : String := (w.realigned corpusId).resolveCollectionName corpusId

abbrev World.activeKeys : List VersionKey := w.metadata.iterActiveDocumentVersions corpusId

abbrev World.knownKeys : List VersionKey := w.metadata.iterKnownDocumentVersions corpusId

abbrev World.deletedKeys : List VersionKey := w.metadata.iterDeletedDocumentIds corpusId

/-- The points of the collection that a sweep of the corpus scans. -/
abbrev World.sweptPoints : List Point := (w.vectors (w.sweptCollection corpusId)).getD []

/-- Nothing of the corpus has to be rebuilt or purged as a whole. -/
def World.Whole : Prop :=
  Reconciler.Complete corpusId (w.activeKeys corpusId) (w.deletedKeys corpusId) (w.sweptPoints corpusId)
    (Reconciler.parentsOf corpusId w.parents)

/-- The data planes of the corpus read as its metadata does. -/
def World.InSync : Prop :=
  Reconciler.Synced (w.activeKeys corpusId) (w.knownKeys corpusId) (w.sweptPoints corpusId)
    (Reconciler.parentsOf corpusId w.parents)

/-- The live pointer of the corpus is where the metadata say, if the registry has the corpus. -/
def World.Aligned : Prop :=
  w.pointers corpusId = none ∨ w.resolveCollectionName corpusId = w.persistedCollection corpusId

/-- The stores after a sweep of the corpus, its findings aside. -/
def World.swept : World :=
  { w.realigned corpusId with
    vectors := Reconciler.repairVectors (w.sweptCollection corpusId) (w.activeKeys corpusId) (w.knownKeys corpusId)
      w.vectors
    parents := Reconciler.repairParents corpusId (w.activeKeys corpusId) (w.knownKeys corpusId) w.parents }

/-- Point ids and parent ids are keys. -/
structure World.Distinct : Prop where
  points : ∀ name points, w.vectors name = some points → Table.KeyUnique (·.id) points
  parents : Table.KeyUnique (·.parentId) w.parents

end Corpus

namespace Reconciler

section Points

variable {name corpusId : String} {active known : List VersionKey} {w : World} {t : Unit}

theorem repairPoint_some {point kept : Point} (h : repairPoint active known point = some kept) :
    kept.id = point.id ∧ kept.payload.ref = point.payload.ref ∧ point.payload.ref.key ∈ known ∧
      (kept.payload.status = .active ↔ kept.payload.ref.key ∈ active) := by
  unfold repairPoint Listed at h
  dsimp only at h
  split at h
  · cases h
  · rename_i hknown
    have hknown := not_not.mp hknown
    split at h
    · rename_i hstale
      obtain rfl := Option.some.inj h
      exact ⟨rfl, rfl, hknown, iff_of_true rfl hstale.1⟩
    · rename_i hfresh
      split at h
      · rename_i hstale
        obtain rfl := Option.some.inj h
        exact ⟨rfl, rfl, hknown, iff_of_false (fun h => by cases h) hstale.1⟩
      · rename_i hinactive
        obtain rfl := Option.some.inj h
        refine ⟨rfl, rfl, hknown, ?_⟩
        tauto

theorem repairPoint_known {point : Point} (h : point.payload.ref.key ∈ known) :
    ∃ kept, repairPoint active known point = some kept := by
  unfold repairPoint Listed
  simp only [h, not_true_eq_false, if_false]
  split
  · exact ⟨_, rfl⟩
  · split <;> exact ⟨_, rfl⟩

/-- One point is repaired at its place. -/
theorem returns_reconcilePoint {before after : List Point} {point : Point}
    (hunique : Table.KeyUnique (·.id) (before ++ point :: after)) {s : World}
    (hpoints : s.vectors name = some (before ++ point :: after)) :
    ∃ found, Returns StoreOp.eval (reconcilePoint name corpusId active known point) t s found t
      (s.withCollection name (before ++ (repairPoint active known point).toList ++ after)) := by
  have hwrite : ∀ patch : PayloadPatch, VectorOp.eval (.updatePayload name [point.id] patch) s.vectors =
      (.ok (), (s.withCollection name
        (before ++ [{ point with payload := patch.apply point.payload }] ++ after)).vectors) := by
    intro patch
    simp [VectorOp.eval, VectorStore.updatePayload, VectorStore.modifyCollection, hpoints,
      hunique.update_middle fun point => { point with payload := patch.apply point.payload }]
  unfold reconcilePoint repairPoint Listed
  dsimp only
  split
  · have hdelete : VectorOp.eval (.delete name [point.id]) s.vectors =
        (.ok (), (s.withCollection name (before ++ after)).vectors) := by
      simp [VectorOp.eval, VectorStore.delete, VectorStore.modifyCollection, hpoints, hunique.delete_middle]
    rw [Option.toList_none, List.append_nil]
    exact ⟨_, (returns_vectors hdelete).bind returns_pure⟩
  · split
    · exact ⟨_, (returns_vectors (hwrite _)).bind returns_pure⟩
    · split
      · exact ⟨_, (returns_vectors (hwrite _)).bind returns_pure⟩
      · have hsame : s.withCollection name (before ++ [point] ++ after) = s := by
          have hvectors : Function.update s.vectors name (some (before ++ [point] ++ after)) = s.vectors := by
            rw [Function.update_eq_self_iff, hpoints, List.append_assoc, List.singleton_append]
          rw [World.withCollection, hvectors]
        refine ⟨[], ?_⟩
        rw [Option.toList_some, hsame]
        exact returns_pure

/-- The points of a collection are repaired as one map. -/
theorem returns_points {points : List Point} (hunique : Table.KeyUnique (·.id) points)
    (hpoints : w.vectors name = some points) :
    ∃ found, Returns StoreOp.eval (collect points (reconcilePoint name corpusId active known)) t w found t
      (w.withCollection name (points.filterMap (repairPoint active known))) := by
  let swept (rest : List Point) (s : World) : Prop := ∃ before, points = before ++ rest ∧
    s = w.withCollection name (before.filterMap (repairPoint active known) ++ rest)
  have hstart : swept points w := by
    refine ⟨[], rfl, ?_⟩
    have hvectors : Function.update w.vectors name (some points) = w.vectors := by
      rw [Function.update_eq_self_iff, hpoints]
    rw [List.filterMap_nil, List.nil_append, World.withCollection, hvectors]
  have hstep : ∀ point rest s, swept (point :: rest) s → ∃ found s',
      Returns StoreOp.eval (reconcilePoint name corpusId active known point) t s found t s' ∧ swept rest s' := by
    rintro point rest s ⟨before, hsplit, rfl⟩
    have hkeys : Table.KeyUnique (·.id) (before.filterMap (repairPoint active known) ++ point :: rest) := by
      have hall : Table.KeyUnique (·.id) (before ++ point :: rest) := hsplit ▸ hunique
      have hids := Table.keys_filterMap (fun row new hnew => (@repairPoint_some active known row new hnew).1) before
      unfold Table.KeyUnique at hall ⊢
      rw [List.map_append] at hall ⊢
      exact hall.sublist (List.Sublist.append hids (List.Sublist.refl _))
    obtain ⟨found, hrun⟩ := @returns_reconcilePoint name corpusId active known t _ _ _ hkeys
      (w.withCollection name (before.filterMap (repairPoint active known) ++ point :: rest))
      (Function.update_self ..)
    refine ⟨found, _, hrun, before ++ [point], ?_, ?_⟩
    · rw [hsplit, List.append_assoc, List.singleton_append]
    · rw [List.filterMap_append]
      cases hpoint : repairPoint active known point with
      | none => simp [World.withCollection, hpoint]
      | some kept => simp [World.withCollection, hpoint]
  obtain ⟨found, s', hrun, before, hsplit, rfl⟩ := returns_collect hstep hstart
  rw [List.append_nil] at hsplit hrun
  exact ⟨found, hsplit ▸ hrun⟩

/-- Points in their right state are left alone. -/
theorem returns_points_settled {points : List Point}
    (h : ∀ point ∈ points, point.payload.ref.key ∈ known ∧
      (point.payload.status = .active ↔ point.payload.ref.key ∈ active)) :
    Returns StoreOp.eval (collect points (reconcilePoint name corpusId active known)) t w [] t w := by
  apply returns_collect_nil
  intro point hpoint
  obtain ⟨hknown, hstatus⟩ := h point hpoint
  have hfirst : ¬(point.payload.ref.key ∈ active ∧ point.payload.status ≠ .active) := by tauto
  have hsecond : ¬(point.payload.ref.key ∉ active ∧ point.payload.status = .active) := by tauto
  unfold reconcilePoint
  dsimp only
  rw [if_neg (not_not.mpr hknown), if_neg hfirst, if_neg hsecond]
  exact returns_pure

end Points

section Parents

variable {corpusId : String} {active known : List VersionKey} {w : World} {t : Unit}

@[simp] theorem ref_setRight (parent : ParentChunk) : (setRight active parent).ref = parent.ref := by
  unfold setRight
  split <;> rfl

@[simp] theorem parentId_setRight (parent : ParentChunk) : (setRight active parent).parentId = parent.parentId := by
  unfold setRight
  split <;> rfl

theorem visible_setRight (parent : ParentChunk) : (setRight active parent).Visible ↔ parent.ref.key ∈ active := by
  unfold setRight
  split
  · rename_i hactive
    exact iff_of_true ⟨rfl, rfl⟩ hactive
  · rename_i hinactive
    exact iff_of_false (fun h => by cases h.2) hinactive

@[simp] theorem ref_settle (refs : List VersionRef) (parent : ParentChunk) :
    (settle active refs parent).ref = parent.ref := by
  unfold settle
  split
  · exact ref_setRight parent
  · rfl

@[simp] theorem parentId_settle (refs : List VersionRef) (parent : ParentChunk) :
    (settle active refs parent).parentId = parent.parentId := by
  unfold settle
  split
  · exact parentId_setRight parent
  · rfl

/-- The version of a parent joins the drifted ones if the parent drifted. -/
theorem driftedRefs_concat (before : List ParentChunk) (parent : ParentChunk) :
    driftedRefs corpusId active known (before ++ [parent]) = driftedRefs corpusId active known before ++
      if parent.ref.doc.corpusId = corpusId ∧ parent.ref.key ∈ known ∧ Drifted active parent then [parent.ref]
      else [] := by
  unfold driftedRefs Listed
  rw [List.filter_append, List.map_append]
  congr 1
  split
  · rename_i h
    rw [List.filter_cons_of_pos (by simpa using h)]
    rfl
  · rename_i h
    rw [List.filter_cons_of_neg (by simpa using h)]
    rfl

/-- A parent that reads as its version does is left alone. -/
theorem syncParent_settled {ref : VersionRef} {stored : ParentChunk} (h : stored.Visible ↔ ref.key ∈ active) :
    syncParent corpusId active ref (some stored) = (pure [] : ManagerProgram (List Finding)) := by
  unfold syncParent
  unfold ParentChunk.Visible at h
  by_cases hactive : ref.key ∈ active
  · obtain ⟨hshown, hhidden⟩ := h.mpr hactive
    simp [hactive, hshown, hhidden]
  · have hnot := mt h.mp hactive
    simp only [Option.map_some, Option.some.injEq, Option.getD_some, hactive, false_and, if_false,
      not_false_eq_true, true_and]
    rw [if_neg]
    simpa using hnot

/-- The whole version of a parent that drifted is rewritten. -/
theorem syncParent_drifted {ref : VersionRef} {stored : ParentChunk} (h : ref.key ∈ active ↔ ¬stored.Visible) :
    syncParent corpusId active ref (some stored) = (do
      parents (if ref.key ∈ active then .activateDocument ref else .deprecateDocument ref)
      pure [versionFinding "stale_parent_status" corpusId ref.key] : ManagerProgram (List Finding)) := by
  unfold syncParent
  unfold ParentChunk.Visible at h
  by_cases hactive : ref.key ∈ active
  · have hnot := h.mp hactive
    have hstale : (!decide (stored.metadata.status = .active) || stored.metadata.deprecated) = true := by
      cases hstatus : decide (stored.metadata.status = .active) with
      | false => rfl
      | true => simpa [of_decide_eq_true hstatus] using hnot
    simp only [Option.map_some, Option.some.injEq, Option.getD_some, hactive, hstale, and_self, if_true]
  · obtain ⟨hshown, hhidden⟩ := not_not.mp (mt h.mpr hactive)
    simp [hactive, hshown, hhidden]

/-- Versions that are listed already make no difference. -/
theorem settle_listed {refs more : List VersionRef} (h : ∀ ref ∈ more, ref ∈ refs) (parent : ParentChunk) :
    settle active (refs ++ more) parent = settle active refs parent := by
  by_cases hlisted : parent.ref ∈ refs
  · simp [settle, hlisted]
  · have hmore : parent.ref ∉ more := fun hmem => hlisted (h _ hmem)
    simp [settle, hlisted, hmore]

/-- Rewriting a version settles it. -/
theorem settle_version {refs : List VersionRef} {ref : VersionRef} (hfresh : ref ∉ refs) (rows : List ParentChunk) :
    ParentOp.eval (if ref.key ∈ active then .activateDocument ref else .deprecateDocument ref)
      (rows.map (settle active refs)) = rows.map (settle active (refs ++ [ref])) := by
  have hrewrite : ∀ status deprecated, (∀ row, setRight active row = if row.ref = ref then
      ParentStore.setLifecycle status deprecated row else setRight active row) →
      Table.update (ParentStore.ofVersion ref) (ParentStore.setLifecycle status deprecated)
        (rows.map (settle active refs)) = rows.map (settle active (refs ++ [ref])) := by
    intro status deprecated hright
    unfold Table.update
    rw [List.map_map]
    apply List.map_congr_left
    intro row _
    by_cases hown : row.ref = ref
    · have hrow := hright row
      rw [if_pos hown] at hrow
      simp [settle, ParentStore.ofVersion, hown, hfresh, hrow]
    · by_cases hlisted : row.ref ∈ refs
      · simp [settle, ParentStore.ofVersion, hown, hlisted]
      · simp [settle, ParentStore.ofVersion, hown, hlisted]
  by_cases hactive : ref.key ∈ active
  · rw [if_pos hactive]
    apply hrewrite
    intro row
    split
    · rename_i hown
      rw [setRight, hown]
      exact if_pos hactive
    · rfl
  · rw [if_neg hactive]
    apply hrewrite
    intro row
    split
    · rename_i hown
      rw [setRight, hown]
      exact if_neg hactive
    · rfl

/-- The stores in the sweep over the parents, between those before and those to come. -/
def midway (corpusId : String) (active known : List VersionKey) (w : World) (before rest : List ParentChunk) : World :=
  { w with
    parents := (before.filter (fun parent => decide (Stays corpusId known parent)) ++ rest).map
      (settle active (driftedRefs corpusId active known before)) }

section Step

variable {before rest : List ParentChunk} {parent : ParentChunk}

/-- Repairs keep the ids of the parents apart. -/
theorem midway_keyUnique (hunique : Table.KeyUnique (·.parentId) (before ++ rest)) :
    Table.KeyUnique (·.parentId) (midway corpusId active known w before rest).parents := by
  have hids (rows : List ParentChunk) (refs : List VersionRef) :
      (rows.map (settle active refs)).map (·.parentId) = rows.map (·.parentId) := by
    rw [List.map_map]
    exact List.map_congr_left fun row _ => parentId_settle refs row
  unfold Table.KeyUnique midway at *
  rw [hids, List.map_append]
  rw [List.map_append] at hunique
  exact hunique.sublist (List.Sublist.append (List.filter_sublist.map _) (List.Sublist.refl _))

/-- The parent in its place between the others. -/
theorem midway_parents : (midway corpusId active known w before (parent :: rest)).parents =
    (before.filter fun parent => decide (Stays corpusId known parent)).map
        (settle active (driftedRefs corpusId active known before)) ++
      settle active (driftedRefs corpusId active known before) parent ::
        rest.map (settle active (driftedRefs corpusId active known before)) := by
  unfold midway
  rw [List.map_append, List.map_cons]

/-- The parent is found as the repairs so far have left it. -/
theorem midway_get (hunique : Table.KeyUnique (·.parentId) (before ++ parent :: rest)) :
    ParentStore.get (midway corpusId active known w before (parent :: rest)).parents parent.parentId =
      some (settle active (driftedRefs corpusId active known before) parent) := by
  have hkeys : Table.KeyUnique (·.parentId) (midway corpusId active known w before (parent :: rest)).parents :=
    midway_keyUnique hunique
  rw [midway_parents] at hkeys ⊢
  have hfound := hkeys.selectOne_middle
  rw [parentId_settle] at hfound
  exact hfound

/-- A parent of another corpus is passed over. -/
theorem midway_other (hother : parent.ref.doc.corpusId ≠ corpusId) :
    midway corpusId active known w (before ++ [parent]) rest =
      midway corpusId active known w before (parent :: rest) := by
  have hstays : Stays corpusId known parent := fun h => absurd h hother
  unfold midway
  rw [driftedRefs_concat, if_neg fun h => hother h.1, List.filter_append,
    List.filter_cons_of_pos (by simpa using hstays)]
  simp

/-- An orphan is deleted. -/
theorem midway_orphan (hunique : Table.KeyUnique (·.parentId) (before ++ parent :: rest))
    (hcorpus : parent.ref.doc.corpusId = corpusId) (hunknown : parent.ref.key ∉ known) :
    midway corpusId active known w (before ++ [parent]) rest =
      { midway corpusId active known w before (parent :: rest) with
        parents := ParentOp.eval (.delete parent.parentId)
          (midway corpusId active known w before (parent :: rest)).parents } := by
  have hstays : ¬Stays corpusId known parent := fun h => hunknown (h hcorpus)
  have hkeys : Table.KeyUnique (·.parentId) (midway corpusId active known w before (parent :: rest)).parents :=
    midway_keyUnique hunique
  rw [midway_parents] at hkeys
  have hdelete := hkeys.delete_middle
  rw [parentId_settle, ← midway_parents] at hdelete
  have hrows : ParentStore.delete parent.parentId (midway corpusId active known w before (parent :: rest)).parents =
      (before.filter (fun parent => decide (Stays corpusId known parent)) ++ rest).map
        (settle active (driftedRefs corpusId active known before)) := by
    rw [List.map_append]
    exact hdelete
  have hnext : midway corpusId active known w (before ++ [parent]) rest =
      { w with
        parents := (before.filter (fun parent => decide (Stays corpusId known parent)) ++ rest).map
          (settle active (driftedRefs corpusId active known before)) } := by
    unfold midway
    rw [driftedRefs_concat, if_neg fun h => hunknown h.2.1, List.filter_append,
      List.filter_cons_of_neg (by simpa using hstays)]
    simp only [List.filter_nil, List.append_nil]
  rw [hnext]
  exact congrArg (fun rows => { w with parents := rows }) hrows.symm

/-- A parent that stays stays in its place; what it adds to the drifted versions is repaired in the
whole table. -/
theorem midway_stays (hknown : parent.ref.key ∈ known) :
    midway corpusId active known w (before ++ [parent]) rest =
      { w with
        parents := (before.filter (fun parent => decide (Stays corpusId known parent)) ++ parent :: rest).map
          (settle active (driftedRefs corpusId active known (before ++ [parent]))) } := by
  have hstays : Stays corpusId known parent := fun _ => hknown
  unfold midway
  rw [List.filter_append, List.filter_cons_of_pos (by simpa using hstays), List.filter_nil, List.append_assoc,
    List.singleton_append]

/-- A parent of a known version: it is settled already, or its version is set right as a whole, or it
has not drifted. -/
theorem returns_knownParent (hunique : Table.KeyUnique (·.parentId) (before ++ parent :: rest))
    (hcorpus : parent.ref.doc.corpusId = corpusId) (hknown : parent.ref.key ∈ known) :
    ∃ found, Returns StoreOp.eval
      (syncParent corpusId active parent.ref
        (ParentStore.get (midway corpusId active known w before (parent :: rest)).parents parent.parentId)) t
      (midway corpusId active known w before (parent :: rest)) found t
      (midway corpusId active known w (before ++ [parent]) rest) := by
  rw [midway_get hunique, midway_stays hknown]
  by_cases hlisted : parent.ref ∈ driftedRefs corpusId active known before
  · have hvisible : (settle active (driftedRefs corpusId active known before) parent).Visible ↔
        parent.ref.key ∈ active := by
      rw [settle, if_pos hlisted]
      exact visible_setRight parent
    have hmore : ∀ ref ∈ (if parent.ref.doc.corpusId = corpusId ∧ parent.ref.key ∈ known ∧
        Drifted active parent then [parent.ref] else []), ref ∈ driftedRefs corpusId active known before := by
      intro ref href
      split at href
      · rwa [List.mem_singleton.mp href]
      · cases href
    refine ⟨[], ?_⟩
    rw [syncParent_settled hvisible, driftedRefs_concat, List.map_congr_left fun row _ => settle_listed hmore row]
    exact returns_pure
  · have hsettle : settle active (driftedRefs corpusId active known before) parent = parent := if_neg hlisted
    rw [hsettle, driftedRefs_concat]
    by_cases hdrifted : Drifted active parent
    · refine ⟨[versionFinding "stale_parent_status" corpusId parent.ref.key], ?_⟩
      rw [if_pos ⟨hcorpus, hknown, hdrifted⟩, ← settle_version hlisted, syncParent_drifted hdrifted]
      exact (returns_parents _).bind returns_pure
    · have hright : parent.Visible ↔ parent.ref.key ∈ active := by
        unfold Drifted at hdrifted
        tauto
      refine ⟨[], ?_⟩
      rw [syncParent_settled hright, if_neg fun h => hdrifted h.2.2, List.append_nil]
      exact returns_pure

/-- One parent: an orphan goes, and a version with a parent that drifted is set right. -/
theorem returns_reconcileParent (hunique : Table.KeyUnique (·.parentId) (before ++ parent :: rest)) :
    ∃ found, Returns StoreOp.eval (reconcileParent corpusId active known parent) t
      (midway corpusId active known w before (parent :: rest)) found t
      (midway corpusId active known w (before ++ [parent]) rest) := by
  unfold reconcileParent
  split
  · rename_i hother
    rw [midway_other hother]
    exact ⟨[], returns_pure⟩
  rename_i hcorpus
  have hcorpus := not_not.mp hcorpus
  split
  · rename_i hunknown
    rw [midway_orphan hunique hcorpus hunknown]
    exact ⟨_, (returns_parents _).bind returns_pure⟩
  · rename_i hknown
    obtain ⟨found, hsync⟩ := returns_knownParent hunique hcorpus (not_not.mp hknown)
    exact ⟨found, returns_read_bind hsync⟩

end Step

/-- The parents are repaired as one table. -/
theorem returns_allParents (hunique : Table.KeyUnique (·.parentId) w.parents) :
    ∃ found, Returns StoreOp.eval (collect w.parents (reconcileParent corpusId active known)) t w found t
      { w with parents := repairParents corpusId active known w.parents } := by
  have hstart : midway corpusId active known w [] w.parents = w := by
    have hrows : w.parents.map (settle active (driftedRefs corpusId active known [])) = w.parents := by
      conv_rhs => rw [← List.map_id w.parents]
      exact List.map_congr_left fun row _ => by simp [settle, driftedRefs]
    unfold midway
    rw [List.filter_nil, List.nil_append, hrows]
  have hstep : ∀ parent rest s, (∃ before, w.parents = before ++ parent :: rest ∧
        s = midway corpusId active known w before (parent :: rest)) → ∃ found s',
      Returns StoreOp.eval (reconcileParent corpusId active known parent) t s found t s' ∧
        ∃ before, w.parents = before ++ rest ∧ s' = midway corpusId active known w before rest := by
    rintro parent rest s ⟨before, hsplit, rfl⟩
    obtain ⟨found, hrun⟩ := @returns_reconcileParent corpusId active known w t before rest parent (hsplit ▸ hunique)
    exact ⟨found, _, hrun, before ++ [parent], by rw [hsplit, List.append_assoc, List.singleton_append], rfl⟩
  obtain ⟨found, s', hrun, before, hsplit, rfl⟩ := returns_collect
    (J := fun rest s => ∃ before, w.parents = before ++ rest ∧ s = midway corpusId active known w before rest)
    hstep ⟨[], rfl, hstart.symm⟩
  refine ⟨found, ?_⟩
  rw [List.append_nil] at hsplit
  rw [← hsplit] at hrun
  unfold midway at hrun
  rwa [List.append_nil] at hrun

end Parents

section Sweep

variable {name corpusId : String} {active known deleted : List VersionKey} {w : World} {t : Unit} {svc : Services}

theorem mem_parentsOf {parents : ParentStore} {parent : ParentChunk} :
    parent ∈ parentsOf corpusId parents ↔ parent ∈ parents ∧ parent.ref.doc.corpusId = corpusId := by
  simp [parentsOf]

namespace Complete

variable {points : List Point} {parents : ParentStore}

theorem present (h : Complete corpusId active deleted points (parentsOf corpusId parents)) :
    ∀ key ∈ active, key ∈ points.map (·.payload.ref.key) := by
  intro key hkey
  obtain ⟨point, hpoint, rfl⟩ := h.hasPoints key hkey
  exact List.mem_map_of_mem hpoint

theorem stored (h : Complete corpusId active deleted points (parentsOf corpusId parents)) :
    ∀ key ∈ active, ∃ parent ∈ parents, parent.ref = key.within corpusId := by
  intro key hkey
  obtain ⟨parent, hparent, href⟩ := h.hasParents key hkey
  exact ⟨parent, (mem_parentsOf.mp hparent).1, href⟩

theorem gone (h : Complete corpusId active deleted points (parentsOf corpusId parents)) :
    ∀ key ∈ deleted, ∀ parent ∈ parents, parent.ref ≠ key.within corpusId := by
  intro key hkey parent hparent href
  exact h.noParents key hkey parent (mem_parentsOf.mpr ⟨hparent, by rw [href]; rfl⟩) href

end Complete

/-- Versions with points and parents are not rebuilt. -/
theorem returns_active {present : List VersionKey} (hpresent : ∀ key ∈ active, key ∈ present)
    (hparents : ∀ key ∈ active, ∃ parent ∈ w.parents, parent.ref = key.within corpusId) :
    Returns StoreOp.eval (collect (sortedKeys active) (reconcileActive svc corpusId present)) t w [] t w := by
  apply returns_collect_nil
  intro key hkey
  have hactive := mem_sortedKeys.mp hkey
  obtain ⟨parent, hparent, href⟩ := hparents key hactive
  have hlisted : w.parents.listParentIds (key.within corpusId) ≠ [] := by
    apply List.ne_nil_of_mem (a := parent.parentId)
    exact List.mem_map_of_mem (Table.mem_select.mpr ⟨hparent, decide_eq_true href⟩)
  unfold reconcileActive reconcileParents
  rw [if_neg (not_not.mpr (hpresent key hactive))]
  refine returns_read_bind ?_
  rw [if_neg hlisted]
  exact returns_pure

/-- Deleted versions of which nothing lingers are not purged. -/
theorem returns_deleted
    (hpoints : ∀ key ∈ deleted, ∀ point ∈ (w.vectors name).getD [], point.payload.ref ≠ key.within corpusId)
    (hparents : ∀ key ∈ deleted, ∀ parent ∈ w.parents, parent.ref ≠ key.within corpusId) :
    Returns StoreOp.eval (collect (sortedKeys deleted) (reconcileDeleted name corpusId)) t w [] t w := by
  apply returns_collect_nil
  intro key hkey
  have hdeleted := mem_sortedKeys.mp hkey
  have hnone : w.parents.listParentIds (key.within corpusId) = [] := by
    unfold ParentStore.listParentIds Table.select
    rw [List.filter_eq_nil_iff.mpr]
    · rfl
    · intro parent hparent
      simpa [ParentStore.ofVersion] using hparents key hdeleted parent hparent
  have hlingering : Returns StoreOp.eval (lingeringPointIds name (key.within corpusId)) t w [] t w := by
    refine returns_read_bind ?_
    cases hcollection : w.vectors name with
    | none => exact returns_pure
    | some points =>
      rw [Option.isSome_some, if_pos rfl]
      apply returns_tryRead
      have hfilter : points.filter (fun point => decide (point.payload.ref = key.within corpusId)) = [] := by
        apply List.filter_eq_nil_iff.mpr
        intro point hpoint
        have hother := hpoints key hdeleted point (by rw [hcollection]; exact hpoint)
        simpa using hother
      simp only [VectorStore.listPointIdsByDocument, VectorStore.scrollAll, hcollection, Except.map, hfilter,
        List.map_nil]
  unfold reconcileDeleted
  refine hlingering.bind (returns_read_bind ?_)
  rw [hnone, if_neg (by simp)]
  exact returns_pure

theorem repairVectors_name (vectors : VectorStore) :
    repairVectors name active known vectors name =
      (vectors name).map (List.filterMap (repairPoint active known)) := by
  unfold repairVectors
  cases hcollection : vectors name with
  | none => simp [hcollection]
  | some points => simp

theorem repairVectors_of_ne {other : String} (h : other ≠ name) (vectors : VectorStore) :
    repairVectors name active known vectors other = vectors other := by
  unfold repairVectors
  cases vectors name with
  | none => rfl
  | some points => exact Function.update_of_ne h ..

/-- The collection is scanned and its points are repaired. -/
theorem returns_scanned (hdistinct : w.Distinct) :
    Returns StoreOp.eval (scanCollection name) t w ((w.vectors name).getD []) t w ∧
      ∃ found, Returns StoreOp.eval (collect ((w.vectors name).getD []) (reconcilePoint name corpusId active known))
        t w found t { w with vectors := repairVectors name active known w.vectors } := by
  unfold scanCollection repairVectors
  cases hcollection : w.vectors name with
  | none =>
    refine ⟨returns_read_bind ?_, [], returns_pure⟩
    rw [hcollection]
    exact returns_pure
  | some points =>
    refine ⟨returns_read_bind ?_, returns_points (hdistinct.points name points hcollection) hcollection⟩
    rw [hcollection, Option.isSome_some, if_pos rfl]
    exact returns_tryRead (by rw [VectorStore.scrollAll, hcollection]; rfl)

/-- The points that stay are repaired ones. -/
theorem mem_repaired {points : List Point} {kept : Point} (h : kept ∈ points.filterMap (repairPoint active known)) :
    ∃ point ∈ points, kept.payload.ref = point.payload.ref ∧ point.payload.ref.key ∈ known ∧
      (kept.payload.status = .active ↔ kept.payload.ref.key ∈ active) := by
  obtain ⟨point, hpoint, hkept⟩ := List.mem_filterMap.mp h
  obtain ⟨-, href, hknown, hstatus⟩ := repairPoint_some hkept
  exact ⟨point, hpoint, href, hknown, hstatus⟩

theorem getD_repairVectors (vectors : VectorStore) :
    (repairVectors name active known vectors name).getD [] =
      ((vectors name).getD []).filterMap (repairPoint active known) := by
  rw [repairVectors_name]
  cases vectors name <;> rfl

/-- A sweep of a corpus that is complete repairs its points and parents. -/
theorem returns_sweep (hdistinct : w.Distinct)
    (hcomplete : Complete corpusId active deleted ((w.vectors name).getD []) (parentsOf corpusId w.parents)) :
    ∃ found, Returns StoreOp.eval (sweep svc name corpusId active known deleted) t w found t
      { w with
        vectors := repairVectors name active known w.vectors
        parents := repairParents corpusId active known w.parents } := by
  obtain ⟨hscan, stale, hpoints⟩ := @returns_scanned name corpusId active known w t hdistinct
  let w₁ : World := { w with vectors := repairVectors name active known w.vectors }
  have hnoPoints : ∀ key ∈ deleted, ∀ point ∈ (w₁.vectors name).getD [],
      point.payload.ref ≠ key.within corpusId := by
    intro key hkey point hpoint
    rw [getD_repairVectors] at hpoint
    obtain ⟨old, hold, href, -⟩ := mem_repaired hpoint
    rw [href]
    exact hcomplete.noPoints key hkey old hold
  have hmissing := @returns_active corpusId active w₁ t svc _ hcomplete.present hcomplete.stored
  have hlingering := @returns_deleted name corpusId deleted w₁ t hnoPoints hcomplete.gone
  obtain ⟨orphans, hrows⟩ := @returns_allParents corpusId active known w₁ t hdistinct.parents
  exact ⟨_, hscan.bind (hpoints.bind (hmissing.bind (hlingering.bind (returns_read_bind
    (hrows.bind returns_pure)))))⟩

/-- A sweep of a corpus that is complete and in sync finds nothing. -/
theorem returns_sweep_synced (hdistinct : w.Distinct)
    (hcomplete : Complete corpusId active deleted ((w.vectors name).getD []) (parentsOf corpusId w.parents))
    (hsynced : Synced active known ((w.vectors name).getD []) (parentsOf corpusId w.parents)) :
    Returns StoreOp.eval (sweep svc name corpusId active known deleted) t w [] t w := by
  obtain ⟨hscan, -⟩ := @returns_scanned name corpusId active known w t hdistinct
  have hpoints := @returns_points_settled name corpusId active known w t _ hsynced.onPoints
  have hmissing := @returns_active corpusId active w t svc _ hcomplete.present hcomplete.stored
  have hlingering := @returns_deleted name corpusId deleted w t hcomplete.noPoints hcomplete.gone
  have hrows : Returns StoreOp.eval (collect w.parents (reconcileParent corpusId active known)) t w [] t w := by
    apply returns_collect_nil
    intro parent hparent
    unfold reconcileParent
    split
    · exact returns_pure
    · rename_i hcorpus
      obtain ⟨hknown, hvisible⟩ := hsynced.onParents parent (mem_parentsOf.mpr ⟨hparent, not_not.mp hcorpus⟩)
      rw [if_neg (not_not.mpr hknown)]
      refine returns_read_bind ?_
      have hstored : w.parents.get parent.parentId = some parent := Table.selectOne_of_key hdistinct.parents hparent
      rw [hstored, syncParent_settled hvisible]
      exact returns_pure
  exact hscan.bind (hpoints.bind (hmissing.bind (hlingering.bind (returns_read_bind (hrows.bind returns_pure)))))

end Sweep

section Repairs

variable {corpusId : String} {active known deleted : List VersionKey} {points : List Point} {parents : ParentStore}

theorem mem_driftedRefs {ref : VersionRef} (h : ref ∈ driftedRefs corpusId active known parents) :
    ref.doc.corpusId = corpusId := by
  obtain ⟨parent, hparent, rfl⟩ := List.mem_map.mp h
  have hcorpus := (List.mem_filter.mp hparent).2
  simp only [decide_eq_true_eq] at hcorpus
  exact hcorpus.1

/-- The parents of a corpus are settled where they are. -/
theorem parentsOf_settled (other : String) (refs : List VersionRef) (rows : List ParentChunk) :
    parentsOf other (rows.map (settle active refs)) = (parentsOf other rows).map (settle active refs) := by
  have hcolumn : ((fun parent : ParentChunk => decide (parent.ref.doc.corpusId = other)) ∘ settle active refs) =
      fun parent : ParentChunk => decide (parent.ref.doc.corpusId = other) := by
    funext parent
    rw [Function.comp_apply, ref_settle]
  unfold parentsOf
  rw [List.filter_map, hcolumn]

/-- What the sweep does to the parents of its corpus depends on these only. -/
theorem parentsOf_repairParents : parentsOf corpusId (repairParents corpusId active known parents) =
    repairParents corpusId active known (parentsOf corpusId parents) := by
  have hrefs : driftedRefs corpusId active known (parentsOf corpusId parents) =
      driftedRefs corpusId active known parents := by
    unfold driftedRefs parentsOf Listed
    rw [List.filter_filter]
    refine congrArg (List.map _) (List.filter_congr fun parent _ => ?_)
    by_cases hcorpus : parent.ref.doc.corpusId = corpusId
    · simp [hcorpus]
    · simp [hcorpus]
  unfold repairParents
  rw [hrefs, parentsOf_settled]
  unfold parentsOf
  rw [List.filter_filter, List.filter_filter]
  exact congrArg (List.map _) (List.filter_congr fun parent _ => Bool.and_comm _ _)

/-- The sweep leaves the parents of other corpora alone. -/
theorem parentsOf_repairParents_of_ne {other : String} (h : other ≠ corpusId) :
    parentsOf other (repairParents corpusId active known parents) = parentsOf other parents := by
  have hstays : parentsOf other (parents.filter fun parent => decide (Stays corpusId known parent)) =
      parentsOf other parents := by
    unfold parentsOf
    rw [List.filter_filter]
    refine List.filter_congr fun parent _ => ?_
    by_cases hother : parent.ref.doc.corpusId = other
    · simp [Stays, hother, h]
    · simp [hother]
  unfold repairParents
  rw [parentsOf_settled, hstays]
  conv_rhs => rw [← List.map_id (parentsOf other parents)]
  refine List.map_congr_left fun parent hparent => if_neg fun hlisted => h ?_
  rw [← (mem_parentsOf.mp hparent).2]
  exact mem_driftedRefs hlisted

/-- A version with a drifted parent is listed. -/
theorem ref_mem_driftedRefs {parent : ParentChunk} (hparent : parent ∈ parentsOf corpusId parents)
    (hknown : parent.ref.key ∈ known) (hdrifted : Drifted active parent) :
    parent.ref ∈ driftedRefs corpusId active known (parentsOf corpusId parents) := by
  have hcorpus := (mem_parentsOf.mp hparent).2
  exact List.mem_map_of_mem (List.mem_filter.mpr ⟨hparent, decide_eq_true ⟨hcorpus, hknown, hdrifted⟩⟩)

/-- The repaired points and parents are in sync. -/
theorem synced_repaired : Synced active known (points.filterMap (repairPoint active known))
    (repairParents corpusId active known (parentsOf corpusId parents)) := by
  constructor
  · intro kept hkept
    obtain ⟨point, -, href, hknown, hstatus⟩ := mem_repaired hkept
    exact ⟨by rwa [href], hstatus⟩
  · intro kept hkept
    obtain ⟨parent, hparent, rfl⟩ := List.mem_map.mp hkept
    obtain ⟨hmem, hstays⟩ := List.mem_filter.mp hparent
    have hknown : parent.ref.key ∈ known := of_decide_eq_true hstays (mem_parentsOf.mp hmem).2
    rw [ref_settle]
    refine ⟨hknown, ?_⟩
    by_cases hlisted : parent.ref ∈ driftedRefs corpusId active known (parentsOf corpusId parents)
    · rw [settle, if_pos hlisted]
      exact visible_setRight parent
    · have hright : ¬Drifted active parent := fun h => hlisted (ref_mem_driftedRefs hmem hknown h)
      rw [settle, if_neg hlisted]
      unfold Drifted at hright
      tauto

/-- Repairs leave a complete corpus complete. -/
theorem Complete.repaired (h : Complete corpusId active deleted points (parentsOf corpusId parents))
    (hknown : ∀ key ∈ active, key ∈ known) :
    Complete corpusId active deleted (points.filterMap (repairPoint active known))
      (repairParents corpusId active known (parentsOf corpusId parents)) := by
  constructor
  · intro key hkey
    obtain ⟨point, hpoint, rfl⟩ := h.hasPoints key hkey
    obtain ⟨kept, hkept⟩ := @repairPoint_known active known point (hknown _ hkey)
    exact ⟨kept, List.mem_filterMap.mpr ⟨point, hpoint, hkept⟩, by rw [(repairPoint_some hkept).2.1]⟩
  · intro key hkey
    obtain ⟨parent, hparent, href⟩ := h.hasParents key hkey
    refine ⟨_, List.mem_map_of_mem (List.mem_filter.mpr ⟨hparent, decide_eq_true fun _ => ?_⟩), by rw [ref_settle, href]⟩
    rw [href]
    exact hknown key hkey
  · intro key hkey kept hkept
    obtain ⟨point, hpoint, href, -⟩ := mem_repaired hkept
    rw [href]
    exact h.noPoints key hkey point hpoint
  · intro key hkey kept hkept
    obtain ⟨parent, hparent, rfl⟩ := List.mem_map.mp hkept
    rw [ref_settle]
    exact h.noParents key hkey parent (List.mem_filter.mp hparent).1

end Repairs

section Reconcile

variable {corpusId : String} {w : World} {t : Unit} {svc : Services}

@[simp] theorem metadata_realigned : (w.realigned corpusId).metadata = w.metadata := by
  unfold World.realigned
  split <;> rfl

@[simp] theorem vectors_realigned : (w.realigned corpusId).vectors = w.vectors := by
  unfold World.realigned
  split <;> rfl

@[simp] theorem parents_realigned : (w.realigned corpusId).parents = w.parents := by
  unfold World.realigned
  split <;> rfl

@[simp] theorem findings_realigned : (w.realigned corpusId).findings = w.findings := by
  unfold World.realigned
  split <;> rfl

theorem realigned_of_aligned (h : w.Aligned corpusId) : w.realigned corpusId = w := by
  unfold World.realigned
  split
  · rename_i hdiffers
    have hpointers : flipPointer corpusId (w.persistedCollection corpusId) w.pointers = w.pointers := by
      rw [flipPointer, h.resolve_right hdiffers]
    rw [hpointers]
  · rfl

/-- Once realigned, a pointer stays where it is. -/
theorem aligned_realigned : (w.realigned corpusId).Aligned corpusId := by
  unfold World.realigned
  split
  · cases hpointer : w.pointers corpusId with
    | none =>
      left
      simp [flipPointer, hpointer]
    | some name =>
      right
      exact (resolveCollectionName_flipPointer (by rw [hpointer]; rfl)).trans (effectiveCollection_again corpusId _)
  · rename_i hsame
    exact Or.inr (not_not.mp hsame)

theorem returns_realignPointer : ∃ found, Returns StoreOp.eval (realignPointer corpusId) t w found t
    (w.realigned corpusId) ∧ ∀ finding ∈ found, finding.kind = "registry_mismatch" := by
  unfold World.realigned
  split
  · rename_i hdiffers
    refine ⟨[corpusFinding "registry_mismatch" corpusId], returns_read_bind (returns_read_bind ?_), ?_⟩
    · unfold World.persistedCollection at hdiffers
      rw [if_pos hdiffers]
      exact (returns_perform rfl).bind returns_pure
    · intro finding hfinding
      rw [List.mem_singleton.mp hfinding]
      rfl
  · rename_i hsame
    refine ⟨[], returns_read_bind (returns_read_bind ?_), fun finding hfinding => by cases hfinding⟩
    unfold World.persistedCollection at hsame
    rw [if_neg hsame]
    exact returns_pure

theorem returns_recordFindings (found : List Finding) :
    Returns StoreOp.eval (forEach found recordFinding) t w () t { w with findings := w.findings ++ found } := by
  induction found generalizing w with
  | nil =>
    rw [List.append_nil]
    exact returns_pure
  | cons finding found ih =>
    have hrest := @ih { w with findings := w.findings ++ [finding] }
    rw [List.append_assoc, List.singleton_append] at hrest
    have hfirst : Returns StoreOp.eval (recordFinding finding : ManagerProgram Unit) t w () t
        { w with findings := w.findings ++ [finding] } := returns_perform rfl
    exact hfirst.bind hrest

/-- A reconciler run of a complete corpus is the sweep of its stores. -/
theorem returns_reconcile (hdistinct : w.Distinct) (hwhole : w.Whole corpusId) :
    ∃ found, Returns StoreOp.eval (reconcile svc corpusId) t w () t
      { w.swept corpusId with findings := w.findings ++ found } := by
  obtain ⟨mismatch, hrealign, -⟩ := @returns_realignPointer corpusId w t
  have hdistinct' : (w.realigned corpusId).Distinct := by
    constructor
    · rw [vectors_realigned]
      exact hdistinct.points
    · rw [parents_realigned]
      exact hdistinct.parents
  have hcomplete : Complete corpusId (w.activeKeys corpusId) (w.deletedKeys corpusId)
      (((w.realigned corpusId).vectors (w.sweptCollection corpusId)).getD [])
      (parentsOf corpusId (w.realigned corpusId).parents) := by
    rw [vectors_realigned, parents_realigned]
    exact hwhole
  obtain ⟨found, hsweep⟩ := @returns_sweep (w.sweptCollection corpusId) corpusId (w.activeKeys corpusId)
    (w.knownKeys corpusId) (w.deletedKeys corpusId) (w.realigned corpusId) t svc hdistinct' hcomplete
  refine ⟨mismatch ++ found ++ (w.metadata.iterFailedJobIds corpusId).map
    fun _ => corpusFinding "dead_letter_orphan" corpusId, ?_⟩
  unfold reconcile
  refine hrealign.bind (returns_read_bind (returns_read_bind (returns_read_bind (returns_read_bind ?_))))
  rw [metadata_realigned]
  refine hsweep.bind (returns_read_bind ?_)
  have hrecord := @returns_recordFindings (w.swept corpusId) t (mismatch ++ found ++
    (w.metadata.iterFailedJobIds corpusId).map fun _ => corpusFinding "dead_letter_orphan" corpusId)
  unfold World.swept at hrecord ⊢
  simp only [metadata_realigned, vectors_realigned, parents_realigned, findings_realigned] at hrecord ⊢
  exact hrecord

/-- The kinds of findings that a sweep does not repair. -/
def Unrepairable (finding : Finding) : Prop :=
  finding.kind = "registry_mismatch" ∨ finding.kind = "dead_letter_orphan"

/-- A reconciler run of a corpus in sync writes findings only. -/
theorem returns_reconcile_synced (hdistinct : w.Distinct) (haligned : w.Aligned corpusId)
    (hwhole : w.Whole corpusId) (hsynced : w.InSync corpusId) :
    ∃ found, Returns StoreOp.eval (reconcile svc corpusId) t w () t { w with findings := w.findings ++ found } ∧
      ∀ finding ∈ found, Unrepairable finding := by
  obtain ⟨mismatch, hrealign, hkind⟩ := @returns_realignPointer corpusId w t
  have hsame := realigned_of_aligned haligned
  have hname : w.sweptCollection corpusId = w.resolveCollectionName corpusId := by
    unfold World.sweptCollection
    rw [hsame]
  unfold World.Whole at hwhole
  unfold World.InSync at hsynced
  unfold World.sweptPoints at hwhole hsynced
  rw [hname] at hwhole hsynced
  rw [hsame] at hrealign
  have hsweep := @returns_sweep_synced (w.resolveCollectionName corpusId) corpusId (w.activeKeys corpusId)
    (w.knownKeys corpusId) (w.deletedKeys corpusId) w t svc hdistinct hwhole hsynced
  refine ⟨mismatch ++ [] ++ (w.metadata.iterFailedJobIds corpusId).map
    fun _ => corpusFinding "dead_letter_orphan" corpusId, ?_, ?_⟩
  · unfold reconcile
    refine hrealign.bind (returns_read_bind (returns_read_bind (returns_read_bind (returns_read_bind ?_))))
    exact hsweep.bind (returns_read_bind (returns_recordFindings _))
  · intro finding hfinding
    rw [List.append_nil] at hfinding
    rcases List.mem_append.mp hfinding with hfinding | hfinding
    · exact Or.inl (hkind finding hfinding)
    · obtain ⟨-, -, rfl⟩ := List.mem_map.mp hfinding
      exact Or.inr rfl

end Reconcile

section Corpora

variable {corpusId : String} {corpusIds rest : List String} {w s s' : World} {t : Unit} {svc : Services}
  {leased : String → Bool}

theorem isSome_realigned (other : String) :
    ((w.realigned corpusId).pointers other).isSome = (w.pointers other).isSome := by
  unfold World.realigned
  split
  · unfold flipPointer
    cases hpointer : w.pointers corpusId with
    | none => rfl
    | some name =>
      by_cases hother : other = corpusId
      · subst hother
        simp [hpointer]
      · simp [hother]
  · rfl

theorem pointers_realigned_of_ne {other : String} (h : other ≠ corpusId) :
    (w.realigned corpusId).pointers other = w.pointers other := by
  unfold World.realigned
  split
  · unfold flipPointer
    cases w.pointers corpusId with
    | none => rfl
    | some name => exact Function.update_of_ne h ..
  · rfl

/-- A sweep scans the collection that the metadata name, or that of the corpus id. -/
theorem sweptCollection_eq (w : World) (corpusId : String) : w.sweptCollection corpusId =
    if (w.pointers corpusId).isSome then w.persistedCollection corpusId else corpusId := by
  have hsome := @isSome_realigned corpusId w corpusId
  unfold World.sweptCollection
  cases hpointer : w.pointers corpusId with
  | none =>
    rw [realigned_of_aligned (Or.inl hpointer), World.resolveCollectionName, hpointer]
    rfl
  | some name =>
    rw [hpointer] at hsome
    rcases @aligned_realigned corpusId w with hnone | hresolve
    · rw [hnone] at hsome
      cases hsome
    · rw [hresolve, Option.isSome_some, if_pos rfl]
      unfold World.persistedCollection
      rw [metadata_realigned]

theorem sweptCollection_congr (hmetadata : s.metadata = w.metadata)
    (hpointer : (s.pointers corpusId).isSome = (w.pointers corpusId).isSome) :
    s.sweptCollection corpusId = w.sweptCollection corpusId := by
  rw [sweptCollection_eq, sweptCollection_eq, hpointer]
  unfold World.persistedCollection
  rw [hmetadata]

theorem Aligned.congr (hmetadata : s.metadata = w.metadata) (hpointer : s.pointers corpusId = w.pointers corpusId)
    (h : w.Aligned corpusId) : s.Aligned corpusId := by
  unfold World.Aligned World.resolveCollectionName World.persistedCollection at h ⊢
  rwa [hmetadata, hpointer]

/-- What sweeps of the listed corpora make of the stores: in their collections and among their
parents everything is repaired, and everything else is as it was. -/
structure Sweeps (corpusIds : List String) (w s : World) : Prop where
  metadata : s.metadata = w.metadata
  distinct : w.Distinct → s.Distinct
  names : ∀ corpusId, s.sweptCollection corpusId = w.sweptCollection corpusId
  aligned : ∀ corpusId ∈ corpusIds, s.Aligned corpusId
  pointers : ∀ corpusId, corpusId ∉ corpusIds → s.pointers corpusId = w.pointers corpusId
  swept : ∀ corpusId ∈ corpusIds, s.vectors (w.sweptCollection corpusId) =
    (w.vectors (w.sweptCollection corpusId)).map
      (List.filterMap (repairPoint (w.activeKeys corpusId) (w.knownKeys corpusId)))
  vectors : ∀ name, name ∉ corpusIds.map w.sweptCollection → s.vectors name = w.vectors name
  parents : ∀ corpusId, parentsOf corpusId s.parents =
    if corpusId ∈ corpusIds then
      repairParents corpusId (w.activeKeys corpusId) (w.knownKeys corpusId) (parentsOf corpusId w.parents)
    else parentsOf corpusId w.parents

theorem Sweeps.none : Sweeps [] w w where
  metadata := rfl
  distinct h := h
  names _ := rfl
  aligned _ h := by cases h
  pointers _ _ := rfl
  swept _ h := by cases h
  vectors _ _ := rfl
  parents _ := rfl

theorem Distinct.swept (h : w.Distinct) : (w.swept corpusId).Distinct := by
  constructor
  · intro name points hpoints
    change repairVectors _ _ _ w.vectors name = some points at hpoints
    by_cases hname : name = w.sweptCollection corpusId
    · subst hname
      rw [repairVectors_name] at hpoints
      obtain ⟨old, hold, rfl⟩ := Option.map_eq_some_iff.mp hpoints
      exact (h.points _ old hold).filterMap fun point kept hkept => (repairPoint_some hkept).1
    · rw [repairVectors_of_ne hname] at hpoints
      exact h.points name points hpoints
  · change Table.KeyUnique _ (repairParents _ _ _ w.parents)
    unfold repairParents Table.KeyUnique
    rw [List.map_map]
    have hid : ((·.parentId) ∘ settle (w.activeKeys corpusId) (driftedRefs corpusId (w.activeKeys corpusId)
        (w.knownKeys corpusId) w.parents)) = fun parent : ParentChunk => parent.parentId := by
      funext parent
      exact parentId_settle _ parent
    rw [hid]
    exact List.Nodup.sublist (List.filter_sublist.map _) h.parents

/-- A sweep of one corpus. -/
theorem Sweeps.one (found : List Finding) :
    Sweeps [corpusId] w { w.swept corpusId with findings := w.findings ++ found } where
  metadata := metadata_realigned
  distinct h := ⟨(Distinct.swept h).points, (Distinct.swept h).parents⟩
  names other := sweptCollection_congr metadata_realigned (isSome_realigned other)
  aligned other hother := by
    rw [List.mem_singleton.mp hother]
    exact Aligned.congr (w := w.realigned corpusId) rfl rfl aligned_realigned
  pointers other hother := pointers_realigned_of_ne (by simpa using hother)
  swept other hother := by
    rw [List.mem_singleton.mp hother]
    exact repairVectors_name w.vectors
  vectors name hname := repairVectors_of_ne (by simpa using hname) w.vectors
  parents other := by
    by_cases hother : other = corpusId
    · subst hother
      rw [if_pos List.mem_cons_self]
      exact parentsOf_repairParents
    · rw [if_neg (by simpa using hother)]
      exact parentsOf_repairParents_of_ne hother

/-- Sweeps of corpora with different collections do not meet. -/
theorem Sweeps.cons (hfirst : Sweeps [corpusId] w s) (hrest : Sweeps rest s s') (hfresh : corpusId ∉ rest)
    (hname : w.sweptCollection corpusId ∉ rest.map w.sweptCollection) : Sweeps (corpusId :: rest) w s' := by
  have hnames : rest.map s.sweptCollection = rest.map w.sweptCollection :=
    List.map_congr_left fun other _ => hfirst.names other
  have hother : ∀ other ∈ rest, other ∉ [corpusId] := by
    intro other hmem hsame
    exact hfresh (List.mem_singleton.mp hsame ▸ hmem)
  constructor
  · rw [hrest.metadata, hfirst.metadata]
  · exact fun h => hrest.distinct (hfirst.distinct h)
  · intro other
    rw [hrest.names, hfirst.names]
  · intro other hmem
    rcases List.mem_cons.mp hmem with rfl | hmem
    · exact Aligned.congr hrest.metadata (hrest.pointers other hfresh) (hfirst.aligned other List.mem_cons_self)
    · exact hrest.aligned other hmem
  · intro other hmem
    rw [List.mem_cons, not_or] at hmem
    rw [hrest.pointers other hmem.2, hfirst.pointers other (by simpa using hmem.1)]
  · intro other hmem
    rcases List.mem_cons.mp hmem with rfl | hmem
    · rw [hrest.vectors _ (by rwa [hnames]), hfirst.swept other List.mem_cons_self]
    · have hapart : w.sweptCollection other ∉ [corpusId].map w.sweptCollection := by
        intro hsame
        apply hname
        rw [← List.mem_singleton.mp hsame]
        exact List.mem_map_of_mem hmem
      have hswept := hrest.swept other hmem
      rw [hfirst.names, hfirst.vectors _ hapart] at hswept
      simpa only [World.activeKeys, World.knownKeys, hfirst.metadata] using hswept
  · intro name hnot
    rw [List.map_cons, List.mem_cons, not_or] at hnot
    rw [hrest.vectors name (by rw [hnames]; exact hnot.2), hfirst.vectors name (by simpa using hnot.1)]
  · intro other
    have hparents := hrest.parents other
    rw [hfirst.parents other] at hparents
    simp only [World.activeKeys, World.knownKeys, hfirst.metadata, List.mem_singleton] at hparents
    rw [hparents]
    by_cases hsame : other = corpusId
    · subst hsame
      rw [if_neg hfresh, if_pos rfl, if_pos List.mem_cons_self]
    · by_cases hmem : other ∈ rest
      · rw [if_pos hmem, if_neg hsame, if_pos (List.mem_cons_of_mem _ hmem)]
      · rw [if_neg hmem, if_neg hsame, if_neg (by simp [hsame, hmem])]

theorem active_known (m : MetadataStore) {key : VersionKey} (h : key ∈ m.iterActiveDocumentVersions corpusId) :
    key ∈ m.iterKnownDocumentVersions corpusId := by
  obtain ⟨row, hrow, rfl⟩ := List.mem_map.mp h
  obtain ⟨hmem, hactive⟩ := Table.mem_select.mp hrow
  have hcorpus := (of_decide_eq_true hactive).1
  exact List.mem_map_of_mem (Table.mem_select.mpr ⟨hmem, decide_eq_true hcorpus⟩)

/-- A corpus stays complete, swept or not. -/
theorem Sweeps.whole (h : Sweeps corpusIds w s)
    (hapart : corpusId ∈ corpusIds ∨ w.sweptCollection corpusId ∉ corpusIds.map w.sweptCollection)
    (hwhole : w.Whole corpusId) : s.Whole corpusId := by
  unfold World.Whole at hwhole ⊢
  unfold World.sweptPoints at hwhole ⊢
  rw [h.names, h.parents]
  simp only [World.activeKeys, World.deletedKeys, World.knownKeys, h.metadata] at hwhole ⊢
  by_cases hmem : corpusId ∈ corpusIds
  · have hpoints : (s.vectors (w.sweptCollection corpusId)).getD [] =
        ((w.vectors (w.sweptCollection corpusId)).getD []).filterMap
          (repairPoint (w.activeKeys corpusId) (w.knownKeys corpusId)) := by
      rw [h.swept corpusId hmem]
      cases w.vectors (w.sweptCollection corpusId) <;> rfl
    rw [if_pos hmem, hpoints]
    exact hwhole.repaired fun key hkey => active_known w.metadata hkey
  · rw [if_neg hmem, h.vectors _ (hapart.resolve_left hmem)]
    exact hwhole

/-- A corpus that was swept is in sync. -/
theorem Sweeps.synced (h : Sweeps corpusIds w s) (hmem : corpusId ∈ corpusIds) : s.InSync corpusId := by
  unfold World.InSync World.sweptPoints
  rw [h.names, h.parents, if_pos hmem, h.swept corpusId hmem]
  simp only [World.activeKeys, World.knownKeys, h.metadata]
  cases w.vectors (w.sweptCollection corpusId) with
  | none => exact @synced_repaired corpusId _ _ [] _
  | some points => exact synced_repaired

/-- `reconcile_all` of complete corpora with different collections sweeps those whose lease it gets. -/
theorem returns_reconcileAll (hdistinct : w.Distinct) (hwhole : ∀ corpusId ∈ corpusIds, w.Whole corpusId)
    (hapart : (corpusIds.map w.sweptCollection).Nodup) :
    ∃ s, Returns StoreOp.eval (reconcileAll svc corpusIds leased) t w () t s ∧
      Sweeps (corpusIds.filter leased) w s := by
  induction corpusIds generalizing w with
  | nil => exact ⟨w, returns_pure, Sweeps.none⟩
  | cons corpusId corpusIds ih =>
    rw [List.map_cons, List.nodup_cons] at hapart
    have hwholeRest := fun other hother => hwhole other (List.mem_cons_of_mem _ hother)
    cases hlease : leased corpusId with
    | false =>
      obtain ⟨s, hrun, hsweeps⟩ := ih hdistinct hwholeRest hapart.2
      refine ⟨s, ?_, ?_⟩
      · have hskip : Returns StoreOp.eval (reconcileCorpus svc corpusId (leased corpusId)) t w () t w := by
          rw [hlease]
          exact returns_pure
        exact hskip.bind hrun
      · rwa [List.filter_cons_of_neg (by simp [hlease])]
    | true =>
      obtain ⟨found, hfirst⟩ := @returns_reconcile corpusId w t svc hdistinct (hwhole corpusId List.mem_cons_self)
      have hone : Sweeps [corpusId] w { w.swept corpusId with findings := w.findings ++ found } := Sweeps.one found
      have hnames : corpusIds.map ({ w.swept corpusId with findings := w.findings ++ found } : World).sweptCollection =
          corpusIds.map w.sweptCollection := List.map_congr_left fun other _ => hone.names other
      have hnext : ∀ other ∈ corpusIds,
          ({ w.swept corpusId with findings := w.findings ++ found } : World).Whole other := by
        intro other hother
        refine hone.whole (Or.inr fun hsame => hapart.1 ?_) (hwholeRest other hother)
        rw [← List.mem_singleton.mp hsame]
        exact List.mem_map_of_mem hother
      obtain ⟨s, hrun, hsweeps⟩ := ih (hone.distinct hdistinct) hnext (by rw [hnames]; exact hapart.2)
      refine ⟨s, ?_, ?_⟩
      · have hsweep : Returns StoreOp.eval (reconcileCorpus svc corpusId (leased corpusId)) t w () t
            { w.swept corpusId with findings := w.findings ++ found } := by
          rw [hlease]
          exact hfirst
        exact hsweep.bind hrun
      · rw [List.filter_cons_of_pos hlease]
        refine hone.cons hsweeps (fun hmem => hapart.1 ?_) (fun hmem => hapart.1 ?_)
        · exact List.mem_map_of_mem (List.mem_filter.mp hmem).1
        · obtain ⟨other, hother, hsame⟩ := List.mem_map.mp hmem
          rw [← hsame]
          exact List.mem_map_of_mem (List.mem_filter.mp hother).1

/-- `reconcile_all` over corpora in sync writes findings only. -/
theorem returns_reconcileAll_synced (hdistinct : w.Distinct)
    (hsettled : ∀ corpusId ∈ corpusIds, leased corpusId = true →
      w.Aligned corpusId ∧ w.Whole corpusId ∧ w.InSync corpusId) :
    ∃ found, Returns StoreOp.eval (reconcileAll svc corpusIds leased) t w () t
        { w with findings := w.findings ++ found } ∧
      ∀ finding ∈ found, Unrepairable finding := by
  induction corpusIds generalizing w with
  | nil =>
    refine ⟨[], ?_, fun finding hfinding => by cases hfinding⟩
    rw [List.append_nil]
    exact returns_pure
  | cons corpusId corpusIds ih =>
    have hrest := fun other hother => hsettled other (List.mem_cons_of_mem _ hother)
    cases hlease : leased corpusId with
    | false =>
      obtain ⟨found, hrun, hkind⟩ := ih hdistinct hrest
      have hskip : Returns StoreOp.eval (reconcileCorpus svc corpusId (leased corpusId)) t w () t w := by
        rw [hlease]
        exact returns_pure
      exact ⟨found, hskip.bind hrun, hkind⟩
    | true =>
      obtain ⟨haligned, hwhole, hsynced⟩ := hsettled corpusId List.mem_cons_self hlease
      obtain ⟨first, hfirst, hkind⟩ := @returns_reconcile_synced corpusId w t svc hdistinct haligned hwhole hsynced
      have hnext : ∀ other ∈ corpusIds, leased other = true →
          ({ w with findings := w.findings ++ first } : World).Aligned other ∧
          ({ w with findings := w.findings ++ first } : World).Whole other ∧
          ({ w with findings := w.findings ++ first } : World).InSync other := by
        intro other hother hleased
        obtain ⟨haligned, hwhole, hsynced⟩ := hrest other hother hleased
        have hname : ({ w with findings := w.findings ++ first } : World).sweptCollection other =
            w.sweptCollection other := sweptCollection_congr rfl rfl
        refine ⟨haligned, ?_, ?_⟩
        · unfold World.Whole at hwhole ⊢
          unfold World.sweptPoints at hwhole ⊢
          rw [hname]
          exact hwhole
        · unfold World.InSync at hsynced ⊢
          unfold World.sweptPoints at hsynced ⊢
          rw [hname]
          exact hsynced
      have hdistinct' : ({ w with findings := w.findings ++ first } : World).Distinct :=
        ⟨hdistinct.points, hdistinct.parents⟩
      obtain ⟨found, hrun, hkinds⟩ := ih hdistinct' hnext
      refine ⟨first ++ found, ?_, ?_⟩
      · have hsweep : Returns StoreOp.eval (reconcileCorpus svc corpusId (leased corpusId)) t w () t
            { w with findings := w.findings ++ first } := by
          rw [hlease]
          exact hfirst
        rw [← List.append_assoc]
        exact hsweep.bind hrun
      · intro finding hfinding
        rcases List.mem_append.mp hfinding with hfinding | hfinding
        · exact hkind finding hfinding
        · exact hkinds finding hfinding

end Corpora

/-- With no other writer, and where nothing has to be rebuilt or purged as a whole, `reconcile_all`
brings the data planes of every corpus whose lease it gets in line with the metadata: orphans go,
stale points and parents are rewritten, everything else stays as it was, and the collection that is
searched afterwards is the swept one. The same run again changes nothing and finds only what a
sweep does not repair. -/
theorem reconcileAll_converges (svc : Services) (corpusIds : List String) (leased : String → Bool) (w : World)
    (hdistinct : w.Distinct) (hwhole : ∀ corpusId ∈ corpusIds, w.Whole corpusId)
    (hapart : (corpusIds.map w.sweptCollection).Nodup) :
    ∃ s, Returns StoreOp.eval (reconcileAll svc corpusIds leased) () w () () s ∧
      Sweeps (corpusIds.filter leased) w s ∧
      (∀ corpusId ∈ corpusIds, leased corpusId = true →
        s.resolveCollectionName corpusId = w.sweptCollection corpusId ∧ s.InSync corpusId) ∧
      ∃ found, Returns StoreOp.eval (reconcileAll svc corpusIds leased) () s () ()
          { s with findings := s.findings ++ found } ∧
        ∀ finding ∈ found, Unrepairable finding := by
  obtain ⟨s, hrun, hsweeps⟩ := @returns_reconcileAll corpusIds w () svc leased hdistinct hwhole hapart
  have hleased : ∀ corpusId ∈ corpusIds, leased corpusId = true → corpusId ∈ corpusIds.filter leased :=
    fun corpusId hmem hlease => List.mem_filter.mpr ⟨hmem, hlease⟩
  refine ⟨s, hrun, hsweeps, ?_, ?_⟩
  · intro corpusId hmem hlease
    have hlisted := hleased corpusId hmem hlease
    refine ⟨?_, hsweeps.synced hlisted⟩
    rw [← hsweeps.names, World.sweptCollection, realigned_of_aligned (hsweeps.aligned corpusId hlisted)]
  · apply returns_reconcileAll_synced (hsweeps.distinct hdistinct)
    intro corpusId hmem hlease
    have hlisted := hleased corpusId hmem hlease
    exact ⟨hsweeps.aligned corpusId hlisted, hsweeps.whole (Or.inl hlisted) (hwhole corpusId hmem),
      hsweeps.synced hlisted⟩

end Reconciler

namespace Sample

/-- The row of `v1` once it is active. -/
def activeV1 : DocumentRow where
  toDocumentColumns := { (processing "v1").toDocumentColumns with status := .active, indexedAt := some 1 }
  lifecycleRevision := 1

def childPoint (version : String) (status : PayloadStatus) : Point :=
  ⟨"child of " ++ version, ⟨⟨doc, version⟩, some "p1", "c1", "text", [], status, false, acl⟩⟩

def parentOfV1 (status : PayloadStatus) (deprecated : Bool) : ParentChunk :=
  ⟨⟨"p1", ⟨doc, "v1"⟩, "text", []⟩, ⟨status, deprecated, acl⟩⟩

/-- `v1` is active and its artifacts do not show it; there is a point of a version that is gone. -/
def driftedWorld : World where
  clock := 7
  metadata := { store with documents := [activeV1] }
  vectors := fun name =>
    if name = "policies" then some [childPoint "v1" .processing, childPoint "v0" .active] else none
  parents := [parentOfV1 .inactive true]
  pointers := fun name => if name = "policies" then some "" else none
  findings := []

end Sample

open Sample Reconciler in
/-- Two corpora, one without a collection. -/
theorem reconcileAll_converges_drifted :
    ∃ s, Returns StoreOp.eval (reconcileAll services ["policies", "handbook"] fun _ => true) () driftedWorld () () s ∧
      s.vectors "policies" = some [childPoint "v1" .active] ∧
      parentsOf "policies" s.parents = [parentOfV1 .active false] := by
  have hdistinct : driftedWorld.Distinct := by
    constructor
    · intro name points hpoints
      change (if name = "policies" then _ else _) = some points at hpoints
      split at hpoints
      · obtain rfl := Option.some.inj hpoints
        unfold Table.KeyUnique
        decide
      · cases hpoints
    · unfold Table.KeyUnique
      decide
  have hwhole : ∀ corpusId ∈ ["policies", "handbook"], driftedWorld.Whole corpusId := by
    intro corpusId hcorpus
    have hlisted : corpusId = "policies" ∨ corpusId = "handbook" := by simpa using hcorpus
    rcases hlisted with rfl | rfl
    · exact ⟨by decide +kernel, by decide +kernel, by decide +kernel, by decide +kernel⟩
    · exact ⟨by decide +kernel, by decide +kernel, by decide +kernel, by decide +kernel⟩
  obtain ⟨s, hrun, hsweeps, -, -⟩ := reconcileAll_converges services ["policies", "handbook"] (fun _ => true)
    driftedWorld hdistinct hwhole (by decide +kernel)
  refine ⟨s, hrun, ?_, ?_⟩
  · have hswept := hsweeps.swept "policies" (by decide)
    exact hswept.trans (by decide +kernel)
  · have hparents := hsweeps.parents "policies"
    exact hparents.trans (by decide +kernel)

end AgenticRag
