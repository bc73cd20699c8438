import Mathlib.Tactic

/-!
# Layers of a dependency graph

Nodes have keys and depend on keys. The nodes without dependencies are the first layer; a
layer releases its dependents, and the nodes released last by it are the next one. Each
layer is in the order of the node list.
-/

namespace AgenticRag

namespace Layering

variable {ν κ : Type} [DecidableEq κ] (key : ν → κ) (deps : ν → List κ)

/-- One key is done: the counts of its dependents go down, and those that reach zero are
released. -/
def releaseDependents (done : κ) : List ν → (κ → Int) → List κ → (κ → Int) × List κ
  | [], indeg, released => (indeg, released)
  | node :: rest, indeg, released =>
    if done ∈ deps node then
      let indeg := Function.update indeg (key node) (indeg (key node) - 1)
      releaseDependents done rest indeg (if indeg (key node) = 0 then released ++ [key node] else released)
    else releaseDependents done rest indeg released

def releaseLayer (nodes : List ν) : List κ → (κ → Int) → List κ → (κ → Int) × List κ
  | [], indeg, released => (indeg, released)
  | done :: rest, indeg, released =>
    releaseLayer nodes rest (releaseDependents key deps done nodes indeg released).1
      (releaseDependents key deps done nodes indeg released).2

/-- Sorted by the position among all keys. -/
def inOrder (keys layer : List κ) : List κ :=
  layer.insertionSort fun first second => keys.idxOf first ≤ keys.idxOf second

/-- The layers from a given one on. Layers are not empty and share no key, so the number of
nodes and one more is enough fuel. -/
def layersFrom (nodes : List ν) : Nat → (κ → Int) → List κ → List (List κ)
  | 0, _, _ => []
  | fuel + 1, indeg, current =>
    if current = [] then []
    else
      current :: layersFrom nodes fuel (releaseLayer key deps nodes current indeg []).1
        (inOrder (nodes.map key) (releaseLayer key deps nodes current indeg []).2)

/-- The number of dependencies of the last node with the key. -/
def degree (nodes : List ν) (k : κ) : Int :=
  ((nodes.reverse.find? fun node => decide (key node = k)).map fun node => ((deps node).length : Int)).getD 0

def layers (nodes : List ν) : List (List κ) :=
  layersFrom key deps nodes (nodes.length + 1) (degree key deps nodes)
    (inOrder (nodes.map key)
      ((nodes.map key).filter fun k => decide (degree key deps nodes k = 0)))

variable {key deps}

/-- Layers that may follow the keys done so far: fresh keys of nodes whose dependencies are
done. -/
def Ordered (key : ν → κ) (deps : ν → List κ) (nodes : List ν) : List κ → List (List κ) → Prop
  | _, [] => True
  | done, layer :: rest =>
    layer ≠ [] ∧ layer.Nodup ∧
      (∀ k ∈ layer, k ∉ done ∧ ∃ node ∈ nodes, key node = k ∧ ∀ dep ∈ deps node, dep ∈ done) ∧
      Ordered key deps nodes (done ++ layer) rest

section Release

variable {nodes : List ν} {done : κ} {indeg : κ → Int} {released : List κ}

/-- The count of a key after one of the keys it may depend on is done. -/
theorem releaseDependents_degree (hkeys : (nodes.map key).Nodup) (deps : ν → List κ) (done : κ)
    (indeg : κ → Int) (released : List κ) :
    (∀ node ∈ nodes, (releaseDependents key deps done nodes indeg released).1 (key node) =
        if done ∈ deps node then indeg (key node) - 1 else indeg (key node)) ∧
      ∀ k, k ∉ nodes.map key → (releaseDependents key deps done nodes indeg released).1 k = indeg k := by
  induction nodes generalizing indeg released with
  | nil => simp [releaseDependents]
  | cons first rest ih =>
    obtain ⟨hfresh, hkeys⟩ := List.nodup_cons.mp hkeys
    have hother : ∀ node ∈ rest, key node ≠ key first := fun node hnode hsame =>
      hfresh (hsame ▸ List.mem_map_of_mem hnode)
    simp only [releaseDependents]
    split
    · rename_i hdepends
      obtain ⟨hrest, houtside⟩ := ih hkeys (Function.update indeg (key first) (indeg (key first) - 1)) _
      constructor
      · intro node hnode
        rcases List.mem_cons.mp hnode with rfl | hnode
        · rw [houtside _ hfresh, if_pos hdepends, Function.update_self]
        · rw [hrest node hnode, Function.update_of_ne (hother node hnode)]
      · intro k hk
        obtain ⟨hne, hk⟩ := not_or.mp (fun h => hk (List.mem_cons.mpr h))
        rw [houtside k hk, Function.update_of_ne hne]
    · rename_i hindependent
      obtain ⟨hrest, houtside⟩ := ih hkeys indeg released
      constructor
      · intro node hnode
        rcases List.mem_cons.mp hnode with rfl | hnode
        · rw [houtside _ hfresh, if_neg hindependent]
        · exact hrest node hnode
      · intro k hk
        exact houtside k fun hmem => hk (List.mem_cons_of_mem _ hmem)

/-- The dependents whose last open dependency was this key are released. -/
theorem releaseDependents_released (hkeys : (nodes.map key).Nodup) :
    (releaseDependents key deps done nodes indeg released).2 = released ++
      (nodes.filter fun node => decide (done ∈ deps node ∧ indeg (key node) = 1)).map key := by
  induction nodes generalizing indeg released with
  | nil => simp [releaseDependents]
  | cons first rest ih =>
    obtain ⟨hfresh, hkeys⟩ := List.nodup_cons.mp hkeys
    simp only [releaseDependents]
    split
    · rename_i hdepends
      have hsame : (rest.filter fun node => decide (done ∈ deps node ∧
          Function.update indeg (key first) (indeg (key first) - 1) (key node) = 1)) =
          rest.filter fun node => decide (done ∈ deps node ∧ indeg (key node) = 1) := by
        apply List.filter_congr
        intro node hnode
        have hother : key node ≠ key first := fun hsame =>
          hfresh (hsame ▸ List.mem_map_of_mem hnode)
        rw [Function.update_of_ne hother]
      rw [ih hkeys, hsame, Function.update_self, List.filter_cons]
      by_cases hlast : indeg (key first) = 1
      · simp [hlast, hdepends]
      · have hopen : ¬indeg (key first) - 1 = 0 := by omega
        simp [hlast, hopen]
    · rename_i hindependent
      rw [ih hkeys, List.filter_cons]
      simp [hindependent]

end Release

section Frontier

variable {nodes : List ν}

def openDeps (deps : ν → List κ) (done : List κ) (node : ν) : List κ :=
  (deps node).filter fun dep => decide (dep ∉ done)

/-- Between two keys of a layer: the counts are those of open dependencies, and a node is
done, in the rest of the layer or released exactly if its dependencies are done. -/
structure Frontier (key : ν → κ) (deps : ν → List κ) (nodes : List ν) (done layer : List κ)
    (indeg : κ → Int) (released : List κ) : Prop where
  counts : ∀ node ∈ nodes, indeg (key node) = (openDeps deps done node).length
  nodup : (done ++ layer ++ released).Nodup
  known : ∀ k ∈ done ++ layer ++ released, k ∈ nodes.map key
  reached : ∀ node ∈ nodes,
    key node ∈ done ++ layer ++ released ↔ ∀ dep ∈ deps node, dep ∈ done

theorem mem_openDeps {done : List κ} {node : ν} {dep : κ} :
    dep ∈ openDeps deps done node ↔ dep ∈ deps node ∧ dep ∉ done := by
  simp [openDeps]

theorem openDeps_eq_nil {done : List κ} {node : ν} :
    openDeps deps done node = [] ↔ ∀ dep ∈ deps node, dep ∈ done := by
  simp [openDeps, List.filter_eq_nil_iff]

theorem openDeps_snoc {done : List κ} {node : ν} (hdeps : (deps node).Nodup) (k : κ) :
    openDeps deps (done ++ [k]) node = (openDeps deps done node).erase k := by
  have hopen : (openDeps deps done node).Nodup := hdeps.filter _
  rw [hopen.erase_eq_filter]
  unfold openDeps
  rw [List.filter_filter]
  apply List.filter_congr
  intro dep _
  simp [not_or, and_comm, bne, Bool.beq_eq_decide_eq]

theorem openDeps_length {done : List κ} {node : ν} (hdeps : (deps node).Nodup) {k : κ}
    (hfresh : k ∉ done) : ((openDeps deps (done ++ [k]) node).length : Int) =
      if k ∈ deps node then ((openDeps deps done node).length : Int) - 1
      else (openDeps deps done node).length := by
  rw [openDeps_snoc hdeps]
  split
  · rename_i hdepends
    have hmem : k ∈ openDeps deps done node := mem_openDeps.mpr ⟨hdepends, hfresh⟩
    have hpos := List.length_pos_of_mem hmem
    rw [List.length_erase_of_mem hmem]
    omega
  · rename_i hindependent
    rw [List.erase_of_not_mem fun hmem => hindependent (mem_openDeps.mp hmem).1]

variable {done layer : List κ} {indeg : κ → Int} {released : List κ} {k : κ}

theorem openDeps_length_eq_zero {node : ν} :
    ((openDeps deps done node).length : Int) = 0 ↔ ∀ dep ∈ deps node, dep ∈ done := by
  rw [← openDeps_eq_nil, ← List.length_eq_zero_iff]
  omega

/-- The frontier moves over one key. -/
theorem Frontier.release (hkeys : (nodes.map key).Nodup) (hdeps : ∀ node ∈ nodes, (deps node).Nodup)
    (h : Frontier key deps nodes done (k :: layer) indeg released) :
    Frontier key deps nodes (done ++ [k]) layer
      (releaseDependents key deps k nodes indeg released).1
      (releaseDependents key deps k nodes indeg released).2 := by
  let fresh := (nodes.filter fun node => decide (k ∈ deps node ∧ indeg (key node) = 1)).map key
  have hunion : ∀ other, other ∈ done ++ [k] ++ layer ++ (released ++ fresh) ↔
      other ∈ done ++ k :: layer ++ released ∨ other ∈ fresh := by
    intro other
    simp only [List.mem_append, List.mem_cons, List.not_mem_nil, or_false]
    tauto
  have hfreshDone : k ∉ done := by
    have hnodup := h.nodup
    rw [List.append_assoc, List.nodup_append] at hnodup
    exact fun hmem => hnodup.2.2 k hmem k (by simp) rfl
  have hfresh : ∀ node ∈ nodes, key node ∈ fresh ↔ k ∈ deps node ∧ indeg (key node) = 1 := by
    intro node hnode
    constructor
    · intro hmem
      obtain ⟨other, hother, hsame⟩ := List.mem_map.mp hmem
      obtain ⟨hin, hrow⟩ := List.mem_filter.mp hother
      obtain rfl := List.inj_on_of_nodup_map hkeys hin hnode hsame
      exact of_decide_eq_true hrow
    · intro hrow
      exact List.mem_map_of_mem (List.mem_filter.mpr ⟨hnode, decide_eq_true hrow⟩)
  obtain ⟨hcounts, -⟩ := releaseDependents_degree hkeys deps k indeg released
  rw [releaseDependents_released hkeys]
  refine ⟨?_, ?_, ?_, ?_⟩
  · intro node hnode
    rw [hcounts node hnode, h.counts node hnode, openDeps_length (hdeps node hnode) hfreshDone]
  · have hsplit : done ++ [k] ++ layer ++ (released ++ fresh) = done ++ k :: layer ++ released ++ fresh := by
      simp
    rw [hsplit]
    refine h.nodup.append ((List.filter_sublist.map key).nodup hkeys) ?_
    intro other hold hnew
    obtain ⟨node, hnode, rfl⟩ := List.mem_map.mp hnew
    obtain ⟨hin, hrow⟩ := List.mem_filter.mp hnode
    exact hfreshDone ((h.reached node hin).mp hold k (of_decide_eq_true hrow).1)
  · intro other hother
    rcases (hunion other).mp hother with hold | hnew
    · exact h.known other hold
    · obtain ⟨node, hnode, rfl⟩ := List.mem_map.mp hnew
      exact List.mem_map_of_mem (List.mem_filter.mp hnode).1
  · intro node hnode
    have hlength := openDeps_length (hdeps node hnode) hfreshDone
    rw [hunion, h.reached node hnode, hfresh node hnode, h.counts node hnode,
      ← openDeps_length_eq_zero, ← openDeps_length_eq_zero, hlength]
    by_cases hdepends : k ∈ deps node
    · have hpos := List.length_pos_of_mem (mem_openDeps.mpr ⟨hdepends, hfreshDone⟩)
      simp only [hdepends, if_true, true_and]
      omega
    · simp only [hdepends, if_false, false_and, or_false]

/-- The frontier moves over a layer. -/
theorem Frontier.advance (hkeys : (nodes.map key).Nodup)
    (hdeps : ∀ node ∈ nodes, (deps node).Nodup)
    (h : Frontier key deps nodes done layer indeg released) :
    Frontier key deps nodes (done ++ layer) []
      (releaseLayer key deps nodes layer indeg released).1
      (releaseLayer key deps nodes layer indeg released).2 := by
  induction layer generalizing done indeg released with
  | nil => simpa [releaseLayer] using h
  | cons k layer ih =>
    have hrest := ih (h.release hkeys hdeps)
    rw [List.append_assoc] at hrest
    exact hrest

theorem inOrder_perm (keys layer : List κ) : (inOrder keys layer).Perm layer :=
  List.perm_insertionSort _ _

/-- What was released is the next layer. -/
theorem Frontier.next (keys : List κ) (h : Frontier key deps nodes done [] indeg released) :
    Frontier key deps nodes done (inOrder keys released) indeg [] := by
  have hperm : (done ++ inOrder keys released ++ []).Perm (done ++ [] ++ released) := by
    simpa using (inOrder_perm keys released).append_left done
  exact ⟨h.counts, hperm.nodup_iff.mpr h.nodup, fun k hk => h.known k (hperm.mem_iff.mp hk),
    fun node hnode => hperm.mem_iff.trans (h.reached node hnode)⟩

theorem Frontier.ordered (hkeys : (nodes.map key).Nodup) (hdeps : ∀ node ∈ nodes, (deps node).Nodup)
    {fuel : Nat} (h : Frontier key deps nodes done layer indeg []) :
    Ordered key deps nodes done (layersFrom key deps nodes fuel indeg layer) := by
  induction fuel generalizing done layer indeg with
  | zero => trivial
  | succ fuel ih =>
    unfold layersFrom
    split
    · trivial
    · rename_i hnonempty
      have hnodup := h.nodup
      rw [List.append_nil, List.nodup_append] at hnodup
      refine ⟨hnonempty, hnodup.2.1, fun k hk => ⟨fun hmem => hnodup.2.2 k hmem k hk rfl, ?_⟩, ?_⟩
      · obtain ⟨node, hnode, rfl⟩ := List.mem_map.mp (h.known k (by simp [hk]))
        exact ⟨node, hnode, rfl, (h.reached node hnode).mp (by simp [hk])⟩
      · exact ih ((h.advance hkeys hdeps).next (nodes.map key))

theorem degree_eq (hkeys : (nodes.map key).Nodup) {node : ν} (hnode : node ∈ nodes) :
    degree key deps nodes (key node) = (deps node).length := by
  have hsome : (nodes.reverse.find? fun other => decide (key other = key node)).isSome := by
    rw [List.find?_isSome]
    exact ⟨node, List.mem_reverse.mpr hnode, by simp⟩
  obtain ⟨found, hfound⟩ := Option.isSome_iff_exists.mp hsome
  have hsame : key found = key node := by simpa using List.find?_some hfound
  have hmem : found ∈ nodes := List.mem_reverse.mp (List.mem_of_find?_eq_some hfound)
  obtain rfl := List.inj_on_of_nodup_map hkeys hmem hnode hsame
  simp [degree, hfound]

/-- The nodes without dependencies are the first to be reached. -/
theorem Frontier.start (hkeys : (nodes.map key).Nodup) :
    Frontier key deps nodes [] [] (degree key deps nodes)
      ((nodes.map key).filter fun k => decide (degree key deps nodes k = 0)) := by
  refine ⟨fun node hnode => ?_, ?_, ?_, fun node hnode => ?_⟩
  · rw [degree_eq hkeys hnode]
    simp [openDeps]
  · simpa using hkeys.filter _
  · intro k hk
    simp only [List.nil_append] at hk
    exact (List.mem_filter.mp hk).1
  · have hmem : key node ∈ nodes.map key := List.mem_map_of_mem hnode
    have hzero : ((deps node).length : Int) = 0 ↔ ∀ dep ∈ deps node, dep ∈ ([] : List κ) := by
      simp [List.eq_nil_iff_forall_not_mem]
    rw [List.nil_append, List.nil_append, List.mem_filter, decide_eq_true_eq, degree_eq hkeys hnode,
      and_iff_right hmem, hzero]

/-- The layers of a graph with distinct keys. -/
theorem layers_ordered (hkeys : (nodes.map key).Nodup) (hdeps : ∀ node ∈ nodes, (deps node).Nodup) :
    Ordered key deps nodes [] (layers key deps nodes) :=
  ((Frontier.start hkeys).next _).ordered hkeys hdeps

/-- With enough fuel, everything the layers reach is in them. -/
theorem Frontier.exhausted (hkeys : (nodes.map key).Nodup)
    (hdeps : ∀ node ∈ nodes, (deps node).Nodup) {fuel : Nat}
    (h : Frontier key deps nodes done layer indeg []) (hfuel : nodes.length < done.length + fuel) :
    ∃ indeg', Frontier key deps nodes
        (done ++ (layersFrom key deps nodes fuel indeg layer).flatten) [] indeg' [] ∧
      ∀ extra, layersFrom key deps nodes (fuel + extra) indeg layer =
        layersFrom key deps nodes fuel indeg layer := by
  induction fuel generalizing done layer indeg with
  | zero =>
    have hlength := (h.nodup.subperm h.known).length_le
    simp only [List.length_append, List.length_map] at hlength
    omega
  | succ fuel ih =>
    by_cases hempty : layer = []
    · subst hempty
      refine ⟨indeg, by simpa [layersFrom] using h, fun extra => ?_⟩
      rw [Nat.add_right_comm]
      simp [layersFrom]
    · have hpos := List.length_pos_iff.mpr hempty
      have hnext := (h.advance hkeys hdeps).next (nodes.map key)
      obtain ⟨indeg', hend, hstable⟩ := ih hnext (by rw [List.length_append]; omega)
      refine ⟨indeg', ?_, fun extra => ?_⟩
      · simpa [layersFrom, hempty] using hend
      · rw [Nat.add_right_comm]
        simp only [layersFrom, hempty, if_false, hstable extra]

/-- The layers of a graph reach all they can, and no more fuel is needed. -/
theorem layers_exhausted (hkeys : (nodes.map key).Nodup)
    (hdeps : ∀ node ∈ nodes, (deps node).Nodup) :
    ∃ indeg, Frontier key deps nodes (layers key deps nodes).flatten [] indeg [] ∧
      ∀ extra, layersFrom key deps nodes (nodes.length + 1 + extra) (degree key deps nodes)
          (inOrder (nodes.map key)
            ((nodes.map key).filter fun k => decide (degree key deps nodes k = 0))) =
        layers key deps nodes :=
  ((Frontier.start hkeys).next _).exhausted hkeys hdeps (by simp)

end Frontier

section Layers

variable {nodes : List ν} {layer : List κ}

/-- The keys of a layer come in the order of the nodes. -/
theorem layersFrom_inOrder {fuel : Nat} {indeg : κ → Int} {current : List κ}
    (hcurrent : current.Pairwise fun first second =>
      (nodes.map key).idxOf first ≤ (nodes.map key).idxOf second)
    (h : layer ∈ layersFrom key deps nodes fuel indeg current) :
    layer.Pairwise fun first second => (nodes.map key).idxOf first ≤ (nodes.map key).idxOf second := by
  have hsorted : ∀ released, (inOrder (nodes.map key) released).Pairwise fun first second =>
      (nodes.map key).idxOf first ≤ (nodes.map key).idxOf second := by
    intro released
    exact List.pairwise_insertionSort _ released
  induction fuel generalizing indeg current with
  | zero => cases h
  | succ fuel ih =>
    unfold layersFrom at h
    split at h
    · cases h
    · rcases List.mem_cons.mp h with rfl | h
      · exact hcurrent
      · exact ih (hsorted _) h

theorem layers_inOrder (h : layer ∈ layers key deps nodes) :
    layer.Pairwise fun first second => (nodes.map key).idxOf first ≤ (nodes.map key).idxOf second :=
  layersFrom_inOrder (List.pairwise_insertionSort _ _) h

omit [DecidableEq κ] in
/-- What precedes a layer holds the dependencies of its keys. -/
theorem Ordered.dependencies {done : List κ} {before after : List (List κ)} {k : κ}
    (h : Ordered key deps nodes done (before ++ layer :: after)) (hk : k ∈ layer) :
    ∃ node ∈ nodes, key node = k ∧ ∀ dep ∈ deps node, dep ∈ done ++ before.flatten := by
  induction before generalizing done with
  | nil =>
    obtain ⟨node, hnode, hkey, hdone⟩ := (h.2.2.1 k hk).2
    exact ⟨node, hnode, hkey, by simpa using hdone⟩
  | cons first before ih =>
    obtain ⟨node, hnode, hkey, hdone⟩ := ih h.2.2.2
    exact ⟨node, hnode, hkey, by simpa using hdone⟩

omit [DecidableEq κ] in
theorem Ordered.nodup {done : List κ} {rest : List (List κ)} (h : Ordered key deps nodes done rest)
    (hlayer : layer ∈ rest) : layer.Nodup := by
  induction rest generalizing done with
  | nil => cases hlayer
  | cons first rest ih =>
    rcases List.mem_cons.mp hlayer with rfl | hlayer
    · exact h.2.1
    · exact ih h.2.2.2 hlayer

end Layers

end Layering

end AgenticRag
