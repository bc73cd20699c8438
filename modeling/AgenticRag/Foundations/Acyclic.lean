import Mathlib.Tactic
import Mathlib.Order.WellFoundedSet

/-!
# Acyclic relations on finitely many keys

A loop in Kahn's style takes keys whose predecessors are all taken. What it leaves behind
when nothing is ready any more tells whether the relation has a cycle.
-/

namespace AgenticRag

/-- No key reaches itself. -/
def Acyclic {κ : Type} (before : κ → κ → Prop) : Prop := ∀ k, ¬Relation.TransGen before k k

section Peeling

variable {κ : Type} {before : κ → κ → Prop} {keys done ready : List κ}

/-- Keys that are taken only together with all their predecessors are all taken if there is
no cycle. -/
theorem Acyclic.mem_of_closed (hacyclic : Acyclic before)
    (hends : ∀ first second, before first second → first ∈ keys)
    (hclosed : ∀ k ∈ keys, (∀ first, before first k → first ∈ done) → k ∈ done) {k : κ}
    (hk : k ∈ keys) : k ∈ done := by
  have hstrict : IsStrictOrder κ (Relation.TransGen before) :=
    { irrefl := hacyclic
      trans := fun _ _ _ => Relation.TransGen.trans }
  have hfounded : {k | k ∈ keys}.WellFoundedOn (Relation.TransGen before) :=
    (List.finite_toSet keys).wellFoundedOn
  apply hfounded.induction hk
  intro k hk ih
  apply hclosed k hk
  intro first hfirst
  exact ih first (hends first k hfirst) (Relation.TransGen.single hfirst)

/-- Keys that are all accessible are on no cycle. -/
theorem acyclic_of_acc (hends : ∀ first second, before first second → second ∈ keys)
    (hacc : ∀ k ∈ keys, Acc before k) : Acyclic before := by
  intro k hloop
  have hk : k ∈ keys := by
    cases hloop with
    | single h => exact hends _ _ h
    | tail _ h => exact hends _ _ h
  have hirrefl : ∀ k, Acc (Relation.TransGen before) k → ¬Relation.TransGen before k k := by
    intro k hk
    induction hk with
    | intro k _ ih =>
      intro hloop
      exact ih k hloop hloop
  exact hirrefl k (hacc k hk).transGen hloop

/-- The keys taken so far and those that may be taken next: a key is among them exactly if
all its predecessors are taken. -/
structure Peeled (before : κ → κ → Prop) (keys done ready : List κ) : Prop where
  nodup : (done ++ ready).Nodup
  known : ∀ k ∈ done ++ ready, k ∈ keys
  reached : ∀ k ∈ keys, k ∈ done ++ ready ↔ ∀ first, before first k → first ∈ done
  accessible : ∀ k ∈ done, Acc before k

theorem Peeled.acc_of_ready (h : Peeled before keys done ready) {k : κ} (hk : k ∈ ready) :
    Acc before k := by
  have hmem : k ∈ done ++ ready := List.mem_append_right _ hk
  constructor
  intro first hfirst
  exact h.accessible first ((h.reached k (h.known k hmem)).mp hmem first hfirst)

theorem Peeled.length_le (h : Peeled before keys done ready) :
    done.length + ready.length ≤ keys.length := by
  have hle := (h.nodup.subperm h.known).length_le
  rwa [List.length_append] at hle

/-- When nothing is ready, every key is taken exactly if there is no cycle. -/
theorem Peeled.exhausted_iff (h : Peeled before keys done []) (hkeys : keys.Nodup)
    (hends : ∀ first second, before first second → first ∈ keys ∧ second ∈ keys) :
    done.length = keys.length ↔ Acyclic before := by
  have hsub : done.Subperm keys := by
    have hnodup := h.nodup
    rw [List.append_nil] at hnodup
    exact hnodup.subperm fun k hk => h.known k (List.mem_append_left _ hk)
  constructor
  · intro hlength
    have hperm : done.Perm keys := hsub.perm_of_length_le hlength.ge
    apply acyclic_of_acc fun first second hedge => (hends first second hedge).2
    intro k hk
    exact h.accessible k (hperm.mem_iff.mpr hk)
  · intro hacyclic
    have hall : keys.Subperm done := by
      apply hkeys.subperm
      intro k hk
      apply hacyclic.mem_of_closed (fun first second hedge => (hends first second hedge).1) ?_ hk
      intro k hk hfirsts
      have hmem := (h.reached k hk).mpr hfirsts
      rwa [List.append_nil] at hmem
    exact le_antisymm hsub.length_le hall.length_le

end Peeling

end AgenticRag
