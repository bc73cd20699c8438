import AgenticRag.Foundations.Table
import Mathlib.Data.List.Sort

/-!
# Rows that stand for several items

A table in which every row stands for a list of items, and together the rows stand for
all items seen so far, none of them twice. Rows are added for an item, or take further
items in; which rows those are is not said here.
-/

namespace AgenticRag

variable {ρ μ κ : Type*}

/-- Every row has gathered its part of the items, in some order; items in different parts
are apart. -/
def GatheredFrom (gathers : ρ → List μ → Prop) (apart : μ → μ → Prop) (rows : List ρ) (items : List μ) :
    Prop :=
  ∃ parts : List (ρ × List μ), parts.map Prod.fst = rows ∧ (∀ part ∈ parts, gathers part.1 part.2) ∧
    (parts.flatMap Prod.snd).Perm items ∧
      parts.Pairwise fun first second => ∀ m ∈ first.2, ∀ n ∈ second.2, apart m n

namespace GatheredFrom

variable {gathers : ρ → List μ → Prop} {apart : μ → μ → Prop} {rows : List ρ} {items more : List μ}

theorem empty : GatheredFrom gathers apart ([] : List ρ) [] :=
  ⟨[], rfl, by simp, .nil, .nil⟩

theorem perm {items' : List μ} (h : GatheredFrom gathers apart rows items) (hperm : items.Perm items') :
    GatheredFrom gathers apart rows items' := by
  obtain ⟨parts, hrows, hgathers, hitems, hapart⟩ := h
  exact ⟨parts, hrows, hgathers, hitems.trans hperm, hapart⟩

/-- A row for further items. -/
theorem add (h : GatheredFrom gathers apart rows items) {row : ρ} (hrow : gathers row more)
    (hmore : ∀ m ∈ items, ∀ n ∈ more, apart m n) :
    GatheredFrom gathers apart (rows ++ [row]) (items ++ more) := by
  obtain ⟨parts, rfl, hgathers, hitems, hapart⟩ := h
  refine ⟨parts ++ [(row, more)], by simp, ?_, ?_, ?_⟩
  · intro part hpart
    rcases List.mem_append.mp hpart with hold | hnew
    · exact hgathers part hold
    · obtain rfl := List.mem_singleton.mp hnew
      exact hrow
  · rw [List.flatMap_append]
    apply List.Perm.append hitems
    simp
  · rw [List.pairwise_append]
    refine ⟨hapart, List.pairwise_singleton _ _, fun part hpart new hnew m hm n hn => ?_⟩
    obtain rfl := List.mem_singleton.mp hnew
    exact hmore m (hitems.mem_iff.mp (List.mem_flatMap.mpr ⟨part, hpart, hm⟩)) n hn

/-- A row in the middle takes further items in. -/
theorem merge {before after : List ρ} {old new : ρ}
    (h : GatheredFrom gathers apart (before ++ old :: after) items)
    (hnew : ∀ own, gathers old own → gathers new (own ++ more))
    (hmore : ∀ m ∈ items, ∀ n ∈ more, apart m n ∧ apart n m) :
    GatheredFrom gathers apart (before ++ new :: after) (items ++ more) := by
  obtain ⟨parts, hrows, hgathers, hitems, hapart⟩ := h
  obtain ⟨first, rest, rfl, rfl, hrest⟩ := List.map_eq_append_iff.mp hrows
  obtain ⟨part, last, rfl, rfl, rfl⟩ := List.map_eq_cons_iff.mp hrest
  have hknown : ∀ other ∈ first ++ part :: last, ∀ m ∈ other.2, m ∈ items :=
    fun other hother m hm => hitems.mem_iff.mp (List.mem_flatMap.mpr ⟨other, hother, hm⟩)
  refine ⟨first ++ (new, part.2 ++ more) :: last, by simp, ?_, ?_, ?_⟩
  · intro other hother
    rcases List.mem_append.mp hother with hfirst | hrest
    · exact hgathers other (List.mem_append_left _ hfirst)
    · rcases List.mem_cons.mp hrest with rfl | hlast
      · exact hnew part.2 (hgathers part (by simp))
      · exact hgathers other (by simp [hlast])
  · have hsplit : ((first ++ (new, part.2 ++ more) :: last).flatMap Prod.snd).Perm
        ((first ++ part :: last).flatMap Prod.snd ++ more) := by
      simp only [List.flatMap_append, List.flatMap_cons, List.append_assoc]
      apply List.Perm.append_left
      apply List.Perm.append_left
      exact List.perm_append_comm
    exact hsplit.trans (hitems.append_right more)
  · rw [List.pairwise_append] at hapart ⊢
    obtain ⟨hfirst, hlast, hcross⟩ := hapart
    rw [List.pairwise_cons] at hlast ⊢
    refine ⟨hfirst, ⟨fun other hother m hm n hn => ?_, hlast.2⟩, fun other hother next hnext => ?_⟩
    · rcases List.mem_append.mp hm with hold | hnew
      · exact hlast.1 other hother m hold n hn
      · exact (hmore n (hknown other (by simp [hother]) n hn) m hnew).2
    · rcases List.mem_cons.mp hnext with rfl | hafter
      · intro m hm n hn
        rcases List.mem_append.mp hn with hold | hnew
        · exact hcross other hother part (by simp) m hm n hold
        · exact (hmore m (hknown other (by simp [hother]) m hm) n hnew).1
      · exact hcross other hother next (by simp [hafter])

/-- Rows are sorted with their items. -/
theorem insertionSort (r : ρ → ρ → Prop) [DecidableRel r] (h : GatheredFrom gathers apart rows items)
    (hsymm : ∀ m n, apart m n → apart n m) :
    GatheredFrom gathers apart (rows.insertionSort r) items := by
  obtain ⟨parts, rfl, hgathers, hitems, hapart⟩ := h
  have hperm := List.perm_insertionSort (fun first second : ρ × List μ => r first.1 second.1) parts
  refine ⟨parts.insertionSort fun first second => r first.1 second.1, ?_, ?_, ?_, ?_⟩
  · exact List.map_insertionSort _ r Prod.fst parts fun _ _ _ _ => Iff.rfl
  · exact fun part hpart => hgathers part (hperm.mem_iff.mp hpart)
  · exact (hperm.flatMap_right Prod.snd).trans hitems
  · apply hperm.symm.pairwise hapart
    exact fun hfirst m hm n hn => hsymm n m (hfirst n hn m hm)

theorem mono {gathers' : ρ → List μ → Prop} (h : GatheredFrom gathers apart rows items)
    (hgathers : ∀ row part, gathers row part → gathers' row part) :
    GatheredFrom gathers' apart rows items := by
  obtain ⟨parts, hrows, hparts, hitems, hapart⟩ := h
  exact ⟨parts, hrows, fun part hpart => hgathers _ _ (hparts part hpart), hitems, hapart⟩

theorem map {ρ' : Type*} {gathers : ρ' → List μ → Prop} {f : ρ → ρ'}
    (h : GatheredFrom (fun row => gathers (f row)) apart rows items) :
    GatheredFrom gathers apart (rows.map f) items := by
  obtain ⟨parts, rfl, hparts, hitems, hapart⟩ := h
  refine ⟨parts.map fun part => (f part.1, part.2), ?_, ?_, ?_, ?_⟩
  · rw [List.map_map, List.map_map]
    rfl
  · intro part hpart
    obtain ⟨old, hold, rfl⟩ := List.mem_map.mp hpart
    exact hparts old hold
  · rw [List.flatMap_map]
    exact hitems
  · exact List.pairwise_map.mpr hapart

/-- Each item on its own. -/
theorem single {rows : List μ} {gathers : μ → List μ → Prop} (hone : ∀ row ∈ rows, gathers row [row])
    (hapart : rows.Pairwise apart) : GatheredFrom gathers apart rows rows := by
  refine ⟨rows.map fun row => (row, [row]), ?_, ?_, ?_, ?_⟩
  · rw [List.map_map]
    exact List.map_id rows
  · intro part hpart
    obtain ⟨row, hrow, rfl⟩ := List.mem_map.mp hpart
    exact hone row hrow
  · simp [List.flatMap_map]
  · rw [List.pairwise_map]
    apply hapart.imp
    intro first second hfirst m hm n hn
    obtain rfl := List.mem_singleton.mp hm
    obtain rfl := List.mem_singleton.mp hn
    exact hfirst

/-- Every item has been gathered by a row, and the other rows have items apart from it. -/
theorem exists_row (h : GatheredFrom gathers apart rows items) (hsymm : ∀ m n, apart m n → apart n m)
    {m : μ} (hm : m ∈ items) : ∃ row ∈ rows, (∃ part, gathers row part ∧ m ∈ part) ∧
      ∀ other ∈ rows, other = row ∨ ∃ part, gathers other part ∧ ∀ n ∈ part, apart m n := by
  obtain ⟨parts, rfl, hparts, hitems, hapart⟩ := h
  obtain ⟨own, hown, hmem⟩ := List.mem_flatMap.mp (hitems.mem_iff.mpr hm)
  refine ⟨own.1, List.mem_map_of_mem hown, ⟨own.2, hparts own hown, hmem⟩, fun other hother => ?_⟩
  obtain ⟨part, hpart, rfl⟩ := List.mem_map.mp hother
  by_cases hsame : part = own
  · exact Or.inl (congrArg Prod.fst hsame)
  · have hsymmetric : Std.Symm fun first second : ρ × List μ =>
        ∀ m ∈ first.2, ∀ n ∈ second.2, apart m n :=
      ⟨fun first second hfirst m hm n hn => hsymm n m (hfirst n hn m hm)⟩
    refine Or.inr ⟨part.2, hparts part hpart, fun n hn => ?_⟩
    exact hapart.forall hown hpart (Ne.symm hsame) m hmem n hn

/-- Where a row knows how many items it stands for, the rows know how many there are. -/
theorem sum_size (h : GatheredFrom gathers apart rows items) {size : ρ → Nat}
    (hsize : ∀ row part, gathers row part → size row = part.length) :
    (rows.map size).sum = items.length := by
  obtain ⟨parts, rfl, hparts, hitems, -⟩ := h
  rw [← hitems.length_eq, List.length_flatMap, List.map_map]
  congr 1
  apply List.map_congr_left
  exact fun part hpart => hsize _ _ (hparts part hpart)

section Keys

variable {key : ρ → κ} {itemKey : μ → κ}

/-- Where the rows have distinct keys and an item the key of its row, items of different
parts have different keys. -/
theorem separate (h : GatheredFrom gathers apart rows items) (hunique : (rows.map key).Nodup)
    (hkey : ∀ row part, gathers row part → ∀ m ∈ part, itemKey m = key row) :
    GatheredFrom gathers (fun m n => itemKey m ≠ itemKey n) rows items := by
  obtain ⟨parts, rfl, hparts, hitems, -⟩ := h
  refine ⟨parts, rfl, hparts, hitems, ?_⟩
  rw [List.map_map, List.Nodup, List.pairwise_map] at hunique
  apply hunique.imp_of_mem
  intro first second hfirst hsecond hne m hm n hn hsame
  apply hne
  calc key first.1 = itemKey m := (hkey _ _ (hparts first hfirst) m hm).symm
    _ = itemKey n := hsame
    _ = key second.1 := hkey _ _ (hparts second hsecond) n hn

/-- Where a row has the key of one of its items, the keys of the rows are distinct. -/
theorem keyUnique (h : GatheredFrom gathers (fun m n => itemKey m ≠ itemKey n) rows items)
    (hkey : ∀ row part, gathers row part → ∃ m ∈ part, itemKey m = key row) :
    (rows.map key).Nodup := by
  obtain ⟨parts, rfl, hparts, -, hapart⟩ := h
  rw [List.map_map, List.Nodup, List.pairwise_map]
  apply hapart.imp_of_mem
  intro first second hfirst hsecond hne hsame
  obtain ⟨m, hm, hmkey⟩ := hkey _ _ (hparts first hfirst)
  obtain ⟨n, hn, hnkey⟩ := hkey _ _ (hparts second hsecond)
  exact hne m hm n hn (hmkey.trans (hsame.trans hnkey.symm))

end Keys

end GatheredFrom

end AgenticRag
