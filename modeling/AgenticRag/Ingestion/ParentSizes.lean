import AgenticRag.Ingestion.ParentPasses

/-!
# Sizes of the parents

`chunk_markdown` puts its passes together and refuses a parent that is still too long. Which
settings keep every parent within `max_parent_size` depends on two sizes and the overlap.
-/

namespace AgenticRag

def Seg.toSection (seg : Seg) : Section where
  text := String.ofList seg.text
  headings := seg.metadata

namespace ParentChildChunker

variable (chunker : ParentChildChunker) (splitters : TextSplitters)

/-- The passes of `chunk_markdown` over the segments. -/
def passes (text : List Char) : Except PyError (List Seg) := do
  let segs ← chunker.splitLargeParents splitters
    (chunker.mergeSmallParents (splitters.splitHeaders text))
  return chunker.cleanSmallChunks segs

/-- The sections `chunk_markdown` makes chunks of. -/
def splitSections (content : String) : Except PyError (List Section) := do
  let segs ← chunker.passes splitters content.toList
  if segs.any fun seg => decide (seg.text.length > chunker.maxParentSize) then
    .error (.valueError "parent chunk exceeds max_parent_size after rebalancing")
  else return segs.map Seg.toSection

/-- The services of an ingestion that uses this chunker. -/
def services (sha256 childPointId : String → String) : Services where
  sha256 := sha256
  childPointId := childPointId
  splitSections := chunker.splitSections splitters
  splitChildren text :=
    (splitters.splitText chunker.childChunkSize chunker.childChunkOverlap text.toList).map
      String.ofList

end ParentChildChunker

/-- Pieces are at most as long as asked for. -/
def TextSplitters.Bounded (splitters : TextSplitters) : Prop :=
  ∀ chunkSize chunkOverlap text, 0 < chunkSize → chunkOverlap ≤ chunkSize →
    ∀ piece ∈ splitters.splitText chunkSize chunkOverlap text, piece.length ≤ chunkSize

/-- Empty pieces are dropped. -/
structure TextSplitters.DropsEmpty (splitters : TextSplitters) : Prop where
  headers : ∀ text, ∀ seg ∈ splitters.splitHeaders text, seg.text ≠ []
  pieces : ∀ chunkSize chunkOverlap text,
    ∀ piece ∈ splitters.splitText chunkSize chunkOverlap text, piece ≠ []

namespace ParentChildChunker

variable {chunker : ParentChildChunker} {out : List Seg}

section Bounds

theorem length_lstrip_le (text : List Char) : (Text.lstrip text).length ≤ text.length :=
  (List.dropWhile_suffix _).length_le

theorem length_rstrip_le (text : List Char) : (Text.rstrip text).length ≤ text.length :=
  (List.rdropWhile_prefix _ _).length_le

theorem find_bounds {text sep : List Char} {start stop position : Nat}
    (h : Text.find text sep start stop = some position) :
    start ≤ position ∧ position + sep.length ≤ stop := by
  have hfound := List.find?_some h
  simp only [Text.occursAt, Bool.and_eq_true, decide_eq_true_eq] at hfound
  exact hfound.1

theorem rfind_bounds {text sep : List Char} {start stop position : Nat}
    (h : Text.rfind text sep start stop = some position) :
    start ≤ position ∧ position + sep.length ≤ stop := by
  have hfound := List.find?_some h
  simp only [Text.occursAt, Bool.and_eq_true, decide_eq_true_eq] at hfound
  exact hfound.1

/-- The cut stays between the bounds it is searched in. -/
theorem splitAt_bounds {combined : List Char}
    (h : chunker.lowerCut combined ≤ chunker.upperCut combined) :
    chunker.lowerCut combined ≤ chunker.splitAt combined ∧
      chunker.splitAt combined ≤ chunker.upperCut combined := by
  have hpreferred : chunker.lowerCut combined ≤ chunker.preferredCut combined ∧
      chunker.preferredCut combined ≤ chunker.upperCut combined := by
    unfold preferredCut
    omega
  unfold splitAt
  simp only
  generalize hboundary : List.findSome? _ _ = boundary
  cases boundary with
  | none => exact hpreferred
  | some position =>
    obtain ⟨sep, hsep, hposition⟩ := List.exists_of_findSome?_eq_some hboundary
    have hlength : 0 < sep.length := by
      simp only [List.mem_cons, List.not_mem_nil, or_false] at hsep
      rcases hsep with rfl | rfl | rfl <;> decide
    rw [Option.or_eq_some_iff] at hposition
    simp only [Option.getD_some]
    rcases hposition with hbefore | ⟨-, hafter⟩
    · have hbounds := rfind_bounds hbefore
      omega
    · have hbounds := find_bounds hafter
      omega

/-- The bounds leave room if the text is at most two parents long. -/
theorem cut_bounds {combined : List Char} (hlong : 2 ≤ combined.length)
    (hshort : combined.length ≤ 2 * chunker.maxParentSize) :
    1 ≤ chunker.lowerCut combined ∧
      chunker.lowerCut combined ≤ chunker.upperCut combined ∧
      combined.length ≤ chunker.lowerCut combined + chunker.maxParentSize ∧
      chunker.upperCut combined ≤ chunker.maxParentSize := by
  have hpos := chunker.min_pos
  have hle := chunker.min_le_max
  simp only [lowerCut, upperCut, isAmple, decide_eq_true_eq]
  split <;> omega

/-- Both sides of a cut are at most one parent long. -/
theorem length_cut {combined : List Char} (hlong : 2 ≤ combined.length)
    (hshort : combined.length ≤ 2 * chunker.maxParentSize) :
    (chunker.cut combined).1.length ≤ chunker.maxParentSize ∧
      (chunker.cut combined).2.length ≤ chunker.maxParentSize := by
  obtain ⟨-, horder, hlower, hupper⟩ := cut_bounds hlong hshort
  have hsplit := splitAt_bounds horder
  have hpreferred : chunker.lowerCut combined ≤ chunker.preferredCut combined ∧
      chunker.preferredCut combined ≤ chunker.upperCut combined := by
    unfold preferredCut
    omega
  have hleft := length_rstrip_le (combined.take (chunker.splitAt combined))
  have hright := length_lstrip_le (combined.drop (chunker.splitAt combined))
  simp only [List.length_take, List.length_drop] at hleft hright
  simp only [cut]
  split
  · simp only [List.length_take, List.length_drop]
    omega
  · constructor <;> simp only <;> omega

end Bounds

section Within

/-- Every segment fits into a parent. -/
def Within (chunker : ParentChildChunker) (segs : List Seg) : Prop :=
  ∀ seg ∈ segs, seg.text.length ≤ chunker.maxParentSize

theorem within_append {first second : List Seg} :
    chunker.Within (first ++ second) ↔ chunker.Within first ∧ chunker.Within second := by
  simp only [Within, List.mem_append, or_imp, forall_and]

theorem within_cons {seg : Seg} {segs : List Seg} :
    chunker.Within (seg :: segs) ↔
      seg.text.length ≤ chunker.maxParentSize ∧ chunker.Within segs := by
  simp only [Within, List.mem_cons, forall_eq_or_imp]

theorem within_nil : chunker.Within [] := by
  simp [Within]

/-- With a small segment in it, a pair is at most two parents long. -/
theorem rebalancePair_within {first second : Seg}
    (hroom : chunker.minParentSize < chunker.maxParentSize)
    (hsmall : chunker.isSmall first = true ∨ chunker.isSmall second = true)
    (h : chunker.Within [first, second]) :
    chunker.Within [(chunker.rebalancePair first second).1,
      (chunker.rebalancePair first second).2] := by
  simp only [within_cons] at h
  simp only [isSmall, decide_eq_true_eq] at hsmall
  have hfirst := length_rstrip_le first.text
  have hsecond := length_lstrip_le second.text
  have hlength : (Text.rstrip first.text ++ paragraphBreak ++ Text.lstrip second.text).length =
      (Text.rstrip first.text).length + 2 + (Text.lstrip second.text).length := by
    rw [List.length_append, List.length_append]
    rfl
  have hcut := @length_cut chunker
    (Text.rstrip first.text ++ paragraphBreak ++ Text.lstrip second.text) (by omega) (by omega)
  simp only [rebalancePair]
  split
  · simpa [within_cons] using h
  · simp only [within_cons]
    exact ⟨hcut.1, hcut.2, within_nil⟩

theorem rebalanceInto_within (hroom : chunker.minParentSize < chunker.maxParentSize)
    {position : Nat} (hsmall : ∀ first second, out[position]? = some first →
      out[position + 1]? = some second →
        chunker.isSmall first = true ∨ chunker.isSmall second = true)
    (h : chunker.Within out) : chunker.Within (chunker.rebalanceInto out position) := by
  rcases chunker.rebalanceInto_cases out position with
    hsame | ⟨before, after, first, second, hout, hfirst, hsecond, hnew⟩
  · rwa [hsame]
  · rw [hout] at h
    simp only [within_append, within_cons] at h
    have hwithin := rebalancePair_within hroom (hsmall first second hfirst hsecond)
      (within_cons.mpr ⟨h.2.1, within_cons.mpr ⟨h.2.2.1, within_nil⟩⟩)
    simp only [within_cons] at hwithin
    rw [hnew]
    simp only [within_append, within_cons]
    exact ⟨h.1, hwithin.1, hwithin.2.1, h.2.2.2⟩

theorem rebalanceSegment_within (hroom : chunker.minParentSize < chunker.maxParentSize) (i : Nat)
    (h : chunker.Within out) : chunker.Within (chunker.rebalanceSegment out i) := by
  unfold rebalanceSegment
  split
  · exact h
  · rename_i seg hseg
    split
    · exact h
    · rename_i hkept
      simp only [not_or, not_not] at hkept
      have hlt := (List.getElem?_eq_some_iff.mp hseg).1
      split
      · apply rebalanceInto_within hroom ?_ h
        intro first second hfirst _
        rw [hseg, Option.some.injEq] at hfirst
        exact .inl (hfirst ▸ hkept.1)
      · -- the last of several segments is rebalanced with the one before it
        apply rebalanceInto_within hroom ?_ h
        intro first second _ hsecond
        have hlast : i - 1 + 1 = i := by omega
        rw [hlast, hseg, Option.some.injEq] at hsecond
        exact .inr (hsecond ▸ hkept.1)

theorem rebalanceSegments_within (hroom : chunker.minParentSize < chunker.maxParentSize)
    (h : chunker.Within out) : chunker.Within (chunker.rebalanceSegments out) := by
  have hloop : ∀ (indices : List Nat) (out : List Seg), chunker.Within out →
      chunker.Within (indices.foldl chunker.rebalanceSegment out) := by
    intro indices
    induction indices with
    | nil => exact fun _ h => h
    | cons i indices ih => exact fun out h => ih _ (rebalanceSegment_within hroom i h)
  exact hloop _ out h

/-- A segment is folded only where it fits. -/
theorem foldForward_within {seg : Seg} {next : Option Seg}
    (h : chunker.Within (out ++ seg :: next.toList)) :
    chunker.Within ((chunker.foldForward out seg next).1 ++
      (chunker.foldForward out seg next).2.toList) := by
  cases next with
  | none => simpa [foldForward] using h
  | some nxt =>
    simp only [foldForward]
    split
    · rename_i hfits
      simp only [fits, decide_eq_true_eq] at hfits
      simp only [within_append, within_cons, Option.toList_some] at h ⊢
      refine ⟨h.1, ?_, within_nil⟩
      simp only [Seg.join, paragraphBreak, List.length_append, List.length_cons, List.length_nil]
      omega
    · simpa using h

theorem foldSegment_within {n : Nat} {seg : Seg} {next : Option Seg}
    (h : chunker.Within (out ++ seg :: next.toList)) :
    chunker.Within ((chunker.foldSegment n out seg next).1 ++
      (chunker.foldSegment n out seg next).2.toList) := by
  unfold foldSegment
  split
  · simpa using h
  · split
    · rename_i prev hprev
      have hsplit : out.dropLast ++ [prev] = out := List.dropLast_append_getLast? prev hprev
      split
      · rename_i hfits
        simp only [fits, decide_eq_true_eq] at hfits
        rw [← hsplit] at h
        simp only [within_append, within_cons] at h ⊢
        refine ⟨⟨h.1.1, ?_, within_nil⟩, h.2.2⟩
        simp only [Seg.join, paragraphBreak, List.length_append, List.length_cons, List.length_nil]
        omega
      · exact foldForward_within h
    · exact foldForward_within h

theorem foldSegments_within {n : Nat} {seg : Seg} {rest : List Seg}
    (h : chunker.Within (out ++ seg :: rest)) :
    chunker.Within (chunker.foldSegments n out seg rest) := by
  induction rest generalizing out seg with
  | nil =>
    have hlast := @foldSegment_within chunker out n seg none h
    exact (within_append.mp hlast).1
  | cons next rest ih =>
    simp only [within_append, within_cons] at h
    have hstep := @foldSegment_within chunker out n seg (some next)
      (within_append.mpr ⟨h.1, within_cons.mpr ⟨h.2.1, within_cons.mpr ⟨h.2.2.1, within_nil⟩⟩⟩)
    obtain ⟨next', hnext⟩ := Option.isSome_iff_exists.mp
      (foldSegment_isSome chunker n out seg (some next))
    simp only [foldSegments, hnext, Option.getD_some]
    rw [hnext] at hstep
    apply ih
    simp only [within_append, within_cons, Option.toList_some] at hstep ⊢
    exact ⟨hstep.1, hstep.2.1, h.2.2.2⟩

theorem cleanSmallChunks_within (hroom : chunker.minParentSize < chunker.maxParentSize)
    {segs : List Seg} (h : chunker.Within segs) : chunker.Within (chunker.cleanSmallChunks segs) := by
  cases segs with
  | nil => exact within_nil
  | cons seg rest =>
    apply rebalanceSegments_within hroom
    exact foldSegments_within h

/-- The splitter is accepted and leaves nothing longer than a parent. -/
theorem splitLargeParents_within {splitters : TextSplitters} (hbounded : splitters.Bounded)
    (hoverlap : chunker.childChunkOverlap ≤ chunker.maxParentSize) (segs : List Seg) :
    ∃ split, chunker.splitLargeParents splitters segs = .ok split ∧ chunker.Within split := by
  have haccepted : ¬chunker.childChunkOverlap > chunker.maxParentSize := by omega
  refine ⟨_, by simp only [splitLargeParents, TextSplitters.recursive, if_neg haccepted]; rfl, ?_⟩
  intro seg hseg
  obtain ⟨whole, hwhole, hseg⟩ := List.mem_flatMap.mp hseg
  split at hseg
  · obtain ⟨piece, hpiece, rfl⟩ := List.mem_map.mp hseg
    have hpos := chunker.min_pos
    have hle := chunker.min_le_max
    exact hbounded _ _ _ (by omega) hoverlap piece hpiece
  · rw [List.mem_singleton.mp hseg]
    omega

end Within

section Large

/-- Segments that are not small are left as they are. -/
theorem foldSegments_of_large {n : Nat} {seg : Seg} {rest : List Seg}
    (h : ∀ other ∈ seg :: rest, chunker.isSmall other = false) :
    chunker.foldSegments n out seg rest = out ++ seg :: rest := by
  induction rest generalizing out seg with
  | nil =>
    have hseg := h seg (List.mem_cons_self ..)
    simp [foldSegments, foldSegment, hseg]
  | cons next rest ih =>
    have hseg := h seg (List.mem_cons_self ..)
    have hrest : ∀ other ∈ next :: rest, chunker.isSmall other = false :=
      fun other hother => h other (List.mem_cons_of_mem _ hother)
    simp only [foldSegments, foldSegment, hseg]
    simp only [Bool.false_eq_true, not_false_eq_true, true_or, if_true, Option.getD_some]
    rw [ih hrest, List.append_assoc, List.singleton_append]

theorem rebalanceSegment_of_large (h : ∀ seg ∈ out, chunker.isSmall seg = false) (i : Nat) :
    chunker.rebalanceSegment out i = out := by
  unfold rebalanceSegment
  split
  · rfl
  · rename_i seg hseg
    have hlarge := h seg (List.mem_of_getElem? hseg)
    simp [hlarge]

theorem cleanSmallChunks_of_large {segs : List Seg}
    (h : ∀ seg ∈ segs, chunker.isSmall seg = false) : chunker.cleanSmallChunks segs = segs := by
  cases segs with
  | nil => rfl
  | cons seg rest =>
    simp only [cleanSmallChunks, foldSegments_of_large h, List.nil_append, rebalanceSegments]
    generalize List.range (seg :: rest).length = indices
    induction indices with
    | nil => rfl
    | cons i indices ih => rwa [List.foldl_cons, rebalanceSegment_of_large h]

/-- No segment is empty. -/
def Solid (segs : List Seg) : Prop := ∀ seg ∈ segs, seg.text ≠ []

theorem solid_append {first second : List Seg} :
    Solid (first ++ second) ↔ Solid first ∧ Solid second := by
  simp only [Solid, List.mem_append, or_imp, forall_and]

theorem solid_singleton {seg : Seg} : Solid [seg] ↔ seg.text ≠ [] := by
  simp [Solid]

theorem join_ne_nil (first second : Seg) : (first.join second).text ≠ [] := by
  simp [Seg.join, paragraphBreak]

theorem mergeSegment_solid {state : List Seg × Option Seg} {seg : Seg} (hseg : seg.text ≠ [])
    (h : Solid (state.1 ++ state.2.toList)) :
    Solid ((chunker.mergeSegment state seg).1 ++ (chunker.mergeSegment state seg).2.toList) := by
  obtain ⟨merged, current⟩ := state
  cases current with
  | none =>
    simp only [Option.toList_none, List.append_nil] at h
    exact solid_append.mpr ⟨h, solid_singleton.mpr hseg⟩
  | some current =>
    simp only [mergeSegment]
    split
    · exact solid_append.mpr ⟨(solid_append.mp h).1, solid_singleton.mpr (join_ne_nil _ _)⟩
    · exact solid_append.mpr ⟨h, solid_singleton.mpr hseg⟩

theorem mergeSmallParents_solid {segs : List Seg} (h : Solid segs) :
    Solid (chunker.mergeSmallParents segs) := by
  have hloop : ∀ (segs : List Seg) (state : List Seg × Option Seg), Solid segs →
      Solid (state.1 ++ state.2.toList) →
        Solid ((segs.foldl chunker.mergeSegment state).1 ++
          (segs.foldl chunker.mergeSegment state).2.toList) := by
    intro segs
    induction segs with
    | nil => exact fun _ _ h => h
    | cons seg segs ih =>
      intro state hsegs hstate
      apply ih _ fun other hother => hsegs other (List.mem_cons_of_mem _ hother)
      exact mergeSegment_solid (hsegs seg (List.mem_cons_self ..)) hstate
  have hend := hloop segs ([], none) h (by simp [Solid])
  unfold mergeSmallParents
  split
  · rename_i merged hsegs
    rw [hsegs] at hend
    exact (solid_append.mp hend).1
  · rename_i merged current hsegs
    rw [hsegs] at hend
    split
    · rename_i last hlast
      split
      · rw [← List.dropLast_append_getLast? last hlast] at hend
        exact solid_append.mpr
          ⟨(solid_append.mp (solid_append.mp hend).1).1, solid_singleton.mpr (join_ne_nil _ _)⟩
      · exact hend
    · exact hend

theorem splitLargeParents_solid {splitters : TextSplitters} (hdrops : splitters.DropsEmpty)
    {segs split : List Seg} (h : Solid segs)
    (hsplit : chunker.splitLargeParents splitters segs = .ok split) : Solid split := by
  unfold splitLargeParents TextSplitters.recursive at hsplit
  split at hsplit
  · cases hsplit
  · obtain rfl := Except.ok.inj hsplit
    intro seg hseg
    obtain ⟨whole, hwhole, hseg⟩ := List.mem_flatMap.mp hseg
    split at hseg
    · obtain ⟨piece, hpiece, rfl⟩ := List.mem_map.mp hseg
      exact hdrops.pieces _ _ _ piece hpiece
    · rw [List.mem_singleton.mp hseg]
      exact h whole hwhole

end Large

section Passes

variable {splitters : TextSplitters}

/-- The passes leave no segment too long if there is room between the sizes. -/
theorem passes_within (hbounded : splitters.Bounded)
    (hoverlap : chunker.childChunkOverlap ≤ chunker.maxParentSize)
    (hroom : chunker.minParentSize < chunker.maxParentSize) (text : List Char) :
    ∃ segs, chunker.passes splitters text = .ok segs ∧ chunker.Within segs := by
  obtain ⟨split, hsplit, hwithin⟩ := splitLargeParents_within hbounded hoverlap
    (chunker.mergeSmallParents (splitters.splitHeaders text))
  refine ⟨chunker.cleanSmallChunks split, ?_, cleanSmallChunks_within hroom hwithin⟩
  rw [passes, hsplit]
  rfl

/-- With parents of one character, no segment is small. -/
theorem passes_within_one (hbounded : splitters.Bounded) (hdrops : splitters.DropsEmpty)
    (hoverlap : chunker.childChunkOverlap ≤ chunker.maxParentSize)
    (hone : chunker.maxParentSize = 1) (text : List Char) :
    ∃ segs, chunker.passes splitters text = .ok segs ∧ chunker.Within segs := by
  obtain ⟨split, hsplit, hwithin⟩ := splitLargeParents_within hbounded hoverlap
    (chunker.mergeSmallParents (splitters.splitHeaders text))
  have hsolid := splitLargeParents_solid hdrops (mergeSmallParents_solid (hdrops.headers text)) hsplit
  have hlarge : ∀ seg ∈ split, chunker.isSmall seg = false := by
    intro seg hseg
    have hpos := List.length_pos_iff.mpr (hsolid seg hseg)
    have hle := chunker.min_le_max
    simp only [isSmall, decide_eq_false_iff_not]
    omega
  refine ⟨split, ?_, hwithin⟩
  rw [passes, hsplit]
  exact congrArg Except.ok (cleanSmallChunks_of_large hlarge)

/-- The large-parent splitter is made before any text is looked at. -/
theorem passes_overlap (hoverlap : chunker.maxParentSize < chunker.childChunkOverlap)
    (text : List Char) : chunker.passes splitters text =
      .error (.valueError "Got a larger chunk overlap than chunk size, should be smaller.") := by
  simp only [passes, splitLargeParents, TextSplitters.recursive, gt_iff_lt, if_pos hoverlap]
  rfl

end Passes

section Tight

/-- With equal sizes there is no room to cut two full parents and the separator. -/
theorem cut_tight {combined : List Char} (hsame : chunker.minParentSize = chunker.maxParentSize)
    (hlength : combined.length = 2 * chunker.maxParentSize + 1)
    (hright : (Text.lstrip (combined.drop chunker.maxParentSize)).length < chunker.maxParentSize) :
    chunker.cut combined =
      (combined.take chunker.maxParentSize, combined.drop chunker.maxParentSize) := by
  have hpos := chunker.min_pos
  have hample : chunker.isAmple combined = true := by
    simp only [isAmple, decide_eq_true_eq]
    omega
  have hlower : chunker.lowerCut combined = chunker.maxParentSize + 1 := by
    simp only [lowerCut, hample, if_true]
    omega
  have hupper : chunker.upperCut combined = chunker.maxParentSize := by
    simp only [upperCut, hample, if_true]
    omega
  have hpreferred : chunker.preferredCut combined = chunker.maxParentSize := by
    simp only [preferredCut, hlower, hupper]
    omega
  have hsplit : chunker.splitAt combined = chunker.maxParentSize := by
    simp only [splitAt, hlower, hupper, hpreferred]
    generalize hboundary : List.findSome? _ _ = boundary
    cases boundary with
    | none => rfl
    | some position =>
      obtain ⟨sep, hsep, hposition⟩ := List.exists_of_findSome?_eq_some hboundary
      have hlong : 0 < sep.length := by
        simp only [List.mem_cons, List.not_mem_nil, or_false] at hsep
        rcases hsep with rfl | rfl | rfl <;> decide
      rw [Option.or_eq_some_iff] at hposition
      rcases hposition with hbefore | ⟨-, hafter⟩
      · have hbounds := rfind_bounds hbefore
        omega
      · have hbounds := find_bounds hafter
        simp only [Option.getD_some]
        omega
  simp only [cut, hsplit, hample, hpreferred, hsame, hright, or_true, and_self, if_true]

/-- A text of two words, as long as a parent and one shorter. -/
def twoWords (size : Nat) : List Char :=
  List.replicate size 'a' ++ ' ' :: List.replicate (size - 1) 'b'

/-- Splits at spaces, and longer words after each `size` characters. -/
def cutWord (size : Nat) (word : List Char) : List (List Char) :=
  (List.range ((word.length + size - 1) / size)).map fun i => (word.drop (i * size)).take size

/-- Splitters for a text without headings. -/
def wordSplitters : TextSplitters where
  splitHeaders text := if text = [] then [] else [⟨text, []⟩]
  splitText chunkSize _ text := (text.splitOn ' ').flatMap (cutWord chunkSize)

theorem wordSplitters_bounded : wordSplitters.Bounded := by
  intro size _ text _ _ piece hpiece
  obtain ⟨word, -, hpiece⟩ := List.mem_flatMap.mp hpiece
  obtain ⟨i, -, rfl⟩ := List.mem_map.mp hpiece
  exact List.length_take_le ..

theorem wordSplitters_dropsEmpty : wordSplitters.DropsEmpty := by
  constructor
  · intro text seg hseg
    simp only [wordSplitters] at hseg
    split at hseg
    · cases hseg
    · rw [List.mem_singleton.mp hseg]
      assumption
  · intro size _ text piece hpiece
    obtain ⟨word, -, hpiece⟩ := List.mem_flatMap.mp hpiece
    obtain ⟨i, hi, rfl⟩ := List.mem_map.mp hpiece
    have hi := List.mem_range.mp hi
    have hsize : 0 < size := by
      by_contra hzero
      have hzero : size = 0 := by omega
      simp [hzero] at hi
    have hfull := (Nat.le_div_iff_mul_le hsize).mp (Nat.succ_le_of_lt hi)
    rw [Nat.succ_mul] at hfull
    apply List.ne_nil_of_length_pos
    rw [List.length_take, List.length_drop]
    omega

theorem cutWord_short {size : Nat} {word : List Char} (hword : word ≠ []) (hshort : word.length ≤ size) :
    cutWord size word = [word] := by
  have hpos := List.length_pos_iff.mpr hword
  have hone : (word.length + size - 1) / size = 1 := by
    apply Nat.div_eq_of_lt_le <;> omega
  simp [cutWord, hone, List.take_of_length_le hshort]

theorem splitText_twoWords {size overlap : Nat} (hsize : 2 ≤ size) :
    wordSplitters.splitText size overlap (twoWords size) =
      [List.replicate size 'a', List.replicate (size - 1) 'b'] := by
  have hfirst : ∀ c ∈ List.replicate size 'a', (c == ' ') = false := by
    intro c hc
    rw [List.eq_of_mem_replicate hc]
    decide
  have hsecond : ∀ c ∈ List.replicate (size - 1) 'b', (c == ' ') = false := by
    intro c hc
    rw [List.eq_of_mem_replicate hc]
    decide
  have hsplit : (twoWords size).splitOn ' ' =
      [List.replicate size 'a', List.replicate (size - 1) 'b'] := by
    rw [twoWords, List.splitOn_append_cons_of_forall_mem_beq_eq_false hfirst ' ' (by decide),
      List.splitOn_eq_singleton_of_beq_eq_false hsecond]
  have hne : ∀ {n : Nat} {c : Char}, 0 < n → List.replicate n c ≠ [] := by
    intro n c hn h
    simp only [List.replicate_eq_nil_iff] at h
    omega
  simp only [wordSplitters, hsplit, List.flatMap_cons, List.flatMap_nil]
  rw [cutWord_short (hne (by omega)) (by simp), cutWord_short (hne (by omega)) (by simp)]
  rfl

/-- The second word is too short for a parent, and with the separator too long. -/
theorem passes_twoWords (hsame : chunker.minParentSize = chunker.maxParentSize)
    (hsize : 2 ≤ chunker.maxParentSize)
    (hoverlap : chunker.childChunkOverlap ≤ chunker.maxParentSize) :
    ∃ segs, chunker.passes wordSplitters (twoWords chunker.maxParentSize) = .ok segs ∧
      ¬chunker.Within segs := by
  let first : Seg := ⟨List.replicate chunker.maxParentSize 'a', []⟩
  let second : Seg := ⟨List.replicate (chunker.maxParentSize - 1) 'b', []⟩
  have hfirst : chunker.isSmall first = false := by
    simp [isSmall, first, hsame]
  have hsecond : chunker.isSmall second = true := by
    simp only [isSmall, second, hsame, List.length_replicate, decide_eq_true_eq]
    omega
  have hunfit : chunker.fits first second = false := by
    simp only [fits, first, second, List.length_replicate, decide_eq_false_iff_not]
    omega
  have hclean : chunker.cleanSmallChunks [first, second] =
      [(chunker.rebalancePair first second).1, (chunker.rebalancePair first second).2] := by
    have hfold : chunker.foldSegments 2 [] first [second] = [first, second] := by
      simp [foldSegments, foldSegment, foldForward, hfirst, hsecond, hunfit]
    have hstart : chunker.rebalanceSegment [first, second] 0 = [first, second] := by
      simp [rebalanceSegment, hfirst]
    have hlast : chunker.rebalanceSegment [first, second] 1 =
        [(chunker.rebalancePair first second).1, (chunker.rebalancePair first second).2] := by
      simp [rebalanceSegment, rebalanceInto, hsecond]
    simp only [cleanSmallChunks, List.length_cons, List.length_nil]
    rw [hfold, rebalanceSegments]
    exact (congrArg (chunker.rebalanceSegment · 1) hstart).trans hlast
  refine ⟨chunker.cleanSmallChunks [first, second], ?_, ?_⟩
  · have haccepted : ¬chunker.childChunkOverlap > chunker.maxParentSize := by omega
    have hlong : (twoWords chunker.maxParentSize).length > chunker.maxParentSize := by
      simp only [twoWords, List.length_append, List.length_cons, List.length_replicate]
      omega
    have hheaders : wordSplitters.splitHeaders (twoWords chunker.maxParentSize) =
        [⟨twoWords chunker.maxParentSize, []⟩] := by
      have hsome : twoWords chunker.maxParentSize ≠ [] := List.ne_nil_of_length_pos (by omega)
      simp [wordSplitters, hsome]
    have hsplit : chunker.splitLargeParents wordSplitters
        (chunker.mergeSmallParents [⟨twoWords chunker.maxParentSize, []⟩]) = .ok [first, second] := by
      simp only [mergeSmallParents, List.foldl_cons, List.foldl_nil, mergeSegment, List.getLast?_nil,
        List.nil_append, splitLargeParents, TextSplitters.recursive, if_neg haccepted]
      simp [hlong, splitText_twoWords hsize, first, second, pure, Except.pure, bind, Except.bind]
    rw [passes, hheaders, hsplit]
    rfl
  · have hstripped : Text.rstrip first.text = first.text ∧ Text.lstrip second.text = second.text := by
      have ha : Planner.isSpace 'a' = false := by decide
      have hb : Planner.isSpace 'b' = false := by decide
      simp [Text.rstrip, Text.lstrip, List.rdropWhile, first, second, ha, hb]
    have hlength : (first.text ++ paragraphBreak ++ second.text).length =
        2 * chunker.maxParentSize + 1 := by
      simp only [first, second, paragraphBreak, List.length_append, List.length_replicate,
        List.length_cons, List.length_nil]
      omega
    have hdrop : (first.text ++ paragraphBreak ++ second.text).drop chunker.maxParentSize =
        paragraphBreak ++ second.text := by
      rw [List.append_assoc, List.drop_left' (List.length_replicate ..)]
    have hright : (Text.lstrip ((first.text ++ paragraphBreak ++ second.text).drop
        chunker.maxParentSize)).length < chunker.maxParentSize := by
      have hspace : Planner.isSpace '\n' = true := by decide
      have hsame : Text.lstrip (paragraphBreak ++ second.text) = Text.lstrip second.text := by
        simp [Text.lstrip, paragraphBreak, hspace]
      rw [hdrop, hsame, hstripped.2]
      simp only [second, List.length_replicate]
      omega
    have hcut := cut_tight hsame hlength hright
    rw [hdrop] at hcut
    have hboth : ¬((first.text ++ paragraphBreak ++ second.text).take chunker.maxParentSize = [] ∨
        paragraphBreak ++ second.text = []) := by
      rw [← List.length_eq_zero_iff, ← List.length_eq_zero_iff, List.length_take, hlength]
      simp only [paragraphBreak, List.length_append, List.length_cons, List.length_nil]
      omega
    have hsecond' : (chunker.rebalancePair first second).2.text = paragraphBreak ++ second.text := by
      simp only [rebalancePair, hstripped, hcut, if_neg hboth]
    intro hwithin
    rw [hclean] at hwithin
    have hle := hwithin (chunker.rebalancePair first second).2 (by simp)
    rw [hsecond'] at hle
    simp only [second, paragraphBreak, List.length_append, List.length_replicate, List.length_cons,
      List.length_nil] at hle
    omega

end Tight

/-- `chunk_markdown` returns, and no parent is longer than `max_parent_size`. -/
def ReturnsWithin (chunker : ParentChildChunker) (svc : Services) (content : String)
    (ref : VersionRef) : Prop :=
  ∃ parents children, svc.chunkMarkdown content ref = .ok (parents, children) ∧
    ∀ parent ∈ parents, parent.text.length ≤ chunker.maxParentSize

/-- What is returned has passed the check of its lengths. -/
theorem splitSections_eq_ok {splitters : TextSplitters} {content : String} {sections : List Section} :
    chunker.splitSections splitters content = .ok sections ↔
      ∃ segs, chunker.passes splitters content.toList = .ok segs ∧ chunker.Within segs ∧
        segs.map Seg.toSection = sections := by
  unfold splitSections
  cases chunker.passes splitters content.toList with
  | error e => simp [bind, Except.bind]
  | ok segs =>
    by_cases hwithin : chunker.Within segs
    · have hshort : (segs.any fun seg => decide (seg.text.length > chunker.maxParentSize)) = false := by
        simpa [Within] using hwithin
      simp [bind, Except.bind, pure, Except.pure, hwithin, hshort]
    · have hlong : (segs.any fun seg => decide (seg.text.length > chunker.maxParentSize)) = true := by
        simpa [Within] using hwithin
      simp [bind, Except.bind, hwithin, hlong]

theorem returnsWithin_iff {splitters : TextSplitters} {sha256 childPointId : String → String}
    {content : String} {ref : VersionRef} :
    chunker.ReturnsWithin (chunker.services splitters sha256 childPointId) content ref ↔
      ∃ segs, chunker.passes splitters content.toList = .ok segs ∧ chunker.Within segs := by
  unfold ReturnsWithin Services.chunkMarkdown
  constructor
  · rintro ⟨parents, children, hreturned, -⟩
    cases hsections : chunker.splitSections splitters content with
    | error e =>
      have herror : (chunker.services splitters sha256 childPointId).splitSections content =
        .error e := hsections
      rw [herror] at hreturned
      cases hreturned
    | ok sections =>
      obtain ⟨segs, hpasses, hwithin, -⟩ := splitSections_eq_ok.mp hsections
      exact ⟨segs, hpasses, hwithin⟩
  · rintro ⟨segs, hpasses, hwithin⟩
    have hsections := splitSections_eq_ok.mpr ⟨segs, hpasses, hwithin, rfl⟩
    refine ⟨_, _, congrArg (Except.map _) hsections, ?_⟩
    intro parent hparent
    obtain ⟨sec, hsec, rfl⟩ := List.mem_map.mp hparent
    obtain ⟨seg, hseg, rfl⟩ := List.mem_map.mp hsec
    simpa [Services.parentOf, Seg.toSection] using hwithin seg hseg

/-- Every text is chunked within the bound exactly under settings that leave room for it; with room between
the sizes, whatever the splitters make of the text. The splitters are parameters: their pieces keep to the
size they are given, and in the first part none is empty. -/
theorem chunkMarkdown_within (chunker : ParentChildChunker) :
    ((∀ splitters : TextSplitters, splitters.Bounded → splitters.DropsEmpty →
        ∀ sha256 childPointId content ref,
          chunker.ReturnsWithin (chunker.services splitters sha256 childPointId) content ref) ↔
      chunker.childChunkOverlap ≤ chunker.maxParentSize ∧
        (chunker.minParentSize < chunker.maxParentSize ∨ chunker.maxParentSize = 1)) ∧
    (chunker.childChunkOverlap ≤ chunker.maxParentSize →
      chunker.minParentSize < chunker.maxParentSize →
        ∀ splitters : TextSplitters, splitters.Bounded → ∀ sha256 childPointId content ref,
          chunker.ReturnsWithin (chunker.services splitters sha256 childPointId) content ref) := by
  refine ⟨⟨fun h => ?_, ?_⟩, ?_⟩
  · have hwords := fun text : List Char => returnsWithin_iff.mp
      (h wordSplitters wordSplitters_bounded wordSplitters_dropsEmpty id id (String.ofList text)
        ⟨⟨"", "", ""⟩, ""⟩)
    simp only [String.toList_ofList] at hwords
    have hoverlap : chunker.childChunkOverlap ≤ chunker.maxParentSize := by
      by_contra hlarge
      obtain ⟨segs, hreturned, -⟩ := hwords []
      rw [passes_overlap (by omega)] at hreturned
      cases hreturned
    refine ⟨hoverlap, ?_⟩
    by_contra htight
    have hle := chunker.min_le_max
    have hpos := chunker.min_pos
    obtain ⟨segs, hpasses, hlong⟩ := @passes_twoWords chunker (by omega) (by omega) hoverlap
    obtain ⟨segs', hreturned, hwithin⟩ := hwords (twoWords chunker.maxParentSize)
    rw [hpasses, Except.ok.injEq] at hreturned
    exact hlong (hreturned ▸ hwithin)
  · intro ⟨hoverlap, hsizes⟩ splitters hbounded hdrops sha256 childPointId content ref
    apply returnsWithin_iff.mpr
    rcases hsizes with hroom | hone
    · exact passes_within hbounded hoverlap hroom _
    · exact passes_within_one hbounded hdrops hoverlap hone _
  · intro hoverlap hroom splitters hbounded sha256 childPointId content ref
    exact returnsWithin_iff.mpr (passes_within hbounded hoverlap hroom _)

/-- Parents shorter than the default overlap of children. -/
def overlapping : ParentChildChunker where
  minParentSize := 1
  maxParentSize := 50
  childChunkSize := 500
  childChunkOverlap := 100
  min_pos := by decide
  min_le_max := by decide
  overlap_lt_size := by decide

def tight : ParentChildChunker where
  minParentSize := 4
  maxParentSize := 4
  childChunkSize := 500
  childChunkOverlap := 0
  min_pos := by decide
  min_le_max := by decide
  overlap_lt_size := by decide

theorem chunkMarkdown_within_refuted :
    init 1 50 defaultChildChunkSize defaultChildChunkOverlap = .ok overlapping ∧
    init 4 4 defaultChildChunkSize 0 = .ok tight ∧
    wordSplitters.Bounded ∧ wordSplitters.DropsEmpty ∧
    ¬overlapping.ReturnsWithin (overlapping.services wordSplitters id id) "Short"
      ⟨⟨"acme", "policies", "travel"⟩, "v1"⟩ ∧
    ¬tight.ReturnsWithin (tight.services wordSplitters id id) "aaaa bbb"
      ⟨⟨"acme", "policies", "travel"⟩, "v1"⟩ := by
  refine ⟨rfl, rfl, wordSplitters_bounded, wordSplitters_dropsEmpty, ?_, ?_⟩
  · rw [returnsWithin_iff]
    rintro ⟨segs, hreturned, -⟩
    rw [passes_overlap (by decide)] at hreturned
    cases hreturned
  · rw [returnsWithin_iff]
    rintro ⟨segs, hreturned, hwithin⟩
    obtain ⟨segs', hpasses, hlong⟩ := @passes_twoWords tight rfl (by decide) (by decide)
    have htext : twoWords tight.maxParentSize = "aaaa bbb".toList := by decide
    rw [htext, hreturned, Except.ok.injEq] at hpasses
    exact hlong (hpasses ▸ hwithin)

end ParentChildChunker

end AgenticRag
