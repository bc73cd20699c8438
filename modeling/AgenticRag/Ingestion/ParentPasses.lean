import Mathlib.Data.List.DropRight
import AgenticRag.Ingestion.Chunker
import AgenticRag.Planner.Binding

/-!
# Passes over the parents

The passes of `ParentChildChunker` in `ingestion/chunker.py` over the segments of a document.
The text splitters of langchain are parameters; a text is a list of characters.
-/

namespace AgenticRag

/-- `_Seg`; the metadata is a dictionary in insertion order. -/
structure Seg where
  text : List Char
  metadata : List (String × String)
  deriving DecidableEq, Repr

structure TextSplitters where
  /-- `MarkdownHeaderTextSplitter.split_text` for the headers to split on -/
  splitHeaders : List Char → List Seg
  /-- `split_text` of `RecursiveCharacterTextSplitter(chunk_size, chunk_overlap)` -/
  splitText (chunkSize chunkOverlap : Nat) : List Char → List (List Char)

/-- `RecursiveCharacterTextSplitter(chunk_size, chunk_overlap)`. -/
def TextSplitters.recursive (splitters : TextSplitters) (chunkSize chunkOverlap : Nat) :
    Except PyError (List Char → List (List Char)) :=
  if chunkOverlap > chunkSize then
    .error (.valueError "Got a larger chunk overlap than chunk size, should be smaller.")
  else .ok (splitters.splitText chunkSize chunkOverlap)

namespace Text

/-- `str.lstrip()`, on characters. -/
def lstrip (text : List Char) : List Char := text.dropWhile Planner.isSpace

/-- `str.rstrip()`. -/
def rstrip (text : List Char) : List Char := text.rdropWhile Planner.isSpace

/-- Whether the slice from `start` to `stop` has the separator at the position. -/
def occursAt (text sep : List Char) (start stop position : Nat) : Bool :=
  decide (start ≤ position ∧ position + sep.length ≤ stop) && sep.isPrefixOf (text.drop position)

/-- `str.find(sep, start, stop)`. -/
def find (text sep : List Char) (start stop : Nat) : Option Nat :=
  (List.range text.length).find? (occursAt text sep start stop)

/-- `str.rfind(sep, start, stop)`. -/
def rfind (text sep : List Char) (start stop : Nat) : Option Nat :=
  (List.range text.length).reverse.find? (occursAt text sep start stop)

end Text

/-- The separator between joined segments. -/
def paragraphBreak : List Char := ['\n', '\n']

def mergeMetadata (a b : List (String × String)) : List (String × String) :=
  (a.map fun (key, av) =>
      match b.lookup key with
      | none => (key, av)
      | some bv => (key, if av = bv then av else av ++ " -> " ++ bv)) ++
    b.filter fun (key, _) => (a.lookup key).isNone

/-- A segment and the one after it as one segment. -/
def Seg.join (first second : Seg) : Seg where
  text := first.text ++ paragraphBreak ++ second.text
  metadata := mergeMetadata first.metadata second.metadata

structure ParentChildChunker where
  minParentSize : Nat
  maxParentSize : Nat
  childChunkSize : Nat
  childChunkOverlap : Nat
  min_pos : 0 < minParentSize
  min_le_max : minParentSize ≤ maxParentSize
  overlap_lt_size : childChunkOverlap < childChunkSize

def defaultMinParentSize : Int := 2000

def defaultMaxParentSize : Int := 4000

def defaultChildChunkSize : Int := 500

def defaultChildChunkOverlap : Int := 100

namespace ParentChildChunker

def init (minParentSize maxParentSize childChunkSize childChunkOverlap : Int) :
    Except PyError ParentChildChunker :=
  if hparent : minParentSize ≤ 0 ∨ maxParentSize < minParentSize then
    .error (.valueError "max_parent_size must be >= min_parent_size > 0")
  else if hchild : ¬(0 ≤ childChunkOverlap ∧ childChunkOverlap < childChunkSize) then
    .error (.valueError "child_chunk_overlap must be in [0, child_chunk_size)")
  else .ok
    { minParentSize := minParentSize.toNat
      maxParentSize := maxParentSize.toNat
      childChunkSize := childChunkSize.toNat
      childChunkOverlap := childChunkOverlap.toNat
      min_pos := by omega
      min_le_max := by omega
      overlap_lt_size := by omega }

variable (chunker : ParentChildChunker)

/-- Every chunker is constructed from its sizes. -/
theorem init_sizes : init chunker.minParentSize chunker.maxParentSize chunker.childChunkSize
    chunker.childChunkOverlap = .ok chunker := by
  have hpos := chunker.min_pos
  have hle := chunker.min_le_max
  have hlt := chunker.overlap_lt_size
  have hparent : ¬((chunker.minParentSize : Int) ≤ 0 ∨
      (chunker.maxParentSize : Int) < chunker.minParentSize) := by omega
  have hchild : ¬¬(0 ≤ (chunker.childChunkOverlap : Int) ∧
      (chunker.childChunkOverlap : Int) < chunker.childChunkSize) := by omega
  simp only [init, dif_neg hparent, dif_neg hchild, Int.toNat_natCast]

/-- Whether a segment is below `min_parent_size`. -/
def isSmall (seg : Seg) : Bool := decide (seg.text.length < chunker.minParentSize)

/-- One segment in the loop of `_merge_small_parents`. -/
def mergeSegment (state : List Seg × Option Seg) (seg : Seg) : List Seg × Option Seg :=
  match state with
  | (merged, none) => (merged, some seg)
  | (merged, some current) =>
    if chunker.isSmall current then (merged, some (current.join seg))
    else (merged ++ [current], some seg)

def mergeSmallParents (segs : List Seg) : List Seg :=
  match segs.foldl chunker.mergeSegment ([], none) with
  | (merged, none) => merged
  | (merged, some current) =>
    match merged.getLast? with
    | some last =>
      if chunker.isSmall current then merged.dropLast ++ [last.join current]
      else merged ++ [current]
    | none => merged ++ [current]

def splitLargeParents (splitters : TextSplitters) (segs : List Seg) : Except PyError (List Seg) := do
  let splitText ← splitters.recursive chunker.maxParentSize chunker.childChunkOverlap
  return segs.flatMap fun seg =>
    if seg.text.length > chunker.maxParentSize then
      (splitText seg.text).map fun part => ⟨part, seg.metadata⟩
    else [seg]

/-- Whether both sides of a cut can reach `min_parent_size`. -/
def isAmple (combined : List Char) : Bool :=
  decide (2 * chunker.minParentSize ≤ combined.length)

/-- The first position to cut at. -/
def lowerCut (combined : List Char) : Nat :=
  let lower := max 1 (combined.length - chunker.maxParentSize)
  if chunker.isAmple combined then max lower chunker.minParentSize else lower

/-- The last position to cut at. -/
def upperCut (combined : List Char) : Nat :=
  let upper := min chunker.maxParentSize (combined.length - 1)
  if chunker.isAmple combined then min upper (combined.length - chunker.minParentSize) else upper

def preferredCut (combined : List Char) : Nat :=
  min (max (combined.length / 2) (chunker.lowerCut combined)) (chunker.upperCut combined)

/-- The loop over the separators: the last one before the preferred position, or else the
first one after it. -/
def splitAt (combined : List Char) : Nat :=
  let preferred := chunker.preferredCut combined
  let boundary := [paragraphBreak, ['\n'], [' ']].findSome? fun sep =>
    (Text.rfind combined sep (chunker.lowerCut combined) (preferred + 1)).or
      (Text.find combined sep preferred (chunker.upperCut combined + 1))
  boundary.getD preferred

/-- The texts of a rebalanced pair. -/
def cut (combined : List Char) : List Char × List Char :=
  let left := Text.rstrip (combined.take (chunker.splitAt combined))
  let right := Text.lstrip (combined.drop (chunker.splitAt combined))
  if chunker.isAmple combined ∧
      (left.length < chunker.minParentSize ∨ right.length < chunker.minParentSize) then
    (combined.take (chunker.preferredCut combined), combined.drop (chunker.preferredCut combined))
  else (left, right)

def rebalancePair (first second : Seg) : Seg × Seg :=
  let texts := chunker.cut (Text.rstrip first.text ++ paragraphBreak ++ Text.lstrip second.text)
  if texts.1 = [] ∨ texts.2 = [] then (first, second)
  else
    let metadata := mergeMetadata first.metadata second.metadata
    (⟨texts.1, metadata⟩, ⟨texts.2, metadata⟩)

/-- Whether two segments fit into one parent with the separator between them. -/
def fits (first second : Seg) : Bool :=
  decide (first.text.length + 2 + second.text.length ≤ chunker.maxParentSize)

/-- A small segment is folded into the next one if it fits. -/
def foldForward (out : List Seg) (seg : Seg) (next : Option Seg) : List Seg × Option Seg :=
  match next with
  | some nxt => if chunker.fits nxt seg then (out, some (seg.join nxt)) else (out ++ [seg], next)
  | none => (out ++ [seg], none)

/-- One segment in the first loop of `_clean_small_chunks`: what is put out, and the segment
after it, which it may be folded into. -/
def foldSegment (n : Nat) (out : List Seg) (seg : Seg) (next : Option Seg) :
    List Seg × Option Seg :=
  if ¬chunker.isSmall seg ∨ n = 1 then (out ++ [seg], next)
  else
    match out.getLast? with
    | some prev =>
      if chunker.fits prev seg then (out.dropLast ++ [prev.join seg], next)
      else chunker.foldForward out seg next
    | none => chunker.foldForward out seg next

/-- The first loop of `_clean_small_chunks` from some segment on. -/
def foldSegments (n : Nat) : List Seg → Seg → List Seg → List Seg
  | out, seg, [] => (chunker.foldSegment n out seg none).1
  | out, seg, next :: rest =>
    match chunker.foldSegment n out seg (some next) with
    | (out, next') => foldSegments n out (next'.getD next) rest

/-- The pair at some position and the one after it is rebalanced. -/
def rebalanceInto (out : List Seg) (position : Nat) : List Seg :=
  match out[position]?, out[position + 1]? with
  | some first, some second =>
    let pair := chunker.rebalancePair first second
    (out.set position pair.1).set (position + 1) pair.2
  | _, _ => out

/-- One segment in the second loop of `_clean_small_chunks`. -/
def rebalanceSegment (out : List Seg) (i : Nat) : List Seg :=
  match out[i]? with
  | none => out
  | some seg =>
    if ¬chunker.isSmall seg ∨ out.length = 1 then out
    else if i < out.length - 1 then chunker.rebalanceInto out i
    else chunker.rebalanceInto out (i - 1)

/-- The second loop of `_clean_small_chunks`. -/
def rebalanceSegments (out : List Seg) : List Seg :=
  (List.range out.length).foldl chunker.rebalanceSegment out

def cleanSmallChunks (segs : List Seg) : List Seg :=
  match segs with
  | [] => []
  | seg :: rest => chunker.rebalanceSegments (chunker.foldSegments segs.length [] seg rest)

end ParentChildChunker

section Ink

variable {text : List Char} {segs : List Seg}

/-- The characters that are not whitespace. -/
def ink (text : List Char) : List Char := text.filter fun c => !Planner.isSpace c

/-- The concatenation of segments. -/
def Seg.concat (segs : List Seg) : List Char := (segs.map Seg.text).flatten

@[simp] theorem ink_nil : ink [] = [] := rfl

@[simp] theorem ink_append (first second : List Char) :
    ink (first ++ second) = ink first ++ ink second :=
  List.filter_append ..

@[simp] theorem ink_paragraphBreak : ink paragraphBreak = [] := by
  decide

@[simp] theorem ink_lstrip (text : List Char) : ink (Text.lstrip text) = ink text := by
  induction text with
  | nil => rfl
  | cons c text ih =>
    simp only [Text.lstrip, ink, List.dropWhile_cons, List.filter_cons] at ih ⊢
    by_cases hspace : Planner.isSpace c = true
    · simpa [hspace] using ih
    · simp [hspace]

theorem ink_reverse (text : List Char) : ink text.reverse = (ink text).reverse :=
  List.filter_reverse

@[simp] theorem ink_rstrip (text : List Char) : ink (Text.rstrip text) = ink text := by
  have hlstrip := ink_lstrip text.reverse
  unfold Text.rstrip List.rdropWhile
  rw [ink_reverse]
  unfold Text.lstrip at hlstrip
  rw [hlstrip, ink_reverse, List.reverse_reverse]

@[simp] theorem Seg.concat_nil : Seg.concat [] = [] := rfl

@[simp] theorem Seg.concat_cons (seg : Seg) (segs : List Seg) :
    Seg.concat (seg :: segs) = seg.text ++ Seg.concat segs := rfl

@[simp] theorem Seg.concat_append (first second : List Seg) :
    Seg.concat (first ++ second) = Seg.concat first ++ Seg.concat second := by
  simp [Seg.concat]

@[simp] theorem ink_join (first second : Seg) :
    ink (first.join second).text = ink first.text ++ ink second.text := by
  simp [Seg.join]

end Ink

namespace ParentChildChunker

variable (chunker : ParentChildChunker)

/-- Either there is no pair at the position, or the pair is replaced by the rebalanced one. -/
theorem rebalanceInto_cases (out : List Seg) (position : Nat) :
    chunker.rebalanceInto out position = out ∨
      ∃ before after first second, out = before ++ first :: second :: after ∧
        out[position]? = some first ∧ out[position + 1]? = some second ∧
        chunker.rebalanceInto out position = before ++ (chunker.rebalancePair first second).1 ::
          (chunker.rebalancePair first second).2 :: after := by
  unfold rebalanceInto
  split
  · rename_i first second hfirst hsecond
    obtain ⟨hlt, hfirst'⟩ := List.getElem?_eq_some_iff.mp hfirst
    obtain ⟨hlt', hsecond'⟩ := List.getElem?_eq_some_iff.mp hsecond
    have hsplit : out = out.take position ++ first :: second :: out.drop (position + 2) := by
      rw [← hfirst', ← hsecond', List.getElem_cons_drop, List.getElem_cons_drop,
        List.take_append_drop]
    have hlength : (out.take position).length = position := by
      rw [List.length_take]
      omega
    refine .inr ⟨out.take position, out.drop (position + 2), first, second, hsplit, hfirst, hsecond, ?_⟩
    generalize out.take position = before at hsplit hlength
    generalize out.drop (position + 2) = after at hsplit
    subst hsplit hlength
    simp
  · exact .inl rfl

section Merge

/-- The loop holds the segments it has put out and the current one. -/
theorem ink_mergeSegment (state : List Seg × Option Seg) (seg : Seg) :
    ink (Seg.concat ((chunker.mergeSegment state seg).1 ++
        (chunker.mergeSegment state seg).2.toList)) =
      ink (Seg.concat (state.1 ++ state.2.toList)) ++ ink seg.text := by
  obtain ⟨merged, current⟩ := state
  cases current with
  | none => simp [mergeSegment]
  | some current =>
    simp only [mergeSegment]
    split <;> simp

theorem ink_foldl_mergeSegment (state : List Seg × Option Seg) (segs : List Seg) :
    ink (Seg.concat ((segs.foldl chunker.mergeSegment state).1 ++
        (segs.foldl chunker.mergeSegment state).2.toList)) =
      ink (Seg.concat (state.1 ++ state.2.toList)) ++ ink (Seg.concat segs) := by
  induction segs generalizing state with
  | nil => simp
  | cons seg segs ih =>
    rw [List.foldl_cons, ih, ink_mergeSegment, Seg.concat_cons, ink_append, List.append_assoc]

theorem ink_mergeSmallParents (segs : List Seg) :
    ink (Seg.concat (chunker.mergeSmallParents segs)) = ink (Seg.concat segs) := by
  have hloop := ink_foldl_mergeSegment chunker ([], none) segs
  unfold mergeSmallParents
  split
  · rename_i merged hend
    rw [hend] at hloop
    simpa using hloop
  · rename_i merged current hend
    rw [hend] at hloop
    split
    · rename_i last hlast
      have hsplit : merged.dropLast ++ [last] = merged := List.dropLast_append_getLast? last hlast
      rw [← hsplit] at hloop
      split
      · simpa using hloop
      · rw [← hsplit]
        simpa using hloop
    · simpa using hloop

end Merge

section Clean

theorem ink_cut (combined : List Char) :
    ink (chunker.cut combined).1 ++ ink (chunker.cut combined).2 = ink combined := by
  have hsplit : ∀ position, ink (combined.take position) ++ ink (combined.drop position) =
      ink combined := by
    intro position
    rw [← ink_append, List.take_append_drop]
  simp only [cut]
  split
  · exact hsplit _
  · simpa using hsplit _

theorem ink_rebalancePair (first second : Seg) :
    ink (chunker.rebalancePair first second).1.text ++
        ink (chunker.rebalancePair first second).2.text =
      ink first.text ++ ink second.text := by
  simp only [rebalancePair]
  split
  · rfl
  · simp [ink_cut chunker]

theorem ink_rebalanceInto (out : List Seg) (position : Nat) :
    ink (Seg.concat (chunker.rebalanceInto out position)) = ink (Seg.concat out) := by
  rcases chunker.rebalanceInto_cases out position with hsame | ⟨before, after, first, second, hout, -, -, hnew⟩
  · rw [hsame]
  · have hpair := ink_rebalancePair chunker first second
    rw [hnew, hout]
    simp only [Seg.concat_append, Seg.concat_cons, ink_append]
    rw [← List.append_assoc (ink _) (ink _) (ink (Seg.concat after)), hpair, List.append_assoc]

theorem ink_rebalanceSegment (out : List Seg) (i : Nat) :
    ink (Seg.concat (chunker.rebalanceSegment out i)) = ink (Seg.concat out) := by
  unfold rebalanceSegment
  split
  · rfl
  · split
    · rfl
    · split <;> exact ink_rebalanceInto ..

theorem ink_rebalanceSegments (out : List Seg) :
    ink (Seg.concat (chunker.rebalanceSegments out)) = ink (Seg.concat out) := by
  have hloop : ∀ (indices : List Nat) (out : List Seg),
      ink (Seg.concat (indices.foldl chunker.rebalanceSegment out)) = ink (Seg.concat out) := by
    intro indices
    induction indices with
    | nil => exact fun _ => rfl
    | cons i indices ih => exact fun out => (ih _).trans (ink_rebalanceSegment chunker out i)
  exact hloop _ out

theorem ink_foldForward (out : List Seg) (seg : Seg) (next : Option Seg) :
    ink (Seg.concat ((chunker.foldForward out seg next).1 ++
        (chunker.foldForward out seg next).2.toList)) =
      ink (Seg.concat (out ++ seg :: next.toList)) := by
  cases next with
  | none => simp [foldForward]
  | some nxt =>
    simp only [foldForward]
    split <;> simp

/-- The segment is put out or folded into a neighbour. -/
theorem ink_foldSegment (n : Nat) (out : List Seg) (seg : Seg) (next : Option Seg) :
    ink (Seg.concat ((chunker.foldSegment n out seg next).1 ++
        (chunker.foldSegment n out seg next).2.toList)) =
      ink (Seg.concat (out ++ seg :: next.toList)) := by
  unfold foldSegment
  split
  · simp
  · split
    · rename_i prev hprev
      have hsplit : out.dropLast ++ [prev] = out := List.dropLast_append_getLast? prev hprev
      split
      · rw [← hsplit]
        simp
      · exact ink_foldForward ..
    · exact ink_foldForward ..

theorem foldForward_isSome (out : List Seg) (seg : Seg) (next : Option Seg) :
    (chunker.foldForward out seg next).2.isSome = next.isSome := by
  cases next with
  | none => rfl
  | some nxt =>
    simp only [foldForward]
    split <;> rfl

theorem foldSegment_isSome (n : Nat) (out : List Seg) (seg : Seg) (next : Option Seg) :
    (chunker.foldSegment n out seg next).2.isSome = next.isSome := by
  unfold foldSegment
  split
  · rfl
  · split
    · split
      · rfl
      · exact foldForward_isSome ..
    · exact foldForward_isSome ..

theorem ink_foldSegments (n : Nat) (out : List Seg) (seg : Seg) (rest : List Seg) :
    ink (Seg.concat (chunker.foldSegments n out seg rest)) =
      ink (Seg.concat (out ++ seg :: rest)) := by
  induction rest generalizing out seg with
  | nil =>
    have hlast := ink_foldSegment chunker n out seg none
    have hnone : (chunker.foldSegment n out seg none).2 = none := by
      simpa using foldSegment_isSome chunker n out seg none
    rw [hnone] at hlast
    simpa [foldSegments] using hlast
  | cons next rest ih =>
    have hstep := ink_foldSegment chunker n out seg (some next)
    obtain ⟨next', hnext⟩ := Option.isSome_iff_exists.mp
      (foldSegment_isSome chunker n out seg (some next))
    rw [hnext] at hstep
    simp only [foldSegments, hnext, Option.getD_some]
    rw [ih]
    simp only [Option.toList_some, Seg.concat_append, Seg.concat_cons, Seg.concat_nil, ink_append,
      List.append_nil] at hstep ⊢
    rw [← List.append_assoc, hstep]
    simp

theorem ink_cleanSmallChunks (segs : List Seg) :
    ink (Seg.concat (chunker.cleanSmallChunks segs)) = ink (Seg.concat segs) := by
  cases segs with
  | nil => rfl
  | cons seg rest =>
    simp only [cleanSmallChunks]
    rw [ink_rebalanceSegments, ink_foldSegments, List.nil_append]

/-- Merging and cleaning keep every character but whitespace, in order. The sections are arbitrary, and so
are the sizes of the chunker. -/
theorem ink_clean_merge (segs : List Seg) :
    ink (Seg.concat (chunker.cleanSmallChunks (chunker.mergeSmallParents segs))) =
      ink (Seg.concat segs) := by
  rw [ink_cleanSmallChunks, ink_mergeSmallParents]

end Clean

end ParentChildChunker

end AgenticRag
