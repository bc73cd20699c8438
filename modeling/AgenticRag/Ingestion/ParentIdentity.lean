import AgenticRag.Foundations.Joining
import AgenticRag.Ingestion.Chunker

/-!
# What the id of a parent stands for

`_make_parent_id` joins tenant, corpus, document, version, section path and text and hashes the
joined string, so parents with the same string share their id and their place in the parent
store. Nothing is escaped, neither `|` nor the ` > ` between headings.
-/

namespace AgenticRag

namespace Services

/-- The string `_make_parent_id` hashes. -/
def parentBlob (ref : VersionRef) (path : List String) (text : String) : String :=
  String.intercalate "|"
    [ref.doc.tenantId, ref.doc.corpusId, ref.doc.documentId, ref.version,
      String.intercalate " > " path, text]

/-- The id is that of the joined string. -/
theorem makeParentId_eq (svc : Services) (ref : VersionRef) (path : List String) (text : String) :
    svc.makeParentId ref path text = svc.contentId (parentBlob ref path text) := rfl

end Services

/-- What the id of a parent is made of. -/
structure ParentKey where
  ref : VersionRef
  path : List String
  text : String
  deriving DecidableEq, Repr

namespace ParentKey

open Joining

variable {key : ParentKey} {path : List String}

def blob (key : ParentKey) : String := Services.parentBlob key.ref key.path key.text

/-- No part has the character between the parts. -/
def BarFree (key : ParentKey) : Prop :=
  ∀ part ∈ key.ref.doc.tenantId :: key.ref.doc.corpusId :: key.ref.doc.documentId :: key.ref.version ::
    key.text :: key.path, '|' ∉ part.toList

/-- A path that `_section_path` gives. -/
def IsSectionPath (path : List String) : Prop := ∃ seg : Section, Services.sectionPath seg = path

/-- At most three headings, none of them empty. -/
theorem isSectionPath_iff : IsSectionPath path ↔ "" ∉ path ∧ path.length ≤ 3 := by
  constructor
  · rintro ⟨seg, rfl⟩
    constructor
    · intro hempty
      obtain ⟨level, -, hlevel⟩ := List.mem_filterMap.mp hempty
      split at hlevel
      · split at hlevel
        · cases hlevel
        · rename_i value hvalue
          exact hvalue (Option.some.inj hlevel)
      · cases hlevel
    · exact List.length_filterMap_le _ _
  · rintro ⟨hempty, hlength⟩
    refine ⟨⟨"", ["H1", "H2", "H3"].zip path⟩, ?_⟩
    match path with
    | [] => rfl
    | [first] =>
      simp only [List.mem_cons, not_or, eq_comm] at hempty
      simp [Services.sectionPath, hempty]
    | [first, second] =>
      simp only [List.mem_cons, not_or, eq_comm] at hempty
      simp [Services.sectionPath, List.lookup_cons, hempty]
    | [first, second, third] =>
      simp only [List.mem_cons, not_or, eq_comm] at hempty
      simp [Services.sectionPath, List.lookup_cons, hempty]
    | _ :: _ :: _ :: _ :: _ =>
      simp only [List.length_cons] at hlength
      omega

section Joined

/-- The headings as they stand between the bars. -/
def joinedPath (path : List String) : List Char := " > ".toList.intercalate (path.map String.toList)

/-- The parts between which the bars stand. -/
def parts (key : ParentKey) : List (List Char) :=
  [key.ref.doc.tenantId.toList, key.ref.doc.corpusId.toList, key.ref.doc.documentId.toList,
    key.ref.version.toList, joinedPath key.path, key.text.toList]

theorem blob_toList (key : ParentKey) : key.blob.toList = ['|'].intercalate key.parts := by
  simp [blob, Services.parentBlob, parts, joinedPath, String.toList_intercalate]

theorem barFree_iff : key.BarFree ↔ ∀ part ∈ key.parts, '|' ∉ part := by
  have hpath : '|' ∉ joinedPath key.path ↔ ∀ heading ∈ key.path, '|' ∉ heading.toList := by
    rw [joinedPath, mem_joined (by decide)]
    simp
  simp only [BarFree, parts, List.forall_mem_cons, hpath, List.not_mem_nil, false_implies, implies_true,
    and_true]
  tauto

theorem map_toList_injective : Function.Injective (List.map String.toList) :=
  List.map_injective_iff.mpr fun _ _ => String.toList_injective

/-- The bars tell the parts, and then the path remains. -/
theorem blob_determined_iff {P : List String → Prop} (hP : ∀ joined, ∃ path, P path ∧ joinedPath path = joined) :
    Determined blob (fun other => P other.path) key ↔ key.BarFree ∧ Determined joinedPath P key.path := by
  have hblob : Determined blob (fun other => P other.path) key ↔
      Determined (List.intercalate ['|'] ∘ parts) (fun other => P other.path) key := by
    refine forall_congr' fun other => imp_congr_right fun _ => imp_congr_left ?_
    rw [← String.toList_inj, blob_toList, blob_toList]
    rfl
  have hrange (joined : List (List Char)) :
      (∃ other : ParentKey, P other.path ∧ other.parts = joined) ↔ joined.length = key.parts.length := by
    constructor
    · rintro ⟨other, -, rfl⟩
      rfl
    · intro hlength
      match joined with
      | [tenantId, corpusId, documentId, version, headings, text] =>
        obtain ⟨path, hpath, rfl⟩ := hP headings
        refine ⟨⟨⟨⟨String.ofList tenantId, String.ofList corpusId, String.ofList documentId⟩,
          String.ofList version⟩, path, String.ofList text⟩, hpath, ?_⟩
        simp [parts]
  have hparts : Determined parts (fun other => P other.path) key ↔ Determined joinedPath P key.path := by
    constructor
    · intro h path hpath heq
      have hsame := h { key with path := path } hpath (by simp only [parts, heq])
      exact congrArg ParentKey.path hsame
    · rintro h ⟨⟨⟨tenantId, corpusId, documentId⟩, version⟩, path, text⟩ hpath heq
      obtain ⟨⟨⟨tenantId', corpusId', documentId'⟩, version'⟩, path', text'⟩ := key
      simp only [parts, List.cons.injEq, String.toList_inj, and_true] at heq
      obtain ⟨rfl, rfl, rfl, rfl, hheadings, rfl⟩ := heq
      obtain rfl := h path hpath hheadings
      rfl
  rw [hblob, determined_comp, determined_congr hrange, joined_determined_iff (by simp [parts]), ← barFree_iff,
    hparts]

/-- Which paths are told from the joined headings, among those in `P`. -/
theorem joinedPath_determined {P : List String → Prop} {Q : List (List Char) → Prop}
    (hQ : ∀ headings, (∃ path, P path ∧ path.map String.toList = headings) ↔ Q headings) :
    Determined joinedPath P path ↔ Determined (List.intercalate " > ".toList) Q (path.map String.toList) := by
  have hcomp : joinedPath = List.intercalate " > ".toList ∘ List.map String.toList := rfl
  rw [hcomp, determined_comp, determined_congr hQ]
  exact and_iff_left (determined_of_injective map_toList_injective)

theorem joinedPath_determined_iff : Determined joinedPath (fun _ => True) path ↔
    ∃ heading, path = [heading] ∧ heading ≠ "" ∧ ¬" > ".toList <:+: heading.toList := by
  rw [joinedPath_determined (Q := fun _ => True), word_determined_iff]
  · constructor
    · rintro ⟨field, hfield, hne, hword⟩
      obtain ⟨heading, rfl, rfl⟩ := List.map_eq_singleton_iff.mp hfield
      exact ⟨heading, rfl, by simpa using hne, hword⟩
    · rintro ⟨heading, rfl, hne, hword⟩
      exact ⟨heading.toList, rfl, by simpa using hne, hword⟩
  · intro headings
    refine iff_of_true ⟨headings.map String.ofList, trivial, ?_⟩ trivial
    simp [Function.comp_def]

/-- A heading that reads like two: ` > ` with text before and after it. -/
def ReadsLikeTwo (heading : String) : Prop :=
  ∃ before after, before ≠ "" ∧ after ≠ "" ∧ heading = before ++ " > " ++ after

theorem sectionPath_determined_iff (hpath : IsSectionPath path) : Determined joinedPath IsSectionPath path ↔
    path = [] ∨ ∃ heading, path = [heading] ∧ ¬ReadsLikeTwo heading := by
  have hsections (headings : List (List Char)) :
      (∃ path, IsSectionPath path ∧ path.map String.toList = headings) ↔ [] ∉ headings ∧ headings.length ≤ 3 := by
    constructor
    · rintro ⟨path, hpath, rfl⟩
      obtain ⟨hempty, hlength⟩ := isSectionPath_iff.mp hpath
      exact ⟨by simpa using hempty, by simpa using hlength⟩
    · rintro ⟨hempty, hlength⟩
      refine ⟨headings.map String.ofList, isSectionPath_iff.mpr ⟨?_, by simpa using hlength⟩, ?_⟩
      · simpa using hempty
      · simp [Function.comp_def]
  have hreads (heading : String) : ReadsLikeTwo heading ↔
      ∃ before after, before ≠ [] ∧ after ≠ [] ∧ heading.toList = before ++ " > ".toList ++ after := by
    constructor
    · rintro ⟨before, after, hbefore, hafter, rfl⟩
      exact ⟨before.toList, after.toList, by simpa using hbefore, by simpa using hafter, by simp⟩
    · rintro ⟨before, after, hbefore, hafter, heq⟩
      refine ⟨String.ofList before, String.ofList after, by simpa using hbefore, by simpa using hafter, ?_⟩
      apply String.toList_injective
      simpa using heq
  have hnonempty : [] ∉ path.map String.toList := by simpa using (isSectionPath_iff.mp hpath).1
  rw [joinedPath_determined hsections, word_determined_nonempty_iff (by omega) (by decide) hnonempty,
    List.map_eq_nil_iff]
  refine or_congr_right ?_
  constructor
  · rintro ⟨field, hfield, hword⟩
    obtain ⟨heading, rfl, rfl⟩ := List.map_eq_singleton_iff.mp hfield
    exact ⟨heading, rfl, fun h => hword ((hreads heading).mp h)⟩
  · rintro ⟨heading, rfl, hword⟩
    exact ⟨heading.toList, rfl, fun h => hword ((hreads heading).mpr h)⟩

end Joined

/-- Every text is the joined text of a path, and of a path of a section. -/
theorem exists_path (joined : List Char) : ∃ path, IsSectionPath path ∧ joinedPath path = joined := by
  by_cases hjoined : joined = []
  · exact ⟨[], isSectionPath_iff.mpr (by simp), hjoined.symm⟩
  · have hheading : "" ≠ String.ofList joined := by
      intro h
      exact hjoined (by simpa using congrArg String.toList h.symm)
    exact ⟨[String.ofList joined], isSectionPath_iff.mpr (by simp [hheading]), by simp [joinedPath]⟩

/-- The hashed string tells its key from all others exactly if no part has a bar and the path
is one heading, not empty and without ` > `. Among the keys with the path of a section it does
so exactly if no part has a bar and the path is empty or one heading that does not read like
two. -/
theorem blob_determines_iff (key : ParentKey) :
    ((∀ other : ParentKey, other.blob = key.blob → other = key) ↔
      key.BarFree ∧ ∃ heading, key.path = [heading] ∧ heading ≠ "" ∧ ¬" > ".toList <:+: heading.toList) ∧
    (IsSectionPath key.path →
      ((∀ other : ParentKey, IsSectionPath other.path → other.blob = key.blob → other = key) ↔
        key.BarFree ∧ (key.path = [] ∨ ∃ heading, key.path = [heading] ∧ ¬ReadsLikeTwo heading))) := by
  constructor
  · have hall : (∀ other : ParentKey, other.blob = key.blob → other = key) ↔
        Determined blob (fun _ => True) key :=
      forall_congr' fun _ => ⟨fun h _ => h, fun h => h trivial⟩
    rw [hall, ← joinedPath_determined_iff]
    exact blob_determined_iff fun joined => (exists_path joined).imp fun _ h => ⟨trivial, h.2⟩
  · intro hpath
    rw [← sectionPath_determined_iff hpath]
    exact blob_determined_iff exists_path

/-- Sections of two tenants whose parents have one string, and one id whatever is hashed with. -/
theorem blob_determines_refuted :
    ¬(∀ key other : ParentKey, other.blob = key.blob → other = key) ∧
    ∃ key other : ParentKey, IsSectionPath key.path ∧ IsSectionPath other.path ∧
      key.ref.doc.tenantId ≠ other.ref.doc.tenantId ∧
      ∀ svc : Services, svc.makeParentId key.ref key.path key.text =
        svc.makeParentId other.ref other.path other.text := by
  let key : ParentKey := ⟨⟨⟨"acme", "eu|handbook", "leave"⟩, "v1"⟩, ["Leave"], "Thirty days."⟩
  let other : ParentKey := ⟨⟨⟨"acme|eu", "handbook", "leave"⟩, "v1"⟩, ["Leave"], "Thirty days."⟩
  have hblob : other.blob = key.blob := by decide
  have htenant : key.ref.doc.tenantId ≠ other.ref.doc.tenantId := by decide
  have hpath : IsSectionPath ["Leave"] := isSectionPath_iff.mpr (by decide)
  refine ⟨fun h => htenant ?_, key, other, hpath, hpath, htenant, fun svc => ?_⟩
  · rw [h key other hblob]
  · rw [Services.makeParentId_eq, Services.makeParentId_eq]
    exact congrArg svc.contentId hblob.symm

end ParentKey

end AgenticRag
