import AgenticRag.Storage.Lifecycle

/-!
# When the active version moves

`commit_active_version` and `rollback_active_version` succeed exactly when their checks
on the state before the call do: in a store with at most one active version per document
no `UPDATE` of theirs violates the unique index.
-/

namespace AgenticRag.MetadataStore

open Routine

section Updates

/-- Distinct keys and one active version per document satisfy the unique index. -/
theorem pairwise_of_oneActive {documents : List DocumentRow}
    (hkeys : Table.KeyUnique (·.ref) documents)
    (hone : ∀ first ∈ documents, ∀ second ∈ documents, first.status = .active →
      second.status = .active → first.ref.doc = second.ref.doc → first = second) :
    documents.Pairwise fun row other =>
      ¬(row.status = .active ∧ other.status = .active ∧ row.ref.doc = other.ref.doc) := by
  have hdistinct : documents.Pairwise fun row other => row.ref ≠ other.ref :=
    List.pairwise_map.mp hkeys
  refine hdistinct.imp_of_mem ?_
  rintro row other hrow hother hne ⟨hactive, hactive', hdoc⟩
  exact hne (congrArg (·.ref) (hone row hrow other hother hactive hactive' hdoc))

theorem updateDocuments_ok {p : DocumentRow → Bool} {f : DocumentRow → DocumentRow}
    {s : MetadataStore} (hkeys : Table.KeyUnique (·.ref) (Table.update p f s.documents))
    (hone : ∀ first ∈ Table.update p f s.documents, ∀ second ∈ Table.update p f s.documents,
      first.status = .active → second.status = .active → first.ref.doc = second.ref.doc →
        first = second) :
    updateDocuments p f s = (.ok (Table.select p s.documents).length,
      { s with documents := Table.update p f s.documents }) := by
  unfold updateDocuments
  rw [if_pos (pairwise_of_oneActive hkeys hone)]

variable {doc : DocRef} {revision : Nat} {previous : Option String} {new : String}
  {s : MetadataStore} (now : Timestamp)

/-- A demotion adds no active row. -/
theorem demotePrevious_ok (hinv : LifecycleInvariant s) :
    demotePrevious now doc revision previous s = (.ok (),
      { s with documents := demotedDocuments now doc revision previous s.documents }) := by
  cases previous with
  | none => rfl
  | some old =>
    have hupdate := updateDocuments_ok (s := s) (p := ofVersion ⟨doc, old⟩)
      (f := demoteRow now revision) (hinv.keys.update fun _ _ _ => rfl) ?_
    · simp only [demotePrevious, Routine.bind_ok hupdate, demotedDocuments]
      rfl
    · intro first hfirst second hsecond hactive hactive' hdoc
      rcases Table.mem_update.mp hfirst with ⟨_, -, -, rfl⟩ | ⟨hfirst, -⟩
      · simp [demoteRow] at hactive
      rcases Table.mem_update.mp hsecond with ⟨_, -, -, rfl⟩ | ⟨hsecond, -⟩
      · simp [demoteRow] at hactive'
      exact hinv.oneActive first hfirst second hsecond hactive hactive' hdoc

/-- Demoting the active version and activating another one succeeds. -/
theorem demote_activate (hinv : LifecycleInvariant s) (hother : s.getActiveVersion doc ≠ some new)
    (hexists : ∃ row ∈ s.documents, row.ref = ⟨doc, new⟩) (conflict : SwitchConflict)
    (value : Nat × Option String) :
    (do
        demotePrevious now doc (s.getCurrentRevision doc + 1) (s.getActiveVersion doc)
        let rowcount ← updateDocuments (ofVersion ⟨doc, new⟩)
          (activateRow now (s.getCurrentRevision doc + 1))
        if rowcount = 0 then raise (.activeVersionConflict conflict) else pure value :
          StoreMethod (Nat × Option String)) s =
      (.ok value, { s with
        documents := switchDocuments now doc (s.getCurrentRevision doc + 1) (s.getActiveVersion doc)
          new s.documents }) := by
  have hswitched : LifecycleInvariant { s with
      documents := switchDocuments now doc (s.getCurrentRevision doc + 1) (s.getActiveVersion doc)
        new s.documents } :=
    (LifecycleStep.switch now doc new hother hexists rfl).invariant hinv
  have hactivate := updateDocuments_ok (p := ofVersion ⟨doc, new⟩)
    (f := activateRow now (s.getCurrentRevision doc + 1))
    (s := { s with
      documents := demotedDocuments now doc (s.getCurrentRevision doc + 1) (s.getActiveVersion doc)
        s.documents }) hswitched.keys hswitched.oneActive
  have hcount : (Table.select (ofVersion ⟨doc, new⟩) (demotedDocuments now doc
      (s.getCurrentRevision doc + 1) (s.getActiveVersion doc) s.documents)).length ≠ 0 := by
    obtain ⟨row, hrow, href⟩ := hexists
    have hkept : row ∈ demotedDocuments now doc (s.getCurrentRevision doc + 1)
        (s.getActiveVersion doc) s.documents := by
      refine mem_demotedDocuments.mpr (Or.inr ⟨hrow, fun version hversion href' => hother ?_⟩)
      rw [href, VersionRef.mk.injEq] at href'
      rw [hversion, href'.2]
    have hselected : row ∈ Table.select (ofVersion ⟨doc, new⟩) (demotedDocuments now doc
        (s.getCurrentRevision doc + 1) (s.getActiveVersion doc) s.documents) :=
      Table.mem_select.mpr ⟨hkept, by simp [ofVersion, href]⟩
    exact (List.length_pos_of_mem hselected).ne'
  rw [Routine.bind_ok (demotePrevious_ok now hinv), Routine.bind_ok hactivate]
  simp only [if_neg hcount]
  rfl

end Updates

section Calls

variable {now : Timestamp} {doc : DocRef} {s : MetadataStore}

theorem commitActiveVersion_switches {new : String} (hinv : LifecycleInvariant s)
    (hother : s.getActiveVersion doc ≠ some new)
    (hexists : ∃ row ∈ s.documents, row.ref = ⟨doc, new⟩) :
    commitActiveVersion now doc new (s.getCurrentRevision doc) s =
      (.ok (s.getCurrentRevision doc + 1, s.getActiveVersion doc), { s with
        documents := switchDocuments now doc (s.getCurrentRevision doc + 1)
          (s.getActiveVersion doc) new s.documents }) := by
  unfold commitActiveVersion
  rw [transaction_ok, get_bind]
  simp only [if_neg hother, ne_eq, not_true_eq_false, if_false]
  exact demote_activate now hinv hother hexists _ _

theorem rollbackActiveVersion_switches {toVersion : Option String} {expected : Option Nat}
    {previous target : String} {row : DocumentRow} (hinv : LifecycleInvariant s)
    (hactive : s.getActiveVersion doc = some previous)
    (htarget : (toVersion.or ((s.rollbackCandidate doc).map (·.ref.version))) = some target)
    (hrow : s.documentRow ⟨doc, target⟩ = some row) (hlive : row.status ≠ .deleted)
    (hother : target ≠ previous)
    (hexpected : expected = none ∨ expected = some (s.getCurrentRevision doc)) :
    rollbackActiveVersion now doc toVersion expected s =
      (.ok (s.getCurrentRevision doc + 1, some previous), { s with
        documents := switchDocuments now doc (s.getCurrentRevision doc + 1) (some previous)
          target s.documents }) := by
  have hresolved : resolveRollbackTarget doc toVersion s = (.ok target, s) := by
    unfold resolveRollbackTarget
    rw [get_bind]
    cases toVersion with
    | some version =>
      simp only [Option.some_or, Option.some.injEq] at htarget
      rw [htarget]
      rfl
    | none =>
      rw [Option.none_or, Option.map_eq_some_iff] at htarget
      obtain ⟨candidate, hcandidate, rfl⟩ := htarget
      simp only [hcandidate]
      rfl
  have hfresh : ¬(expected ≠ none ∧ expected ≠ some (s.getCurrentRevision doc)) := by tauto
  have hne : s.getActiveVersion doc ≠ some target := by
    rw [hactive]
    simpa using hother.symm
  have hswitch := demote_activate now hinv hne ⟨row, documentRow_mem hrow⟩
    (.targetVanished target) (s.getCurrentRevision doc + 1, some previous)
  rw [hactive] at hswitch
  unfold rollbackActiveVersion
  rw [transaction_ok, get_bind]
  simp only [hactive]
  rw [Routine.bind_ok hresolved]
  simp only [hrow, if_neg hlive, if_neg hother, if_neg hfresh]
  exact hswitch

end Calls

end AgenticRag.MetadataStore
