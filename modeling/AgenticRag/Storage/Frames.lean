import AgenticRag.Storage.Transactions
import AgenticRag.Storage.World

/-!
# Frames of the store methods

Which tables a method may write; every other table is left as it was, whether the
method returns or raises.
-/

namespace AgenticRag

inductive TableName where
  | documents
  | builds
  | jobs
  | steps
  | chunks
  deriving DecidableEq, Repr

/-- The tables a method may write. -/
def MetadataOp.writes {β : Type} : MetadataOp β → List TableName
  | .acquireJobTransaction _ => [.documents, .builds, .jobs]
  | .markStep _ _ _ => [.steps]
  | .clearSteps _ => [.steps]
  | .markJobTerminal _ _ _ _ _ => [.jobs, .builds]
  | .setJobManifest _ _ => [.jobs]
  | .commitActiveVersion _ _ _ => [.documents]
  | .rollbackActiveVersion _ _ _ => [.documents]
  | .logicalDelete _ => [.documents]
  | .updateDocumentAcl _ _ => [.documents]
  | .markDocumentFailed _ => [.documents]
  | .upsertChunkRecord _ => [.chunks]
  | .deleteChunkRecords _ => [.chunks]
  | .deleteDocument _ => [.documents, .builds, .jobs, .steps]

structure AgreeOutside (written : List TableName) (s t : MetadataStore) : Prop where
  documents : .documents ∉ written → t.documents = s.documents
  builds : .builds ∉ written → t.builds = s.builds
  jobs : .jobs ∉ written → t.jobs = s.jobs
  steps : .steps ∉ written → t.steps = s.steps
  chunks : .chunks ∉ written → t.chunks = s.chunks
  corpora : t.corpora = s.corpora

theorem AgreeOutside.refl (written : List TableName) (s : MetadataStore) :
    AgreeOutside written s s :=
  ⟨fun _ => rfl, fun _ => rfl, fun _ => rfl, fun _ => rfl, fun _ => rfl, rfl⟩

private theorem acquireJobTransaction_frame {args : MetadataStore.AcquireArgs}
    {s t : MetadataStore} {r : Except PyError (JobStatus × Nat)}
    (h : MetadataStore.acquireJobTransaction args s = (r, t)) :
    AgreeOutside [.documents, .builds, .jobs] s t := by
  cases r with
  | error e =>
    rw [Routine.transaction_error h]
    exact .refl _ s
  | ok claimed =>
    obtain ⟨previousVersion, s₁, s₂, hclaim, hupsert, hbind⟩ :=
      MetadataStore.acquireJobTransaction_ok h
    have hs₁ : s₁.steps = s.steps ∧ s₁.chunks = s.chunks ∧ s₁.corpora = s.corpora := by
      rcases MetadataStore.claimLease_cases hclaim with ⟨-, -, rfl⟩ | ⟨lease, -, -, -, rfl⟩ |
        ⟨lease, reason, -, -, -, rfl⟩ <;> exact ⟨rfl, rfl, rfl⟩
    have hs₂ : s₂.steps = s₁.steps ∧ s₂.chunks = s₁.chunks ∧ s₂.corpora = s₁.corpora := by
      cases hdocument : args.document with
      | none =>
        rw [hdocument] at hupsert
        obtain ⟨-, rfl⟩ := Prod.mk.inj hupsert
        exact ⟨rfl, rfl, rfl⟩
      | some document =>
        rw [hdocument] at hupsert
        rcases MetadataStore.upsertDocumentBuild_cases hupsert with ⟨-, -, rfl, -⟩ |
          ⟨row, -, -, -, rfl⟩ | ⟨row, -, -, -, rfl⟩ | ⟨-, rfl⟩ <;> exact ⟨rfl, rfl, rfl⟩
    have ht : t.steps = s₂.steps ∧ t.chunks = s₂.chunks ∧ t.corpora = s₂.corpora := by
      rcases MetadataStore.bindJobRow_cases hbind with ⟨-, -, -, rfl⟩ |
        ⟨row, -, -, -, -, -, rfl⟩ | ⟨row, -, -, -, -, -, rfl⟩ | ⟨-, rfl⟩ <;> exact ⟨rfl, rfl, rfl⟩
    constructor
    · simp
    · simp
    · simp
    · exact fun _ => ht.1.trans (hs₂.1.trans hs₁.1)
    · exact fun _ => ht.2.1.trans (hs₂.2.1.trans hs₁.2.1)
    · exact ht.2.2.trans (hs₂.2.2.trans hs₁.2.2)

private theorem documents_frame {written : List TableName} {s : MetadataStore}
    {documents : List DocumentRow} (h : .documents ∈ written) :
    AgreeOutside written s { s with documents } :=
  ⟨fun hnot => absurd h hnot, fun _ => rfl, fun _ => rfl, fun _ => rfl, fun _ => rfl, rfl⟩

private theorem chunks_frame {written : List TableName} {s t : MetadataStore}
    (ht : t = { s with chunks := t.chunks }) (h : .chunks ∈ written) :
    AgreeOutside written s t := by
  rw [ht]
  exact ⟨fun _ => rfl, fun _ => rfl, fun _ => rfl, fun _ => rfl, fun hnot => absurd h hnot, rfl⟩

private theorem steps_frame {written : List TableName} {s t : MetadataStore}
    (ht : t = { s with steps := t.steps }) (h : .steps ∈ written) :
    AgreeOutside written s t := by
  rw [ht]
  exact ⟨fun _ => rfl, fun _ => rfl, fun _ => rfl, fun hnot => absurd h hnot, fun _ => rfl, rfl⟩

/-- A method leaves the tables it does not write alone. -/
theorem MetadataOp.frame {β : Type} {op : MetadataOp β} {now : Timestamp} {s t : MetadataStore}
    {r : Except PyError β} (h : op.eval now s = (r, t)) : AgreeOutside op.writes s t := by
  cases op with
  | acquireJobTransaction args => exact acquireJobTransaction_frame h
  | markStep jobId step status =>
    rcases MetadataStore.markStep_cases h with ⟨-, ht, -⟩ | ⟨-, rfl, -⟩
    · exact steps_frame ht (by simp [MetadataOp.writes])
    · exact .refl _ _
  | clearSteps jobId =>
    obtain ⟨-, rfl⟩ := Prod.mk.inj h
    exact steps_frame rfl (by simp [MetadataOp.writes])
  | markJobTerminal jobId status parentCount childCount errorCode =>
    have heq := h
    simp only [MetadataOp.eval, MetadataStore.markJobTerminal_eq] at heq
    obtain ⟨-, rfl⟩ := Prod.mk.inj heq
    exact ⟨fun _ => rfl, by simp [MetadataOp.writes], by simp [MetadataOp.writes], fun _ => rfl,
      fun _ => rfl, rfl⟩
  | setJobManifest jobId manifest =>
    obtain ⟨-, rfl⟩ := Prod.mk.inj h
    exact ⟨fun _ => rfl, fun _ => rfl, by simp [MetadataOp.writes], fun _ => rfl, fun _ => rfl,
      rfl⟩
  | commitActiveVersion doc newVersion expectedRevision =>
    rcases MetadataStore.commitActiveVersion_cases h with ⟨-, -, rfl⟩ | ⟨-, -, -, rfl, -⟩ |
      ⟨e, -, rfl⟩
    · exact .refl _ _
    · exact documents_frame (by simp [MetadataOp.writes])
    · exact .refl _ _
  | rollbackActiveVersion doc toVersion expectedRevision =>
    rcases MetadataStore.rollbackActiveVersion_cases h with ⟨previous, -, -, rfl⟩ |
      ⟨previous, target, row, -, -, -, -, -, -, rfl⟩ | ⟨e, -, rfl⟩
    · exact .refl _ _
    · exact documents_frame (by simp [MetadataOp.writes])
    · exact .refl _ _
  | logicalDelete ref =>
    rcases MetadataStore.logicalDelete_cases h with ⟨row, -, -, -, -, rfl⟩ | rfl
    · exact documents_frame (by simp [MetadataOp.writes])
    · exact .refl _ _
  | updateDocumentAcl ref acl =>
    rcases MetadataStore.updateDocumentAcl_cases h with ⟨row, -, -, -, rfl⟩ | ⟨-, rfl, -⟩ |
      ⟨-, rfl⟩
    · exact documents_frame (by simp [MetadataOp.writes])
    · exact .refl _ _
    · exact .refl _ _
  | markDocumentFailed ref =>
    rcases MetadataStore.markDocumentFailed_cases h with ⟨-, rfl⟩ | ⟨-, rfl⟩
    · exact documents_frame (by simp [MetadataOp.writes])
    · exact .refl _ _
  | upsertChunkRecord chunk =>
    rcases MetadataStore.upsertChunkRecord_cases h with ⟨-, -, ht, -⟩ | ⟨-, rfl⟩
    · exact chunks_frame ht (by simp [MetadataOp.writes])
    · exact .refl _ _
  | deleteChunkRecords ref =>
    obtain ⟨-, rfl⟩ := Prod.mk.inj h
    exact chunks_frame rfl (by simp [MetadataOp.writes])
  | deleteDocument doc =>
    obtain ⟨-, -, -, hchunks, hcorpora, -⟩ := MetadataStore.deleteDocument_cases h
    exact ⟨by simp [MetadataOp.writes], by simp [MetadataOp.writes], by simp [MetadataOp.writes],
      by simp [MetadataOp.writes], fun _ => hchunks, hcorpora⟩

end AgenticRag
