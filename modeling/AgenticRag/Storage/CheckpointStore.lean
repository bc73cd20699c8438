import AgenticRag.Answer.Envelope
import AgenticRag.Foundations.Table
import AgenticRag.Security.Policy

/-!
# Run checkpoints

`storage/checkpoint_store.py` and the methods of `MetadataStore` for the table
`run_checkpoints`. A row keeps the identity of its run in columns, and the resumable state as
it was serialized; the status of a run is that of the row.
-/

namespace AgenticRag

inductive CheckpointStatus where
  | running
  | completed
  | aborted
  deriving DecidableEq, Repr

/-- `RunCheckpoint`; sets are listed in the order in which they were filled. -/
structure RunCheckpoint where
  runId : String
  tenantId : String
  userId : String
  sessionId : String
  policyVersion : String
  query : String
  corpusId : String
  maxRounds : Int
  requiredFacts : List Judge.RequiredFact
  roundIndex : Int
  status : CheckpointStatus
  evidence : List Evidence
  priorQueries : List String
  seenTextHashes : List String
  seenDocVersions : List (String × String)
  retrievalCalls : Int
  gapRounds : Int
  finalReason : Option String
  conflictStop : Bool
  coverage : Option SufficiencyResult
  finalReport : Option ConflictReport
  finalEvidenceIds : List String
  firstResult : Option FastPathResult
  deriving DecidableEq, Repr

/-- The immutable binding of a run. -/
structure RunIdentity where
  tenantId : String
  userId : String
  sessionId : String
  query : String
  corpusId : String
  policyVersion : String
  deriving DecidableEq, Repr

def RunCheckpoint.identity (ck : RunCheckpoint) : RunIdentity :=
  ⟨ck.tenantId, ck.userId, ck.sessionId, ck.query, ck.corpusId, ck.policyVersion⟩

/-- A row of `run_checkpoints`. -/
structure CheckpointRow where
  runId : String
  identity : RunIdentity
  status : CheckpointStatus
  roundIndex : Int
  state : RunCheckpoint
  deriving DecidableEq, Repr

abbrev CheckpointTable := List CheckpointRow

namespace CheckpointTable

/-- `WHERE run_id = ?`. -/
def ofRun (runId : String) (row : CheckpointRow) : Bool := decide (row.runId = runId)

def saveRunCheckpoint (rows : CheckpointTable) (ck : RunCheckpoint) :
    Except ChatError Unit × CheckpointTable :=
  match Table.selectOne (ofRun ck.runId) rows with
  | some row =>
    if row.identity ≠ ck.identity then (.error (.checkpointIdentityConflict ck.runId), rows)
    else
      (.ok (), Table.update (ofRun ck.runId)
        (fun row => { row with roundIndex := ck.roundIndex, state := ck }) rows)
  | none => (.ok (), Table.insert ⟨ck.runId, ck.identity, .running, ck.roundIndex, ck⟩ rows)

/-- The columns agree with the serialized state; the query is not compared. -/
def Consistent (row : CheckpointRow) : Prop :=
  row.state.runId = row.runId ∧ row.state.tenantId = row.identity.tenantId ∧
    row.state.userId = row.identity.userId ∧ row.state.sessionId = row.identity.sessionId ∧
    row.state.corpusId = row.identity.corpusId ∧ row.state.policyVersion = row.identity.policyVersion

instance (row : CheckpointRow) : Decidable (Consistent row) :=
  inferInstanceAs (Decidable (_ ∧ _ ∧ _ ∧ _ ∧ _ ∧ _))

def loadRunCheckpoint (rows : CheckpointTable) (runId : String) : Option RunCheckpoint :=
  match Table.selectOne (ofRun runId) rows with
  | some row => if Consistent row then some { row.state with status := row.status } else none
  | none => none

def setStatus (rows : CheckpointTable) (runId : String) (status : CheckpointStatus) : CheckpointTable :=
  Table.update (ofRun runId) (fun row => { row with status := status }) rows

def markRunCheckpointDone (rows : CheckpointTable) (runId : String) (aborted : Bool) : CheckpointTable :=
  setStatus rows runId (if aborted then .aborted else .completed)

def markRunCheckpointRunning (rows : CheckpointTable) (runId : String) : CheckpointTable :=
  setStatus rows runId .running

end CheckpointTable

section Binding

namespace CheckpointTable

variable {rows rows' : CheckpointTable} {ck : RunCheckpoint} {row : CheckpointRow} {runId : String}
  {status : CheckpointStatus}

/-- A change that keeps run and identity leaves every row found where it was. -/
private theorem selectOne_kept {p : CheckpointRow → Bool} {f : CheckpointRow → CheckpointRow}
    (hf : ∀ row, (f row).runId = row.runId) :
    Table.selectOne (ofRun runId) (Table.update p f rows) =
      (Table.selectOne (ofRun runId) rows).map fun row => if p row then f row else row := by
  apply Table.selectOne_update
  intro row _
  unfold ofRun
  split
  · rw [hf row]
  · rfl

/-- A save under another identity is refused, and nothing changes. -/
theorem saveRunCheckpoint_conflict (hrow : Table.selectOne (ofRun ck.runId) rows = some row)
    (hidentity : row.identity ≠ ck.identity) :
    saveRunCheckpoint rows ck = (.error (.checkpointIdentityConflict ck.runId), rows) := by
  simp only [saveRunCheckpoint, hrow, if_pos hidentity]

/-- A save under a free run id, or under the identity of its row, succeeds. -/
theorem saveRunCheckpoint_succeeds
    (hfree : ∀ row, Table.selectOne (ofRun ck.runId) rows = some row → row.identity = ck.identity) :
    ∃ rows', saveRunCheckpoint rows ck = (.ok (), rows') := by
  unfold saveRunCheckpoint
  cases hfound : Table.selectOne (ofRun ck.runId) rows with
  | none => exact ⟨_, rfl⟩
  | some row =>
    have hidentity : ¬row.identity ≠ ck.identity := not_not.mpr (hfree row hfound)
    exact ⟨_, if_neg hidentity⟩

/-- What a successful save leaves behind: the row of the run with its status, or a new one. -/
theorem saveRunCheckpoint_ok (h : saveRunCheckpoint rows ck = (.ok (), rows')) (runId : String) :
    Table.selectOne (ofRun runId) rows' =
      if runId = ck.runId then
        some ⟨ck.runId, ck.identity,
          ((Table.selectOne (ofRun ck.runId) rows).map (·.status)).getD .running, ck.roundIndex, ck⟩
      else Table.selectOne (ofRun runId) rows := by
  unfold saveRunCheckpoint at h
  cases hfound : Table.selectOne (ofRun ck.runId) rows with
  | none =>
    simp only [hfound, Prod.mk.injEq, true_and] at h
    rw [← h, Table.selectOne_insert]
    by_cases hrun : runId = ck.runId
    · rw [if_pos hrun, hrun, hfound]
      simp [ofRun]
    · rw [if_neg hrun]
      simp [ofRun, Ne.symm hrun]
  | some row =>
    simp only [hfound] at h
    split at h
    · cases h
    · rename_i hidentity
      simp only [Prod.mk.injEq, true_and] at h
      have hrow : row.runId = ck.runId := by simpa [ofRun] using (Table.selectOne_some hfound).2
      rw [← h, selectOne_kept (by intro row; rfl)]
      by_cases hrun : runId = ck.runId
      · rw [if_pos hrun, hrun, hfound]
        simp only [Option.map_some, Option.getD_some, ofRun, hrow, decide_true, if_true]
        rw [← not_ne_iff.mp hidentity]
      · rw [if_neg hrun]
        cases hother : Table.selectOne (ofRun runId) rows with
        | none => rfl
        | some other =>
          have hne : other.runId ≠ ck.runId := by
            have hid : other.runId = runId := by simpa [ofRun] using (Table.selectOne_some hother).2
            rw [hid]
            exact hrun
          simp [ofRun, hne]

/-- A load returns the checkpoint, with the status of the row. -/
def Returns (rows : CheckpointTable) (ck : RunCheckpoint) : Prop :=
  ∃ row, Table.selectOne (ofRun ck.runId) rows = some row ∧
    loadRunCheckpoint rows ck.runId = some { ck with status := row.status }

/-- A load after a successful save returns what was saved, with the status of the row. -/
theorem loadRunCheckpoint_saved (h : saveRunCheckpoint rows ck = (.ok (), rows')) : Returns rows' ck := by
  have hfound := saveRunCheckpoint_ok h ck.runId
  rw [if_pos rfl] at hfound
  refine ⟨_, hfound, ?_⟩
  have hconsistent (status : CheckpointStatus) :
      Consistent ⟨ck.runId, ck.identity, status, ck.roundIndex, ck⟩ := ⟨rfl, rfl, rfl, rfl, rfl, rfl⟩
  simp only [loadRunCheckpoint, hfound, if_pos (hconsistent _)]

/-- A checkpoint that is loaded is the state of its row, with the status of the row. -/
theorem loadRunCheckpoint_some (h : loadRunCheckpoint rows runId = some ck) :
    ∃ row, Table.selectOne (ofRun runId) rows = some row ∧ ck = { row.state with status := row.status } := by
  unfold loadRunCheckpoint at h
  split at h
  · rename_i row hrow
    split at h
    · exact ⟨row, hrow, (Option.some.inj h).symm⟩
    · cases h
  · cases h

theorem selectOne_setStatus (runId' : String) :
    Table.selectOne (ofRun runId) (setStatus rows runId' status) =
      (Table.selectOne (ofRun runId) rows).map fun row =>
        if ofRun runId' row then { row with status := status } else row :=
  selectOne_kept fun _ => rfl

theorem returns_iff : Returns rows ck ↔ ∃ row, Table.selectOne (ofRun ck.runId) rows = some row ∧
    Consistent row ∧ { row.state with status := row.status } = { ck with status := row.status } := by
  unfold Returns loadRunCheckpoint
  refine exists_congr fun row => and_congr_right fun hrow => ?_
  simp only [hrow]
  split
  · rename_i hconsistent
    rw [Option.some.injEq, and_iff_right hconsistent]
  · rename_i hdiffers
    simp [hdiffers]

/-- A mark changes the status only. -/
theorem Returns.marked (h : Returns rows ck) (runId : String) (status : CheckpointStatus) :
    Returns (setStatus rows runId status) ck := by
  obtain ⟨row, hrow, hconsistent, hstate⟩ := returns_iff.mp h
  have hfound := @selectOne_setStatus rows ck.runId status runId
  rw [hrow, Option.map_some] at hfound
  refine returns_iff.mpr ⟨_, hfound, ?_⟩
  split
  · exact ⟨hconsistent, congrArg (fun state : RunCheckpoint => { state with status := status }) hstate⟩
  · exact ⟨hconsistent, hstate⟩

/-- A save under another run id leaves the row alone. -/
theorem Returns.congr (h : Returns rows ck)
    (hrow : Table.selectOne (ofRun ck.runId) rows' = Table.selectOne (ofRun ck.runId) rows) : Returns rows' ck := by
  obtain ⟨row, hfound, hload⟩ := h
  refine ⟨row, hrow.trans hfound, ?_⟩
  rw [← hload]
  simp only [loadRunCheckpoint, hrow]

end CheckpointTable

/-- What happens to the checkpoints: saves, marks, and calls whose statement fails and is rolled
back. -/
inductive CheckpointOp where
  | save (ck : RunCheckpoint)
  | markDone (runId : String) (aborted : Bool)
  | markRunning (runId : String)
  | fails (e : ChatError)
  deriving DecidableEq, Repr

def CheckpointOp.perform (rows : CheckpointTable) : CheckpointOp → Except ChatError Unit × CheckpointTable
  | .save ck => CheckpointTable.saveRunCheckpoint rows ck
  | .markDone runId aborted => (.ok (), CheckpointTable.markRunCheckpointDone rows runId aborted)
  | .markRunning runId => (.ok (), CheckpointTable.markRunCheckpointRunning rows runId)
  | .fails e => (.error e, rows)

/-- The operation is no save under the run id. -/
def CheckpointOp.Spares (runId : String) : CheckpointOp → Prop
  | .save ck => ck.runId ≠ runId
  | _ => True

def CheckpointOp.saved (rows : CheckpointTable) (op : CheckpointOp) : Option RunCheckpoint :=
  match op, op.perform rows with
  | .save ck, (.ok (), _) => some ck
  | _, _ => none

/-- The table with the successful saves so far, the oldest first. -/
structure CheckpointHistory where
  rows : CheckpointTable
  saves : List RunCheckpoint
  deriving DecidableEq, Repr

namespace CheckpointHistory

def after (h : CheckpointHistory) (op : CheckpointOp) : CheckpointHistory :=
  ⟨(op.perform h.rows).2, h.saves ++ (op.saved h.rows).toList⟩

/-- A history that starts without checkpoints. -/
def play (ops : List CheckpointOp) : CheckpointHistory := ops.foldl after ⟨[], []⟩

def firstSave (h : CheckpointHistory) (runId : String) : Option RunCheckpoint :=
  h.saves.find? fun ck => decide (ck.runId = runId)

/-- A run has a row once it has been saved, with the identity of its first save. -/
def Bound (h : CheckpointHistory) : Prop :=
  ∀ runId, (Table.selectOne (CheckpointTable.ofRun runId) h.rows).map (·.identity) =
    (h.firstSave runId).map (·.identity)

variable {h : CheckpointHistory}

theorem Bound.saved (hbound : h.Bound) {ck : RunCheckpoint} {rows : CheckpointTable}
    (hsave : CheckpointTable.saveRunCheckpoint h.rows ck = (.ok (), rows)) :
    Bound ⟨rows, h.saves ++ [ck]⟩ := by
  intro runId
  have hfirst : firstSave ⟨rows, h.saves ++ [ck]⟩ runId =
      (h.firstSave runId).or (if ck.runId = runId then some ck else none) := by
    simp only [firstSave, List.find?_append, List.find?_singleton, decide_eq_true_eq]
  rw [hfirst, CheckpointTable.saveRunCheckpoint_ok hsave runId]
  have hold := hbound runId
  by_cases hrun : runId = ck.runId
  · subst hrun
    simp only [if_true, Option.map_some]
    cases hfound : Table.selectOne (CheckpointTable.ofRun ck.runId) h.rows with
    | none =>
      rw [hfound, Option.map_none, eq_comm, Option.map_eq_none_iff] at hold
      simp [hold]
    | some row =>
      have hidentity : row.identity = ck.identity := by
        by_contra hne
        rw [CheckpointTable.saveRunCheckpoint_conflict hfound hne] at hsave
        cases hsave
      rw [hfound, Option.map_some, hidentity] at hold
      obtain ⟨first, hsaved, heq⟩ := Option.map_eq_some_iff.mp hold.symm
      simp [hsaved, heq]
  · rw [if_neg hrun, if_neg (Ne.symm hrun), Option.or_none]
    exact hold

theorem Bound.marked (hbound : h.Bound) (runId : String) (status : CheckpointStatus) :
    Bound ⟨CheckpointTable.setStatus h.rows runId status, h.saves⟩ := by
  intro runId'
  rw [CheckpointTable.selectOne_setStatus, Option.map_map]
  have hsame : ((fun row : CheckpointRow => row.identity) ∘ fun row =>
      if CheckpointTable.ofRun runId row then { row with status := status } else row) =
        fun row => row.identity := by
    funext row
    simp only [Function.comp_apply]
    split <;> rfl
  rw [hsame]
  exact hbound runId'

theorem Bound.after (hbound : h.Bound) (op : CheckpointOp) : (h.after op).Bound := by
  cases op with
  | save ck =>
    rcases hsave : CheckpointTable.saveRunCheckpoint h.rows ck with ⟨r, rows⟩
    cases r with
    | ok u =>
      have hafter : h.after (.save ck) = ⟨rows, h.saves ++ [ck]⟩ := by
        simp only [CheckpointHistory.after, CheckpointOp.saved, CheckpointOp.perform, hsave, Option.toList]
      rw [hafter]
      exact hbound.saved hsave
    | error e =>
      have hrows : rows = h.rows := by
        unfold CheckpointTable.saveRunCheckpoint at hsave
        split at hsave
        · split at hsave
          · exact (Prod.mk.inj hsave).2.symm
          · cases hsave
        · cases hsave
      have hafter : h.after (.save ck) = h := by
        simp only [CheckpointHistory.after, CheckpointOp.saved, CheckpointOp.perform, hsave, hrows,
          Option.toList, List.append_nil]
      rw [hafter]
      exact hbound
  | markDone runId aborted =>
    have hafter : h.after (.markDone runId aborted) =
        ⟨CheckpointTable.markRunCheckpointDone h.rows runId aborted, h.saves⟩ := by
      simp [CheckpointHistory.after, CheckpointOp.saved, CheckpointOp.perform]
    rw [hafter]
    exact hbound.marked runId _
  | markRunning runId =>
    have hafter : h.after (.markRunning runId) =
        ⟨CheckpointTable.markRunCheckpointRunning h.rows runId, h.saves⟩ := by
      simp [CheckpointHistory.after, CheckpointOp.saved, CheckpointOp.perform]
    rw [hafter]
    exact hbound.marked runId _
  | fails e => simpa [CheckpointHistory.after, CheckpointOp.saved, CheckpointOp.perform] using hbound

theorem play_bound (ops : List CheckpointOp) : (play ops).Bound := by
  induction ops using List.reverseRecOn with
  | nil => exact fun runId => rfl
  | append_singleton ops op ih =>
    unfold play
    rw [List.foldl_append, List.foldl_cons, List.foldl_nil]
    exact Bound.after ih op

/-- What a run returns it returns until its next save. -/
theorem returns_perform {rows : CheckpointTable} {ck : RunCheckpoint} {op : CheckpointOp}
    (h : CheckpointTable.Returns rows ck) (hspares : op.Spares ck.runId) :
    CheckpointTable.Returns (op.perform rows).2 ck := by
  cases op with
  | save other =>
    rcases hsave : CheckpointTable.saveRunCheckpoint rows other with ⟨r, rows'⟩
    simp only [CheckpointOp.perform, hsave]
    cases r with
    | ok u =>
      refine h.congr ?_
      rw [CheckpointTable.saveRunCheckpoint_ok hsave ck.runId, if_neg (Ne.symm hspares)]
    | error e =>
      unfold CheckpointTable.saveRunCheckpoint at hsave
      split at hsave
      · split at hsave
        · exact (Prod.mk.inj hsave).2 ▸ h
        · cases hsave
      · cases hsave
  | markDone runId aborted => exact h.marked runId _
  | markRunning runId => exact h.marked runId _
  | fails e => exact h

theorem returns_later {ck : RunCheckpoint} {later : List CheckpointOp}
    (hspares : ∀ op ∈ later, op.Spares ck.runId) {rows : CheckpointTable} (h : CheckpointTable.Returns rows ck) :
    CheckpointTable.Returns (later.foldl (fun rows op => (op.perform rows).2) rows) ck := by
  induction later generalizing rows with
  | nil => exact h
  | cons op later ih =>
    exact ih (fun other hother => hspares other (List.mem_cons_of_mem op hother))
      (returns_perform h (hspares op List.mem_cons_self))

/-- After any history the identity of a run is that of its first successful save; a save under
another identity is refused and changes nothing, and any other save succeeds; a load after a
successful save, or after marks and saves of other runs that follow it, returns what was saved, with
the status of the row. -/
theorem checkpoint_identity_bound (ops : List CheckpointOp) :
    (∀ runId, (Table.selectOne (CheckpointTable.ofRun runId) (play ops).rows).map (·.identity) =
      ((play ops).firstSave runId).map (·.identity)) ∧
    (∀ ck first, (play ops).firstSave ck.runId = some first → first.identity ≠ ck.identity →
      CheckpointTable.saveRunCheckpoint (play ops).rows ck =
        (.error (.checkpointIdentityConflict ck.runId), (play ops).rows)) ∧
    (∀ ck, (∀ first, (play ops).firstSave ck.runId = some first → first.identity = ck.identity) →
      ∃ rows, CheckpointTable.saveRunCheckpoint (play ops).rows ck = (.ok (), rows)) ∧
    ∀ ck rows, CheckpointTable.saveRunCheckpoint (play ops).rows ck = (.ok (), rows) →
      CheckpointTable.Returns rows ck ∧
        ∀ later : List CheckpointOp, (∀ op ∈ later, op.Spares ck.runId) →
          CheckpointTable.Returns (later.foldl (fun rows op => (op.perform rows).2) rows) ck := by
  have hbound := play_bound ops
  refine ⟨hbound, ?_, ?_, ?_⟩
  · intro ck first hfirst hne
    have hidentity := hbound ck.runId
    rw [hfirst, Option.map_some] at hidentity
    obtain ⟨row, hrow, heq⟩ := Option.map_eq_some_iff.mp hidentity
    exact CheckpointTable.saveRunCheckpoint_conflict hrow (by rwa [heq])
  · intro ck hsame
    apply CheckpointTable.saveRunCheckpoint_succeeds
    intro row hrow
    have hidentity := hbound ck.runId
    rw [hrow, Option.map_some] at hidentity
    obtain ⟨first, hfirst, heq⟩ := Option.map_eq_some_iff.mp hidentity.symm
    exact heq.symm.trans (hsame first hfirst)
  · intro ck rows hsave
    have hreturns := CheckpointTable.loadRunCheckpoint_saved hsave
    exact ⟨hreturns, fun later hspares => returns_later hspares hreturns⟩

end CheckpointHistory

end Binding

/-- A `resume_evidence_revoked` finding. -/
structure RevokedFinding where
  corpusId : String
  tenantId : String
  documentId : String
  documentVersion : String
  detail : String
  deriving DecidableEq, Repr

/-- The last checks of `reauthorize_evidence`, on the active document. -/
def reauthorizeAgainst (ctx : SecurityContext) (ev : Evidence) : Option SourceDocument → Bool × String
  | none => (false, "document_inactive_or_deleted")
  | some active =>
    if ev.documentVersion ≠ active.ref.version then (false, "version_superseded")
    else if evaluateAccess ctx (aclFromDoc active) ≠ .allow then (false, "acl_denied")
    else if canDiscoverCorpus ctx ev.corpusId = false then (false, "corpus_not_discoverable")
    else (true, "authorized")

end AgenticRag
