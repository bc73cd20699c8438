import AgenticRag.Foundations.Table
import AgenticRag.Foundations.Transition
import AgenticRag.Domain

/-!
# The reconciler lease

`acquire_reconciler_lease` reads the lease row and then inserts or updates it. The two
statements are not a transaction, so the statements of other owners may come in between.
-/

namespace AgenticRag.ReconcilerLease

/-- A row of `reconciler_leases`; `corpus_id` is the primary key. -/
structure LeaseRow where
  corpusId : String
  owner : String
  expiresAt : Timestamp
  deriving DecidableEq, Repr

/-- The lease a call of `acquire_reconciler_lease` asks for: `now` is the clock when the
call began. -/
structure Claim where
  corpusId : String
  owner : String
  now : Timestamp
  expiresAt : Timestamp
  deriving DecidableEq, Repr

def Claim.row (claim : Claim) : LeaseRow := ⟨claim.corpusId, claim.owner, claim.expiresAt⟩

/-- A call of `acquire_reconciler_lease` before its next statement, or before it returns. -/
inductive Acquisition where
  | select (claim : Claim)
  | insert (claim : Claim)
  | update (claim : Claim)
  | answer (claim : Claim) (granted : Bool)
  deriving DecidableEq, Repr

/-- The lease table, the calls in progress, and the leases that calls have returned `True`
for and their owners have not released. -/
structure System where
  clock : Timestamp
  rows : List LeaseRow
  calls : List Acquisition
  granted : List Claim
  deriving DecidableEq, Repr

def leaseRow (rows : List LeaseRow) (corpusId : String) : Option LeaseRow :=
  Table.selectOne (fun row => decide (row.corpusId = corpusId)) rows

/-- `lease_expires <= now or row["owner"] == owner` -/
def Claim.Admitted (claim : Claim) (row : LeaseRow) : Prop :=
  row.expiresAt ≤ claim.now ∨ row.owner = claim.owner

instance (claim : Claim) (row : LeaseRow) : Decidable (claim.Admitted row) :=
  inferInstanceAs (Decidable (_ ∨ _))

/-- The call after its `SELECT`. -/
def selected (claim : Claim) : Option LeaseRow → Acquisition
  | none => .insert claim
  | some row => if claim.Admitted row then .update claim else .answer claim false

/-- The next statement of a call. The result is the table and the rest of the call, which
is `none` when the `INSERT` fails on the primary key. -/
def statement (rows : List LeaseRow) : Acquisition → List LeaseRow × Option Acquisition
  | .select claim => (rows, some (selected claim (leaseRow rows claim.corpusId)))
  | .insert claim =>
    match leaseRow rows claim.corpusId with
    | none => (Table.insert claim.row rows, some (.answer claim true))
    | some _ => (rows, none)
  | .update claim =>
    (Table.update (fun row => decide (row.corpusId = claim.corpusId)) (fun _ => claim.row) rows,
      some (.answer claim true))
  | .answer _ _ => (rows, none)

/-- The lease a call returns `True` for when it returns. -/
def returned : Acquisition → List Claim
  | .answer claim true => [claim]
  | _ => []

inductive Move where
  | wait (duration : Nat)
  | acquire (corpusId owner : String) (ttlSeconds : Int)
  | proceed (call : Nat)
  | crash (call : Nat)
  | release (corpusId owner : String)
  deriving DecidableEq, Repr

/-- One move: time passes, a call begins, runs its next statement, returns or dies, or an
owner releases its lease. -/
def step : Transition System Move := fun s move =>
  match move with
  | .wait duration => some { s with clock := s.clock + duration }
  | .acquire corpusId owner ttlSeconds =>
    let expiresAt := (s.clock + seconds ttlSeconds).toNat
    some { s with calls := s.calls ++ [.select ⟨corpusId, owner, s.clock, expiresAt⟩] }
  | .proceed k =>
    (s.calls[k]?).map fun call =>
      { s with
        rows := (statement s.rows call).1
        calls := match (statement s.rows call).2 with
          | some rest => s.calls.set k rest
          | none => s.calls.eraseIdx k
        granted := returned call ++ s.granted }
  | .crash k => (s.calls[k]?).map fun _ => { s with calls := s.calls.eraseIdx k }
  | .release corpusId owner =>
    some { s with
      rows := Table.delete (fun row => decide (row.corpusId = corpusId ∧ row.owner = owner)) s.rows
      granted := s.granted.filter fun claim =>
        decide (¬(claim.corpusId = corpusId ∧ claim.owner = owner)) }

/-- An owner holds a lease that was granted to it until the lease expires. -/
def Holds (s : System) (corpusId owner : String) : Prop :=
  ∃ claim ∈ s.granted, claim.corpusId = corpusId ∧ claim.owner = owner ∧ s.clock < claim.expiresAt

/-- At most one owner holds the lease of a corpus. -/
def Exclusive (s : System) : Prop :=
  ∀ corpusId first second, Holds s corpusId first → Holds s corpusId second → first = second

/-- What the row says when an `UPDATE` overwrites it: the lease had expired when the call
began, or it is the owner's and ends no later than the new one. -/
def Claim.Supersedes (claim : Claim) (row : LeaseRow) : Prop :=
  row.expiresAt ≤ claim.now ∨ (row.owner = claim.owner ∧ row.expiresAt ≤ claim.expiresAt)

instance (claim : Claim) (row : LeaseRow) : Decidable (claim.Supersedes row) :=
  inferInstanceAs (Decidable (_ ∨ _))

/-- The lease a call is about to write over a row. -/
def overwriting : Acquisition → List Claim
  | .update claim => [claim]
  | _ => []

/-- The move is not the `UPDATE` of a row that has changed for the worse since the call
read it, nor a release that overtakes the return of one of the owner's own calls. -/
def Undisturbed (s : System) : Move → Prop
  | .proceed k => ∀ claim ∈ (s.calls[k]?).toList.flatMap overwriting,
      ∃ row ∈ (leaseRow s.rows claim.corpusId).toList, claim.Supersedes row
  | .release corpusId owner => ∀ claim ∈ s.calls.flatMap returned,
      ¬(claim.corpusId = corpusId ∧ claim.owner = owner)
  | _ => True

instance (s : System) (move : Move) : Decidable (Undisturbed s move) := by
  cases move <;> unfold Undisturbed <;> infer_instance

section Rows

variable {rows : List LeaseRow} {claim : Claim} {corpusId : String}

theorem leaseRow_insert (h : leaseRow rows claim.corpusId = none) :
    leaseRow (Table.insert claim.row rows) corpusId =
      if corpusId = claim.corpusId then some claim.row else leaseRow rows corpusId :=
  Table.lookup_insert h

theorem leaseRow_update :
    leaseRow (Table.update (fun row => decide (row.corpusId = claim.corpusId)) (fun _ => claim.row)
        rows) corpusId =
      if corpusId = claim.corpusId then (leaseRow rows claim.corpusId).map fun _ => claim.row
      else leaseRow rows corpusId :=
  Table.lookup_update fun _ _ => rfl

end Rows

section Exclusion

/-- A lease that a call has been, or is about to be, told it holds. -/
def Promised (s : System) (claim : Claim) : Prop :=
  claim ∈ s.granted ∨ .answer claim true ∈ s.calls

/-- The row of the corpus names the owner and lasts as long as the lease. -/
def Backed (rows : List LeaseRow) (claim : Claim) : Prop :=
  ∃ row, leaseRow rows claim.corpusId = some row ∧ row.owner = claim.owner ∧
    claim.expiresAt ≤ row.expiresAt

def Acquisition.claim : Acquisition → Claim
  | .select claim | .insert claim | .update claim | .answer claim _ => claim

/-- Every promised lease that has not expired is backed by the table. -/
structure Sound (s : System) : Prop where
  backed : ∀ claim, Promised s claim → s.clock < claim.expiresAt → Backed s.rows claim
  started : ∀ call ∈ s.calls, call.claim.now ≤ s.clock

variable {s s' : System} {rows : List LeaseRow} {call : Acquisition} {clock : Timestamp}

/-- A statement of another call keeps a lease backed until it expires. -/
theorem statement_keeps {claim : Claim} (hstarted : call.claim.now ≤ clock)
    (hundisturbed : ∀ c, call = .update c →
      ∃ row, leaseRow rows c.corpusId = some row ∧ c.Supersedes row)
    (hlive : clock < claim.expiresAt) (hbacked : Backed rows claim) :
    Backed (statement rows call).1 claim := by
  obtain ⟨row, hrow, howner, hexpires⟩ := hbacked
  cases call with
  | select c => exact ⟨row, hrow, howner, hexpires⟩
  | answer c _ => exact ⟨row, hrow, howner, hexpires⟩
  | insert c =>
    simp only [statement]
    cases hfound : leaseRow rows c.corpusId with
    | some other => exact ⟨row, hrow, howner, hexpires⟩
    | none =>
      have hother : claim.corpusId ≠ c.corpusId := by
        intro hsame
        rw [hsame, hfound] at hrow
        cases hrow
      exact ⟨row, by rw [leaseRow_insert hfound, if_neg hother, hrow], howner, hexpires⟩
  | update c =>
    obtain ⟨old, hold, hsupersedes⟩ := hundisturbed c rfl
    by_cases hsame : claim.corpusId = c.corpusId
    · obtain rfl : old = row := Option.some.inj (hold.symm.trans (hsame ▸ hrow))
      have hnow : c.now ≤ clock := hstarted
      -- an expired row backs no lease that is still live
      rcases hsupersedes with hexpired | ⟨hsameOwner, hlonger⟩
      · exact absurd (hexpires.trans (hexpired.trans hnow)) (not_le.mpr hlive)
      · refine ⟨c.row, ?_, hsameOwner.symm.trans howner, hexpires.trans hlonger⟩
        simp only [statement]
        rw [leaseRow_update, if_pos hsame, hold, Option.map_some]
    · refine ⟨row, ?_, howner, hexpires⟩
      simp only [statement]
      rw [leaseRow_update, if_neg hsame, hrow]

/-- A call that is about to return `True` has written its lease. -/
theorem statement_grants {claim : Claim}
    (hundisturbed : ∀ c, call = .update c →
      ∃ row, leaseRow rows c.corpusId = some row ∧ c.Supersedes row)
    (hgrants : (statement rows call).2 = some (.answer claim true)) :
    Backed (statement rows call).1 claim := by
  cases call with
  | select c =>
    simp only [statement, Option.some.injEq] at hgrants
    cases hfound : leaseRow rows c.corpusId with
    | none => simp [selected, hfound] at hgrants
    | some row =>
      simp only [selected, hfound] at hgrants
      split at hgrants <;> simp at hgrants
  | answer c _ => simp [statement] at hgrants
  | insert c =>
    simp only [statement] at hgrants ⊢
    cases hfound : leaseRow rows c.corpusId with
    | some other => simp [hfound] at hgrants
    | none =>
      obtain rfl : c = claim := by simpa [hfound] using hgrants
      exact ⟨c.row, by rw [leaseRow_insert hfound, if_pos rfl], rfl, le_refl _⟩
  | update c =>
    obtain rfl : c = claim := by simpa [statement] using hgrants
    obtain ⟨old, hold, -⟩ := hundisturbed c rfl
    refine ⟨c.row, ?_, rfl, le_refl _⟩
    simp only [statement]
    rw [leaseRow_update, if_pos rfl, hold, Option.map_some]

theorem statement_claim {rest : Acquisition} (h : (statement rows call).2 = some rest) :
    rest.claim = call.claim := by
  cases call with
  | select c =>
    obtain rfl : selected c (leaseRow rows c.corpusId) = rest := by simpa [statement] using h
    cases leaseRow rows c.corpusId with
    | none => rfl
    | some row =>
      simp only [selected]
      split <;> rfl
  | answer c _ => simp [statement] at h
  | insert c =>
    cases hfound : leaseRow rows c.corpusId with
    | some other => simp [statement, hfound] at h
    | none =>
      obtain rfl : Acquisition.answer c true = rest := by simpa [statement, hfound] using h
      rfl
  | update c =>
    obtain rfl : Acquisition.answer c true = rest := by simpa [statement] using h
    rfl

/-- The calls in progress after a statement: those before, and the rest of the call. -/
theorem mem_proceed {k : Nat} {other : Acquisition} {rest : Option Acquisition}
    (h : other ∈ match rest with
      | some rest => s.calls.set k rest
      | none => s.calls.eraseIdx k) : other ∈ s.calls ∨ rest = some other := by
  cases rest with
  | none => exact Or.inl (List.mem_of_mem_eraseIdx h)
  | some rest =>
    rcases List.mem_or_eq_of_mem_set h with hold | rfl
    · exact Or.inl hold
    · exact Or.inr rfl

theorem mem_returned {claim : Claim} (h : claim ∈ returned call) : call = .answer claim true := by
  unfold returned at h
  split at h
  · obtain rfl := List.mem_singleton.mp h
    rfl
  · simp at h

theorem Sound.proceed {k : Nat} (h : Sound s) (hundisturbed : Undisturbed s (.proceed k))
    (hcall : s.calls[k]? = some call) :
    Sound { s with
      rows := (statement s.rows call).1
      calls := match (statement s.rows call).2 with
        | some rest => s.calls.set k rest
        | none => s.calls.eraseIdx k
      granted := returned call ++ s.granted } := by
  have hmem : call ∈ s.calls := List.mem_of_getElem? hcall
  have hrow : ∀ c, call = .update c →
      ∃ row, leaseRow s.rows c.corpusId = some row ∧ c.Supersedes row :=
    fun c hc => by
      obtain ⟨row, hrow, hsupersedes⟩ := hundisturbed c (by simp [hcall, hc, overwriting])
      exact ⟨row, by simpa using hrow, hsupersedes⟩
  constructor
  · intro claim hpromised hlive
    have hkept : Promised s claim → Backed (statement s.rows call).1 claim := fun hold =>
      statement_keeps (h.started call hmem) hrow hlive (h.backed claim hold hlive)
    rcases hpromised with hgranted | hanswer
    · rcases List.mem_append.mp hgranted with hreturned | hold
      · exact hkept (Or.inr (mem_returned hreturned ▸ hmem))
      · exact hkept (Or.inl hold)
    · rcases mem_proceed hanswer with hold | hrest
      · exact hkept (Or.inr hold)
      · exact statement_grants hrow hrest
  · intro other hother
    rcases mem_proceed hother with hold | hrest
    · exact h.started other hold
    · rw [statement_claim hrest]
      exact h.started call hmem

/-- What one move preserves. -/
theorem Sound.step {move : Move} (h : Sound s) (hundisturbed : Undisturbed s move)
    (hstep : step s move = some s') : Sound s' := by
  cases move with
  | wait duration =>
    obtain rfl := Option.some.inj hstep
    constructor
    · intro claim hpromised hlive
      exact h.backed claim hpromised (lt_of_le_of_lt (Nat.le_add_right _ duration) hlive)
    · intro call hcall
      exact (h.started call hcall).trans (Nat.le_add_right _ _)
  | acquire corpusId owner ttlSeconds =>
    obtain rfl := Option.some.inj hstep
    constructor
    · intro claim hpromised hlive
      apply h.backed claim _ hlive
      simpa [Promised] using hpromised
    · intro call hcall
      rcases List.mem_append.mp hcall with hold | hnew
      · exact h.started call hold
      · obtain rfl := List.mem_singleton.mp hnew
        exact le_refl s.clock
  | proceed k =>
    obtain ⟨call, hcall, rfl⟩ := Option.map_eq_some_iff.mp hstep
    exact h.proceed hundisturbed hcall
  | crash k =>
    obtain ⟨call, hcall, rfl⟩ := Option.map_eq_some_iff.mp hstep
    constructor
    · intro claim hpromised hlive
      exact h.backed claim (hpromised.imp id List.mem_of_mem_eraseIdx) hlive
    · intro other hother
      exact h.started other (List.mem_of_mem_eraseIdx hother)
  | release corpusId owner =>
    obtain rfl := Option.some.inj hstep
    constructor
    · intro claim hpromised hlive
      have hother : ¬(claim.corpusId = corpusId ∧ claim.owner = owner) := by
        rcases hpromised with hgranted | hanswer
        · exact of_decide_eq_true (List.mem_filter.mp hgranted).2
        · exact hundisturbed claim (List.mem_flatMap.mpr ⟨_, hanswer, by simp [returned]⟩)
      have hold : Promised s claim := hpromised.imp List.mem_of_mem_filter id
      obtain ⟨row, hrow, howner, hexpires⟩ := h.backed claim hold hlive
      have hcorpus : row.corpusId = claim.corpusId := by
        simpa using (Table.selectOne_some hrow).2
      refine ⟨row, Table.selectOne_delete_kept hrow ?_, howner, hexpires⟩
      simpa [hcorpus, howner] using hother
    · exact h.started

/-- Two leases of one corpus that are backed by its row have one owner. -/
theorem Sound.exclusive (h : Sound s) : Exclusive s := by
  rintro corpusId first second ⟨claim, hclaim, hcorpus, rfl, hlive⟩ ⟨other, hother, hsame, rfl, hlive'⟩
  obtain ⟨row, hrow, howner, -⟩ := h.backed claim (Or.inl hclaim) hlive
  obtain ⟨row', hrow', howner', -⟩ := h.backed other (Or.inl hother) hlive'
  rw [hcorpus] at hrow
  rw [hsame, hrow] at hrow'
  obtain rfl := Option.some.inj hrow'
  exact howner.symm.trans howner'

end Exclusion

/-- The lease store before anybody has called. -/
def idle (clock : Timestamp) : System := ⟨clock, [], [], []⟩

/-- While no `UPDATE` overwrites a row that changed since it was read, and no owner overtakes itself, at
most one owner holds the lease of a corpus. The `SELECT` and the `UPDATE` of a claim are statements of
their own, between which anybody may act and the clock may move. -/
theorem reconciler_lease_exclusive {clock : Timestamp} {s : System}
    (hrun : Transition.Reaches step Undisturbed (idle clock) s) : Exclusive s := by
  apply Sound.exclusive
  apply hrun.invariant (fun h hundisturbed hstep => h.step hundisturbed hstep)
  exact ⟨by simp [Promised, idle], by simp [idle]⟩

/-- Two owners have taken over an expired lease. -/
private def takenOverTwice : System :=
  ⟨20000000, [⟨"policies", "c", 80000000⟩], [],
    [⟨"policies", "c", 20000000, 80000000⟩, ⟨"policies", "b", 20000000, 80000000⟩, ⟨"policies", "a", 0, 10000000⟩]⟩

/-- Two owners find an expired lease, and both take it over. -/
theorem reconciler_lease_exclusive_counterexample :
    Transition.Reaches step (fun _ _ => True) (idle 0) takenOverTwice ∧
      ¬Exclusive takenOverTwice := by
  have hrun : Transition.Reaches step (fun _ _ => True) (idle 0) takenOverTwice :=
    Transition.reaches_play ([.acquire "policies" "a" 10, .proceed 0, .proceed 0, .proceed 0,
      .wait 20000000, .acquire "policies" "b" 60, .acquire "policies" "c" 60, .proceed 0, .proceed 1,
      .proceed 0, .proceed 1, .proceed 0, .proceed 0] : List Move) rfl
  refine ⟨hrun, fun hexclusive => ?_⟩
  have hfirst : Holds takenOverTwice "policies" "b" :=
    ⟨⟨"policies", "b", 20000000, 80000000⟩, by decide, rfl, rfl, by decide⟩
  have hsecond : Holds takenOverTwice "policies" "c" :=
    ⟨⟨"policies", "c", 20000000, 80000000⟩, by decide, rfl, rfl, by decide⟩
  have hsame := hexclusive "policies" "b" "c" hfirst hsecond
  simp at hsame

/-- One owner has taken over an expired lease. -/
private def takenOver : System :=
  ⟨20000000, [⟨"policies", "b", 80000000⟩], [], [⟨"policies", "b", 20000000, 80000000⟩, ⟨"policies", "a", 0, 10000000⟩]⟩

/-- An expired lease is taken over by one owner. -/
theorem reconciler_lease_exclusive_takeover :
    Holds takenOver "policies" "b" ∧ Exclusive takenOver := by
  have hrun : Transition.Reaches step Undisturbed (idle 0) takenOver :=
    Transition.reaches_play ([.acquire "policies" "a" 10, .proceed 0, .proceed 0, .proceed 0,
      .wait 20000000, .acquire "policies" "b" 60, .proceed 0, .proceed 0, .proceed 0] : List Move) rfl
  exact ⟨⟨⟨"policies", "b", 20000000, 80000000⟩, by decide, rfl, rfl, by decide⟩, reconciler_lease_exclusive hrun⟩

end AgenticRag.ReconcilerLease
