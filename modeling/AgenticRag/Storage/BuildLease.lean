import AgenticRag.Storage.Transactions

/-!
# The build lease and its fencing token

A build of a version is owned through a `document_builds` row; the pair of its
owner and `lease_generation` is the fencing token that `_assert_owns_build`
compares. The owner is the job of the last accepted acquire, and the generation counts
the accepted acquires of the build; but the count starts again when `delete_document`
removes the row: a job that is the `n`-th to acquire a build both before and after a
purge gets the same token twice, and its old token passes the lease check again.
-/

namespace AgenticRag.MetadataStore

open Routine

section Generations

variable {s t : MetadataStore}

/-- What the lease check of `_assert_owns_build` accepts. -/
def leaseCheck (s : MetadataStore) (ref : VersionRef) (jobId : String) (generation : Nat) : Prop :=
  s.getBuildOwner ref = some jobId ∧ s.getLeaseGeneration ref = generation

theorem buildRow_insert (row : BuildRow) (ref : VersionRef) :
    ({ s with builds := Table.insert row s.builds } : MetadataStore).buildRow ref =
      (s.buildRow ref).or (if row.ref = ref then some row else none) := by
  simp only [buildRow, Table.selectOne_insert, decide_eq_true_eq]

/-- Rewriting the lease of `target` leaves the other leases alone. -/
theorem buildRow_update {target ref : VersionRef} {f : BuildRow → BuildRow}
    (hf : ∀ row, row.ref = target → (f row).ref = target) :
    ({ s with builds := Table.update (fun row => decide (row.ref = target)) f s.builds } :
        MetadataStore).buildRow ref =
      (s.buildRow ref).map fun row => if row.ref = target then f row else row := by
  unfold buildRow
  simp only
  rw [Table.selectOne_update]
  · simp only [decide_eq_true_eq]
  · intro row _
    by_cases htarget : row.ref = target
    · simp [htarget, hf row htarget]
    · simp [htarget]

/-- Only the claim of the lease writes the lease table. -/
theorem acquireJobTransaction_claim {args : AcquireArgs} {status : JobStatus}
    {generation : Nat} (h : acquireJobTransaction args s = (.ok (status, generation), t)) :
    ∃ previousVersion s₁, claimLease args s = (.ok (generation, previousVersion), s₁) ∧
      t.builds = s₁.builds := by
  obtain ⟨previousVersion, s₁, s₂, hclaim, hupsert, hbind⟩ := acquireJobTransaction_ok h
  have hs₂ : s₂.builds = s₁.builds := by
    cases hdocument : args.document with
    | none =>
      rw [hdocument] at hupsert
      obtain ⟨-, rfl⟩ := Prod.mk.inj hupsert
      rfl
    | some document =>
      rw [hdocument] at hupsert
      rcases upsertDocumentBuild_cases hupsert with ⟨-, -, rfl, -⟩ | ⟨row, -, -, -, rfl⟩ |
        ⟨row, -, -, -, rfl⟩ | ⟨-, rfl⟩ <;> rfl
  have ht : t.builds = s₂.builds := by
    rcases bindJobRow_cases hbind with ⟨-, -, -, rfl⟩ | ⟨row, -, -, -, -, -, rfl⟩ |
      ⟨row, -, -, -, -, -, rfl⟩ | ⟨-, rfl⟩ <;> rfl
  exact ⟨previousVersion, s₁, hclaim, ht.trans hs₂⟩

/-- An accepted acquire returns the next generation of its build, installs the
token, and leaves every other lease alone. -/
theorem acquireJobTransaction_generation {args : AcquireArgs} {status : JobStatus}
    {generation : Nat} (h : acquireJobTransaction args s = (.ok (status, generation), t)) :
    generation = s.getLeaseGeneration args.ref + 1 ∧
      (∃ previous, t.buildRow args.ref = some (leaseFor args generation previous)) ∧
      ∀ ref, ref ≠ args.ref → t.buildRow ref = s.buildRow ref := by
  obtain ⟨previousVersion, s₁, hclaim, hbuilds⟩ := acquireJobTransaction_claim h
  have hrow : ∀ ref, t.buildRow ref = s₁.buildRow ref := by
    intro ref
    simp only [buildRow, hbuilds]
  rcases claimLease_cases hclaim with ⟨hnone, hok, rfl⟩ | ⟨lease, hlease, -, hok, rfl⟩ |
      ⟨lease, reason, -, -, herr, -⟩
  · simp only [Except.ok.injEq, Prod.mk.injEq] at hok
    obtain ⟨rfl, rfl⟩ := hok
    refine ⟨by simp [getLeaseGeneration, hnone], ⟨s.getActiveVersion args.ref.doc, ?_⟩, ?_⟩
    · rw [hrow, buildRow_insert, hnone]
      simp [leaseFor]
    · intro ref hne
      rw [hrow, buildRow_insert]
      have hforeign : (leaseFor args 1 (s.getActiveVersion args.ref.doc)).ref ≠ ref := hne.symm
      simp [hforeign]
  · simp only [Except.ok.injEq, Prod.mk.injEq] at hok
    obtain ⟨rfl, rfl⟩ := hok
    have hrenewed := fun ref => @buildRow_update s args.ref ref
      (fun _ => leaseFor args (lease.leaseGeneration + 1) lease.previousActiveVersion)
      (fun _ _ => rfl)
    refine ⟨by simp [getLeaseGeneration, hlease], ⟨lease.previousActiveVersion, ?_⟩, ?_⟩
    · rw [hrow, hrenewed, hlease]
      simp only [Option.map_some, (buildRow_mem hlease).2, if_true]
    · intro ref hne
      rw [hrow, hrenewed]
      cases hother : s.buildRow ref with
      | none => rfl
      | some row =>
        have hrowref := (buildRow_mem hother).2
        have hforeign : row.ref ≠ args.ref := by rw [hrowref]; exact hne
        simp [hforeign]
  · simp at herr

theorem markStep_buildRow {jobId : String} {step : Step} {status : String}
    {r : Except PyError Unit} (h : markStep jobId step status s = (r, t)) (ref : VersionRef) :
    t.buildRow ref = s.buildRow ref := by
  rcases markStep_cases h with ⟨-, heq, -⟩ | ⟨-, rfl, -⟩
  · rw [heq]
    rfl
  · rfl

/-- Marking a job terminal rewrites lease statuses, never owners or generations. -/
theorem markJobTerminal_token (jobId : String) (status : JobStatus)
    (parentCount childCount : Nat) (errorCode : Option String) (ref : VersionRef) :
    let t := (markJobTerminal jobId status parentCount childCount errorCode s).2
    t.getLeaseGeneration ref = s.getLeaseGeneration ref ∧ t.getBuildOwner ref = s.getBuildOwner ref := by
  rw [markJobTerminal_eq]
  cases terminalLease status with
  | none => exact ⟨rfl, rfl⟩
  | some lease =>
    simp only [getLeaseGeneration, getBuildOwner, buildRow]
    rw [Table.selectOne_update]
    · cases Table.selectOne (fun row : BuildRow => decide (row.ref = ref)) s.builds with
      | none => exact ⟨rfl, rfl⟩
      | some row =>
        by_cases howner : row.ownerJobId = jobId <;> simp [howner]
    · intro row _
      by_cases howner : row.ownerJobId = jobId <;> simp [howner]

/-- Claims count from one. -/
def PositiveGenerations (s : MetadataStore) : Prop :=
  ∀ row ∈ s.builds, 0 < row.leaseGeneration

theorem PositiveGenerations.acquire {args : AcquireArgs} {r : Except PyError (JobStatus × Nat)}
    (h : acquireJobTransaction args s = (r, t)) (hs : PositiveGenerations s) :
    PositiveGenerations t := by
  cases r with
  | error e =>
    rw [Routine.transaction_error h]
    exact hs
  | ok claimed =>
    obtain ⟨previousVersion, s₁, hclaim, hbuilds⟩ := acquireJobTransaction_claim h
    intro row hrow
    rw [hbuilds] at hrow
    rcases claimLease_cases hclaim with ⟨-, -, rfl⟩ | ⟨lease, -, -, -, rfl⟩ |
      ⟨lease, reason, -, -, herr, -⟩
    · rcases Table.mem_insert.mp hrow with hold | rfl
      · exact hs row hold
      · exact Nat.one_pos
    · rcases Table.mem_update.mp hrow with ⟨old, -, -, rfl⟩ | ⟨hold, -⟩
      · exact Nat.succ_pos _
      · exact hs row hold
    · simp at herr

theorem PositiveGenerations.markJobTerminal (jobId : String) (status : JobStatus)
    (parentCount childCount : Nat) (errorCode : Option String) (hs : PositiveGenerations s) :
    PositiveGenerations
      (MetadataStore.markJobTerminal jobId status parentCount childCount errorCode s).2 := by
  rw [markJobTerminal_eq]
  cases terminalLease status with
  | none => exact hs
  | some lease =>
    intro row hrow
    rcases Table.mem_update.mp hrow with ⟨old, hold, -, rfl⟩ | ⟨hold, -⟩
    · exact hs old hold
    · exact hs row hold

/-- A lease with an owner has a positive generation. -/
theorem PositiveGenerations.of_owner {ref : VersionRef} {jobId : String}
    (hs : PositiveGenerations s) (howner : s.getBuildOwner ref = some jobId) :
    0 < s.getLeaseGeneration ref := by
  unfold getBuildOwner at howner
  obtain ⟨row, hrow, -⟩ := Option.map_eq_some_iff.mp howner
  simp only [getLeaseGeneration, hrow]
  exact hs row (buildRow_mem hrow).1

/-- A purge removes the leases of its document and no other. -/
theorem deleteDocument_buildRow {doc : DocRef} {r : Except PyError Unit}
    (h : deleteDocument doc s = (r, t)) (ref : VersionRef) :
    t.buildRow ref = if ref.doc = doc then none else s.buildRow ref := by
  obtain ⟨hbuilds, -⟩ := deleteDocument_cases h
  unfold buildRow
  rw [hbuilds]
  by_cases hdoc : ref.doc = doc
  · rw [if_pos hdoc]
    apply Table.selectOne_delete_covered
    intro row _ href
    simpa [of_decide_eq_true href] using hdoc
  · rw [if_neg hdoc]
    apply Table.selectOne_delete_disjoint
    intro row _ href
    simpa [of_decide_eq_true href] using hdoc

end Generations

section Histories

/-- The calls that create, move and remove leases; no acquire recovers a live
attempt of its own job. -/
inductive LeaseCall where
  | acquireJob (args : AcquireArgs) (normal : args.recover = false)
  | markJobTerminal (jobId : String) (status : JobStatus) (parentCount childCount : Nat)
      (errorCode : Option String)
  | deleteDocument (doc : DocRef)

/-- What a history leaves to look back on: accepted acquires with the generation
they returned, and purges. -/
inductive LeaseEvent where
  | acquired (ref : VersionRef) (jobId : String) (generation : Nat)
  | purged (doc : DocRef)
  deriving DecidableEq

def LeaseCall.run (s : MetadataStore) : LeaseCall → List LeaseEvent × MetadataStore
  | .acquireJob args _ =>
    match MetadataStore.acquireJob args s with
    | (.ok (_, generation), t) => ([.acquired args.ref args.jobId generation], t)
    | (.error _, t) => ([], t)
  | .markJobTerminal jobId status parentCount childCount errorCode =>
    ([], (MetadataStore.markJobTerminal jobId status parentCount childCount errorCode s).2)
  | .deleteDocument doc => ([.purged doc], (MetadataStore.deleteDocument doc s).2)

/-- The events of a sequence of calls and the store it ends in. -/
def leaseHistory (s : MetadataStore) : List LeaseCall → List LeaseEvent × MetadataStore
  | [] => ([], s)
  | call :: calls =>
    let (events, t) := call.run s
    let (later, u) := leaseHistory t calls
    (events ++ later, u)

/-- One event's effect on the number of acquires of `ref` since its last purge. -/
def LeaseEvent.count (ref : VersionRef) (n : Nat) : LeaseEvent → Nat
  | .acquired target _ _ => if target = ref then n + 1 else n
  | .purged doc => if ref.doc = doc then 0 else n

/-- Acquires of `ref` since the last purge of its document, starting from `n`. -/
def acquisitions (ref : VersionRef) (n : Nat) (events : List LeaseEvent) : Nat :=
  events.foldl (LeaseEvent.count ref) n

@[simp] theorem acquisitions_nil (ref : VersionRef) (n : Nat) : acquisitions ref n [] = n := rfl

@[simp] theorem acquisitions_append (ref : VersionRef) (n : Nat) (first second : List LeaseEvent) :
    acquisitions ref n (first ++ second) = acquisitions ref (acquisitions ref n first) second := by
  simp [acquisitions]

@[simp] theorem acquisitions_cons (ref : VersionRef) (n : Nat) (event : LeaseEvent)
    (events : List LeaseEvent) :
    acquisitions ref n (event :: events) = acquisitions ref (event.count ref n) events := rfl

/-- Without a purge the count only grows. -/
theorem acquisitions_le {ref : VersionRef} {n : Nat} {events : List LeaseEvent}
    (h : .purged ref.doc ∉ events) : n ≤ acquisitions ref n events := by
  induction events generalizing n with
  | nil => simp
  | cons event events ih =>
    rw [acquisitions_cons]
    refine le_trans ?_ (ih fun hmem => h (List.mem_cons_of_mem _ hmem))
    cases event with
    | acquired target jobId generation =>
      simp only [LeaseEvent.count]
      split <;> omega
    | purged doc =>
      have hdoc : ref.doc ≠ doc := by
        rintro rfl
        exact h (by simp)
      simp [LeaseEvent.count, hdoc]

/-- One event's effect on who was granted `ref` last. -/
def LeaseEvent.grant (ref : VersionRef) (current : Option String) : LeaseEvent → Option String
  | .acquired target jobId _ => if target = ref then some jobId else current
  | .purged doc => if ref.doc = doc then none else current

/-- The job of the last accepted acquire of `ref` since the last purge of its document, starting
from `current`. -/
def holder (ref : VersionRef) (current : Option String) (events : List LeaseEvent) : Option String :=
  events.foldl (LeaseEvent.grant ref) current

@[simp] theorem holder_nil (ref : VersionRef) (current : Option String) :
    holder ref current [] = current := rfl

@[simp] theorem holder_append (ref : VersionRef) (current : Option String)
    (first second : List LeaseEvent) :
    holder ref current (first ++ second) = holder ref (holder ref current first) second := by
  simp [holder]

@[simp] theorem holder_cons (ref : VersionRef) (current : Option String) (event : LeaseEvent)
    (events : List LeaseEvent) :
    holder ref current (event :: events) = holder ref (event.grant ref current) events := rfl

/-- The event is an acquire of the build or a purge of its document. -/
def LeaseEvent.Concerns (ref : VersionRef) : LeaseEvent → Prop
  | .acquired target _ _ => target = ref
  | .purged doc => ref.doc = doc

/-- Events of other builds move neither the count nor the holder. -/
theorem unconcerned {ref : VersionRef} {events : List LeaseEvent}
    (h : ∀ event ∈ events, ¬event.Concerns ref) (n : Nat) (current : Option String) :
    acquisitions ref n events = n ∧ holder ref current events = current := by
  induction events with
  | nil => exact ⟨rfl, rfl⟩
  | cons event events ih =>
    have hevent := h event List.mem_cons_self
    have hkept : event.count ref n = n ∧ event.grant ref current = current := by
      cases event with
      | acquired target jobId generation => exact ⟨if_neg hevent, if_neg hevent⟩
      | purged doc => exact ⟨if_neg hevent, if_neg hevent⟩
    rw [acquisitions_cons, holder_cons, hkept.1, hkept.2]
    exact ih fun other hother => h other (List.mem_cons_of_mem _ hother)

/-- A build is held through the last acquire; nothing has concerned it since. -/
theorem holder_some {ref : VersionRef} {events : List LeaseEvent} {jobId : String}
    (h : holder ref none events = some jobId) :
    ∃ earlier generation later, events = earlier ++ .acquired ref jobId generation :: later ∧
      ∀ event ∈ later, ¬event.Concerns ref := by
  induction events using List.reverseRecOn with
  | nil => cases h
  | append_singleton events event ih =>
    rw [holder_append, holder_cons, holder_nil] at h
    have hpassed : ¬event.Concerns ref → holder ref none events = some jobId →
        ∃ earlier generation later, events ++ [event] =
            earlier ++ .acquired ref jobId generation :: later ∧
          ∀ event ∈ later, ¬event.Concerns ref := by
      intro hevent hbefore
      obtain ⟨earlier, generation, later, rfl, hlater⟩ := ih hbefore
      refine ⟨earlier, generation, later ++ [event], by simp, ?_⟩
      intro other hother
      rcases List.mem_append.mp hother with hother | hother
      · exact hlater other hother
      · rw [List.mem_singleton.mp hother]
        exact hevent
    cases event with
    | acquired target other generation =>
      by_cases htarget : target = ref
      · subst htarget
        obtain rfl : other = jobId := by simpa [LeaseEvent.grant] using h
        exact ⟨events, generation, [], rfl, by simp⟩
      · exact hpassed htarget (by simpa [LeaseEvent.grant, htarget] using h)
    | purged doc =>
      by_cases hdoc : ref.doc = doc
      · simp [LeaseEvent.grant, hdoc] at h
      · exact hpassed hdoc (by simpa [LeaseEvent.grant, hdoc] using h)

/-- One call emits at most one event; the lease row follows it, and an accepted acquire
returned the generation it brought about. -/
theorem LeaseCall.run_token {s t : MetadataStore} {call : LeaseCall} {events : List LeaseEvent}
    (hrun : call.run s = (events, t)) (ref : VersionRef) :
    t.getLeaseGeneration ref = acquisitions ref (s.getLeaseGeneration ref) events ∧
      t.getBuildOwner ref = holder ref (s.getBuildOwner ref) events ∧
      (events = [] ∨ ∃ event, events = [event] ∧ ∀ jobId generation,
        event = .acquired ref jobId generation → generation = s.getLeaseGeneration ref + 1) := by
  cases call with
  | acquireJob args normal =>
    rcases hacquire : MetadataStore.acquireJob args s with ⟨r, u⟩
    rcases acquireJob_cases hacquire with ⟨e, -, rfl, rfl⟩ |
      ⟨⟨status, generation⟩, s', htxn, rfl, hmark⟩
    · simp only [LeaseCall.run, hacquire, Prod.mk.injEq] at hrun
      obtain ⟨rfl, rfl⟩ := hrun
      exact ⟨rfl, rfl, Or.inl rfl⟩
    · simp only [LeaseCall.run, hacquire, Prod.mk.injEq] at hrun
      obtain ⟨rfl, rfl⟩ := hrun
      obtain ⟨hgeneration, ⟨previous, hlease⟩, hothers⟩ := acquireJobTransaction_generation htxn
      simp only [getLeaseGeneration, getBuildOwner, markStep_buildRow hmark, acquisitions_cons,
        acquisitions_nil, holder_cons, holder_nil, LeaseEvent.count, LeaseEvent.grant]
      refine ⟨?_, ?_, Or.inr ⟨_, rfl, ?_⟩⟩
      · by_cases href : args.ref = ref
        · subst href
          simp only [hlease, if_true, leaseFor]
          exact hgeneration
        · rw [if_neg href, hothers ref (Ne.symm href)]
      · by_cases href : args.ref = ref
        · subst href
          simp only [hlease, if_true, leaseFor, Option.map_some]
        · rw [if_neg href, hothers ref (Ne.symm href)]
      · intro jobId g heq
        simp only [LeaseEvent.acquired.injEq] at heq
        obtain ⟨rfl, -, rfl⟩ := heq
        exact hgeneration
  | markJobTerminal jobId status parentCount childCount errorCode =>
    obtain ⟨rfl, rfl⟩ := Prod.mk.inj hrun
    have htoken := @markJobTerminal_token s jobId status parentCount childCount errorCode ref
    exact ⟨htoken.1, htoken.2, Or.inl rfl⟩
  | deleteDocument doc =>
    rcases hdelete : MetadataStore.deleteDocument doc s with ⟨r, u⟩
    simp only [LeaseCall.run, hdelete, Prod.mk.injEq] at hrun
    obtain ⟨rfl, rfl⟩ := hrun
    have hrow := deleteDocument_buildRow hdelete ref
    refine ⟨?_, ?_, Or.inr ⟨_, rfl, by simp⟩⟩
    · by_cases hdoc : ref.doc = doc
      · simp [getLeaseGeneration, hrow, LeaseEvent.count, hdoc]
      · simp [getLeaseGeneration, hrow, LeaseEvent.count, hdoc]
    · by_cases hdoc : ref.doc = doc
      · simp [getBuildOwner, hrow, LeaseEvent.grant, hdoc]
      · simp [getBuildOwner, hrow, LeaseEvent.grant, hdoc]

/-- The lease row is what the history says: its generation is the running count, its owner the
job that was granted the build last; and every accepted acquire returned the count it brought
about. -/
theorem leaseHistory_token (s : MetadataStore) (calls : List LeaseCall) (ref : VersionRef) :
    let (events, t) := leaseHistory s calls
    t.getLeaseGeneration ref = acquisitions ref (s.getLeaseGeneration ref) events ∧
      t.getBuildOwner ref = holder ref (s.getBuildOwner ref) events ∧
      ∀ earlier later jobId generation, events = earlier ++ .acquired ref jobId generation :: later →
        generation = acquisitions ref (s.getLeaseGeneration ref) earlier + 1 := by
  induction calls generalizing s with
  | nil =>
    refine ⟨rfl, rfl, ?_⟩
    intro earlier later jobId generation h
    simp at h
  | cons call calls ih =>
    rcases hrun : call.run s with ⟨events, t⟩
    have hhistory : leaseHistory s (call :: calls) =
        (events ++ (leaseHistory t calls).1, (leaseHistory t calls).2) := by
      simp [leaseHistory, hrun]
    obtain ⟨hstep, howner, hevents⟩ := LeaseCall.run_token hrun ref
    obtain ⟨ihstate, ihowner, ihevents⟩ := ih t
    rw [hhistory]
    refine ⟨by rw [ihstate, hstep, acquisitions_append], by rw [ihowner, howner, holder_append], ?_⟩
    intro earlier later jobId generation hsplit
    rcases hevents with rfl | ⟨event, rfl, hevent⟩
    · rw [List.nil_append] at hsplit
      rw [ihevents earlier later jobId generation hsplit, hstep, acquisitions_nil]
    · rw [List.singleton_append] at hsplit
      cases earlier with
      | nil =>
        rw [List.nil_append, List.cons.injEq] at hsplit
        rw [hevent jobId generation hsplit.1, acquisitions_nil]
      | cons first earlier =>
        rw [List.cons_append, List.cons.injEq] at hsplit
        obtain ⟨rfl, hrest⟩ := hsplit
        rw [ihevents earlier later jobId generation hrest, hstep]
        rfl

/-- The events of the first calls come first. -/
theorem leaseHistory_earlier (s : MetadataStore) {earlier calls : List LeaseCall}
    (h : earlier <+: calls) : (leaseHistory s earlier).1 <+: (leaseHistory s calls).1 := by
  obtain ⟨rest, rfl⟩ := h
  induction earlier generalizing s with
  | nil => exact List.nil_prefix
  | cons call earlier ih => exact (List.prefix_append_right_inj _).mpr (ih (call.run s).2)

/-- While the job that was granted a build last is in flight, another job's acquire of the
build raises `BuildConflict` and changes nothing. -/
def ExclusiveBuild (events : List LeaseEvent) (s : MetadataStore) : Prop :=
  ∀ (args : AcquireArgs) (jobId : String), holder args.ref none events = some jobId →
    jobId ≠ args.jobId → (s.getJobStatus jobId).any JobStatus.inFlight = true →
      ∃ reason, acquireJob args s = (.error (.buildConflict reason), s)

/-- Two acquires by one job have a takeover or a purge of their build in between. -/
def Separated (ref : VersionRef) (jobId : String) (between : List LeaseEvent) : Prop :=
  (∃ other generation, other ≠ jobId ∧ .acquired ref other generation ∈ between) ∨
    .purged ref.doc ∈ between

/-- Separated acquires of a build never return the same token. -/
def TokensUnique (events : List LeaseEvent) : Prop :=
  ∀ earlier between later ref jobId generation generation',
    events = earlier ++ .acquired ref jobId generation :: between ++
        .acquired ref jobId generation' :: later →
      Separated ref jobId between → generation ≠ generation'

/-- The lease check fails for a token once a takeover or a purge has come after it, and it
passes as long as nothing has concerned the build since. -/
def TokensFenced (events : List LeaseEvent) (s : MetadataStore) : Prop :=
  ∀ earlier later ref jobId generation,
    events = earlier ++ .acquired ref jobId generation :: later →
      (Separated ref jobId later → ¬s.leaseCheck ref jobId generation) ∧
        ((∀ event ∈ later, ¬event.Concerns ref) → s.leaseCheck ref jobId generation)

/-- No job is the `n`-th to acquire a build both before and after a purge of its
document, for any `n`. -/
def NoRepeatedTurn (events : List LeaseEvent) : Prop :=
  ∀ earlier between later ref jobId generation generation',
    events = earlier ++ .acquired ref jobId generation :: between ++
        .acquired ref jobId generation' :: later →
      .purged ref.doc ∈ between →
        acquisitions ref 0 earlier ≠
          acquisitions ref 0 (earlier ++ .acquired ref jobId generation :: between)

/-- The lease protocol as promised: after any of the calls the build is exclusive to the job
that was granted it last and earlier tokens are fenced off, and no token is given twice. -/
def LeaseSafety (s : MetadataStore) (calls : List LeaseCall) : Prop :=
  (∀ earlier, earlier <+: calls →
    let (events, t) := leaseHistory s earlier
    ExclusiveBuild events t ∧ TokensFenced events t) ∧
  TokensUnique (leaseHistory s calls).1

/-- What is left of a split by an event that does not concern the build. -/
theorem Separated.between {ref : VersionRef} {jobId : String} {generation : Nat}
    {between later : List LeaseEvent} (hlater : ∀ event ∈ later, ¬event.Concerns ref)
    (h : Separated ref jobId (between ++ .acquired ref jobId generation :: later)) :
    Separated ref jobId between := by
  rcases h with ⟨other, g, hother, hmem⟩ | hmem
  · refine Or.inl ⟨other, g, hother, ?_⟩
    rcases List.mem_append.mp hmem with hmem | hmem
    · exact hmem
    · rcases List.mem_cons.mp hmem with heq | hmem
      · exact absurd (LeaseEvent.acquired.inj heq).2.1 hother
      · exact absurd rfl (hlater _ hmem)
  · refine Or.inr ?_
    rcases List.mem_append.mp hmem with hmem | hmem
    · exact hmem
    · rcases List.mem_cons.mp hmem with heq | hmem
      · cases heq
      · exact absurd rfl (hlater _ hmem)

/-- A separating event concerns the build. -/
theorem Separated.concerns {ref : VersionRef} {jobId : String} {between : List LeaseEvent}
    (h : Separated ref jobId between) : ∃ event ∈ between, event.Concerns ref := by
  rcases h with ⟨other, generation, -, hmem⟩ | hmem
  · exact ⟨_, hmem, rfl⟩
  · exact ⟨_, hmem, rfl⟩

section FreshStore

variable {s : MetadataStore} {calls : List LeaseCall}

/-- From a store without leases the events alone say what the lease row is. -/
theorem leaseHistory_fresh (hfresh : s.builds = []) (calls : List LeaseCall) (ref : VersionRef) :
    let (events, t) := leaseHistory s calls
    t.getLeaseGeneration ref = acquisitions ref 0 events ∧
      t.getBuildOwner ref = holder ref none events ∧
      ∀ earlier later jobId generation, events = earlier ++ .acquired ref jobId generation :: later →
        generation = acquisitions ref 0 earlier + 1 := by
  have hgeneration : s.getLeaseGeneration ref = 0 := by
    simp [getLeaseGeneration, buildRow, hfresh, Table.selectOne]
  have howner : s.getBuildOwner ref = none := by
    simp [getBuildOwner, buildRow, hfresh, Table.selectOne]
  have htoken := leaseHistory_token s calls ref
  rwa [hgeneration, howner] at htoken

theorem exclusiveBuild (hfresh : s.builds = []) (calls : List LeaseCall) :
    ExclusiveBuild (leaseHistory s calls).1 (leaseHistory s calls).2 := by
  intro args jobId hholder hother hflight
  have howner := (leaseHistory_fresh hfresh calls args.ref).2.1
  generalize (leaseHistory s calls).2 = t at howner hflight ⊢
  rw [hholder] at howner
  obtain ⟨lease, hlease, hjob⟩ := Option.map_eq_some_iff.mp howner
  have hblocked : ¬Claimable t args lease := by
    simp only [Claimable, ne_eq, hjob, hother, not_false_eq_true, if_true, hflight]
    simp
  rcases hclaim : claimLease args t with ⟨r, t₁⟩
  rcases claimLease_cases hclaim with ⟨hnone, -, -⟩ | ⟨found, hfound, hclaimable, -, -⟩ |
      ⟨found, reason, -, -, rfl, rfl⟩
  · rw [hlease] at hnone
    simp at hnone
  · rw [hlease, Option.some.injEq] at hfound
    subst hfound
    exact absurd hclaimable hblocked
  · refine ⟨reason, ?_⟩
    have htxn : acquireJobTransaction args t₁ = (.error (.buildConflict reason), t₁) := by
      unfold acquireJobTransaction transaction
      rw [bind_error hclaim]
    unfold acquireJob
    rw [bind_error htxn]

/-- Without a repeated turn no token is given twice: across a purge the turns differ, and
without one the count has grown. -/
theorem NoRepeatedTurn.tokensUnique (hfresh : s.builds = [])
    (hturns : NoRepeatedTurn (leaseHistory s calls).1) : TokensUnique (leaseHistory s calls).1 := by
  intro earlier between later ref jobId generation generation' hevents _ hsame
  have hturn := (leaseHistory_fresh hfresh calls ref).2.2
  have hfirst := hturn earlier _ jobId generation
    (by rw [hevents, List.append_assoc, List.cons_append])
  have hsecond := hturn _ later jobId generation' hevents
  by_cases hpurge : LeaseEvent.purged ref.doc ∈ between
  · refine hturns earlier between later ref jobId generation generation' hevents hpurge ?_
    omega
  · have hgrows := @acquisitions_le ref (acquisitions ref 0 earlier + 1) between hpurge
    simp only [acquisitions_append, acquisitions_cons, LeaseEvent.count, if_true] at hsecond
    omega

/-- Tokens that are given once are fenced: a token that passes the check is the last one that
was given. -/
theorem TokensUnique.fenced (hfresh : s.builds = [])
    (hunique : TokensUnique (leaseHistory s calls).1) :
    TokensFenced (leaseHistory s calls).1 (leaseHistory s calls).2 := by
  intro earlier later ref jobId generation hevents
  obtain ⟨hgeneration, howner, hturn⟩ := leaseHistory_fresh hfresh calls ref
  have hfirst := hturn earlier later jobId generation hevents
  constructor
  · rintro hseparated ⟨hholds, hpasses⟩
    rw [howner] at hholds
    obtain ⟨before, last, after, hsplit, hafter⟩ := holder_some hholds
    have hlast : last = generation := by
      have hcount := hturn before after jobId last hsplit
      rw [← hpasses, hgeneration, hsplit, acquisitions_append, acquisitions_cons,
        (unconcerned hafter _ none).1, hcount]
      simp [LeaseEvent.count]
    rcases List.append_eq_append_iff.mp (hevents.symm.trans hsplit) with
      ⟨skipped, rfl, hlater⟩ | ⟨skipped, rfl, hlater⟩
    · cases skipped with
      | nil =>
        -- the token is the last one, so nothing separates it from now
        obtain ⟨-, rfl⟩ := List.cons.inj hlater
        obtain ⟨event, hmem, hconcerns⟩ := hseparated.concerns
        exact hafter event hmem hconcerns
      | cons event between =>
        obtain ⟨rfl, rfl⟩ := List.cons.inj hlater
        refine hunique earlier between after ref jobId generation last ?_
          (hseparated.between hafter) hlast.symm
        rw [hsplit]
    · cases skipped with
      | nil =>
        obtain ⟨-, rfl⟩ := List.cons.inj hlater
        obtain ⟨event, hmem, hconcerns⟩ := hseparated.concerns
        exact hafter event hmem hconcerns
      | cons event between =>
        obtain ⟨-, rfl⟩ := List.cons.inj hlater
        exact hafter _ (List.mem_append_right _ List.mem_cons_self) rfl
  · intro hlater
    have hkept := unconcerned hlater (acquisitions ref 0 earlier + 1) (some jobId)
    refine ⟨?_, ?_⟩
    · rw [howner, hevents, holder_append, holder_cons]
      simpa [LeaseEvent.grant] using hkept.2
    · rw [hgeneration, hevents, acquisitions_append, acquisitions_cons, hfirst]
      simpa [LeaseEvent.count] using hkept.1

/-- The same turn would give the same token: a history in which no event occurs twice repeats
none. -/
theorem noRepeatedTurn_of_nodup (hfresh : s.builds = []) (hnodup : (leaseHistory s calls).1.Nodup) :
    NoRepeatedTurn (leaseHistory s calls).1 := by
  intro earlier between later ref jobId generation generation' hevents _ hsame
  have hturn := (leaseHistory_fresh hfresh calls ref).2.2
  have hfirst := hturn earlier _ jobId generation
    (by rw [hevents, List.append_assoc, List.cons_append])
  have hsecond := hturn _ later jobId generation' hevents
  obtain rfl : generation = generation' := by omega
  have honce := List.nodup_iff_count_le_one.mp hnodup (.acquired ref jobId generation)
  rw [hevents] at honce
  simp only [List.count_append, List.count_cons_self] at honce
  omega

end FreshStore

theorem TokensUnique.initial {events events' : List LeaseEvent} (h : TokensUnique events')
    (hinitial : events <+: events') : TokensUnique events := by
  obtain ⟨rest, rfl⟩ := hinitial
  intro earlier between later ref jobId generation generation' hevents
  refine h earlier between (later ++ rest) ref jobId generation generation' ?_
  rw [hevents]
  simp

/-- The lease protocol holds of a history exactly when no job repeats its turn across a purge.
The history starts in a store without leases; it is any sequence of acquires that recover no
live attempt, terminal marks and purges by any jobs. -/
theorem lease_safety_iff (s : MetadataStore) (hfresh : s.builds = []) (calls : List LeaseCall) :
    LeaseSafety s calls ↔ NoRepeatedTurn (leaseHistory s calls).1 := by
  constructor
  · rintro ⟨-, hunique⟩ earlier between later ref jobId generation generation' hevents hpurge hsame
    have hturn := (leaseHistory_fresh hfresh calls ref).2.2
    refine hunique earlier between later ref jobId generation generation' hevents (Or.inr hpurge) ?_
    rw [hturn earlier _ jobId generation (by rw [hevents, List.append_assoc, List.cons_append]),
      hturn _ later jobId generation' hevents, hsame]
  · intro hturns
    have hunique := hturns.tokensUnique hfresh
    refine ⟨fun earlier hearlier => ⟨exclusiveBuild hfresh earlier, ?_⟩, hunique⟩
    exact (hunique.initial (leaseHistory_earlier s hearlier)).fenced hfresh

private def sampleAcquire (jobId attemptId : String) : LeaseCall :=
  .acquireJob (Sample.acquire jobId "v1" attemptId 0) rfl

private def purgedAndRebuilt : List LeaseCall :=
  [sampleAcquire "job-1" "attempt-1", .markJobTerminal "job-1" .succeeded 1 1 none,
    .deleteDocument Sample.doc, sampleAcquire "job-1" "attempt-2"]

/-- A job that builds a version, is purged with its document and builds it again
holds the token `(job, 1)` in both lives of the build. -/
theorem lease_safety_counterexample : ¬LeaseSafety Sample.store purgedAndRebuilt := by
  rintro ⟨-, hunique⟩
  have hevents : (leaseHistory Sample.store purgedAndRebuilt).1 =
      [] ++ .acquired ⟨Sample.doc, "v1"⟩ "job-1" 1 :: [.purged Sample.doc] ++
        .acquired ⟨Sample.doc, "v1"⟩ "job-1" 1 :: [] := by
    decide
  exact hunique [] [.purged Sample.doc] [] ⟨Sample.doc, "v1"⟩ "job-1" 1 1 hevents
    (Or.inr (by simp)) rfl

private def takenOver : List LeaseCall :=
  purgedAndRebuilt.take 3 ++
    [sampleAcquire "job-2" "attempt-2", .markJobTerminal "job-2" .failed 0 0 none,
      sampleAcquire "job-1" "attempt-3"]

/-- With a second job in between, the first job's turns before and after the purge differ: it
is fenced off with its old token `(job, 1)` and passes with the new one `(job, 2)`. -/
theorem lease_safety_iff_takeover :
    let (events, t) := leaseHistory Sample.store takenOver
    LeaseSafety Sample.store takenOver ∧ events =
      [.acquired ⟨Sample.doc, "v1"⟩ "job-1" 1, .purged Sample.doc,
        .acquired ⟨Sample.doc, "v1"⟩ "job-2" 1, .acquired ⟨Sample.doc, "v1"⟩ "job-1" 2] ∧
      ¬t.leaseCheck ⟨Sample.doc, "v1"⟩ "job-1" 1 ∧ t.leaseCheck ⟨Sample.doc, "v1"⟩ "job-1" 2 := by
  have hevents : (leaseHistory Sample.store takenOver).1 =
      [.acquired ⟨Sample.doc, "v1"⟩ "job-1" 1, .purged Sample.doc,
        .acquired ⟨Sample.doc, "v1"⟩ "job-2" 1, .acquired ⟨Sample.doc, "v1"⟩ "job-1" 2] := by
    decide
  have hturns : NoRepeatedTurn (leaseHistory Sample.store takenOver).1 :=
    noRepeatedTurn_of_nodup rfl (by rw [hevents]; decide)
  refine ⟨(lease_safety_iff Sample.store rfl takenOver).mpr hturns, hevents, ?_, ?_⟩
  · exact fun h => absurd h.2 (by decide)
  · exact ⟨by decide, by decide⟩

end Histories

end AgenticRag.MetadataStore
