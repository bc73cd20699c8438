import AgenticRag.Ingestion.DeletedVersions
import AgenticRag.Storage.BuildLease
import AgenticRag.Storage.Frames

/-!
# Stale attempts

Once a build lease has been taken over, the attempt that held it before should
change nothing any more. Only `commit` and `publish` compare the fencing token,
and only at their start: a stale attempt that is suspended anywhere else goes on
writing. It is silent exactly from the lease check on: an attempt that finds
itself before or inside the check when the generation advances raises
`BuildConflict` and stops.
-/

namespace AgenticRag

open MetadataStore StoreProgram Method

section Generations

/-- The accesses of the requests: no purge, and a job acquires its own build only. -/
def MetadataOp.WithinRequest {β : Type} (i : LifecycleRequest) : MetadataOp β → Prop
  | .acquireJobTransaction args => ∃ req options, i = .ingest req options ∧ args.ref = req.ref
  | .deleteDocument _ => False
  | _ => True

def StoreOp.WithinRequest {β : Type} (i : LifecycleRequest) : StoreOp β → Prop
  | .metadata op => op.WithinRequest i
  | _ => True

theorem StoreOp.Harmless.withinRequest {β : Type} (i : LifecycleRequest) {op : StoreOp β}
    (hop : op.Harmless) : op.WithinRequest i := by
  cases op with
  | metadata op =>
    cases op with
    | acquireJobTransaction args => exact hop.elim
    | deleteDocument doc => exact hop.elim
    | _ => trivial
  | _ => trivial

theorem LifecycleRequest.program_within (svc : Services) (i : LifecycleRequest) :
    (i.program svc).Uses (StoreOp.WithinRequest i) := by
  have hharmless : ∀ {α : Type} {m : ManagerProgram α}, HarmlessMethod m →
      (m.launch ()).Uses (StoreOp.WithinRequest i) :=
    fun hm => Method.Uses.launch (Method.Uses.mono (fun _ hop => hop.withinRequest i) hm) ()
  cases i with
  | ingest req options =>
    apply Method.Uses.launch
    have haccesses : IngestionJob.StepAccesses req (StoreOp.WithinRequest (.ingest req options)) := by
      constructor <;> intros <;> trivial
    apply haccesses.runBody
    · exact fun args _ href _ => ⟨req, options, rfl, href⟩
    · exact fun _ => trivial
    · exact fun _ => trivial
  | delete ctx corpusId documentId =>
    exact hharmless (DocumentManager.delete_harmless ctx corpusId documentId)
  | tightenAcl ctx corpusId documentId acl =>
    exact hharmless (DocumentManager.tightenAcl_harmless ctx corpusId documentId acl)
  | rollback doc toVersion expectedRevision =>
    exact hharmless
      (DocumentManager.rollbackActiveVersion_harmless doc toVersion expectedRevision)

/-- Without a purge no lease generation ever decreases. -/
theorem MetadataOp.WithinRequest.generation_le {β : Type} {i : LifecycleRequest}
    {op : MetadataOp β} (hop : op.WithinRequest i) {now : Timestamp} {s t : MetadataStore}
    {r : Except PyError β} (hrun : op.eval now s = (r, t)) (ref : VersionRef) :
    s.getLeaseGeneration ref ≤ t.getLeaseGeneration ref := by
  cases op with
  | acquireJobTransaction args =>
    cases r with
    | error e => rw [Routine.transaction_error hrun]
    | ok claimed =>
      obtain ⟨hnext, ⟨previous, hrow⟩, hothers⟩ := acquireJobTransaction_generation hrun
      by_cases href : ref = args.ref
      · subst href
        simp only [getLeaseGeneration] at hnext ⊢
        simp only [hrow, leaseFor]
        omega
      · simp only [getLeaseGeneration, hothers ref href, le_refl]
  | markJobTerminal jobId status parentCount childCount errorCode =>
    have ht : (MetadataStore.markJobTerminal jobId status parentCount childCount errorCode s).2 = t :=
      congrArg Prod.snd hrun
    rw [← ht, (markJobTerminal_token jobId status parentCount childCount errorCode ref).1]
  | deleteDocument doc => exact hop.elim
  | _ =>
    have hbuilds := (MetadataOp.frame hrun).builds (by simp [MetadataOp.writes])
    simp only [getLeaseGeneration, buildRow, hbuilds, le_refl]

theorem StoreOp.WithinRequest.generation_le {β : Type} {i : LifecycleRequest} {op : StoreOp β}
    (hop : op.WithinRequest i) {w w' : World} {r : Except PyError β} (hout : op.Outcome w r w')
    (ref : VersionRef) :
    w.metadata.getLeaseGeneration ref ≤ w'.metadata.getLeaseGeneration ref := by
  rcases hout.state with rfl | rfl
  · exact le_refl _
  · cases op with
    | metadata op => exact MetadataOp.WithinRequest.generation_le hop rfl ref
    | _ => exact le_refl _

end Generations

section Tokens

/-- The generation an accepted acquire returned. -/
def claimedGeneration : {β : Type} → StoreOp β → Except PyError β → Option Nat
  | _, .metadata (.acquireJobTransaction _), .ok claimed => some claimed.2
  | _, _, _ => none

/-- The fencing token of an attempt: what its last accepted acquire returned. -/
def token (past : List (Event StoreOp PyError)) : Option Nat :=
  past.foldl (fun held event => (claimedGeneration event.op event.result).or held) none

@[simp] theorem token_nil : token [] = none := rfl

@[simp] theorem token_append (past : List (Event StoreOp PyError)) {β : Type} (op : StoreOp β)
    (r : Except PyError β) :
    token (past ++ [⟨op, r⟩]) = (claimedGeneration op r).or (token past) := by
  simp [token]

/-- A token is the generation of its build when it is handed out. -/
theorem claimedGeneration_current {β : Type} {op : StoreOp β} {r : Except PyError β}
    {w w' : World} {g : Nat} (hg : claimedGeneration op r = some g) (hout : op.Outcome w r w')
    {req : IngestionRequest} {options : RunOptions}
    (hop : op.WithinRequest (.ingest req options)) :
    w'.metadata.getLeaseGeneration req.ref = g := by
  cases op with
  | metadata op =>
    cases op with
    | acquireJobTransaction args =>
      cases r with
      | error e => simp [claimedGeneration] at hg
      | ok claimed =>
        obtain ⟨req', options', hsame, href⟩ := hop
        obtain ⟨rfl, rfl⟩ := LifecycleRequest.ingest.inj hsame
        have hrun := hout.metadata.2 claimed rfl
        obtain ⟨-, ⟨previous, hrow⟩, -⟩ := acquireJobTransaction_generation hrun
        rw [← href]
        simp only [claimedGeneration, Option.some.injEq] at hg
        simp only [getLeaseGeneration, hrow, leaseFor, hg]
    | _ => simp [claimedGeneration] at hg
  | _ => simp [claimedGeneration] at hg

end Tokens

section Parked

/-- The stores as a stale attempt sees them: the generation of its build only grows,
and it may not change anything. -/
def staleRegime (ref : VersionRef) : Regime World StoreOp PyError where
  out op w r w' := (r, w') = op.eval w
  rely w w' := w.metadata.getLeaseGeneration ref ≤ w'.metadata.getLeaseGeneration ref
  guar w w' := w' = w
  rely_refl _ := le_refl _
  rely_trans := le_trans

namespace IngestionJob

variable (svc : Services) (req : IngestionRequest)

/-- A program that is about to begin the lease check, or has read the owner. -/
inductive LeaseCheck : JobProgram Unit → Prop
  | owner : LeaseCheck (assertOwnsBuild req)
  | generation (owner : Option String) : LeaseCheck (compareLease req owner)

/-- The steps that begin with a lease check, and what follows it. -/
inductive CheckedStep : Step → JobProgram Unit → Prop
  | commit : CheckedStep .commit (switchActiveVersion req)
  | publish : CheckedStep .publish (publishArtifacts svc req)

def fromCheck (options : RunOptions) (check body : JobProgram Unit) (name : Step)
    (rest : List Step) : JobProgram IngestionResult :=
  tryCatch
    ((((check >>= fun _ => body) >>= fun _ => metadata (.markStep req.jobId name "done")) >>=
      fun _ => forEach rest (runStep svc req)) >>= fun _ => finishBuild options)
    (onException svc req)

/-- An attempt with token `g` that has returned, or is suspended in the lease check
of `commit` or `publish`. -/
inductive Parked (options : RunOptions) (g : Nat) : Prog StoreOp PyError Unit → Prop
  | returned : Parked options g (.ret ())
  | check {check body : JobProgram Unit} {name : Step} (rest : List Step) {me : JobState}
      (hcheck : LeaseCheck req check) (hbody : CheckedStep svc req name body)
      (htoken : me.leaseGeneration = g) :
      Parked options g ((fromCheck svc req options check body name rest).launch me)

variable {svc req}

theorem compareLease_wp (owner : Option String) {me : JobState} {w : World}
    (hstale : me.leaseGeneration < w.metadata.getLeaseGeneration req.ref) :
    (compareLease req owner).wp (staleRegime req.ref)
      (fun r _ _ => ∃ e, r = .error e ∧ ∃ reason, e = .buildConflict reason) me w := by
  apply wp_bind
  refine wp_perform fun w₁ hw₁ r w₂ hout => ?_
  obtain ⟨rfl, rfl⟩ := Prod.mk.inj hout
  refine ⟨rfl, fun w₃ hw₃ => ?_⟩
  have hmoved : w₂.metadata.getLeaseGeneration req.ref ≠ me.leaseGeneration := by
    have hle : w.metadata.getLeaseGeneration req.ref ≤ w₂.metadata.getLeaseGeneration req.ref := hw₁
    omega
  apply wp_bind
  refine wp_self fun w₄ _ => ?_
  simp only [hmoved, ne_eq, not_false_eq_true, or_true, if_true]
  refine wp_perform fun w₅ _ r w₆ hout => ?_
  obtain ⟨rfl, rfl⟩ := Prod.mk.inj hout
  exact ⟨rfl, fun _ _ => ⟨_, rfl, _, rfl⟩⟩

theorem LeaseCheck.wp {check : JobProgram Unit} (hcheck : LeaseCheck req check) {me : JobState}
    {w : World} (hstale : me.leaseGeneration < w.metadata.getLeaseGeneration req.ref) :
    check.wp (staleRegime req.ref)
      (fun r _ _ => ∃ e, r = .error e ∧ ∃ reason, e = .buildConflict reason) me w := by
  cases hcheck with
  | generation owner => exact compareLease_wp owner hstale
  | owner =>
    apply wp_bind
    refine wp_perform fun w₁ hw₁ r w₂ hout => ?_
    obtain ⟨rfl, rfl⟩ := Prod.mk.inj hout
    exact ⟨rfl, fun w₃ hw₃ => compareLease_wp _ (lt_of_lt_of_le hstale (le_trans hw₁ hw₃))⟩

/-- Once the generation has moved on, a parked attempt changes nothing. -/
theorem Parked.wp {options : RunOptions} {g : Nat} {code : Prog StoreOp PyError Unit}
    (hparked : Parked svc req options g code) {w : World}
    (hstale : g < w.metadata.getLeaseGeneration req.ref) :
    code.wp (staleRegime req.ref) (fun _ _ => True) w := by
  cases hparked with
  | returned => exact fun _ _ => trivial
  | check rest hcheck hbody htoken =>
    apply Method.wp_launch
    apply wp_tryCatch
    have hraises := hcheck.wp (htoken ▸ hstale)
    refine wp_mono ?_ (wp_bind_raises (wp_bind_raises (wp_bind_raises (wp_bind_raises hraises))))
    rintro r me w ⟨e, rfl, reason, rfl⟩
    exact fun _ _ => trivial

/-- The next operation of a parked attempt is a read. -/
theorem Parked.reads {options : RunOptions} {g : Nat} {β : Type} {op : StoreOp β}
    {next : Except PyError β → Prog StoreOp PyError Unit}
    (hparked : Parked svc req options g (.call op next)) {w w' : World} {r : Except PyError β}
    (hout : op.Outcome w r w') : w' = w := by
  generalize hcode : Prog.call op next = code at hparked
  cases hparked with
  | returned => simp at hcode
  | check rest hcheck hbody htoken =>
    cases hcheck with
    | owner =>
      obtain ⟨rfl, hop, -⟩ := Prog.call.inj hcode
      obtain rfl := eq_of_heq hop
      exact hout.read.1
    | generation owner =>
      obtain ⟨rfl, hop, -⟩ := Prog.call.inj hcode
      obtain rfl := eq_of_heq hop
      exact hout.read.1

end IngestionJob

end Parked

section Takeover

abbrev LifecyclePool := Pool World StoreOp PyError LifecycleRequest Unit

abbrev LifecycleThread := Thread StoreOp PyError LifecycleRequest Unit

variable (svc : Services)

/-- The attempt of `req` holds the token `g`. -/
def Holds (thread : LifecycleThread) (req : IngestionRequest) (options : RunOptions) (g : Nat) :
    Prop :=
  thread.origin = .ingest req options ∧ token thread.past = some g

/-- A takeover finds the attempt it replaces parked, and the lease reads of a replaced
attempt do not fail. -/
def ParkedAtTakeover : System.StepCondition World StoreOp PyError LifecycleRequest Unit :=
  fun P label P' => ∀ thread ∈ P.threads, ∀ req options g, Holds thread req options g →
    (g = P.store.metadata.getLeaseGeneration req.ref →
      g < P'.store.metadata.getLeaseGeneration req.ref →
        IngestionJob.Parked svc req options g thread.code) ∧
    (g < P.store.metadata.getLeaseGeneration req.ref →
      ∀ event, label = .perform thread event → event.result ≠ .error .fault)

/-- A token is never ahead of its build, and an attempt whose token is behind has
nothing left to change. -/
structure StaleInvariant (store : World) (thread : LifecycleThread) : Prop where
  within : thread.code.Uses (StoreOp.WithinRequest thread.origin)
  bounded : ∀ req options g, Holds thread req options g →
    g ≤ store.metadata.getLeaseGeneration req.ref
  silent : ∀ req options g, Holds thread req options g →
    g < store.metadata.getLeaseGeneration req.ref →
      thread.code.wp (staleRegime req.ref) (fun _ _ => True) store

variable {svc}

/-- A thread that does not move keeps its invariant while generations grow; one that
becomes stale is parked. -/
theorem StaleInvariant.rest {w w' : World} {thread : LifecycleThread}
    (hthread : StaleInvariant w thread)
    (hle : ∀ ref, w.metadata.getLeaseGeneration ref ≤ w'.metadata.getLeaseGeneration ref)
    (hparked : ∀ req options g, Holds thread req options g →
      g = w.metadata.getLeaseGeneration req.ref →
        g < w'.metadata.getLeaseGeneration req.ref →
          IngestionJob.Parked svc req options g thread.code) :
    StaleInvariant w' thread := by
  refine ⟨hthread.within, ?_, ?_⟩
  · exact fun req options g hholds => (hthread.bounded req options g hholds).trans (hle req.ref)
  · intro req options g hholds hstale
    rcases (hthread.bounded req options g hholds).lt_or_eq with hbehind | hcurrent
    · exact Prog.wp_rely (hthread.silent req options g hholds hbehind) (hle req.ref)
    · exact (hparked req options g hholds hcurrent hstale).wp hstale

/-- The thread that moves: it takes a new token, stays current, or was stale and
changed nothing. -/
theorem StaleInvariant.perform {w w' : World} {i : LifecycleRequest}
    {past : List (Event StoreOp PyError)} {β : Type} {op : StoreOp β}
    {next : Except PyError β → Prog StoreOp PyError Unit} {r : Except PyError β}
    (hthread : StaleInvariant w ⟨i, past, .call op next⟩) (hout : op.Outcome w r w')
    (hparked : ∀ req options g, Holds ⟨i, past, .call op next⟩ req options g →
      (g = w.metadata.getLeaseGeneration req.ref → g < w'.metadata.getLeaseGeneration req.ref →
        IngestionJob.Parked svc req options g (.call op next)) ∧
      (g < w.metadata.getLeaseGeneration req.ref → r ≠ .error .fault)) :
    StaleInvariant w' ⟨i, past ++ [⟨op, r⟩], next r⟩ := by
  have hop := hthread.within.1
  have hle := fun ref => hop.generation_le hout ref
  -- the token is new and current, or it is the old one
  have htoken : ∀ req options g, Holds ⟨i, past ++ [⟨op, r⟩], next r⟩ req options g →
      g = w'.metadata.getLeaseGeneration req.ref ∨ Holds ⟨i, past, .call op next⟩ req options g := by
    rintro req options g ⟨horigin, htoken⟩
    simp only [token_append] at htoken
    cases hclaimed : claimedGeneration op r with
    | none => exact Or.inr ⟨horigin, by simpa [hclaimed] using htoken⟩
    | some g' =>
      simp only [hclaimed, Option.some_or, Option.some.injEq] at htoken
      subst htoken
      simp only at horigin
      subst horigin
      exact Or.inl (claimedGeneration_current hclaimed hout hop).symm
  refine ⟨hthread.within.2 r, ?_, ?_⟩
  · intro req options g hholds
    rcases htoken req options g hholds with hcurrent | hheld
    · exact hcurrent.le
    · exact (hthread.bounded req options g hheld).trans (hle req.ref)
  · intro req options g hholds hstale
    rcases htoken req options g hholds with hcurrent | hheld
    · omega
    obtain ⟨hpark, hfault⟩ := hparked req options g hheld
    rcases (hthread.bounded req options g hheld).lt_or_eq with hbehind | hcurrent
    · have heval : (r, w') = op.eval w := by
        rcases hout with heval | ⟨hfaulty, -⟩
        · exact heval
        · exact absurd hfaulty (hfault hbehind)
      exact (hthread.silent req options g hheld hbehind w (le_refl _) r w' heval).2
    · have hsame := (hpark hcurrent hstale).reads hout
      rw [hsame] at hstale
      omega

theorem staleInvariant_run {w : World} {P : LifecyclePool}
    (hrun : (lifecycleSystem svc).Reaches (ParkedAtTakeover svc) ⟨w, []⟩ P) :
    ∀ thread ∈ P.threads, StaleInvariant P.store thread := by
  refine hrun.invariant (fun P => ∀ thread ∈ P.threads, StaleInvariant P.store thread) ?_ (by simp)
  intro P label P' hinv hcond hstep
  cases hstep with
  | env h =>
    obtain ⟨clock, rfl⟩ := h
    exact fun thread hthread => (hinv thread hthread).rest (fun _ => le_refl _)
      fun req options g hholds => (hcond thread hthread req options g hholds).1
  | spawn i h =>
    intro thread hthread
    rcases List.mem_append.mp hthread with hold | hnew
    · exact hinv thread hold
    · obtain rfl := List.mem_singleton.mp hnew
      refine ⟨i.program_within svc, ?_, ?_⟩
      · exact fun req options g hholds => absurd hholds.2 (by simp)
      · exact fun req options g hholds => absurd hholds.2 (by simp)
  | @perform s s' before after i past β op next r h =>
    have hmoving := hinv ⟨i, past, .call op next⟩ (by simp)
    have hle := fun ref => hmoving.within.1.generation_le h ref
    have hrest : ∀ thread ∈ before ++ ⟨i, past, .call op next⟩ :: after,
        StaleInvariant s' thread :=
      fun thread hthread => (hinv thread hthread).rest hle
        fun req options g hholds => (hcond thread hthread req options g hholds).1
    intro thread hthread
    rcases List.mem_append.mp hthread with hold | hthread
    · exact hrest thread (by simp [hold])
    · rcases List.mem_cons.mp hthread with rfl | hold
      · apply hmoving.perform h
        intro req options g hholds
        obtain ⟨hpark, hfault⟩ := hcond ⟨i, past, .call op next⟩ (by simp) req options g hholds
        exact ⟨hpark, fun hbehind => hfault hbehind ⟨op, r⟩ rfl⟩
      · exact hrest thread (by simp [hold])
  | finish =>
    intro thread hthread
    apply hinv thread
    rcases List.mem_append.mp hthread with h | h <;> simp [h]
  | crash =>
    intro thread hthread
    apply hinv thread
    rcases List.mem_append.mp hthread with h | h <;> simp [h]

/-- In a run whose takeovers all find the replaced attempt parked, an attempt whose token is behind the
generation of its build changes nothing in any store. Parked is an attempt that has returned or is
suspended in the lease check of `commit` or `publish`; the lease reads of a replaced attempt do not fail. -/
theorem stale_attempt_changes_nothing (svc : Services) (w : World) {P P' : LifecyclePool}
    (hrun : (lifecycleSystem svc).Reaches (ParkedAtTakeover svc) ⟨w, []⟩ P)
    {thread : LifecycleThread} {event : Event StoreOp PyError}
    (hstep : (lifecycleSystem svc).Step P (.perform thread event) P')
    (hcond : ParkedAtTakeover svc P (.perform thread event) P')
    {req : IngestionRequest} {options : RunOptions} {g : Nat}
    (hholds : Holds thread req options g)
    (hstale : g < P.store.metadata.getLeaseGeneration req.ref) : P'.store = P.store := by
  cases hstep with
  | @perform s s' before after i past β op next r h =>
    have hmem : (⟨i, past, .call op next⟩ : LifecycleThread) ∈
        before ++ ⟨i, past, .call op next⟩ :: after := by simp
    have hsilent := (staleInvariant_run hrun _ hmem).silent req options g hholds hstale
    have hfault := (hcond _ hmem req options g hholds).2 hstale ⟨op, r⟩ rfl
    have heval : (r, s') = op.eval s := by
      rcases h with heval | ⟨hfaulty, -⟩
      · exact heval
      · exact absurd hfaulty hfault
    exact (hsilent s (le_refl _) r s' heval).1

/-- A test for steps that hand out no token while one is held, and do not fail. -/
def uneventful (P : LifecyclePool) (label : Label StoreOp PyError LifecycleRequest Unit)
    (P' : LifecyclePool) : Bool :=
  (decide (P'.store.metadata.builds = P.store.metadata.builds) ||
      P.threads.all fun thread => (token thread.past).isNone) &&
    match label with
    | .perform _ event =>
      match event.result with
      | .error .fault => false
      | _ => true
    | _ => true

theorem uneventful_parked {P P' : LifecyclePool}
    {label : Label StoreOp PyError LifecycleRequest Unit} (h : uneventful P label P' = true) :
    ParkedAtTakeover svc P label P' := by
  simp only [uneventful, Bool.and_eq_true, Bool.or_eq_true, decide_eq_true_eq] at h
  obtain ⟨hbuilds, hresult⟩ := h
  intro thread hthread req options g hholds
  constructor
  · intro hcurrent hadvanced
    rcases hbuilds with hbuilds | hnone
    · simp only [hcurrent, getLeaseGeneration, buildRow, hbuilds, lt_irrefl] at hadvanced
    · have htoken := List.all_eq_true.mp hnone thread hthread
      simp [hholds.2] at htoken
  · rintro _ event rfl hfault
    simp [hfault] at hresult

/-- The build of `v1` by `job-1`. -/
private def firstBuild : IngestionRequest := Sample.request "job-1" "v1" "text"

/-- The first attempt is suspended after `n` operations; the recovery is about to
acquire the lease. -/
private def suspendedAfter (n : Nat) : List (System.Move Choice LifecycleRequest) :=
  .spawn (.ingest firstBuild (Sample.attempt "a")) :: advance 0 n ++
    .spawn (.ingest firstBuild (Sample.recovery "b")) :: advance 1 3

private def beforeTakeover (n : Nat) : LifecyclePool :=
  (lifecycleMachine Sample.services).play ⟨Sample.world, []⟩ (suspendedAfter n)

private def afterTakeover (n : Nat) : LifecyclePool :=
  (lifecycleMachine Sample.services).play (beforeTakeover n) (advance 1 1)

private def staleStep (n : Nat) : LifecyclePool :=
  (lifecycleMachine Sample.services).play (afterTakeover n) (advance 0 1)

/-- The attributes of the first attempt when it reaches `commit`. -/
private def chunkedState : JobState where
  parentsList := [⟨"text", []⟩].map (Sample.services.parentOf firstBuild.ref)
  childrenList := [⟨"text", []⟩].flatMap (Sample.services.childrenOf firstBuild.ref)
  parsedHash := Sample.services.sha256 "text"
  leaseGeneration := 1
  commitPerformed := false

/-- After 24 operations the first attempt is about to read the lease owner. -/
private theorem beforeTakeover_parked :
    ∃ past past' code, (beforeTakeover 24).threads =
        [⟨.ingest firstBuild (Sample.attempt "a"), past,
            (IngestionJob.fromCheck Sample.services firstBuild (Sample.attempt "a")
              (IngestionJob.assertOwnsBuild firstBuild)
              (IngestionJob.switchActiveVersion firstBuild) .commit [.publish, .finalize]).launch
              chunkedState⟩,
          ⟨.ingest firstBuild (Sample.recovery "b"), past', code⟩] ∧
      token past = some 1 ∧ token past' = none :=
  ⟨_, _, _, rfl, rfl, rfl⟩

private theorem takeover_parked (label : Label StoreOp PyError LifecycleRequest Unit) :
    ParkedAtTakeover Sample.services (beforeTakeover 24) label (afterTakeover 24) := by
  obtain ⟨past, past', code, hthreads, htoken, htoken'⟩ := beforeTakeover_parked
  have hgeneration :
      (beforeTakeover 24).store.metadata.getLeaseGeneration firstBuild.ref = 1 := by
    decide +kernel
  intro thread hthread req options g hholds
  obtain ⟨horigin, hheld⟩ := hholds
  rw [hthreads] at hthread
  rcases List.mem_cons.mp hthread with rfl | hthread
  · obtain ⟨rfl, rfl⟩ := LifecycleRequest.ingest.inj horigin
    obtain rfl := Option.some.inj (htoken.symm.trans hheld)
    refine ⟨fun _ _ => .check [.publish, .finalize] .owner .commit rfl, fun hbehind => ?_⟩
    omega
  · obtain rfl := List.mem_singleton.mp hthread
    simp [htoken'] at hheld

/-- An attempt suspended before `commit` reads the lease owner stays silent. -/
theorem stale_attempt_changes_nothing_parked :
    (afterTakeover 24).store.metadata.getLeaseGeneration firstBuild.ref = 2 ∧
      (staleStep 24).store = (afterTakeover 24).store := by
  have hbefore : (lifecycleSystem Sample.services).Reaches (ParkedAtTakeover Sample.services)
      ⟨Sample.world, []⟩ (beforeTakeover 24) :=
    (lifecycleMachine Sample.services).passes_reaches (fun _ _ _ => uneventful_parked) _ _
      (by decide +kernel)
  have htaken : (lifecycleSystem Sample.services).Reaches (ParkedAtTakeover Sample.services)
      (beforeTakeover 24) (afterTakeover 24) := by
    obtain ⟨label, hmove⟩ : ∃ label, (lifecycleMachine Sample.services).move (beforeTakeover 24)
        (.step 1 .normal) = some (label, afterTakeover 24) := ⟨_, rfl⟩
    exact Relation.ReflTransGen.single
      ⟨label, (lifecycleMachine Sample.services).move_step hmove, takeover_parked label⟩
  obtain ⟨thread, event, hmove, hholds, hresult⟩ : ∃ thread event,
      (lifecycleMachine Sample.services).move (afterTakeover 24) (.step 0 .normal) =
          some (.perform thread event, staleStep 24) ∧
        Holds thread firstBuild (Sample.attempt "a") 1 ∧
        uneventful (afterTakeover 24) (.perform thread event) (staleStep 24) = true :=
    ⟨_, _, rfl, ⟨rfl, rfl⟩, by decide +kernel⟩
  have hgeneration :
      (afterTakeover 24).store.metadata.getLeaseGeneration firstBuild.ref = 2 := by
    decide +kernel
  refine ⟨hgeneration, ?_⟩
  exact stale_attempt_changes_nothing Sample.services Sample.world (hbefore.trans htaken)
    ((lifecycleMachine Sample.services).move_step hmove) (uneventful_parked hresult) hholds
    (by rw [hgeneration]; decide)

/-- The points, parents, chunk rows, step markers, job statuses and version statuses
are the same. -/
def SameArtifacts (w w' : World) : Prop :=
  w'.vectors = w.vectors ∧ w'.parents = w.parents ∧ w'.metadata.chunks = w.metadata.chunks ∧
    w'.metadata.steps = w.metadata.steps ∧
    w'.metadata.jobs.map (fun job => (job.jobId, job.status)) =
      w.metadata.jobs.map (fun job => (job.jobId, job.status)) ∧
    w'.metadata.documents.map (fun row => (row.ref, row.status)) =
      w.metadata.documents.map (fun row => (row.ref, row.status))

/-- Suspended before its first write to the Parent Store, the first attempt still
writes there after the recovery has taken the lease over. -/
theorem stale_attempt_counterexample :
    ¬∀ (svc : Services) (w : World) (P P' : LifecyclePool) (thread : LifecycleThread)
      (event : Event StoreOp PyError) (req : IngestionRequest) (options : RunOptions) (g : Nat),
      (lifecycleSystem svc).Reaches (fun _ _ _ => True) ⟨w, []⟩ P →
      (lifecycleSystem svc).Step P (.perform thread event) P' →
      Holds thread req options g → g < P.store.metadata.getLeaseGeneration req.ref →
        SameArtifacts P.store P'.store := by
  intro hclaim
  obtain ⟨thread, event, hmove, hholds⟩ : ∃ thread event,
      (lifecycleMachine Sample.services).move (afterTakeover 10) (.step 0 .normal) =
          some (.perform thread event, staleStep 10) ∧
        Holds thread firstBuild (Sample.attempt "a") 1 :=
    ⟨_, _, rfl, rfl, rfl⟩
  have hreached : (lifecycleSystem Sample.services).Reaches (fun _ _ _ => True)
      ⟨Sample.world, []⟩ (afterTakeover 10) :=
    ((lifecycleMachine Sample.services).play_reaches _ _).trans
      ((lifecycleMachine Sample.services).play_reaches _ _)
  have hsame := hclaim Sample.services Sample.world _ _ thread event firstBuild _ 1 hreached
    ((lifecycleMachine Sample.services).move_step hmove) hholds (by decide +kernel)
  have hparents : (staleStep 10).store.parents ≠ (afterTakeover 10).store.parents := by
    decide +kernel
  exact hparents hsame.2.1

end Takeover

end AgenticRag
