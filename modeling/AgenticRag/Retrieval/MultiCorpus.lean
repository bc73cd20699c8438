import AgenticRag.Answer.Builder
import AgenticRag.Foundations.Table
import AgenticRag.Retrieval.SecureRetriever

/-!
# Retrieval across corpora

`retrieval/multi_corpus.py` and `retrieval/backend_fault.py`. What `retrieve_evidence` does
for a corpus is given for every call; the calls made are recorded with the result.
-/

namespace AgenticRag

/-- Errors that are raised again whatever the other corpora do. -/
def ChatError.Propagates : ChatError → Prop
  | .corpusNotDiscoverable _ | .parentAuthorization _ | .emptyAuthorizationScope _ | .tenantBinding _ => True
  | _ => False

instance : DecidablePred ChatError.Propagates := fun e => by
  cases e <;> unfold ChatError.Propagates <;> infer_instance

def wrapBackendFault {α : Type} : Except ChatError α → Except ChatError α
  | .error (.transport type text) =>
    .error (.retrievalBackend type ("retrieval backend failure: " ++ type ++ ": " ++ text))
  | r => r

structure CorpusRetrievalFault where
  corpusId : String
  reason : String
  errorType : String
  deriving DecidableEq, Repr

structure MultiCorpusResult where
  evidence : List Evidence
  corporaUsed : List String
  routed : List String
  faults : List CorpusRetrievalFault
  insufficientCorpora : List String
  retrievalCalls : Int
  deriving DecidableEq, Repr

/-- `sorted`. -/
def sortedStrings (xs : List String) : List String := xs.insertionSort (· ≤ ·)

section Merge

/-- `(text_hash, document_id, document_version)`. -/
def Evidence.textKey (ev : Evidence) : String × String × String :=
  (ev.textHash, ev.documentId, ev.documentVersion)

/-- `_MergeState`; the two dictionaries give positions among the survivors. -/
structure MergeState where
  survivors : List Evidence
  idKeys : List (String × Nat)
  textKeys : List ((String × String × String) × Nat)
  contributed : List String
  deriving DecidableEq, Repr

def MergeState.start : MergeState := ⟨[], [], [], []⟩

/-- One evidence of `merge_evidence`. -/
def MergeState.add (s : MergeState) (ev : Evidence) : MergeState :=
  if (s.idKeys.lookup ev.evidenceId).isSome then s
  else
    match s.textKeys.lookup ev.textKey with
    | none =>
      { survivors := s.survivors ++ [ev]
        idKeys := s.idKeys ++ [(ev.evidenceId, s.survivors.length)]
        textKeys := s.textKeys ++ [(ev.textKey, s.survivors.length)]
        contributed := s.contributed ++ [ev.corpusId] }
    | some position =>
      { survivors :=
          if ∃ kept ∈ s.survivors[position]?, kept.authorityLevel < ev.authorityLevel then
            s.survivors.set position ev
          else s.survivors
        idKeys := s.idKeys ++ [(ev.evidenceId, position)]
        textKeys := s.textKeys
        contributed := s.contributed ++ [ev.corpusId] }

/-- A dictionary from corpora to their evidence. -/
abbrev PerCorpus := List (String × List Evidence)

/-- The order in which `merge_evidence` looks at the evidence. -/
def mergeOrder (perCorpus : PerCorpus) : List Evidence :=
  (sortedStrings (perCorpus.map Prod.fst)).flatMap fun corpusId => (perCorpus.lookup corpusId).getD []

def mergeState (perCorpus : PerCorpus) : MergeState :=
  (mergeOrder perCorpus).foldl MergeState.add .start

structure MergeResult where
  evidence : List Evidence
  contributingCorpora : List String
  deriving DecidableEq, Repr

def mergeEvidence (perCorpus : PerCorpus) : MergeResult where
  evidence := (mergeState perCorpus).survivors
  contributingCorpora := sortedStrings (mergeState perCorpus).contributed.eraseDups

end Merge

namespace MultiCorpusRetrieval

/-- What `retrieve_evidence` does in the call with a number. -/
abbrev Retriever := Nat → CorpusConfig → Except ChatError (List Evidence)

def assertEvidenceBinding (ctx : SecurityContext) (corpus : CorpusConfig) :
    List Evidence → Except ChatError Unit
  | [] => .ok ()
  | ev :: rest =>
    if ev.tenantId ≠ ctx.tenantId then
      .error (.tenantBinding ("Evidence " ++ quoted ev.evidenceId ++ " from corpus " ++
        quoted corpus.corpusId ++ " belongs to tenant " ++ quoted ev.tenantId ++ ", not " ++
        quoted ctx.tenantId))
    else if ev.corpusId ≠ corpus.corpusId then
      .error (.tenantBinding ("Evidence " ++ quoted ev.evidenceId ++ " claims corpus " ++
        quoted ev.corpusId ++ ", but was retrieved from corpus " ++ quoted corpus.corpusId))
    else assertEvidenceBinding ctx corpus rest

/-- What the loop has gathered so far. -/
structure Gathered where
  perCorpus : PerCorpus
  faults : List CorpusRetrievalFault
  insufficient : List String
  lastExc : Option ChatError
  calls : Nat
  deriving DecidableEq, Repr

def Gathered.start : Gathered := ⟨[], [], [], none, 0⟩

/-- One corpus of the loop, whose call has been made. -/
def gather (ctx : SecurityContext) (corpus : CorpusConfig) (outcome : Except ChatError (List Evidence))
    (s : Gathered) : Except ChatError Gathered :=
  match wrapBackendFault outcome with
  | .error (.retrievalBackend cause text) => .ok
      { s with
        faults := s.faults ++
          [⟨corpus.corpusId, "retrieval failed for corpus " ++ quoted corpus.corpusId, cause⟩]
        lastExc := some (.retrievalBackend cause text)
        calls := s.calls + 1 }
  | .error e => .error e
  | .ok evs => do
    assertEvidenceBinding ctx corpus evs
    if evs = [] then
      pure { s with insufficient := s.insufficient ++ [corpus.corpusId], calls := s.calls + 1 }
    else
      pure { s with
        perCorpus := Table.upsert Prod.fst s.perCorpus (corpus.corpusId, evs)
        calls := s.calls + 1 }

/-- The loop over the corpora, with the calls it makes. The calls before it count as well. -/
def gatherAll (retriever : Retriever) (ctx : SecurityContext) :
    List CorpusConfig → Nat → Gathered → Except ChatError Gathered × List CorpusConfig
  | [], _, s => (.ok s, [])
  | corpus :: rest, before, s =>
    match gather ctx corpus (retriever before corpus) s with
    | .error e => (.error e, [corpus])
    | .ok s => ((gatherAll retriever ctx rest (before + 1) s).1,
        corpus :: (gatherAll retriever ctx rest (before + 1) s).2)

/-- The end of `retrieve`. -/
def conclude (corpora : List CorpusConfig) (s : Gathered) : Except ChatError MultiCorpusResult :=
  if s.faults ≠ [] ∧ s.faults.length = corpora.length then
    .error (s.lastExc.getD (.assertion "last_exc is not None"))
  else
    .ok
      { evidence := (mergeEvidence s.perCorpus).evidence
        corporaUsed := (mergeEvidence s.perCorpus).contributingCorpora
        routed := corpora.map (·.corpusId)
        faults := s.faults
        insufficientCorpora := sortedStrings s.insufficient
        retrievalCalls := s.calls }

/-- `retrieve`, with the corpora it queries. -/
def retrieve (retriever : Retriever) (ctx : SecurityContext) (corpora : List CorpusConfig) (before : Nat) :
    Except ChatError MultiCorpusResult × List CorpusConfig :=
  ((gatherAll retriever ctx corpora before .start).1 >>= conclude corpora,
    (gatherAll retriever ctx corpora before .start).2)

section Outcomes

def Faulty (outcome : Except ChatError (List Evidence)) : Prop :=
  ∃ cause text, wrapBackendFault outcome = .error (.retrievalBackend cause text)

/-- A call returns evidence that belongs to the tenant and the corpus asked. -/
def Bound (ctx : SecurityContext) (corpus : CorpusConfig) (outcome : Except ChatError (List Evidence)) :
    Prop :=
  ∃ evs, outcome = .ok evs ∧ assertEvidenceBinding ctx corpus evs = .ok ()

/-- A call raises an error, or returns evidence whose binding check does. -/
def Raises (ctx : SecurityContext) (corpus : CorpusConfig) (outcome : Except ChatError (List Evidence))
    (e : ChatError) : Prop :=
  outcome = .error e ∨ ∃ evs, outcome = .ok evs ∧ assertEvidenceBinding ctx corpus evs = .error e

/-- The dictionary after a call. -/
def found (corpus : CorpusConfig) (outcome : Except ChatError (List Evidence)) (perCorpus : PerCorpus) :
    PerCorpus :=
  match outcome with
  | .ok (ev :: evs) => Table.upsert Prod.fst perCorpus (corpus.corpusId, ev :: evs)
  | _ => perCorpus

/-- The dictionary after the calls for corpora. -/
def foundAll (retriever : Retriever) : List CorpusConfig → Nat → PerCorpus → PerCorpus
  | [], _, perCorpus => perCorpus
  | corpus :: rest, before, perCorpus =>
    foundAll retriever rest (before + 1) (found corpus (retriever before corpus) perCorpus)

variable {ctx : SecurityContext} {corpus : CorpusConfig} {outcome : Except ChatError (List Evidence)}
  {e : ChatError} {s s' : Gathered}

theorem wrapBackendFault_eq_ok {evs : List Evidence} : wrapBackendFault outcome = .ok evs ↔ outcome = .ok evs := by
  constructor
  · intro h
    unfold wrapBackendFault at h
    split at h
    · cases h
    · exact h
  · rintro rfl
    rfl

theorem gather_faulty (ctx : SecurityContext) (corpus : CorpusConfig) (h : Faulty outcome) : ∃ fault lastExc,
    gather ctx corpus outcome s =
      .ok { s with faults := s.faults ++ [fault], lastExc := some lastExc, calls := s.calls + 1 } := by
  obtain ⟨cause, text, hwrapped⟩ := h
  refine ⟨⟨corpus.corpusId, "retrieval failed for corpus " ++ quoted corpus.corpusId, cause⟩,
    .retrievalBackend cause text, ?_⟩
  simp only [gather, hwrapped]

theorem gather_bound (h : Bound ctx corpus outcome) : ∃ insufficient,
    gather ctx corpus outcome s =
      .ok { s with
        perCorpus := found corpus outcome s.perCorpus
        insufficient := insufficient
        calls := s.calls + 1 } := by
  obtain ⟨evs, houtcome, hbound⟩ := h
  subst houtcome
  cases evs with
  | nil => exact ⟨_, rfl⟩
  | cons ev evs =>
    refine ⟨s.insufficient, ?_⟩
    simp only [gather, wrapBackendFault, hbound]
    rfl

/-- An error that is raised again ends the loop as it is. -/
theorem gather_raises (h : Raises ctx corpus outcome e) (he : e.Propagates) :
    gather ctx corpus outcome s = .error e := by
  rcases h with houtcome | ⟨evs, houtcome, hbinding⟩
  · subst houtcome
    cases e <;> first | rfl | exact he.elim
  · subst houtcome
    simp only [gather, wrapBackendFault, hbinding]
    rfl

/-- The loop goes on only after a fault or with bound evidence. -/
theorem gather_ok (h : gather ctx corpus outcome s = .ok s') : Faulty outcome ∨ Bound ctx corpus outcome := by
  cases hwrapped : wrapBackendFault outcome with
  | ok evs =>
    have houtcome := wrapBackendFault_eq_ok.mp hwrapped
    right
    cases hbinding : assertEvidenceBinding ctx corpus evs with
    | ok bound => exact ⟨evs, houtcome, hbinding⟩
    | error e =>
      simp only [gather, hwrapped, hbinding] at h
      cases h
  | error e =>
    left
    cases e with
    | retrievalBackend cause text => exact ⟨cause, text, hwrapped⟩
    | _ =>
      simp only [gather, hwrapped] at h
      cases h

theorem Faulty.found_eq (h : Faulty outcome) (perCorpus : PerCorpus) :
    found corpus outcome perCorpus = perCorpus := by
  obtain ⟨cause, text, hwrapped⟩ := h
  unfold found
  split
  · cases hwrapped
  · rfl

theorem Faulty.not_bound (h : Faulty outcome) : ¬Bound ctx corpus outcome := by
  rintro ⟨evs, rfl, hbound⟩
  obtain ⟨cause, text, hwrapped⟩ := h
  cases hwrapped

end Outcomes

section Calls

variable (retriever : Retriever)

/-- Every call for these corpora is answered by a fault or with bound evidence. -/
def Answered (ctx : SecurityContext) (corpora : List CorpusConfig) (before : Nat) : Prop :=
  ∀ i corpus, corpora[i]? = some corpus →
    Faulty (retriever (before + i) corpus) ∨ Bound ctx corpus (retriever (before + i) corpus)

/-- Some call for these corpora meets a fault. -/
def SomeFaulty (corpora : List CorpusConfig) (before : Nat) : Prop :=
  ∃ i corpus, corpora[i]? = some corpus ∧ Faulty (retriever (before + i) corpus)

/-- There are corpora, and all their calls meet a fault. -/
def Outage (corpora : List CorpusConfig) (before : Nat) : Prop :=
  corpora ≠ [] ∧ ∀ i corpus, corpora[i]? = some corpus → Faulty (retriever (before + i) corpus)

/-- What the calls for these corpora bring together. -/
def merged (corpora : List CorpusConfig) (before : Nat) : List Evidence :=
  (mergeEvidence (foundAll retriever corpora before [])).evidence

variable {retriever} {ctx : SecurityContext} {corpus : CorpusConfig} {corpora rest : List CorpusConfig}
  {before : Nat} {s s' : Gathered}

theorem answered_cons : Answered retriever ctx (corpus :: rest) before ↔
    (Faulty (retriever before corpus) ∨ Bound ctx corpus (retriever before corpus)) ∧
      Answered retriever ctx rest (before + 1) := by
  constructor
  · intro h
    refine ⟨h 0 corpus rfl, fun i c hi => ?_⟩
    have hnext := h (i + 1) c hi
    rwa [show before + (i + 1) = before + 1 + i by omega] at hnext
  · rintro ⟨hfirst, hrest⟩ i c hi
    cases i with
    | zero => cases hi; exact hfirst
    | succ i =>
      rw [show before + (i + 1) = before + 1 + i by omega]
      exact hrest i c hi

theorem someFaulty_cons : SomeFaulty retriever (corpus :: rest) before ↔
    Faulty (retriever before corpus) ∨ SomeFaulty retriever rest (before + 1) := by
  constructor
  · rintro ⟨i, c, hi, hfaulty⟩
    cases i with
    | zero => cases hi; exact .inl hfaulty
    | succ i =>
      rw [show before + (i + 1) = before + 1 + i by omega] at hfaulty
      exact .inr ⟨i, c, hi, hfaulty⟩
  · rintro (hfaulty | ⟨i, c, hi, hfaulty⟩)
    · exact ⟨0, corpus, rfl, hfaulty⟩
    · rw [show before + 1 + i = before + (i + 1) by omega] at hfaulty
      exact ⟨i + 1, c, hi, hfaulty⟩

/-- What the loop over corpora gathers: the evidence, a fault for every call that meets one,
and no more faults than calls. -/
structure Gathers (retriever : Retriever) (corpora : List CorpusConfig) (before : Nat) (s s' : Gathered) :
    Prop where
  perCorpus : s'.perCorpus = foundAll retriever corpora before s.perCorpus
  faults : s'.faults ≠ [] ↔ s.faults ≠ [] ∨ SomeFaulty retriever corpora before
  bounded : s'.faults.length ≤ s.faults.length + corpora.length
  full : s'.faults.length = s.faults.length + corpora.length ↔
    ∀ i corpus, corpora[i]? = some corpus → Faulty (retriever (before + i) corpus)

/-- The loop runs to its end over answered calls. -/
theorem gatherAll_answered (h : Answered retriever ctx corpora before) :
    ∃ s', gatherAll retriever ctx corpora before s = (.ok s', corpora) ∧
      Gathers retriever corpora before s s' := by
  induction corpora generalizing before s with
  | nil =>
    refine ⟨s, rfl, rfl, ?_, by simp, by simp⟩
    simp [SomeFaulty]
  | cons corpus rest ih =>
    obtain ⟨hfirst, hrest⟩ := answered_cons.mp h
    have hforall : (∀ i c, (corpus :: rest)[i]? = some c → Faulty (retriever (before + i) c)) ↔
        Faulty (retriever before corpus) ∧
          ∀ i c, rest[i]? = some c → Faulty (retriever (before + 1 + i) c) := by
      constructor
      · intro hall
        refine ⟨hall 0 corpus rfl, fun i c hi => ?_⟩
        rw [show before + 1 + i = before + (i + 1) by omega]
        exact hall (i + 1) c hi
      · rintro ⟨hhead, htail⟩ i c hi
        cases i with
        | zero => cases hi; exact hhead
        | succ i =>
          rw [show before + (i + 1) = before + 1 + i by omega]
          exact htail i c hi
    rcases hfirst with hfaulty | hbound
    · obtain ⟨fault, lastExc, hgather⟩ := gather_faulty (s := s) ctx corpus hfaulty
      obtain ⟨s', hrun, hgathers⟩ := ih (s := { s with
        faults := s.faults ++ [fault], lastExc := some lastExc, calls := s.calls + 1 }) hrest
      refine ⟨s', by simp only [gatherAll, hgather, hrun], ?_, ?_, ?_, ?_⟩
      · rw [foundAll, hfaulty.found_eq]
        exact hgathers.perCorpus
      · rw [hgathers.faults, someFaulty_cons]
        simp [hfaulty]
      · have hbounded := hgathers.bounded
        simp only [List.length_append, List.length_cons, List.length_nil] at hbounded ⊢
        omega
      · rw [hforall, ← hgathers.full]
        simp only [hfaulty, true_and, List.length_append, List.length_cons, List.length_nil]
        omega
    · obtain ⟨insufficient, hgather⟩ := gather_bound (s := s) hbound
      obtain ⟨s', hrun, hgathers⟩ := ih (s := { s with
        perCorpus := found corpus (retriever before corpus) s.perCorpus
        insufficient := insufficient
        calls := s.calls + 1 }) hrest
      have hsound : ¬Faulty (retriever before corpus) := fun hfaulty => hfaulty.not_bound hbound
      refine ⟨s', by simp only [gatherAll, hgather, hrun], hgathers.perCorpus, ?_, ?_, ?_⟩
      · rw [hgathers.faults, someFaulty_cons]
        simp [hsound]
      · have hbounded := hgathers.bounded
        simp only [List.length_cons] at hbounded ⊢
        omega
      · rw [hforall]
        have hbounded := hgathers.bounded
        simp only [hsound, false_and, iff_false, List.length_cons] at hbounded ⊢
        omega

theorem gatherAll_ok (h : (gatherAll retriever ctx corpora before s).1 = .ok s') :
    Answered retriever ctx corpora before := by
  induction corpora generalizing before s with
  | nil => exact fun i corpus hi => by simp at hi
  | cons corpus rest ih =>
    simp only [gatherAll] at h
    cases hgather : gather ctx corpus (retriever before corpus) s with
    | error e => simp [hgather] at h
    | ok next =>
      simp only [hgather] at h
      exact answered_cons.mpr ⟨gather_ok hgather, ih h⟩

/-- A queried corpus whose call raises a security error ends the loop with it. -/
theorem gatherAll_raises {i : Nat} {e : ChatError}
    (hi : (gatherAll retriever ctx corpora before s).2[i]? = some corpus)
    (hraises : Raises ctx corpus (retriever (before + i) corpus) e) (he : e.Propagates) :
    (gatherAll retriever ctx corpora before s).1 = .error e := by
  induction corpora generalizing before s i with
  | nil => simp [gatherAll] at hi
  | cons first rest ih =>
    cases hgather : gather ctx first (retriever before first) s with
    | error e' =>
      simp only [gatherAll, hgather] at hi ⊢
      cases i with
      | zero =>
        cases hi
        rw [← hgather]
        exact gather_raises hraises he
      | succ i => simp at hi
    | ok next =>
      simp only [gatherAll, hgather] at hi ⊢
      cases i with
      | zero =>
        cases hi
        have hends := gather_raises (s := s) hraises he
        rw [Nat.add_zero, hgather] at hends
        cases hends
      | succ i =>
        rw [show before + (i + 1) = before + 1 + i by omega] at hraises
        exact ih hi hraises

end Calls

section Retrieve

variable {retriever : Retriever} {ctx : SecurityContext} {corpora : List CorpusConfig} {before : Nat}

/-- A result brings together what the calls return, and tells of their faults. -/
structure Retrieved (retriever : Retriever) (corpora : List CorpusConfig) (before : Nat)
    (result : MultiCorpusResult) : Prop where
  evidence : result.evidence = merged retriever corpora before
  routed : result.routed = corpora.map (·.corpusId)
  faults : result.faults ≠ [] ↔ SomeFaulty retriever corpora before

/-- A retrieval with answered calls is an outage or returns a result. -/
theorem retrieve_answered (h : Answered retriever ctx corpora before) :
    (Outage retriever corpora before ∧ ∃ e, retrieve retriever ctx corpora before = (.error e, corpora)) ∨
      ¬Outage retriever corpora before ∧ ∃ result, retrieve retriever ctx corpora before = (.ok result, corpora) ∧
        Retrieved retriever corpora before result := by
  obtain ⟨s, hrun, hgathers⟩ := gatherAll_answered (s := .start) h
  have hfaults : s.faults ≠ [] ↔ SomeFaulty retriever corpora before := by
    simpa [Gathered.start] using hgathers.faults
  have hfull := hgathers.full
  simp only [Gathered.start, List.length_nil, Nat.zero_add] at hfull
  have houtage : (s.faults ≠ [] ∧ s.faults.length = corpora.length) ↔ Outage retriever corpora before := by
    rw [hfull]
    constructor
    · rintro ⟨hsome, hall⟩
      obtain ⟨i, corpus, hi, hfaulty⟩ := hfaults.mp hsome
      exact ⟨fun hnil => by simp [hnil] at hi, hall⟩
    · rintro ⟨hne, hall⟩
      obtain ⟨corpus, rest, rfl⟩ := List.exists_cons_of_ne_nil hne
      exact ⟨hfaults.mpr ⟨0, corpus, rfl, hall 0 corpus rfl⟩, hall⟩
  by_cases hout : Outage retriever corpora before
  · refine .inl ⟨hout, s.lastExc.getD (.assertion "last_exc is not None"), ?_⟩
    simp only [retrieve, hrun]
    simp only [bind, Except.bind, conclude, houtage.mpr hout, ne_eq, not_false_eq_true, and_self, if_true]
  · have hresult : ∃ result, conclude corpora s = .ok result ∧ Retrieved retriever corpora before result := by
      simp only [conclude, mt houtage.mp hout, if_false]
      exact ⟨_, rfl, by rw [hgathers.perCorpus]; rfl, rfl, hfaults⟩
    obtain ⟨result, hconclude, hretrieved⟩ := hresult
    refine .inr ⟨hout, result, ?_, hretrieved⟩
    simp only [retrieve, hrun]
    simp only [bind, Except.bind, hconclude]

theorem retrieve_ok {result : MultiCorpusResult} (h : (retrieve retriever ctx corpora before).1 = .ok result) :
    Answered retriever ctx corpora before := by
  simp only [retrieve] at h
  cases hrun : (gatherAll retriever ctx corpora before .start).1 with
  | error e => simp [hrun, bind, Except.bind] at h
  | ok s => exact gatherAll_ok hrun

theorem retrieve_raises {i : Nat} {corpus : CorpusConfig} {e : ChatError}
    (hi : (retrieve retriever ctx corpora before).2[i]? = some corpus)
    (hraises : Raises ctx corpus (retriever (before + i) corpus) e) (he : e.Propagates) :
    (retrieve retriever ctx corpora before).1 = .error e := by
  simp only [retrieve, gatherAll_raises hi hraises he]
  rfl

end Retrieve

end MultiCorpusRetrieval

end AgenticRag
