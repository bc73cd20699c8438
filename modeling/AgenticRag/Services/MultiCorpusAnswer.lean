import AgenticRag.Retrieval.MultiCorpus
import AgenticRag.Services.ChatService

/-!
# Answers over several corpora

`answer_multi_corpus`: selection of the corpora, retrieval with the fallback expansion, and
a single synthesis. A fault of a backend is lost where the conflict stage drops whatever the
other corpora return: the service then refuses as if there were no evidence.
-/

namespace AgenticRag

/-- `CorpusRoute`, as far as the service reads it. -/
structure CorpusRoute where
  candidates : List String
  isHigh : Bool
  fallbackCandidates : List String
  deriving DecidableEq, Repr

/-- What the service is wired to, and how it behaves during one request: the corpora that
`registry.get` finds for the caller, the route of the query, every retrieval, the clock and
the model. -/
structure MultiCorpusSetting where
  texts : ChatTexts
  registered : Bool
  registryGet : String → Except ChatError CorpusConfig
  route : Except ChatError CorpusRoute
  retriever : MultiCorpusRetrieval.Retriever
  now : Datetime
  invokeModel : List Message → Except ChatError ClaimExtraction

/-- `answer_multi_corpus` is called with pinned corpora, or with an optional limit for the
router. -/
inductive CorpusSelection where
  | pinned (corpusIds : List String)
  | routed (routerLimit : Option Int)
  deriving DecidableEq, Repr

/-- The corpora to query, those for an expansion, and whether an expansion is allowed. -/
structure Selected where
  selected : List CorpusConfig
  fallback : List CorpusConfig
  allowFallback : Bool
  deriving DecidableEq, Repr

namespace MultiCorpusSetting

open MultiCorpusRetrieval

variable (setting : MultiCorpusSetting) (ctx : SecurityContext) (query : String)

def select : CorpusSelection → Except ChatError Selected
  | .pinned corpusIds => do
    let selected ← corpusIds.mapM setting.registryGet
    pure ⟨selected, [], false⟩
  | .routed routerLimit => do
    let route ← setting.route
    let selected ← route.candidates.mapM setting.registryGet
    if routerLimit = none ∧ route.isHigh = true then
      let fallback ← route.fallbackCandidates.mapM setting.registryGet
      pure ⟨selected, fallback, true⟩
    else pure ⟨selected, [], false⟩

/-- The `except` clauses around a retrieval. -/
def asFastPathError {α : Type} : Except ChatError α → Except ChatError α
  | .error (.retrievalBackend _ text) =>
    .error (.fastPathBackend ("multi-corpus retrieval failed: " ++ text))
  | r => r

def mergeResults (primary extra : MultiCorpusResult) : MultiCorpusResult where
  evidence := primary.evidence ++ extra.evidence
  corporaUsed := sortedStrings (primary.corporaUsed ++ extra.corporaUsed).eraseDups
  routed := sortedStrings (primary.routed ++ extra.routed).eraseDups
  faults := primary.faults ++ extra.faults
  insufficientCorpora := sortedStrings (primary.insufficientCorpora ++ extra.insufficientCorpora).eraseDups
  retrievalCalls := primary.retrievalCalls + extra.retrievalCalls

/-- A partial fault without evidence is raised. -/
def requireEvidence (result : MultiCorpusResult) : Except ChatError MultiCorpusResult :=
  if result.evidence = [] ∧ result.faults ≠ [] then
    .error (.fastPathBackend ("multi-corpus retrieval partially failed with no evidence: " ++
      quotedList (result.faults.map (·.corpusId))))
  else .ok result

/-- The fallback corpora that the primary retrieval has not queried. -/
def newCorpora (fallback : List CorpusConfig) (result : MultiCorpusResult) : List CorpusConfig :=
  fallback.filter fun corpus => decide (corpus.corpusId ∉ result.routed)

/-- `_retrieve_or_expand`, with the corpora it queries. -/
def retrieveOrExpand (selection : Selected) : Except ChatError MultiCorpusResult × List CorpusConfig :=
  let primary := retrieve setting.retriever ctx selection.selected 0
  match asFastPathError primary.1 with
  | .error e => (.error e, primary.2)
  | .ok result =>
    if result.evidence = [] ∧ selection.allowFallback = true ∧ newCorpora selection.fallback result ≠ [] then
      let extra := retrieve setting.retriever ctx (newCorpora selection.fallback result) primary.2.length
      (asFastPathError extra.1 >>= fun extra => requireEvidence (mergeResults result extra),
        primary.2 ++ extra.2)
    else (requireEvidence result, primary.2)

def partialRetrievalLimitations (faults : List CorpusRetrievalFault) : List String :=
  (faults.insertionSort fun first second => first.corpusId ≤ second.corpusId).map fun fault =>
    "Partial retrieval: corpus " ++ quoted fault.corpusId ++ " was unavailable (" ++ fault.errorType ++
      "); the answer may be incomplete."

/-- The conflict stage over the merged evidence. -/
def conflictStage (result : MultiCorpusResult) : ConflictReport × List Evidence :=
  runConflictStage setting.texts setting.now query (setting.texts.parseTemporalScope query) result.evidence

def synthesizeMultiCorpus (result : MultiCorpusResult) (evidence : List Evidence)
    (report : ConflictReport) : Except ChatError AnswerEnvelope :=
  match setting.invokeModel (buildMessages query evidence (some report)) with
  | .error e => .error (.modelInvocation
      ("claim extraction failed for multi-corpus query: " ++ e.text))
  | .ok extraction =>
    buildMultiCorpusEnvelope ctx evidence result.corporaUsed extraction.claims (contradictedOnly report)
      ⟨1, 1, result.retrievalCalls⟩ (partialRetrievalLimitations result.faults)
      (decide (result.faults ≠ [])) (some "evidence_found") (some report)

/-- What follows the retrieval. -/
def answerFrom (result : MultiCorpusResult) : Except ChatError AnswerEnvelope :=
  let (report, finalEvidence) := setting.conflictStage query result
  if finalEvidence = [] then buildNoEvidenceRefusal ctx result.corporaUsed ⟨1, 1, result.retrievalCalls⟩
  else setting.synthesizeMultiCorpus ctx query result finalEvidence report

/-- `answer_multi_corpus`, with the corpora it queries. -/
def answerMultiCorpus (selection : CorpusSelection) : Except ChatError AnswerEnvelope × List CorpusConfig :=
  if setting.registered = false then
    (.error (.chatService "multi-corpus mode requires a CorpusRegistry on the ChatService"), [])
  else
    match setting.select selection with
    | .error e => (.error e, [])
    | .ok chosen =>
      if chosen.selected = [] ∧ chosen.fallback = [] then
        (buildMultiCorpusEnvelope ctx [] [] [] none ⟨1, 1, 0⟩ [] false (some "no_evidence") none, [])
      else
        ((setting.retrieveOrExpand ctx chosen).1 >>= setting.answerFrom ctx query,
          (setting.retrieveOrExpand ctx chosen).2)

end MultiCorpusSetting

def Selected.fresh (chosen : Selected) : List CorpusConfig :=
  chosen.fallback.filter fun corpus => decide (corpus.corpusId ∉ chosen.selected.map (·.corpusId))

namespace MultiCorpusSetting

open MultiCorpusRetrieval

section Faults

variable (setting : MultiCorpusSetting) (ctx : SecurityContext) (query : String)

/-- The calls for the corpora bring this evidence, without an outage. -/
structure Brings (corpora : List CorpusConfig) (before : Nat) (evidence : List Evidence) : Prop where
  answered : Answered setting.retriever ctx corpora before
  noOutage : ¬Outage setting.retriever corpora before
  evidence_eq : merged setting.retriever corpora before = evidence

/-- The conflict stage keeps nothing of the evidence. -/
def Drops (evidence : List Evidence) : Prop :=
  (runConflictStage setting.texts setting.now query (setting.texts.parseTemporalScope query) evidence).2 = []

/-- A corpus is at fault, the others return evidence, and the conflict stage drops all of it. The
evidence is that of the selected corpora, or that of the expansion where they have none. -/
def Masked (selection : CorpusSelection) : Prop :=
  setting.registered = true ∧ ∃ chosen, setting.select selection = .ok chosen ∧ ∃ evidence,
    evidence ≠ [] ∧ setting.Drops query evidence ∧
      (setting.Brings ctx chosen.selected 0 evidence ∧ SomeFaulty setting.retriever chosen.selected 0 ∨
        setting.Brings ctx chosen.selected 0 [] ∧ chosen.allowFallback = true ∧
          setting.Brings ctx chosen.fresh chosen.selected.length evidence ∧
          (SomeFaulty setting.retriever chosen.selected 0 ∨
            SomeFaulty setting.retriever chosen.fresh chosen.selected.length))

/-- An abstaining answer means that the backend of no queried corpus was at fault, and a security
or binding error in a queried corpus is raised as it is. -/
structure FaultsShown (selection : CorpusSelection) : Prop where
  noRefusal : ∀ env, (setting.answerMultiCorpus ctx query selection).1 = .ok env → env.abstained = true →
    ∀ i corpus, (setting.answerMultiCorpus ctx query selection).2[i]? = some corpus →
      ¬Faulty (setting.retriever i corpus)
  raised : ∀ i corpus e, (setting.answerMultiCorpus ctx query selection).2[i]? = some corpus →
    Raises ctx corpus (setting.retriever i corpus) e → e.Propagates →
    (setting.answerMultiCorpus ctx query selection).1 = .error e

variable {setting ctx query}

theorem asFastPathError_ok {α : Type} {r : Except ChatError α} {a : α} :
    asFastPathError r = .ok a ↔ r = .ok a := by
  constructor
  · intro h
    unfold asFastPathError at h
    split at h
    · cases h
    · exact h
  · rintro rfl
    rfl

theorem asFastPathError_propagates {α : Type} {e : ChatError} (he : e.Propagates) :
    asFastPathError (.error e : Except ChatError α) = .error e := by
  cases e <;> first | rfl | exact he.elim

theorem requireEvidence_ok {result result' : MultiCorpusResult} :
    requireEvidence result = .ok result' ↔ ¬(result.evidence = [] ∧ result.faults ≠ []) ∧ result = result' := by
  unfold requireEvidence
  split <;> simp_all

variable {result : MultiCorpusResult} {chosen : Selected} {evidence : List Evidence}
  {env : AnswerEnvelope} {corpora : List CorpusConfig} {before : Nat}

theorem retrieve_brings (h : (retrieve setting.retriever ctx corpora before).1 = .ok result) :
    setting.Brings ctx corpora before result.evidence ∧
      (retrieve setting.retriever ctx corpora before).2 = corpora ∧
      Retrieved setting.retriever corpora before result := by
  have hanswered := retrieve_ok h
  rcases retrieve_answered hanswered with ⟨-, e, hrun⟩ | ⟨hout, result', hrun, hretrieved⟩
  · rw [hrun] at h
    cases h
  · rw [hrun] at h ⊢
    cases h
    exact ⟨⟨hanswered, hout, hretrieved.evidence.symm⟩, rfl, hretrieved⟩

theorem Brings.retrieve (h : setting.Brings ctx corpora before evidence) : ∃ result,
    retrieve setting.retriever ctx corpora before = (.ok result, corpora) ∧ result.evidence = evidence ∧
      Retrieved setting.retriever corpora before result := by
  rcases retrieve_answered h.answered with ⟨hout, -⟩ | ⟨-, result, hrun, hretrieved⟩
  · exact absurd hout h.noOutage
  · exact ⟨result, hrun, hretrieved.evidence.trans h.evidence_eq, hretrieved⟩

theorem newCorpora_eq (h : Retrieved setting.retriever chosen.selected 0 result) :
    newCorpora chosen.fallback result = chosen.fresh := by
  unfold newCorpora Selected.fresh
  rw [h.routed]

/-- The retrieval ends with the evidence of the selected corpora, or of the expansion. -/
inductive Expansion (setting : MultiCorpusSetting) (ctx : SecurityContext) (chosen : Selected)
    (result : MultiCorpusResult) : List CorpusConfig → Prop where
  | selected (hbrings : setting.Brings ctx chosen.selected 0 result.evidence)
      (hfaults : result.faults ≠ [] ↔ SomeFaulty setting.retriever chosen.selected 0) :
      Expansion setting ctx chosen result chosen.selected
  | expanded (hempty : setting.Brings ctx chosen.selected 0 []) (hallowed : chosen.allowFallback = true)
      (hbrings : setting.Brings ctx chosen.fresh chosen.selected.length result.evidence)
      (hfaults : result.faults ≠ [] ↔ SomeFaulty setting.retriever chosen.selected 0 ∨
        SomeFaulty setting.retriever chosen.fresh chosen.selected.length) :
      Expansion setting ctx chosen result (chosen.selected ++ chosen.fresh)

theorem mergeResults_faults {primary extra : MultiCorpusResult} :
    (mergeResults primary extra).faults ≠ [] ↔ primary.faults ≠ [] ∨ extra.faults ≠ [] := by
  simp only [mergeResults, ne_eq, List.append_eq_nil_iff, not_and_or]

/-- A retrieval that returns a result has ended in one of the two ways, and a fault has left
evidence. -/
theorem retrieveOrExpand_ok (h : (setting.retrieveOrExpand ctx chosen).1 = .ok result) :
    Expansion setting ctx chosen result (setting.retrieveOrExpand ctx chosen).2 ∧
      (result.faults ≠ [] → result.evidence ≠ []) := by
  unfold retrieveOrExpand at h ⊢
  cases hprimary : asFastPathError (retrieve setting.retriever ctx chosen.selected 0).1 with
  | error e =>
    simp only [hprimary] at h
    cases h
  | ok primary =>
    obtain ⟨hbrings, hlog, hretrieved⟩ := retrieve_brings (asFastPathError_ok.mp hprimary)
    simp only [hprimary] at h ⊢
    split at h
    · rename_i hexpand
      rw [if_pos hexpand]
      obtain ⟨hempty, hallowed, -⟩ := hexpand
      simp only [newCorpora_eq hretrieved, hlog] at h ⊢
      obtain ⟨extra, hextra, hrequire⟩ := except_bind_ok.mp h
      obtain ⟨hbrings', hlog', hretrieved'⟩ := retrieve_brings (asFastPathError_ok.mp hextra)
      obtain ⟨hevidence, hmerge⟩ := requireEvidence_ok.mp hrequire
      have heq : result.evidence = extra.evidence := by
        rw [← hmerge]
        simp only [mergeResults, hempty, List.nil_append]
      rw [hlog']
      refine ⟨.expanded (by rwa [hempty] at hbrings) hallowed (by rwa [heq]) ?_, ?_⟩
      · rw [← hmerge, mergeResults_faults, hretrieved.faults, hretrieved'.faults]
      · intro hfaults hnil
        rw [hmerge] at hevidence
        exact hevidence ⟨hnil, hfaults⟩
    · rename_i hexpand
      rw [if_neg hexpand]
      obtain ⟨hevidence, rfl⟩ := requireEvidence_ok.mp h
      simp only [hlog]
      exact ⟨.selected hbrings hretrieved.faults, fun hfaults hnil => hevidence ⟨hnil, hfaults⟩⟩

/-- Evidence of the selected corpora, or of the expansion, is returned. -/
theorem Expansion.of_brings (hne : evidence ≠ [])
    (h : setting.Brings ctx chosen.selected 0 evidence ∧ SomeFaulty setting.retriever chosen.selected 0 ∨
      setting.Brings ctx chosen.selected 0 [] ∧ chosen.allowFallback = true ∧
        setting.Brings ctx chosen.fresh chosen.selected.length evidence ∧
        (SomeFaulty setting.retriever chosen.selected 0 ∨
          SomeFaulty setting.retriever chosen.fresh chosen.selected.length)) :
    ∃ result, (setting.retrieveOrExpand ctx chosen).1 = .ok result ∧ result.evidence = evidence ∧
      result.faults ≠ [] := by
  rcases h with ⟨hbrings, hfaulty⟩ | ⟨hempty, hallowed, hbrings, hfaulty⟩
  · obtain ⟨result, hrun, hevidence, hretrieved⟩ := hbrings.retrieve
    have hnotempty : ¬(result.evidence = [] ∧ chosen.allowFallback = true ∧
        newCorpora chosen.fallback result ≠ []) := fun h => hne (hevidence ▸ h.1)
    refine ⟨result, ?_, hevidence, hretrieved.faults.mpr hfaulty⟩
    simp only [retrieveOrExpand, hrun, asFastPathError_ok.mpr rfl, if_neg hnotempty]
    exact requireEvidence_ok.mpr ⟨fun h => hne (hevidence ▸ h.1), rfl⟩
  · obtain ⟨primary, hrun, hprimary, hretrieved⟩ := hempty.retrieve
    obtain ⟨extra, hrun', hextra, hretrieved'⟩ := hbrings.retrieve
    have hfresh : chosen.fresh ≠ [] := by
      intro hnil
      have hmerged := hbrings.evidence_eq
      rw [hnil] at hmerged
      exact hne hmerged.symm
    have hevidence : (mergeResults primary extra).evidence = evidence := by
      simp only [mergeResults, hprimary, hextra, List.nil_append]
    refine ⟨mergeResults primary extra, ?_, hevidence, ?_⟩
    · have hexpand : primary.evidence = [] ∧ chosen.allowFallback = true ∧ chosen.fresh ≠ [] :=
        ⟨hprimary, hallowed, hfresh⟩
      simp only [retrieveOrExpand, hrun, asFastPathError_ok.mpr rfl, newCorpora_eq hretrieved,
        if_pos hexpand, hrun']
      exact requireEvidence_ok.mpr ⟨fun h => hne (hevidence ▸ h.1), rfl⟩
    · rw [mergeResults_faults, hretrieved.faults, hretrieved'.faults]
      exact hfaulty

/-- A fault among the queried corpora is recorded. -/
theorem Expansion.records {log : List CorpusConfig} (h : Expansion setting ctx chosen result log) {i : Nat}
    {corpus : CorpusConfig} (hi : log[i]? = some corpus) (hfaulty : Faulty (setting.retriever i corpus)) :
    result.faults ≠ [] := by
  cases h with
  | selected hbrings hfaults => exact hfaults.mpr ⟨i, corpus, hi, by rwa [Nat.zero_add]⟩
  | expanded hempty hallowed hbrings hfaults =>
    apply hfaults.mpr
    by_cases hlt : i < chosen.selected.length
    · rw [List.getElem?_append_left hlt] at hi
      exact .inl ⟨i, corpus, hi, by rwa [Nat.zero_add]⟩
    · rw [List.getElem?_append_right (by omega)] at hi
      refine .inr ⟨i - chosen.selected.length, corpus, hi, ?_⟩
      rwa [show chosen.selected.length + (i - chosen.selected.length) = i by omega]

/-- A recorded fault is that of a queried corpus. -/
theorem Expansion.recorded {log : List CorpusConfig} (h : Expansion setting ctx chosen result log)
    (hfaults : result.faults ≠ []) : ∃ i corpus, log[i]? = some corpus ∧ Faulty (setting.retriever i corpus) := by
  have hfirst : SomeFaulty setting.retriever chosen.selected 0 →
      ∃ i corpus, chosen.selected[i]? = some corpus ∧ Faulty (setting.retriever i corpus) := by
    rintro ⟨i, corpus, hi, hfaulty⟩
    exact ⟨i, corpus, hi, by rwa [Nat.zero_add] at hfaulty⟩
  cases h with
  | selected hbrings hiff => exact hfirst (hiff.mp hfaults)
  | expanded hempty hallowed hbrings hiff =>
    rcases hiff.mp hfaults with hsome | ⟨i, corpus, hi, hfaulty⟩
    · obtain ⟨i, corpus, hi, hfaulty⟩ := hfirst hsome
      have hlt : i < chosen.selected.length := (List.getElem?_eq_some_iff.mp hi).1
      exact ⟨i, corpus, by rw [List.getElem?_append_left hlt, hi], hfaulty⟩
    · refine ⟨chosen.selected.length + i, corpus, ?_, hfaulty⟩
      rw [List.getElem?_append_right (by omega), ← hi]
      congr 1
      omega

/-- A queried corpus whose call raises a security error ends the retrieval with it. -/
theorem retrieveOrExpand_raises {i : Nat} {corpus : CorpusConfig} {e : ChatError}
    (hi : (setting.retrieveOrExpand ctx chosen).2[i]? = some corpus)
    (hraises : Raises ctx corpus (setting.retriever i corpus) e) (he : e.Propagates) :
    (setting.retrieveOrExpand ctx chosen).1 = .error e := by
  have hfirst (hi : (retrieve setting.retriever ctx chosen.selected 0).2[i]? = some corpus) :
      asFastPathError (retrieve setting.retriever ctx chosen.selected 0).1 = .error e := by
    rw [retrieve_raises hi (by rwa [Nat.zero_add]) he]
    exact asFastPathError_propagates he
  unfold retrieveOrExpand at hi ⊢
  cases hprimary : asFastPathError (retrieve setting.retriever ctx chosen.selected 0).1 with
  | error e' =>
    simp only [hprimary] at hi ⊢
    rw [← hprimary, hfirst hi]
  | ok primary =>
    obtain ⟨hbrings, hlog, hretrieved⟩ := retrieve_brings (asFastPathError_ok.mp hprimary)
    simp only [hprimary, hlog] at hi ⊢
    split at hi
    · rename_i hexpand
      rw [if_pos hexpand]
      by_cases hlt : i < chosen.selected.length
      · rw [List.getElem?_append_left hlt] at hi
        rw [hfirst (by rw [hlog]; exact hi)] at hprimary
        cases hprimary
      · rw [List.getElem?_append_right (by omega)] at hi
        have hextra := retrieve_raises hi
          (by rwa [show chosen.selected.length + (i - chosen.selected.length) = i by omega]) he
        simp only [hextra, asFastPathError_propagates he]
        rfl
    · rw [hfirst (by rw [hlog]; exact hi)] at hprimary
      cases hprimary

theorem synthesizeMultiCorpus_answers {report : ConflictReport} (hne : evidence ≠ [])
    (h : setting.synthesizeMultiCorpus ctx query result evidence report = .ok env) : env.abstained = false := by
  unfold synthesizeMultiCorpus at h
  split at h
  · cases h
  · unfold buildMultiCorpusEnvelope at h
    obtain ⟨-, -, hbuild⟩ := except_bind_ok.mp h
    rw [if_neg hne] at hbuild
    refine buildEnvelopeFromEvidence_answers (fun verification => AnswerParts.verdict_answers _ ?_) hbuild
    intro coverage hcoverage
    simp only [contradictedOnly] at hcoverage
    split at hcoverage
    · cases hcoverage
      decide
    · cases hcoverage

/-- What follows the retrieval abstains exactly if the conflict stage drops all evidence. -/
theorem answerFrom_abstains :
    (∃ env, setting.answerFrom ctx query result = .ok env ∧ env.abstained = true) ↔
      setting.Drops query result.evidence := by
  unfold answerFrom
  split
  rename_i report finalEvidence hstage
  have hdrops : setting.Drops query result.evidence ↔ finalEvidence = [] := by
    rw [Drops, show runConflictStage _ _ _ _ _ = _ from hstage]
  rw [hdrops]
  split
  · rename_i hnil
    simp only [hnil, iff_true]
    exact ⟨_, buildNoEvidenceRefusal_eq, rfl⟩
  · rename_i hne
    simp only [hne, iff_false]
    rintro ⟨env, hrun, habstained⟩
    rw [synthesizeMultiCorpus_answers hne hrun] at habstained
    cases habstained

end Faults

section Shown

variable {setting : MultiCorpusSetting} {ctx : SecurityContext} {query : String}
  {selection : CorpusSelection} {chosen : Selected}

theorem answerMultiCorpus_chosen (hregistered : setting.registered = true)
    (hselect : setting.select selection = .ok chosen) (hne : ¬(chosen.selected = [] ∧ chosen.fallback = [])) :
    setting.answerMultiCorpus ctx query selection =
      ((setting.retrieveOrExpand ctx chosen).1 >>= setting.answerFrom ctx query,
        (setting.retrieveOrExpand ctx chosen).2) := by
  simp only [answerMultiCorpus, hregistered, hselect, hne, Bool.true_eq_false, if_false]

/-- A request that queries a corpus has chosen corpora. -/
theorem answerMultiCorpus_queried {i : Nat} {corpus : CorpusConfig}
    (hi : (setting.answerMultiCorpus ctx query selection).2[i]? = some corpus) :
    setting.registered = true ∧ ∃ chosen, setting.select selection = .ok chosen ∧
      setting.answerMultiCorpus ctx query selection =
        ((setting.retrieveOrExpand ctx chosen).1 >>= setting.answerFrom ctx query,
          (setting.retrieveOrExpand ctx chosen).2) := by
  cases hregistered : setting.registered with
  | false => simp [answerMultiCorpus, hregistered] at hi
  | true =>
    cases hselect : setting.select selection with
    | error e => simp [answerMultiCorpus, hregistered, hselect] at hi
    | ok chosen =>
      by_cases hnone : chosen.selected = [] ∧ chosen.fallback = []
      · simp [answerMultiCorpus, hregistered, hselect, hnone] at hi
      · exact ⟨rfl, chosen, rfl, answerMultiCorpus_chosen hregistered hselect hnone⟩

/-- Where the others' evidence is dropped, the fault is lost and the answer abstains. -/
theorem Masked.refuses (h : setting.Masked ctx query selection) :
    ∃ env i corpus, (setting.answerMultiCorpus ctx query selection).1 = .ok env ∧ env.abstained = true ∧
      (setting.answerMultiCorpus ctx query selection).2[i]? = some corpus ∧
      Faulty (setting.retriever i corpus) := by
  obtain ⟨hregistered, chosen, hselect, evidence, hne, hdrops, hbrings⟩ := h
  obtain ⟨result, hrun, hevidence, hfaults⟩ := Expansion.of_brings hne hbrings
  obtain ⟨i, corpus, hi, hfaulty⟩ := (retrieveOrExpand_ok hrun).1.recorded hfaults
  obtain ⟨env, hanswer, habstained⟩ := answerFrom_abstains.mpr (hevidence ▸ hdrops)
  have hchosen : ¬(chosen.selected = [] ∧ chosen.fallback = []) := by
    rintro ⟨hselected, hfallback⟩
    have hlog : (setting.retrieveOrExpand ctx chosen).2 = [] := by
      have hexpansion := (retrieveOrExpand_ok hrun).1
      generalize (setting.retrieveOrExpand ctx chosen).2 = log at hexpansion
      cases hexpansion with
      | selected => exact hselected
      | expanded => simp [hselected, Selected.fresh, hfallback]
    simp [hlog] at hi
  rw [answerMultiCorpus_chosen hregistered hselect hchosen]
  exact ⟨env, i, corpus, except_bind_ok.mpr ⟨result, hrun, hanswer⟩, habstained, hi, hfaulty⟩

/-- An abstaining answer after a fault means that the others' evidence is dropped. -/
theorem masked_of_refusal {env : AnswerEnvelope} {i : Nat} {corpus : CorpusConfig}
    (hanswer : (setting.answerMultiCorpus ctx query selection).1 = .ok env) (habstained : env.abstained = true)
    (hi : (setting.answerMultiCorpus ctx query selection).2[i]? = some corpus)
    (hfaulty : Faulty (setting.retriever i corpus)) : setting.Masked ctx query selection := by
  obtain ⟨hregistered, chosen, hselect, hqueries⟩ := answerMultiCorpus_queried hi
  rw [hqueries] at hanswer hi
  obtain ⟨result, hrun, hfrom⟩ := except_bind_ok.mp hanswer
  obtain ⟨hexpansion, hevidence⟩ := retrieveOrExpand_ok hrun
  have hfaults := hexpansion.records hi hfaulty
  have hdrops := answerFrom_abstains.mp ⟨env, hfrom, habstained⟩
  refine ⟨hregistered, chosen, hselect, result.evidence, hevidence hfaults, hdrops, ?_⟩
  generalize (setting.retrieveOrExpand ctx chosen).2 = log at hexpansion
  cases hexpansion with
  | selected hbrings hiff => exact .inl ⟨hbrings, hiff.mp hfaults⟩
  | expanded hempty hallowed hbrings hiff => exact .inr ⟨hempty, hallowed, hbrings, hiff.mp hfaults⟩

/-- A security or binding error in a queried corpus is the outcome of the request. -/
theorem answerMultiCorpus_raises {i : Nat} {corpus : CorpusConfig} {e : ChatError}
    (hi : (setting.answerMultiCorpus ctx query selection).2[i]? = some corpus)
    (hraises : Raises ctx corpus (setting.retriever i corpus) e) (he : e.Propagates) :
    (setting.answerMultiCorpus ctx query selection).1 = .error e := by
  obtain ⟨-, chosen, -, hqueries⟩ := answerMultiCorpus_queried hi
  rw [hqueries] at hi ⊢
  simp only [retrieveOrExpand_raises hi hraises he]
  rfl

/-- The faults of a request are shown unless the conflict stage drops all evidence of the corpora that are
not at fault. Setting, caller, query and selection are arbitrary, and so are the faults. -/
theorem answerMultiCorpus_shows_faults_iff (setting : MultiCorpusSetting) (ctx : SecurityContext)
    (query : String) (selection : CorpusSelection) :
    setting.FaultsShown ctx query selection ↔ ¬setting.Masked ctx query selection := by
  constructor
  · intro hshown hmasked
    obtain ⟨env, i, corpus, hanswer, habstained, hi, hfaulty⟩ := hmasked.refuses
    exact hshown.noRefusal env hanswer habstained i corpus hi hfaulty
  · intro hmasked
    constructor
    · intro env hanswer habstained i corpus hi hfaulty
      exact hmasked (masked_of_refusal hanswer habstained hi hfaulty)
    · intro i corpus e hi hraises he
      exact answerMultiCorpus_raises hi hraises he

end Shown

namespace Sample

/-- A policy that ended with the year 2023. -/
def expired : Evidence where
  evidenceId := "E-policy-1"
  tenantId := "acme"
  corpusId := "hr"
  documentId := "policy"
  documentVersion := "1"
  sourceUri := "file:///policy.md"
  sourceFilename := "policy.md"
  pageNumber := none
  sectionPath := ["Leave"]
  text := "Employees have 20 days of leave."
  textHash := "hash-policy"
  authorityLevel := 50
  effectiveFrom := none
  effectiveTo := some ⟨1704067199000000, none⟩
  deprecated := false
  retrievedAt := ⟨1717200000000000, none⟩
  aclPolicyId := "default"
  policyVersion := "v1"

def corpus (corpusId : String) : CorpusConfig where
  corpusId := corpusId
  tenantId := "acme"
  vectorCollection := none
  enabled := true
  searchable := true

def ctx : SecurityContext where
  requestId := "r1"
  sessionId := "s1"
  tenantId := "acme"
  userId := "alice"
  roles := []
  groups := []
  allowedSecurityLevels := ["internal"]
  allowedCorpusIds := none
  policyVersion := "v1"
  isAdmin := false
  permissions := []

/-- The legal corpus is down, and the policy of the other one expired five months ago. The query
names no time, and the evidence has no conflict. -/
def setting : MultiCorpusSetting where
  texts :=
    { parseTemporalScope := fun _ => .unspecified
      resolveConflicts := fun evidence scope _ => ⟨scope, .none, [], evidence.map (·.evidenceId)⟩
      normalizeTopicKey := fun query => query
      extractFacts := fun _ => []
      checkClaim := fun _ _ => .entailed }
  registered := true
  registryGet := fun corpusId => .ok (corpus corpusId)
  route := .ok ⟨["legal", "hr"], false, []⟩
  retriever := fun _ corpus =>
    if corpus.corpusId = "legal" then .error (.transport "ConnectionError" "connection refused")
    else .ok [expired]
  now := ⟨1717200000000000, none⟩
  invokeModel := fun _ => .ok ⟨"", []⟩

end Sample

/-- The fault of one corpus is answered by "no authorized evidence was found". -/
theorem answerMultiCorpus_shows_faults_counterexample :
    ¬Sample.setting.FaultsShown Sample.ctx "How many days of leave do employees have?"
      (.pinned ["legal", "hr"]) := by
  intro hshown
  refine hshown.noRefusal (refusal Sample.ctx ["hr"] none ⟨1, 1, 2⟩) ?_ rfl 0 (Sample.corpus "legal") ?_ ?_
  · decide +kernel
  · decide +kernel
  · exact ⟨"ConnectionError", "retrieval backend failure: ConnectionError: connection refused", rfl⟩

end MultiCorpusSetting

end AgenticRag
