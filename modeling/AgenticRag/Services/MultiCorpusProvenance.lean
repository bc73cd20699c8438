import AgenticRag.Answer.Grounded
import AgenticRag.Retrieval.MergedEvidence
import AgenticRag.Services.MultiCorpusAnswer

/-!
# Where multi-corpus answers come from

Whatever the registry, the router, the retriever and the model do: each piece of evidence in an
answer of `answer_multi_corpus` was returned by one of the retrievals made for it, no two of them
have one id or one text of a document version, and the answer tells how many retrievals were made
and which of them failed.
-/

namespace AgenticRag

namespace MultiCorpusRetrieval

variable {retriever : Retriever} {ctx : SecurityContext} {corpus : CorpusConfig} {corpora : List CorpusConfig}
  {before : Nat} {s s' : Gathered} {ev : Evidence}

/-- The fault that is recorded for a call. -/
def faultOf (corpus : CorpusConfig) (outcome : Except ChatError (List Evidence)) : Option CorpusRetrievalFault :=
  match wrapBackendFault outcome with
  | .error (.retrievalBackend cause _) =>
    some ⟨corpus.corpusId, "retrieval failed for corpus " ++ quoted corpus.corpusId, cause⟩
  | _ => none

/-- The faults of the calls for corpora, in the order of the calls. -/
def faultsOf (retriever : Retriever) : List CorpusConfig → Nat → List CorpusRetrievalFault
  | [], _ => []
  | corpus :: rest, before =>
    (faultOf corpus (retriever before corpus)).toList ++ faultsOf retriever rest (before + 1)

theorem faultsOf_append (first rest : List CorpusConfig) (before : Nat) : faultsOf retriever (first ++ rest) before =
    faultsOf retriever first before ++ faultsOf retriever rest (before + first.length) := by
  induction first generalizing before with
  | nil => rfl
  | cons corpus first ih =>
    rw [List.cons_append, faultsOf, faultsOf, ih, List.append_assoc, List.length_cons,
      show before + 1 + first.length = before + (first.length + 1) by omega]

theorem gather_faults {outcome : Except ChatError (List Evidence)} (h : gather ctx corpus outcome s = .ok s') :
    s'.faults = s.faults ++ (faultOf corpus outcome).toList ∧ s'.calls = s.calls + 1 := by
  unfold gather at h
  unfold faultOf
  cases hwrapped : wrapBackendFault outcome with
  | ok evs =>
    simp only [hwrapped] at h
    obtain ⟨-, -, h⟩ := except_bind_ok.mp h
    split at h
    · obtain rfl := Except.ok.inj h
      simp
    · obtain rfl := Except.ok.inj h
      simp
  | error e =>
    cases e with
    | retrievalBackend cause text =>
      simp only [hwrapped, Except.ok.injEq] at h
      subst h
      simp
    | _ =>
      simp only [hwrapped] at h
      cases h

theorem gatherAll_faults (h : (gatherAll retriever ctx corpora before s).1 = .ok s') :
    s'.faults = s.faults ++ faultsOf retriever corpora before ∧ s'.calls = s.calls + corpora.length := by
  induction corpora generalizing before s with
  | nil =>
    obtain rfl := Except.ok.inj h
    simp [faultsOf]
  | cons corpus rest ih =>
    unfold gatherAll at h
    cases hgather : gather ctx corpus (retriever before corpus) s with
    | error e =>
      simp only [hgather] at h
      cases h
    | ok next =>
      simp only [hgather] at h
      obtain ⟨hfaults, hcalls⟩ := gather_faults hgather
      obtain ⟨hrest, hlength⟩ := ih h
      refine ⟨?_, by rw [hlength, hcalls, List.length_cons]; omega⟩
      rw [hrest, hfaults, faultsOf, List.append_assoc]

/-- An entry of the dictionary was there before, or is the answer to a call. -/
theorem mem_foundAll {perCorpus : PerCorpus} {entry : String × List Evidence}
    (h : entry ∈ foundAll retriever corpora before perCorpus) : entry ∈ perCorpus ∨
      ∃ i corpus, corpora[i]? = some corpus ∧ corpus.corpusId = entry.1 ∧
        retriever (before + i) corpus = .ok entry.2 := by
  induction corpora generalizing before perCorpus with
  | nil => exact .inl h
  | cons corpus rest ih =>
    rcases ih h with hfound | ⟨i, later, hi, hid, hcall⟩
    · unfold found at hfound
      split at hfound
      · rename_i ev evs houtcome
        rcases Table.mem_upsert.mp hfound with rfl | ⟨hold, -⟩
        · exact .inr ⟨0, corpus, rfl, rfl, houtcome⟩
        · exact .inl hold
      · exact .inl hfound
    · rw [show before + 1 + i = before + (i + 1) by omega] at hcall
      exact .inr ⟨i + 1, later, hi, hid, hcall⟩

theorem mem_of_mergeOrder {perCorpus : PerCorpus} (h : ev ∈ mergeOrder perCorpus) :
    ∃ entry ∈ perCorpus, ev ∈ entry.2 := by
  obtain ⟨corpusId, -, hev⟩ := List.mem_flatMap.mp h
  cases hlookup : perCorpus.lookup corpusId with
  | none =>
    rw [hlookup] at hev
    cases hev
  | some evs =>
    rw [hlookup] at hev
    obtain ⟨first, last, hsplit, -⟩ := List.lookup_eq_some_iff.mp hlookup
    exact ⟨(corpusId, evs), by simp [hsplit], hev⟩

theorem assertEvidenceBinding_bound {evs : List Evidence} (h : assertEvidenceBinding ctx corpus evs = .ok ()) :
    ∀ ev ∈ evs, ev.tenantId = ctx.tenantId ∧ ev.corpusId = corpus.corpusId := by
  induction evs with
  | nil => simp
  | cons ev rest ih =>
    unfold assertEvidenceBinding at h
    split at h
    · cases h
    rename_i htenant
    split at h
    · cases h
    rename_i hcorpus
    intro other hother
    rcases List.mem_cons.mp hother with rfl | hrest
    · exact ⟨not_not.mp htenant, not_not.mp hcorpus⟩
    · exact ih h other hrest

/-- A call for one of the corpora, which are called in turn from a number on, has returned the
evidence, as evidence of this corpus. -/
def Brought (retriever : Retriever) (corpora : List CorpusConfig) (before : Nat) (ev : Evidence) : Prop :=
  ∃ i corpus evs, corpora[i]? = some corpus ∧ retriever (before + i) corpus = .ok evs ∧ ev ∈ evs ∧
    ev.corpusId = corpus.corpusId

/-- What a result tells of the calls made for it. -/
structure Tells (retriever : Retriever) (corpora : List CorpusConfig) (before : Nat) (result : MultiCorpusResult) :
    Prop where
  brought : ∀ ev ∈ result.evidence, Brought retriever corpora before ev
  ids : (result.evidence.map (·.evidenceId)).Nodup
  texts : (result.evidence.map (·.textKey)).Nodup
  sources : ∀ corpusId ∈ result.corporaUsed, ∃ corpus ∈ corpora, corpus.corpusId = corpusId
  calls : result.retrievalCalls = corpora.length
  faults : result.faults = faultsOf retriever corpora before

theorem retrieve_tells {result : MultiCorpusResult} (h : (retrieve retriever ctx corpora before).1 = .ok result) :
    Tells retriever corpora before result := by
  have hanswered := retrieve_ok h
  obtain ⟨s, hrun, hgathers⟩ := gatherAll_answered (s := .start) hanswered
  have hgathered : (gatherAll retriever ctx corpora before .start).1 = .ok s := congrArg Prod.fst hrun
  obtain ⟨hfaults, hcalls⟩ := gatherAll_faults hgathered
  have hbrought (ev : Evidence) (hev : ev ∈ firstOccurrences (mergeOrder s.perCorpus)) :
      Brought retriever corpora before ev := by
    obtain ⟨entry, hentry, hmem⟩ := mem_of_mergeOrder ((firstsBy_sublist _).subset hev)
    rw [hgathers.perCorpus] at hentry
    rcases mem_foundAll hentry with hold | ⟨i, corpus, hi, -, hcall⟩
    · cases hold
    · rcases hanswered i corpus hi with ⟨cause, text, hwrapped⟩ | ⟨evs, hbound, hchecked⟩
      · rw [wrapBackendFault_eq_ok.mpr hcall] at hwrapped
        cases hwrapped
      · obtain rfl := Except.ok.inj (hcall.symm.trans hbound)
        exact ⟨i, corpus, _, hi, hcall, hmem, (assertEvidenceBinding_bound hchecked ev hmem).2⟩
  have hmerged := mergeEvidence_mergedFrom s.perCorpus
  unfold retrieve at h
  rw [hgathered] at h
  have hconclude : conclude corpora s = .ok result := h
  unfold conclude at hconclude
  split at hconclude
  · cases hconclude
  obtain rfl := Except.ok.inj hconclude
  constructor
  · intro ev hev
    obtain ⟨first, last, hsplit, -⟩ := hmerged.leading ev hev
    have hmem : ev ∈ occurrencesOf (mergeOrder s.perCorpus) ev.textKey := by simp [hsplit]
    exact hbrought ev (mem_occurrencesOf.mp hmem).1
  · exact hmerged.ids
  · exact hmerged.texts
  · intro corpusId hcorpus
    obtain ⟨ev, hev, rfl⟩ := (hmerged.corpora.2 corpusId).mp hcorpus
    obtain ⟨i, corpus, -, hi, -, -, hid⟩ := hbrought ev hev
    exact ⟨corpus, List.mem_of_getElem? hi, hid.symm⟩
  · simpa [Gathered.start] using hcalls
  · simpa [Gathered.start] using hfaults

/-- The result of an expansion tells of the calls before it as well. -/
theorem Tells.expanded {primary extra : MultiCorpusResult} {fresh selected : List CorpusConfig}
    (h : Tells retriever selected 0 primary)
    (h' : Tells retriever fresh selected.length extra) (hempty : primary.evidence = []) :
    Tells retriever (selected ++ fresh) 0 (MultiCorpusSetting.mergeResults primary extra) := by
  have hevidence : (MultiCorpusSetting.mergeResults primary extra).evidence = extra.evidence := by
    simp only [MultiCorpusSetting.mergeResults, hempty, List.nil_append]
  constructor
  · intro ev hev
    rw [hevidence] at hev
    obtain ⟨i, corpus, evs, hi, hcall, hmem, hid⟩ := h'.brought ev hev
    refine ⟨selected.length + i, corpus, evs, ?_, by rwa [Nat.zero_add], hmem, hid⟩
    rw [List.getElem?_append_right (by omega), ← hi]
    congr 1
    omega
  · rw [hevidence]
    exact h'.ids
  · rw [hevidence]
    exact h'.texts
  · intro corpusId hcorpus
    have hused : corpusId ∈ primary.corporaUsed ++ extra.corporaUsed :=
      List.mem_eraseDups.mp ((List.mem_insertionSort _).mp hcorpus)
    rcases List.mem_append.mp hused with hfirst | hsecond
    · obtain ⟨corpus, hmem, hid⟩ := h.sources corpusId hfirst
      exact ⟨corpus, List.mem_append_left _ hmem, hid⟩
    · obtain ⟨corpus, hmem, hid⟩ := h'.sources corpusId hsecond
      exact ⟨corpus, List.mem_append_right _ hmem, hid⟩
  · simp only [MultiCorpusSetting.mergeResults, h.calls, h'.calls, List.length_append, Nat.cast_add]
  · rw [faultsOf_append, Nat.zero_add, ← h.faults, ← h'.faults]
    rfl

end MultiCorpusRetrieval

namespace MultiCorpusSetting

open MultiCorpusRetrieval

variable {setting : MultiCorpusSetting} {ctx : SecurityContext} {query : String} {selection : CorpusSelection}
  {chosen : Selected} {result : MultiCorpusResult} {env : AnswerEnvelope}

theorem retrieveOrExpand_tells (h : (setting.retrieveOrExpand ctx chosen).1 = .ok result) :
    Tells setting.retriever (setting.retrieveOrExpand ctx chosen).2 0 result := by
  unfold retrieveOrExpand at h ⊢
  cases hprimary : asFastPathError (retrieve setting.retriever ctx chosen.selected 0).1 with
  | error e =>
    simp only [hprimary] at h
    cases h
  | ok primary =>
    have hprimary' := asFastPathError_ok.mp hprimary
    have hlog := (retrieve_brings hprimary').2.1
    simp only [hprimary] at h ⊢
    split at h
    · rename_i hexpand
      rw [if_pos hexpand]
      simp only [hlog] at h ⊢
      obtain ⟨extra, hextra, hrequire⟩ := except_bind_ok.mp h
      have hextra' := asFastPathError_ok.mp hextra
      obtain ⟨-, rfl⟩ := requireEvidence_ok.mp hrequire
      rw [(retrieve_brings hextra').2.1]
      exact (retrieve_tells hprimary').expanded (retrieve_tells hextra') hexpand.1
    · rename_i hexpand
      rw [if_neg hexpand]
      obtain ⟨-, rfl⟩ := requireEvidence_ok.mp h
      simp only [hlog]
      exact retrieve_tells hprimary'

/-- What an answer tells of the retrievals made for it. -/
structure Traced (setting : MultiCorpusSetting) (ctx : SecurityContext) (queried : List CorpusConfig)
    (env : AnswerEnvelope) : Prop where
  grounded : env.Grounded ctx
  brought : ∀ ev ∈ env.evidence, Brought setting.retriever queried 0 ev
  ids : (env.evidence.map (·.evidenceId)).Nodup
  texts : (env.evidence.map (·.textKey)).Nodup
  sources : ∀ corpusId ∈ env.corporaUsed, ∃ corpus ∈ queried, corpus.corpusId = corpusId
  calls : env.toolCalls = queried.length
  faults : env.abstained = false →
    env.limitations = partialRetrievalLimitations (faultsOf setting.retriever queried 0) ∧
      (faultsOf setting.retriever queried 0 ≠ [] → env.completeness ≠ .complete)

theorem Traced.refusal {queried : List CorpusConfig} {corporaUsed : List String} {accounting : Accounting}
    {coverage : Option SufficiencyResult}
    (hsources : ∀ corpusId ∈ corporaUsed, ∃ corpus ∈ queried, corpus.corpusId = corpusId)
    (hcalls : accounting.toolCalls = queried.length) :
    setting.Traced ctx queried (AgenticRag.refusal ctx corporaUsed coverage accounting) where
  grounded := refusal_grounded corporaUsed coverage accounting
  brought := by simp [AgenticRag.refusal]
  ids := List.nodup_nil
  texts := List.nodup_nil
  sources := hsources
  calls := hcalls
  faults := by simp [AgenticRag.refusal]

theorem answerFrom_traced {queried : List CorpusConfig} (htells : Tells setting.retriever queried 0 result)
    (h : setting.answerFrom ctx query result = .ok env) : setting.Traced ctx queried env := by
  unfold answerFrom at h
  rcases hstage : setting.conflictStage query result with ⟨report, kept⟩
  have hkept : kept.Sublist result.evidence := by
    have hsublist := runConflictStage_sublist setting.texts setting.now query (setting.texts.parseTemporalScope query)
      result.evidence
    rwa [show runConflictStage _ _ _ _ _ = _ from hstage] at hsublist
  simp only [hstage] at h
  split at h
  · rw [buildNoEvidenceRefusal_eq] at h
    obtain rfl := Except.ok.inj h
    exact .refusal htells.sources htells.calls
  rename_i hne
  unfold synthesizeMultiCorpus at h
  split at h
  · cases h
  have hgrounded := buildMultiCorpusEnvelope_grounded h
  unfold buildMultiCorpusEnvelope at h
  obtain ⟨-, -, hbuild⟩ := except_bind_ok.mp h
  rw [if_neg hne] at hbuild
  obtain ⟨hused, hcalls, hpartial⟩ := buildEnvelopeFromEvidence_tells hbuild
  have hpart : env.evidence.Sublist result.evidence := hgrounded.evidence.trans hkept
  constructor
  · exact hgrounded.grounded
  · exact fun ev hev => htells.brought ev (hpart.subset hev)
  · exact htells.ids.sublist (hpart.map _)
  · exact htells.texts.sublist (hpart.map _)
  · rw [hused]
    exact htells.sources
  · rw [hcalls]
    exact htells.calls
  · intro habstained
    obtain ⟨hlimitations, hcomplete⟩ := hpartial habstained
    rw [← htells.faults]
    exact ⟨hlimitations, fun hfaults => hcomplete (decide_eq_true hfaults)⟩

/-- Every answer tells where it comes from and what it misses, for every setting: each piece of its evidence
was brought by a corpus that was queried, no text appears twice, and an answer that does not abstain names
the retrievals that failed and is not complete then. -/
theorem answerMultiCorpus_traced (setting : MultiCorpusSetting) (ctx : SecurityContext) (query : String)
    (selection : CorpusSelection) {env : AnswerEnvelope}
    (h : (setting.answerMultiCorpus ctx query selection).1 = .ok env) :
    setting.Traced ctx (setting.answerMultiCorpus ctx query selection).2 env := by
  unfold answerMultiCorpus at h ⊢
  split at h
  · cases h
  rename_i hregistered
  rw [if_neg hregistered]
  cases hselect : setting.select selection with
  | error e =>
    simp only [hselect] at h
    cases h
  | ok chosen =>
    simp only [hselect] at h ⊢
    split at h
    · rename_i hnone
      rw [if_pos hnone]
      have hrefusal : env = refusal ctx [] none ⟨1, 1, 0⟩ := by
        simp only [buildMultiCorpusEnvelope, checkCorporaBinding, if_true, buildRefusal_eq] at h
        exact (Except.ok.inj h).symm
      subst hrefusal
      exact .refusal (by simp) rfl
    · rename_i hsome
      rw [if_neg hsome]
      obtain ⟨result, hrun, hanswer⟩ := except_bind_ok.mp h
      exact answerFrom_traced (retrieveOrExpand_tells hrun) hanswer

/-- The legal corpus is down, and the policy of the other one is in force. -/
def Sample.partly : MultiCorpusSetting := { Sample.setting with
  retriever := fun _ corpus =>
    if corpus.corpusId = "legal" then .error (.transport "ConnectionError" "connection refused")
    else .ok [{ Sample.expired with effectiveTo := none }] }

theorem answerMultiCorpus_traced_partly :
    ∃ env, (Sample.partly.answerMultiCorpus Sample.ctx "How many days of leave do employees have?"
        (.pinned ["legal", "hr"])).1 = .ok env ∧ env.evidence.length = 1 ∧
      Sample.partly.Traced Sample.ctx [Sample.corpus "legal", Sample.corpus "hr"] env := by
  have hanswers : (Sample.partly.answerMultiCorpus Sample.ctx "How many days of leave do employees have?"
      (.pinned ["legal", "hr"])).1.toOption.map (·.evidence.length) = some 1 := by decide +kernel
  cases hanswer : (Sample.partly.answerMultiCorpus Sample.ctx "How many days of leave do employees have?"
    (.pinned ["legal", "hr"])).1 with
  | error e => simp [hanswer, Except.toOption] at hanswers
  | ok env =>
    refine ⟨env, rfl, by simpa [hanswer, Except.toOption] using hanswers, ?_⟩
    have htraced := answerMultiCorpus_traced Sample.partly Sample.ctx "How many days of leave do employees have?"
      (.pinned ["legal", "hr"]) hanswer
    exact htraced

end MultiCorpusSetting

end AgenticRag
