import AgenticRag.Services.JudgeCalls

/-!
# The rounds in the record of a run

What a run has retrieved, and which of its rounds have brought nothing: both are read off the
calls that were made and what the world answered them. The record grows call by call.
-/

namespace AgenticRag

namespace ChatCall

def retrieval? : ChatCall → Option String
  | .retrieval query _ _ => some query
  | _ => none

/-- The queries that were executed. -/
def executed (calls : List ChatCall) : List String := calls.filterMap retrieval?

end ChatCall

/-- The calls of a round: it retrieves, and the judge is asked about the evidence that is kept. -/
structure RoundCalls where
  query : String
  corpus : CorpusConfig
  iteration : Int
  question : String
  requiredFacts : List Judge.RequiredFact
  shown : List Evidence

namespace RoundCalls

variable (round : RoundCalls)

def retrieval : ChatCall := .retrieval round.query round.corpus round.iteration

def judgement : ChatCall := .judgement round.question round.requiredFacts round.shown

def calls : List ChatCall := [round.retrieval, round.judgement]

end RoundCalls

namespace ChatWorld

variable (W : ChatWorld)

/-- The evidence that the retriever has brought with the calls `since`, before which the calls `past`
were made. -/
def gathered : List ChatCall → List ChatCall → List Evidence
  | _, [] => []
  | past, call :: rest =>
    (match call with
      | .retrieval query corpus iteration => (W.retrieve past query corpus iteration).toOption.getD []
      | _ => []) ++ gathered (past ++ [call]) rest

variable (past : List ChatCall)

/-- A round that brings no new evidence id, no new content, that is no new text and no new version
of a document, and no newly covered fact. -/
structure Gainless (before : List ChatCall) (round : RoundCalls) : Prop where
  ids : ∀ evs, W.retrieve (past ++ before) round.query round.corpus round.iteration = .ok evs → ∀ ev ∈ evs,
    ∃ old ∈ W.gathered past before, old.evidenceId = ev.evidenceId
  texts : ∀ evs, W.retrieve (past ++ before) round.query round.corpus round.iteration = .ok evs → ∀ ev ∈ evs,
    ∃ old ∈ W.gathered past before, old.textHash = ev.textHash
  versions : ∀ evs, W.retrieve (past ++ before) round.query round.corpus round.iteration = .ok evs → ∀ ev ∈ evs,
    ∃ old ∈ W.gathered past before, old.documentId = ev.documentId ∧ old.documentVersion = ev.documentVersion
  facts : ∀ coverage, W.judge (past ++ before ++ [round.retrieval]) round.question round.requiredFacts round.shown =
      .ok coverage → ∀ factId ∈ coverage.coveredFactIds,
    ∃ previous, W.lastVerdict past before = some (.ok previous) ∧ factId ∈ previous.coveredFactIds

/-- Among the calls there are two rounds without a gain, one after the other. -/
def TwoGainless (since : List ChatCall) : Prop :=
  ∃ before first second after, since = before ++ first.calls ++ second.calls ++ after ∧
    W.Gainless past before first ∧ W.Gainless past (before ++ first.calls) second

/-- Nothing is retrieved once two rounds in a row were without a gain. -/
def Orderly (since : List ChatCall) : Prop :=
  ∀ before call after, since = before ++ call :: after → call.retrieval?.isSome = true →
    ¬W.TwoGainless past before

variable {W past} {since : List ChatCall}

theorem gathered_append (later : List ChatCall) :
    W.gathered past (since ++ later) = W.gathered past since ++ W.gathered (past ++ since) later := by
  induction since generalizing past with
  | nil => simp [gathered]
  | cons call rest ih =>
    simp only [List.cons_append, gathered, ih, List.append_assoc, List.nil_append]

theorem gathered_retrieval {query : String} {corpus : CorpusConfig} {iteration : Int} {evs : List Evidence}
    (h : W.retrieve (past ++ since) query corpus iteration = .ok evs) :
    W.gathered past (since ++ [.retrieval query corpus iteration]) = W.gathered past since ++ evs := by
  simp [gathered_append, gathered, h, Except.toOption]

theorem gathered_other {call : ChatCall} (h : call.retrieval? = none) :
    W.gathered past (since ++ [call]) = W.gathered past since := by
  rw [gathered_append]
  cases call with
  | retrieval query corpus iteration => simp [ChatCall.retrieval?] at h
  | judgement query requiredFacts evidence => simp [gathered]
  | invocation messages => simp [gathered]

theorem orderly_nil : W.Orderly past [] := by
  intro before call after h
  simp at h

/-- One more call is in order unless it retrieves after two rounds without a gain. -/
theorem Orderly.snoc (h : W.Orderly past since) {call : ChatCall}
    (hcall : call.retrieval?.isSome = true → ¬W.TwoGainless past since) : W.Orderly past (since ++ [call]) := by
  intro before other after hsplit hother
  rcases List.eq_nil_or_concat after with rfl | ⟨init, last, rfl⟩
  · obtain ⟨rfl, hsame⟩ := List.append_inj' hsplit rfl
    obtain rfl := (List.cons.inj hsame).1
    exact hcall hother
  · have hinit : since ++ [call] = (before ++ other :: init) ++ [last] := by simpa using hsplit
    exact h before other init (List.append_inj' hinit rfl).1 hother

/-- Two rounds without a gain are there before the last call, or end with it. -/
theorem TwoGainless.of_snoc {call : ChatCall} (h : W.TwoGainless past (since ++ [call])) :
    W.TwoGainless past since ∨ ∃ before first second, since = before ++ first.calls ++ [second.retrieval] ∧
      call = second.judgement ∧ W.Gainless past before first ∧ W.Gainless past (before ++ first.calls) second := by
  obtain ⟨before, first, second, after, hsplit, hfirst, hsecond⟩ := h
  rcases List.eq_nil_or_concat after with rfl | ⟨init, last, rfl⟩
  · have hend : since ++ [call] = (before ++ first.calls ++ [second.retrieval]) ++ [second.judgement] := by
      simpa [RoundCalls.calls] using hsplit
    obtain ⟨hinit, hlast⟩ := List.append_inj' hend rfl
    exact .inr ⟨before, first, second, hinit, (List.cons.inj hlast).1, hfirst, hsecond⟩
  · have hinit : since ++ [call] = (before ++ first.calls ++ second.calls ++ init) ++ [last] := by
      simpa using hsplit
    exact .inl ⟨before, first, second, init, (List.append_inj' hinit rfl).1, hfirst, hsecond⟩

theorem not_twoGainless_nil : ¬W.TwoGainless past [] := by
  rintro ⟨before, first, second, after, hsplit, -⟩
  simp [RoundCalls.calls] at hsplit

/-- Only a verdict completes a round. -/
theorem not_twoGainless_snoc {call : ChatCall} (hcall : call.isJudgement = false)
    (h : ¬W.TwoGainless past since) : ¬W.TwoGainless past (since ++ [call]) := by
  intro hsnoc
  rcases hsnoc.of_snoc with hbefore | ⟨_, _, second, -, rfl, -⟩
  · exact h hbefore
  · simp [RoundCalls.judgement, ChatCall.isJudgement] at hcall

end ChatWorld

end AgenticRag
