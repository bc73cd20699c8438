import AgenticRag.Answer.Builder

/-!
# The chat service

What the paths of `services/chat_service.py` share: the conflict stage, the prompt and the
claim extraction. The parsing of the temporal scope, the conflict resolver, the fact
extractor and the comparison of claim and evidence texts are functions of their inputs and
are not looked into here.
-/

namespace AgenticRag

/-- The functions over texts that the service relies on. -/
structure ChatTexts where
  parseTemporalScope : String → TemporalScope
  resolveConflicts : List Evidence → TemporalScope → String → ConflictReport
  normalizeTopicKey : String → String
  extractFacts : String → List Judge.RequiredFact
  checkClaim : Claim → List Evidence → ClaimSupport

structure ClaimExtraction where
  draftAnswer : String
  claims : List Claim
  deriving DecidableEq, Repr

structure Message where
  role : String
  content : String
  deriving DecidableEq, Repr

def systemPrompt : String :=
  "You are a grounded answer extractor for an enterprise RAG system. " ++
  "You are given a user question and the authorized evidence retrieved for it. " ++
  "Extract atomic, verifiable claims. Each claim MUST cite one or more " ++
  "evidence_id values that appear in the provided evidence. Do not invent " ++
  "evidence ids, and do not add facts that are not supported by the evidence. " ++
  "Output a short draft answer and the list of claims."

def evidenceBlock (evidence : List Evidence) : String :=
  String.intercalate "\n\n" (evidence.map fun ev =>
    "[" ++ ev.evidenceId ++ "] " ++
      String.intercalate " / " ((ev.corpusId :: ev.documentId :: ev.sectionPath).filter fun part =>
        decide (part ≠ "")) ++
      ((ev.pageNumber.map fun page => " p." ++ toString page).getD "") ++ "\n" ++ ev.text)

/-- The lines about the conflicting sources. -/
def conflictLines (report : ConflictReport) : List String :=
  (report.findings.filter fun finding => !finding.resolvable).flatMap fun finding =>
    finding.sources.map fun src =>
      "- evidence " ++ src.evidenceId ++ " (doc " ++ src.documentId ++ " v" ++ src.documentVersion ++
        ", " ++ src.window ++ ")"

def buildMessages (query : String) (evidence : List Evidence) (conflictReport : Option ConflictReport) :
    List Message :=
  let lines := ((conflictReport.filter fun report =>
    decide (report.conflictStatus = .contradicted)).map conflictLines).getD []
  [⟨"system", systemPrompt⟩,
    ⟨"user", "Question:\n" ++ query ++ "\n\nAuthorized evidence:\n" ++ evidenceBlock evidence ++
      if lines = [] then ""
      else "\n\nCONFLICT DETECTED — the evidence contradicts itself. Present BOTH " ++
        "conflicting sources with their applicable effective times and cite BOTH " ++
        "evidence ids. Do NOT pick a single answer.\n" ++ String.intercalate "\n" lines⟩]

section ConflictStage

variable (texts : ChatTexts)

/-- `_run_conflict_stage` at a time: the report and the evidence it keeps. -/
def runConflictStage (now : Datetime) (query : String) (scope : TemporalScope) (evidence : List Evidence) :
    ConflictReport × List Evidence :=
  let retained := filterByTemporalScope now evidence scope
  let report := texts.resolveConflicts retained scope (texts.normalizeTopicKey query)
  (report, retained.filter fun ev => decide (ev.evidenceId ∈ report.resolvedEvidenceIds))

/-- The stage keeps a part of its evidence. -/
theorem runConflictStage_sublist (now : Datetime) (query : String) (scope : TemporalScope)
    (evidence : List Evidence) : (runConflictStage texts now query scope evidence).2.Sublist evidence :=
  List.filter_sublist.trans (filterByTemporalScope_sublist now evidence scope)

/-- The coverage that a contradiction forces. -/
def contradictedOnly (report : ConflictReport) : Option SufficiencyResult :=
  if report.conflictStatus = .contradicted then some .contradictedCoverage else none

end ConflictStage

end AgenticRag
