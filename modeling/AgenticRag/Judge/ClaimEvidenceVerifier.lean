import AgenticRag.Answer.Envelope

/-!
# The comparison of claims with their evidence

`judge/claim_evidence_verifier.py` and the tokens of `judge/deterministic_coverage_judge.py`.
A token is a run of word characters that starts with a letter or a digit.
-/

namespace AgenticRag

/-- `lower()` of a character, as far as the token pattern sees the result. -/
def lowerChar (c : Char) : List Char :=
  if c = '\u0130' then ['i', '\u0307'] else if c = '\u212a' then ['k'] else [c.toLower]

def isWordChar (c : Char) : Bool :=
  (decide ('a' ≤ c) && decide (c ≤ 'z')) || (decide ('0' ≤ c) && decide (c ≤ '9')) || decide (c = '_')

/-- A run of at least two characters is a token. -/
def emitToken (pending : List Char) : List String :=
  if 2 ≤ pending.length then [String.ofList pending] else []

/-- The tokens of a text that goes on after the characters of a pending one. -/
def scanTokens (pending : List Char) : List Char → List String
  | [] => emitToken pending
  | c :: rest =>
    if isWordChar c ∧ (pending ≠ [] ∨ c ≠ '_') then scanTokens (pending ++ [c]) rest
    else emitToken pending ++ scanTokens [] rest

/-- `_TOKEN_RE.findall(text.lower())`. -/
def findTokens (text : String) : List String := scanTokens [] (text.toList.flatMap lowerChar)

def stopwords : List String :=
  ["the", "and", "for", "with", "that", "this", "from", "are", "was", "were", "have", "has", "been",
    "will", "can", "should", "would", "which", "what", "when", "where", "who", "why", "how", "into",
    "than", "then", "they", "their", "such", "also", "each", "more", "most", "some", "used", "using",
    "via", "per", "does", "doesn", "not"]

def negations : List String :=
  ["not", "no", "never", "cannot", "cant", "without", "false", "incorrect", "wrong", "denied",
    "rejected", "isn", "wasn", "weren", "doesn", "don"]

def tokenize (text : String) : List String :=
  (findTokens text).filter fun token => decide (3 ≤ token.length ∧ token ∉ stopwords)

namespace DeterministicClaimEvidenceVerifier

/-- `_has_negation_near`: a negation with a matched token at most three tokens away. -/
def hasNegationNear (text : String) (matched : List String) : Bool :=
  let tokens := findTokens text
  tokens.zipIdx.any fun (token, i) =>
    decide (token ∈ negations) &&
      ((tokens.take (i + 4)).drop (i - 3)).any fun near => decide (near ∈ matched)

/-- The tokens that a claim shares with a cited snapshot; of several snapshots with one id the last
one counts. -/
def matchedTokens (claimTokens : List String) (evidence : List Evidence) (evidenceId : String) :
    Option (Evidence × List String) :=
  (evidence.reverse.find? fun ev => decide (ev.evidenceId = evidenceId)).map fun ev =>
    (ev, claimTokens.filter fun token => decide (token ∈ tokenize ev.text))

def check (claim : Claim) (evidence : List Evidence) : ClaimSupport :=
  let claimTokens := (tokenize claim.text).eraseDups
  if claimTokens = [] then .unsupported
  else
    let cited := (claim.evidenceIds.filterMap (matchedTokens claimTokens evidence)).filter
      fun (_, matched) => decide (matched ≠ [])
    let bestMatched := (cited.map fun (_, matched) => matched.length).foldr max 0
    if cited.any fun (ev, matched) => hasNegationNear ev.text matched then .contradicted
    else if max 1 (claimTokens.length / 2) ≤ bestMatched then .entailed
    else if 0 < bestMatched then .partiallyEntailed
    else .unsupported

def verify (claims : List Claim) (evidence : List Evidence) : ClaimVerificationResult :=
  verifyAgainstEvidence check claims evidence

end DeterministicClaimEvidenceVerifier

example : tokenize "The _office isn't in New_York; x is" = ["office", "isn", "new_york"] := by decide +kernel

end AgenticRag
