import AgenticRag.Security.AccessFilter
import AgenticRag.Storage.MetadataStore

/-!
# Secure retrieval

`retrieval/retriever.py`, `retrieval/hybrid.py` and `retrieval/parent_reader.py`: the
corpus gate, the filtered search for child points, the active-version gate and the
second authorization of the parent. Point payloads and parent metadata are untrusted
JSON. The query, the encoders and the ranking belong to the search, which is a
parameter; the stores may change from one hit to the next.
-/

namespace AgenticRag

section PythonText

/-- `str(value)`. -/
def Atom.text : Atom → String
  | .null => "None"
  | .bool true => "True"
  | .bool false => "False"
  | .int value => toString value
  | .str text => text
  | .nested text _ => text

/-- `repr(value)`; a string is quoted as it stands. -/
def Atom.quoted : Atom → String
  | .str text => "'" ++ text ++ "'"
  | item => item.text

def Json.text : Json → String
  | .atom item => item.text
  | .list items => "[" ++ String.intercalate ", " (items.map Atom.quoted) ++ "]"

/-- `bool(value)`. -/
def Json.truthy : Json → Bool
  | .atom .null => false
  | .atom (.bool value) => value
  | .atom (.int value) => decide (value ≠ 0)
  | .atom (.str text) => decide (text ≠ "")
  | .atom (.nested _ truthy) => truthy
  | .list items => !items.isEmpty

/-- `str(payload.get(key, default))`. -/
def Payload.text (payload : Payload) (key default : String) : String :=
  ((payload key).map Json.text).getD default

def asList : Option Json → List String
  | none => []
  | some (.atom .null) => []
  | some (.list items) => items.map Atom.text
  | some (.atom item) => [item.text]

end PythonText

/-- Go on if the condition holds, and raise otherwise. -/
def require {ε : Type} (condition : Prop) [Decidable condition] (e : ε) : Except ε Unit :=
  if condition then .ok () else .error e

theorem require_ok {ε : Type} {condition : Prop} [Decidable condition] {e : ε} {u : Unit} :
    require condition e = .ok u ↔ condition := by
  unfold require
  split
  · rename_i h
    exact iff_of_true rfl h
  · rename_i h
    exact iff_of_false (by simp) h

theorem except_bind_ok {ε α β : Type} {m : Except ε α} {f : α → Except ε β} {b : β} :
    (m >>= f) = .ok b ↔ ∃ a, m = .ok a ∧ f a = .ok b := by
  cases m with
  | ok a =>
    constructor
    · intro h
      exact ⟨a, rfl, h⟩
    · rintro ⟨a', ha, h⟩
      rw [Except.ok.inj ha]
      exact h
  | error e =>
    constructor
    · intro h
      exact absurd h (by simp [bind, Except.bind])
    · rintro ⟨a', ha, -⟩
      simp at ha

theorem require_bind_ok {ε β : Type} {condition : Prop} [Decidable condition] {e : ε}
    {f : Unit → Except ε β} {b : β} :
    (require condition e >>= f) = .ok b ↔ condition ∧ f () = .ok b := by
  rw [except_bind_ok]
  constructor
  · rintro ⟨u, hu, h⟩
    exact ⟨require_ok.mp hu, h⟩
  · rintro ⟨hc, h⟩
    exact ⟨(), require_ok.mpr hc, h⟩

/-- `CorpusConfig`, as far as retrieval reads it. -/
structure CorpusConfig where
  corpusId : String
  tenantId : String
  vectorCollection : Option String
  enabled : Bool
  searchable : Bool
  deriving DecidableEq, Repr

structure RetrievalHit where
  chunkId : String
  parentId : String
  ref : VersionRef
  text : String
  score : Rat
  sectionPath : List String
  status : String
  deprecated : Bool
  acl : AclFields
  deriving DecidableEq

/-- A parent as the Parent Store holds it, its metadata unchecked. -/
structure RawParent extends ParentDraft where
  metadata : Payload

structure AuthorizedParent extends ParentDraft where
  metadata : Payload
  status : String
  deprecated : Bool
  acl : AclFields

/-- `ParentAuthorizationError`. -/
structure ParentDenied where
  code : String
  reason : String
  parentId : String
  deriving DecidableEq, Repr

namespace ParentReader

def notFound (reason parentId : String) : ParentDenied := ⟨"PARENT_NOT_FOUND", reason, parentId⟩

def notAuthorized (reason parentId : String) : ParentDenied :=
  ⟨"PARENT_NOT_AUTHORIZED", reason, parentId⟩

def deleted (reason parentId : String) : ParentDenied := ⟨"DOCUMENT_DELETED", reason, parentId⟩

def versionMismatch (reason parentId : String) : ParentDenied :=
  ⟨"VERSION_MISMATCH", reason, parentId⟩

/-- `_REQUIRED_PARENT_AUTH_FIELDS`, sorted. -/
def requiredParentAuthFields : List String :=
  ["acl_scope", "allowed_group_ids", "allowed_user_ids", "denied_group_ids", "denied_user_ids",
    "deprecated", "security_level", "status"]

def principalFields : List String :=
  ["allowed_user_ids", "allowed_group_ids", "denied_user_ids", "denied_group_ids"]

def isString : Json → Bool
  | .str _ => true
  | _ => false

def isBool : Json → Bool
  | .bool _ => true
  | _ => false

def isAclScope (value : Json) : Bool := decide (value = .str "tenant" ∨ value = .str "restricted")

def isStringList : Json → Bool
  | .list items => items.all fun item => isString (.atom item)
  | _ => false

/-- `for key in (…)`: each list of principals is a list of strings. -/
def checkPrincipals (md : Payload) (parentId : String) : List String → Except ParentDenied Unit
  | [] => .ok ()
  | key :: keys => do
    require ((md key).any isStringList = true)
      (notAuthorized ("parent " ++ key ++ " must be a list of strings") parentId)
    checkPrincipals md parentId keys

def validateParentAuthMetadata (md : Payload) (parentId : String) : Except ParentDenied Unit := do
  let missing := requiredParentAuthFields.filter fun key => (md key).isNone
  require (missing = [])
    (notAuthorized ("required authorization metadata missing: " ++
      Json.text (.strings missing)) parentId)
  require ((md "status").any isString = true)
    (notAuthorized "parent status must be a string" parentId)
  require ((md "deprecated").any isBool = true)
    (notAuthorized "parent deprecated must be a boolean" parentId)
  require ((md "acl_scope").any isAclScope = true)
    (notAuthorized "parent acl_scope must be tenant|restricted" parentId)
  checkPrincipals md parentId principalFields

/-- Child and parent must agree on the resource. -/
def checkIdentity (parent : RawParent) (hit : RetrievalHit) (ctx : SecurityContext) :
    Except ParentDenied Unit := do
  require (hit.ref.doc.tenantId = parent.ref.doc.tenantId)
    (notAuthorized "child/parent tenant mismatch" hit.parentId)
  require (parent.ref.doc.tenantId = ctx.tenantId) (notAuthorized "tenant mismatch" hit.parentId)
  require (parent.ref.doc.corpusId = hit.ref.doc.corpusId)
    (notAuthorized "corpus mismatch" hit.parentId)
  require (parent.ref.doc.documentId = hit.ref.doc.documentId)
    (notAuthorized "document identity mismatch" hit.parentId)
  require (parent.ref.version = hit.ref.version)
    (versionMismatch "document version mismatch" hit.parentId)

def aclScopeText : AclScope → String
  | .tenant => "tenant"
  | .restricted => "restricted"

def hitAclRecord (acl : AclFields) : Payload
  | "security_level" => some (.str acl.securityLevel)
  | "acl_scope" => some (.str (aclScopeText acl.aclScope))
  | "allowed_user_ids" => some (.strings acl.allowedUserIds)
  | "allowed_group_ids" => some (.strings acl.allowedGroupIds)
  | "denied_user_ids" => some (.strings acl.deniedUserIds)
  | "denied_group_ids" => some (.strings acl.deniedGroupIds)
  | _ => none

def aclKeys : List String := "security_level" :: "acl_scope" :: principalFields

def recordAclEqual (first second : Payload) : Bool :=
  aclKeys.all fun key => decide (first key = second key)

/-- `[str(v) for v in (value or [])]` of a value that was checked to be a list. -/
def listTexts : Option Json → List String
  | some (.list items) => items.map Atom.text
  | _ => []

/-- The access fields of a checked record, as `_acl_from_record` reads them. -/
def aclFromRecord (record : Payload) : AclFields where
  securityLevel := record.text "security_level" "public"
  aclScope := asAclScope ((record "acl_scope").getD (.str "restricted"))
  allowedUserIds := listTexts (record "allowed_user_ids")
  allowedGroupIds := listTexts (record "allowed_group_ids")
  deniedUserIds := listTexts (record "denied_user_ids")
  deniedGroupIds := listTexts (record "denied_group_ids")

/-- The checks of `load_parent_for_hit` on a stored parent. -/
def authorizeParent (parent : RawParent) (hit : RetrievalHit) (ctx : SecurityContext) :
    Except ParentDenied AuthorizedParent := do
  checkIdentity parent hit ctx
  let md := parent.metadata
  validateParentAuthMetadata md hit.parentId
  let status := md.text "status" ""
  let deprecated := ((md "deprecated").map Json.truthy).getD false
  require (status = "active" ∧ deprecated = false)
    (deleted ("parent lifecycle invalid (status=" ++ status ++ ", deprecated=" ++
      Json.text (.bool deprecated) ++ ")") hit.parentId)
  require (recordAclEqual md (hitAclRecord hit.acl) = true)
    (notAuthorized "parent/child ACL mismatch" hit.parentId)
  let acl := aclFromRecord md
  require (resourcePassesFilter ctx { acl with tenantId := parent.ref.doc.tenantId } status deprecated
      = true)
    (notAuthorized "resource_passes_filter denied" hit.parentId)
  pure { parent with status, deprecated, acl }

def loadParentForHit (parents : String → Option RawParent) (hit : RetrievalHit)
    (ctx : SecurityContext) : Except ParentDenied AuthorizedParent :=
  match parents hit.parentId with
  | none => .error (notFound "parent id absent from store (guessed or untrusted id?)" hit.parentId)
  | some parent => authorizeParent parent hit ctx

end ParentReader

/-- A point a search returns. -/
structure ScoredPoint where
  payload : Payload
  score : Rat

/-- What a hit is checked against. -/
structure RetrievalStores where
  metadata : MetadataStore
  parents : String → Option RawParent

/-- `RetrievalResult`; `deniedReasons` counts the denials of each code. -/
structure RetrievalResult where
  hits : List (RetrievalHit × AuthorizedParent)
  deniedParentCount : Nat
  deniedReasons : String → Nat

def RetrievalResult.empty : RetrievalResult :=
  { hits := [], deniedParentCount := 0, deniedReasons := fun _ => 0 }

/-- The exceptions of the hybrid search. -/
inductive SearchError where
  | emptyAuthorizationScope (e : EmptyAuthorizationScope)
  | backend (e : PyError)
  deriving DecidableEq, Repr

/-- The vector store's `search` of a collection under a filter, and the two
`_default_top_k` of retriever and hybrid adapter. -/
structure SecureRetriever where
  search : String → Filter Condition → Nat → Except PyError (List ScoredPoint)
  defaultTopK : Nat
  hybridTopK : Nat

namespace SecureRetriever

def toHit (point : ScoredPoint) : RetrievalHit where
  chunkId := point.payload.text "chunk_id" ""
  parentId := point.payload.text "parent_id" ""
  ref :=
    { doc :=
        { tenantId := point.payload.text "tenant_id" ""
          corpusId := point.payload.text "corpus_id" ""
          documentId := point.payload.text "document_id" "" }
      version := point.payload.text "document_version" "" }
  text := point.payload.text "text" ""
  score := point.score
  sectionPath := asList (point.payload "section_path")
  status := point.payload.text "status" "active"
  deprecated := ((point.payload "deprecated").map Json.truthy).getD false
  acl :=
    { securityLevel := point.payload.text "security_level" "public"
      aclScope := asAclScope ((point.payload "acl_scope").getD (.str "restricted"))
      allowedUserIds := asList (point.payload "allowed_user_ids")
      allowedGroupIds := asList (point.payload "allowed_group_ids")
      deniedUserIds := asList (point.payload "denied_user_ids")
      deniedGroupIds := asList (point.payload "denied_group_ids") }

/-- `corpus.vector_collection or corpus.corpus_id`. -/
def collectionOf (corpus : CorpusConfig) : String :=
  match corpus.vectorCollection with
  | some name => if name = "" then corpus.corpusId else name
  | none => corpus.corpusId

variable (retriever : SecureRetriever)

/-- `_HybridSearchAdapter.search`. -/
def hybridSearch (ctx : SecurityContext) (corpus : CorpusConfig) (topK : Nat) :
    Except SearchError (List RetrievalHit) :=
  match buildAccessFilter ctx corpus.corpusId with
  | .error e => .error (.emptyAuthorizationScope e)
  | .ok filter =>
    match retriever.search (collectionOf corpus) filter
        (if topK = 0 then retriever.hybridTopK else topK) with
    | .error e => .error (.backend e)
    | .ok found => .ok (found.map toHit)

def validateCorpus (ctx : SecurityContext) (corpus : CorpusConfig) : Except String Unit := do
  require (corpus.tenantId = ctx.tenantId)
    ("corpus " ++ corpus.corpusId ++ " belongs to tenant " ++ corpus.tenantId ++ ", not " ++
      ctx.tenantId)
  require (corpus.enabled = true) ("corpus " ++ corpus.corpusId ++ " is disabled")
  require (corpus.searchable = true) ("corpus " ++ corpus.corpusId ++ " is not searchable")
  require (canDiscoverCorpus ctx corpus.corpusId = true)
    ("corpus " ++ corpus.corpusId ++ " is not discoverable for this context")

/-- One hit of the loop: the active-version gate, then the parent. -/
def checkHit (ctx : SecurityContext) (stores : RetrievalStores) (hit : RetrievalHit)
    (result : RetrievalResult) : RetrievalResult :=
  if stores.metadata.getActiveVersion hit.ref.doc ≠ some hit.ref.version then
    result
  else
    match ParentReader.loadParentForHit stores.parents hit ctx with
    | .ok parent => { result with hits := result.hits ++ [(hit, parent)] }
    | .error denied =>
      { result with
        deniedParentCount := result.deniedParentCount + 1
        deniedReasons := Function.update result.deniedReasons denied.code
          (result.deniedReasons denied.code + 1) }

/-- `for hit in child_hits`; `seen i` are the stores when hit `i` is checked. -/
def checkHits (ctx : SecurityContext) (seen : Nat → RetrievalStores) :
    Nat → List RetrievalHit → RetrievalResult → RetrievalResult
  | _, [], result => result
  | i, hit :: hits, result => checkHits ctx seen (i + 1) hits (checkHit ctx (seen i) hit result)

def retrieve (seen : Nat → RetrievalStores) (ctx : SecurityContext) (corpus : CorpusConfig)
    (topK : Option Nat) : Except PyError RetrievalResult :=
  match validateCorpus ctx corpus with
  | .error _ => .ok .empty
  | .ok () =>
    match hybridSearch retriever ctx corpus (topK.getD retriever.defaultTopK) with
    | .error (.emptyAuthorizationScope _) => .ok .empty
    | .error (.backend e) => .error e
    | .ok childHits => .ok (checkHits ctx seen 0 childHits .empty)

end SecureRetriever

end AgenticRag
