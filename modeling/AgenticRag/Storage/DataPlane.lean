import AgenticRag.Foundations.Table
import AgenticRag.Storage.MetadataStore

/-!
# The data planes

`storage/vector_store.py` and `storage/parent_store.py`: Qdrant collections of
points and the Parent Store. Both are rebuildable and hold no lifecycle
authority; they authorize nothing. Vectors, encoders and the ranking of a search
are left out, so a point is its id and its payload. A call on a collection that
does not exist raises, as the Qdrant client does.
-/

namespace AgenticRag

/-- The payload `child_chunk_to_point` and `_chunk_row_to_point` write. -/
structure PointPayload where
  ref : VersionRef
  parentId : Option String
  chunkId : String
  text : String
  sectionPath : List String
  status : PayloadStatus
  deprecated : Bool
  acl : AclFields
  deriving DecidableEq, Repr

structure Point where
  id : String
  payload : PointPayload
  deriving DecidableEq, Repr

/-- What retrieval requires of a payload: status `active` and not deprecated. -/
def PointPayload.Visible (payload : PointPayload) : Prop :=
  payload.status = .active ∧ payload.deprecated = false

instance (payload : PointPayload) : Decidable payload.Visible :=
  inferInstanceAs (Decidable (_ ∧ _))

/-- The same of a stored parent. -/
def ParentChunk.Visible (parent : ParentChunk) : Prop :=
  parent.metadata.status = .active ∧ parent.metadata.deprecated = false

instance (parent : ParentChunk) : Decidable parent.Visible :=
  inferInstanceAs (Decidable (_ ∧ _))

/-- The payload fields a `set_payload` call patches: the lifecycle fields, or the
six access fields of an ACL tightening. -/
inductive PayloadPatch where
  | lifecycle (status : PayloadStatus) (deprecated : Bool)
  | access (acl : AclFields)
  deriving DecidableEq, Repr

def PayloadPatch.apply : PayloadPatch → PointPayload → PointPayload
  | .lifecycle status deprecated, payload => { payload with status, deprecated }
  | .access acl, payload => { payload with acl }

/-- The collections present in Qdrant, by name. -/
abbrev VectorStore := String → Option (List Point)

/-- A point replaces the one with its id, or is added. -/
def upsertPoint (points : List Point) (point : Point) : List Point :=
  if points.any (fun old => decide (old.id = point.id)) then
    Table.update (fun old => decide (old.id = point.id)) (fun _ => point) points
  else
    Table.insert point points

namespace VectorStore

/-- A write to a collection that must exist. -/
def modifyCollection (name : String) (f : List Point → List Point) :
    Routine VectorStore PyError Unit := fun vectors =>
  match vectors name with
  | some points => (.ok (), Function.update vectors name (some (f points)))
  | none => (.error (.collectionNotFound name), vectors)

/-- `upsert`; an empty batch is not sent. -/
def upsert (name : String) (batch : List Point) : Routine VectorStore PyError Unit :=
  if batch.isEmpty then pure ()
  else modifyCollection name fun points => batch.foldl upsertPoint points

def delete (name : String) (pointIds : List String) : Routine VectorStore PyError Unit :=
  if pointIds.isEmpty then pure ()
  else modifyCollection name (Table.delete fun point => decide (point.id ∈ pointIds))

/-- `update_payload`: the vectors stay. -/
def updatePayload (name : String) (pointIds : List String) (patch : PayloadPatch) :
    Routine VectorStore PyError Unit :=
  if pointIds.isEmpty then pure ()
  else modifyCollection name
    (Table.update (fun point => decide (point.id ∈ pointIds))
      fun point => { point with payload := patch.apply point.payload })

def createCollection (name : String) : Routine VectorStore PyError Unit := fun vectors =>
  match vectors name with
  | some _ => (.ok (), vectors)
  | none => (.ok (), Function.update vectors name (some []))

def scrollAll (vectors : VectorStore) (name : String) : Except PyError (List Point) :=
  match vectors name with
  | some points => .ok points
  | none => .error (.collectionNotFound name)

def listPointIdsByDocument (vectors : VectorStore) (name : String) (ref : VersionRef) :
    Except PyError (List String) :=
  (vectors.scrollAll name).map fun points =>
    (points.filter fun point => decide (point.payload.ref = ref)).map (·.id)

/-- `retrieve` of the client: the stored points with the given ids. -/
def retrieve (vectors : VectorStore) (name : String) (pointIds : List String) :
    Except PyError (List Point) :=
  (vectors.scrollAll name).map fun points =>
    points.filter fun point => decide (point.id ∈ pointIds)

end VectorStore

/-- The stored parents, in insertion order, keyed by `parent_id`. -/
abbrev ParentStore := List ParentChunk

namespace ParentStore

def ofVersion (ref : VersionRef) (chunk : ParentChunk) : Bool :=
  decide (chunk.ref = ref)

def hasId (parentId : String) (chunk : ParentChunk) : Bool :=
  decide (chunk.parentId = parentId)

def put (chunk : ParentChunk) (parents : ParentStore) : ParentStore :=
  if parents.any (hasId chunk.parentId) then
    Table.update (hasId chunk.parentId) (fun _ => chunk) parents
  else
    Table.insert chunk parents

def get (parents : ParentStore) (parentId : String) : Option ParentChunk :=
  Table.selectOne (hasId parentId) parents

def delete (parentId : String) (parents : ParentStore) : ParentStore :=
  Table.delete (hasId parentId) parents

/-- `metadata["status"]` and `metadata["deprecated"]` rewritten. -/
def setLifecycle (status : PayloadStatus) (deprecated : Bool) (chunk : ParentChunk) :
    ParentChunk :=
  { chunk with metadata := { chunk.metadata with status, deprecated } }

/-- `deprecate`. -/
def deprecateParent (parentId : String) (parents : ParentStore) : ParentStore :=
  Table.update (hasId parentId) (setLifecycle .inactive true) parents

/-- `activate_document`: every parent of one version. -/
def activateDocument (ref : VersionRef) (parents : ParentStore) : ParentStore :=
  Table.update (ofVersion ref) (setLifecycle .active false) parents

def deprecateDocument (ref : VersionRef) (parents : ParentStore) : ParentStore :=
  Table.update (ofVersion ref) (setLifecycle .inactive true) parents

def deleteDocument (ref : VersionRef) (parents : ParentStore) : ParentStore :=
  Table.delete (ofVersion ref) parents

def updateAclDocument (ref : VersionRef) (acl : AclFields) (parents : ParentStore) : ParentStore :=
  Table.update (ofVersion ref)
    (fun chunk => { chunk with metadata := { chunk.metadata with acl } }) parents

def listParentIds (parents : ParentStore) (ref : VersionRef) : List String :=
  (Table.select (ofVersion ref) parents).map (·.parentId)

end ParentStore

end AgenticRag
