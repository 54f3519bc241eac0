/-
The canvas document: records in the order in which they were inserted, the relations
between them, the commands that edit it and the errors they report.
-/
import OpenGpui.Canvas.Record

namespace OpenGpui.Canvas

structure CanvasRecordParentRelation where
  child : CanvasRecordId
  parent : CanvasRecordId
deriving DecidableEq

structure CanvasRecordGroupRelation where
  group : CanvasRecordId
  member : CanvasRecordId
deriving DecidableEq

structure CanvasRecordBindingRelation where
  id : BindingId
  kind : String
  source : CanvasRecordId
  target : CanvasRecordId
deriving DecidableEq

/-- `default_binding_kind`. -/
def defaultBindingKind : String := "binding"

def CanvasRecordBindingRelation.new (id : BindingId) (source target : CanvasRecordId) :
    CanvasRecordBindingRelation :=
  ⟨id, defaultBindingKind, source, target⟩

inductive CanvasRecordRelation where
  | parent (relation : CanvasRecordParentRelation)
  | group (relation : CanvasRecordGroupRelation)
  | binding (relation : CanvasRecordBindingRelation)
deriving DecidableEq

structure CanvasRecordRelations where
  parents : List CanvasRecordParentRelation
  groups : List CanvasRecordGroupRelation
  bindings : List CanvasRecordBindingRelation
deriving DecidableEq

namespace CanvasRecordRelations

def default : CanvasRecordRelations := ⟨[], [], []⟩

instance : Inhabited CanvasRecordRelations := ⟨default⟩

variable (relations : CanvasRecordRelations) (id : BindingId)

def binding : Option CanvasRecordBindingRelation :=
  relations.bindings.find? fun relation => relation.id == id

variable (child : CanvasRecordId)

def parentOf : Option CanvasRecordId :=
  (relations.parents.find? fun relation => relation.child == child).map (·.parent)

def childrenOf (parent : CanvasRecordId) : List CanvasRecordId :=
  (relations.parents.filter fun relation => relation.parent == parent).map (·.child)

def membersOf (group : CanvasRecordId) : List CanvasRecordId :=
  (relations.groups.filter fun relation => relation.group == group).map (·.member)

def groupsFor (member : CanvasRecordId) : List CanvasRecordId :=
  (relations.groups.filter fun relation => relation.member == member).map (·.group)

def containsGroupRelation (relation : CanvasRecordGroupRelation) : Bool :=
  relations.groups.any fun existing =>
    existing.group == relation.group && existing.member == relation.member

def containsRelation : CanvasRecordRelation → Bool
  | .parent relation => relations.parentOf relation.child == some relation.parent
  | .group relation => relations.containsGroupRelation relation
  | .binding relation => relations.binding relation.id == some relation

/-- Equality of the source: as many relations of each kind, and each of the left
ones found on the right. -/
def matchesRelations (relations other : CanvasRecordRelations) : Bool :=
  relations.parents.length == other.parents.length &&
  relations.groups.length == other.groups.length &&
  relations.bindings.length == other.bindings.length &&
  relations.parents.all (fun relation => other.containsRelation (.parent relation)) &&
  relations.groups.all (fun relation => other.containsRelation (.group relation)) &&
  relations.bindings.all (fun relation => other.containsRelation (.binding relation))

instance : BEq CanvasRecordRelations := ⟨matchesRelations⟩

/-- `set_parent`, whose returned previous parent no caller uses. -/
def setParent (child parent : CanvasRecordId) : CanvasRecordRelations :=
  if relations.parents.any fun relation => relation.child == child then
    { relations with
      parents := relations.parents.replaceF fun relation =>
        if relation.child == child then some ⟨relation.child, parent⟩ else none }
  else { relations with parents := relations.parents ++ [⟨child, parent⟩] }

/-- `clear_parent`: only the first parent of the child goes. -/
def clearParent : CanvasRecordRelations :=
  { relations with parents := relations.parents.eraseP fun relation => relation.child == child }

variable (group member : CanvasRecordId)

def addToGroup : CanvasRecordRelations :=
  if relations.groups.any fun relation => relation.group == group && relation.member == member then
    relations
  else { relations with groups := relations.groups ++ [⟨group, member⟩] }

def removeFromGroup : CanvasRecordRelations :=
  { relations with
    groups := relations.groups.eraseP fun relation =>
      relation.group == group && relation.member == member }

def setBinding (binding : CanvasRecordBindingRelation) : CanvasRecordRelations :=
  if relations.bindings.any fun relation => relation.id == binding.id then
    { relations with
      bindings := relations.bindings.replaceF fun relation =>
        if relation.id == binding.id then some binding else none }
  else { relations with bindings := relations.bindings ++ [binding] }

def removeBinding : CanvasRecordRelations :=
  { relations with bindings := relations.bindings.eraseP fun relation => relation.id == id }

/-- `prune_missing_records`: relations with an end that does not exist go. -/
def pruneMissingRecords (existing : List CanvasRecordId) : CanvasRecordRelations :=
  { parents := relations.parents.filter fun relation =>
      decide (relation.child ∈ existing) && decide (relation.parent ∈ existing)
    groups := relations.groups.filter fun relation =>
      decide (relation.group ∈ existing) && decide (relation.member ∈ existing)
    bindings := relations.bindings.filter fun relation =>
      decide (relation.source ∈ existing) && decide (relation.target ∈ existing) }

end CanvasRecordRelations

inductive CanvasRecordKind where
  | node
  | edge
  | shape
deriving DecidableEq

inductive CanvasSchemaError where
  | missingRequiredData (recordKind : CanvasRecordKind) (recordId : CanvasRecordId)
      (kind field : String)
  | invalidData (recordKind : CanvasRecordKind) (recordId : CanvasRecordId)
      (kind message : String)
deriving DecidableEq

inductive DocumentError where
  | unsupportedFormatVersion (expected found : UInt32)
  | duplicateNode (id : NodeId)
  | duplicateEdge (id : EdgeId)
  | duplicateShape (id : ShapeId)
  | missingNode (id : NodeId)
  | missingEdge (id : EdgeId)
  | missingShape (id : ShapeId)
  | missingHandle (nodeId : NodeId) (handleId : HandleId)
  | duplicateHandle (nodeId : NodeId) (handleId : HandleId)
  | nonConnectableHandle (nodeId : NodeId) (handleId : HandleId)
  | invalidSourceHandle (nodeId : NodeId) (handleId : HandleId)
  | invalidTargetHandle (nodeId : NodeId) (handleId : HandleId)
  | emptyEdgeRouteKind (id : EdgeId)
  | invalidEdgeInteractionWidth (id : EdgeId)
  | invalidEdgeRoutePoint (id : EdgeId)
  | missingRelationRecord (id : CanvasRecordId)
  | selfParentRelation (id : CanvasRecordId)
  | cyclicRecordRelation (id : CanvasRecordId)
  | duplicateParentRelation (id : CanvasRecordId)
  | duplicateGroupRelation (group member : CanvasRecordId)
  | duplicateBindingRelation (id : BindingId)
  | selfBindingRelation (id : CanvasRecordId)
  | schema (error : CanvasSchemaError)
deriving DecidableEq

inductive DocumentCommand where
  | insertNode (node : CanvasNode)
  | updateNode (node : CanvasNode)
  | removeNode (id : NodeId)
  | insertEdge (edge : CanvasEdge)
  | updateEdge (edge : CanvasEdge)
  | removeEdge (id : EdgeId)
  | insertShape (shape : CanvasShape)
  | updateShape (shape : CanvasShape)
  | removeShape (id : ShapeId)
  | setRecordParent (child parent : CanvasRecordId)
  | clearRecordParent (child : CanvasRecordId)
  | addRecordToGroup (group member : CanvasRecordId)
  | removeRecordFromGroup (group member : CanvasRecordId)
  | setRecordBinding (binding : CanvasRecordBindingRelation)
  | removeRecordBinding (id : BindingId)
deriving BEq

structure CanvasTransaction where
  commands : List DocumentCommand
  metadata : CanvasValue
deriving BEq

namespace CanvasTransaction

def new (commands : List DocumentCommand) : CanvasTransaction := ⟨commands, .empty⟩

def single (command : DocumentCommand) : CanvasTransaction := new [command]

end CanvasTransaction

/-- Ids in the order in which they were recorded, each once. -/
structure CanvasDocumentDiff where
  inserted : List CanvasRecordId
  updated : List CanvasRecordId
  removed : List CanvasRecordId
  metadataChanged : Bool
  relationsChanged : Bool
deriving DecidableEq

namespace CanvasDocumentDiff

def default : CanvasDocumentDiff := ⟨[], [], [], false, false⟩

def isEmpty (diff : CanvasDocumentDiff) : Bool :=
  diff.inserted.isEmpty && diff.updated.isEmpty && diff.removed.isEmpty &&
    !diff.metadataChanged && !diff.relationsChanged

/-- `IndexSet::insert`. -/
def insertId (ids : List CanvasRecordId) (id : CanvasRecordId) : List CanvasRecordId :=
  if id ∈ ids then ids else ids ++ [id]

variable (diff : CanvasDocumentDiff) (id : CanvasRecordId)

def recordInsert : CanvasDocumentDiff :=
  if id ∈ diff.removed then
    { diff with removed := diff.removed.erase id, updated := insertId diff.updated id }
  else { diff with inserted := insertId diff.inserted id }

def recordUpdate : CanvasDocumentDiff :=
  if id ∉ diff.inserted ∧ id ∉ diff.removed then
    { diff with updated := insertId diff.updated id }
  else diff

def recordRemove : CanvasDocumentDiff :=
  if id ∈ diff.inserted then
    { diff with inserted := diff.inserted.erase id, updated := diff.updated.erase id }
  else
    { diff with updated := diff.updated.erase id, removed := insertId diff.removed id }

end CanvasDocumentDiff

def CANVAS_DOCUMENT_FORMAT_VERSION : UInt32 := 1

structure CanvasDocument where
  formatVersion : UInt32
  nodes : IndexMap NodeId CanvasNode
  edges : IndexMap EdgeId CanvasEdge
  shapes : IndexMap ShapeId CanvasShape
  metadata : CanvasValue
  relations : CanvasRecordRelations
deriving BEq

namespace CanvasDocument

def default : CanvasDocument :=
  ⟨CANVAS_DOCUMENT_FORMAT_VERSION, .empty, .empty, .empty, .empty, .default⟩

instance : Inhabited CanvasDocument := ⟨default⟩

variable (document : CanvasDocument)

def containsRecord : CanvasRecordId → Bool
  | .node id => document.nodes.containsKey id
  | .edge id => document.edges.containsKey id
  | .shape id => document.shapes.containsKey id

/-- `record_id_set`. -/
def recordIdSet : List CanvasRecordId :=
  document.nodes.keys.map .node ++ document.edges.keys.map .edge ++ document.shapes.keys.map .shape

theorem mem_recordIdSet_iff (id : CanvasRecordId) :
    id ∈ document.recordIdSet ↔ document.containsRecord id = true := by
  cases id <;> simp [recordIdSet, containsRecord, IndexMap.mem_keys_iff]

/-- One pass of `diff_against` over the records of one kind: ids that are gone,
then the new and the changed ones in the order of the later document. -/
def diffRecords {ν : Type} [BEq ν] (tag : String → CanvasRecordId)
    (current previous : IndexMap String ν) (diff : CanvasDocumentDiff) : CanvasDocumentDiff :=
  let diff := previous.keys.foldl
    (fun diff id => if current.containsKey id then diff else diff.recordRemove (tag id)) diff
  current.entries.foldl (fun diff entry =>
      match previous.get entry.1 with
      | none => diff.recordInsert (tag entry.1)
      | some old => if old == entry.2 then diff else diff.recordUpdate (tag entry.1)) diff

def diffAgainst (document previous : CanvasDocument) : CanvasDocumentDiff :=
  let diff := diffRecords .node document.nodes previous.nodes .default
  let diff := diffRecords .edge document.edges previous.edges diff
  let diff := diffRecords .shape document.shapes previous.shapes diff
  { diff with
    metadataChanged := document.metadata != previous.metadata
    relationsChanged := document.relations != previous.relations }

end CanvasDocument

end OpenGpui.Canvas
