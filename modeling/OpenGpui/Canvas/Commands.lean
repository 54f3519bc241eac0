/-
The rules of the document commands and the commands that take them back.  Each
rule checks what the record it stores needs at that moment; relations left without
a record are pruned only at the end of a transaction.
-/
import OpenGpui.Canvas.Validation

namespace OpenGpui.Canvas.CanvasDocument

variable (document : CanvasDocument) (node : CanvasNode)

def insertNodeRule : Except DocumentError CanvasDocument :=
  if document.nodes.containsKey node.id then .error (.duplicateNode node.id)
  else do
    validateNode node
    return { document with nodes := document.nodes.insert node.id node }

/-- A replaced node may lose handles, so the whole draft is checked again. -/
def updateNodeRule : Except DocumentError CanvasDocument :=
  if !document.nodes.containsKey node.id then .error (.missingNode node.id)
  else do
    validateNode node
    let draft := { document with nodes := document.nodes.insert node.id node }
    draft.validateIntegrity
    return draft

def removeNodeRule (id : NodeId) : Except DocumentError (CanvasNode × CanvasDocument) :=
  match document.nodes.shiftRemove id with
  | none => .error (.missingNode id)
  | some (node, nodes) =>
    let edges := document.edges.retain fun _ edge =>
      edge.source.nodeId != id && edge.target.nodeId != id
    .ok (node, { document with nodes, edges })

variable (edge : CanvasEdge)

def insertEdgeRule : Except DocumentError CanvasDocument :=
  if document.edges.containsKey edge.id then .error (.duplicateEdge edge.id)
  else do
    document.validateEdge edge
    return { document with edges := document.edges.insert edge.id edge }

def updateEdgeRule : Except DocumentError CanvasDocument :=
  if !document.edges.containsKey edge.id then .error (.missingEdge edge.id)
  else do
    document.validateEdge edge
    return { document with edges := document.edges.insert edge.id edge }

def removeEdgeRule (id : EdgeId) : Except DocumentError (CanvasEdge × CanvasDocument) :=
  match document.edges.shiftRemove id with
  | none => .error (.missingEdge id)
  | some (edge, edges) => .ok (edge, { document with edges })

variable (shape : CanvasShape)

def insertShapeRule : Except DocumentError CanvasDocument :=
  if document.shapes.containsKey shape.id then .error (.duplicateShape shape.id)
  else .ok { document with shapes := document.shapes.insert shape.id shape }

def updateShapeRule : Except DocumentError CanvasDocument :=
  if !document.shapes.containsKey shape.id then .error (.missingShape shape.id)
  else .ok { document with shapes := document.shapes.insert shape.id shape }

def removeShapeRule (id : ShapeId) : Except DocumentError (CanvasShape × CanvasDocument) :=
  match document.shapes.shiftRemove id with
  | none => .error (.missingShape id)
  | some (shape, shapes) => .ok (shape, { document with shapes })

def setRecordParentRule (child parent : CanvasRecordId) : Except DocumentError CanvasDocument :=
  if child = parent then .error (.selfParentRelation child)
  else do
    document.validateRecordId child
    document.validateRecordId parent
    return { document with relations := document.relations.setParent child parent }

def addRecordToGroupRule (group member : CanvasRecordId) : Except DocumentError CanvasDocument :=
  if group = member then .error (.selfParentRelation group)
  else do
    document.validateRecordId group
    document.validateRecordId member
    return { document with relations := document.relations.addToGroup group member }

def setRecordBindingRule (binding : CanvasRecordBindingRelation) :
    Except DocumentError CanvasDocument :=
  if binding.source = binding.target then .error (.selfBindingRelation binding.source)
  else do
    document.validateRecordId binding.source
    document.validateRecordId binding.target
    return { document with relations := document.relations.setBinding binding }

def apply : DocumentCommand → Except DocumentError CanvasDocument
  | .insertNode node => document.insertNodeRule node
  | .updateNode node => document.updateNodeRule node
  | .removeNode id => (·.2) <$> document.removeNodeRule id
  | .insertEdge edge => document.insertEdgeRule edge
  | .updateEdge edge => document.updateEdgeRule edge
  | .removeEdge id => (·.2) <$> document.removeEdgeRule id
  | .insertShape shape => document.insertShapeRule shape
  | .updateShape shape => document.updateShapeRule shape
  | .removeShape id => (·.2) <$> document.removeShapeRule id
  | .setRecordParent child parent => document.setRecordParentRule child parent
  | .clearRecordParent child =>
    .ok { document with relations := document.relations.clearParent child }
  | .addRecordToGroup group member => document.addRecordToGroupRule group member
  | .removeRecordFromGroup group member =>
    .ok { document with relations := document.relations.removeFromGroup group member }
  | .setRecordBinding binding => document.setRecordBindingRule binding
  | .removeRecordBinding id =>
    .ok { document with relations := document.relations.removeBinding id }

/-- The commands of a transaction, one after another. -/
def applyAll (commands : List DocumentCommand) : Except DocumentError CanvasDocument :=
  commands.foldlM apply document

/-- The stored record a command is about, or the error for its absence. -/
def stored {ν : Type} (records : IndexMap String ν) (id : String)
    (missing : String → DocumentError) : Except DocumentError ν :=
  match records.get id with
  | none => .error (missing id)
  | some record => .ok record

@[grind =] def inverseFor :
    DocumentCommand → Except DocumentError (List DocumentCommand)
  | .insertNode node =>
    if document.nodes.containsKey node.id then .error (.duplicateNode node.id)
    else do
      validateNode node
      return [.removeNode node.id]
  | .updateNode node => do
      return [.updateNode (← stored document.nodes node.id .missingNode)]
  | .removeNode id => do
      let node ← stored document.nodes id .missingNode
      let incident := document.edges.values.filter fun edge =>
        edge.source.nodeId == id || edge.target.nodeId == id
      return .insertNode node :: incident.map .insertEdge
  | .insertEdge edge =>
    if document.edges.containsKey edge.id then .error (.duplicateEdge edge.id)
    else do
      document.validateEdge edge
      return [.removeEdge edge.id]
  | .updateEdge edge => do
      return [.updateEdge (← stored document.edges edge.id .missingEdge)]
  | .removeEdge id => do
      return [.insertEdge (← stored document.edges id .missingEdge)]
  | .insertShape shape =>
    if document.shapes.containsKey shape.id then .error (.duplicateShape shape.id)
    else .ok [.removeShape shape.id]
  | .updateShape shape => do
      return [.updateShape (← stored document.shapes shape.id .missingShape)]
  | .removeShape id => do
      return [.insertShape (← stored document.shapes id .missingShape)]
  | .setRecordParent child parent =>
    if child = parent then .error (.selfParentRelation child)
    else do
      document.validateRecordId child
      document.validateRecordId parent
      match document.relations.parentOf child with
      | some previous => return [.setRecordParent child previous]
      | none => return [.clearRecordParent child]
  | .clearRecordParent child => do
      document.validateRecordId child
      match document.relations.parentOf child with
      | some parent => return [.setRecordParent child parent]
      | none => return []
  | .addRecordToGroup group member =>
    if group = member then .error (.selfParentRelation group)
    else do
      document.validateRecordId group
      document.validateRecordId member
      if group ∈ document.relations.groupsFor member then return []
      else return [.removeRecordFromGroup group member]
  | .removeRecordFromGroup group member => do
      document.validateRecordId group
      document.validateRecordId member
      if group ∈ document.relations.groupsFor member then
        return [.addRecordToGroup group member]
      else return []
  | .setRecordBinding binding =>
    if binding.source = binding.target then .error (.selfBindingRelation binding.source)
    else do
      document.validateRecordId binding.source
      document.validateRecordId binding.target
      match document.relations.binding binding.id with
      | some previous => return [.setRecordBinding previous]
      | none => return [.removeRecordBinding binding.id]
  | .removeRecordBinding id =>
    match document.relations.binding id with
    | some binding => .ok [.setRecordBinding binding]
    | none => .ok []

/-- The inverse of each command against the draft before it, the last one first. -/
def inverseSegments (document : CanvasDocument) :
    List DocumentCommand → Except DocumentError (List DocumentCommand)
  | [] => .ok []
  | command :: rest => do
      let segment ← document.inverseFor command
      let draft ← document.apply command
      let later ← inverseSegments draft rest
      return later ++ segment

def invertTransaction (transaction : CanvasTransaction) :
    Except DocumentError CanvasTransaction := do
  return ⟨← document.inverseSegments transaction.commands, .empty⟩

end OpenGpui.Canvas.CanvasDocument
