/-
The checks of a canvas document, and record kinds.  A kind may carry a schema policy, which
migrates a record, supplies its default data and validates it; the policies are supplied by
the application and are functions of the record here.
-/
import OpenGpui.Canvas.Document
import OpenGpui.Library.CycleCheck
import OpenGpui.Library.Primitives

namespace OpenGpui.Canvas

structure CanvasSchemaPolicy (ρ : Type) where
  defaultData : CanvasValue
  migrate : ρ → Except CanvasSchemaError ρ
  validate : ρ → Except CanvasSchemaError Unit

/-- A registered kind; of its policies only the schema takes part in edits. -/
structure CanvasKind (ρ : Type) where
  schema : Option (CanvasSchemaPolicy ρ)

abbrev CanvasNodeKind := CanvasKind CanvasNode
abbrev CanvasEdgeKind := CanvasKind CanvasEdge
abbrev CanvasShapeKind := CanvasKind CanvasShape

structure CanvasKindRegistry where
  nodeKinds : IndexMap String CanvasNodeKind
  edgeKinds : IndexMap String CanvasEdgeKind
  shapeKinds : IndexMap String CanvasShapeKind

/-- `data.entry(key).or_insert(value)` for each default. -/
def mergeDefaultData (data defaults : CanvasValue) : CanvasValue :=
  defaults.entries.foldl
    (fun data entry => if data.containsKey entry.1 then data else data.insert entry.1 entry.2)
    data

/-- What the three `normalize_*` functions do with a record of a kind. -/
def normalizeRecord {ρ : Type} (kind : Option (CanvasKind ρ))
    (mapData : (CanvasValue → CanvasValue) → ρ → ρ) (record : ρ) :
    Except CanvasSchemaError ρ :=
  match kind.bind (·.schema) with
  | none => .ok record
  | some schema => do
      let migrated ← schema.migrate record
      let record := mapData (fun data => mergeDefaultData data schema.defaultData) migrated
      schema.validate record
      return record

/-- The check of a stored record by the schema of its kind, if there is one. -/
def validateRecord {ρ : Type} (kind : Option (CanvasKind ρ)) (record : ρ) :
    Except CanvasSchemaError Unit :=
  match kind.bind (·.schema) with
  | none => .ok ()
  | some schema => schema.validate record

namespace CanvasKindRegistry

def default : CanvasKindRegistry := ⟨.empty, .empty, .empty⟩

def GROUP_SHAPE_KIND : String := "group"

/-- The registry of an application that registers nothing: the built-in group
shape has no schema. -/
def openRegistry : CanvasKindRegistry :=
  { default with shapeKinds := default.shapeKinds.insert GROUP_SHAPE_KIND ⟨none⟩ }

variable (registry : CanvasKindRegistry)

def normalizeNode (node : CanvasNode) : Except CanvasSchemaError CanvasNode :=
  normalizeRecord (registry.nodeKinds.get node.kind)
    (fun update node => { node with data := update node.data }) node

def normalizeEdge (edge : CanvasEdge) : Except CanvasSchemaError CanvasEdge :=
  normalizeRecord (registry.edgeKinds.get edge.kind)
    (fun update edge => { edge with data := update edge.data }) edge

def normalizeShape (shape : CanvasShape) : Except CanvasSchemaError CanvasShape :=
  normalizeRecord (registry.shapeKinds.get shape.kind)
    (fun update shape => { shape with data := update shape.data }) shape

def normalizeCommand :
    DocumentCommand → Except CanvasSchemaError DocumentCommand
  | .insertNode node => .insertNode <$> registry.normalizeNode node
  | .updateNode node => .updateNode <$> registry.normalizeNode node
  | .insertEdge edge => .insertEdge <$> registry.normalizeEdge edge
  | .updateEdge edge => .updateEdge <$> registry.normalizeEdge edge
  | .insertShape shape => .insertShape <$> registry.normalizeShape shape
  | .updateShape shape => .updateShape <$> registry.normalizeShape shape
  | command => .ok command

def normalizeTransaction (transaction : CanvasTransaction) :
    Except CanvasSchemaError CanvasTransaction := do
  let commands ← transaction.commands.mapM registry.normalizeCommand
  return { commands, metadata := transaction.metadata }

def validateDocument (document : CanvasDocument) :
    Except CanvasSchemaError Unit := do
  document.nodes.values.forM fun node => validateRecord (registry.nodeKinds.get node.kind) node
  document.edges.values.forM fun edge => validateRecord (registry.edgeKinds.get edge.kind) edge
  document.shapes.values.forM fun shape =>
    validateRecord (registry.shapeKinds.get shape.kind) shape

end CanvasKindRegistry

/-- The first handle whose id an earlier handle has. -/
def firstDuplicateHandle : List HandleId → List CanvasHandle → Option CanvasHandle
  | _, [] => none
  | handleIds, handle :: rest =>
    if handle.id ∈ handleIds then some handle
    else firstDuplicateHandle (handleIds ++ [handle.id]) rest

def validateNode (node : CanvasNode) : Except DocumentError Unit :=
  match firstDuplicateHandle [] node.handles with
  | some handle => .error (.duplicateHandle node.id handle.id)
  | none => .ok ()

def validateEdgeRoute (edge : CanvasEdge) : Except DocumentError Unit :=
  if trimIsEmpty edge.route.kind then .error (.emptyEdgeRouteKind edge.id)
  else if !edge.route.interactionWidth.isFinite || edge.route.interactionWidth.isNegative then
    .error (.invalidEdgeInteractionWidth edge.id)
  else if (edge.route.waypoints ++ edge.route.controlPoints).any fun point =>
      !point.x.isFinite || !point.y.isFinite then
    .error (.invalidEdgeRoutePoint edge.id)
  else .ok ()

namespace CanvasDocument

variable (document : CanvasDocument) (endpoint : CanvasEndpoint)

def endpointParts : Except DocumentError (CanvasNode × Option CanvasHandle) :=
  match document.nodes.get endpoint.nodeId with
  | none => .error (.missingNode endpoint.nodeId)
  | some node =>
    match endpoint.handleId with
    | none => .ok (node, none)
    | some handleId =>
      match node.handle (some handleId) with
      | none => .error (.missingHandle endpoint.nodeId handleId)
      | some handle => .ok (node, some handle)

def validateEndpoint :
    Except DocumentError Unit := do
  let _ ← document.endpointParts endpoint
  return ()

def validateConnectableHandle (handle : CanvasHandle) : Except DocumentError Unit :=
  if handle.connectable then .ok ()
  else .error (.nonConnectableHandle endpoint.nodeId handle.id)

/-- The common part of the two endpoint checks: an endpoint without a handle is
accepted, a handle must be connectable and must not have the opposite role. -/
def validateEndpointRole (opposite : HandleRole) (error : NodeId → HandleId → DocumentError) :
    Except DocumentError Unit := do
  match ← document.endpointParts endpoint with
  | (_, none) => return ()
  | (_, some handle) =>
    validateConnectableHandle endpoint handle
    if handle.role = opposite then throw (error endpoint.nodeId handle.id)

def validateSourceEndpoint : Except DocumentError Unit :=
  document.validateEndpointRole endpoint .target .invalidSourceHandle

def validateTargetEndpoint : Except DocumentError Unit :=
  document.validateEndpointRole endpoint .source .invalidTargetHandle

def validateEdge (edge : CanvasEdge) : Except DocumentError Unit := do
  validateEdgeRoute edge
  document.validateSourceEndpoint edge.source
  document.validateTargetEndpoint edge.target

def validateRecordId (id : CanvasRecordId) : Except DocumentError Unit :=
  if document.containsRecord id then .ok () else .error (.missingRelationRecord id)

/-- One relation list: in order, each key is new, the two ends differ and both
exist. -/
def validateRelationList {ρ κ : Type} [DecidableEq κ] (document : CanvasDocument)
    (key : ρ → κ) (ends : ρ → CanvasRecordId × CanvasRecordId)
    (duplicate : ρ → DocumentError) (itself : CanvasRecordId → DocumentError) :
    List κ → List ρ → Except DocumentError Unit
  | _, [] => .ok ()
  | keys, relation :: rest =>
    if key relation ∈ keys then .error (duplicate relation)
    else if (ends relation).1 = (ends relation).2 then .error (itself (ends relation).1)
    else do
      document.validateRecordId (ends relation).1
      document.validateRecordId (ends relation).2
      validateRelationList document key ends duplicate itself (keys ++ [key relation]) rest

def validateParents : Except DocumentError Unit :=
  document.validateRelationList (fun relation => relation.child)
    (fun relation => (relation.child, relation.parent))
    (fun relation => .duplicateParentRelation relation.child) .selfParentRelation []
    document.relations.parents

def validateGroups : Except DocumentError Unit :=
  document.validateRelationList (fun relation => (relation.group, relation.member))
    (fun relation => (relation.group, relation.member))
    (fun relation => .duplicateGroupRelation relation.group relation.member)
    .selfParentRelation [] document.relations.groups

def validateBindings : Except DocumentError Unit :=
  document.validateRelationList (fun relation => relation.id)
    (fun relation => (relation.source, relation.target))
    (fun relation => .duplicateBindingRelation relation.id) .selfBindingRelation []
    document.relations.bindings

/-- `graph.entry(owner).or_default().push(owned)`. -/
def pushOwned (graph : IndexMap CanvasRecordId (List CanvasRecordId))
    (owner owned : CanvasRecordId) : IndexMap CanvasRecordId (List CanvasRecordId) :=
  graph.insert owner ((graph.get owner).getD [] ++ [owned])

/-- The pairs of an owner and what it owns: parents with their children, then
groups with their members. -/
def ownerships : List (CanvasRecordId × CanvasRecordId) :=
  document.relations.parents.map (fun relation => (relation.parent, relation.child)) ++
    document.relations.groups.map (fun relation => (relation.group, relation.member))

def relationGraph : IndexMap CanvasRecordId (List CanvasRecordId) :=
  document.ownerships.foldl (fun graph pair => pushOwned graph pair.1 pair.2) .empty

/-- `validate_relation_graph_is_acyclic`.  The set of vertices being visited is
handed down instead of being extended and restored; the depth of the search is at
most the number of ends of relations. -/
def validateRelationGraphIsAcyclic : Except DocumentError Unit :=
  match CycleCheck.searchAll (fun id => (document.relationGraph.get id).getD [])
      (2 * document.ownerships.length) document.relationGraph.keys with
  | .ok _ => .ok ()
  | .error id => .error (.cyclicRecordRelation id)

def validateRelations : Except DocumentError Unit := do
  document.validateParents
  document.validateGroups
  document.validateBindings
  document.validateRelationGraphIsAcyclic

def validateIntegrity : Except DocumentError Unit := do
  document.nodes.values.forM validateNode
  document.edges.values.forM document.validateEdge
  document.validateRelations

def pruneMissingRelations : CanvasDocument :=
  { document with relations := document.relations.pruneMissingRecords document.recordIdSet }

end CanvasDocument

end OpenGpui.Canvas
