/-
Selections of canvas records: the records a selection is reduced to, and the scope of
records that an action on a selection covers.
-/
import OpenGpui.Canvas.Contents
import OpenGpui.Library.Worklist

namespace OpenGpui.Canvas

open Worklist

/-- An `IndexSet` as the list of its values in order of insertion. -/
def insertOnce {α : Type} [DecidableEq α] (values : List α) (value : α) : List α :=
  if value ∈ values then values else values ++ [value]

def collectSet {α : Type} [DecidableEq α] (values : List α) : List α := values.foldl insertOnce []

structure CanvasSelection where
  nodes : List NodeId
  edges : List EdgeId
  shapes : List ShapeId
  handles : List CanvasEndpoint
deriving DecidableEq

namespace CanvasSelection

def default : CanvasSelection := ⟨[], [], [], []⟩

variable (selection : CanvasSelection)

def selectedRecords : List CanvasRecordId :=
  selection.nodes.map .node ++ selection.edges.map .edge ++ selection.shapes.map .shape

def insertRecord : CanvasRecordId → CanvasSelection
  | .node id => { selection with nodes := insertOnce selection.nodes id }
  | .edge id => { selection with edges := insertOnce selection.edges id }
  | .shape id => { selection with shapes := insertOnce selection.shapes id }

def insertHandle (endpoint : CanvasEndpoint) : CanvasSelection :=
  { selection with handles := insertOnce selection.handles endpoint }

end CanvasSelection

structure CanvasRecordScopeOptions where
  includeStructuralDescendants : Bool
  includeInternalEdges : Bool

def CanvasRecordScopeOptions.structuralWithInternalEdges : CanvasRecordScopeOptions := ⟨true, true⟩

structure CanvasResolvedSelectionScope where
  normalizedSelection : CanvasSelection
  explicitRecords : List CanvasRecordId
  structuralRecords : List CanvasRecordId
  actionRecords : List CanvasRecordId

namespace CanvasRecordId

def isEdge : CanvasRecordId → Bool
  | edge _ => true
  | node _ | shape _ => false

def nodeId? : CanvasRecordId → Option NodeId
  | node id => some id
  | edge _ | shape _ => none

end CanvasRecordId

namespace CanvasRecordRelations

variable (relations : CanvasRecordRelations)

/-- What a record owns: the children it is the parent of, then its members. -/
def ownedBy (owner : CanvasRecordId) : List CanvasRecordId :=
  relations.childrenOf owner ++ relations.membersOf owner

/-- What owns a record: its parent, then its groups. -/
def ownersOf (owned : CanvasRecordId) : List CanvasRecordId :=
  (relations.parentOf owned).toList ++ relations.groupsFor owned

/-- Every record that something owns, once. -/
def ownedRecords : List CanvasRecordId :=
  (relations.parents.map (·.child) ++ relations.groups.map (·.member)).dedup

/-- The traversal that both collections share; a record is pushed at most once, apart from
the seeds. -/
def collectFrom (canInclude : CanvasRecordId → Bool)
    (found : List CanvasRecordId × List CanvasRecordId) : List CanvasRecordId :=
  gather relations.ownedBy canInclude
    (found.2.length + relations.ownedRecords.length) found

variable (seeds : List CanvasRecordId)

def collectRelatedRecords (canInclude : CanvasRecordId → Bool) : List CanvasRecordId :=
  relations.collectFrom canInclude (seeds.foldl (gatherOne canInclude) ([], []))

def collectDescendantRecords (canTraverse : CanvasRecordId → Bool) : List CanvasRecordId :=
  relations.collectFrom canTraverse ([], (seeds.filter canTraverse).reverse)

end CanvasRecordRelations

variable (document : CanvasDocument)

/-- Whether some owner of the record, direct or not, is a candidate. -/
def hasCandidateAncestor (recordId : CanvasRecordId) (candidates : List CanvasRecordId) : Bool :=
  let pending := (document.relations.ownersOf recordId).reverse
  meets document.relations.ownersOf (fun id => decide (id ∈ candidates))
    (pending.length + debt document.relations.ownersOf document.relations.ownedRecords [])
    pending []

variable (records : List CanvasRecordId)

def selectedNodeIds : List NodeId := records.filterMap (·.nodeId?)

/-- The edge joins two of the nodes. -/
def joinsNodes (nodeIds : List NodeId) (edge : CanvasEdge) : Bool :=
  nodeIds.contains edge.source.nodeId && nodeIds.contains edge.target.nodeId

variable (candidates : List CanvasRecordId)

/-- Drops the edges whose ends both stand at or below the other candidates. -/
def suppressInternalEdgeCandidates : List CanvasRecordId :=
  let nodeScope := document.relations.collectRelatedRecords
    (candidates.filter fun id => !id.isEdge) document.containsRecord
  let nodeIds := selectedNodeIds nodeScope
  candidates.filter fun
    | .edge id =>
      match document.edges.get id with
      | none => true
      | some edge => !joinsNodes nodeIds edge
    | .node _ | .shape _ => true

def normalizeRecordCandidates : List CanvasRecordId :=
  let existing := collectSet (candidates.filter document.containsRecord)
  let kept := existing.filter fun id => !hasCandidateAncestor document id existing
  if kept.any (·.isEdge) then suppressInternalEdgeCandidates document kept else kept

def normalizeSelection (selection : CanvasSelection) : CanvasSelection :=
  let explicitRecords := normalizeRecordCandidates document selection.selectedRecords
  let normalized := explicitRecords.foldl CanvasSelection.insertRecord .default
  (selection.handles.filter fun endpoint =>
    match document.validateEndpoint endpoint with
    | .ok _ => true
    | .error _ => false).foldl CanvasSelection.insertHandle normalized

def includeInternalEdges (canInclude : CanvasRecordId → Bool) : List CanvasRecordId :=
  let nodeIds := selectedNodeIds records
  (document.edges.values.filter (joinsNodes nodeIds)).foldl (fun records edge =>
      if canInclude (.edge edge.id) then insertOnce records (.edge edge.id) else records)
    records

def resolveSelectionScopeWithPredicates (selection : CanvasSelection)
    (options : CanvasRecordScopeOptions) (canTraverse canInclude : CanvasRecordId → Bool) :
    CanvasResolvedSelectionScope :=
  let normalizedSelection := normalizeSelection document selection
  let explicitRecords := collectSet normalizedSelection.selectedRecords
  let structuralRecords :=
    if options.includeStructuralDescendants then
      document.relations.collectDescendantRecords explicitRecords canTraverse
    else []
  let actionRecords := collectSet ((explicitRecords ++ structuralRecords).filter canInclude)
  { normalizedSelection
    explicitRecords
    structuralRecords
    actionRecords :=
      if options.includeInternalEdges then includeInternalEdges document actionRecords canInclude
      else actionRecords }

def resolveSelectionScope (selection : CanvasSelection)
    (options : CanvasRecordScopeOptions) : CanvasResolvedSelectionScope :=
  resolveSelectionScopeWithPredicates document selection options document.containsRecord
    document.containsRecord

/-- The records an action on the selection covers. -/
def selectionRecordScope (selection : CanvasSelection)
    (options : CanvasRecordScopeOptions) : List CanvasRecordId :=
  (resolveSelectionScope document selection options).actionRecords

end OpenGpui.Canvas
