/-
The spatial index.  It lists what can be hit by z index; without the handles of nodes,
these are the records that have bounds, in the order in which they are painted.
-/
import OpenGpui.Canvas.PaintOrder

namespace OpenGpui.Canvas

open CanvasDocument IndexMap List

inductive HitTarget where
  | node (id : NodeId)
  | handle (nodeId : NodeId) (handleId : HandleId)
  | shape (id : ShapeId)
  | edge (id : EdgeId)

structure HitRecord where
  target : HitTarget
  bounds : Bounds
  zIndex : Int32
  hidden : Bool
  locked : Bool

namespace HitTarget

def isHandle : HitTarget → Bool
  | handle _ _ => true
  | _ => false

/-- The record that the target is, or is a handle of. -/
def recordId : HitTarget → CanvasRecordId
  | node id => .node id
  | handle nodeId _ => .node nodeId
  | shape id => .shape id
  | edge id => .edge id

end HitTarget

/-- A document with the bounds that a registry of kinds and a router give its records;
a router can fail on an edge. -/
structure CanvasGeometryFacts where
  document : CanvasDocument
  nodeBounds : CanvasNode → Bounds
  handleBounds : CanvasNode → CanvasHandle → Bounds
  edgeBounds : CanvasEdge → Option Bounds
  shapeBounds : CanvasShape → Bounds

namespace CanvasGeometryFacts

variable (facts : CanvasGeometryFacts)

def hitRecordsForRecord : CanvasRecordId → List HitRecord
  | .node id =>
    match facts.document.nodes.get id with
    | none => []
    | some node =>
      ⟨.node node.id, facts.nodeBounds node, node.zIndex, node.hidden, node.locked⟩ ::
        node.handles.map fun handle =>
          ⟨.handle node.id handle.id, facts.handleBounds node handle, node.zIndex,
            node.hidden || handle.hidden || !handle.connectable, node.locked⟩
  | .edge id =>
    match facts.document.edges.get id with
    | none => []
    | some edge =>
      match facts.edgeBounds edge with
      | none => []
      | some bounds => [⟨.edge edge.id, bounds, edge.zIndex, edge.hidden, edge.locked⟩]
  | .shape id =>
    match facts.document.shapes.get id with
    | none => []
    | some shape =>
      [⟨.shape shape.id, facts.shapeBounds shape, shape.zIndex, shape.hidden, shape.locked⟩]

def hitRecords : List HitRecord :=
  (facts.document.nodes.values.flatMap fun node => facts.hitRecordsForRecord (.node node.id)) ++
    (facts.document.shapes.values.flatMap fun shape =>
      facts.hitRecordsForRecord (.shape shape.id)) ++
    (facts.document.edges.values.flatMap fun edge => facts.hitRecordsForRecord (.edge edge.id))

/-- Whether a record has bounds; only an edge may have none. -/
def isBounded : CanvasRecordId → Bool
  | .edge id => ((facts.document.edges.get id).bind facts.edgeBounds).isSome
  | .node _ | .shape _ => true

end CanvasGeometryFacts

structure SpatialIndex where
  records : List HitRecord

namespace SpatialIndex

def rebuildWithFacts (facts : CanvasGeometryFacts) : SpatialIndex :=
  ⟨facts.hitRecords.mergeSort (zIndexLe (·.zIndex))⟩

/-- The records that the index lists, from the lowest one up. -/
def recordOrder (index : SpatialIndex) : List CanvasRecordId :=
  (index.records.filter fun record => !record.target.isHandle).map (·.target.recordId)

end SpatialIndex

namespace CanvasGeometryFacts

variable {facts : CanvasGeometryFacts}

/-- The layer of a record that can be hit. -/
def hitLayer (record : HitRecord) : CanvasRecordId × Int32 :=
  (record.target.recordId, record.zIndex)

/-- The layers that some hit records stand for, handles left out. -/
def hitLayers (records : List HitRecord) : List (CanvasRecordId × Int32) :=
  (records.filter fun record => !record.target.isHandle).map hitLayer

@[simp] theorem hitLayers_append (first second : List HitRecord) :
    hitLayers (first ++ second) = hitLayers first ++ hitLayers second := by
  simp [hitLayers]

theorem hitLayers_node {node : CanvasNode} (hget : facts.document.nodes.get node.id = some node) :
    hitLayers (facts.hitRecordsForRecord (.node node.id)) =
      if facts.isBounded (.node node.id) then [(.node node.id, node.zIndex)] else [] := by
  simp [hitRecordsForRecord, hget, hitLayers, isBounded, hitLayer, HitTarget.isHandle,
    HitTarget.recordId]

theorem hitLayers_shape {shape : CanvasShape}
    (hget : facts.document.shapes.get shape.id = some shape) :
    hitLayers (facts.hitRecordsForRecord (.shape shape.id)) =
      if facts.isBounded (.shape shape.id) then [(.shape shape.id, shape.zIndex)] else [] := by
  simp [hitRecordsForRecord, hget, hitLayers, isBounded, hitLayer, HitTarget.isHandle,
    HitTarget.recordId]

theorem hitLayers_edge {edge : CanvasEdge} (hget : facts.document.edges.get edge.id = some edge) :
    hitLayers (facts.hitRecordsForRecord (.edge edge.id)) =
      if facts.isBounded (.edge edge.id) then [(.edge edge.id, edge.zIndex)] else [] := by
  cases hbounds : facts.edgeBounds edge with
  | none => simp [hitRecordsForRecord, hget, hbounds, hitLayers, isBounded]
  | some bounds =>
    simp [hitRecordsForRecord, hget, hbounds, hitLayers, isBounded, hitLayer,
      HitTarget.isHandle, HitTarget.recordId]

/-- The layers of the records of one kind. -/
theorem hitLayers_flatMap {ν : Type} {records : List ν} {hits : ν → List HitRecord}
    (layer : ν → CanvasRecordId × Int32) (hhits : ∀ record ∈ records, hitLayers (hits record) =
      if facts.isBounded (layer record).1 then [layer record] else []) :
    hitLayers (records.flatMap hits) =
      (records.map layer).filter fun layer => facts.isBounded layer.1 := by
  induction records with
  | nil => rfl
  | cons record rest ih =>
    obtain ⟨hrecord, hrest⟩ := forall_mem_cons.mp hhits
    rw [flatMap_cons, hitLayers_append, hrecord, ih hrest, map_cons, filter_cons]
    split
    · rfl
    · rfl

theorem hitLayers_hitRecords (hkeyed : facts.document.WellKeyed) : hitLayers facts.hitRecords =
      facts.document.layers.filter fun layer => facts.isBounded layer.1 := by
  rw [hitRecords, hitLayers_append, hitLayers_append, CanvasDocument.layers, filter_append,
    filter_append, hitLayers_flatMap (fun node => (.node node.id, node.zIndex))
      fun node hmem => hitLayers_node (hkeyed.nodes.get_of_mem_values hmem),
    hitLayers_flatMap (fun shape => (.shape shape.id, shape.zIndex))
      fun shape hmem => hitLayers_shape (hkeyed.shapes.get_of_mem_values hmem),
    hitLayers_flatMap (fun edge => (.edge edge.id, edge.zIndex))
      fun edge hmem => hitLayers_edge (hkeyed.edges.get_of_mem_values hmem)]
  rfl

end CanvasGeometryFacts

open CanvasGeometryFacts in
/-- The index lists the records with bounds in paint order. -/
theorem SpatialIndex.recordOrder_rebuild {facts : CanvasGeometryFacts}
    (hkeyed : facts.document.WellKeyed) :
    (rebuildWithFacts facts).recordOrder = facts.document.paintOrder.filter facts.isBounded := by
  have hlayers : hitLayers (rebuildWithFacts facts).records =
      facts.document.paintLayers.filter fun layer => facts.isBounded layer.1 := by
    rw [hitLayers, rebuildWithFacts, filter_mergeSort (zIndexLe_trans _) (zIndexLe_total _),
      map_mergeSort (r := zIndexLe (·.zIndex)) (s := zIndexLe Prod.snd) (f := hitLayer)
        fun _ _ _ _ => rfl, paintLayers,
      filter_mergeSort (zIndexLe_trans _) (zIndexLe_total _), ← hitLayers_hitRecords hkeyed]
    rfl
  have hids := congrArg (List.map Prod.fst) hlayers
  rw [hitLayers, map_map] at hids
  rw [recordOrder, paintOrder, filter_map]
  exact hids

end OpenGpui.Canvas
