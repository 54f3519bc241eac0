/-
The index of edges by node, rebuilt from a document or brought up to date with the diff of
a commit; edges are sorted into the order of the document only when the diff changes which
edges there are or which nodes they join.  Putting an edge in and taking it out keep the
index consistent with the ends it has recorded.
-/
import OpenGpui.Canvas.Document
import Mathlib.Algebra.Group.Nat.Defs
import Mathlib.Data.List.Sort

namespace OpenGpui.Canvas

open IndexMap List

inductive CanvasEdgeDirection where
  | incoming
  | outgoing
  | any

structure CanvasGraphEndpointIds where
  source : NodeId
  target : NodeId
deriving DecidableEq

def CanvasGraphEndpointIds.fromEdge (edge : CanvasEdge) : CanvasGraphEndpointIds :=
  ⟨edge.source.nodeId, edge.target.nodeId⟩

/-- The edges at each node, in an order that is kept. -/
abbrev EdgesByNode := IndexMap NodeId (List EdgeId)

namespace EdgesByNode

variable (edges : EdgesByNode)

/-- `edges.entry(node).or_default().insert(edge)`. -/
def addEdge (node : NodeId) (edge : EdgeId) : EdgesByNode :=
  let edgeIds := (edges.get node).getD []
  edges.insert node (if edge ∈ edgeIds then edgeIds else edgeIds ++ [edge])

/-- `remove_edge_from_node`. -/
def removeEdge (node : NodeId) (edge : EdgeId) : EdgesByNode :=
  match edges.get node with
  | none => edges
  | some edgeIds =>
    if (edgeIds.erase edge).isEmpty then edges.erase node
    else edges.insert node (edgeIds.erase edge)

end EdgesByNode

def USIZE_MAX : Nat := 2 ^ 64 - 1

structure CanvasGraphIndex where
  outgoing : EdgesByNode
  incoming : EdgesByNode
  incident : EdgesByNode
  edgeEndpoints : IndexMap EdgeId CanvasGraphEndpointIds
  edgeOrdinals : IndexMap EdgeId Nat

namespace CanvasGraphIndex

def default : CanvasGraphIndex := ⟨.empty, .empty, .empty, .empty, .empty⟩

variable (index : CanvasGraphIndex) (edgeId : EdgeId)

/-- Whether there was such an edge, and the index without it. -/
def removeEdgeId : Bool × CanvasGraphIndex :=
  match index.edgeEndpoints.shiftRemove edgeId with
  | none => (false, index)
  | some (endpoints, edgeEndpoints) =>
    let incident := index.incident.removeEdge endpoints.source edgeId
    (true, {
      outgoing := index.outgoing.removeEdge endpoints.source edgeId
      incoming := index.incoming.removeEdge endpoints.target edgeId
      incident :=
        if endpoints.source ≠ endpoints.target then
          incident.removeEdge endpoints.target edgeId
        else incident
      edgeEndpoints
      edgeOrdinals := index.edgeOrdinals.erase edgeId })

def insertEdge (edge : CanvasEdge) : CanvasGraphIndex :=
  let index :=
    if index.edgeEndpoints.containsKey edge.id then (index.removeEdgeId edge.id).2 else index
  let endpoints := CanvasGraphEndpointIds.fromEdge edge
  let incident := index.incident.addEdge endpoints.source edge.id
  { index with
    outgoing := index.outgoing.addEdge endpoints.source edge.id
    incoming := index.incoming.addEdge endpoints.target edge.id
    incident :=
      if endpoints.source ≠ endpoints.target then incident.addEdge endpoints.target edge.id
      else incident
    edgeEndpoints := index.edgeEndpoints.insert edge.id endpoints }

/-- The position of each edge in the document. -/
def ordinalsOf (edgeIds : List EdgeId) : IndexMap EdgeId Nat :=
  edgeIds.zipIdx.foldl (fun ordinals entry => ordinals.insert entry.1 entry.2) .empty

def refreshEdgeOrdinals (document : CanvasDocument) : CanvasGraphIndex :=
  { index with edgeOrdinals := ordinalsOf document.edges.keys }

def sortEdgeIds (ordinals : IndexMap EdgeId Nat) (edgeIds : List EdgeId) : List EdgeId :=
  edgeIds.mergeSort fun first second =>
    decide ((ordinals.get first).getD USIZE_MAX ≤ (ordinals.get second).getD USIZE_MAX)

def sortAdjacencyByEdgeOrdinals : CanvasGraphIndex :=
  { index with
    outgoing := index.outgoing.mapValues (sortEdgeIds index.edgeOrdinals)
    incoming := index.incoming.mapValues (sortEdgeIds index.edgeOrdinals)
    incident := index.incident.mapValues (sortEdgeIds index.edgeOrdinals) }

variable (document : CanvasDocument)

def rebuild : CanvasGraphIndex :=
  (document.edges.values.foldl insertEdge default).refreshEdgeOrdinals document

variable (node : NodeId)

def outgoingEdgeIds : List EdgeId := (index.outgoing.get node).getD []

def incomingEdgeIds : List EdgeId := (index.incoming.get node).getD []

def incidentEdgeIds : List EdgeId := (index.incident.get node).getD []

variable (state : Bool × CanvasGraphIndex)

/-- `graph_changed |= index.remove_edge_id(edge_id)`. -/
def removeTracked (edgeId : EdgeId) : Bool × CanvasGraphIndex :=
  let (removed, index) := state.2.removeEdgeId edgeId
  (state.1 || removed, index)

/-- What a removed record takes out of the index. -/
def applyRemoved : CanvasRecordId → Bool × CanvasGraphIndex
  | .edge id => removeTracked state id
  | .node id => (state.2.incidentEdgeIds id).foldl removeTracked state
  | .shape _ => state

/-- An updated edge that joins other nodes than the index has is taken out. -/
def applyUpdated :
    CanvasRecordId → Bool × CanvasGraphIndex
  | .edge id =>
    match state.2.edgeEndpoints.get id, document.edges.get id with
    | some endpoints, some edge =>
      if edge.source.nodeId ≠ endpoints.source ∨ edge.target.nodeId ≠ endpoints.target then
        removeTracked state id
      else state
    | _, _ => state
  | _ => state

/-- An edge the index lacks is put in. -/
def applyInserted :
    CanvasRecordId → Bool × CanvasGraphIndex
  | .edge id =>
    match document.edges.get id with
    | some edge =>
      if state.2.edgeEndpoints.containsKey id then state
      else (true, state.2.insertEdge edge)
    | none => state
  | _ => state

variable (diff : CanvasDocumentDiff)

/-- The three passes over a diff, with whether they changed anything. -/
def applyRecords : Bool × CanvasGraphIndex :=
  let state := diff.removed.foldl applyRemoved (false, index)
  let state := diff.updated.foldl (applyUpdated document) state
  (diff.updated ++ diff.inserted).foldl (applyInserted document) state

def applyDiff : CanvasGraphIndex :=
  if diff.isEmpty then index
  else
    let (graphChanged, index) := index.applyRecords document diff
    if graphChanged then (index.refreshEdgeOrdinals document).sortAdjacencyByEdgeOrdinals
    else index

def edgeCount : Nat := index.edgeEndpoints.len

def isEmpty : Bool := index.edgeEndpoints.len == 0

def containsEdge : Bool := index.edgeEndpoints.containsKey edgeId

def edgeIdsForNode : CanvasEdgeDirection → List EdgeId
  | .incoming => index.incomingEdgeIds node
  | .outgoing => index.outgoingEdgeIds node
  | .any => index.incidentEdgeIds node

variable (source target : NodeId)

def edgeIdsBetween : List EdgeId :=
  (index.outgoingEdgeIds source).filter fun edgeId =>
    (index.edgeEndpoints.get edgeId).any fun endpoints =>
      endpoints.source == source && endpoints.target == target

def hasEdgeBetween : Bool := !(index.edgeIdsBetween source target).isEmpty

/-- The node at the other end of an edge that was found from a node. -/
def neighborOf (endpoints : CanvasGraphEndpointIds) :
    CanvasEdgeDirection → NodeId
  | .incoming => endpoints.source
  | .outgoing => endpoints.target
  | .any => if endpoints.source = node then endpoints.target else endpoints.source

def neighborNodeIds (direction : CanvasEdgeDirection) : List NodeId :=
  (index.edgeIdsForNode node direction).filterMap fun edgeId =>
    (index.edgeEndpoints.get edgeId).map fun endpoints => neighborOf node endpoints direction

def incidentEdgeCount : Nat := (index.incidentEdgeIds node).length

end CanvasGraphIndex

/-- The edges and neighbours of a document, found through an index of it. -/
structure CanvasIndexedGraph where
  document : CanvasDocument
  index : CanvasGraphIndex

namespace CanvasIndexedGraph

variable (graph : CanvasIndexedGraph)

def edgesForNode (node : NodeId) (direction : CanvasEdgeDirection) :
    List CanvasEdge :=
  (graph.index.edgeIdsForNode node direction).filterMap graph.document.edges.get

def edgesBetween (source target : NodeId) : List CanvasEdge :=
  (graph.index.edgeIdsBetween source target).filterMap graph.document.edges.get

def neighborNodeIds (graph : CanvasIndexedGraph) (node : NodeId)
    (direction : CanvasEdgeDirection) : List NodeId :=
  (graph.index.neighborNodeIds node direction).filter graph.document.nodes.containsKey

end CanvasIndexedGraph

namespace EdgesByNode

variable (edges : EdgesByNode) (node other : NodeId) (edge : EdgeId)

theorem get_addEdge : ((edges.addEdge node edge).get other).getD [] =
      if node = other ∧ edge ∉ (edges.get other).getD [] then (edges.get other).getD [] ++ [edge]
      else (edges.get other).getD [] := by
  rw [addEdge]
  by_cases heq : node = other
  · subst heq
    by_cases hmem : edge ∈ (edges.get node).getD []
    · simp [hmem]
    · simp [hmem]
  · simp [heq]

theorem get_removeEdge : ((edges.removeEdge node edge).get other).getD [] =
      if node = other then ((edges.get other).getD []).erase edge
      else (edges.get other).getD [] := by
  rw [removeEdge]
  cases hget : edges.get node with
  | none =>
    by_cases heq : node = other
    · subst heq
      simp [hget]
    · simp [heq]
  | some edgeIds =>
    dsimp only
    by_cases hempty : (edgeIds.erase edge).isEmpty = true
    · rw [if_pos hempty, get_erase]
      by_cases heq : node = other
      · subst heq
        simpa [hget] using (isEmpty_iff.mp hempty).symm
      · simp [heq]
    · rw [if_neg hempty]
      by_cases heq : node = other
      · subst heq
        simp [hget]
      · simp [heq]

end EdgesByNode

/-- `edge_matches_node`, of the ends of an edge. -/
def CanvasGraphEndpointIds.matchesNode (endpoints : CanvasGraphEndpointIds) (node : NodeId) :
    CanvasEdgeDirection → Prop
  | .incoming => endpoints.target = node
  | .outgoing => endpoints.source = node
  | .any => endpoints.source = node ∨ endpoints.target = node

instance (endpoints : CanvasGraphEndpointIds) (node : NodeId) (direction : CanvasEdgeDirection) :
    Decidable (endpoints.matchesNode node direction) :=
  match direction with
  | .incoming => inferInstanceAs (Decidable (endpoints.target = node))
  | .outgoing => inferInstanceAs (Decidable (endpoints.source = node))
  | .any => inferInstanceAs (Decidable (endpoints.source = node ∨ endpoints.target = node))

namespace CanvasGraphIndex

/-- The lists of the index hold each edge once, at the nodes that it joins. -/
structure Consistent (index : CanvasGraphIndex) : Prop where
  nodup : ∀ node direction, (index.edgeIdsForNode node direction).Nodup
  mem_iff : ∀ node direction edgeId, edgeId ∈ index.edgeIdsForNode node direction ↔
    ∃ endpoints, index.edgeEndpoints.get edgeId = some endpoints ∧
      endpoints.matchesNode node direction

section Edits

variable {index : CanvasGraphIndex} {edgeId : EdgeId}

theorem removeEdgeId_endpoints (index : CanvasGraphIndex) (edgeId other : EdgeId) :
    (index.removeEdgeId edgeId).2.edgeEndpoints.get other =
      if edgeId = other then none else index.edgeEndpoints.get other := by
  rw [removeEdgeId, shiftRemove]
  cases hget : index.edgeEndpoints.get edgeId with
  | none =>
    by_cases heq : edgeId = other
    · rw [if_pos heq, ← heq]
      exact hget
    · rw [if_neg heq]
      rfl
  | some endpoints => exact get_erase _ _ _

/-- Nothing happens unless the index has the edge. -/
theorem removeEdgeId_of_false (h : (index.removeEdgeId edgeId).1 = false) :
    (index.removeEdgeId edgeId).2 = index := by
  rw [removeEdgeId, shiftRemove] at h ⊢
  cases hget : index.edgeEndpoints.get edgeId with
  | none => rfl
  | some endpoints =>
    rw [hget] at h
    cases h

theorem removeEdgeId_ids (hconsistent : index.Consistent) (node : NodeId)
    (direction : CanvasEdgeDirection) :
    (index.removeEdgeId edgeId).2.edgeIdsForNode node direction =
      (index.edgeIdsForNode node direction).erase edgeId := by
  rw [removeEdgeId, shiftRemove]
  cases hget : index.edgeEndpoints.get edgeId with
  | none =>
    rw [Option.map_none, erase_of_not_mem]
    intro hmem
    obtain ⟨endpoints, hother, _⟩ := (hconsistent.mem_iff node direction edgeId).mp hmem
    rw [hget] at hother
    cases hother
  | some endpoints =>
    rw [Option.map_some]
    -- at a node that the edge does not join there is nothing to erase
    have helsewhere : ¬ endpoints.matchesNode node direction →
        edgeId ∉ index.edgeIdsForNode node direction := by
      intro hnot hmem
      obtain ⟨other, hother, hmatches⟩ := (hconsistent.mem_iff node direction edgeId).mp hmem
      rw [hget, Option.some.injEq] at hother
      exact hnot (hother ▸ hmatches)
    cases direction with
    | incoming =>
      simp only [edgeIdsForNode, incomingEdgeIds] at helsewhere ⊢
      rw [EdgesByNode.get_removeEdge]
      by_cases hmatches : endpoints.target = node
      · rw [if_pos hmatches]
      · rw [if_neg hmatches, erase_of_not_mem (helsewhere hmatches)]
    | outgoing =>
      simp only [edgeIdsForNode, outgoingEdgeIds] at helsewhere ⊢
      rw [EdgesByNode.get_removeEdge]
      by_cases hmatches : endpoints.source = node
      · rw [if_pos hmatches]
      · rw [if_neg hmatches, erase_of_not_mem (helsewhere hmatches)]
    | any =>
      have hnodup := hconsistent.nodup node .any
      simp only [edgeIdsForNode, incidentEdgeIds] at helsewhere hnodup ⊢
      by_cases hsource : endpoints.source = node
      · by_cases hends : endpoints.source = endpoints.target
        · rw [if_neg (not_not_intro hends), EdgesByNode.get_removeEdge, if_pos hsource]
        · rw [if_pos hends, EdgesByNode.get_removeEdge, EdgesByNode.get_removeEdge,
            if_pos hsource, if_neg (fun h => hends (hsource.trans h.symm))]
      · by_cases htarget : endpoints.target = node
        · rw [if_pos (fun h => hsource (h.trans htarget)), EdgesByNode.get_removeEdge,
            EdgesByNode.get_removeEdge, if_pos htarget, if_neg hsource]
        · have hnot := helsewhere
            (by simp [CanvasGraphEndpointIds.matchesNode, hsource, htarget])
          rw [erase_of_not_mem hnot]
          by_cases hends : endpoints.source = endpoints.target
          · rw [if_neg (not_not_intro hends), EdgesByNode.get_removeEdge, if_neg hsource]
          · rw [if_pos hends, EdgesByNode.get_removeEdge, EdgesByNode.get_removeEdge,
              if_neg hsource, if_neg htarget]

theorem Consistent.removeEdgeId (hconsistent : index.Consistent) (edgeId : EdgeId) :
    (index.removeEdgeId edgeId).2.Consistent := by
  refine ⟨?_, ?_⟩
  · intro node direction
    rw [removeEdgeId_ids hconsistent]
    exact (hconsistent.nodup node direction).erase edgeId
  · intro node direction other
    rw [removeEdgeId_ids hconsistent, (hconsistent.nodup node direction).mem_erase_iff,
      hconsistent.mem_iff, removeEdgeId_endpoints]
    by_cases heq : edgeId = other
    · subst heq
      simp
    · rw [if_neg heq]
      exact and_iff_right (Ne.symm heq)

end Edits

variable {index : CanvasGraphIndex} {edge : CanvasEdge}

theorem insertEdge_endpoints (habsent : index.edgeEndpoints.get edge.id = none) (other : EdgeId) :
    (index.insertEdge edge).edgeEndpoints.get other =
      if edge.id = other then some (.fromEdge edge) else index.edgeEndpoints.get other := by
  have hkey := containsKey_eq_false_iff.mpr habsent
  rw [insertEdge]
  simp [hkey]

theorem not_mem_of_absent (hconsistent : index.Consistent)
    (habsent : index.edgeEndpoints.get edge.id = none) (node : NodeId)
    (direction : CanvasEdgeDirection) : edge.id ∉ index.edgeIdsForNode node direction := by
  intro hmem
  obtain ⟨endpoints, hget, _⟩ := (hconsistent.mem_iff node direction edge.id).mp hmem
  rw [habsent] at hget
  cases hget

variable {direction : CanvasEdgeDirection} {node : NodeId}

/-- A new edge goes to the end of the lists of the nodes it joins. -/
theorem insertEdge_ids_of_matches (hconsistent : index.Consistent)
    (habsent : index.edgeEndpoints.get edge.id = none)
    (hmatches : (CanvasGraphEndpointIds.fromEdge edge).matchesNode node direction) :
    (index.insertEdge edge).edgeIdsForNode node direction =
      index.edgeIdsForNode node direction ++ [edge.id] := by
  have hkey := containsKey_eq_false_iff.mpr habsent
  have hnot := not_mem_of_absent hconsistent habsent node direction
  rw [insertEdge, hkey]
  generalize CanvasGraphEndpointIds.fromEdge edge = endpoints at hmatches ⊢
  cases direction with
  | incoming =>
    have htarget : endpoints.target = node := hmatches
    simp only [edgeIdsForNode, incomingEdgeIds] at hnot ⊢
    simp [EdgesByNode.get_addEdge, htarget, hnot]
  | outgoing =>
    have hsource : endpoints.source = node := hmatches
    simp only [edgeIdsForNode, outgoingEdgeIds] at hnot ⊢
    simp [EdgesByNode.get_addEdge, hsource, hnot]
  | any =>
    simp only [edgeIdsForNode, incidentEdgeIds] at hnot ⊢
    by_cases hends : endpoints.source ≠ endpoints.target
    · rw [if_pos hends]
      by_cases hsource : endpoints.source = node
      · have htarget : endpoints.target ≠ node := fun h => hends (hsource.trans h.symm)
        simp [EdgesByNode.get_addEdge, hsource, htarget, hnot]
      · have htarget : endpoints.target = node := hmatches.resolve_left hsource
        simp [EdgesByNode.get_addEdge, hsource, htarget, hnot]
    · have hsource : endpoints.source = node := by
        rcases hmatches with hsource | htarget
        · exact hsource
        · exact (not_not.mp hends).trans htarget
      rw [if_neg hends]
      simp [EdgesByNode.get_addEdge, hsource, hnot]

theorem insertEdge_ids_of_not_matches (habsent : index.edgeEndpoints.get edge.id = none)
    (hmatches : ¬ (CanvasGraphEndpointIds.fromEdge edge).matchesNode node direction) :
    (index.insertEdge edge).edgeIdsForNode node direction =
      index.edgeIdsForNode node direction := by
  have hkey := containsKey_eq_false_iff.mpr habsent
  rw [insertEdge, hkey]
  generalize CanvasGraphEndpointIds.fromEdge edge = endpoints at hmatches ⊢
  cases direction with
  | incoming =>
    have htarget : endpoints.target ≠ node := hmatches
    simp [edgeIdsForNode, incomingEdgeIds, EdgesByNode.get_addEdge, htarget]
  | outgoing =>
    have hsource : endpoints.source ≠ node := hmatches
    simp [edgeIdsForNode, outgoingEdgeIds, EdgesByNode.get_addEdge, hsource]
  | any =>
    obtain ⟨hsource, htarget⟩ := not_or.mp hmatches
    simp only [edgeIdsForNode, incidentEdgeIds]
    by_cases hends : endpoints.source ≠ endpoints.target
    · rw [if_pos hends]
      simp [hsource, htarget, EdgesByNode.get_addEdge]
    · rw [if_neg hends]
      simp [hsource, EdgesByNode.get_addEdge]

theorem Consistent.insertEdge (hconsistent : index.Consistent)
    (habsent : index.edgeEndpoints.get edge.id = none) : (index.insertEdge edge).Consistent := by
  have hnot := not_mem_of_absent hconsistent habsent
  refine ⟨?_, ?_⟩
  · intro node direction
    by_cases hmatches : (CanvasGraphEndpointIds.fromEdge edge).matchesNode node direction
    · rw [insertEdge_ids_of_matches hconsistent habsent hmatches]
      refine nodup_append.mpr ⟨hconsistent.nodup node direction, nodup_singleton _, ?_⟩
      intro first hfirst second hsecond heq
      rw [mem_singleton.mp hsecond] at heq
      exact hnot node direction (heq ▸ hfirst)
    · rw [insertEdge_ids_of_not_matches habsent hmatches]
      exact hconsistent.nodup node direction
  · intro node direction other
    rw [insertEdge_endpoints habsent]
    by_cases hmatches : (CanvasGraphEndpointIds.fromEdge edge).matchesNode node direction
    · rw [insertEdge_ids_of_matches hconsistent habsent hmatches, mem_append,
        hconsistent.mem_iff]
      by_cases heq : edge.id = other
      · simp [heq, hmatches]
      · simp [heq, Ne.symm heq]
    · rw [insertEdge_ids_of_not_matches habsent hmatches]
      by_cases heq : edge.id = other
      · subst heq
        simp [hnot node direction, hmatches]
      · rw [if_neg heq, hconsistent.mem_iff]

end CanvasGraphIndex

end OpenGpui.Canvas
