/-
Inverses of the commands on records, and of any command.  A removed node comes back
with the edges it took along; a changed record is stored again as it was.
-/
import OpenGpui.Canvas.Inverse

namespace OpenGpui.Canvas.CanvasDocument

open Checked Bool IndexMap List Option

/-- Commands on records, which are always reversible. -/
def IsRecordCommand : DocumentCommand → Prop
  | .insertNode _ | .updateNode _ | .removeNode _ | .insertEdge _ | .updateEdge _ | .removeEdge _
  | .insertShape _ | .updateShape _ | .removeShape _ => True
  | _ => False

theorem IsRecordCommand.reversible {command : DocumentCommand} (h : IsRecordCommand command)
    (document : CanvasDocument) : document.Reversible command := by
  cases command <;> trivial

theorem reversibleAlong_of_records {document : CanvasDocument} {commands : List DocumentCommand}
    (h : ∀ command ∈ commands, IsRecordCommand command) : document.ReversibleAlong commands := by
  induction commands generalizing document with
  | nil => trivial
  | cons command rest ih =>
    refine ⟨(h command mem_cons_self).reversible document, ?_⟩
    intro draft _
    exact ih fun other hmem => h other (mem_cons_of_mem _ hmem)

section UndoRecords

variable {document after follower : CanvasDocument}

/-- A segment of record commands that always leads back. -/
theorem undoes_of_records {command : DocumentCommand} {segment : List DocumentCommand}
    (hcommand : IsRecordCommand command) (hsegment : ∀ undo ∈ segment, IsRecordCommand undo)
    (hrestores : ∃ restored, follower.applyAll segment = .ok restored ∧ restored.Follows document) :
    document.Undoes follower command segment := by
  obtain ⟨restored, happly, hfollows⟩ := hrestores
  exact ⟨fun _ => ⟨restored, happly, hfollows, reversibleAlong_of_records hsegment⟩,
    fun _ _ => hcommand.reversible document⟩

variable {node : CanvasNode}

theorem undoes_insertNode (hdraft : document.IsDraft)
    (happly : document.apply (.insertNode node) = .ok after) (hfollows : follower.Follows after) :
    document.Undoes follower (.insertNode node) [.removeNode node.id] := by
  obtain ⟨habsent, _, rfl⟩ := apply_insertNode_ok_iff.mp happly
  have hnode : follower.nodes.get node.id = some node := by
    rw [hfollows.records.nodes, get_insert, if_pos rfl]
  -- no edge of the document can be at a node it lacks
  have hapart : ∀ id edge, document.edges.get id = some edge →
      (edge.source.nodeId != node.id && edge.target.nodeId != node.id) = true := by
    intro id edge hget
    obtain ⟨⟨source, hsource⟩, target, htarget⟩ :=
      validateEdge_stored (hdraft.records.edges id edge hget)
    rw [and_eq_true, bne_iff_ne, bne_iff_ne]
    constructor
    · intro heq
      rw [heq, habsent] at hsource
      cases hsource
    · intro heq
      rw [heq, habsent] at htarget
      cases htarget
  refine undoes_of_records trivial (by simp [IsRecordCommand])
    ⟨follower.withoutNode node.id, ?_, ⟨?_, hfollows.keyed, hfollows.within⟩⟩
  · rw [applyAll_singleton_ok_iff, apply_removeNode_ok_iff]
    exact ⟨⟨node, hnode⟩, rfl⟩
  · refine ⟨hfollows.records.formatVersion, hfollows.records.metadata, ?_, ?_,
      hfollows.records.shapes⟩
    · intro id
      rw [withoutNode, get_erase, hfollows.records.nodes, get_insert]
      by_cases heq : node.id = id
      · rw [if_pos heq, ← heq, habsent]
      · rw [if_neg heq, if_neg heq]
    · intro id
      rw [withoutNode, get_retain, hfollows.records.edges]
      cases hget : document.edges.get id with
      | none => rfl
      | some edge => simp [Option.filter, hapart id edge hget]

theorem undoes_updateNode {old : CanvasNode} (hdraft : document.IsDraft)
    (happly : document.apply (.updateNode node) = .ok after)
    (hold : document.nodes.get node.id = some old) (hfollows : follower.Follows after) :
    document.Undoes follower (.updateNode node) [.updateNode old] := by
  obtain ⟨_, hnode, hintegrity, rfl⟩ := apply_updateNode_ok_iff.mp happly
  have hid : old.id = node.id := hdraft.wellKeyed.nodes _ _ hold
  have hrecords : SameRecords { follower with nodes := follower.nodes.insert old.id old }
      document := by
    refine ⟨hfollows.records.formatVersion, hfollows.records.metadata, ?_, hfollows.records.edges,
      hfollows.records.shapes⟩
    intro id
    rw [get_insert, hid]
    by_cases heq : node.id = id
    · rw [if_pos heq, ← heq, hold]
    · rw [if_neg heq, hfollows.records.nodes, get_insert, if_neg heq]
  have hstored : ∀ id, containsRecord { document with
      nodes := document.nodes.insert node.id node } id =
      containsRecord { follower with nodes := follower.nodes.insert old.id old } id := by
    intro id
    rw [hrecords.containsRecord]
    cases id with
    | node id =>
      rw [containsRecord, containsRecord, containsKey, containsKey, get_insert]
      by_cases heq : node.id = id
      · rw [if_pos heq, ← heq, hold]
        rfl
      · rw [if_neg heq]
    | edge id => rfl
    | shape id => rfl
  refine undoes_of_records trivial (by simp [IsRecordCommand])
    ⟨{ follower with nodes := follower.nodes.insert old.id old }, ?_,
      ⟨hrecords, hfollows.keyed, hfollows.within⟩⟩
  rw [applyAll_singleton_ok_iff, apply_updateNode_ok_iff]
  refine ⟨⟨node, ?_⟩, hdraft.records.nodes _ _ hold, ?_, rfl⟩
  · rw [hfollows.records.nodes, hid, get_insert, if_pos rfl]
  · rw [validateIntegrity_ok_iff]
    refine ⟨hrecords.recordsValid hdraft.records, ?_⟩
    exact ((validateIntegrity_ok_iff _).mp hintegrity).2.within hstored hfollows.keyed
      hfollows.within

/-- Inserting edges that are valid and new, of different ids, stores exactly these. -/
theorem applyAll_insertEdges (edges : List CanvasEdge) (hids : (edges.map (·.id)).Nodup)
    (habsent : ∀ edge ∈ edges, document.edges.get edge.id = none)
    (hvalid : ∀ edge ∈ edges, document.validateEdge edge = .ok ()) :
    ∃ stored : IndexMap EdgeId CanvasEdge,
      document.applyAll (edges.map .insertEdge) = .ok { document with edges := stored } ∧
      ∀ id edge, stored.get id = some edge ↔
        document.edges.get id = some edge ∨ edge ∈ edges ∧ edge.id = id := by
  induction edges generalizing document with
  | nil => exact ⟨document.edges, rfl, by simp⟩
  | cons edge rest ih =>
    rw [map_cons, nodup_cons] at hids
    have hfresh : document.edges.get edge.id = none := habsent edge mem_cons_self
    obtain ⟨stored, happly, hstored⟩ :=
      @ih { document with edges := document.edges.insert edge.id edge } hids.2 (by
          intro other hmem
          rw [get_insert, if_neg]
          · exact habsent other (mem_cons_of_mem _ hmem)
          · intro heq
            exact hids.1 (heq ▸ mem_map_of_mem hmem))
        (fun other hmem => hvalid other (mem_cons_of_mem _ hmem))
    refine ⟨stored, ?_, ?_⟩
    · rw [map_cons, applyAll_cons_ok_iff]
      exact ⟨_, apply_insertEdge_ok_iff.mpr ⟨hfresh, hvalid edge mem_cons_self, rfl⟩, happly⟩
    · intro id other
      rw [hstored, get_insert, mem_cons]
      by_cases heq : edge.id = id
      · subst heq
        rw [if_pos rfl, hfresh]
        constructor
        · rintro (hsome | hrest)
          · exact .inr ⟨.inl (some.inj hsome).symm, by rw [some.inj hsome]⟩
          · exact .inr ⟨.inr hrest.1, hrest.2⟩
        · rintro (hnone | ⟨rfl | hmem, hid⟩)
          · cases hnone
          · exact .inl rfl
          · exact .inr ⟨hmem, hid⟩
      · rw [if_neg heq]
        constructor
        · rintro (hold | hrest)
          · exact .inl hold
          · exact .inr ⟨.inr hrest.1, hrest.2⟩
        · rintro (hold | ⟨rfl | hmem, hid⟩)
          · exact .inl hold
          · exact absurd hid heq
          · exact .inr ⟨hmem, hid⟩

/-- The edges at a node, in the order in which they are stored. -/
def incidentEdges (document : CanvasDocument) (id : NodeId) : List CanvasEdge :=
  document.edges.values.filter fun edge => edge.source.nodeId == id || edge.target.nodeId == id

variable {edge : CanvasEdge} {id : NodeId}

theorem mem_incidentEdges_iff (hkeyed : document.WellKeyed) :
    edge ∈ document.incidentEdges id ↔ document.edges.get edge.id = some edge ∧
      (edge.source.nodeId == id || edge.target.nodeId == id) = true := by
  rw [incidentEdges, mem_filter, mem_values_iff]
  constructor
  · rintro ⟨⟨key, hget⟩, hat⟩
    rw [hkeyed.edges key edge hget]
    exact ⟨hget, hat⟩
  · rintro ⟨hget, hat⟩
    exact ⟨⟨edge.id, hget⟩, hat⟩

theorem incidentEdges_ids_nodup (hkeyed : document.WellKeyed) (id : NodeId) :
    ((document.incidentEdges id).map (·.id)).Nodup := by
  have hall : (document.edges.values.map (·.id)).Nodup :=
    hkeyed.edges_values_ids ▸ document.edges.nodup
  exact (filter_sublist.map _).nodup hall

/-- A removed node comes back with the edges that were at it. -/
theorem restores_removeNode (hdraft : document.IsDraft) (hnode : document.nodes.get id = some node)
    (hfollows : follower.Follows (document.withoutNode id)) :
    ∃ restored, follower.applyAll
        (.insertNode node :: (document.incidentEdges id).map .insertEdge) = .ok restored ∧
      restored.Follows document := by
  have hid : node.id = id := hdraft.wellKeyed.nodes _ _ hnode
  let restored : CanvasDocument := { follower with nodes := follower.nodes.insert node.id node }
  have hnodes : ∀ other, restored.nodes.get other = document.nodes.get other := by
    intro other
    rw [get_insert, hfollows.records.nodes, withoutNode, get_erase, hid]
    by_cases heq : id = other
    · rw [if_pos heq, ← heq, hnode]
    · rw [if_neg heq, if_neg heq]
  have hedges : ∀ other edge, follower.edges.get other = some edge ↔ document.edges.get other = some
      edge ∧ (edge.source.nodeId == id || edge.target.nodeId == id) = false := by
    intro other edge
    rw [hfollows.records.edges, withoutNode, get_retain_eq_some_iff]
    simp
  have habsent : ∀ edge ∈ document.incidentEdges id, restored.edges.get edge.id = none := by
    intro edge hmem
    cases hget : restored.edges.get edge.id with
    | none => rfl
    | some other =>
      have hother := (hedges edge.id other).mp hget
      have hedge := (mem_incidentEdges_iff hdraft.wellKeyed).mp hmem
      rw [hedge.1] at hother
      obtain rfl := some.inj hother.1
      rw [hedge.2] at hother
      exact absurd hother.2 (by simp)
  have hvalid : ∀ edge ∈ document.incidentEdges id, restored.validateEdge edge = .ok () := by
    intro edge hmem
    rw [validateEdge_congr document (hnodes _) (hnodes _)]
    exact hdraft.records.edges _ edge ((mem_incidentEdges_iff hdraft.wellKeyed).mp hmem).1
  obtain ⟨stored, hinsert, hstored⟩ := applyAll_insertEdges (document.incidentEdges id)
    (incidentEdges_ids_nodup hdraft.wellKeyed id) habsent hvalid
  refine ⟨{ restored with edges := stored }, ?_, ⟨?_, hfollows.keyed, hfollows.within⟩⟩
  · rw [applyAll_cons_ok_iff]
    refine ⟨restored, apply_insertNode_ok_iff.mpr ⟨?_, hdraft.records.nodes _ _ hnode, rfl⟩,
      hinsert⟩
    rw [hfollows.records.nodes, withoutNode, get_erase, if_pos hid.symm]
  · refine ⟨hfollows.records.formatVersion, hfollows.records.metadata, hnodes, ?_,
      hfollows.records.shapes⟩
    intro other
    ext edge
    rw [hstored, hedges other edge, mem_incidentEdges_iff hdraft.wellKeyed]
    constructor
    · rintro (hkept | ⟨⟨hget, _⟩, rfl⟩)
      · exact hkept.1
      · exact hget
    · intro hget
      have hname := hdraft.wellKeyed.edges other edge hget
      cases hat : (edge.source.nodeId == id || edge.target.nodeId == id) with
      | false => exact .inl ⟨hget, rfl⟩
      | true => exact .inr ⟨⟨hname ▸ hget, rfl⟩, hname⟩

theorem undoes_removeNode (hdraft : document.IsDraft)
    (happly : document.apply (.removeNode id) = .ok after)
    (hnode : document.nodes.get id = some node) (hfollows : follower.Follows after) :
    document.Undoes follower (.removeNode id)
      (.insertNode node :: (document.incidentEdges id).map .insertEdge) := by
  obtain ⟨_, rfl⟩ := apply_removeNode_ok_iff.mp happly
  refine undoes_of_records trivial ?_ (restores_removeNode hdraft hnode hfollows)
  intro undo hmem
  rcases mem_cons.mp hmem with rfl | hinsert
  · trivial
  · obtain ⟨edge, _, rfl⟩ := mem_map.mp hinsert
    trivial

/-- One command that a follower with the other records stores the edges again with. -/
theorem undoes_of_edges {command undo : DocumentCommand} (hcommand : IsRecordCommand command)
    (hundo : IsRecordCommand undo) {stored before : IndexMap EdgeId CanvasEdge}
    (hfollows : follower.Follows { document with edges := before })
    (happly : follower.apply undo = .ok { follower with edges := stored })
    (hstored : ∀ id, stored.get id = document.edges.get id) :
    document.Undoes follower command [undo] :=
  undoes_of_records hcommand (forall_mem_singleton.mpr hundo)
    ⟨_, applyAll_singleton_ok_iff.mpr happly, ⟨hfollows.records.formatVersion,
      hfollows.records.metadata, hfollows.records.nodes, hstored, hfollows.records.shapes⟩,
      hfollows.keyed, hfollows.within⟩

theorem undoes_of_shapes {command undo : DocumentCommand} (hcommand : IsRecordCommand command)
    (hundo : IsRecordCommand undo) {stored before : IndexMap ShapeId CanvasShape}
    (hfollows : follower.Follows { document with shapes := before })
    (happly : follower.apply undo = .ok { follower with shapes := stored })
    (hstored : ∀ id, stored.get id = document.shapes.get id) :
    document.Undoes follower command [undo] :=
  undoes_of_records hcommand (forall_mem_singleton.mpr hundo)
    ⟨_, applyAll_singleton_ok_iff.mpr happly, ⟨hfollows.records.formatVersion,
      hfollows.records.metadata, hfollows.records.nodes, hfollows.records.edges, hstored⟩,
      hfollows.keyed, hfollows.within⟩

theorem undoes_insertEdge
    (happly : document.apply (.insertEdge edge) = .ok after) (hfollows : follower.Follows after) :
    document.Undoes follower (.insertEdge edge) [.removeEdge edge.id] := by
  obtain ⟨habsent, _, rfl⟩ := apply_insertEdge_ok_iff.mp happly
  have hget := hfollows.records.edges
  refine undoes_of_edges trivial trivial hfollows (apply_removeEdge_ok_iff.mpr ⟨⟨edge, ?_⟩, rfl⟩)
    (get_erase_insert habsent hget)
  rw [hget, get_insert, if_pos rfl]

theorem undoes_updateEdge {old : CanvasEdge} (hdraft : document.IsDraft)
    (happly : document.apply (.updateEdge edge) = .ok after)
    (hold : document.edges.get edge.id = some old) (hfollows : follower.Follows after) :
    document.Undoes follower (.updateEdge edge) [.updateEdge old] := by
  obtain ⟨_, _, rfl⟩ := apply_updateEdge_ok_iff.mp happly
  have hid : old.id = edge.id := hdraft.wellKeyed.edges _ _ hold
  have hget := hfollows.records.edges
  refine undoes_of_edges trivial trivial hfollows
    (apply_updateEdge_ok_iff.mpr ⟨⟨edge, ?_⟩, ?_, rfl⟩) fun id => ?_
  · rw [hget, hid, get_insert, if_pos rfl]
  · rw [validateEdge_congr document (hfollows.records.nodes _) (hfollows.records.nodes _)]
    exact hdraft.records.edges _ old hold
  · rw [hid]
    exact get_insert_insert hold hget id

theorem undoes_removeEdge {id : EdgeId} (hdraft : document.IsDraft)
    (happly : document.apply (.removeEdge id) = .ok after)
    (hold : document.edges.get id = some edge) (hfollows : follower.Follows after) :
    document.Undoes follower (.removeEdge id) [.insertEdge edge] := by
  obtain ⟨_, rfl⟩ := apply_removeEdge_ok_iff.mp happly
  have hid : edge.id = id := hdraft.wellKeyed.edges _ _ hold
  have hget := hfollows.records.edges
  refine undoes_of_edges trivial trivial hfollows (apply_insertEdge_ok_iff.mpr ⟨?_, ?_, rfl⟩)
    fun other => ?_
  · rw [hget, hid, get_erase, if_pos rfl]
  · rw [validateEdge_congr document (hfollows.records.nodes _) (hfollows.records.nodes _)]
    exact hdraft.records.edges _ edge hold
  · rw [hid]
    exact get_insert_erase hold hget other

variable {shape : CanvasShape}

theorem undoes_insertShape
    (happly : document.apply (.insertShape shape) = .ok after) (hfollows : follower.Follows after) :
    document.Undoes follower (.insertShape shape) [.removeShape shape.id] := by
  obtain ⟨habsent, rfl⟩ := apply_insertShape_ok_iff.mp happly
  have hget := hfollows.records.shapes
  refine undoes_of_shapes trivial trivial hfollows (apply_removeShape_ok_iff.mpr ⟨⟨shape, ?_⟩, rfl⟩)
    (get_erase_insert habsent hget)
  rw [hget, get_insert, if_pos rfl]

theorem undoes_updateShape {old : CanvasShape} (hdraft : document.IsDraft)
    (happly : document.apply (.updateShape shape) = .ok after)
    (hold : document.shapes.get shape.id = some old) (hfollows : follower.Follows after) :
    document.Undoes follower (.updateShape shape) [.updateShape old] := by
  obtain ⟨_, rfl⟩ := apply_updateShape_ok_iff.mp happly
  have hid : old.id = shape.id := hdraft.wellKeyed.shapes _ _ hold
  have hget := hfollows.records.shapes
  refine undoes_of_shapes trivial trivial hfollows (apply_updateShape_ok_iff.mpr ⟨⟨shape, ?_⟩, rfl⟩)
    fun id => ?_
  · rw [hget, hid, get_insert, if_pos rfl]
  · rw [hid]
    exact get_insert_insert hold hget id

theorem undoes_removeShape {id : ShapeId} (hdraft : document.IsDraft)
    (happly : document.apply (.removeShape id) = .ok after)
    (hold : document.shapes.get id = some shape) (hfollows : follower.Follows after) :
    document.Undoes follower (.removeShape id) [.insertShape shape] := by
  obtain ⟨_, rfl⟩ := apply_removeShape_ok_iff.mp happly
  have hid : shape.id = id := hdraft.wellKeyed.shapes _ _ hold
  have hget := hfollows.records.shapes
  refine undoes_of_shapes trivial trivial hfollows (apply_insertShape_ok_iff.mpr ⟨?_, rfl⟩)
    fun other => ?_
  · rw [hget, hid, get_erase, if_pos rfl]
  · rw [hid]
    exact get_insert_erase hold hget other

end UndoRecords

/-- The record a command on an existing record needs. -/
theorem stored_eq_ok {ν : Type} {records : IndexMap String ν} {id : String}
    {missing : String → DocumentError} {record : ν} :
    stored records id missing = .ok record ↔ records.get id = some record := by
  rw [stored]
  cases records.get id with
  | none => simp
  | some found => simp

variable {document after follower : CanvasDocument} {command : DocumentCommand}
  {segment : List DocumentCommand}

/-- What the inverse of a command is where the command applies. -/
inductive IsInverse (document : CanvasDocument) : DocumentCommand → List DocumentCommand → Prop
  | insertNode (node : CanvasNode) : IsInverse document (.insertNode node) [.removeNode node.id]
  | updateNode {node old : CanvasNode} (hold : document.nodes.get node.id = some old) :
      IsInverse document (.updateNode node) [.updateNode old]
  | removeNode {id : NodeId} {node : CanvasNode} (hnode : document.nodes.get id = some node) :
      IsInverse document (.removeNode id)
        (.insertNode node :: (document.incidentEdges id).map .insertEdge)
  | insertEdge (edge : CanvasEdge) : IsInverse document (.insertEdge edge) [.removeEdge edge.id]
  | updateEdge {edge old : CanvasEdge} (hold : document.edges.get edge.id = some old) :
      IsInverse document (.updateEdge edge) [.updateEdge old]
  | removeEdge {id : EdgeId} {old : CanvasEdge} (hold : document.edges.get id = some old) :
      IsInverse document (.removeEdge id) [.insertEdge old]
  | insertShape (shape : CanvasShape) :
      IsInverse document (.insertShape shape) [.removeShape shape.id]
  | updateShape {shape old : CanvasShape} (hold : document.shapes.get shape.id = some old) :
      IsInverse document (.updateShape shape) [.updateShape old]
  | removeShape {id : ShapeId} {old : CanvasShape} (hold : document.shapes.get id = some old) :
      IsInverse document (.removeShape id) [.insertShape old]
  | set {relation : CanvasRecordRelation} {segment : List DocumentCommand}
      (hstored : document.StoresEnds relation) (hundo : document.IsUndoOfSet relation segment) :
      IsInverse document (setCommand relation) segment
  | drop {key : CanvasRelationKey} {segment : List DocumentCommand}
      (hstored : ∀ id ∈ keyRecords key, document.containsRecord id = true)
      (hundo : document.IsUndoOfDrop key segment) : IsInverse document (dropCommand key) segment

variable (hdraft : document.IsDraft)

include hdraft

variable (happly : document.apply command = .ok after)

include happly

section

variable (hinverse : document.inverseFor command = .ok segment)

include hinverse

theorem isInverse_of_inverseFor : document.IsInverse command segment := by
  have hset : ∀ relation, document.apply (setCommand relation) = .ok after → document.inverseFor
      (setCommand relation) = .ok segment → document.IsInverse (setCommand relation) segment := by
    intro relation happly hinverse
    obtain ⟨hends, hstored, _⟩ := apply_set_ok_iff.mp happly
    obtain ⟨other, hother, hundo⟩ := inverseFor_set_of_apply hdraft.keyed hends hstored
    rw [hinverse, Except.ok.injEq] at hother
    exact .set hstored (hother ▸ hundo)
  have hdrop : ∀ key, document.inverseFor (dropCommand key) = .ok segment →
      document.IsInverse (dropCommand key) segment := by
    intro key hinverse
    obtain ⟨hundo, hstored⟩ := inverseFor_drop_ok hdraft.keyed hinverse
    exact .drop hstored hundo
  -- a command on a stored record needs the record
  have hneeds : ∀ {ν : Type} {records : IndexMap String ν} {id : String}
      {missing : String → DocumentError} {undo : ν → List DocumentCommand},
      (do return undo (← stored records id missing)) = Except.ok segment →
        ∃ record, records.get id = some record ∧ undo record = segment := by
    intro ν records id missing undo h
    obtain ⟨record, hrecord, h⟩ := bind_eq_ok.mp h
    exact ⟨record, stored_eq_ok.mp hrecord, pure_eq_ok.mp h⟩
  cases command with
  | insertNode node =>
    rw [inverseFor, guard_eq_ok, check_bind_eq_ok, pure_eq_ok] at hinverse
    exact hinverse.2.2 ▸ .insertNode node
  | insertEdge edge =>
    rw [inverseFor, guard_eq_ok, check_bind_eq_ok, pure_eq_ok] at hinverse
    exact hinverse.2.2 ▸ .insertEdge edge
  | insertShape shape =>
    rw [inverseFor, guard_eq_ok, Except.ok.injEq] at hinverse
    exact hinverse.2 ▸ .insertShape shape
  | updateNode node =>
    obtain ⟨old, hold, rfl⟩ := hneeds hinverse
    exact .updateNode hold
  | removeNode id =>
    obtain ⟨node, hnode, rfl⟩ := hneeds hinverse
    exact .removeNode hnode
  | updateEdge edge =>
    obtain ⟨old, hold, rfl⟩ := hneeds hinverse
    exact .updateEdge hold
  | removeEdge id =>
    obtain ⟨old, hold, rfl⟩ := hneeds hinverse
    exact .removeEdge hold
  | updateShape shape =>
    obtain ⟨old, hold, rfl⟩ := hneeds hinverse
    exact .updateShape hold
  | removeShape id =>
    obtain ⟨old, hold, rfl⟩ := hneeds hinverse
    exact .removeShape hold
  | setRecordParent child parent => exact hset (.parent ⟨child, parent⟩) happly hinverse
  | addRecordToGroup group member => exact hset (.group ⟨group, member⟩) happly hinverse
  | setRecordBinding binding => exact hset (.binding binding) happly hinverse
  | clearRecordParent child => exact hdrop (.parent child) hinverse
  | removeRecordFromGroup group member => exact hdrop (.group group member) hinverse
  | removeRecordBinding id => exact hdrop (.binding id) hinverse

/-- Replaying the inverse of any command that applied leads back to the draft before
it exactly when the command is reversible there. -/
theorem undoes_of_inverseFor (hfollows : follower.Follows after) :
    document.Undoes follower command segment := by
  cases isInverse_of_inverseFor hdraft happly hinverse with
  | insertNode node => exact undoes_insertNode hdraft happly hfollows
  | updateNode hold => exact undoes_updateNode hdraft happly hold hfollows
  | removeNode hnode => exact undoes_removeNode hdraft happly hnode hfollows
  | insertEdge edge => exact undoes_insertEdge happly hfollows
  | updateEdge hold => exact undoes_updateEdge hdraft happly hold hfollows
  | removeEdge hold => exact undoes_removeEdge hdraft happly hold hfollows
  | insertShape shape => exact undoes_insertShape happly hfollows
  | updateShape hold => exact undoes_updateShape hdraft happly hold hfollows
  | removeShape hold => exact undoes_removeShape hdraft happly hold hfollows
  | set hstored hundo =>
    obtain ⟨_, _, rfl⟩ := apply_set_ok_iff.mp happly
    exact undoes_set hdraft hstored hfollows hundo
  | drop hstored hundo =>
    rw [apply_drop, Except.ok.injEq] at happly
    subst happly
    exact undoes_drop hdraft hstored hfollows hundo

end

/-- A reversible command that applies has an inverse. -/
theorem inverseFor_of_reversible (hreversible : document.Reversible command) :
    ∃ segment, document.inverseFor command = .ok segment := by
  have hset : ∀ relation, document.apply (setCommand relation) = .ok after →
      ∃ segment, document.inverseFor (setCommand relation) = .ok segment := by
    intro relation happly
    obtain ⟨hends, hstored, _⟩ := apply_set_ok_iff.mp happly
    obtain ⟨segment, hinverse, _⟩ := inverseFor_set_of_apply hdraft.keyed hends hstored
    exact ⟨segment, hinverse⟩
  have hdrop : ∀ key, document.Reversible (dropCommand key) →
      ∃ segment, document.inverseFor (dropCommand key) = .ok segment :=
    fun key h => inverseFor_drop_of_stored ((reversible_drop_iff hdraft.keyed key).mp h).1
  have hstored : ∀ {ν : Type} {records : IndexMap String ν} {id : String} {record : ν}
      {missing : String → DocumentError} {undo : ν → List DocumentCommand},
      records.get id = some record →
        ∃ segment, (do return undo (← stored records id missing)) = Except.ok segment := by
    intro ν records id record missing undo hget
    exact ⟨undo record, bind_eq_ok.mpr ⟨record, stored_eq_ok.mpr hget, rfl⟩⟩
  cases command with
  | insertNode node =>
    obtain ⟨habsent, hnode, _⟩ := apply_insertNode_ok_iff.mp happly
    refine ⟨[.removeNode node.id], ?_⟩
    rw [inverseFor, guard_eq_ok, check_bind_eq_ok, not_eq_true, containsKey_eq_false_iff]
    exact ⟨habsent, hnode, rfl⟩
  | insertEdge edge =>
    obtain ⟨habsent, hedge, _⟩ := apply_insertEdge_ok_iff.mp happly
    refine ⟨[.removeEdge edge.id], ?_⟩
    rw [inverseFor, guard_eq_ok, check_bind_eq_ok, not_eq_true, containsKey_eq_false_iff]
    exact ⟨habsent, hedge, rfl⟩
  | insertShape shape =>
    obtain ⟨habsent, _⟩ := apply_insertShape_ok_iff.mp happly
    refine ⟨[.removeShape shape.id], ?_⟩
    rw [inverseFor, guard_eq_ok, not_eq_true, containsKey_eq_false_iff]
    exact ⟨habsent, rfl⟩
  | updateNode node =>
    obtain ⟨⟨old, hold⟩, _⟩ := apply_updateNode_ok_iff.mp happly
    exact hstored hold
  | removeNode id =>
    obtain ⟨⟨node, hnode⟩, _⟩ := apply_removeNode_ok_iff.mp happly
    exact ⟨_, bind_eq_ok.mpr ⟨node, stored_eq_ok.mpr hnode, rfl⟩⟩
  | updateEdge edge =>
    obtain ⟨⟨old, hold⟩, _⟩ := apply_updateEdge_ok_iff.mp happly
    exact hstored hold
  | removeEdge id =>
    obtain ⟨⟨old, hold⟩, _⟩ := apply_removeEdge_ok_iff.mp happly
    exact hstored hold
  | updateShape shape =>
    obtain ⟨⟨old, hold⟩, _⟩ := apply_updateShape_ok_iff.mp happly
    exact hstored hold
  | removeShape id =>
    obtain ⟨⟨old, hold⟩, _⟩ := apply_removeShape_ok_iff.mp happly
    exact hstored hold
  | setRecordParent child parent => exact hset (.parent ⟨child, parent⟩) happly
  | addRecordToGroup group member => exact hset (.group ⟨group, member⟩) happly
  | setRecordBinding binding => exact hset (.binding binding) happly
  | clearRecordParent child => exact hdrop (.parent child) hreversible
  | removeRecordFromGroup group member => exact hdrop (.group group member) hreversible
  | removeRecordBinding id => exact hdrop (.binding id) hreversible

end OpenGpui.Canvas.CanvasDocument
