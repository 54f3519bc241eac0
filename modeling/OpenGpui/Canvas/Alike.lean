/-
Documents that agree up to the order of what they store and up to records that
compare equal.  Such documents accept the same commands and stay alike, so that one
can stand for the other when transactions are committed.
-/
import OpenGpui.Canvas.RecordEquality
import OpenGpui.Canvas.GestureExact

namespace OpenGpui.Canvas.CanvasDocument

open Checked CanvasDocument CanvasMutationJournal CanvasRecordRelations

structure AlikeDocuments (document other : CanvasDocument) : Prop where
  formatVersion : document.formatVersion = other.formatVersion
  metadata : document.metadata = other.metadata
  nodes : document.nodes.AlikeMaps other.nodes
  edges : document.edges.AlikeMaps other.edges
  shapes : document.shapes.AlikeMaps other.shapes
  relations : ∀ relation, document.relations.Holds relation ↔ other.relations.Holds relation

theorem SameContents.alike {document other : CanvasDocument} (h : document.SameContents other) :
    document.AlikeDocuments other :=
  ⟨h.records.formatVersion, h.records.metadata, .of_get h.records.nodes, .of_get h.records.edges,
    .of_get h.records.shapes, h.relations⟩

namespace AlikeDocuments

section Equivalence

variable {document other last : CanvasDocument}

theorem refl (document : CanvasDocument) : document.AlikeDocuments document :=
  ⟨rfl, rfl, .refl _, .refl _, .refl _, fun _ => Iff.rfl⟩

section

variable (h : document.AlikeDocuments other)

include h

theorem symm : other.AlikeDocuments document :=
  ⟨h.formatVersion.symm, h.metadata.symm, h.nodes.symm, h.edges.symm, h.shapes.symm,
    fun relation => (h.relations relation).symm⟩

theorem trans (hnext : other.AlikeDocuments last) : document.AlikeDocuments last :=
  ⟨h.formatVersion.trans hnext.formatVersion, h.metadata.trans hnext.metadata,
    h.nodes.trans hnext.nodes, h.edges.trans hnext.edges, h.shapes.trans hnext.shapes,
    fun relation => (h.relations relation).trans (hnext.relations relation)⟩

/-- A document that is like one that is equal to itself is equal to it. -/
theorem beq (hkeyed : document.relations.Keyed)
    (hother : other.relations.Keyed) (hself : (other == other) = true) :
    (document == other) = true := by
  obtain ⟨hversion, hnodes, hedges, hshapes, hmetadata, _⟩ := parts_beq_iff.mp hself
  rw [parts_beq_iff, h.formatVersion, h.metadata]
  exact ⟨hversion, h.nodes.beq hnodes, h.edges.beq hedges, h.shapes.beq hshapes, hmetadata,
    beq_of_holds_iff hkeyed hother h.relations⟩

theorem containsRecord (id : CanvasRecordId) :
    document.containsRecord id = other.containsRecord id := by
  cases id with
  | node id => exact h.nodes.1 id
  | edge id => exact h.edges.1 id
  | shape id => exact h.shapes.1 id

theorem storesEnds (relation : CanvasRecordRelation) :
    document.StoresEnds relation ↔ other.StoresEnds relation := by
  rw [StoresEnds, StoresEnds, h.containsRecord, h.containsRecord]

theorem portsWithin : document.PortsWithin other := by
  intro id node hget
  obtain ⟨counterpart, hcounterpart, halike⟩ := h.nodes.exists_right hget
  refine ⟨counterpart, hcounterpart, fun handleId => ?_⟩
  rcases halike with rfl | hequal
  · rfl
  · exact CanvasNode.port_of_beq hequal handleId

end

theorem edge_ends {edge other : CanvasEdge} (h : Alike edge other) :
    edge.source = other.source ∧ edge.target = other.target := by
  rcases h with rfl | hequal
  · exact ⟨rfl, rfl⟩
  · exact CanvasEdge.ends_of_beq hequal

theorem wellFormed (h : document.AlikeDocuments other) (hkeyed : document.relations.Keyed)
    (hwellFormed : other.RelationsWellFormed) : document.RelationsWellFormed :=
  hwellFormed.within (fun id => (h.containsRecord id).symm) hkeyed
    fun relation => (h.relations relation).mp

end Equivalence

variable {document other after : CanvasDocument} {command : DocumentCommand}

variable (h : document.AlikeDocuments other)

include h

/-- Commands write alike. -/
theorem effect (hkeyed : document.relations.Keyed)
    (hother : other.relations.Keyed) (command : DocumentCommand) :
    (document.effect command).AlikeDocuments (other.effect command) := by
  have hset : ∀ relation, (document.effect (setCommand relation)).AlikeDocuments
      (other.effect (setCommand relation)) := by
    intro relation
    rw [effect_setCommand, effect_setCommand]
    refine ⟨h.formatVersion, h.metadata, h.nodes, h.edges, h.shapes, fun held => ?_⟩
    refine (holds_upsert_iff hkeyed relation held).trans ?_
    rw [h.relations]
    exact (holds_upsert_iff hother relation held).symm
  have hdrop : ∀ key, (document.effect (dropCommand key)).AlikeDocuments
      (other.effect (dropCommand key)) := by
    intro key
    rw [effect_dropCommand, effect_dropCommand]
    refine ⟨h.formatVersion, h.metadata, h.nodes, h.edges, h.shapes, fun held => ?_⟩
    refine (holds_drop_iff hkeyed key held).trans ?_
    rw [h.relations]
    exact (holds_drop_iff hother key held).symm
  cases command with
  | insertNode node | updateNode node =>
    exact ⟨h.formatVersion, h.metadata, h.nodes.insert _ _, h.edges, h.shapes, h.relations⟩
  | removeNode id =>
    refine ⟨h.formatVersion, h.metadata, h.nodes.erase _, h.edges.retain ?_, h.shapes, h.relations⟩
    intro key left right halike
    obtain ⟨hsource, htarget⟩ := edge_ends halike
    rw [hsource, htarget]
  | insertEdge edge | updateEdge edge =>
    exact ⟨h.formatVersion, h.metadata, h.nodes, h.edges.insert _ _, h.shapes, h.relations⟩
  | removeEdge id =>
    exact ⟨h.formatVersion, h.metadata, h.nodes, h.edges.erase _, h.shapes, h.relations⟩
  | insertShape shape | updateShape shape =>
    exact ⟨h.formatVersion, h.metadata, h.nodes, h.edges, h.shapes.insert _ _, h.relations⟩
  | removeShape id =>
    exact ⟨h.formatVersion, h.metadata, h.nodes, h.edges, h.shapes.erase _, h.relations⟩
  | setRecordParent child parent => exact hset (.parent ⟨child, parent⟩)
  | addRecordToGroup group member => exact hset (.group ⟨group, member⟩)
  | setRecordBinding binding => exact hset (.binding binding)
  | clearRecordParent child => exact hdrop (.parent child)
  | removeRecordFromGroup group member => exact hdrop (.group group member)
  | removeRecordBinding id => exact hdrop (.binding id)

/-- After an accepted node update the draft is valid in the other document too: its
edges compare equal to those that were checked. -/
theorem validateIntegrity (hvalid : document.validateIntegrity = .ok ()) (hnodes : ∀ id node,
      other.nodes.get id = some node → validateNode node = .ok ())
    (hroutes : ∀ id edge, other.edges.get id = some edge → validateEdgeRoute edge = .ok ())
    (hkeyed : other.relations.Keyed) : other.validateIntegrity = .ok () := by
  obtain ⟨hrecords, hwellFormed⟩ := (validateIntegrity_ok_iff document).mp hvalid
  rw [validateIntegrity_ok_iff]
  refine ⟨⟨hnodes, ?_⟩, h.symm.wellFormed hkeyed hwellFormed⟩
  intro id edge hget
  obtain ⟨counterpart, hcounterpart, halike⟩ := h.symm.edges.exists_right hget
  have hedge := (validateEdge_ok_iff document counterpart).mp
    (hrecords.edges id counterpart hcounterpart)
  obtain ⟨hsource, htarget⟩ := edge_ends halike
  rw [validateEdge_ok_iff, hsource, htarget]
  exact ⟨hroutes id edge hget, hedge.2.1.of_ports h.portsWithin, hedge.2.2.of_ports h.portsWithin⟩

theorem validateEdge {edge : CanvasEdge}
    (hedge : document.validateEdge edge = .ok ()) : other.validateEdge edge = .ok () :=
  validateEdge_of_ports hedge h.portsWithin

/-- A command that applies to one of two like drafts applies to the other. -/
theorem apply (hdraft : document.IsDraft)
    (hother : other.IsDraft) (happly : document.apply command = .ok after) :
    other.apply command = .ok (other.effect command) := by
  have hset : ∀ relation, document.apply (setCommand relation) = .ok after →
      other.apply (setCommand relation) = .ok (other.effect (setCommand relation)) := by
    intro relation hset
    obtain ⟨hends, hstored, _⟩ := apply_set_ok_iff.mp hset
    rw [effect_setCommand]
    exact apply_set_ok_iff.mpr ⟨hends, (h.storesEnds relation).mp hstored, rfl⟩
  have hdrop : ∀ key, other.apply (dropCommand key) = .ok (other.effect (dropCommand key)) := by
    intro key
    rw [effect_dropCommand]
    exact apply_drop other key
  cases command with
  | insertNode node =>
    obtain ⟨habsent, hnode, _⟩ := apply_insertNode_ok_iff.mp happly
    exact apply_insertNode_ok_iff.mpr ⟨h.nodes.get_none habsent, hnode, rfl⟩
  | updateNode node =>
    have hafter := effect_of_apply happly
    obtain ⟨⟨old, hold⟩, hnode, hintegrity, _⟩ := apply_updateNode_ok_iff.mp happly
    obtain ⟨counterpart, hcounterpart, _⟩ := h.nodes.exists_right hold
    refine apply_updateNode_ok_iff.mpr ⟨⟨counterpart, hcounterpart⟩, hnode, ?_, rfl⟩
    rw [hafter] at hintegrity
    refine (h.effect hdraft.keyed hother.keyed (.updateNode node)).validateIntegrity hintegrity
      ?_ ?_ hother.keyed
    · intro id stored hget
      have hstored : (other.nodes.insert node.id node).get id = some stored := hget
      rw [IndexMap.get_insert] at hstored
      by_cases heq : node.id = id
      · rw [if_pos heq, Option.some.injEq] at hstored
        exact hstored ▸ hnode
      · rw [if_neg heq] at hstored
        exact hother.records.nodes id stored hstored
    · intro id edge hget
      have hedge := hother.records.edges id edge hget
      exact ((validateEdge_ok_iff other edge).mp hedge).1
  | removeNode id =>
    obtain ⟨⟨node, hnode⟩, _⟩ := apply_removeNode_ok_iff.mp happly
    obtain ⟨counterpart, hcounterpart, _⟩ := h.nodes.exists_right hnode
    exact apply_removeNode_ok_iff.mpr ⟨⟨counterpart, hcounterpart⟩, rfl⟩
  | insertEdge edge =>
    obtain ⟨habsent, hedge, _⟩ := apply_insertEdge_ok_iff.mp happly
    exact apply_insertEdge_ok_iff.mpr ⟨h.edges.get_none habsent, h.validateEdge hedge, rfl⟩
  | updateEdge edge =>
    obtain ⟨⟨old, hold⟩, hedge, _⟩ := apply_updateEdge_ok_iff.mp happly
    obtain ⟨counterpart, hcounterpart, _⟩ := h.edges.exists_right hold
    exact apply_updateEdge_ok_iff.mpr ⟨⟨counterpart, hcounterpart⟩, h.validateEdge hedge, rfl⟩
  | removeEdge id =>
    obtain ⟨⟨edge, hedge⟩, _⟩ := apply_removeEdge_ok_iff.mp happly
    obtain ⟨counterpart, hcounterpart, _⟩ := h.edges.exists_right hedge
    exact apply_removeEdge_ok_iff.mpr ⟨⟨counterpart, hcounterpart⟩, rfl⟩
  | insertShape shape =>
    obtain ⟨habsent, _⟩ := apply_insertShape_ok_iff.mp happly
    exact apply_insertShape_ok_iff.mpr ⟨h.shapes.get_none habsent, rfl⟩
  | updateShape shape =>
    obtain ⟨⟨old, hold⟩, _⟩ := apply_updateShape_ok_iff.mp happly
    obtain ⟨counterpart, hcounterpart, _⟩ := h.shapes.exists_right hold
    exact apply_updateShape_ok_iff.mpr ⟨⟨counterpart, hcounterpart⟩, rfl⟩
  | removeShape id =>
    obtain ⟨⟨shape, hshape⟩, _⟩ := apply_removeShape_ok_iff.mp happly
    obtain ⟨counterpart, hcounterpart, _⟩ := h.shapes.exists_right hshape
    exact apply_removeShape_ok_iff.mpr ⟨⟨counterpart, hcounterpart⟩, rfl⟩
  | setRecordParent child parent => exact hset (.parent ⟨child, parent⟩) happly
  | addRecordToGroup group member => exact hset (.group ⟨group, member⟩) happly
  | setRecordBinding binding => exact hset (.binding binding) happly
  | clearRecordParent child => exact hdrop (.parent child)
  | removeRecordFromGroup group member => exact hdrop (.group group member)
  | removeRecordBinding id => exact hdrop (.binding id)

section

variable (hkeyed : document.relations.Keyed)

include hkeyed

variable (hother : other.relations.Keyed)

include hother

theorem parentOf (child : CanvasRecordId) :
    document.relations.parentOf child = other.relations.parentOf child := by
  ext parent
  rw [parentOf_eq_some_iff hkeyed, parentOf_eq_some_iff hother, h.relations]

theorem binding (id : BindingId) : document.relations.binding id = other.relations.binding id := by
  ext binding
  rw [binding_eq_some_iff hkeyed, binding_eq_some_iff hother, h.relations]

/-- Commands are reversible in like documents alike. -/
theorem reversible (hreversible : document.Reversible command) : other.Reversible command := by
  have hstored : ∀ child parent, (document.relations.parentOf child = some parent →
      document.containsRecord parent = true) → other.relations.parentOf child = some parent →
        other.containsRecord parent = true := by
    intro child parent hreplaced hparent
    rw [← h.containsRecord]
    exact hreplaced ((h.parentOf hkeyed hother child).trans hparent)
  have hbound : ∀ id previous, (document.relations.binding id = some previous →
      document.StoresEnds (.binding previous)) → other.relations.binding id = some previous →
        other.StoresEnds (.binding previous) := by
    intro id previous hreplaced hbinding
    rw [← h.storesEnds]
    exact hreplaced ((h.binding hkeyed hother id).trans hbinding)
  cases command with
  | setRecordParent child _ => exact fun parent => hstored child parent (hreversible parent)
  | clearRecordParent child =>
    obtain ⟨hchild, hparents⟩ := hreversible
    exact ⟨(h.containsRecord child).symm.trans hchild,
      fun parent => hstored child parent (hparents parent)⟩
  | removeRecordFromGroup group member =>
    obtain ⟨hgroup, hmember⟩ := hreversible
    exact ⟨(h.containsRecord group).symm.trans hgroup, (h.containsRecord member).symm.trans hmember⟩
  | setRecordBinding binding =>
    exact fun previous => hbound binding.id previous (hreversible previous)
  | removeRecordBinding id => exact fun previous => hbound id previous (hreversible previous)
  | _ => trivial

end

variable {commands : List DocumentCommand}

theorem reversibleAlong (hdraft : document.IsDraft) (hother : other.IsDraft)
    (happlies : document.Applies commands) (hreversible : document.ReversibleAlong commands) :
    other.ReversibleAlong commands := by
  induction commands generalizing document other with
  | nil => trivial
  | cons command rest ih =>
    obtain ⟨⟨after, happly⟩, hrest⟩ := applies_cons_iff.mp happlies
    refine ⟨h.reversible hdraft.keyed hother.keyed hreversible.1, fun draft hotherApply => ?_⟩
    have hdraftAfter := apply_isDraft hdraft happly
    have hotherAfter := apply_isDraft hother hotherApply
    have hlater := hreversible.2 after happly
    rw [effect_of_apply happly] at hdraftAfter hlater
    rw [effect_of_apply hotherApply] at hotherAfter ⊢
    exact ih (h.effect hdraft.keyed hother.keyed command) hdraftAfter hotherAfter hrest hlater

/-- Commands that apply to one of two like drafts apply to the other, with like
results. -/
theorem applies
    (hdraft : document.IsDraft) (hother : other.IsDraft) (happlies : document.Applies commands) :
    other.Applies commands ∧
      (document.effects commands).AlikeDocuments (other.effects commands) := by
  induction commands generalizing document other with
  | nil => exact ⟨⟨other, rfl⟩, h⟩
  | cons command rest ih =>
    obtain ⟨⟨after, happly⟩, hrest⟩ := applies_cons_iff.mp happlies
    have hotherApply := h.apply hdraft hother happly
    have hdraftAfter := apply_isDraft hdraft happly
    have hotherAfter := apply_isDraft hother hotherApply
    rw [effect_of_apply happly] at hdraftAfter
    obtain ⟨hotherRest, halike⟩ := ih (h.effect hdraft.keyed hother.keyed command) hdraftAfter
      hotherAfter hrest
    exact ⟨applies_cons_iff.mpr ⟨⟨_, hotherApply⟩, hotherRest⟩, halike⟩

theorem pruneMissingRelations :
    document.pruneMissingRelations.AlikeDocuments other.pruneMissingRelations := by
  refine ⟨h.formatVersion, h.metadata, h.nodes, h.edges, h.shapes, fun relation => ?_⟩
  rw [CanvasDocument.pruneMissingRelations, CanvasDocument.pruneMissingRelations,
    CanvasRecordRelations.holds_prune_iff, CanvasRecordRelations.holds_prune_iff, h.relations]
  simp only [mem_recordIdSet_iff, h.containsRecord]

end AlikeDocuments

end OpenGpui.Canvas.CanvasDocument
