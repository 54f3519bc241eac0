/-
When the commands between two documents apply.  Removals always do; a node update
needs the whole draft to be valid, relations that were not yet pruned included; an
edge update needs the edge not to be gone with a node.
-/
import OpenGpui.Canvas.GestureContents

namespace OpenGpui.Canvas

open Checked Bool DocumentCommand IndexMap List

/-- What an edge needs to know of a handle: its role and whether it connects. -/
def CanvasNode.port (node : CanvasNode) (id : HandleId) : Option (HandleRole × Bool) :=
  (node.handle (some id)).map fun handle => (handle.role, handle.connectable)

/-- Nodes that compare equal have the same ports. -/
theorem CanvasNode.port_of_beq {node other : CanvasNode} (h : (node == other) = true)
    (id : HandleId) : node.port id = other.port id := by
  have hparts : (node == other) = (node.id == other.id && (node.kind == other.kind && (node.position
    == other.position && (node.size == other.size && (node.zIndex == other.zIndex && (node.hidden ==
    other.hidden && (node.locked == other.locked && (node.handles == other.handles && (node.data ==
    other.data && node.style == other.style))))))))) := rfl
  simp only [hparts, and_eq_true] at h
  obtain ⟨_, _, _, _, _, _, _, hhandles, _⟩ := h
  rw [port, port, CanvasNode.handle, CanvasNode.handle]
  revert hhandles
  generalize node.handles = handles
  generalize other.handles = others
  intro hhandles
  induction handles generalizing others with
  | nil =>
    cases others with
    | nil => rfl
    | cons second others => exact absurd hhandles (by simp)
  | cons first handles ih =>
    cases others with
    | nil => exact absurd hhandles (by simp)
    | cons second others =>
      have hfields : (first == second) = (first.id == second.id && (first.role == second.role &&
        (first.position == second.position && (first.size == second.size &&
          (first.connectable == second.connectable && first.hidden == second.hidden))))) := rfl
      rw [cons_beq_cons, and_eq_true] at hhandles
      obtain ⟨hfirst, hrest⟩ := hhandles
      simp only [hfields, and_eq_true, beq_iff_eq] at hfirst
      obtain ⟨hid, hrole, _, _, hconnectable, _⟩ := hfirst
      by_cases heq : (first.id == id) = true
      · simp [heq, ← hid, hrole, hconnectable]
      · simp [heq, ← hid, ih others hrest]

namespace CanvasDocument

variable {document : CanvasDocument} {endpoint : CanvasEndpoint} {opposite : HandleRole}

theorem endpointFits_iff_port : document.EndpointFits endpoint opposite ↔
      ∃ node, document.nodes.get endpoint.nodeId = some node ∧
        ∀ handleId, endpoint.handleId = some handleId →
          ∃ role, node.port handleId = some (role, true) ∧ role ≠ opposite := by
  refine exists_congr fun node => and_congr_right fun _ => forall₂_congr fun handleId _ => ?_
  rw [CanvasNode.port]
  constructor
  · rintro ⟨handle, hhandle, hconnectable, hrole⟩
    exact ⟨handle.role, by rw [hhandle, Option.map_some, hconnectable], hrole⟩
  · rintro ⟨role, hport, hrole⟩
    obtain ⟨handle, hhandle, heq⟩ := Option.map_eq_some_iff.mp hport
    obtain ⟨rfl, hconnectable⟩ := Prod.mk.inj heq
    exact ⟨handle, hhandle, hconnectable, hrole⟩

/-- Each node of the first document has a node with the same ports in the second. -/
def PortsWithin (document other : CanvasDocument) : Prop :=
  ∀ id node, document.nodes.get id = some node →
    ∃ counterpart, other.nodes.get id = some counterpart ∧ ∀ handleId,
      node.port handleId = counterpart.port handleId

variable {other : CanvasDocument}

theorem EndpointFits.of_ports (h : document.EndpointFits endpoint opposite)
    (hports : document.PortsWithin other) : other.EndpointFits endpoint opposite := by
  rw [endpointFits_iff_port] at h ⊢
  obtain ⟨node, hnode, hfits⟩ := h
  obtain ⟨counterpart, hcounterpart, hsame⟩ := hports _ node hnode
  refine ⟨counterpart, hcounterpart, fun handleId hhandle => ?_⟩
  rw [← hsame]
  exact hfits handleId hhandle

theorem validateEdge_of_ports {edge : CanvasEdge}
    (h : document.validateEdge edge = .ok ()) (hports : document.PortsWithin other) :
    other.validateEdge edge = .ok () := by
  rw [validateEdge_ok_iff] at h ⊢
  exact ⟨h.1, h.2.1.of_ports hports, h.2.2.of_ports hports⟩

variable {previous target : CanvasDocument} {document : CanvasDocument}

section

variable (hnodes : ∀ id, document.nodes.get id = (previous.nodes.carryOver target.nodes).get id)

include hnodes

theorem carried_portsWithin : document.PortsWithin target := by
  intro id node hget
  rw [hnodes, get_carryOver_eq_some_iff] at hget
  rcases hget with hchange | ⟨_, next, hnext, heq⟩
  · exact ⟨node, (get_changes_eq_some_iff.mp hchange).1, fun _ => rfl⟩
  · exact ⟨next, hnext, CanvasNode.port_of_beq heq⟩

theorem portsWithin_carried : target.PortsWithin document := by
  intro id node hget
  obtain ⟨carried, hcarried, heq⟩ := exists_carryOver previous.nodes hget
  refine ⟨carried, (hnodes id).trans hcarried, fun handleId => ?_⟩
  rcases heq with rfl | ⟨_, heq⟩
  · rfl
  · exact (CanvasNode.port_of_beq heq handleId).symm

end

variable {ν : Type}

theorem missingIds_nodup (previous target : IndexMap String ν) :
    ((missingIds previous target).map id).Nodup := by
  rw [map_id]
  exact previous.nodup.filter _

/-- Stored records of one kind can be removed one after another. -/
theorem applies_removes (remove : String → DocumentCommand)
    (records : CanvasDocument → IndexMap String ν)
    (hremove : ∀ draft id, (∃ after, apply draft (remove id) = .ok after) ↔
      ∃ record, (records draft).get id = some record)
    (herase : ∀ draft id, records (effect draft (remove id)) = (records draft).erase id)
    (document : CanvasDocument) (target : IndexMap String ν) :
    document.Applies ((missingIds (records document) target).map remove) := by
  refine (applies_map_iff remove id (fun draft id => (records draft).containsKey id)
    (fun _ => true) (fun _ _ => True) ?_ ?_ (fun _ _ _ => Iff.rfl) (missingIds_nodup _ _)
    document).mpr fun id hmem => ⟨(mem_missingIds_iff.mp hmem).1, trivial⟩
  · intro draft id
    simp [hremove, containsKey_iff]
  · intro draft id other hne
    rw [herase, containsKey, get_erase]
    exact congrArg Option.isSome (if_neg (Ne.symm hne))

/-- The removals apply: each record is there when it is its turn. -/
theorem applies_removalCommands (previous target : CanvasDocument) :
    previous.Applies (removalCommands previous target) := by
  rw [removalCommands, applies_append_iff, applies_append_iff, effects_append,
    effects_removeEdges, effects_removeShapes]
  refine ⟨⟨?_, ?_⟩, ?_⟩
  · refine applies_removes removeEdge (·.edges) (fun draft id => ?_) (fun _ _ => rfl) previous _
    simp [apply_removeEdge_ok_iff]
  · refine applies_removes removeShape (·.shapes) (fun draft id => ?_) (fun _ _ => rfl) _ _
    simp [apply_removeShape_ok_iff]
  · refine applies_removes removeNode (·.nodes) (fun draft id => ?_) (fun _ _ => rfl) _ _
    simp [apply_removeNode_ok_iff]

/-- The commands for changed records of one kind apply when each record is stored
exactly if it was before, and passes its check. -/
theorem applies_recordCommands_iff [BEq ν] (insert update : ν → DocumentCommand)
    (name : ν → String) (records : CanvasDocument → IndexMap String ν)
    (accepts : CanvasDocument → ν → Prop)
    (hinsert : ∀ draft record, (∃ after, apply draft (insert record) = .ok after) ↔
      (records draft).get (name record) = none ∧ accepts draft record)
    (hupdate : ∀ draft record, (∃ after, apply draft (update record) = .ok after) ↔
      (∃ old, (records draft).get (name record) = some old) ∧ accepts draft record)
    (hsame : ∀ draft record, effect draft (update record) = effect draft (insert record))
    (hstored : ∀ draft record,
      records (effect draft (insert record)) = (records draft).insert (name record) record)
    (haccepts : ∀ draft record other, accepts (effect draft (insert record)) other ↔
      accepts draft other) {previous target : IndexMap String ν} (hnamed : target.NamedBy name)
    (document : CanvasDocument) :
    document.Applies (recordCommands insert update previous target) ↔
      ∀ id record, (previous.changes target).get id = some record →
        (records document).containsKey id = previous.containsKey id ∧ accepts document record := by
  have hcommand : ∀ (draft : CanvasDocument) (entry : String × ν),
      effect draft (if previous.containsKey entry.1 then update entry.2 else insert entry.2) =
        effect draft (insert entry.2) := by
    intro draft entry
    by_cases hold : previous.containsKey entry.1 = true
    · rw [if_pos hold, hsame]
    · rw [if_neg hold]
  have hnames : ((previous.changes target).entries.map fun entry => name entry.2) =
      (previous.changes target).entries.map Prod.fst :=
    map_congr_left fun entry hentry => named_changes hnamed entry hentry
  rw [recordCommands_eq, applies_map_iff _ (fun entry => name entry.2)
    (fun draft id => (records draft).containsKey id) (fun entry => previous.containsKey entry.1)
    (fun draft entry => accepts draft entry.2)]
  · constructor
    · intro h id record hchange
      have hentry := get_eq_some_iff.mp hchange
      have hid : name record = id := named_changes hnamed _ hentry
      have hboth := h _ hentry
      rw [hid] at hboth
      exact hboth
    · intro h entry hentry
      have hboth := h entry.1 entry.2 (get_eq_some_iff.mpr hentry)
      rw [named_changes hnamed entry hentry]
      exact hboth
  · intro draft entry
    by_cases hold : previous.containsKey entry.1 = true
    · rw [if_pos hold, hold, hupdate, containsKey_iff]
    · rw [if_neg hold, not_eq_true _ |>.mp hold, hinsert, containsKey_eq_false_iff]
  · intro draft entry id hne
    rw [hcommand, hstored, containsKey, get_insert, if_neg (Ne.symm hne), containsKey]
  · intro draft entry other
    rw [hcommand, haccepts]
  · rw [hnames]
    exact (previous.changes target).nodup

/-- Nothing stands in the way of the shape commands. -/
theorem applies_shapeCommands (htarget : target.WellKeyed)
    (hshapes : document.shapes = (withoutGone previous target).shapes) :
    document.Applies (shapeCommands previous target) := by
  rw [shapeCommands, applies_recordCommands_iff .insertShape .updateShape CanvasShape.id
    (·.shapes) (fun _ _ => True)]
  · intro id shape hchange
    have hnext := (get_changes_eq_some_iff.mp hchange).1
    refine ⟨?_, trivial⟩
    have hget := get_eraseAll_missingIds previous.shapes target.shapes id
    rw [get_retain, containsKey_iff.mpr ⟨shape, hnext⟩] at hget
    rw [hshapes]
    refine congrArg Option.isSome (hget.trans ?_)
    cases previous.shapes.get id <;> rfl
  · intro draft shape
    simp [apply_insertShape_ok_iff]
  · intro draft shape
    simp [apply_updateShape_ok_iff]
  · exact fun _ _ => rfl
  · exact fun _ _ => rfl
  · exact fun _ _ _ => Iff.rfl
  · exact htarget.shapes

/-- The edge commands apply when the stored edges are those stored before and every
changed edge fits. -/
theorem applies_edgeCommands_iff (htarget : target.WellKeyed) (document : CanvasDocument) :
    document.Applies (edgeCommands previous target) ↔
      ∀ id edge, (previous.edges.changes target.edges).get id = some edge →
        document.edges.containsKey id = previous.edges.containsKey id ∧
          document.validateEdge edge = .ok () := by
  rw [edgeCommands, applies_recordCommands_iff .insertEdge .updateEdge CanvasEdge.id
    (·.edges) (fun draft edge => draft.validateEdge edge = .ok ())]
  · intro draft edge
    simp [apply_insertEdge_ok_iff]
  · intro draft edge
    simp [apply_updateEdge_ok_iff]
  · exact fun _ _ => rfl
  · exact fun _ _ => rfl
  · intro draft edge other
    have hsame : (draft.effect (.insertEdge edge)).validateEdge other = draft.validateEdge other :=
      validateEdge_congr draft rfl rfl
    rw [hsame]
  · exact htarget.edges

/-- Some node of both documents is not equal to the one before. -/
def UpdatesNode (previous target : CanvasDocument) : Prop :=
  ∃ id node, (previous.nodes.changes target.nodes).get id = some node ∧
    previous.nodes.containsKey id = true

/-- Edges that stay fit the nodes of the target as they were. -/
def KeptEdgesFit (previous target : CanvasDocument) : Prop :=
  ∀ id edge, previous.edges.get id = some edge → target.edges.containsKey id = true →
    target.validateEdge edge = .ok ()

/-- A draft while nodes are written: what the removals left, with some of the nodes
of the target. -/
structure Mixed (previous target draft : CanvasDocument) : Prop where
  rest : draft = { withoutGone previous target with nodes := draft.nodes }
  nodes : ∀ id node, draft.nodes.get id = some node →
    (withoutGone previous target).nodes.get id = some node ∨ target.nodes.get id = some node
  kept : ∀ id, (withoutGone previous target).nodes.containsKey id = true →
    draft.nodes.containsKey id = true

theorem get_withoutGone_nodes_eq_some_iff {id : NodeId} {node : CanvasNode} :
    (withoutGone previous target).nodes.get id = some node ↔
      previous.nodes.get id = some node ∧ target.nodes.containsKey id = true := by
  have hget : (withoutGone previous target).nodes.get id =
      (previous.nodes.retain fun id _ => target.nodes.containsKey id).get id :=
    get_eraseAll_missingIds previous.nodes target.nodes id
  rw [hget, get_retain_eq_some_iff]

theorem get_withoutGone_shapes_eq_some_iff {id : ShapeId} {shape : CanvasShape} :
    (withoutGone previous target).shapes.get id = some shape ↔
      previous.shapes.get id = some shape ∧ target.shapes.containsKey id = true := by
  have hget : (withoutGone previous target).shapes.get id =
      (previous.shapes.retain fun id _ => target.shapes.containsKey id).get id :=
    get_eraseAll_missingIds previous.shapes target.shapes id
  rw [hget, get_retain_eq_some_iff]

variable {draft : CanvasDocument}

section

variable (hmixed : Mixed previous target draft)

include hmixed

theorem Mixed.insert {id : NodeId} {node : CanvasNode} (hnode : target.nodes.get id = some node) :
    Mixed previous target { draft with nodes := draft.nodes.insert id node } := by
  refine ⟨?_, ?_, ?_⟩
  · exact congrArg (fun document => { document with nodes := draft.nodes.insert id node })
      hmixed.rest
  · intro other stored hget
    rw [get_insert] at hget
    by_cases heq : id = other
    · rw [if_pos heq] at hget
      exact .inr (heq ▸ hget ▸ hnode)
    · rw [if_neg heq] at hget
      exact hmixed.nodes other stored hget
  · intro other hstored
    rw [containsKey, get_insert]
    by_cases heq : id = other
    · rw [if_pos heq]
      rfl
    · rw [if_neg heq]
      exact hmixed.kept other hstored

/-- A mixed draft has the nodes of the kept edges, in a version that fits. -/
theorem Mixed.endpointFits {endpoint : CanvasEndpoint} {opposite : HandleRole}
    (hprevious : previous.EndpointFits endpoint opposite)
    (htarget : target.EndpointFits endpoint opposite) : draft.EndpointFits endpoint opposite := by
  obtain ⟨old, hold, holdFits⟩ := hprevious
  obtain ⟨next, hnext, hnextFits⟩ := htarget
  have hkept : (withoutGone previous target).nodes.get endpoint.nodeId = some old :=
    get_withoutGone_nodes_eq_some_iff.mpr ⟨hold, containsKey_iff.mpr ⟨next, hnext⟩⟩
  obtain ⟨node, hnode⟩ := containsKey_iff.mp (hmixed.kept _ (containsKey_iff.mpr ⟨old, hkept⟩))
  refine ⟨node, hnode, ?_⟩
  rcases hmixed.nodes _ node hnode with hbase | hgoal
  · rw [hkept, Option.some.injEq] at hbase
    exact hbase ▸ holdFits
  · rw [hnext, Option.some.injEq] at hgoal
    exact hgoal ▸ hnextFits

/-- Mixed drafts are valid when the relations lose no record. -/
theorem Mixed.validateIntegrity
    (hprevious : previous.Valid) (htarget : target.Valid) (hedges : KeptEdgesFit previous target)
    (hrelations : ∀ relation, previous.relations.Holds relation → target.StoresEnds relation) :
    draft.validateIntegrity = .ok () := by
  have hdraftEdges : draft.edges = (withoutGone previous target).edges := by
    rw [hmixed.rest]
  have hdraftShapes : draft.shapes = (withoutGone previous target).shapes := by
    rw [hmixed.rest]
  have hdraftRelations : draft.relations = previous.relations := by
    rw [hmixed.rest]
    rfl
  rw [validateIntegrity_ok_iff]
  refine ⟨⟨?_, ?_⟩, ?_⟩
  · intro id node hget
    rcases hmixed.nodes id node hget with hbase | hgoal
    · exact hprevious.recordsValid.nodes id node (get_withoutGone_nodes_eq_some_iff.mp hbase).1
    · exact htarget.recordsValid.nodes id node hgoal
  · intro id edge hget
    rw [hdraftEdges, get_withoutGone_edges_eq_some_iff hprevious] at hget
    have hold := (validateEdge_ok_iff previous edge).mp
      (hprevious.recordsValid.edges id edge hget.1)
    have hnext := (validateEdge_ok_iff target edge).mp (hedges id edge hget.1 hget.2.1)
    rw [validateEdge_ok_iff]
    exact ⟨hold.1, hmixed.endpointFits hold.2.1 hnext.2.1, hmixed.endpointFits hold.2.2 hnext.2.2⟩
  · obtain ⟨hkeyed, hjoined, hends, hacyclic⟩ :=
      (relationsWellFormed_iff previous).mp hprevious.wellFormed
    have hstored : ∀ id, previous.containsRecord id = true → target.containsRecord id = true →
        draft.containsRecord id = true := by
      intro id hold hnext
      cases id with
      | node id =>
        obtain ⟨node, hnode⟩ := containsKey_iff.mp hold
        exact hmixed.kept id (containsKey_iff.mpr
          ⟨node, get_withoutGone_nodes_eq_some_iff.mpr ⟨hnode, hnext⟩⟩)
      | edge id =>
        obtain ⟨edge, hedge⟩ := containsKey_iff.mp hold
        obtain ⟨hsource, htargetEnd⟩ := validateEdge_stored (hedges id edge hedge hnext)
        rw [containsRecord, hdraftEdges]
        refine containsKey_iff.mpr ⟨edge, ?_⟩
        exact (get_withoutGone_edges_eq_some_iff hprevious).mpr ⟨hedge, hnext,
          containsKey_iff.mpr hsource, containsKey_iff.mpr htargetEnd⟩
      | shape id =>
        obtain ⟨shape, hshape⟩ := containsKey_iff.mp hold
        rw [containsRecord, hdraftShapes]
        exact containsKey_iff.mpr ⟨shape, get_withoutGone_shapes_eq_some_iff.mpr ⟨hshape, hnext⟩⟩
    refine (relationsWellFormed_iff draft).mpr ⟨?_, ?_, ?_, ?_⟩
    · rw [hdraftRelations]
      exact hkeyed
    · rw [hdraftRelations]
      exact hjoined
    · intro relation hholds
      rw [hdraftRelations] at hholds
      exact ⟨hstored _ (hends relation hholds).1 (hrelations relation hholds).1,
        hstored _ (hends relation hholds).2 (hrelations relation hholds).2⟩
    · intro id hcycle
      refine hacyclic id (Relation.TransGen.mono (fun owner owned howns => ?_) _ _ hcycle)
      rw [owns_iff_holds, hdraftRelations] at howns
      exact (owns_iff_holds previous owner owned).mpr howns

end

/-- The node commands apply when kept edges fit and, if a node is updated, no
relation loses a record. -/
theorem applies_nodeCommands (hprevious : previous.Valid) (htarget : target.Valid)
    (hedges : KeptEdgesFit previous target)
    (hrelations : UpdatesNode previous target → ∀ relation, previous.relations.Holds relation →
      target.StoresEnds relation) :
    (withoutGone previous target).Applies (nodeCommands previous target) := by
  have hstart : Mixed previous target (withoutGone previous target) :=
    ⟨rfl, fun _ _ hget => .inl hget, fun _ hstored => hstored⟩
  have hchanges : ∀ entry ∈ (previous.nodes.changes target.nodes).entries,
      (previous.nodes.changes target.nodes).get entry.1 = some entry.2 :=
    fun entry hentry => get_eq_some_iff.mpr hentry
  have huntouched : ∀ entry ∈ (previous.nodes.changes target.nodes).entries, (withoutGone previous
      target).nodes.containsKey entry.1 = previous.nodes.containsKey entry.1 := by
    intro entry hentry
    have hnext := (get_changes_eq_some_iff.mp (hchanges entry hentry)).1
    have hstored := containsKey_iff.mpr ⟨entry.2, hnext⟩
    rw [Bool.eq_iff_iff, containsKey_iff, containsKey_iff]
    refine exists_congr fun node => ?_
    rw [get_withoutGone_nodes_eq_some_iff, and_iff_left hstored]
  have hnodup := (previous.nodes.changes target.nodes).nodup
  rw [nodeCommands, recordCommands_eq]
  generalize hdraft : withoutGone previous target = draft at huntouched ⊢
  rw [hdraft] at hstart
  clear hdraft
  revert hchanges huntouched hnodup
  generalize (previous.nodes.changes target.nodes).entries = entries
  intro hchanges hnodup huntouched
  induction entries generalizing draft with
  | nil => exact ⟨draft, rfl⟩
  | cons entry rest ih =>
    rw [map_cons, nodup_cons] at hnodup
    obtain ⟨id, node⟩ := entry
    have hchange := hchanges (id, node) mem_cons_self
    have hnext := (get_changes_eq_some_iff.mp hchange).1
    have hid : node.id = id := htarget.wellKeyed.nodes id node hnext
    have hnode := htarget.recordsValid.nodes id node hnext
    have hafter := hstart.insert hnext
    have hsame := huntouched (id, node) mem_cons_self
    have hlater : Applies { draft with nodes := draft.nodes.insert id node }
        (rest.map fun entry => if previous.nodes.containsKey entry.1
          then updateNode entry.2 else .insertNode entry.2) := by
      refine ih _ hafter (fun other hmem => hchanges other (mem_cons_of_mem _ hmem)) hnodup.2 ?_
      intro other hmem
      have hmember : other.1 ∈ rest.map Prod.fst := mem_map_of_mem hmem
      have hne : id ≠ other.1 := fun heq => hnodup.1 (heq ▸ hmember)
      rw [containsKey, get_insert, if_neg hne]
      exact huntouched other (mem_cons_of_mem _ hmem)
    rw [map_cons, applies_cons_iff]
    by_cases hold : previous.nodes.containsKey id = true
    · rw [if_pos hold]
      refine ⟨⟨_, apply_updateNode_ok_iff.mpr ⟨?_, hnode, ?_, rfl⟩⟩, ?_⟩
      · rw [hid, ← containsKey_iff, hsame]
        exact hold
      · rw [hid]
        exact hafter.validateIntegrity hprevious htarget hedges
          (hrelations ⟨id, node, hchange, hold⟩)
      · rw [effect, hid]
        exact hlater
    · rw [if_neg hold]
      refine ⟨⟨_, apply_insertNode_ok_iff.mpr ⟨?_, hnode, rfl⟩⟩, ?_⟩
      · rw [hid, ← containsKey_eq_false_iff, hsame]
        exact (not_eq_true _).mp hold
      · rw [effect, hid]
        exact hlater

variable {commands : List DocumentCommand} {after : CanvasDocument}

/-- Node commands drop no record. -/
theorem containsRecord_of_nodeCommands
    (hcommands : ∀ command ∈ commands, ∃ node, command = .insertNode node ∨
        command = .updateNode node)
    (h : document.applyAll commands = .ok after) (id : CanvasRecordId)
    (hstored : document.containsRecord id = true) : after.containsRecord id = true := by
  induction commands generalizing document with
  | nil =>
    cases h
    exact hstored
  | cons command rest ih =>
    obtain ⟨draft, happly, hrest⟩ := applyAll_cons_ok_iff.mp h
    refine ih (fun other hmem => hcommands other (mem_cons_of_mem _ hmem)) hrest ?_
    obtain ⟨node, hcommand⟩ := hcommands command mem_cons_self
    have hdraft : draft = { document with nodes := document.nodes.insert node.id node } := by
      rw [effect_of_apply happly]
      rcases hcommand with rfl | rfl <;> rfl
    rw [hdraft]
    cases id with
    | node id =>
      rw [containsRecord, containsKey, get_insert]
      by_cases heq : node.id = id
      · rw [if_pos heq]
        rfl
      · rw [if_neg heq]
        exact hstored
    | edge id | shape id => exact hstored

/-- An update among node commands has checked that every relation has its records. -/
theorem storesEnds_of_updateNode
    (hcommands : ∀ command ∈ commands, ∃ node, command = .insertNode node ∨
        command = .updateNode node)
    (h : document.applyAll commands = .ok after) (hupdate : ∃ node, updateNode node ∈ commands)
    (relation : CanvasRecordRelation) (hholds : document.relations.Holds relation) :
    after.StoresEnds relation := by
  induction commands generalizing document with
  | nil =>
    obtain ⟨node, hmem⟩ := hupdate
    exact absurd hmem (by simp)
  | cons command rest ih =>
    obtain ⟨draft, happly, hrest⟩ := applyAll_cons_ok_iff.mp h
    have hlater : ∀ other ∈ rest, ∃ node, other = .insertNode node ∨ other = .updateNode node :=
      fun other hmem => hcommands other (mem_cons_of_mem _ hmem)
    obtain ⟨node, hcommand⟩ := hcommands command mem_cons_self
    have hrelations : draft.relations = document.relations := by
      rw [effect_of_apply happly]
      rcases hcommand with rfl | rfl <;> rfl
    rcases hcommand with rfl | rfl
    · refine ih hlater hrest ?_ (hrelations ▸ hholds)
      obtain ⟨updated, hmem⟩ := hupdate
      rcases mem_cons.mp hmem with heq | htail
      · exact absurd heq (by simp)
      · exact ⟨updated, htail⟩
    · have hintegrity := (apply_updateNode_ok_iff.mp happly).2.2.1
      obtain ⟨_, _, hends, _⟩ := (relationsWellFormed_iff draft).mp
        ((validateIntegrity_ok_iff draft).mp hintegrity).2
      have hstored := hends relation (hrelations ▸ hholds)
      exact ⟨containsRecord_of_nodeCommands hlater hrest _ hstored.1,
        containsRecord_of_nodeCommands hlater hrest _ hstored.2⟩

/-- The document after the removals and the node commands. -/
def withNodes (previous target : CanvasDocument) : CanvasDocument :=
  { withoutGone previous target with
    nodes := (withoutGone previous target).nodes.insertAll
      (previous.nodes.changes target.nodes).entries }

theorem effects_nodeCommands (htarget : target.WellKeyed) :
    (withoutGone previous target).effects (nodeCommands previous target) =
      withNodes previous target :=
  effects_nodes htarget.nodes

theorem get_withNodes_nodes (previous target : CanvasDocument) (id : NodeId) :
    (withNodes previous target).nodes.get id = (previous.nodes.carryOver target.nodes).get id := by
  rw [withNodes, get_carryOver, get_insertAll (previous.nodes.changes target.nodes).nodup]
  exact congrArg (Option.or _) (get_eraseAll_missingIds _ _ _)

theorem containsRecord_of_withNodes (hprevious : previous.Valid) {id : CanvasRecordId}
    (h : (withNodes previous target).containsRecord id = true) :
    target.containsRecord id = true := by
  cases id with
  | node id =>
    have hkey := containsKey_carryOver previous.nodes target.nodes id
    rw [containsRecord, containsKey, get_withNodes_nodes, ← containsKey, hkey] at h
    exact h
  | edge id =>
    obtain ⟨edge, hedge⟩ := containsKey_iff.mp h
    exact ((get_withoutGone_edges_eq_some_iff hprevious).mp hedge).2.1
  | shape id =>
    obtain ⟨shape, hshape⟩ := containsKey_iff.mp h
    exact (get_withoutGone_shapes_eq_some_iff.mp hshape).2

theorem nodeCommands_write (previous target : CanvasDocument) (command : DocumentCommand)
    (hmem : command ∈ nodeCommands previous target) :
    ∃ node, command = .insertNode node ∨ command = .updateNode node := by
  rw [nodeCommands, recordCommands_eq, mem_map] at hmem
  obtain ⟨entry, _, rfl⟩ := hmem
  by_cases hold : previous.nodes.containsKey entry.1 = true
  · exact ⟨entry.2, .inr (if_pos hold)⟩
  · exact ⟨entry.2, .inl (if_neg hold)⟩

/-- When the node commands apply and one is an update, no relation loses a record. -/
theorem storesEnds_of_updatesNode (hprevious : previous.Valid) (htarget : target.WellKeyed)
    (h : (withoutGone previous target).Applies (nodeCommands previous target))
    (hupdates : UpdatesNode previous target) (relation : CanvasRecordRelation)
    (hholds : previous.relations.Holds relation) : target.StoresEnds relation := by
  obtain ⟨id, node, hchange, hold⟩ := hupdates
  have hmem : updateNode node ∈ nodeCommands previous target := by
    rw [nodeCommands, recordCommands_eq]
    refine mem_map.mpr ⟨(id, node), get_eq_some_iff.mp hchange, ?_⟩
    exact if_pos hold
  have hstored := storesEnds_of_updateNode (nodeCommands_write previous target) h.applyAll
    ⟨node, hmem⟩ relation hholds
  rw [effects_nodeCommands htarget] at hstored
  exact ⟨containsRecord_of_withNodes hprevious hstored.1,
    containsRecord_of_withNodes hprevious hstored.2⟩

end CanvasDocument

end OpenGpui.Canvas
