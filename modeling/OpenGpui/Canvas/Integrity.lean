/-
What the checks of a document mean: handles are unique within a node, the ends of
every edge are stored nodes with fitting handles, relations join existing records
and ownership, through parents or groups, has no cycle.
-/
import OpenGpui.Canvas.Validation
import OpenGpui.Library.Checked

namespace OpenGpui.Canvas

open List IndexMap

open Checked

theorem firstDuplicateHandle_eq_none_iff (handleIds : List HandleId)
    (handles : List CanvasHandle) (hnodup : handleIds.Nodup) :
    firstDuplicateHandle handleIds handles = none ↔ (handleIds ++ handles.map (·.id)).Nodup := by
  induction handles generalizing handleIds with
  | nil => simpa [firstDuplicateHandle] using hnodup
  | cons handle rest ih =>
    rw [firstDuplicateHandle]
    by_cases hmem : handle.id ∈ handleIds
    · rw [if_pos hmem]
      simp only [reduceCtorEq, map_cons, false_iff]
      intro h
      exact (nodup_append.mp h).2.2 _ hmem _ mem_cons_self rfl
    · have hnext : (handleIds ++ [handle.id]).Nodup :=
        nodup_append.mpr ⟨hnodup, by simp, by
          intro id hid other hother heq
          rw [mem_singleton] at hother
          exact hmem (hother ▸ heq ▸ hid)⟩
      rw [if_neg hmem, ih _ hnext]
      simp

/-- A node is accepted when no two of its handles share an id. -/
theorem validateNode_ok_iff (node : CanvasNode) :
    validateNode node = .ok () ↔ (node.handles.map (·.id)).Nodup := by
  rw [← nil_append (node.handles.map (·.id)),
    ← firstDuplicateHandle_eq_none_iff [] node.handles nodup_nil, validateNode]
  cases firstDuplicateHandle [] node.handles <;> simp

namespace CanvasDocument

variable (document : CanvasDocument) (endpoint : CanvasEndpoint)

/-- The endpoint names a stored node, and the handle it names, if any, is a
connectable handle of that node without the opposite role. -/
def EndpointFits (opposite : HandleRole) : Prop :=
  ∃ node, document.nodes.get endpoint.nodeId = some node ∧
    ∀ handleId, endpoint.handleId = some handleId →
      ∃ handle, node.handle (some handleId) = some handle ∧ handle.connectable = true ∧
        handle.role ≠ opposite

theorem validateEndpointRole_ok_iff
    (opposite : HandleRole) (error : NodeId → HandleId → DocumentError) :
    document.validateEndpointRole endpoint opposite error = .ok () ↔
      document.EndpointFits endpoint opposite := by
  rw [validateEndpointRole, bind_eq_ok, EndpointFits, endpointParts]
  cases hnode : document.nodes.get endpoint.nodeId with
  | none => simp
  | some node =>
    cases hid : endpoint.handleId with
    | none => simp [pure_eq_ok]
    | some handleId =>
      cases hhandle : node.handle (some handleId) with
      | none => simp [hhandle]
      | some handle =>
        by_cases hconnect : handle.connectable = true <;>
          by_cases hrole : handle.role = opposite <;>
          simp [hhandle, hconnect, hrole, validateConnectableHandle, bind, Except.bind,
            throw, throwThe, MonadExceptOf.throw, pure, Except.pure]

theorem validateEdge_ok_iff (edge : CanvasEdge) : document.validateEdge edge = .ok () ↔
      validateEdgeRoute edge = .ok () ∧ document.EndpointFits edge.source .target ∧
        document.EndpointFits edge.target .source := by
  rw [validateEdge, check_bind_eq_ok, check_bind_eq_ok, validateSourceEndpoint,
    validateTargetEndpoint, validateEndpointRole_ok_iff, validateEndpointRole_ok_iff]

theorem validateRecordId_ok_iff (id : CanvasRecordId) :
    document.validateRecordId id = .ok () ↔ document.containsRecord id = true := by
  rw [validateRecordId]
  cases document.containsRecord id <;> simp

/-- Both ends exist and they differ. -/
def JoinsRecords (first second : CanvasRecordId) : Prop :=
  first ≠ second ∧ document.containsRecord first = true ∧ document.containsRecord second = true

/-- A relation list is accepted when its keys are distinct and each relation joins
two existing records. -/
theorem validateRelationList_ok_iff {ρ κ : Type} [DecidableEq κ] (document : CanvasDocument)
    (key : ρ → κ) (ends : ρ → CanvasRecordId × CanvasRecordId) (duplicate : ρ → DocumentError)
    (itself : CanvasRecordId → DocumentError) (relations : List ρ) (keys : List κ)
    (hkeys : keys.Nodup) :
    document.validateRelationList key ends duplicate itself keys relations = .ok () ↔
      (keys ++ relations.map key).Nodup ∧
        ∀ relation ∈ relations, document.JoinsRecords (ends relation).1 (ends relation).2 := by
  induction relations generalizing keys with
  | nil => simpa [validateRelationList] using hkeys
  | cons relation rest ih =>
    rw [validateRelationList, guard_eq_ok, guard_eq_ok, check_bind_eq_ok, check_bind_eq_ok,
      validateRecordId_ok_iff, validateRecordId_ok_iff]
    by_cases hmem : key relation ∈ keys
    · have hdup : ¬ (keys ++ (relation :: rest).map key).Nodup := by
        intro h
        exact (nodup_append.mp h).2.2 _ hmem _ mem_cons_self rfl
      simp only [hmem, hdup, not_true_eq_false, false_and]
    · have hnext : (keys ++ [key relation]).Nodup :=
        nodup_append.mpr ⟨hkeys, by simp, by
          intro first hfirst second hsecond heq
          rw [mem_singleton] at hsecond
          exact hmem (hsecond ▸ heq ▸ hfirst)⟩
      rw [ih _ hnext, append_assoc, forall_mem_cons, JoinsRecords]
      tauto

variable (owner owned : CanvasRecordId)

/-- One record owns another as its parent or as its group. -/
def Owns : Prop :=
  ⟨owned, owner⟩ ∈ document.relations.parents ∨ ⟨owner, owned⟩ ∈ document.relations.groups

theorem mem_ownerships_iff : (owner, owned) ∈ document.ownerships ↔ document.Owns owner owned := by
  rw [ownerships, mem_append, mem_map, mem_map]
  constructor
  · rintro (⟨relation, hmem, heq⟩ | ⟨relation, hmem, heq⟩) <;> cases heq
    · exact .inl hmem
    · exact .inr hmem
  · rintro (hparent | hgroup)
    · exact .inl ⟨_, hparent, rfl⟩
    · exact .inr ⟨_, hgroup, rfl⟩

section RelationGraph

variable (graph : IndexMap CanvasRecordId (List CanvasRecordId))
  (pairs : List (CanvasRecordId × CanvasRecordId))

theorem mem_pushOwned_iff (owner owned id other : CanvasRecordId) :
    other ∈ ((pushOwned graph owner owned).get id).getD [] ↔
      other ∈ (graph.get id).getD [] ∨ (id, other) = (owner, owned) := by
  rw [pushOwned]
  by_cases heq : owner = id
  · subst heq
    simp
  · have hne : id ≠ owner := Ne.symm heq
    simp [heq, hne]

/-- The graph lists exactly the pairs pushed to it. -/
theorem mem_foldl_pushOwned_iff (id other : CanvasRecordId) :
    other ∈ ((pairs.foldl (fun graph pair => pushOwned graph pair.1 pair.2) graph).get id).getD [] ↔
      other ∈ (graph.get id).getD [] ∨ (id, other) ∈ pairs := by
  induction pairs generalizing graph with
  | nil => simp
  | cons pair rest ih =>
    rw [foldl_cons, ih, mem_pushOwned_iff, mem_cons, or_assoc]

theorem mem_keys_foldl_pushOwned {id : CanvasRecordId}
    (hmem : id ∈ (pairs.foldl (fun graph pair => pushOwned graph pair.1 pair.2) graph).keys) :
    id ∈ graph.keys ∨ id ∈ pairs.map Prod.fst := by
  induction pairs generalizing graph with
  | nil => exact .inl hmem
  | cons pair rest ih =>
    rcases ih _ hmem with hkey | hrest
    · rcases (mem_keys_upsert _ _ _ _).mp hkey with heq | hold
      · exact .inr (by simp [heq])
      · exact .inl hold
    · exact .inr (mem_cons_of_mem _ hrest)

end RelationGraph

theorem mem_relationGraph_iff :
    owned ∈ (document.relationGraph.get owner).getD [] ↔ document.Owns owner owned := by
  rw [relationGraph, mem_foldl_pushOwned_iff, mem_ownerships_iff]
  simp

/-- No record owns itself, directly or through others. -/
def OwnershipAcyclic : Prop := ∀ id, ¬ Relation.TransGen document.Owns id id

/-- The search accepts exactly the documents without a cycle of owners. -/
theorem validateRelationGraphIsAcyclic_ok_iff :
    document.validateRelationGraphIsAcyclic = .ok () ↔ document.OwnershipAcyclic := by
  let succ := fun id => (document.relationGraph.get id).getD []
  have hedge : CycleCheck.Edge succ = document.Owns := by
    funext owner owned
    exact propext (mem_relationGraph_iff document owner owned)
  have hroots : ∀ id, succ id ≠ [] → id ∈ document.relationGraph.keys := by
    intro id hne
    rw [mem_keys_iff, containsKey_iff]
    cases hget : document.relationGraph.get id with
    | none => exact absurd (by simp [succ, hget]) hne
    | some owned => exact ⟨owned, rfl⟩
  let support := document.ownerships.map Prod.fst ++ document.ownerships.map Prod.snd
  have hsub : document.relationGraph.keys ⊆ support := by
    intro id hid
    rcases mem_keys_foldl_pushOwned _ _ hid with hnone | hfirst
    · simp [IndexMap.keys, IndexMap.empty] at hnone
    · exact mem_append_left _ hfirst
  have hsupport : ∀ owner, ∀ owned ∈ succ owner, owned ∈ support := by
    intro owner owned howned
    have hpair := (mem_ownerships_iff _ _ _).mpr ((mem_relationGraph_iff _ _ _).mp howned)
    exact mem_append_right _ (mem_map_of_mem (f := Prod.snd) hpair)
  have hfuel : support.length ≤ 2 * document.ownerships.length := by
    simp [support]
    omega
  have hexact := CycleCheck.searchAll_ok_iff_acyclic hroots hsub hsupport hfuel
  rw [CycleCheck.Acyclic, hedge] at hexact
  rw [OwnershipAcyclic, ← hexact, validateRelationGraphIsAcyclic]
  cases CycleCheck.searchAll succ (2 * document.ownerships.length) document.relationGraph.keys <;>
    simp

/-- The relations of a document that passes the relation check. -/
structure RelationsWellFormed (document : CanvasDocument) : Prop where
  parentUnique : (document.relations.parents.map (·.child)).Nodup
  parentsJoin : ∀ relation ∈ document.relations.parents,
    document.JoinsRecords relation.child relation.parent
  groupUnique : document.relations.groups.Nodup
  groupsJoin : ∀ relation ∈ document.relations.groups,
    document.JoinsRecords relation.group relation.member
  bindingUnique : (document.relations.bindings.map (·.id)).Nodup
  bindingsJoin : ∀ relation ∈ document.relations.bindings,
    document.JoinsRecords relation.source relation.target
  acyclic : document.OwnershipAcyclic

theorem nodup_groupKeys_iff (groups : List CanvasRecordGroupRelation) :
    (groups.map fun relation => (relation.group, relation.member)).Nodup ↔ groups.Nodup := by
  apply nodup_map_iff
  intro first second heq
  cases first
  cases second
  simpa using heq

theorem validateRelations_ok_iff :
    document.validateRelations = .ok () ↔ document.RelationsWellFormed := by
  rw [validateRelations, check_bind_eq_ok, check_bind_eq_ok, check_bind_eq_ok, validateParents,
    validateGroups, validateBindings, validateRelationList_ok_iff _ _ _ _ _ _ _ nodup_nil,
    validateRelationList_ok_iff _ _ _ _ _ _ _ nodup_nil, validateRelationList_ok_iff _ _ _ _ _ _ _
    nodup_nil, validateRelationGraphIsAcyclic_ok_iff, nil_append, nil_append, nodup_groupKeys_iff]
  constructor
  · rintro ⟨⟨hparent, hparents⟩, ⟨hgroup, hgroups⟩, ⟨hbinding, hbindings⟩, hacyclic⟩
    exact ⟨hparent, hparents, hgroup, hgroups, hbinding, hbindings, hacyclic⟩
  · intro h
    exact ⟨⟨h.parentUnique, h.parentsJoin⟩, ⟨h.groupUnique, h.groupsJoin⟩,
      ⟨h.bindingUnique, h.bindingsJoin⟩, h.acyclic⟩

/-- The two ends of every relation of a document. -/
def relationEnds : List (CanvasRecordId × CanvasRecordId) :=
  document.relations.parents.map (fun relation => (relation.child, relation.parent)) ++
    document.relations.groups.map (fun relation => (relation.group, relation.member)) ++
    document.relations.bindings.map (fun relation => (relation.source, relation.target))

theorem forall_mem_relationEnds_iff {document : CanvasDocument}
    {good : CanvasRecordId × CanvasRecordId → Prop} :
    (∀ ends ∈ document.relationEnds, good ends) ↔
      (∀ relation ∈ document.relations.parents, good (relation.child, relation.parent)) ∧
        (∀ relation ∈ document.relations.groups, good (relation.group, relation.member)) ∧
        ∀ relation ∈ document.relations.bindings, good (relation.source, relation.target) := by
  rw [relationEnds, forall_mem_append, forall_mem_append, forall_mem_map,
    forall_mem_map, forall_mem_map, and_assoc]

/-- The check accepts exactly the relations that are unique, join existing and different
records, and have no cycle of parents and groups. -/
theorem relations_check_is_exact (document : CanvasDocument) :
    document.validateRelations = .ok () ↔ (document.relations.parents.map (·.child)).Nodup ∧
        document.relations.groups.Nodup ∧
        (document.relations.bindings.map (·.id)).Nodup ∧
        (∀ ends ∈ document.relationEnds,
          document.containsRecord ends.1 = true ∧ document.containsRecord ends.2 = true) ∧
        (∀ ends ∈ document.relationEnds, ends.1 ≠ ends.2) ∧
        ∀ id, ¬ Relation.TransGen document.Owns id id := by
  rw [validateRelations_ok_iff, forall_mem_relationEnds_iff, forall_mem_relationEnds_iff]
  constructor
  · intro h
    refine ⟨h.parentUnique, h.groupUnique, h.bindingUnique, ⟨?_, ?_, ?_⟩, ⟨?_, ?_, ?_⟩, h.acyclic⟩
    · exact fun relation hmem => (h.parentsJoin relation hmem).2
    · exact fun relation hmem => (h.groupsJoin relation hmem).2
    · exact fun relation hmem => (h.bindingsJoin relation hmem).2
    · exact fun relation hmem => (h.parentsJoin relation hmem).1
    · exact fun relation hmem => (h.groupsJoin relation hmem).1
    · exact fun relation hmem => (h.bindingsJoin relation hmem).1
  · rintro ⟨hparents, hgroups, hbindings, ⟨hparentEnds, hgroupEnds, hbindingEnds⟩,
      ⟨hparentSelf, hgroupSelf, hbindingSelf⟩, hacyclic⟩
    constructor
    · exact hparents
    · exact fun relation hmem => ⟨hparentSelf relation hmem, hparentEnds relation hmem⟩
    · exact hgroups
    · exact fun relation hmem => ⟨hgroupSelf relation hmem, hgroupEnds relation hmem⟩
    · exact hbindings
    · exact fun relation hmem => ⟨hbindingSelf relation hmem, hbindingEnds relation hmem⟩
    · exact hacyclic

/-- Every stored node and edge passes its own check. -/
structure RecordsValid (document : CanvasDocument) : Prop where
  nodes : ∀ id node, document.nodes.get id = some node → validateNode node = .ok ()
  edges : ∀ id edge, document.edges.get id = some edge → document.validateEdge edge = .ok ()

theorem validateIntegrity_ok_iff :
    document.validateIntegrity = .ok () ↔ document.RecordsValid ∧ document.RelationsWellFormed := by
  rw [validateIntegrity, check_bind_eq_ok, check_bind_eq_ok, forM_eq_ok, forM_eq_ok,
    validateRelations_ok_iff]
  constructor
  · rintro ⟨hnodes, hedges, hrelations⟩
    refine ⟨⟨?_, ?_⟩, hrelations⟩
    · intro id node hget
      exact hnodes node (mem_values_iff.mpr ⟨id, hget⟩)
    · intro id edge hget
      exact hedges edge (mem_values_iff.mpr ⟨id, hget⟩)
  · rintro ⟨⟨hnodes, hedges⟩, hrelations⟩
    refine ⟨?_, ?_, hrelations⟩
    · intro node hmem
      obtain ⟨id, hget⟩ := mem_values_iff.mp hmem
      exact hnodes id node hget
    · intro edge hmem
      obtain ⟨id, hget⟩ := mem_values_iff.mp hmem
      exact hedges id edge hget

end CanvasDocument

end OpenGpui.Canvas
