/-
What the commands between two documents write.  The records become those of the
target, except that a record which compares equal stays; parents and groups become
those of the target; bindings stay as they were.
-/
import OpenGpui.Canvas.Effects

namespace OpenGpui.Canvas

open List IndexMap

namespace CanvasRecordRelations

def dropAll (relations : CanvasRecordRelations) (keys : List CanvasRelationKey) :
    CanvasRecordRelations :=
  keys.foldl drop relations

def upsertAll (relations : CanvasRecordRelations) (items : List CanvasRecordRelation) :
    CanvasRecordRelations :=
  items.foldl upsert relations

variable {relations : CanvasRecordRelations} (hkeyed : relations.Keyed)

include hkeyed

theorem Keyed.dropAll (keys : List CanvasRelationKey) : (relations.dropAll keys).Keyed := by
  induction keys generalizing relations with
  | nil => exact hkeyed
  | cons key rest ih => exact ih (hkeyed.drop key)

theorem Keyed.upsertAll (items : List CanvasRecordRelation) :
    (relations.upsertAll items).Keyed := by
  induction items generalizing relations with
  | nil => exact hkeyed
  | cons item rest ih => exact ih (hkeyed.upsert item)

theorem holds_dropAll_iff (keys : List CanvasRelationKey)
    (relation : CanvasRecordRelation) : (relations.dropAll keys).Holds relation ↔
      relations.Holds relation ∧ relation.key ∉ keys := by
  induction keys generalizing relations with
  | nil => simp [dropAll]
  | cons key rest ih =>
    refine (ih (hkeyed.drop key)).trans ?_
    rw [holds_drop_iff hkeyed, mem_cons, not_or, and_assoc]

theorem holds_upsertAll_iff {items : List CanvasRecordRelation}
    (hitems : (items.map (·.key)).Nodup) (relation : CanvasRecordRelation) :
    (relations.upsertAll items).Holds relation ↔
      relation ∈ items ∨ relations.Holds relation ∧ relation.key ∉ items.map (·.key) := by
  induction items generalizing relations with
  | nil => simp [upsertAll]
  | cons item rest ih =>
    rw [map_cons, nodup_cons] at hitems
    refine (ih (hkeyed.upsert item) hitems.2).trans ?_
    rw [holds_upsert_iff hkeyed, map_cons, mem_cons, mem_cons, not_or]
    constructor
    · rintro (hrest | ⟨rfl | ⟨hholds, hkey⟩, hlater⟩)
      · exact .inl (.inr hrest)
      · exact .inl (.inl rfl)
      · exact .inr ⟨hholds, hkey, hlater⟩
    · rintro ((rfl | hrest) | ⟨hholds, hkey, hlater⟩)
      · exact .inr ⟨.inl rfl, hitems.1⟩
      · exact .inl hrest
      · exact .inr ⟨.inr ⟨hholds, hkey⟩, hlater⟩

end CanvasRecordRelations

namespace CanvasDocument

open CanvasRecordRelations

variable (document : CanvasDocument)

theorem effects_dropCommands (keys : List CanvasRelationKey) :
    document.effects (keys.map dropCommand) =
      { document with relations := document.relations.dropAll keys } := by
  rw [effects, foldl_map]
  refine foldl_hom (fun relations => { document with relations }) ?_
  intro relations key
  cases key <;> rfl

theorem effects_setCommands (items : List CanvasRecordRelation) :
    document.effects (items.map setCommand) =
      { document with relations := document.relations.upsertAll items } := by
  rw [effects, foldl_map]
  refine foldl_hom (fun relations => { document with relations }) ?_
  intro relations item
  cases item <;> rfl

section RelationCommands

variable {previous target : CanvasDocument}

/-- The children that lose their parent, as keys. -/
def clearedKeys (previous target : CanvasDocument) : List CanvasRelationKey :=
  (previous.relations.parents.filter fun relation =>
    target.relations.parentOf relation.child != some relation.parent &&
      (target.relations.parentOf relation.child).isNone &&
      target.containsRecord relation.child).map fun relation => .parent relation.child

/-- The parents that are new or changed. -/
def setParents (previous target : CanvasDocument) : List CanvasRecordRelation :=
  (target.relations.parents.filter fun relation =>
    previous.relations.parentOf relation.child != some relation.parent).map .parent

/-- The group memberships that end between records that stay, as keys. -/
def removedKeys (previous target : CanvasDocument) : List CanvasRelationKey :=
  (previous.relations.groups.filter fun relation =>
    !target.relations.containsRelation (.group relation) &&
      target.containsRecord relation.group && target.containsRecord relation.member).map
    fun relation => .group relation.group relation.member

/-- The new group memberships. -/
def addedGroups (previous target : CanvasDocument) : List CanvasRecordRelation :=
  (target.relations.groups.filter fun relation =>
    !previous.relations.containsRelation (.group relation)).map .group

theorem relationCommands_eq (previous target : CanvasDocument) :
    relationCommands previous target = (clearedKeys previous target).map dropCommand ++
      (setParents previous target).map setCommand ++
      (removedKeys previous target).map dropCommand ++
      (addedGroups previous target).map setCommand := by
  rw [clearedKeys, setParents, removedKeys, addedGroups, map_map, map_map, map_map, map_map]
  rfl

variable {key : CanvasRelationKey}

theorem mem_clearedKeys_iff (hprevious : previous.relations.Keyed) :
    key ∈ clearedKeys previous target ↔ ∃ child parent, key = .parent child ∧
      previous.relations.parentOf child = some parent ∧
      target.relations.parentOf child = none ∧ target.containsRecord child = true := by
  rw [clearedKeys, mem_map]
  constructor
  · rintro ⟨⟨child, parent⟩, hmem, rfl⟩
    obtain ⟨hholds, hlost⟩ := mem_filter.mp hmem
    simp only [Bool.and_eq_true, Option.isNone_iff_eq_none] at hlost
    exact ⟨child, parent, rfl, (parentOf_eq_some_iff hprevious).mpr hholds, hlost.1.2, hlost.2⟩
  · rintro ⟨child, parent, rfl, hparent, hnone, hchild⟩
    refine ⟨⟨child, parent⟩, mem_filter.mpr ⟨(parentOf_eq_some_iff hprevious).mp hparent, ?_⟩, rfl⟩
    simp [hnone, hchild]

variable {relation : CanvasRecordRelation}

theorem mem_setParents_iff (hprevious : previous.relations.Keyed) :
    relation ∈ setParents previous target ↔ (∃ parent, relation = .parent parent) ∧
      target.relations.Holds relation ∧ ¬ previous.relations.Holds relation :=
  mem_map_filter_iff (fun _ => Iff.rfl) fun _ => by simp [parentOf_eq_some_iff hprevious]

theorem mem_removedKeys_iff (htarget : target.relations.Keyed) :
    key ∈ removedKeys previous target ↔ ∃ group, key = (CanvasRecordRelation.group group).key ∧
      previous.relations.Holds (.group group) ∧ ¬ target.relations.Holds (.group group) ∧
      target.StoresEnds (.group group) := by
  rw [removedKeys, mem_map]
  constructor
  · rintro ⟨group, hmem, rfl⟩
    obtain ⟨hholds, hgone⟩ := mem_filter.mp hmem
    rw [Bool.and_eq_true, Bool.and_eq_true, Bool.not_eq_true', ← Bool.not_eq_true,
      containsRelation_iff htarget] at hgone
    exact ⟨group, rfl, hholds, hgone.1.1, hgone.1.2, hgone.2⟩
  · rintro ⟨group, rfl, hholds, hgone, hgroup, hmember⟩
    refine ⟨group, mem_filter.mpr ⟨hholds, ?_⟩, rfl⟩
    rw [Bool.and_eq_true, Bool.and_eq_true, Bool.not_eq_true', ← Bool.not_eq_true,
      containsRelation_iff htarget]
    exact ⟨⟨hgone, hgroup⟩, hmember⟩

theorem mem_addedGroups_iff (hprevious : previous.relations.Keyed) :
    relation ∈ addedGroups previous target ↔ (∃ group, relation = .group group) ∧
      target.relations.Holds relation ∧ ¬ previous.relations.Holds relation :=
  mem_map_filter_iff (fun _ => Iff.rfl) fun _ => by
    rw [Bool.not_eq_true', ← Bool.not_eq_true, containsRelation_iff hprevious]

theorem nodup_setParents_keys (htarget : target.relations.Keyed) :
    ((setParents previous target).map (·.key)).Nodup := by
  have hkeys : (setParents previous target).map (·.key) =
      ((target.relations.parents.filter fun relation =>
        previous.relations.parentOf relation.child != some relation.parent).map (·.child)).map
          CanvasRelationKey.parent := by
    rw [setParents, map_map, map_map]
    rfl
  rw [hkeys]
  refine List.Nodup.map (fun _ _ heq => CanvasRelationKey.parent.inj heq) ?_
  exact (filter_sublist.map _).nodup htarget.parents

theorem nodup_addedGroups_keys (htarget : target.relations.Keyed) :
    ((addedGroups previous target).map (·.key)).Nodup := by
  rw [addedGroups, map_map]
  refine List.Nodup.map ?_ (htarget.groups.filter _)
  rintro ⟨group, member⟩ ⟨otherGroup, otherMember⟩ heq
  obtain ⟨rfl, rfl⟩ := CanvasRelationKey.group.inj heq
  rfl

/-- The relations after the relation commands. -/
def carriedRelations (previous target : CanvasDocument) : CanvasRecordRelations :=
  (((previous.relations.dropAll (clearedKeys previous target)).upsertAll
    (setParents previous target)).dropAll (removedKeys previous target)).upsertAll
    (addedGroups previous target)

theorem effects_relationCommands (previous target document : CanvasDocument)
    (hrelations : document.relations = previous.relations) :
    document.effects (relationCommands previous target) =
      { document with relations := carriedRelations previous target } := by
  rw [relationCommands_eq, effects_append, effects_append, effects_append, effects_dropCommands,
    effects_setCommands, effects_dropCommands, effects_setCommands, carriedRelations, hrelations]

theorem mem_map_key_iff {ρ : Type} {tag : ρ → CanvasRecordRelation}
    {relations : List CanvasRecordRelation} {Written : CanvasRecordRelation → Prop}
    (hmem : ∀ relation, relation ∈ relations ↔ (∃ part, relation = tag part) ∧ Written relation) :
    key ∈ relations.map (·.key) ↔ ∃ part, key = (tag part).key ∧ Written (tag part) := by
  rw [mem_map]
  constructor
  · rintro ⟨relation, hin, rfl⟩
    obtain ⟨⟨part, rfl⟩, hwritten⟩ := (hmem relation).mp hin
    exact ⟨part, rfl, hwritten⟩
  · rintro ⟨part, rfl, hwritten⟩
    exact ⟨_, (hmem _).mpr ⟨⟨part, rfl⟩, hwritten⟩, rfl⟩

variable (hprevious : previous.relations.Keyed)

include hprevious

theorem carriedRelations_keyed : (carriedRelations previous target).Keyed :=
  (((hprevious.dropAll _).upsertAll _).dropAll _).upsertAll _

/-- What is held after the relation commands. -/
theorem holds_carriedRelations_iff
    (htarget : target.relations.Keyed) (relation : CanvasRecordRelation) :
    (carriedRelations previous target).Holds relation ↔ relation ∈ addedGroups previous target ∨
        ((relation ∈ setParents previous target ∨
          (previous.relations.Holds relation ∧ relation.key ∉ clearedKeys previous target) ∧
            relation.key ∉ (setParents previous target).map (·.key)) ∧
          relation.key ∉ removedKeys previous target) ∧
        relation.key ∉ (addedGroups previous target).map (·.key) := by
  have hcleared := hprevious.dropAll (clearedKeys previous target)
  have hset := hcleared.upsertAll (setParents previous target)
  have hremoved := hset.dropAll (removedKeys previous target)
  rw [carriedRelations, holds_upsertAll_iff hremoved (nodup_addedGroups_keys htarget),
    holds_dropAll_iff hset, holds_upsertAll_iff hcleared (nodup_setParents_keys htarget),
    holds_dropAll_iff hprevious]

theorem mem_map_key_setParents_iff : key ∈ (setParents previous target).map (·.key) ↔
      ∃ parent, key = (CanvasRecordRelation.parent parent).key ∧
        target.relations.Holds (.parent parent) ∧ ¬ previous.relations.Holds (.parent parent) :=
  mem_map_key_iff fun _ => mem_setParents_iff hprevious

theorem mem_map_key_addedGroups_iff : key ∈ (addedGroups previous target).map (·.key) ↔
      ∃ group, key = (CanvasRecordRelation.group group).key ∧
        target.relations.Holds (.group group) ∧ ¬ previous.relations.Holds (.group group) :=
  mem_map_key_iff fun _ => mem_addedGroups_iff hprevious

variable (htarget : target.relations.Keyed)

include htarget

/-- No command is about a binding. -/
theorem holds_carried_binding (binding : CanvasRecordBindingRelation) :
    (carriedRelations previous target).Holds (.binding binding) ↔
      previous.relations.Holds (.binding binding) := by
  rw [holds_carriedRelations_iff hprevious htarget]
  simp [mem_addedGroups_iff hprevious, mem_setParents_iff hprevious, mem_clearedKeys_iff hprevious,
    mem_removedKeys_iff htarget, CanvasRecordRelation.key]

variable (hends : ∀ relation, target.relations.Holds relation → target.StoresEnds relation)

include hends

/-- A parent is held between records of the target exactly when the target holds it. -/
theorem holds_carried_parent (relation : CanvasRecordParentRelation) :
    (carriedRelations previous target).Holds (.parent relation) ∧
      target.StoresEnds (.parent relation) ↔ target.relations.Holds (.parent relation) := by
  have hreduce : (carriedRelations previous target).Holds (.parent relation) ↔
      (target.relations.Holds (.parent relation) ∧ ¬ previous.relations.Holds (.parent relation)) ∨
        (previous.relations.Holds (.parent relation) ∧
          .parent relation.child ∉ clearedKeys previous target) ∧
        (CanvasRecordRelation.parent relation).key ∉ (setParents previous target).map (·.key) := by
    rw [holds_carriedRelations_iff hprevious htarget]
    simp [mem_addedGroups_iff hprevious, mem_setParents_iff hprevious,
      mem_removedKeys_iff htarget, CanvasRecordRelation.key]
  rw [hreduce]
  constructor
  · rintro ⟨⟨hholds, _⟩ | ⟨⟨hholds, hkept⟩, hunset⟩, hchild, _⟩
    · exact hholds
    · have hparent := (parentOf_eq_some_iff hprevious).mpr hholds
      cases hnow : target.relations.parentOf relation.child with
      | none =>
        refine absurd ((mem_clearedKeys_iff hprevious).mpr ?_) hkept
        exact ⟨_, _, rfl, hparent, hnow, hchild⟩
      | some parent =>
        have hnew := (parentOf_eq_some_iff htarget).mp hnow
        by_cases hold : previous.relations.Holds (.parent ⟨relation.child, parent⟩)
        · rw [hprevious.eq_of_key hholds hold rfl]
          exact hnew
        · refine absurd ((mem_map_key_setParents_iff hprevious).mpr ?_) hunset
          exact ⟨⟨relation.child, parent⟩, rfl, hnew, hold⟩
  · intro hholds
    refine ⟨?_, hends _ hholds⟩
    by_cases hold : previous.relations.Holds (.parent relation)
    · refine .inr ⟨⟨hold, ?_⟩, ?_⟩
      · intro hcleared
        obtain ⟨child, parent, hkey, _, hnone, _⟩ := (mem_clearedKeys_iff hprevious).mp hcleared
        cases hkey
        rw [(parentOf_eq_some_iff htarget).mpr hholds] at hnone
        exact absurd hnone (by simp)
      · intro hset
        obtain ⟨parent, hkey, hnew, hunheld⟩ := (mem_map_key_setParents_iff hprevious).mp hset
        have hsame := htarget.eq_of_key hholds hnew hkey
        exact hunheld (hsame ▸ hold)
    · exact .inl ⟨hholds, hold⟩

/-- A group is held between records of the target exactly when the target holds it. -/
theorem holds_carried_group (relation : CanvasRecordGroupRelation) :
    (carriedRelations previous target).Holds (.group relation) ∧
      target.StoresEnds (.group relation) ↔ target.relations.Holds (.group relation) := by
  have hreduce : (carriedRelations previous target).Holds (.group relation) ↔
      (target.relations.Holds (.group relation) ∧ ¬ previous.relations.Holds (.group relation)) ∨
        (previous.relations.Holds (.group relation) ∧
          (CanvasRecordRelation.group relation).key ∉ removedKeys previous target) ∧
        (CanvasRecordRelation.group relation).key ∉ (addedGroups previous target).map (·.key) := by
    rw [holds_carriedRelations_iff hprevious htarget]
    simp [mem_addedGroups_iff hprevious, mem_setParents_iff hprevious,
      mem_clearedKeys_iff hprevious, CanvasRecordRelation.key]
  rw [hreduce]
  constructor
  · rintro ⟨⟨hholds, _⟩ | ⟨⟨hholds, hkept⟩, _⟩, hstored⟩
    · exact hholds
    · by_contra hgone
      refine hkept ((mem_removedKeys_iff htarget).mpr ?_)
      exact ⟨relation, rfl, hholds, hgone, hstored⟩
  · intro hholds
    refine ⟨?_, hends _ hholds⟩
    by_cases hold : previous.relations.Holds (.group relation)
    · refine .inr ⟨⟨hold, ?_⟩, ?_⟩
      · intro hremoved
        obtain ⟨group, hkey, hheld, hgone, _⟩ := (mem_removedKeys_iff htarget).mp hremoved
        exact hgone (hprevious.eq_of_key hold hheld hkey ▸ hholds)
      · intro hadded
        obtain ⟨group, hkey, hnew, hunheld⟩ := (mem_map_key_addedGroups_iff hprevious).mp hadded
        exact hunheld (htarget.eq_of_key hholds hnew hkey ▸ hold)
    · exact .inl ⟨hholds, hold⟩

end RelationCommands

variable {previous target : CanvasDocument}

def removalCommands (previous target : CanvasDocument) : List DocumentCommand :=
  (missingIds previous.edges target.edges).map .removeEdge ++
    (missingIds previous.shapes target.shapes).map .removeShape ++
    (missingIds previous.nodes target.nodes).map .removeNode

def nodeCommands (previous target : CanvasDocument) : List DocumentCommand :=
  recordCommands .insertNode .updateNode previous.nodes target.nodes

def shapeCommands (previous target : CanvasDocument) : List DocumentCommand :=
  recordCommands .insertShape .updateShape previous.shapes target.shapes

def edgeCommands (previous target : CanvasDocument) : List DocumentCommand :=
  recordCommands .insertEdge .updateEdge previous.edges target.edges

theorem transactionBetween_commands (previous target : CanvasDocument) :
    (transactionBetween previous target).commands = removalCommands previous target ++
      nodeCommands previous target ++ shapeCommands previous target ++
      edgeCommands previous target ++ relationCommands previous target := rfl

theorem mem_missingIds_iff {ν : Type} {previous target : IndexMap String ν} {id : String} :
    id ∈ missingIds previous target ↔
      previous.containsKey id = true ∧ ¬ target.containsKey id = true := by
  rw [missingIds, mem_filter, mem_keys_iff, Bool.not_eq_true', Bool.not_eq_true]

/-- Records whose ids are not gone are those the target has. -/
theorem get_eraseAll_missingIds {ν : Type} (previous target : IndexMap String ν) (id : String) :
    (previous.eraseAll (missingIds previous target)).get id =
      (previous.retain fun id _ => target.containsKey id).get id := by
  ext record
  rw [get_eraseAll_eq_some_iff, get_retain_eq_some_iff, mem_missingIds_iff]
  refine and_congr_right fun hget => ?_
  rw [not_and_not_right]
  exact ⟨fun h => h (containsKey_iff.mpr ⟨record, hget⟩), fun h _ => h⟩

/-- The document after the removals. -/
def withoutGone (previous target : CanvasDocument) : CanvasDocument :=
  withoutNodes { previous with
    edges := previous.edges.eraseAll (missingIds previous.edges target.edges)
    shapes := previous.shapes.eraseAll (missingIds previous.shapes target.shapes) }
    (missingIds previous.nodes target.nodes)

theorem effects_removalCommands (previous target : CanvasDocument) :
    previous.effects (removalCommands previous target) = withoutGone previous target := by
  rw [removalCommands, effects_append, effects_append, effects_removeEdges, effects_removeShapes,
    effects_removeNodes, withoutGone]

variable {edge : CanvasEdge}

theorem Valid.ends_stored {document : CanvasDocument} (hvalid : document.Valid) {id : EdgeId}
    (hget : document.edges.get id = some edge) :
    document.nodes.containsKey edge.source.nodeId = true ∧
      document.nodes.containsKey edge.target.nodeId = true := by
  obtain ⟨hsource, htarget⟩ := validateEdge_stored (hvalid.recordsValid.edges id edge hget)
  exact ⟨containsKey_iff.mpr hsource, containsKey_iff.mpr htarget⟩

/-- An edge outlives the removals when the target has it and the nodes it joins. -/
theorem get_withoutGone_edges_eq_some_iff (hprevious : previous.Valid) {id : EdgeId} :
    (withoutGone previous target).edges.get id = some edge ↔
      previous.edges.get id = some edge ∧ target.edges.containsKey id = true ∧
        target.nodes.containsKey edge.source.nodeId = true ∧
        target.nodes.containsKey edge.target.nodeId = true := by
  rw [withoutGone, withoutNodes, get_retain_eq_some_iff, get_eraseAll_missingIds,
    get_retain_eq_some_iff, and_assoc]
  refine and_congr_right fun hget => and_congr_right fun _ => ?_
  obtain ⟨hsource, htarget⟩ := hprevious.ends_stored hget
  simp only [Bool.and_eq_true, Bool.not_eq_true', ← Bool.not_eq_true, contains_iff_mem,
    mem_missingIds_iff, hsource, htarget, true_and, not_not]

theorem CanvasEdge.ends_of_beq {other : CanvasEdge} (h : (edge == other) = true) :
    edge.source = other.source ∧ edge.target = other.target := by
  have hparts : (edge == other) = (edge.id == other.id && (edge.kind == other.kind && (edge.source
    == other.source && (edge.target == other.target && (edge.zIndex == other.zIndex && (edge.hidden
    == other.hidden && (edge.locked == other.locked && (edge.data == other.data && (edge.style ==
    other.style && edge.route == other.route))))))))) := rfl
  simp only [hparts, Bool.and_eq_true, beq_iff_eq] at h
  exact ⟨h.2.2.1, h.2.2.2.1⟩

/-- The document the commands between two documents write. -/
def carried (previous target : CanvasDocument) : CanvasDocument :=
  previous.effects (transactionBetween previous target).commands

theorem carried_eq (htarget : target.WellKeyed) :
    carried previous target = { previous with
      nodes := (withoutGone previous target).nodes.insertAll
        (previous.nodes.changes target.nodes).entries
      edges := (withoutGone previous target).edges.insertAll
        (previous.edges.changes target.edges).entries
      shapes := (withoutGone previous target).shapes.insertAll
        (previous.shapes.changes target.shapes).entries
      relations := carriedRelations previous target } := by
  rw [carried, transactionBetween_commands, effects_append, effects_append, effects_append,
    effects_append, effects_removalCommands, nodeCommands, effects_nodes htarget.nodes,
    shapeCommands, effects_shapes htarget.shapes, edgeCommands, effects_edges htarget.edges]
  exact effects_relationCommands previous target _ rfl

theorem get_carried_nodes (previous : CanvasDocument) (htarget : target.WellKeyed) (id : NodeId) :
    (carried previous target).nodes.get id = (previous.nodes.carryOver target.nodes).get id := by
  rw [carried_eq htarget, get_carryOver, get_insertAll (previous.nodes.changes target.nodes).nodup]
  exact congrArg (Option.or _) (get_eraseAll_missingIds _ _ _)

theorem get_carried_shapes (previous : CanvasDocument) (htarget : target.WellKeyed) (id : ShapeId) :
    (carried previous target).shapes.get id = (previous.shapes.carryOver target.shapes).get id := by
  rw [carried_eq htarget, get_carryOver,
    get_insertAll (previous.shapes.changes target.shapes).nodup]
  exact congrArg (Option.or _) (get_eraseAll_missingIds _ _ _)

/-- An unchanged edge is not lost with a node, since the target has its ends. -/
theorem get_carried_edges (hprevious : previous.Valid) (htarget : target.Valid) (id : EdgeId) :
    (carried previous target).edges.get id = (previous.edges.carryOver target.edges).get id := by
  rw [carried_eq htarget.wellKeyed, get_carryOver,
    get_insertAll (previous.edges.changes target.edges).nodup]
  cases hchange : (previous.edges.changes target.edges).get id with
  | some edge =>
    have hlookup : IndexMap.lookup id (previous.edges.changes target.edges).entries = some edge :=
      hchange
    rw [hlookup]
    rfl
  | none =>
    have hlookup : IndexMap.lookup id (previous.edges.changes target.edges).entries = none :=
      hchange
    rw [hlookup, Option.none_or, Option.none_or]
    ext edge
    rw [get_withoutGone_edges_eq_some_iff hprevious, get_retain_eq_some_iff]
    refine and_congr_right fun hold => and_iff_left_of_imp fun hstored => ?_
    obtain ⟨next, hnext⟩ := containsKey_iff.mp hstored
    have hsame : (edge == next) = true := by
      by_contra hne
      have hchanged : (previous.edges.changes target.edges).get id = some next := by
        refine get_changes_eq_some_iff.mpr ⟨hnext, fun old hget => ?_⟩
        rw [hold, Option.some.injEq] at hget
        exact hget ▸ Bool.eq_false_iff.mpr hne
      rw [hchange] at hchanged
      exact absurd hchanged (by simp)
    obtain ⟨hsource, htargetEnd⟩ := CanvasEdge.ends_of_beq hsame
    rw [hsource, htargetEnd]
    exact htarget.ends_stored hnext

theorem containsRecord_carried (hprevious : previous.Valid) (htarget : target.Valid)
    (id : CanvasRecordId) :
    (carried previous target).containsRecord id = target.containsRecord id := by
  cases id with
  | node id =>
    have hget := get_carried_nodes previous htarget.wellKeyed id
    have hkey := containsKey_carryOver previous.nodes target.nodes id
    rw [containsRecord, containsRecord, ← hkey, containsKey, hget, containsKey]
  | edge id =>
    have hget := get_carried_edges hprevious htarget id
    have hkey := containsKey_carryOver previous.edges target.edges id
    rw [containsRecord, containsRecord, ← hkey, containsKey, hget, containsKey]
  | shape id =>
    have hget := get_carried_shapes previous htarget.wellKeyed id
    have hkey := containsKey_carryOver previous.shapes target.shapes id
    rw [containsRecord, containsRecord, ← hkey, containsKey, hget, containsKey]

end CanvasDocument

end OpenGpui.Canvas
