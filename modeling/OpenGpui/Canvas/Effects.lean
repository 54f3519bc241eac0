/-
Gestures, and what commands write.  The commit and the cancellation of a gesture are the
transactions that `transaction_between` computes between the document it began with and
the current one; the draft of a transaction is the fold of the effects of its commands.
-/
import OpenGpui.Canvas.CommandSpecs
import OpenGpui.Library.IndexMapCarry

namespace OpenGpui.Canvas

namespace CanvasTransaction

def isEmpty (transaction : CanvasTransaction) : Bool := transaction.commands.isEmpty

end CanvasTransaction

/-- The ids whose record is gone. -/
def missingIds {ν : Type} (previous target : IndexMap String ν) : List String :=
  previous.keys.filter fun id => !target.containsKey id

/-- A command for each new record and for each record that is not equal to the one
before, in the order of the target. -/
def recordCommands {ν : Type} [BEq ν] (insert update : ν → DocumentCommand)
    (previous target : IndexMap String ν) : List DocumentCommand :=
  target.entries.filterMap fun entry =>
    match previous.get entry.1 with
    | none => some (insert entry.2)
    | some old => if old != entry.2 then some (update entry.2) else none

/-- `append_relation_commands`.  Bindings get no commands. -/
def relationCommands (previous target : CanvasDocument) : List DocumentCommand :=
  let cleared := previous.relations.parents.filter fun relation =>
    target.relations.parentOf relation.child != some relation.parent &&
      (target.relations.parentOf relation.child).isNone &&
      target.containsRecord relation.child
  let set := target.relations.parents.filter fun relation =>
    previous.relations.parentOf relation.child != some relation.parent
  let removed := previous.relations.groups.filter fun relation =>
    !target.relations.containsRelation (.group relation) &&
      target.containsRecord relation.group && target.containsRecord relation.member
  let added := target.relations.groups.filter fun relation =>
    !previous.relations.containsRelation (.group relation)
  cleared.map (fun relation => .clearRecordParent relation.child) ++
    set.map (fun relation => .setRecordParent relation.child relation.parent) ++
    removed.map (fun relation => .removeRecordFromGroup relation.group relation.member) ++
    added.map (fun relation => .addRecordToGroup relation.group relation.member)

def transactionBetween (previous target : CanvasDocument) : CanvasTransaction :=
  .new ((missingIds previous.edges target.edges).map .removeEdge ++
    (missingIds previous.shapes target.shapes).map .removeShape ++
    (missingIds previous.nodes target.nodes).map .removeNode ++
    recordCommands .insertNode .updateNode previous.nodes target.nodes ++
    recordCommands .insertShape .updateShape previous.shapes target.shapes ++
    recordCommands .insertEdge .updateEdge previous.edges target.edges ++
    relationCommands previous target)

structure CanvasGestureSession where
  baseline : CanvasDocument
deriving BEq

structure CanvasPreparedGestureCommit where
  committed : CanvasCommittedMutation
deriving BEq

namespace CanvasGestureSession

/-- `CanvasGestureSession::begin`. -/
def begin (document : CanvasDocument) : CanvasGestureSession := ⟨document⟩

variable (gesture : CanvasGestureSession)

def prepareCommitWithKindRegistry (current : CanvasDocument)
    (kindRegistry : CanvasKindRegistry) :
    Except DocumentError (Option CanvasPreparedGestureCommit) := do
  let transaction := transactionBetween gesture.baseline current
  if transaction.isEmpty then return none
  let prepared ← CanvasMutationJournal.prepareWithKindRegistry gesture.baseline transaction
    kindRegistry
  return some ⟨prepared.committed⟩

def cancelTransaction (current : CanvasDocument) : CanvasTransaction :=
  transactionBetween current gesture.baseline

end CanvasGestureSession

open Checked List IndexMap

namespace CanvasDocument

/-- The effects of commands, one after another. -/
def effects (document : CanvasDocument) (commands : List DocumentCommand) : CanvasDocument :=
  commands.foldl effect document

theorem effects_append (document : CanvasDocument) (first second : List DocumentCommand) :
    document.effects (first ++ second) = (document.effects first).effects second :=
  foldl_append

theorem effect_formatVersion (document : CanvasDocument) (command : DocumentCommand) :
    (document.effect command).formatVersion = document.formatVersion := by
  cases command <;> rfl

theorem effect_metadata (document : CanvasDocument) (command : DocumentCommand) :
    (document.effect command).metadata = document.metadata := by
  cases command <;> rfl

theorem effects_formatVersion (document : CanvasDocument) (commands : List DocumentCommand) :
    (document.effects commands).formatVersion = document.formatVersion := by
  induction commands generalizing document with
  | nil => rfl
  | cons command rest ih =>
    exact (ih (document.effect command)).trans (effect_formatVersion document command)

theorem effects_metadata (document : CanvasDocument) (commands : List DocumentCommand) :
    (document.effects commands).metadata = document.metadata := by
  induction commands generalizing document with
  | nil => rfl
  | cons command rest ih =>
    exact (ih (document.effect command)).trans (effect_metadata document command)

variable {document : CanvasDocument} {commands : List DocumentCommand}

theorem effects_of_applyAll {after : CanvasDocument}
    (h : document.applyAll commands = .ok after) : after = document.effects commands := by
  induction commands generalizing document with
  | nil =>
    cases h
    rfl
  | cons command rest ih =>
    obtain ⟨draft, happly, hrest⟩ := applyAll_cons_ok_iff.mp h
    rw [effect_of_apply happly] at hrest
    exact ih hrest

/-- The commands apply, one after another. -/
def Applies (document : CanvasDocument) (commands : List DocumentCommand) : Prop :=
  ∃ after, document.applyAll commands = .ok after

theorem Applies.applyAll (h : document.Applies commands) :
    document.applyAll commands = .ok (document.effects commands) := by
  obtain ⟨after, hafter⟩ := h
  rw [← effects_of_applyAll hafter]
  exact hafter

theorem applies_append_iff {first second : List DocumentCommand} :
    document.Applies (first ++ second) ↔
      document.Applies first ∧ (document.effects first).Applies second := by
  constructor
  · rintro ⟨after, hafter⟩
    obtain ⟨draft, hfirst, hsecond⟩ := applyAll_append_ok_iff.mp hafter
    refine ⟨⟨draft, hfirst⟩, after, ?_⟩
    rw [← effects_of_applyAll hfirst]
    exact hsecond
  · rintro ⟨hfirst, after, hsecond⟩
    exact ⟨after, applyAll_append_ok_iff.mpr ⟨_, hfirst.applyAll, hsecond⟩⟩

theorem applies_cons_iff {command : DocumentCommand}
    {rest : List DocumentCommand} : document.Applies (command :: rest) ↔
      (∃ after, document.apply command = .ok after) ∧ (document.effect command).Applies rest := by
  have hhead : document.Applies [command] ↔ ∃ after, document.apply command = .ok after :=
    exists_congr fun _ => applyAll_singleton_ok_iff
  rw [← hhead]
  exact @applies_append_iff document [command] rest

/-- Commands about different records apply one after another when each applies to
the document as it is: it finds its record stored or not, as it needs, and passes a
check that the others do not touch. -/
theorem applies_map_iff {α : Type} (command : α → DocumentCommand) (key : α → String)
    (stored : CanvasDocument → String → Bool) (needed : α → Bool)
    (accepts : CanvasDocument → α → Prop)
    (happly : ∀ draft item, (∃ after, apply draft (command item) = .ok after) ↔
      stored draft (key item) = needed item ∧ accepts draft item)
    (hstored : ∀ draft item id, id ≠ key item →
      stored (effect draft (command item)) id = stored draft id)
    (haccepts : ∀ draft item other, accepts (effect draft (command item)) other ↔
      accepts draft other)
    {items : List α} (hnodup : (items.map key).Nodup) (document : CanvasDocument) :
    document.Applies (items.map command) ↔
      ∀ item ∈ items, stored document (key item) = needed item ∧ accepts document item := by
  induction items generalizing document with
  | nil => simp [Applies, CanvasDocument.applyAll, pure_eq_ok]
  | cons item rest ih =>
    rw [map_cons, nodup_cons] at hnodup
    rw [map_cons, applies_cons_iff, forall_mem_cons, ← happly, ih hnodup.2]
    refine and_congr_right fun _ => forall₂_congr fun other hmem => ?_
    have hne : key other ≠ key item := by
      intro heq
      exact hnodup.1 (heq ▸ mem_map_of_mem hmem)
    rw [hstored document item _ hne, haccepts]

section Removals

variable (document : CanvasDocument)

theorem effects_removeEdges (ids : List EdgeId) : document.effects (ids.map .removeEdge) =
      { document with edges := document.edges.eraseAll ids } := by
  rw [effects, foldl_map]
  refine foldl_hom (fun edges => { document with edges }) ?_
  exact fun _ _ => rfl

theorem effects_removeShapes (ids : List ShapeId) : document.effects (ids.map .removeShape) =
      { document with shapes := document.shapes.eraseAll ids } := by
  rw [effects, foldl_map]
  refine foldl_hom (fun shapes => { document with shapes }) ?_
  exact fun _ _ => rfl

variable (ids : List NodeId)

/-- The document without some nodes and the edges at them. -/
def withoutNodes : CanvasDocument :=
  { document with
    nodes := document.nodes.eraseAll ids
    edges := document.edges.retain fun _ edge =>
      !ids.contains edge.source.nodeId && !ids.contains edge.target.nodeId }

theorem effects_removeNodes :
    document.effects (ids.map .removeNode) = document.withoutNodes ids := by
  induction ids generalizing document with
  | nil =>
    have hedges : document.edges.retain (fun _ _ => true) = document.edges :=
      ext_entries (filter_true _)
    exact congrArg (fun edges => { document with edges }) hedges.symm
  | cons id rest ih =>
    have hkeep : ∀ edge : CanvasEdge, (edge.source.nodeId != id && edge.target.nodeId != id &&
          (!rest.contains edge.source.nodeId && !rest.contains edge.target.nodeId)) = (!(id ::
          rest).contains edge.source.nodeId && !(id :: rest).contains edge.target.nodeId) := by
      intro edge
      simp only [contains_cons, Bool.not_or, bne]
      ac_rfl
    have hedges := document.edges.retain_retain
      (fun _ edge => edge.source.nodeId != id && edge.target.nodeId != id)
      fun _ edge => !rest.contains edge.source.nodeId && !rest.contains edge.target.nodeId
    simp only [hkeep] at hedges
    rw [map_cons, effects, foldl_cons, ← effects, ih]
    exact congrArg (fun edges => { document with
      nodes := document.nodes.eraseAll (id :: rest)
      edges }) hedges

end Removals

variable (document : CanvasDocument) {ν : Type}

/-- A changed record is updated when it was stored before, and inserted otherwise. -/
theorem recordCommands_eq [BEq ν] (insert update : ν → DocumentCommand)
    (previous target : IndexMap String ν) :
    recordCommands insert update previous target =
      (previous.changes target).entries.map fun entry =>
        if previous.containsKey entry.1 then update entry.2 else insert entry.2 := by
  rw [recordCommands, IndexMap.changes, IndexMap.retain]
  dsimp only
  let changed := fun entry : String × ν => (previous.get entry.1).all (· != entry.2)
  induction target.entries with
  | nil => rfl
  | cons entry rest ih =>
    cases hold : previous.get entry.1 with
    | none =>
      have hkeep : (previous.get entry.1).all (· != entry.2) = true := by
        rw [hold]
        rfl
      have habsent : ¬ previous.containsKey entry.1 = true := by
        rw [IndexMap.containsKey, hold]
        exact Bool.false_ne_true
      rw [filterMap_cons_some (by rw [hold]), filter_cons_of_pos (p := changed) hkeep,
        map_cons, if_neg habsent, ih]
    | some old =>
      have hstored : previous.containsKey entry.1 = true := containsKey_iff.mpr ⟨old, hold⟩
      by_cases hchanged : (old != entry.2) = true
      · have hkeep : (previous.get entry.1).all (· != entry.2) = true := by
          rw [hold]
          exact hchanged
        rw [filterMap_cons_some (by rw [hold]; exact if_pos hchanged),
          filter_cons_of_pos (p := changed) hkeep, map_cons, if_pos hstored, ih]
      · have hdrop : ¬ (previous.get entry.1).all (· != entry.2) = true := by
          rw [hold]
          exact hchanged
        rw [filterMap_cons_none (by rw [hold]; exact if_neg hchanged),
          filter_cons_of_neg (p := changed) hdrop, ih]

variable {document} {previous target : IndexMap String ν} {name : ν → String}

theorem named_changes [BEq ν] (hnamed : target.NamedBy name) (entry : String × ν)
    (hentry : entry ∈ (previous.changes target).entries) : name entry.2 = entry.1 := by
  have hchange := get_eq_some_iff.mpr hentry
  exact hnamed entry.1 entry.2 (get_changes_eq_some_iff.mp hchange).1

/-- The commands for changed records write the changes one after another. -/
theorem effects_recordCommands [BEq ν] {insert update : ν → DocumentCommand}
    (withRecords : IndexMap String ν → CanvasDocument)
    (hinsert : ∀ records record, effect (withRecords records) (insert record) =
      withRecords (records.insert (name record) record))
    (hupdate : ∀ records record, effect (withRecords records) (update record) =
      withRecords (records.insert (name record) record))
    (hnamed : target.NamedBy name)
    (records : IndexMap String ν) :
    (withRecords records).effects (recordCommands insert update previous target) =
      withRecords (records.insertAll (previous.changes target).entries) := by
  rw [effects, recordCommands_eq, foldl_map, ← insertAll_eq_foldl_name (named_changes hnamed)]
  refine foldl_hom withRecords fun stored entry => ?_
  by_cases hstored : previous.containsKey entry.1 = true
  · rw [if_pos hstored, hupdate]
  · rw [if_neg hstored, hinsert]

theorem effects_nodes {previous target : IndexMap NodeId CanvasNode}
    (hnamed : target.NamedBy CanvasNode.id) :
    document.effects (recordCommands .insertNode .updateNode previous target) =
      { document with nodes := document.nodes.insertAll (previous.changes target).entries } :=
  effects_recordCommands (fun nodes => { document with nodes }) (fun _ _ => rfl) (fun _ _ => rfl)
    hnamed document.nodes

theorem effects_edges {previous target : IndexMap EdgeId CanvasEdge}
    (hnamed : target.NamedBy CanvasEdge.id) :
    document.effects (recordCommands .insertEdge .updateEdge previous target) =
      { document with edges := document.edges.insertAll (previous.changes target).entries } :=
  effects_recordCommands (fun edges => { document with edges }) (fun _ _ => rfl) (fun _ _ => rfl)
    hnamed document.edges

theorem effects_shapes {previous target : IndexMap ShapeId CanvasShape}
    (hnamed : target.NamedBy CanvasShape.id) :
    document.effects (recordCommands .insertShape .updateShape previous target) =
      { document with shapes := document.shapes.insertAll (previous.changes target).entries } :=
  effects_recordCommands (fun shapes => { document with shapes }) (fun _ _ => rfl) (fun _ _ => rfl)
    hnamed document.shapes

end CanvasDocument

end OpenGpui.Canvas
