/-
Replaying the transaction between two documents.  It leads from the first document
to the second exactly when the second keeps the bindings and the parents of what
stays, the edges that stay fit its nodes, and a node update loses no relation.
-/
import OpenGpui.Canvas.GestureSteps
import OpenGpui.Canvas.Undo

namespace OpenGpui.Canvas.CanvasDocument

open Checked IndexMap List

open CanvasRecordRelations

section RelationSteps

variable {document : CanvasDocument}

theorem applies_dropCommands (document : CanvasDocument) (keys : List CanvasRelationKey) :
    document.Applies (keys.map dropCommand) := by
  induction keys generalizing document with
  | nil => exact ⟨document, rfl⟩
  | cons key rest ih =>
    rw [map_cons, applies_cons_iff]
    exact ⟨⟨_, apply_drop document key⟩, ih _⟩

theorem effect_setCommand (document : CanvasDocument) (relation : CanvasRecordRelation) :
    document.effect (setCommand relation) =
      { document with relations := document.relations.upsert relation } := by
  cases relation <;> rfl

theorem effect_dropCommand (document : CanvasDocument) (key : CanvasRelationKey) :
    document.effect (dropCommand key) =
      { document with relations := document.relations.drop key } := by
  cases key <;> rfl

theorem applies_setCommands {items : List CanvasRecordRelation}
    (hitems : ∀ item ∈ items, item.ends.1 ≠ item.ends.2 ∧ document.StoresEnds item) :
    document.Applies (items.map setCommand) := by
  induction items generalizing document with
  | nil => exact ⟨document, rfl⟩
  | cons item rest ih =>
    obtain ⟨hends, hstored⟩ := hitems item mem_cons_self
    rw [map_cons, applies_cons_iff]
    refine ⟨⟨_, apply_set_ok_iff.mpr ⟨hends, hstored, rfl⟩⟩, ih fun other hmem => ?_⟩
    obtain ⟨hother, hotherStored⟩ := hitems other (mem_cons_of_mem _ hmem)
    rw [effect_setCommand]
    exact ⟨hother, hotherStored.congr (relations_only _).symm⟩

/-- Dropping keys is reversible when their records and those of their relations are
stored. -/
theorem reversibleAlong_drops_iff (hkeyed : document.relations.Keyed)
    {keys : List CanvasRelationKey} : document.ReversibleAlong (keys.map dropCommand) ↔
      ∀ key ∈ keys, (∀ id ∈ keyRecords key, document.containsRecord id = true) ∧
        document.PreviousStored key := by
  induction keys generalizing document with
  | nil => simp [ReversibleAlong]
  | cons key rest ih =>
    have hnext := @ih { document with relations := document.relations.drop key } (hkeyed.drop key)
    rw [map_cons, ReversibleAlong, reversible_drop_iff hkeyed, forall_mem_cons]
    refine and_congr_right fun hkey => ?_
    have hdraft : (∀ draft, document.apply (dropCommand key) = .ok draft →
        draft.ReversibleAlong (rest.map dropCommand)) ↔
        ReversibleAlong { document with relations := document.relations.drop key }
          (rest.map dropCommand) := by
      rw [apply_drop]
      simp
    rw [hdraft, hnext]
    refine forall₂_congr fun other _ => and_congr_right fun _ => ?_
    constructor
    · intro h previous hholds hother
      by_cases heq : previous.key = key
      · exact hkey.2 previous hholds heq
      · exact h previous ((holds_drop_iff hkeyed key previous).mpr ⟨hholds, heq⟩) hother
    · intro h previous hholds hother
      exact h previous ((holds_drop_iff hkeyed key previous).mp hholds).1 hother

/-- Putting relations is reversible when the relations they replace have their
records. -/
theorem reversibleAlong_sets_iff (hkeyed : document.relations.Keyed)
    {items : List CanvasRecordRelation} (hnodup : (items.map (·.key)).Nodup)
    (hitems : ∀ item ∈ items, item.ends.1 ≠ item.ends.2 ∧ document.StoresEnds item) :
    document.ReversibleAlong (items.map setCommand) ↔
      ∀ item ∈ items, document.PreviousStored item.key := by
  induction items generalizing document with
  | nil => simp [ReversibleAlong]
  | cons item rest ih =>
    obtain ⟨hends, hstored⟩ := hitems item mem_cons_self
    rw [map_cons, nodup_cons] at hnodup
    have hnext := @ih { document with relations := document.relations.upsert item }
      (hkeyed.upsert item) hnodup.2 fun other hmem => by
        obtain ⟨hother, hotherStored⟩ := hitems other (mem_cons_of_mem _ hmem)
        exact ⟨hother, hotherStored.congr (relations_only _).symm⟩
    rw [map_cons, ReversibleAlong, reversible_set_iff hkeyed hstored, forall_mem_cons]
    refine and_congr_right fun _ => ?_
    have hdraft : (∀ draft, document.apply (setCommand item) = .ok draft →
        draft.ReversibleAlong (rest.map setCommand)) ↔
        ReversibleAlong { document with relations := document.relations.upsert item }
          (rest.map setCommand) := by
      constructor
      · intro h
        exact h _ (apply_set_ok_iff.mpr ⟨hends, hstored, rfl⟩)
      · intro h draft happly
        rw [(apply_set_ok_iff.mp happly).2.2]
        exact h
    rw [hdraft, hnext]
    refine forall₂_congr fun other hmem => ?_
    have hne : item.key ≠ other.key := fun heq => hnodup.1 (heq ▸ mem_map_of_mem hmem)
    constructor
    · intro h previous hholds hother
      refine h previous ((holds_upsert_iff hkeyed item previous).mpr (.inr ⟨hholds, ?_⟩)) hother
      exact fun heq => hne (heq.symm.trans hother)
    · intro h previous hholds hother
      rcases (holds_upsert_iff hkeyed item previous).mp hholds with rfl | ⟨hold, _⟩
      · exact absurd hother hne
      · exact h previous hold hother

end RelationSteps

variable {previous target : CanvasDocument}

/-- A record that stays keeps the record that was its parent. -/
def ParentsStay (previous target : CanvasDocument) : Prop :=
  ∀ child parent, previous.relations.parentOf child = some parent →
    target.containsRecord child = true → target.containsRecord parent = true

theorem Valid.joined {document : CanvasDocument} (hvalid : document.Valid)
    (relation : CanvasRecordRelation) (hholds : document.relations.Holds relation) :
    relation.ends.1 ≠ relation.ends.2 ∧ document.StoresEnds relation := by
  obtain ⟨_, hjoined, hends, _⟩ := (relationsWellFormed_iff document).mp hvalid.wellFormed
  exact ⟨hjoined relation hholds, hends relation hholds⟩

section OnRecordsOfTarget

variable {document : CanvasDocument}

theorem storesEnds_of_containsRecord
    (hrecords : ∀ id, document.containsRecord id = target.containsRecord id)
    (relation : CanvasRecordRelation) :
    document.StoresEnds relation ↔ target.StoresEnds relation := by
  rw [StoresEnds, StoresEnds, hrecords, hrecords]

/-- Relations of the target can be put wherever its records are stored. -/
theorem applies_setCommands_of_target (htarget : target.Valid)
    (hrecords : ∀ id, document.containsRecord id = target.containsRecord id)
    {items : List CanvasRecordRelation} (hitems : ∀ item ∈ items, target.relations.Holds item)
    (relations : CanvasRecordRelations) :
    Applies { document with relations } (items.map setCommand) := by
  refine applies_setCommands fun item hmem => ?_
  obtain ⟨hends, hboth⟩ := htarget.joined item (hitems item hmem)
  exact ⟨hends, (storesEnds_of_containsRecord (fun id => hrecords id) item).mpr hboth⟩

theorem applies_relationCommands (hprevious : previous.relations.Keyed) (htarget : target.Valid)
    (hrecords : ∀ id, document.containsRecord id = target.containsRecord id) :
    document.Applies (relationCommands previous target) := by
  have hset := applies_setCommands_of_target htarget hrecords
    fun item hmem => ((mem_setParents_iff hprevious).mp hmem).2.1
  have hadd := applies_setCommands_of_target htarget hrecords
    fun item hmem => ((mem_addedGroups_iff hprevious).mp hmem).2.1
  rw [relationCommands_eq, applies_append_iff, applies_append_iff, applies_append_iff]
  simp only [effects_append, effects_dropCommands, effects_setCommands]
  exact ⟨⟨⟨applies_dropCommands _ _, hset _⟩, applies_dropCommands _ _⟩, hadd _⟩

theorem Applies.reversibleAlong_append_iff {commands : List DocumentCommand}
    (h : document.Applies commands) (rest : List DocumentCommand) : document.ReversibleAlong
    (commands ++ rest) ↔
      document.ReversibleAlong commands ∧ (document.effects commands).ReversibleAlong rest := by
  rw [CanvasDocument.reversibleAlong_append_iff, h.applyAll]
  simp

/-- The relation commands are reversible on the records of the target when no parent
is lost; everything else they replace joins records that stay. -/
theorem reversibleAlong_relationCommands_iff (hprevious : previous.relations.Keyed)
    (htarget : target.Valid) (hrelations : document.relations = previous.relations)
    (hrecords : ∀ id, document.containsRecord id = target.containsRecord id) :
    document.ReversibleAlong (relationCommands previous target) ↔ ParentsStay previous target := by
  have hkeyed : document.relations.Keyed := hrelations ▸ hprevious
  have htargetKeyed := htarget.isDraft.keyed
  have hcleared := hkeyed.dropAll (clearedKeys previous target)
  have hset := hcleared.upsertAll (setParents previous target)
  have hparents : ∀ item ∈ setParents previous target, target.relations.Holds item :=
    fun item hmem => ((mem_setParents_iff hprevious).mp hmem).2.1
  have hgroups : ∀ item ∈ addedGroups previous target, target.relations.Holds item :=
    fun item hmem => ((mem_addedGroups_iff hprevious).mp hmem).2.1
  have hjoined : ∀ relations item, target.relations.Holds item → item.ends.1 ≠ item.ends.2 ∧
      StoresEnds { document with relations } item := by
    intro relations item hholds
    obtain ⟨hends, hboth⟩ := htarget.joined item hholds
    exact ⟨hends, (storesEnds_of_containsRecord (fun id => hrecords id) item).mpr hboth⟩
  have hgroup : ∀ (relations : CanvasRecordRelations) (group : CanvasRecordGroupRelation),
      target.StoresEnds (.group group) → (∀ id ∈ keyRecords (.group group.group group.member),
      containsRecord { document with relations } id = true) ∧
        PreviousStored { document with relations } (.group group.group group.member) := by
    intro relations group hends
    have hboth : StoresEnds { document with relations } (.group group) :=
      (storesEnds_of_containsRecord (fun id => hrecords id) (.group group)).mpr hends
    refine ⟨?_, previousStored_group hboth.1 hboth.2⟩
    intro id hid
    simp only [keyRecords, mem_cons, not_mem_nil, or_false] at hid
    rcases hid with rfl | rfl
    · exact hboth.1
    · exact hboth.2
  have hclearsIff := (applies_dropCommands document (clearedKeys previous
      target)).reversibleAlong_append_iff ((setParents previous target).map setCommand ++
      ((removedKeys previous target).map dropCommand ++ (addedGroups previous target).map
      setCommand))
  rw [effects_dropCommands] at hclearsIff
  have hsetsIff := (applies_setCommands_of_target htarget hrecords hparents
    (document.relations.dropAll (clearedKeys previous target))).reversibleAlong_append_iff
    ((removedKeys previous target).map dropCommand ++ (addedGroups previous target).map setCommand)
  rw [effects_setCommands] at hsetsIff
  have hremovesIff := (applies_dropCommands { document with
    relations := (document.relations.dropAll (clearedKeys previous target)).upsertAll
      (setParents previous target) } (removedKeys previous target)).reversibleAlong_append_iff
    ((addedGroups previous target).map setCommand)
  rw [effects_dropCommands] at hremovesIff
  have hsetsSteps := @reversibleAlong_sets_iff { document with
    relations := document.relations.dropAll (clearedKeys previous target) } hcleared _
      (nodup_setParents_keys htargetKeyed) fun item hmem => hjoined _ item (hparents item hmem)
  have hremovesSteps := @reversibleAlong_drops_iff { document with
    relations := (document.relations.dropAll (clearedKeys previous target)).upsertAll
      (setParents previous target) } hset (removedKeys previous target)
  have haddsSteps := @reversibleAlong_sets_iff { document with
    relations := ((document.relations.dropAll (clearedKeys previous target)).upsertAll
      (setParents previous target)).dropAll (removedKeys previous target) } (hset.dropAll _) _
      (nodup_addedGroups_keys htargetKeyed) fun item hmem => hjoined _ item (hgroups item hmem)
  rw [relationCommands_eq, append_assoc, append_assoc, hclearsIff, hsetsIff, hremovesIff,
    reversibleAlong_drops_iff hkeyed, hsetsSteps, hremovesSteps, haddsSteps]
  constructor
  · rintro ⟨hclears, hsets, _, _⟩ child parent hparent hchild
    have hholds := (parentOf_eq_some_iff hprevious).mp hparent
    cases hnow : target.relations.parentOf child with
    | none =>
      have hkey := (mem_clearedKeys_iff hprevious).mpr ⟨child, parent, rfl, hparent, hnow, hchild⟩
      have hstored := (hclears _ hkey).2 (.parent ⟨child, parent⟩) (hrelations ▸ hholds) rfl
      rw [← hrecords]
      exact hstored.2
    | some next =>
      have hnext := (parentOf_eq_some_iff htargetKeyed).mp hnow
      by_cases hold : previous.relations.Holds (.parent ⟨child, next⟩)
      · have hsame := hprevious.eq_of_key hholds hold rfl
        cases hsame
        exact (htarget.joined _ hnext).2.2
      · have hmem := (mem_setParents_iff hprevious).mpr ⟨⟨_, rfl⟩, hnext, hold⟩
        have hkept : (document.relations.dropAll (clearedKeys previous target)).Holds
            (.parent ⟨child, parent⟩) := by
          refine (holds_dropAll_iff hkeyed _ _).mpr ⟨hrelations ▸ hholds, fun hkey => ?_⟩
          obtain ⟨other, _, heq, _, hnone, _⟩ := (mem_clearedKeys_iff hprevious).mp hkey
          cases heq
          rw [hnow] at hnone
          exact absurd hnone (by simp)
        have hstored := hsets _ hmem (.parent ⟨child, parent⟩) hkept rfl
        rw [← hrecords]
        exact hstored.2
  · intro hstay
    refine ⟨?_, ?_, ?_, ?_⟩
    · intro key hkey
      obtain ⟨child, parent, rfl, hparent, _, hchild⟩ := (mem_clearedKeys_iff hprevious).mp hkey
      have hchildStored : document.containsRecord child = true := (hrecords child).trans hchild
      refine ⟨fun id hid => ?_, (previousStored_parent_iff hkeyed hchildStored).mpr ?_⟩
      · rw [keyRecords, mem_singleton] at hid
        exact hid ▸ hchildStored
      · intro other hother
        rw [hrelations] at hother
        rw [hrecords]
        exact hstay child other hother hchild
    · intro item hmem
      obtain ⟨⟨⟨child, parent⟩, rfl⟩, hholds, _⟩ := (mem_setParents_iff hprevious).mp hmem
      have hchild : target.containsRecord child = true := (htarget.joined _ hholds).2.1
      intro replaced hreplaced hkey
      obtain ⟨other, rfl⟩ := CanvasRecordRelation.key_eq_parent_iff.mp hkey
      have hold := ((holds_dropAll_iff hkeyed _ _).mp hreplaced).1
      rw [hrelations] at hold
      have hparent := hstay child other ((parentOf_eq_some_iff hprevious).mpr hold) hchild
      exact ⟨(hrecords child).trans hchild, (hrecords other).trans hparent⟩
    · intro key hkey
      obtain ⟨group, rfl, _, _, hends⟩ := (mem_removedKeys_iff htargetKeyed).mp hkey
      exact hgroup _ group hends
    · intro item hmem
      obtain ⟨⟨group, rfl⟩, hholds, _⟩ := (mem_addedGroups_iff hprevious).mp hmem
      exact (hgroup _ group (htarget.joined _ hholds).2).2

end OnRecordsOfTarget

/-- The document after the commands for records. -/
def withRecords (previous target : CanvasDocument) : CanvasDocument :=
  { withNodes previous target with
    edges := (withoutGone previous target).edges.insertAll
      (previous.edges.changes target.edges).entries
    shapes := (withoutGone previous target).shapes.insertAll
      (previous.shapes.changes target.shapes).entries }

theorem carried_eq_withRecords (htarget : target.WellKeyed) : carried previous target =
      { withRecords previous target with relations := carriedRelations previous target } :=
  carried_eq htarget

theorem containsRecord_withRecords (hprevious : previous.Valid) (htarget : target.Valid)
    (id : CanvasRecordId) :
    (withRecords previous target).containsRecord id = target.containsRecord id := by
  rw [← containsRecord_carried hprevious htarget, carried_eq_withRecords htarget.wellKeyed]
  cases id <;> rfl

theorem effects_shapeCommands (htarget : target.WellKeyed) (document : CanvasDocument) :
    document.effects (shapeCommands previous target) = { document with
      shapes := document.shapes.insertAll (previous.shapes.changes target.shapes).entries } :=
  effects_shapes htarget.shapes

theorem effects_recordPhases (htarget : target.WellKeyed) :
    previous.effects (removalCommands previous target ++ nodeCommands previous target ++
      shapeCommands previous target ++ edgeCommands previous target) =
        withRecords previous target := by
  rw [effects_append, effects_append, effects_append, effects_removalCommands, effects_nodeCommands
    htarget, effects_shapeCommands htarget, edgeCommands, effects_edges htarget.edges]
  rfl

variable (hprevious : previous.Valid)

include hprevious

/-- An edge that stays outlives the removals if the edge commands apply. -/
theorem get_withoutGone_edges_of_applies (htarget : target.Valid)
    {document : CanvasDocument} (h : document.Applies (edgeCommands previous target))
    (hdocument : document.edges = (withoutGone previous target).edges) {id : EdgeId} {edge :
    CanvasEdge}
    (hold : previous.edges.get id = some edge) (hstored : target.edges.containsKey id = true) :
    (withoutGone previous target).edges.get id = some edge := by
  obtain ⟨next, hnext⟩ := containsKey_iff.mp hstored
  by_cases heq : (edge == next) = true
  · obtain ⟨hsource, htargetEnd⟩ := CanvasEdge.ends_of_beq heq
    rw [get_withoutGone_edges_eq_some_iff hprevious, hsource, htargetEnd]
    exact ⟨hold, hstored, htarget.ends_stored hnext⟩
  · have hchange : (previous.edges.changes target.edges).get id = some next := by
      refine get_changes_eq_some_iff.mpr ⟨hnext, fun old hget => ?_⟩
      rw [hold, Option.some.injEq] at hget
      exact hget ▸ Bool.eq_false_iff.mpr heq
    have hkept := ((applies_edgeCommands_iff htarget.wellKeyed document).mp h id next hchange).1
    rw [hdocument, containsKey_iff.mpr ⟨edge, hold⟩, containsKey_iff] at hkept
    obtain ⟨other, hother⟩ := hkept
    have hsame := ((get_withoutGone_edges_eq_some_iff hprevious).mp hother).1
    rw [hold] at hsame
    exact hsame ▸ hother

/-- The commands between two valid documents apply exactly when the edges that stay
fit the nodes of the target and a node update loses no relation. -/
theorem applies_transactionBetween_iff (htarget : target.Valid) :
    previous.Applies (transactionBetween previous target).commands ↔
      KeptEdgesFit previous target ∧ (UpdatesNode previous target →
        ∀ relation, previous.relations.Holds relation → target.StoresEnds relation) := by
  have hkeyed := htarget.wellKeyed
  have hshapes : (withNodes previous target).Applies (shapeCommands previous target) :=
    applies_shapeCommands hkeyed rfl
  have hrelations : (withRecords previous target).Applies (relationCommands previous target) :=
    applies_relationCommands hprevious.isDraft.keyed htarget
      (containsRecord_withRecords hprevious htarget)
  rw [transactionBetween_commands, applies_append_iff, applies_append_iff, applies_append_iff,
    applies_append_iff, effects_recordPhases hkeyed, effects_append, effects_append, effects_append,
    effects_removalCommands, effects_nodeCommands hkeyed, and_iff_left hrelations, and_iff_left
    hshapes, and_iff_right (applies_removalCommands previous target), effects_shapeCommands hkeyed]
  constructor
  · rintro ⟨hnodes, hedges⟩
    refine ⟨?_, storesEnds_of_updatesNode hprevious hkeyed hnodes⟩
    intro id edge hold hstored
    have hkept := get_withoutGone_edges_of_applies hprevious htarget hedges rfl hold hstored
    have hdraft : (withNodes previous target).IsDraft := by
      have happly : previous.Applies (removalCommands previous target ++
          nodeCommands previous target) := by
        rw [applies_append_iff, effects_removalCommands]
        exact ⟨applies_removalCommands previous target, hnodes⟩
      have hafter := applyAll_isDraft hprevious.isDraft happly.applyAll
      rw [effects_append, effects_removalCommands, effects_nodeCommands hkeyed] at hafter
      exact hafter
    exact validateEdge_of_ports (hdraft.records.edges id edge hkept)
      (carried_portsWithin (get_withNodes_nodes previous target))
  · rintro ⟨hedges, hupdates⟩
    refine ⟨applies_nodeCommands hprevious htarget hedges hupdates, ?_⟩
    refine (applies_edgeCommands_iff hkeyed _).mpr fun id next hchange => ?_
    have hnext := (get_changes_eq_some_iff.mp hchange).1
    have hstored := containsKey_iff.mpr ⟨next, hnext⟩
    constructor
    · rw [Bool.eq_iff_iff, containsKey_iff, containsKey_iff]
      refine exists_congr fun edge => (get_withoutGone_edges_eq_some_iff hprevious).trans ?_
      refine and_iff_left_of_imp fun hold => ?_
      obtain ⟨hsource, htargetEnd⟩ := validateEdge_stored (hedges id edge hold hstored)
      exact ⟨hstored, containsKey_iff.mpr hsource, containsKey_iff.mpr htargetEnd⟩
    · exact validateEdge_of_ports (htarget.recordsValid.edges id next hnext)
        (portsWithin_carried (get_withNodes_nodes previous target))

/-- The commands are reversible one after another when no parent is lost. -/
theorem reversibleAlong_transactionBetween_iff (htarget : target.Valid)
    (happlies : previous.Applies (transactionBetween previous target).commands) :
    previous.ReversibleAlong (transactionBetween previous target).commands ↔
      ParentsStay previous target := by
  have hrecordCommands : ∀ command ∈ removalCommands previous target ++
      nodeCommands previous target ++ shapeCommands previous target ++
      edgeCommands previous target, IsRecordCommand command := by
    intro command hmem
    have hwrites : ∀ {ν : Type} [BEq ν] (insert update : ν → DocumentCommand)
        (old new : IndexMap String ν), (∀ record, IsRecordCommand (insert record)) →
        (∀ record, IsRecordCommand (update record)) →
        command ∈ recordCommands insert update old new → IsRecordCommand command := by
      intro ν _ insert update old new hinsert hupdate hcommand
      rw [recordCommands_eq, mem_map] at hcommand
      obtain ⟨entry, _, rfl⟩ := hcommand
      by_cases hstored : old.containsKey entry.1 = true
      · rw [if_pos hstored]
        exact hupdate entry.2
      · rw [if_neg hstored]
        exact hinsert entry.2
    simp only [removalCommands, mem_append, mem_map] at hmem
    rcases hmem with (((((⟨_, _, rfl⟩ | ⟨_, _, rfl⟩) | ⟨_, _, rfl⟩) | hnode) | hshape) | hedge)
    · trivial
    · trivial
    · trivial
    · exact hwrites .insertNode .updateNode _ _ (fun _ => trivial) (fun _ => trivial) hnode
    · exact hwrites .insertShape .updateShape _ _ (fun _ => trivial) (fun _ => trivial) hshape
    · exact hwrites .insertEdge .updateEdge _ _ (fun _ => trivial) (fun _ => trivial) hedge
  rw [transactionBetween_commands] at happlies ⊢
  have hfirst := (applies_append_iff.mp happlies).1
  have hkeyed := htarget.wellKeyed
  rw [hfirst.reversibleAlong_append_iff, effects_recordPhases hkeyed,
    and_iff_right (reversibleAlong_of_records hrecordCommands)]
  exact reversibleAlong_relationCommands_iff hprevious.isDraft.keyed htarget rfl
    (containsRecord_withRecords hprevious htarget)

end OpenGpui.Canvas.CanvasDocument
