/-
Inverses of commands.  The inverse of a command, applied to any document with the
records that the command left and some of its relations, leads back to the records
before it.  Only relations can stand in the way: a parent or a binding that is put
back needs both of its records at that moment.
-/
import OpenGpui.Canvas.CommandSpecs

namespace OpenGpui.Canvas.CanvasDocument

open Checked List

/-- The records of the other document and some of its relations. -/
structure Follows (document other : CanvasDocument) : Prop where
  records : document.SameRecords other
  keyed : document.relations.Keyed
  within : document.relations.Within other.relations

/-- The previous relation of the key has both of its records. -/
def PreviousStored (document : CanvasDocument) (key : CanvasRelationKey) : Prop :=
  ∀ previous, document.relations.Holds previous → previous.key = key → document.StoresEnds previous

/-- The records a key names. -/
@[grind =] def keyRecords : CanvasRelationKey → List CanvasRecordId
  | .parent child => [child]
  | .group group member => [group, member]
  | .binding _ => []

/-- A command whose inverse can be made from the document and replayed on the
records the document has: a record whose parent is set or cleared has no parent or
one that is stored, a binding that is set or removed had no predecessor or one
whose ends are stored, and a parent is cleared or a group left by stored records. -/
def Reversible (document : CanvasDocument) : DocumentCommand → Prop
  | .setRecordParent child _ =>
    ∀ parent, document.relations.parentOf child = some parent →
      document.containsRecord parent = true
  | .clearRecordParent child =>
    document.containsRecord child = true ∧
      ∀ parent, document.relations.parentOf child = some parent →
        document.containsRecord parent = true
  | .removeRecordFromGroup group member =>
    document.containsRecord group = true ∧ document.containsRecord member = true
  | .setRecordBinding binding =>
    ∀ previous, document.relations.binding binding.id = some previous →
      document.containsRecord previous.source = true ∧
        document.containsRecord previous.target = true
  | .removeRecordBinding id =>
    ∀ previous, document.relations.binding id = some previous →
      document.containsRecord previous.source = true ∧
        document.containsRecord previous.target = true
  | _ => True

/-- Every command is reversible in the draft it is applied to. -/
def ReversibleAlong (document : CanvasDocument) : List DocumentCommand → Prop
  | [] => True
  | command :: rest =>
    document.Reversible command ∧
      ∀ draft, document.apply command = .ok draft → ReversibleAlong draft rest

section Reversible

variable {document after : CanvasDocument} {relation : CanvasRecordRelation}
  {segment : List DocumentCommand}

open CanvasRecordRelation CanvasRecordRelations

variable {child : CanvasRecordId}

theorem previousStored_parent_iff (hkeyed : document.relations.Keyed)
    (hchild : document.containsRecord child = true) :
    document.PreviousStored (.parent child) ↔ ∀ parent,
      document.relations.parentOf child = some parent → document.containsRecord parent = true := by
  constructor
  · intro h parent hparent
    exact (h _ ((parentOf_eq_some_iff hkeyed).mp hparent) rfl).2
  · intro h previous hholds hkey
    obtain ⟨parent, rfl⟩ := key_eq_parent_iff.mp hkey
    exact ⟨hchild, h parent ((parentOf_eq_some_iff hkeyed).mpr hholds)⟩

variable {group member : CanvasRecordId}

theorem previousStored_group (hgroup : document.containsRecord group = true)
    (hmember : document.containsRecord member = true) :
    document.PreviousStored (.group group member) := by
  intro previous _ hkey
  rw [key_eq_group_iff.mp hkey]
  exact ⟨hgroup, hmember⟩

section

variable (hkeyed : document.relations.Keyed)

include hkeyed

theorem previousStored_binding_iff {id : BindingId} :
    document.PreviousStored (.binding id) ↔ ∀ previous,
      document.relations.binding id = some previous →
        document.containsRecord previous.source = true ∧
          document.containsRecord previous.target = true := by
  constructor
  · intro h previous hprevious
    obtain ⟨hholds, hid⟩ := (binding_eq_some_iff hkeyed).mp hprevious
    exact h (.binding previous) hholds (key_eq_binding_iff.mpr ⟨previous, rfl, hid⟩)
  · intro h previous hholds hkey
    obtain ⟨binding, rfl, hid⟩ := key_eq_binding_iff.mp hkey
    exact h binding ((binding_eq_some_iff hkeyed).mpr ⟨hholds, hid⟩)

theorem reversible_set_iff (hstored : document.StoresEnds relation) :
    document.Reversible (setCommand relation) ↔ document.PreviousStored relation.key := by
  cases relation with
  | parent relation => exact (previousStored_parent_iff hkeyed hstored.1).symm
  | group relation => exact iff_of_true trivial (previousStored_group hstored.1 hstored.2)
  | binding relation => exact (previousStored_binding_iff hkeyed).symm

theorem reversible_drop_iff (key : CanvasRelationKey) : document.Reversible (dropCommand key) ↔
      (∀ id ∈ keyRecords key, document.containsRecord id = true) ∧ document.PreviousStored key := by
  cases key with
  | parent child =>
    have hrecords : (∀ id ∈ keyRecords (.parent child), document.containsRecord id = true) ↔
        document.containsRecord child = true := by simp [keyRecords]
    rw [hrecords]
    constructor
    · rintro ⟨hchild, hparent⟩
      exact ⟨hchild, (previousStored_parent_iff hkeyed hchild).mpr hparent⟩
    · rintro ⟨hchild, hprevious⟩
      exact ⟨hchild, (previousStored_parent_iff hkeyed hchild).mp hprevious⟩
  | group group member =>
    constructor
    · rintro ⟨hgroup, hmember⟩
      exact ⟨by simp [keyRecords, hgroup, hmember], previousStored_group hgroup hmember⟩
    · rintro ⟨hrecords, _⟩
      exact ⟨hrecords group (by simp [keyRecords]), hrecords member (by simp [keyRecords])⟩
  | binding id =>
    have hrecords : ∀ id' ∈ keyRecords (.binding id), document.containsRecord id' = true := by
      simp [keyRecords]
    rw [and_iff_right hrecords]
    exact (previousStored_binding_iff hkeyed).symm

end

/-- The inverse of putting a relation: what was under the key before is put back,
or the key is dropped.  Nothing is put back when it is the relation itself. -/
def IsUndoOfSet (document : CanvasDocument) (relation : CanvasRecordRelation)
    (segment : List DocumentCommand) : Prop :=
  (∃ previous, document.relations.Holds previous ∧ previous.key = relation.key ∧
    (segment = [setCommand previous] ∨ previous = relation ∧ segment = [])) ∨
  (∀ previous, document.relations.Holds previous → previous.key ≠ relation.key) ∧
    segment = [dropCommand relation.key]

/-- The inverse of dropping a key puts back what was under it. -/
def IsUndoOfDrop (document : CanvasDocument) (key : CanvasRelationKey)
    (segment : List DocumentCommand) : Prop :=
  (∃ previous, document.relations.Holds previous ∧ previous.key = key ∧
    segment = [setCommand previous]) ∨
  (∀ previous, document.relations.Holds previous → previous.key ≠ key) ∧ segment = []

theorem not_holds_parent (hkeyed : document.relations.Keyed)
    (hnone : document.relations.parentOf child = none) (previous : CanvasRecordRelation)
    (hholds : document.relations.Holds previous) : previous.key ≠ .parent child := by
  intro hkey
  obtain ⟨parent, rfl⟩ := key_eq_parent_iff.mp hkey
  rw [(parentOf_eq_some_iff hkeyed).mpr hholds] at hnone
  exact absurd hnone (by simp)

theorem not_holds_group
    (hnot : group ∉ document.relations.groupsFor member) (previous : CanvasRecordRelation)
    (hholds : document.relations.Holds previous) : previous.key ≠ .group group member := by
  intro hkey
  rw [key_eq_group_iff.mp hkey] at hholds
  exact hnot (mem_groupsFor_iff.mpr hholds)

section

variable (hkeyed : document.relations.Keyed)

include hkeyed

theorem not_holds_binding {id : BindingId}
    (hnone : document.relations.binding id = none) (previous : CanvasRecordRelation)
    (hholds : document.relations.Holds previous) : previous.key ≠ .binding id := by
  intro hkey
  obtain ⟨binding, rfl, hid⟩ := key_eq_binding_iff.mp hkey
  rw [(binding_eq_some_iff hkeyed).mpr ⟨hholds, hid⟩] at hnone
  exact absurd hnone (by simp)

/-- The inverse of a command that puts a relation exists when the command applies. -/
theorem inverseFor_set_of_apply
    (hends : relation.ends.1 ≠ relation.ends.2) (hstored : document.StoresEnds relation) :
    ∃ segment, document.inverseFor (setCommand relation) = .ok segment ∧
      document.IsUndoOfSet relation segment := by
  obtain ⟨hfirst, hsecond⟩ := hstored
  rw [← validateRecordId_ok_iff] at hfirst hsecond
  cases relation with
  | parent relation =>
    have hne : relation.child ≠ relation.parent := hends
    cases hparent : document.relations.parentOf relation.child with
    | some previous =>
      refine ⟨[.setRecordParent relation.child previous], ?_, .inl ?_⟩
      · simp only [setCommand, relationChangeToCommand, inverseFor, if_neg hne]
        rw [check_bind_eq_ok, check_bind_eq_ok, hparent]
        exact ⟨hfirst, hsecond, rfl⟩
      · exact ⟨.parent ⟨relation.child, previous⟩, (parentOf_eq_some_iff hkeyed).mp hparent,
          rfl, .inl rfl⟩
    | none =>
      refine ⟨[.clearRecordParent relation.child], ?_, .inr ⟨?_, rfl⟩⟩
      · simp only [setCommand, relationChangeToCommand, inverseFor, if_neg hne]
        rw [check_bind_eq_ok, check_bind_eq_ok, hparent]
        exact ⟨hfirst, hsecond, rfl⟩
      · exact not_holds_parent hkeyed hparent
  | group relation =>
    have hne : relation.group ≠ relation.member := hends
    by_cases hmem : relation.group ∈ document.relations.groupsFor relation.member
    · refine ⟨[], ?_, .inl ⟨.group relation, mem_groupsFor_iff.mp hmem, rfl, .inr ⟨rfl, rfl⟩⟩⟩
      simp only [setCommand, relationChangeToCommand, inverseFor, if_neg hne, if_pos hmem]
      rw [check_bind_eq_ok, check_bind_eq_ok]
      exact ⟨hfirst, hsecond, rfl⟩
    · refine ⟨[.removeRecordFromGroup relation.group relation.member], ?_,
        .inr ⟨not_holds_group hmem, rfl⟩⟩
      simp only [setCommand, relationChangeToCommand, inverseFor, if_neg hne, if_neg hmem]
      rw [check_bind_eq_ok, check_bind_eq_ok]
      exact ⟨hfirst, hsecond, rfl⟩
  | binding relation =>
    have hne : relation.source ≠ relation.target := hends
    cases hbinding : document.relations.binding relation.id with
    | some previous =>
      obtain ⟨hholds, hid⟩ := (binding_eq_some_iff hkeyed).mp hbinding
      refine ⟨[.setRecordBinding previous], ?_, .inl ⟨.binding previous, hholds, ?_, .inl rfl⟩⟩
      · simp only [setCommand, relationChangeToCommand, inverseFor, if_neg hne]
        rw [check_bind_eq_ok, check_bind_eq_ok, hbinding]
        exact ⟨hfirst, hsecond, rfl⟩
      · exact key_eq_binding_iff.mpr ⟨previous, rfl, hid⟩
    | none =>
      refine ⟨[.removeRecordBinding relation.id], ?_, .inr ⟨?_, rfl⟩⟩
      · simp only [setCommand, relationChangeToCommand, inverseFor, if_neg hne]
        rw [check_bind_eq_ok, check_bind_eq_ok, hbinding]
        exact ⟨hfirst, hsecond, rfl⟩
      · exact not_holds_binding hkeyed hbinding

/-- An inverse of dropping a key puts back what was under it, and the records the key
names are stored. -/
theorem inverseFor_drop_ok {key : CanvasRelationKey}
    (hinverse : document.inverseFor (dropCommand key) = .ok segment) :
    document.IsUndoOfDrop key segment ∧
      ∀ id ∈ keyRecords key, document.containsRecord id = true := by
  cases key with
  | parent child =>
    rw [dropCommand, inverseFor, check_bind_eq_ok, validateRecordId_ok_iff] at hinverse
    obtain ⟨hchild, hinverse⟩ := hinverse
    refine ⟨?_, by simpa [keyRecords] using hchild⟩
    cases hparent : document.relations.parentOf child with
    | some previous =>
      rw [hparent, pure_eq_ok] at hinverse
      exact .inl ⟨.parent ⟨child, previous⟩, (parentOf_eq_some_iff hkeyed).mp hparent,
        rfl, hinverse.symm⟩
    | none =>
      rw [hparent, pure_eq_ok] at hinverse
      exact .inr ⟨not_holds_parent hkeyed hparent, hinverse.symm⟩
  | group group member =>
    rw [dropCommand, inverseFor, check_bind_eq_ok, check_bind_eq_ok,
      validateRecordId_ok_iff, validateRecordId_ok_iff] at hinverse
    obtain ⟨hgroup, hmember, hinverse⟩ := hinverse
    refine ⟨?_, by simp [keyRecords, hgroup, hmember]⟩
    by_cases hmem : group ∈ document.relations.groupsFor member
    · rw [if_pos hmem, pure_eq_ok] at hinverse
      exact .inl ⟨.group ⟨group, member⟩, mem_groupsFor_iff.mp hmem, rfl, hinverse.symm⟩
    · rw [if_neg hmem, pure_eq_ok] at hinverse
      exact .inr ⟨not_holds_group hmem, hinverse.symm⟩
  | binding id =>
    refine ⟨?_, by simp [keyRecords]⟩
    cases hbinding : document.relations.binding id with
    | some previous =>
      rw [dropCommand, inverseFor, hbinding] at hinverse
      cases hinverse
      obtain ⟨hholds, hid⟩ := (binding_eq_some_iff hkeyed).mp hbinding
      exact .inl ⟨.binding previous, hholds, key_eq_binding_iff.mpr ⟨previous, rfl, hid⟩, rfl⟩
    | none =>
      rw [dropCommand, inverseFor, hbinding] at hinverse
      cases hinverse
      exact .inr ⟨not_holds_binding hkeyed hbinding, rfl⟩

end

theorem inverseFor_drop_of_stored {key : CanvasRelationKey}
    (hstored : ∀ id ∈ keyRecords key, document.containsRecord id = true) :
    ∃ segment, document.inverseFor (dropCommand key) = .ok segment := by
  cases key with
  | parent child =>
    have hchild := (validateRecordId_ok_iff document child).mpr
      (hstored child (by simp [keyRecords]))
    cases hparent : document.relations.parentOf child with
    | some previous =>
      refine ⟨[.setRecordParent child previous], ?_⟩
      rw [dropCommand, inverseFor, check_bind_eq_ok, hparent]
      exact ⟨hchild, rfl⟩
    | none =>
      refine ⟨[], ?_⟩
      rw [dropCommand, inverseFor, check_bind_eq_ok, hparent]
      exact ⟨hchild, rfl⟩
  | group group member =>
    have hgroup := (validateRecordId_ok_iff document group).mpr
      (hstored group (by simp [keyRecords]))
    have hmember := (validateRecordId_ok_iff document member).mpr
      (hstored member (by simp [keyRecords]))
    by_cases hmem : group ∈ document.relations.groupsFor member
    · refine ⟨[.addRecordToGroup group member], ?_⟩
      rw [dropCommand, inverseFor, check_bind_eq_ok, check_bind_eq_ok, if_pos hmem]
      exact ⟨hgroup, hmember, rfl⟩
    · refine ⟨[], ?_⟩
      rw [dropCommand, inverseFor, check_bind_eq_ok, check_bind_eq_ok, if_neg hmem]
      exact ⟨hgroup, hmember, rfl⟩
  | binding id =>
    cases hbinding : document.relations.binding id with
    | some previous =>
      exact ⟨[.setRecordBinding previous], by rw [dropCommand, inverseFor, hbinding]⟩
    | none => exact ⟨[], by rw [dropCommand, inverseFor, hbinding]⟩

end Reversible

/-- Replaying a segment on a document that follows the draft after the command leads
back to the draft before it exactly when the command is reversible there. -/
structure Undoes (document follower : CanvasDocument) (command : DocumentCommand)
    (segment : List DocumentCommand) : Prop where
  restores : document.Reversible command →
    ∃ restored, follower.applyAll segment = .ok restored ∧ restored.Follows document ∧
      follower.ReversibleAlong segment
  needed : ∀ restored, follower.applyAll segment = .ok restored → document.Reversible command

theorem reversibleAlong_singleton {document : CanvasDocument} {command : DocumentCommand}
    (h : document.Reversible command) : document.ReversibleAlong [command] :=
  ⟨h, fun _ _ => trivial⟩

theorem reversibleAlong_append_iff {document : CanvasDocument}
    {first second : List DocumentCommand} :
    document.ReversibleAlong (first ++ second) ↔ document.ReversibleAlong first ∧
      ∀ draft, document.applyAll first = .ok draft → draft.ReversibleAlong second := by
  induction first generalizing document with
  | nil =>
    constructor
    · intro h
      refine ⟨trivial, ?_⟩
      intro draft hdraft
      cases hdraft
      exact h
    · rintro ⟨_, h⟩
      exact h document rfl
  | cons command rest ih =>
    constructor
    · rintro ⟨hcommand, hrest⟩
      refine ⟨⟨hcommand, fun draft happly => (ih.mp (hrest draft happly)).1⟩, ?_⟩
      intro draft hdraft
      obtain ⟨middle, happly, hlater⟩ := applyAll_cons_ok_iff.mp hdraft
      exact (ih.mp (hrest middle happly)).2 draft hlater
    · rintro ⟨⟨hcommand, hrest⟩, hsecond⟩
      refine ⟨hcommand, fun draft happly => ih.mpr ⟨hrest draft happly, ?_⟩⟩
      intro last hlast
      exact hsecond last (applyAll_cons_ok_iff.mpr ⟨draft, happly, hlast⟩)

variable {document follower : CanvasDocument} {relation : CanvasRecordRelation}
  {segment : List DocumentCommand}

open CanvasRecordRelations

theorem StoresEnds.congr {other : CanvasDocument} (hsame : document.SameRecords other)
    (h : other.StoresEnds relation) : document.StoresEnds relation := by
  rw [StoresEnds, hsame.containsRecord, hsame.containsRecord]
  exact h

theorem keyRecords_stored (hstored : document.StoresEnds relation) :
    ∀ id ∈ keyRecords relation.key, document.containsRecord id = true := by
  intro id hmem
  cases relation with
  | parent relation =>
    rw [mem_singleton.mp hmem]
    exact hstored.1
  | group relation =>
    rcases mem_cons.mp hmem with rfl | hrest
    · exact hstored.1
    · rw [mem_singleton.mp hrest]
      exact hstored.2
  | binding relation => cases hmem

/-- A document that follows one that stores a relation under a key holds no other
relation under it. -/
theorem Follows.eq_of_upsert (hkeyed : document.relations.Keyed)
    (hfollows : follower.Follows { document with relations := document.relations.upsert relation })
    {other : CanvasRecordRelation} (hholds : follower.relations.Holds other)
    (hkey : other.key = relation.key) : other = relation := by
  rcases (holds_upsert_iff hkeyed _ _).mp (hfollows.within other hholds) with heq | ⟨_, hne⟩
  · exact heq
  · exact absurd hkey hne

variable {previous : CanvasRecordRelation}

/-- Putting back a relation of the document restores it from a follower whose
relations under other keys are the document's. -/
theorem undo_by_set (hjoined : Joined document.relations)
    (hrecords : follower.SameRecords document) (hkeyed : follower.relations.Keyed) (hprevious :
    document.relations.Holds previous)
    (hothers : ∀ other, follower.relations.Holds other → other.key ≠ previous.key →
      document.relations.Holds other) (hstored : document.StoresEnds previous) :
    ∃ restored, follower.applyAll [setCommand previous] = .ok restored ∧
      restored.Follows document := by
  refine ⟨{ follower with relations := follower.relations.upsert previous }, ?_,
    (relations_only _).trans hrecords, hkeyed.upsert previous, ?_⟩
  · rw [applyAll_singleton_ok_iff, apply_set_ok_iff]
    exact ⟨hjoined previous hprevious, hstored.congr hrecords, rfl⟩
  · intro other hholds
    rcases (holds_upsert_iff hkeyed _ _).mp hholds with rfl | ⟨hheld, hne⟩
    · exact hprevious
    · exact hothers other hheld hne

theorem storesEnds_of_undo_by_set (hrecords : follower.SameRecords document) {restored :
    CanvasDocument} (h : follower.applyAll [setCommand previous] = .ok restored) :
    document.StoresEnds previous := by
  obtain ⟨_, hstored, _⟩ := apply_set_ok_iff.mp (applyAll_singleton_ok_iff.mp h)
  exact hstored.congr hrecords.symm

theorem previousStored_of_storesEnds (hkeyed : document.relations.Keyed) (hprevious :
    document.relations.Holds previous)
    (hstored : document.StoresEnds previous) : document.PreviousStored previous.key := by
  intro other hholds hkey
  rw [hkeyed.eq_of_key hholds hprevious hkey]
  exact hstored

theorem undoes_set (hdraft : document.IsDraft) (hstored : document.StoresEnds relation)
    (hfollows : follower.Follows { document with relations := document.relations.upsert relation })
    (hundo : document.IsUndoOfSet relation segment) :
    document.Undoes follower (setCommand relation) segment := by
  have hrecords : follower.SameRecords document := hfollows.records.trans (relations_only _)
  have hothers : ∀ other, follower.relations.Holds other → other.key ≠ relation.key →
      document.relations.Holds other := by
    intro other hholds hne
    rcases (holds_upsert_iff hdraft.keyed _ _).mp (hfollows.within other hholds) with rfl | hold
    · exact absurd rfl hne
    · exact hold.1
  have hprevious : follower.PreviousStored relation.key := by
    intro other hholds hkey
    rw [hfollows.eq_of_upsert hdraft.keyed hholds hkey]
    exact hstored.congr hrecords
  have hreversible := reversible_set_iff hdraft.keyed hstored
  rcases hundo with ⟨previous, hholds, hkey, rfl | ⟨rfl, rfl⟩⟩ | ⟨hnone, rfl⟩
  · constructor
    · intro h
      have hends : document.StoresEnds previous := hreversible.mp h previous hholds hkey
      obtain ⟨restored, happly, hrestored⟩ := undo_by_set hdraft.joined hrecords hfollows.keyed
        hholds (hkey ▸ hothers) hends
      refine ⟨restored, happly, hrestored, reversibleAlong_singleton ?_⟩
      exact (reversible_set_iff hfollows.keyed (hends.congr hrecords)).mpr (hkey ▸ hprevious)
    · intro restored happly
      rw [hreversible, ← hkey]
      exact previousStored_of_storesEnds hdraft.keyed hholds
        (storesEnds_of_undo_by_set hrecords happly)
  · constructor
    · intro _
      refine ⟨follower, rfl, ⟨hrecords, hfollows.keyed, ?_⟩, trivial⟩
      intro other hother
      by_cases hsame : other.key = previous.key
      · rw [hfollows.eq_of_upsert hdraft.keyed hother hsame]
        exact hholds
      · exact hothers other hother hsame
    · intro _ _
      rw [hreversible]
      exact previousStored_of_storesEnds hdraft.keyed hholds hstored
  · constructor
    · intro _
      refine ⟨{ follower with relations := follower.relations.drop relation.key }, ?_,
        ⟨(relations_only _).trans hrecords, hfollows.keyed.drop _, ?_⟩,
        reversibleAlong_singleton ?_⟩
      · rw [applyAll_singleton_ok_iff, apply_drop]
      · intro other hother
        obtain ⟨hheld, hne⟩ := (holds_drop_iff hfollows.keyed _ _).mp hother
        exact hothers other hheld hne
      · rw [reversible_drop_iff hfollows.keyed]
        exact ⟨keyRecords_stored (hstored.congr hrecords), hprevious⟩
    · intro _ _
      rw [hreversible]
      intro previous hholds hkey
      exact absurd hkey (hnone previous hholds)

theorem undoes_drop (hdraft : document.IsDraft) {key : CanvasRelationKey}
    (hstored : ∀ id ∈ keyRecords key, document.containsRecord id = true)
    (hfollows : follower.Follows { document with relations := document.relations.drop key })
    (hundo : document.IsUndoOfDrop key segment) :
    document.Undoes follower (dropCommand key) segment := by
  have hrecords : follower.SameRecords document := hfollows.records.trans (relations_only _)
  have hwithin : ∀ other, follower.relations.Holds other →
      document.relations.Holds other ∧ other.key ≠ key :=
    fun other hholds => (holds_drop_iff hdraft.keyed _ _).mp (hfollows.within other hholds)
  have hreversible := reversible_drop_iff hdraft.keyed key
  rcases hundo with ⟨previous, hholds, rfl, rfl⟩ | ⟨hnone, rfl⟩
  · constructor
    · intro h
      have hends : document.StoresEnds previous := (hreversible.mp h).2 previous hholds rfl
      obtain ⟨restored, happly, hrestored⟩ := undo_by_set hdraft.joined hrecords hfollows.keyed
        hholds (fun other hother _ => (hwithin other hother).1) hends
      refine ⟨restored, happly, hrestored, reversibleAlong_singleton ?_⟩
      rw [reversible_set_iff hfollows.keyed (hends.congr hrecords)]
      intro other hother hkey
      exact absurd hkey (hwithin other hother).2
    · intro restored happly
      exact hreversible.mpr ⟨hstored, previousStored_of_storesEnds hdraft.keyed hholds
        (storesEnds_of_undo_by_set hrecords happly)⟩
  · constructor
    · intro _
      exact ⟨follower, rfl,
        ⟨hrecords, hfollows.keyed, fun other hother => (hwithin other hother).1⟩,
        trivial⟩
    · intro _ _
      refine hreversible.mpr ⟨hstored, ?_⟩
      intro previous hholds hkey
      exact absurd hkey (hnone previous hholds)

end OpenGpui.Canvas.CanvasDocument
