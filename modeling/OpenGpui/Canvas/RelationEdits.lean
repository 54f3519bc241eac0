/-
Relations as a store with one relation for each key.  A parent relation is
identified by its child, a group relation by itself and a binding by its id; the
six edits of a document put a relation under its key or drop a key.
-/
import OpenGpui.Canvas.Integrity
import OpenGpui.Library.KeyedList

namespace OpenGpui.Canvas

open KeyedList List

/-- What identifies a relation among those of its kind. -/
inductive CanvasRelationKey where
  | parent (child : CanvasRecordId)
  | group (group member : CanvasRecordId)
  | binding (id : BindingId)
deriving DecidableEq

namespace CanvasRecordRelation

def key : CanvasRecordRelation → CanvasRelationKey
  | .parent relation => .parent relation.child
  | .group relation => .group relation.group relation.member
  | .binding relation => .binding relation.id

/-- The two records a relation joins. -/
def ends : CanvasRecordRelation → CanvasRecordId × CanvasRecordId
  | .parent relation => (relation.child, relation.parent)
  | .group relation => (relation.group, relation.member)
  | .binding relation => (relation.source, relation.target)

variable {relation : CanvasRecordRelation}

theorem key_eq_parent_iff {child : CanvasRecordId} :
    relation.key = .parent child ↔ ∃ parent, relation = .parent ⟨child, parent⟩ := by
  cases relation with
  | parent relation =>
    obtain ⟨other, parent⟩ := relation
    simp [key]
  | group relation | binding relation => simp [key]

theorem key_eq_group_iff {group member : CanvasRecordId} :
    relation.key = .group group member ↔ relation = .group ⟨group, member⟩ := by
  cases relation with
  | group relation =>
    obtain ⟨otherGroup, otherMember⟩ := relation
    simp [key]
  | parent relation | binding relation => simp [key]

theorem key_eq_binding_iff {id : BindingId} :
    relation.key = .binding id ↔ ∃ binding, relation = .binding binding ∧ binding.id = id := by
  cases relation with
  | binding relation | parent relation | group relation => simp [key]

end CanvasRecordRelation

namespace CanvasRecordRelations

/-- The relation is one of the list of its kind. -/
def Holds (relations : CanvasRecordRelations) : CanvasRecordRelation → Prop
  | .parent relation => relation ∈ relations.parents
  | .group relation => relation ∈ relations.groups
  | .binding relation => relation ∈ relations.bindings

/-- No two relations of a kind have the same key. -/
structure Keyed (relations : CanvasRecordRelations) : Prop where
  parents : (relations.parents.map (·.child)).Nodup
  groups : relations.groups.Nodup
  bindings : (relations.bindings.map (·.id)).Nodup

variable {relations : CanvasRecordRelations}

theorem Keyed.eq_of_key (hkeyed : relations.Keyed)
    {first second : CanvasRecordRelation} (hfirst : relations.Holds first)
    (hsecond : relations.Holds second) (hkey : first.key = second.key) : first = second := by
  cases first <;> cases second <;>
    simp only [CanvasRecordRelation.key, reduceCtorEq, CanvasRelationKey.parent.injEq,
      CanvasRelationKey.group.injEq, CanvasRelationKey.binding.injEq] at hkey
  case parent.parent first second =>
      rw [KeyedList.eq_of_key hkeyed.parents hfirst hsecond hkey]
  case group.group first second =>
      cases first
      cases second
      obtain ⟨rfl, rfl⟩ := hkey
      rfl
  case binding.binding first second =>
      rw [KeyedList.eq_of_key hkeyed.bindings hfirst hsecond hkey]

/-- Puts a relation under its key. -/
def upsert (relations : CanvasRecordRelations) : CanvasRecordRelation → CanvasRecordRelations
  | .parent relation => relations.setParent relation.child relation.parent
  | .group relation => relations.addToGroup relation.group relation.member
  | .binding relation => relations.setBinding relation

/-- Drops the relation of a key. -/
def drop (relations : CanvasRecordRelations) : CanvasRelationKey → CanvasRecordRelations
  | .parent child => relations.clearParent child
  | .group group member => relations.removeFromGroup group member
  | .binding id => relations.removeBinding id

theorem selects_child (child : CanvasRecordId) :
    KeyedList.Selects CanvasRecordParentRelation.child (fun relation => relation.child == child)
      child :=
  fun relation => by simp

theorem selects_group (group member : CanvasRecordId) :
    KeyedList.Selects id (fun relation : CanvasRecordGroupRelation =>
        relation.group == group && relation.member == member) ⟨group, member⟩ := by
  intro relation
  cases relation
  simp

theorem selects_binding (id : BindingId) :
    KeyedList.Selects CanvasRecordBindingRelation.id (fun relation => relation.id == id) id :=
  fun relation => by simp

theorem setParent_eq (relations : CanvasRecordRelations) (child parent : CanvasRecordId) :
    relations.setParent child parent = { relations with
      parents := KeyedList.put (fun relation => relation.child == child) ⟨child, parent⟩
        relations.parents } := by
  have hreplace : (fun relation : CanvasRecordParentRelation =>
      if relation.child == child then some (⟨relation.child, parent⟩ : CanvasRecordParentRelation)
      else none) = fun relation => if relation.child == child then some ⟨child,
        parent⟩ else none := by
    funext relation
    by_cases heq : relation.child = child
    · simp [heq]
    · simp [heq]
  rw [setParent, KeyedList.put, KeyedList.replace, hreplace]
  by_cases hany : (relations.parents.any fun relation => relation.child == child) = true
  · rw [if_pos hany, if_pos hany]
  · rw [if_neg hany, if_neg hany]

theorem setBinding_eq (relations : CanvasRecordRelations) (binding : CanvasRecordBindingRelation) :
    relations.setBinding binding = { relations with
      bindings := KeyedList.put (fun relation => relation.id == binding.id) binding
        relations.bindings } := by
  rw [setBinding, KeyedList.put, KeyedList.replace]
  by_cases hany : (relations.bindings.any fun relation => relation.id == binding.id) = true
  · rw [if_pos hany, if_pos hany]
  · rw [if_neg hany, if_neg hany]

theorem mem_addToGroup_iff (relations : CanvasRecordRelations) (group member : CanvasRecordId)
    (relation : CanvasRecordGroupRelation) :
    relation ∈ (relations.addToGroup group member).groups ↔
      relation = ⟨group, member⟩ ∨ relation ∈ relations.groups := by
  rw [addToGroup]
  by_cases hany : (relations.groups.any fun relation =>
      relation.group == group && relation.member == member) = true
  · obtain ⟨stored, hmem, hkey⟩ := (any_iff (selects_group group member)).mp hany
    rw [if_pos hany]
    constructor
    · exact .inr
    · rintro (rfl | hstored)
      · exact hkey ▸ hmem
      · exact hstored
  · rw [if_neg hany, mem_append, mem_singleton, or_comm]

section

variable (hkeyed : relations.Keyed)

include hkeyed

theorem Keyed.upsert (relation : CanvasRecordRelation) : (relations.upsert relation).Keyed := by
  cases relation with
  | parent relation =>
    rw [CanvasRecordRelations.upsert, setParent_eq]
    exact ⟨nodup_put hkeyed.parents (selects_child _) rfl, hkeyed.groups, hkeyed.bindings⟩
  | binding relation =>
    rw [CanvasRecordRelations.upsert, setBinding_eq]
    exact ⟨hkeyed.parents, hkeyed.groups, nodup_put hkeyed.bindings (selects_binding _) rfl⟩
  | group relation =>
    rw [CanvasRecordRelations.upsert, addToGroup]
    by_cases hany : (relations.groups.any fun other =>
        other.group == relation.group && other.member == relation.member) = true
    · rw [if_pos hany]
      exact hkeyed
    · rw [if_neg hany]
      refine ⟨hkeyed.parents, ?_, hkeyed.bindings⟩
      rw [nodup_append]
      refine ⟨hkeyed.groups, nodup_singleton _, ?_⟩
      intro first hfirst second hsecond heq
      rw [mem_singleton.mp hsecond] at heq
      exact hany ((any_iff (selects_group _ _)).mpr ⟨first, hfirst, heq⟩)

theorem Keyed.drop (key : CanvasRelationKey) : (relations.drop key).Keyed := by
  cases key with
  | parent child => exact ⟨nodup_eraseP hkeyed.parents, hkeyed.groups, hkeyed.bindings⟩
  | group group member => exact ⟨hkeyed.parents, hkeyed.groups.eraseP _, hkeyed.bindings⟩
  | binding id => exact ⟨hkeyed.parents, hkeyed.groups, nodup_eraseP hkeyed.bindings⟩

theorem holds_upsert_iff (relation other : CanvasRecordRelation) :
    (relations.upsert relation).Holds other ↔
      other = relation ∨ relations.Holds other ∧ other.key ≠ relation.key := by
  cases relation with
  | parent relation =>
    rw [CanvasRecordRelations.upsert, setParent_eq]
    cases other with
    | parent other =>
      simpa [Holds, CanvasRecordRelation.key] using
        mem_put_iff hkeyed.parents (selects_child relation.child) relation other
    | group other | binding other => simp [Holds, CanvasRecordRelation.key]
  | binding relation =>
    rw [CanvasRecordRelations.upsert, setBinding_eq]
    cases other with
    | binding other =>
      simpa [Holds, CanvasRecordRelation.key] using
        mem_put_iff hkeyed.bindings (selects_binding relation.id) relation other
    | parent other | group other => simp [Holds, CanvasRecordRelation.key]
  | group relation =>
    rw [CanvasRecordRelations.upsert]
    have hkept : (relations.addToGroup relation.group relation.member).parents = relations.parents ∧
        (relations.addToGroup relation.group relation.member).bindings = relations.bindings := by
      rw [addToGroup]
      split <;> exact ⟨rfl, rfl⟩
    cases other with
    | group other =>
      rw [Holds, mem_addToGroup_iff, Holds]
      by_cases heq : other = relation
      · simp [heq]
      · have hkey : (CanvasRecordRelation.group other).key ≠
            (CanvasRecordRelation.group relation).key := by
          intro hkey
          cases other
          cases relation
          simp only [CanvasRecordRelation.key, CanvasRelationKey.group.injEq] at hkey
          exact heq (by rw [hkey.1, hkey.2])
        simp [heq, hkey]
    | parent other => simp [Holds, CanvasRecordRelation.key, hkept.1]
    | binding other => simp [Holds, CanvasRecordRelation.key, hkept.2]

theorem holds_drop_iff (key : CanvasRelationKey) (other : CanvasRecordRelation) :
    (relations.drop key).Holds other ↔ relations.Holds other ∧ other.key ≠ key := by
  cases key with
  | parent child =>
    cases other with
    | parent other =>
      simpa [Holds, CanvasRecordRelation.key, drop, clearParent] using
        mem_eraseP_iff hkeyed.parents (selects_child child) other
    | group other | binding other => simp [Holds, CanvasRecordRelation.key, drop, clearParent]
  | binding id =>
    cases other with
    | binding other =>
      simpa [Holds, CanvasRecordRelation.key, drop, removeBinding] using
        mem_eraseP_iff hkeyed.bindings (selects_binding id) other
    | group other | parent other => simp [Holds, CanvasRecordRelation.key, drop, removeBinding]
  | group group member =>
    cases other with
    | group other =>
      have hnodup : (relations.groups.map id).Nodup := by
        rw [map_id]
        exact hkeyed.groups
      have hmem := mem_eraseP_iff hnodup (selects_group group member) other
      obtain ⟨otherGroup, otherMember⟩ := other
      simpa [Holds, CanvasRecordRelation.key, drop, removeFromGroup] using hmem
    | parent other | binding other => simp [Holds, CanvasRecordRelation.key, drop, removeFromGroup]

end

variable {relation : CanvasRecordRelation}

theorem holds_prune_iff {existing : List CanvasRecordId} :
    (relations.pruneMissingRecords existing).Holds relation ↔
      relations.Holds relation ∧ relation.ends.1 ∈ existing ∧ relation.ends.2 ∈ existing := by
  cases relation <;> simp [Holds, pruneMissingRecords, CanvasRecordRelation.ends]

theorem Keyed.prune (hkeyed : relations.Keyed)
    (existing : List CanvasRecordId) : (relations.pruneMissingRecords existing).Keyed :=
  ⟨(filter_sublist.map _).nodup hkeyed.parents, hkeyed.groups.filter _,
    (filter_sublist.map _).nodup hkeyed.bindings⟩

/-- Every relation of the first is one of the second. -/
def Within (relations other : CanvasRecordRelations) : Prop :=
  ∀ relation, relations.Holds relation → other.Holds relation

theorem parentOf_eq_some_iff (hkeyed : relations.Keyed) {child parent : CanvasRecordId} :
    relations.parentOf child = some parent ↔ relations.Holds (.parent ⟨child, parent⟩) := by
  rw [parentOf, Option.map_eq_some_iff]
  constructor
  · rintro ⟨relation, hfind, rfl⟩
    obtain ⟨hmem, rfl⟩ := (find?_eq_some_iff hkeyed.parents (selects_child child)).mp hfind
    exact hmem
  · intro hmem
    exact ⟨_, (find?_eq_some_iff hkeyed.parents (selects_child child)).mpr ⟨hmem, rfl⟩, rfl⟩

theorem binding_eq_some_iff (hkeyed : relations.Keyed)
    {id : BindingId} {binding : CanvasRecordBindingRelation} :
    relations.binding id = some binding ↔ relations.Holds (.binding binding) ∧ binding.id = id :=
  find?_eq_some_iff hkeyed.bindings (selects_binding id)

theorem containsGroupRelation_iff {relation : CanvasRecordGroupRelation} :
    relations.containsGroupRelation relation = true ↔ relations.Holds (.group relation) := by
  rw [containsGroupRelation, any_iff (selects_group relation.group relation.member)]
  simp [Holds]

theorem mem_groupsFor_iff {group member : CanvasRecordId} :
    group ∈ relations.groupsFor member ↔ relations.Holds (.group ⟨group, member⟩) := by
  rw [groupsFor, mem_map]
  constructor
  · rintro ⟨⟨first, second⟩, hmem, rfl⟩
    obtain ⟨hstored, heq⟩ := mem_filter.mp hmem
    rw [beq_iff_eq] at heq
    exact heq ▸ hstored
  · intro hmem
    exact ⟨_, mem_filter.mpr ⟨hmem, beq_self_eq_true _⟩, rfl⟩

theorem containsRelation_iff (hkeyed : relations.Keyed) :
    relations.containsRelation relation = true ↔ relations.Holds relation := by
  cases relation with
  | parent relation =>
    rw [containsRelation, beq_iff_eq, parentOf_eq_some_iff hkeyed]
  | group relation => rw [containsRelation, containsGroupRelation_iff]
  | binding relation =>
    rw [containsRelation, beq_iff_eq, binding_eq_some_iff hkeyed, and_iff_left rfl]

/-- The parts of one kind that are new, as relations. -/
theorem mem_map_filter_iff {other : CanvasRecordRelations} {relation : CanvasRecordRelation}
    {ρ : Type} {tag : ρ → CanvasRecordRelation} {parts : List ρ} {new : ρ → Bool}
    (hheld : ∀ part, part ∈ parts ↔ relations.Holds (tag part))
    (hnew : ∀ part, new part = true ↔ ¬ other.Holds (tag part)) :
    relation ∈ (parts.filter new).map tag ↔
      (∃ part, relation = tag part) ∧ relations.Holds relation ∧ ¬ other.Holds relation := by
  simp only [mem_map, mem_filter, hheld, hnew]
  constructor
  · rintro ⟨part, hmem, rfl⟩
    exact ⟨⟨part, rfl⟩, hmem⟩
  · rintro ⟨⟨part, rfl⟩, hmem⟩
    exact ⟨part, hmem, rfl⟩

theorem length_eq_of_mem_iff {α : Type} {items others : List α} (hitems : items.Nodup)
    (hothers : others.Nodup) (hmem : ∀ item, item ∈ items ↔ item ∈ others) :
    items.length = others.length :=
  ((perm_ext_iff_of_nodup hitems hothers).mpr hmem).length_eq

/-- Keyed relations are equal to those that hold the same. -/
theorem beq_of_holds_iff {other : CanvasRecordRelations} (hkeyed : relations.Keyed)
    (hother : other.Keyed) (hsame : ∀ relation, relations.Holds relation ↔ other.Holds relation) :
    (relations == other) = true := by
  have hparents := length_eq_of_mem_iff hkeyed.parents.of_map hother.parents.of_map
    fun relation => hsame (.parent relation)
  have hgroups := length_eq_of_mem_iff hkeyed.groups hother.groups
    fun relation => hsame (.group relation)
  have hbindings := length_eq_of_mem_iff hkeyed.bindings.of_map hother.bindings.of_map
    fun relation => hsame (.binding relation)
  change relations.matchesRelations other = true
  simp only [matchesRelations, Bool.and_eq_true, beq_iff_eq, all_eq_true,
    containsRelation_iff hother]
  exact ⟨⟨⟨⟨⟨hparents, hgroups⟩, hbindings⟩, fun relation => (hsame (.parent relation)).mp⟩,
    fun relation => (hsame (.group relation)).mp⟩, fun relation => (hsame (.binding relation)).mp⟩

end CanvasRecordRelations

end OpenGpui.Canvas
