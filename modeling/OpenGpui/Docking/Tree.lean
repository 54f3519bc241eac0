/-
The trees a dock graph stands for.  A tree carries the identifiers the arena gave to its
nodes; an arena stores it when it holds every node of it under its identifier, and the
descents of a graph compute what the tree says when their bound is its number of nodes.
-/
import OpenGpui.Docking.EdgeDock

namespace OpenGpui.Docking

open List Worklist.Reaches Option

inductive DockTree where
  | tabs (id : DockNodeId) (items : List DockItemId) (selected : Option DockItemId)
  | floating (id : DockNodeId) (child : DockTree)
  | split (id : DockNodeId) (axis : SplitAxis) (children : List DockTree)
      (fractions : List Scalar)

namespace DockTree

variable {motive : DockTree → Prop}

theorem induction (tabs : ∀ id items selected, motive (.tabs id items selected))
    (floating : ∀ id child, motive child → motive (.floating id child))
    (split : ∀ id axis children fractions, (∀ child ∈ children, motive child) →
      motive (.split id axis children fractions)) : ∀ tree, motive tree
  | .tabs id items selected => tabs id items selected
  | .floating id child => floating id child (induction tabs floating split child)
  | .split id axis children fractions =>
    split id axis children fractions fun child _ => induction tabs floating split child

def id : DockTree → DockNodeId
  | tabs id _ _ | floating id _ | split id _ _ _ => id

@[simp] theorem id_tabs (id : DockNodeId) (items : List DockItemId)
    (selected : Option DockItemId) : (tabs id items selected).id = id := rfl

@[simp] theorem id_floating (id : DockNodeId) (child : DockTree) :
    (floating id child).id = id := rfl

@[simp] theorem id_split (id : DockNodeId) (axis : SplitAxis) (children : List DockTree)
    (fractions : List Scalar) : (split id axis children fractions).id = id := rfl

def children : DockTree → List DockTree
  | tabs _ _ _ => []
  | floating _ child => [child]
  | split _ _ children _ => children

/-- Induction that treats all nodes alike: what passes from the children to the
parent holds of every tree. -/
theorem below_induction (step : ∀ tree, (∀ child ∈ tree.children, motive child) → motive tree) :
    ∀ tree, motive tree := by
  intro tree
  induction tree using induction with
  | tabs id items selected => exact step _ fun child hchild => nomatch hchild
  | floating id child ih =>
    apply step
    intro other hother
    obtain rfl := mem_singleton.mp hother
    exact ih
  | split id axis kids fractions ih => exact step _ ih

/-- The node the arena holds for the top of the tree. -/
def node : DockTree → DockNode
  | tabs _ items selected => .tabs items selected
  | floating _ child => .floating child.id
  | split _ axis children fractions => .split axis (children.map id) fractions

/-- The tree and all trees below it, parents first. -/
def subtrees : DockTree → List DockTree
  | tabs id items selected => [tabs id items selected]
  | floating id child => floating id child :: child.subtrees
  | split id axis children fractions =>
    split id axis children fractions :: children.flatMap subtrees

def ids (tree : DockTree) : List DockNodeId := tree.subtrees.map id

/-- A tab stack with its items. -/
abbrev Leaf := DockNodeId × List DockItemId

def leaf : DockTree → Option Leaf
  | tabs id items _ => some (id, items)
  | _ => none

/-- The tab stacks of the tree in order. -/
def leaves (tree : DockTree) : List Leaf := tree.subtrees.filterMap leaf

def items (tree : DockTree) : List DockItemId := tree.leaves.flatMap Prod.snd

theorem node_children (tree : DockTree) : tree.node.children = tree.children.map id := by
  cases tree <;> rfl

theorem subtrees_eq (tree : DockTree) : tree.subtrees = tree :: tree.children.flatMap subtrees := by
  cases tree <;> simp [subtrees, children]

theorem ids_eq (tree : DockTree) : tree.ids = tree.id :: tree.children.flatMap ids := by
  rw [ids, subtrees_eq, map_cons, map_flatMap]
  rfl

section Equations

variable (id : DockNodeId)

@[simp] theorem ids_tabs (items : List DockItemId) (selected : Option DockItemId) :
    (tabs id items selected).ids = [id] := by
  simp [ids, subtrees]

variable (child : DockTree)

@[simp] theorem ids_floating : (floating id child).ids = id :: child.ids := by
  simp [ids, subtrees]

variable (axis : SplitAxis) (children : List DockTree) (fractions : List Scalar)

@[simp] theorem ids_split :
    (split id axis children fractions).ids = id :: children.flatMap ids := by
  rw [ids_eq]
  rfl

@[simp] theorem leaves_tabs (items : List DockItemId) (selected : Option DockItemId) :
    (tabs id items selected).leaves = [(id, items)] := by
  simp [leaves, subtrees, leaf]

@[simp] theorem leaves_floating : (floating id child).leaves = child.leaves := by
  rw [leaves, subtrees]
  rfl

@[simp] theorem leaves_split :
    (split id axis children fractions).leaves = children.flatMap leaves := by
  rw [leaves, subtrees, filterMap_cons]
  simp only [leaf, filterMap_flatMap]
  rfl

@[simp] theorem items_tabs (items : List DockItemId) (selected : Option DockItemId) :
    (tabs id items selected).items = items := by
  simp [DockTree.items]

@[simp] theorem items_floating : (floating id child).items = child.items := by
  simp [items]

@[simp] theorem items_split :
    (split id axis children fractions).items = children.flatMap items := by
  rw [items, leaves_split, flatMap_assoc]
  rfl

end Equations

theorem mem_subtrees_self (tree : DockTree) : tree ∈ tree.subtrees := by
  rw [subtrees_eq]
  exact mem_cons_self

theorem id_mem_ids (tree : DockTree) : tree.id ∈ tree.ids := mem_map_of_mem (mem_subtrees_self tree)

variable {tree : DockTree} {key : DockNodeId}

theorem mem_ids_iff : key ∈ tree.ids ↔ ∃ sub ∈ tree.subtrees, sub.id = key := mem_map

theorem mem_subtrees_of_child {child sub : DockTree} (hchild : child ∈ tree.children)
    (hsub : sub ∈ child.subtrees) : sub ∈ tree.subtrees := by
  rw [subtrees_eq]
  exact mem_cons_of_mem _ (mem_flatMap.mpr ⟨child, hchild, hsub⟩)

theorem mem_subtrees_trans {sub low : DockTree} (hsub : sub ∈ tree.subtrees)
    (hlow : low ∈ sub.subtrees) : low ∈ tree.subtrees := by
  induction tree using below_induction with
  | step tree ih =>
    rw [subtrees_eq] at hsub
    rcases mem_cons.mp hsub with rfl | hbelow
    · exact hlow
    · obtain ⟨next, hnext, hmem⟩ := mem_flatMap.mp hbelow
      exact mem_subtrees_of_child hnext (ih next hnext hmem)

theorem child_mem_subtrees {child : DockTree} (hchild : child ∈ tree.children) :
    child ∈ tree.subtrees :=
  mem_subtrees_of_child hchild (mem_subtrees_self child)

theorem ids_subset_of_mem_subtrees {sub : DockTree} (hsub : sub ∈ tree.subtrees) :
    ∀ key ∈ sub.ids, key ∈ tree.ids := by
  intro key hkey
  obtain ⟨low, hlow, rfl⟩ := mem_ids_iff.mp hkey
  exact mem_ids_iff.mpr ⟨low, mem_subtrees_trans hsub hlow, rfl⟩

theorem nodup_of_mem_subtrees {sub : DockTree} (hnodup : tree.ids.Nodup)
    (hsub : sub ∈ tree.subtrees) : sub.ids.Nodup := by
  induction tree using below_induction with
  | step tree ih =>
    rw [subtrees_eq] at hsub
    rcases mem_cons.mp hsub with rfl | hbelow
    · exact hnodup
    · obtain ⟨child, hchild, hmem⟩ := mem_flatMap.mp hbelow
      rw [ids_eq, nodup_cons] at hnodup
      exact ih child hchild ((nodup_flatMap.mp hnodup.2).1 child hchild) hmem

/-- A child has fewer nodes than its parent. -/
theorem child_ids_length_lt {child : DockTree} (hchild : child ∈ tree.children) :
    child.ids.length < tree.ids.length := by
  have hle : child.ids.length ≤ (tree.children.flatMap ids).length := flatMap_length_le hchild
  rw [ids_eq tree, length_cons]
  omega

theorem mem_leaves_iff {entries : List DockItemId} :
    (key, entries) ∈ tree.leaves ↔ ∃ selected, tabs key entries selected ∈ tree.subtrees := by
  rw [leaves, mem_filterMap]
  constructor
  · rintro ⟨sub, hsub, hleaf⟩
    cases sub with
    | tabs id items selected =>
      cases hleaf
      exact ⟨selected, hsub⟩
    | floating id child | split id axis children fractions => cases hleaf
  · rintro ⟨selected, hsub⟩
    exact ⟨_, hsub, rfl⟩

theorem mem_items_iff {item : DockItemId} :
    item ∈ tree.items ↔ ∃ entry ∈ tree.leaves, item ∈ entry.2 :=
  mem_flatMap

theorem leaf_mem_ids {entry : Leaf} (h : entry ∈ tree.leaves) : entry.1 ∈ tree.ids := by
  obtain ⟨selected, hsub⟩ := mem_leaves_iff.mp h
  exact mem_ids_iff.mpr ⟨_, hsub, rfl⟩

/-- The arena holds every node of the tree. -/
def Stored (nodes : DockNodes) (tree : DockTree) : Prop :=
  ∀ sub ∈ tree.subtrees, nodes.get sub.id = some sub.node

namespace Stored

variable {nodes : DockNodes} {tree : DockTree}

theorem get (h : Stored nodes tree) : nodes.get tree.id = some tree.node :=
  h tree (mem_subtrees_self tree)

variable {low : DockTree}

theorem sub (h : Stored nodes tree) (hlow : low ∈ tree.subtrees) : Stored nodes low :=
  fun _ hmem => h _ (mem_subtrees_trans hlow hmem)

theorem child (h : Stored nodes tree) (hlow : low ∈ tree.children) : Stored nodes low :=
  h.sub (child_mem_subtrees hlow)

theorem of_children (hget : nodes.get tree.id = some tree.node)
    (hchildren : ∀ low ∈ tree.children, Stored nodes low) : Stored nodes tree := by
  intro low hlow
  rw [subtrees_eq] at hlow
  rcases mem_cons.mp hlow with rfl | hbelow
  · exact hget
  · obtain ⟨next, hnext, hmem⟩ := mem_flatMap.mp hbelow
    exact hchildren next hnext low hmem

variable (h : Stored nodes tree)

include h

/-- Only the nodes of the tree matter. -/
theorem congr {other : DockNodes}
    (hagree : ∀ key ∈ tree.ids, other.get key = nodes.get key) : Stored other tree := by
  intro low hlow
  rw [hagree low.id (mem_ids_iff.mpr ⟨low, hlow, rfl⟩)]
  exact h low hlow

theorem get_of_mem_ids {key : DockNodeId} (hkey : key ∈ tree.ids) :
    ∃ low ∈ tree.subtrees, low.id = key ∧ nodes.get key = some low.node := by
  obtain ⟨low, hlow, rfl⟩ := mem_ids_iff.mp hkey
  exact ⟨low, hlow, rfl, h low hlow⟩

/-- An arena stores at most one tree under a top node. -/
theorem unique {other : DockTree} (h' : Stored nodes other)
    (hid : tree.id = other.id) : tree = other := by
  induction tree using induction generalizing other with
  | tabs id items selected =>
    have hnode : (tabs id items selected).node = other.node := by
      have hget := h'.get
      rw [← hid, h.get] at hget
      exact some.inj hget
    cases other with
    | tabs otherId otherItems otherSelected =>
      cases hnode
      cases hid
      rfl
    | floating otherId otherChild | split otherId otherAxis otherChildren otherFractions =>
      cases hnode
  | floating id child ih =>
    have hnode : (floating id child).node = other.node := by
      have hget := h'.get
      rw [← hid, h.get] at hget
      exact some.inj hget
    cases other with
    | tabs otherId otherItems otherSelected
    | split otherId otherAxis otherChildren otherFractions => cases hnode
    | floating otherId otherChild =>
      have hchild := ih (h.child (by simp [children])) (h'.child (by simp [children]))
        (DockNode.floating.inj hnode)
      cases hid
      rw [hchild]
  | split id axis kids fractions ih =>
    have hnode : (split id axis kids fractions).node = other.node := by
      have hget := h'.get
      rw [← hid, h.get] at hget
      exact some.inj hget
    cases other with
    | tabs otherId otherItems otherSelected | floating otherId otherChild => cases hnode
    | split otherId otherAxis otherKids otherFractions =>
      obtain ⟨haxis, hids, hfractions⟩ := DockNode.split.inj hnode
      have hkids : kids = otherKids := by
        apply ext_getElem
        · simpa using congrArg List.length hids
        · intro index hlow hhigh
          apply ih _ (getElem_mem hlow) (h.child (getElem_mem hlow)) (h'.child (getElem_mem hhigh))
          simpa [hlow, hhigh] using congrArg (fun entries => entries[index]?) hids
      cases hid
      rw [haxis, hkids, hfractions]

/-- A tree with distinct nodes is no larger than its arena. -/
theorem ids_length_le (hnodup : tree.ids.Nodup) : tree.ids.length ≤ nodes.len := by
  apply nodes.length_le_len hnodup
  intro key hkey
  obtain ⟨low, _, _, hget⟩ := h.get_of_mem_ids hkey
  exact ⟨low.node, hget⟩

/-- Every node of a stored tree can be reached from its top. -/
theorem reaches {key : DockNodeId} (hkey : key ∈ tree.ids) :
    Worklist.Reaches nodes.childrenOf tree.id key := by
  induction tree using induction with
  | tabs id items selected =>
    obtain rfl : key = id := by simpa using hkey
    exact refl _
  | floating id child ih =>
    rw [ids_floating] at hkey
    rcases mem_cons.mp hkey with rfl | hbelow
    · exact refl _
    · have hstep : child.id ∈ nodes.childrenOf id := by
        have hget : nodes.get id = some (.floating child.id) := h.get
        simp [DockNodes.childrenOf, hget, DockNode.children]
      exact of_step hstep (ih (h.child (by simp [children])) hbelow)
  | split id axis kids fractions ih =>
    rw [ids_split] at hkey
    rcases mem_cons.mp hkey with rfl | hbelow
    · exact refl _
    · obtain ⟨kid, hkid, hmem⟩ := mem_flatMap.mp hbelow
      have hstep : kid.id ∈ nodes.childrenOf id := by
        have hget : nodes.get id = some (.split axis (kids.map DockTree.id) fractions) := h.get
        rw [DockNodes.childrenOf, hget]
        exact mem_map_of_mem hkid
      exact of_step hstep (ih kid hkid (h.child hkid) hmem)

end Stored

/-- The first stack that holds the item, with the position of the item in it. -/
def findItem (tree : DockTree) (item : DockItemId) : Option (DockNodeId × Nat) :=
  tree.leaves.findSome? fun entry =>
    (entry.2.findIdx? (· == item)).map fun index => (entry.1, index)

variable {item : DockItemId} {tree : DockTree}

/-- A found position holds the item, and no earlier one of that stack does. -/
theorem findItem_eq_some {tabs : DockNodeId}
    {index : Nat} (h : tree.findItem item = some (tabs, index)) :
    ∃ items, (tabs, items) ∈ tree.leaves ∧ items[index]? = some item ∧
      items.findIdx? (· == item) = some index := by
  obtain ⟨entry, hentry, hfound⟩ := exists_of_findSome?_eq_some h
  obtain ⟨position, hposition, hpair⟩ := Option.map_eq_some_iff.mp hfound
  cases hpair
  refine ⟨entry.2, hentry, ?_, hposition⟩
  obtain ⟨hlt, hitem, _⟩ := findIdx?_eq_some_iff_getElem.mp hposition
  rw [getElem?_eq_getElem hlt]
  exact congrArg some (by simpa using hitem)

theorem findItem_eq_none_iff : tree.findItem item = none ↔ item ∉ tree.items := by
  rw [findItem, findSome?_eq_none_iff, mem_items_iff]
  constructor
  · rintro h ⟨entry, hentry, hitem⟩
    have hnone := h entry hentry
    rw [Option.map_eq_none_iff, findIdx?_eq_none_iff] at hnone
    simpa using hnone item hitem
  · intro h entry hentry
    rw [Option.map_eq_none_iff, findIdx?_eq_none_iff]
    intro other hother
    by_contra hsame
    have heq : other = item := by simpa using hsame
    exact h ⟨entry, hentry, heq ▸ hother⟩

end DockTree

namespace DockGraph

open DockTree

variable (self : DockGraph) {tree : DockTree} {fuel : Nat}

/-- A positive bound, and the bound it leaves for every child. -/
theorem descend (hfuel : tree.ids.length ≤ fuel) :
    ∃ rest, fuel = rest + 1 ∧ ∀ child ∈ tree.children, child.ids.length ≤ rest := by
  cases fuel with
  | zero =>
    rw [ids_eq] at hfuel
    simp at hfuel
  | succ rest =>
    refine ⟨rest, rfl, ?_⟩
    intro child hchild
    have hlt := child_ids_length_lt hchild
    omega

/-- Induction over a stored tree, with the bound that a walk over its nodes descends by. -/
@[elab_as_elim]
theorem stored_induction {motive : Nat → DockTree → Prop}
    (tabs : ∀ fuel id items selected, self.nodes.get id = some (.tabs items selected) →
      motive (fuel + 1) (.tabs id items selected))
    (floating : ∀ fuel id child, self.nodes.get id = some (.floating child.id) →
      motive fuel child → motive (fuel + 1) (.floating id child))
    (split : ∀ fuel id axis kids fractions,
      self.nodes.get id = some (.split axis (kids.map DockTree.id) fractions) →
      (∀ kid ∈ kids, motive fuel kid) → motive (fuel + 1) (.split id axis kids fractions))
    (fuel : Nat) (tree : DockTree) (hstored : Stored self.nodes tree)
    (hfuel : tree.ids.length ≤ fuel) : motive fuel tree := by
  induction tree using DockTree.induction generalizing fuel with
  | tabs id items selected =>
    obtain ⟨rest, rfl, _⟩ := descend hfuel
    exact tabs rest id items selected hstored.get
  | floating id child ih =>
    obtain ⟨rest, rfl, hrest⟩ := descend hfuel
    have hchild : child ∈ (DockTree.floating id child).children := mem_singleton_self _
    exact floating rest id child hstored.get (ih rest (hstored.child hchild) (hrest child hchild))
  | split id axis kids fractions ih =>
    obtain ⟨rest, rfl, hrest⟩ := descend hfuel
    exact split rest id axis kids fractions hstored.get fun kid hkid =>
      ih kid hkid rest (hstored.child hkid) (hrest kid hkid)

theorem collectItemsInSubtreeInto_eq (hstored : Stored self.nodes tree) (hfuel :
    tree.ids.length ≤ fuel) :
    self.collectItemsInSubtreeInto fuel tree.id = tree.items := by
  refine stored_induction self ?_ ?_ ?_ fuel tree hstored hfuel
  · intro rest id items selected hget
    simp [collectItemsInSubtreeInto, id_tabs, hget]
  · intro rest id child hget ih
    simpa only [collectItemsInSubtreeInto, id_floating, hget, items_floating] using ih
  · intro rest id axis kids fractions hget ih
    simp only [collectItemsInSubtreeInto, id_split, hget, items_split]
    rw [flatMap_map]
    exact flatMap_congr ih

theorem collectTabsInSubtreeInto_eq (hstored : Stored self.nodes tree) (hfuel :
    tree.ids.length ≤ fuel) :
    self.collectTabsInSubtreeInto fuel tree.id = tree.leaves.map Prod.fst := by
  refine stored_induction self ?_ ?_ ?_ fuel tree hstored hfuel
  · intro rest id items selected hget
    simp [collectTabsInSubtreeInto, id_tabs, hget]
  · intro rest id child hget ih
    simpa only [collectTabsInSubtreeInto, id_floating, hget, leaves_floating] using ih
  · intro rest id axis kids fractions hget ih
    simp only [collectTabsInSubtreeInto, id_split, hget, leaves_split]
    rw [flatMap_map, map_flatMap]
    exact flatMap_congr ih

theorem findItemInSubtreeWithin_eq (item : DockItemId)
    (hstored : Stored self.nodes tree) (hfuel : tree.ids.length ≤ fuel) :
    self.findItemInSubtreeWithin item fuel tree.id = tree.findItem item := by
  refine stored_induction self ?_ ?_ ?_ fuel tree hstored hfuel
  · intro rest id items selected hget
    simp [findItemInSubtreeWithin, id_tabs, hget, findItem]
  · intro rest id child hget ih
    simpa only [findItemInSubtreeWithin, id_floating, hget, findItem, leaves_floating] using ih
  · intro rest id axis kids fractions hget hkids
    simp only [findItemInSubtreeWithin, id_split, hget, findItem, leaves_split]
    clear hget
    induction kids with
    | nil => rfl
    | cons kid rest ih =>
      rw [map_cons, findSome?_cons, flatMap_cons, findSome?_append,
        hkids kid mem_cons_self, ← ih fun other hother =>
          hkids other (mem_cons_of_mem _ hother), findItem]
      cases List.findSome? _ kid.leaves <;> rfl

theorem subtreeContainsWithin_iff (target : DockNodeId)
    (hstored : Stored self.nodes tree) (hfuel : tree.ids.length ≤ fuel) :
    self.subtreeContainsWithin target fuel tree.id = true ↔ target ∈ tree.ids := by
  refine stored_induction self ?_ ?_ ?_ fuel tree hstored hfuel
  · intro rest id items selected hget
    rw [subtreeContainsWithin, id_tabs, hget, ids_tabs, mem_singleton, Bool.or_false, beq_iff_eq]
    exact eq_comm
  · intro rest id child hget ih
    simp only [subtreeContainsWithin, id_floating, hget, ids_floating, mem_cons,
      Bool.or_eq_true, beq_iff_eq, ih]
    exact or_congr_left eq_comm
  · intro rest id axis kids fractions hget ih
    simp only [subtreeContainsWithin, id_split, hget, ids_split, mem_cons, Bool.or_eq_true,
      beq_iff_eq, List.any_map, List.any_eq_true, Function.comp_apply, mem_flatMap]
    apply or_congr eq_comm
    apply exists_congr
    intro kid
    exact and_congr_right (ih kid)

variable {tree : DockTree} (hstored : Stored self.nodes tree)

include hstored

variable (hnodup : tree.ids.Nodup)

include hnodup

/-- The bound a graph passes to its descents is large enough for its trees. -/
theorem ids_length_le_fuel : tree.ids.length ≤ self.fuel :=
  Nat.le_succ_of_le (hstored.ids_length_le hnodup)

theorem collectItemsInSubtree_eq : self.collectItemsInSubtree tree.id = tree.items :=
  self.collectItemsInSubtreeInto_eq hstored (self.ids_length_le_fuel hstored hnodup)

theorem findItemInSubtree_eq
    (item : DockItemId) : self.findItemInSubtree tree.id item = tree.findItem item :=
  self.findItemInSubtreeWithin_eq item hstored (self.ids_length_le_fuel hstored hnodup)

theorem subtreeContains_iff
    (target : DockNodeId) : self.subtreeContains tree.id target = true ↔ target ∈ tree.ids :=
  self.subtreeContainsWithin_iff target hstored (self.ids_length_le_fuel hstored hnodup)

end DockGraph

end OpenGpui.Docking
