/-
The trees of all spaces of a graph, with the central region of each space.  A graph
holds a forest when its roots and floating containers name the tops of the trees, its
arena stores all of them, and no node has two places.
-/
import OpenGpui.Docking.FloatingMutation
import OpenGpui.Docking.SimplifyRefines
import OpenGpui.Docking.TreeRewrite

namespace OpenGpui.Docking

open List Function DockTree

/-- The tree of a floating container. -/
structure FloatingTree where
  tree : DockTree
  bounds : Bounds

def FloatingTree.container (self : FloatingTree) : DockFloatingContainer :=
  ⟨self.tree.id, self.bounds⟩

/-- The trees of one space and its central region. -/
structure SpaceTrees where
  root : Option DockTree
  floatings : List FloatingTree
  central : Option DockCentralRegion

namespace SpaceTrees

variable (self : SpaceTrees)

def trees : List DockTree := self.root.toList ++ self.floatings.map FloatingTree.tree

def subtrees : List DockTree := self.trees.flatMap DockTree.subtrees

def ids : List DockNodeId := self.trees.flatMap DockTree.ids

def leaves : List DockTree.Leaf := self.trees.flatMap DockTree.leaves

def items : List DockItemId := self.trees.flatMap DockTree.items

/-- The first stack of the space that holds the item, with its position. -/
def findItem (item : DockItemId) : Option (DockNodeId × Nat) :=
  self.trees.findSome? fun tree => tree.findItem item

variable (f : DockTree → DockTree)

def mapTrees : SpaceTrees :=
  { self with
    root := self.root.map f
    floatings := self.floatings.map fun entry => { entry with tree := f entry.tree } }

/-- The space with `f` applied to the subtree at `key`. -/
def rewrite (key : DockNodeId) (f : DockTree → DockTree) : SpaceTrees :=
  self.mapTrees (DockTree.rewrite key f)

/-- The region after the root tree is simplified: it follows a root that is replaced
and is unbound when its node is no longer below the root. -/
def simplifyCentral (root : Option DockTree) (central : DockCentralRegion) : DockCentralRegion :=
  let simplified := root.bind DockTree.simplify
  let node := DockGraph.reboundCentralNode central.node (root.map DockTree.id)
    (simplified.map DockTree.id)
  { central with
    node := node.filter fun node => simplified.any fun tree => tree.ids.contains node }

/-- A kept-alive region without a node takes the root that arrives. -/
def occupyCentral (root : DockNodeId) (central : DockCentralRegion) : DockCentralRegion :=
  if central.keepAliveWhenEmpty && central.node.isNone then { central with node := some root }
  else central

/-- The space with a new root tree. -/
def placeRoot (tree : DockTree) : SpaceTrees :=
  { self with root := some tree, central := self.central.map (occupyCentral tree.id) }

/-- The space with every tree simplified; the trees that hold nothing are dropped. -/
def simplify : SpaceTrees where
  root := self.root.bind DockTree.simplify
  floatings := self.floatings.filterMap fun entry =>
    entry.tree.simplify.map fun tree => { entry with tree := tree }
  central := self.central.map (simplifyCentral self.root)

variable {key : DockNodeId}

theorem mem_ids_iff {self : SpaceTrees} : key ∈ self.ids ↔ ∃ sub ∈ self.subtrees, sub.id = key := by
  simp only [ids, subtrees, mem_flatMap, DockTree.mem_ids_iff]
  constructor
  · rintro ⟨tree, htree, sub, hsub, rfl⟩
    exact ⟨sub, ⟨tree, htree, hsub⟩, rfl⟩
  · rintro ⟨sub, ⟨tree, htree, hsub⟩, rfl⟩
    exact ⟨tree, htree, sub, hsub, rfl⟩

theorem mem_leaves_iff {self : SpaceTrees} {items : List DockItemId} :
    (key, items) ∈ self.leaves ↔ ∃ selected, .tabs key items selected ∈ self.subtrees := by
  simp only [leaves, subtrees, mem_flatMap, DockTree.mem_leaves_iff]
  constructor
  · rintro ⟨tree, htree, selected, hsub⟩
    exact ⟨selected, tree, htree, hsub⟩
  · rintro ⟨selected, tree, htree, hsub⟩
    exact ⟨tree, htree, selected, hsub⟩

theorem items_eq : self.items = self.leaves.flatMap Prod.snd := by
  rw [leaves, flatMap_assoc]
  rfl

theorem mem_items_iff {self : SpaceTrees} {item : DockItemId} :
    item ∈ self.items ↔ ∃ entry ∈ self.leaves, item ∈ entry.2 := by
  rw [items_eq, mem_flatMap]

theorem leaf_mem_ids {self : SpaceTrees} {entry : DockTree.Leaf} (h : entry ∈ self.leaves) :
    entry.1 ∈ self.ids := by
  obtain ⟨tree, htree, hentry⟩ := mem_flatMap.mp h
  exact mem_flatMap.mpr ⟨tree, htree, DockTree.leaf_mem_ids hentry⟩

@[simp] theorem mapTrees_trees : (self.mapTrees f).trees = self.trees.map f := by
  simp [mapTrees, trees, comp_def, Option.toList_map]

@[simp] theorem rewrite_trees (key : DockNodeId) (f : DockTree → DockTree) :
    (self.rewrite key f).trees = self.trees.map (DockTree.rewrite key f) :=
  mapTrees_trees _ _

theorem mapTrees_of_eq {f : DockTree → DockTree} (h : ∀ tree ∈ self.trees, f tree = tree) :
    self.mapTrees f = self := by
  obtain ⟨root, floatings, central⟩ := self
  have hroot : root.map f = root := by
    cases root with
    | none => rfl
    | some tree => exact congrArg some (h tree (by simp [trees]))
  have hfloatings : (floatings.map fun entry : FloatingTree =>
      ({ entry with tree := f entry.tree } : FloatingTree)) = floatings := by
    rw [map_congr_left, map_id']
    intro entry hentry
    have htree := h entry.tree (mem_append_right _ (mem_map_of_mem hentry))
    rw [htree]
  simp only [mapTrees, hroot, hfloatings]

theorem rewrite_of_not_mem (f : DockTree → DockTree) (h : key ∉ self.ids) :
    self.rewrite key f = self :=
  self.mapTrees_of_eq fun tree htree => DockTree.rewrite_of_not_mem fun hmem =>
    h (mem_flatMap.mpr ⟨tree, htree, hmem⟩)

@[simp] theorem simplify_trees : self.simplify.trees = self.trees.filterMap DockTree.simplify := by
  obtain ⟨root, floatings, central⟩ := self
  simp only [simplify, trees, filterMap_append, filterMap_map, map_filterMap]
  congr 1
  · cases root with
    | none => rfl
    | some tree => cases htree : tree.simplify <;> simp [htree]
  · apply filterMap_congr
    intro entry _
    simp [comp_def]

theorem flatMap_filterMap {α β γ : Type} (entries : List α) (f : α → Option β) (g : β → List γ) :
    (entries.filterMap f).flatMap g = entries.flatMap fun entry => (f entry).toList.flatMap g := by
  rw [filterMap_eq_flatMap_toList, flatMap_assoc]

/-- Simplification keeps every stack that holds an item, in order. -/
theorem simplify_leaves :
    self.simplify.leaves = self.leaves.filter fun entry => !entry.2.isEmpty := by
  rw [leaves, simplify_trees, flatMap_filterMap, leaves, filter_flatMap]
  exact flatMap_congr fun tree _ => tree.simplify_leaves

theorem simplify_items : self.simplify.items = self.items := by
  rw [items, simplify_trees, flatMap_filterMap]
  exact flatMap_congr fun tree _ => tree.simplify_items

theorem simplify_ids_sublist : self.simplify.ids.Sublist self.ids := by
  rw [ids, simplify_trees, flatMap_filterMap, ids]
  induction self.trees with
  | nil => simp
  | cons tree rest ih =>
    exact tree.simplify_ids_sublist.append ih

end SpaceTrees

/-- The trees of every space. -/
abbrev DockForest := DockSpaceId → SpaceTrees

namespace DockForest

variable (forest : DockForest)

/-- The forest with `f` applied to the subtree at `key`, in whatever space it is. -/
def rewrite (key : DockNodeId) (f : DockTree → DockTree) : DockForest :=
  fun space => (forest space).rewrite key f

variable (space : DockSpaceId)

/-- The forest with one space simplified. -/
def simplifySpace : DockForest := Function.update forest space (forest space).simplify

def removeRoot : DockForest := Function.update forest space { forest space with root := none }

def placeRoot (tree : DockTree) : DockForest :=
  Function.update forest space ((forest space).placeRoot tree)

def setFloatings (floatings : List FloatingTree) : DockForest :=
  Function.update forest space { forest space with floatings := floatings }

/-- Some space has this stack. -/
def HasLeaf (entry : DockTree.Leaf) : Prop := ∃ space, entry ∈ (forest space).leaves

/-- Some stack of some space holds the item. -/
def Placed (item : DockItemId) : Prop := ∃ entry, forest.HasLeaf entry ∧ item ∈ entry.2

/-- No node has two places. -/
structure Proper (forest : DockForest) : Prop where
  nodup : ∀ space, (forest space).ids.Nodup
  apart : ∀ {first second key}, key ∈ (forest first).ids → key ∈ (forest second).ids →
    first = second

/-- No item has two places. -/
structure ItemsDistinct (forest : DockForest) : Prop where
  nodup : ∀ space, (forest space).items.Nodup
  apart : ∀ {first second item}, item ∈ (forest first).items → item ∈ (forest second).items →
    first = second

theorem placed_iff {forest : DockForest} {item : DockItemId} :
    forest.Placed item ↔ ∃ space, item ∈ (forest space).items := by
  simp only [Placed, HasLeaf, SpaceTrees.mem_items_iff]
  constructor
  · rintro ⟨entry, ⟨space, hentry⟩, hitem⟩
    exact ⟨space, entry, hentry, hitem⟩
  · rintro ⟨space, entry, hentry, hitem⟩
    exact ⟨entry, ⟨space, hentry⟩, hitem⟩

end DockForest

namespace DockGraph

/-- The graph is what the forest looks like in an arena. -/
structure Holds (graph : DockGraph) (forest : DockForest) : Prop where
  root : ∀ space, graph.root space = (forest space).root.map DockTree.id
  floatings : ∀ space,
    graph.floatingContainers space = (forest space).floatings.map FloatingTree.container
  central : ∀ space, graph.centralRegion space = (forest space).central
  stored : ∀ space, ∀ tree ∈ (forest space).trees, tree.Stored graph.nodes
  nodup : ∀ space, (forest space).ids.Nodup
  apart : ∀ {first second key}, key ∈ (forest first).ids → key ∈ (forest second).ids →
    first = second

theorem Holds.proper {graph : DockGraph} {forest : DockForest} (h : graph.Holds forest) :
    forest.Proper :=
  ⟨h.nodup, h.apart⟩

theorem mem_spaces_iff {self : DockGraph} {space : DockSpaceId} : space ∈ self.spaces ↔
      space ∈ self.roots ∨ space ∈ self.floatings ∨ space ∈ self.centralRegions := by
  have hpairs : ∀ (known : List DockSpaceId) (m : KeyMap DockSpaceId Unit),
      space ∈ (known.map fun space => (space, ())).foldl (fun m pair => m.insert pair.1 pair.2) m ↔
        space ∈ known ∨ space ∈ m := by
    intro known
    induction known with
    | nil => simp
    | cons first rest ih =>
      intro m
      rw [map_cons, foldl_cons, ih, Std.ExtTreeMap.mem_insert,
        Std.LawfulEqCmp.compare_eq_iff_eq, mem_cons]
      tauto
  rw [spaces, Std.ExtTreeMap.mem_keys, KeyMap.ofPairs, hpairs]
  simp

theorem spaces_nodup (self : DockGraph) : self.spaces.Nodup := KeyMap.keys_nodup _

namespace Holds

variable {self : DockGraph} {forest : DockForest} {space other : DockSpaceId} {tree : DockTree}

theorem tree_nodup (h : self.Holds forest) (htree : tree ∈ (forest space).trees) : tree.ids.Nodup :=
  (nodup_flatMap.mp (h.nodup space)).1 tree htree

variable {sub : DockTree}

section

variable (h : self.Holds forest)

include h

theorem sub_stored (hsub : sub ∈ (forest space).subtrees) : sub.Stored self.nodes := by
  obtain ⟨tree, htree, hmem⟩ := mem_flatMap.mp hsub
  exact (h.stored space tree htree).sub hmem

theorem get (hsub : sub ∈ (forest space).subtrees) : self.nodes.get sub.id = some sub.node :=
  (h.sub_stored hsub).get

/-- A node of the forest is the top of one subtree in one space. -/
theorem sub_unique {first second : DockTree}
    (hfirst : first ∈ (forest space).subtrees) (hsecond : second ∈ (forest other).subtrees)
    (hid : first.id = second.id) : space = other ∧ first = second :=
  ⟨h.apart (SpaceTrees.mem_ids_iff.mpr ⟨first, hfirst, rfl⟩)
      (SpaceTrees.mem_ids_iff.mpr ⟨second, hsecond, hid.symm⟩),
    (h.sub_stored hfirst).unique (h.sub_stored hsecond) hid⟩

/-- A stored stack that has a place in the forest. -/
theorem tabs_mem {tabs : DockNodeId} {items : List DockItemId}
    {selected : Option DockItemId} (hmem : tabs ∈ (forest space).ids)
    (hget : self.nodes.get tabs = some (.tabs items selected)) :
    .tabs tabs items selected ∈ (forest space).subtrees := by
  obtain ⟨sub, hsub, rfl⟩ := SpaceTrees.mem_ids_iff.mp hmem
  rw [h.get hsub] at hget
  cases sub with
  | tabs id own ownSelected =>
    cases hget
    exact hsub
  | floating id child | split id axis kids fractions => cases hget

theorem spaceRoots_eq (space : DockSpaceId) :
    self.spaceRoots space = (forest space).trees.map DockTree.id := by
  rw [spaceRoots, h.root, h.floatings, SpaceTrees.trees, map_append, map_map,
    map_map, Option.toList_map]
  rfl

theorem collectItemsInSpace_eq (space : DockSpaceId) :
    self.collectItemsInSpace space = (forest space).items := by
  rw [collectItemsInSpace, h.spaceRoots_eq, flatMap_map]
  exact flatMap_congr fun tree htree =>
    self.collectItemsInSubtree_eq (h.stored space tree htree) (h.tree_nodup htree)

theorem findItemInSpace_eq (space : DockSpaceId) (item : DockItemId) :
    self.findItemInSpace space item = (forest space).findItem item := by
  rw [findItemInSpace, h.spaceRoots_eq, SpaceTrees.findItem]
  have hstored : ∀ tree ∈ (forest space).trees, tree.Stored self.nodes := h.stored space
  have hnodup : ∀ tree ∈ (forest space).trees, tree.ids.Nodup := fun tree htree =>
    h.tree_nodup htree
  generalize (forest space).trees = trees at hstored hnodup ⊢
  induction trees with
  | nil => rfl
  | cons tree rest ih =>
    rw [map_cons, findSome?_cons, findSome?_cons,
      self.findItemInSubtree_eq (hstored tree mem_cons_self) (hnodup tree mem_cons_self),
      ih (fun other hother => hstored other (mem_cons_of_mem _ hother))
        (fun other hother => hnodup other (mem_cons_of_mem _ hother))]

end

variable {item : DockItemId}

theorem findItemInSpace_eq_none_iff (h : self.Holds forest) :
    self.findItemInSpace space item = none ↔ item ∉ (forest space).items := by
  rw [h.findItemInSpace_eq, SpaceTrees.findItem, findSome?_eq_none_iff, SpaceTrees.items,
    mem_flatMap]
  simp only [findItem_eq_none_iff, not_exists, not_and]

/-- A found position names a stack of the space and the item's place in it. -/
theorem findItemInSpace_eq_some (h : self.Holds forest)
    {tabs : DockNodeId} {index : Nat} (hfind : self.findItemInSpace space item = some
    (tabs, index)) :
    ∃ items selected, .tabs tabs items selected ∈ (forest space).subtrees ∧
      items[index]? = some item ∧ items.findIdx? (· == item) = some index := by
  rw [h.findItemInSpace_eq] at hfind
  obtain ⟨tree, htree, hfound⟩ := exists_of_findSome?_eq_some hfind
  obtain ⟨items, hleaf, hitem, hindex⟩ := findItem_eq_some hfound
  obtain ⟨selected, hsub⟩ := mem_leaves_iff.mp hleaf
  exact ⟨items, selected, mem_flatMap.mpr ⟨tree, htree, hsub⟩, hitem, hindex⟩

theorem subtreeContains_iff (h : self.Holds forest)
    (hsub : sub ∈ (forest space).subtrees) (target : DockNodeId) :
    self.subtreeContains sub.id target = true ↔ target ∈ sub.ids := by
  obtain ⟨tree, htree, hmem⟩ := mem_flatMap.mp hsub
  exact self.subtreeContains_iff (h.sub_stored hsub)
    (nodup_of_mem_subtrees (h.tree_nodup htree) hmem) target

theorem tree_mem_subtrees {self : SpaceTrees} (htree : tree ∈ self.trees) : tree ∈ self.subtrees :=
  mem_flatMap.mpr ⟨tree, htree, tree.mem_subtrees_self⟩

variable {target : DockNodeId} (h : self.Holds forest)

include h

theorem rootForNodeInSpace_isSome_iff :
    (self.rootForNodeInSpace space target).isSome = true ↔ target ∈ (forest space).ids := by
  rw [rootForNodeInSpace, find?_isSome, h.spaceRoots_eq, SpaceTrees.ids, mem_flatMap]
  constructor
  · rintro ⟨id, hid, hcontains⟩
    obtain ⟨tree, htree, rfl⟩ := mem_map.mp hid
    exact ⟨tree, htree, (h.subtreeContains_iff (tree_mem_subtrees htree) target).mp hcontains⟩
  · rintro ⟨tree, htree, hmem⟩
    exact ⟨tree.id, mem_map_of_mem htree,
      (h.subtreeContains_iff (tree_mem_subtrees htree) target).mpr hmem⟩

theorem rootForNodeInSpace_isNone_iff :
    (self.rootForNodeInSpace space target).isNone = true ↔ target ∉ (forest space).ids := by
  rw [← h.rootForNodeInSpace_isSome_iff]
  cases self.rootForNodeInSpace space target <;> simp

theorem rootSubtreeContains_iff : self.rootSubtreeContains space target = true ↔
      ∃ root, (forest space).root = some root ∧ target ∈ root.ids := by
  rw [rootSubtreeContains, h.root]
  cases hroot : (forest space).root with
  | none => simp
  | some root =>
    have hmem : root ∈ (forest space).trees := by simp [SpaceTrees.trees, hroot]
    simp [h.subtreeContains_iff (tree_mem_subtrees hmem)]

/-- A space with a tree is one the graph knows. -/
theorem mem_spaces (htree : tree ∈ (forest space).trees) : space ∈ self.spaces := by
  rw [mem_spaces_iff]
  rcases mem_append.mp htree with hroot | hfloating
  · have heq : self.roots[space]? = some tree.id := by
      have hself := h.root space
      rw [Option.mem_toList] at hroot
      rw [hroot] at hself
      exact hself
    exact .inl ((KeyMap.mem_iff_get _ _).mpr ⟨_, heq⟩)
  · right
    left
    have hself := h.floatings space
    rw [KeyMap.mem_iff_get]
    cases hget : self.floatings[space]? with
    | some containers => exact ⟨containers, rfl⟩
    | none =>
      rw [floatingContainers, hget] at hself
      rw [map_eq_nil_iff.mp hself.symm] at hfloating
      cases hfloating

theorem containsItem_iff : self.containsItem item = true ↔ forest.Placed item := by
  rw [containsItem, any_eq_true, DockForest.placed_iff]
  constructor
  · rintro ⟨space, _, hfind⟩
    refine ⟨space, ?_⟩
    by_contra hnot
    rw [h.findItemInSpace_eq_none_iff.mpr hnot] at hfind
    cases hfind
  · rintro ⟨space, hitem⟩
    obtain ⟨tree, htree, _⟩ := mem_flatMap.mp hitem
    refine ⟨space, h.mem_spaces htree, ?_⟩
    rw [← Option.ne_none_iff_isSome]
    exact fun hnone => h.findItemInSpace_eq_none_iff.mp hnone hitem

variable {after : DockGraph}

/-- Only the roots, the containers and the nodes of the forest matter. -/
theorem congr (hroots : ∀ space, after.root space = self.root space)
    (hfloatings : ∀ space, after.floatingContainers space = self.floatingContainers space)
    (hcentral : ∀ space, after.centralRegion space = self.centralRegion space)
    (hnodes : ∀ space, ∀ key ∈ (forest space).ids, after.nodes.get key = self.nodes.get key) :
    after.Holds forest where
  root space := (hroots space).trans (h.root space)
  floatings space := (hfloatings space).trans (h.floatings space)
  central space := (hcentral space).trans (h.central space)
  stored space tree htree := (h.stored space tree htree).congr fun key hkey =>
    hnodes space key (mem_flatMap.mpr ⟨tree, htree, hkey⟩)
  nodup := h.nodup
  apart := h.apart

/-- Replacing the trees of one space. -/
theorem update {trees : SpaceTrees} (hroot : after.root space = trees.root.map DockTree.id)
    (hroots : ∀ other, other ≠ space → after.root other = self.root other)
    (hcontainers : after.floatingContainers space = trees.floatings.map FloatingTree.container)
    (hfloatings : ∀ other, other ≠ space →
      after.floatingContainers other = self.floatingContainers other)
    (hcentral : after.centralRegion space = trees.central)
    (hcentrals : ∀ other, other ≠ space → after.centralRegion other = self.centralRegion other)
    (hstored : ∀ tree ∈ trees.trees, tree.Stored after.nodes)
    (hnodes : ∀ other, other ≠ space → ∀ key ∈ (forest other).ids,
      after.nodes.get key = self.nodes.get key)
    (hnodup : trees.ids.Nodup)
    (hapart : ∀ other, other ≠ space → ∀ key ∈ trees.ids, key ∉ (forest other).ids) :
    after.Holds (Function.update forest space trees) where
  root other := by
    by_cases hother : other = space
    · subst hother
      rw [update_self, hroot]
    · rw [update_of_ne hother, hroots other hother, h.root]
  floatings other := by
    by_cases hother : other = space
    · subst hother
      rw [update_self, hcontainers]
    · rw [update_of_ne hother, hfloatings other hother, h.floatings]
  central other := by
    by_cases hother : other = space
    · subst hother
      rw [update_self, hcentral]
    · rw [update_of_ne hother, hcentrals other hother, h.central]
  stored other := by
    by_cases hother : other = space
    · subst hother
      rw [update_self]
      exact hstored
    · rw [update_of_ne hother]
      intro tree htree
      exact (h.stored other tree htree).congr fun key hkey =>
        hnodes other hother key (mem_flatMap.mpr ⟨tree, htree, hkey⟩)
  nodup other := by
    by_cases hother : other = space
    · subst hother
      rw [update_self]
      exact hnodup
    · rw [update_of_ne hother]
      exact h.nodup other
  apart := by
    intro first second key hfirst hsecond
    by_cases hs : first = space
    · by_cases ht : second = space
      · rw [hs, ht]
      · rw [hs, update_self] at hfirst
        rw [update_of_ne ht] at hsecond
        exact (hapart second ht key hfirst hsecond).elim
    · rw [update_of_ne hs] at hfirst
      by_cases ht : second = space
      · rw [ht, update_self] at hsecond
        exact (hapart first hs key hsecond hfirst).elim
      · rw [update_of_ne ht] at hsecond
        exact h.apart hfirst hsecond

end Holds

end DockGraph

end OpenGpui.Docking
