/-
Applying an edge dock plan to a graph puts the docked tree beside its target: into the
split the plan names, or into a new split in the place of the target.
-/
import OpenGpui.Docking.ForestSimplify

namespace OpenGpui.Docking

open List SlotMap

namespace DockTree

/-- The shares of a split after a new child took its own. -/
def insertShares (fractions : List Scalar) (anchorIndex insertIndex : Nat)
    (sizing : DockEdgeDockSizing) (sizingScope : DockEdgeDockSizingScope) : List Scalar :=
  let anchor := (fractions[anchorIndex]?).getD 0
  let take :=
    match sizingScope with
    | .wholeSplit => sizing.newChildShare
    | .anchorChild => anchor * sizing.newChildShare
  let shrunk :=
    match sizingScope with
    | .wholeSplit => fractions.map (· * (1 - take))
    | .anchorChild => fractions.set anchorIndex (anchor - take)
  UiCore.normalizeSplitFractions (shrunk.insertIdx insertIndex take)

/-- The tree with another one docked at its top as the plan says; `new` names the split
a wrap creates. -/
def dock (plan : DockEdgeDockPlan) (new : DockNodeId) (added : DockTree) : DockTree → DockTree :=
  match plan with
  | .insertIntoSplit _ _ _ anchorIndex insertIndex sizing sizingScope => fun
      | split id axis children fractions =>
        split id axis (children.insertIdx insertIndex added)
          (insertShares fractions anchorIndex insertIndex sizing sizingScope)
      | tabs id items selected => tabs id items selected
      | floating id child => floating id child
  | .wrapTarget _ axis zone sizing => fun target =>
    split new axis (if zone.leads then [added, target] else [target, added])
      [(orderedEdgeFractions zone sizing.newChildShare).leading,
        (orderedEdgeFractions zone sizing.newChildShare).trailing]

end DockTree

variable {children : List DockNodeId}

theorem map_rename_of_not_mem {old new : DockNodeId} (h : old ∉ children) :
    (children.map fun child => if child = old then new else child) = children := by
  rw [map_congr_left, map_id']
  intro child hchild
  apply if_neg
  rintro rfl
  exact h hchild

/-- Replacing the first occurrence replaces the only one. -/
theorem set_findIdx_eq_map {old new : DockNodeId} {index : Nat}
    (hnodup : children.Nodup) (hfind : children.findIdx? (· == old) = some index) :
    children.set index new = children.map fun child => if child = old then new else child := by
  induction children generalizing index with
  | nil => cases hfind
  | cons first rest ih =>
    rw [nodup_cons] at hnodup
    rw [findIdx?_cons] at hfind
    by_cases heq : first = old
    · subst heq
      simp only [beq_self_eq_true, if_true, Option.some.injEq] at hfind
      subst hfind
      rw [set_cons_zero, map_cons, if_pos rfl, map_rename_of_not_mem hnodup.1]
    · rw [if_neg (by simpa using heq), Option.map_eq_some_iff] at hfind
      obtain ⟨below, hbelow, rfl⟩ := hfind
      rw [set_cons_succ, map_cons, if_neg heq, ih hnodup.2 hbelow]

/-- Children whose trees share no node have distinct tops. -/
theorem DockTree.children_ids_nodup {kids : List DockTree} (h : (kids.flatMap ids).Nodup) :
    (kids.map DockTree.id).Nodup := by
  induction kids with
  | nil => exact nodup_nil
  | cons first rest ih =>
    rw [flatMap_cons, nodup_append] at h
    rw [map_cons, nodup_cons]
    refine ⟨?_, ih h.2.1⟩
    intro hmem
    obtain ⟨tree, htree, hid⟩ := mem_map.mp hmem
    exact h.2.2 first.id (id_mem_ids first) first.id
      (mem_flatMap.mpr ⟨tree, htree, hid ▸ id_mem_ids tree⟩) rfl

namespace DockGraph

open DockTree

section FindParent

variable {self : DockGraph} {target : DockNodeId} {tree : DockTree}

theorem findParentInSubtreeWithin_sound (hstored : Stored self.nodes tree)
    {fuel : Nat} {parent : DockNodeId}
    (h : self.findParentInSubtreeWithin target fuel tree.id = some parent) :
    ∃ sub ∈ tree.subtrees, sub.id = parent ∧ ∃ child ∈ sub.children, child.id = target := by
  induction tree using DockTree.induction generalizing fuel with
  | tabs id items selected =>
    have hget : self.nodes.get id = some (.tabs items selected) := hstored.get
    cases fuel with
    | zero => cases h
    | succ fuel =>
      rw [id_tabs, findParentInSubtreeWithin, hget] at h
      cases h
  | floating id child ih =>
    have hget : self.nodes.get id = some (.floating child.id) := hstored.get
    have hmem : child ∈ (floating id child).children := mem_singleton_self _
    cases fuel with
    | zero => cases h
    | succ fuel =>
      simp only [id_floating, findParentInSubtreeWithin, hget] at h
      split at h
      · next hchild =>
        cases h
        exact ⟨_, mem_subtrees_self _, rfl, child, hmem, hchild⟩
      · obtain ⟨sub, hsub, hfound⟩ := ih (hstored.child hmem) h
        exact ⟨sub, mem_subtrees_of_child hmem hsub, hfound⟩
  | split id axis kids fractions ih =>
    have hget : self.nodes.get id = some (.split axis (kids.map DockTree.id) fractions) :=
      hstored.get
    cases fuel with
    | zero => cases h
    | succ fuel =>
      simp only [id_split, findParentInSubtreeWithin, hget] at h
      split at h
      · next hcontains =>
        cases h
        obtain ⟨child, hchild, hid⟩ := mem_map.mp (contains_iff_mem.mp hcontains)
        exact ⟨_, mem_subtrees_self _, rfl, child, hchild, hid⟩
      · obtain ⟨key, hkey, hfound⟩ := exists_of_findSome?_eq_some h
        obtain ⟨kid, hkid, rfl⟩ := mem_map.mp hkey
        obtain ⟨sub, hsub, hparent⟩ := ih kid hkid (hstored.child hkid) hfound
        have hmem : kid ∈ (split id axis kids fractions).children := hkid
        exact ⟨sub, mem_subtrees_of_child hmem hsub, hparent⟩

/-- A node below the top of a stored tree has a parent to find. -/
theorem findParentInSubtreeWithin_isSome (hstored : Stored self.nodes tree)
    {fuel : Nat} (hfuel : tree.ids.length ≤ fuel) (hbelow : target ∈ tree.children.flatMap ids) :
    (self.findParentInSubtreeWithin target fuel tree.id).isSome = true := by
  revert hbelow
  refine stored_induction self ?_ ?_ ?_ fuel tree hstored hfuel
  · intro rest id items selected hget hbelow
    cases hbelow
  · intro rest id child hget ih hbelow
    have hin : target ∈ child.ids := by simpa [children] using hbelow
    simp only [id_floating, findParentInSubtreeWithin, hget]
    by_cases htop : child.id = target
    · rw [if_pos htop]
      rfl
    · rw [if_neg htop]
      rw [ids_eq, mem_cons] at hin
      exact ih (hin.resolve_left fun heq => htop heq.symm)
  · intro rest id axis kids fractions hget ih hbelow
    simp only [id_split, findParentInSubtreeWithin, hget]
    split
    · rfl
    · next hnot =>
      obtain ⟨kid, hkid, hin⟩ := mem_flatMap.mp hbelow
      rw [ids_eq, mem_cons] at hin
      have hlow : target ∈ kid.children.flatMap ids := by
        apply hin.resolve_left
        rintro rfl
        exact hnot (contains_iff_mem.mpr (mem_map_of_mem hkid))
      rw [findSome?_isSome_iff]
      exact ⟨kid.id, mem_map_of_mem hkid, ih kid hkid hlow⟩

end FindParent

/-- The containers with one node renamed. -/
def renameContainers (old new : DockNodeId) (containers : List DockFloatingContainer) :
    List DockFloatingContainer :=
  containers.map fun container =>
    { container with node := if container.node = old then new else container.node }

variable {containers : List DockFloatingContainer}

theorem renameContainers_of_not_mem {old : DockNodeId} (new : DockNodeId)
    (h : old ∉ containers.map (·.node)) :
    renameContainers old new containers = containers := by
  rw [renameContainers, map_congr_left, map_id']
  intro container hcontainer
  rw [if_neg]
  rintro rfl
  exact h (mem_map_of_mem hcontainer)

theorem replaceFloatingNode_eq (old new : DockNodeId) (hnodup : (containers.map (·.node)).Nodup) :
    replaceFloatingNode old new containers =
      if old ∈ containers.map (·.node) then some (renameContainers old new containers)
      else none := by
  induction containers with
  | nil => rfl
  | cons first rest ih =>
    rw [map_cons, nodup_cons] at hnodup
    rw [replaceFloatingNode]
    by_cases heq : first.node = old
    · subst heq
      have hrest := renameContainers_of_not_mem new hnodup.1
      rw [renameContainers] at hrest
      rw [if_pos rfl, if_pos (by simp), renameContainers, map_cons, if_pos rfl, hrest]
    · rw [if_neg heq, ih hnodup.2, map_cons]
      by_cases hmem : old ∈ rest.map (·.node)
      · rw [if_pos hmem, if_pos (mem_cons_of_mem _ hmem), Option.map_some, renameContainers,
          renameContainers, map_cons, if_neg heq]
      · rw [if_neg hmem, if_neg, Option.map_none]
        simp only [mem_cons, not_or]
        exact ⟨fun h => heq h.symm, hmem⟩

namespace Holds

variable {self after : DockGraph} {forest : DockForest} {space other : DockSpaceId}

/-- The top of a tree is nobody's child. -/
theorem top_not_child (h : self.Holds forest) {tree low child : DockTree}
    (htree : tree ∈ (forest space).trees) (hlow : low ∈ (forest other).subtrees)
    (hchild : child ∈ low.children) : child.id ≠ tree.id := by
  intro hid
  obtain ⟨owner, howner, hbelow⟩ := mem_flatMap.mp hlow
  have hin : child.id ∈ owner.children.flatMap ids := child_id_mem_below hbelow hchild
  have howned : child.id ∈ owner.ids := by
    rw [ids_eq]
    exact mem_cons_of_mem _ hin
  have hspace : other = space :=
    h.apart (mem_flatMap.mpr ⟨owner, howner, howned⟩)
      (mem_flatMap.mpr ⟨tree, htree, hid ▸ id_mem_ids tree⟩)
  subst hspace
  have hsame : owner = tree :=
    eq_of_mem_flatMap_nodup (h.nodup other) howner htree howned (hid ▸ id_mem_ids tree)
  subst hsame
  have hnodup := h.tree_nodup howner
  rw [ids_eq, nodup_cons] at hnodup
  exact hnodup.1 (hid ▸ hin)

/-- The tops of the trees of a space are distinct. -/
theorem tops_nodup (h : self.Holds forest) (space : DockSpaceId) :
    ((forest space).trees.map DockTree.id).Nodup :=
  children_ids_nodup (h.nodup space)

/-- Two nodes of the forest with a common child are one. -/
theorem parent_unique (h : self.Holds forest) {first second low high : DockTree}
    (hfirst : first ∈ (forest space).subtrees) (hsecond : second ∈ (forest other).subtrees)
    (hlow : low ∈ first.children) (hhigh : high ∈ second.children) (hid : low.id = high.id) :
    first = second := by
  obtain ⟨tree, htree, hbelow⟩ := mem_flatMap.mp hfirst
  obtain ⟨tree', htree', hbelow'⟩ := mem_flatMap.mp hsecond
  have hin : low.id ∈ tree.ids :=
    ids_subset_of_mem_subtrees (mem_subtrees_trans hbelow (child_mem_subtrees hlow)) _
      (id_mem_ids low)
  have hin' : low.id ∈ tree'.ids := by
    rw [hid]
    exact ids_subset_of_mem_subtrees (mem_subtrees_trans hbelow' (child_mem_subtrees hhigh)) _
      (id_mem_ids high)
  have hspace : space = other :=
    h.apart (mem_flatMap.mpr ⟨tree, htree, hin⟩) (mem_flatMap.mpr ⟨tree', htree', hin'⟩)
  subst hspace
  have hsame : tree = tree' := eq_of_mem_flatMap_nodup (h.nodup space) htree htree' hin hin'
  subst hsame
  exact parent_unique (h.tree_nodup htree) hbelow hbelow' hlow hhigh hid

end Holds

/-- The graph with every reference to `old` turned into one to `new`. -/
structure Renames (graph : DockGraph) (forest : DockForest) (old new : DockNodeId)
    (after : DockGraph) : Prop where
  root : ∀ space, after.root space =
    (graph.root space).map fun key => if key = old then new else key
  floatings : ∀ space, after.floatingContainers space =
    renameContainers old new (graph.floatingContainers space)
  central : ∀ space, after.centralRegion space = graph.centralRegion space
  nodes : ∀ space, ∀ low ∈ (forest space).subtrees,
    after.nodes.get low.id = some (low.node.renameChild old new)
  frame : ∀ key, (∀ space, key ∉ (forest space).ids) → after.nodes.get key = graph.nodes.get key

section Rename

variable {self : DockGraph} {forest : DockForest} {space : DockSpaceId} {sub : DockTree}

theorem not_mem_children_of_top (h : self.Holds forest) {tree : DockTree}
    (htree : tree ∈ (forest space).trees) {other : DockSpaceId} {low : DockTree}
    (hlow : low ∈ (forest other).subtrees) : tree.id ∉ low.node.children := by
  rw [node_children]
  intro hmem
  obtain ⟨child, hchild, hid⟩ := mem_map.mp hmem
  exact h.top_not_child htree hlow hchild hid

variable {old new : DockNodeId}

/-- A root other than the renamed node stays. -/
theorem root_map_rename (hne : self.root space ≠ some old) :
    ((self.root space).map fun key => if key = old then new else key) = self.root space := by
  cases hroot : self.root space with
  | none => rfl
  | some root =>
    rw [Option.map_some, if_neg]
    rintro rfl
    exact hne hroot

section

variable (h : self.Holds forest)

include h

theorem Holds.mem_ids_of_root {root : DockNodeId}
    (hroot : self.root space = some root) : root ∈ (forest space).ids := by
  rw [h.root] at hroot
  obtain ⟨tree, htree, rfl⟩ := Option.map_eq_some_iff.mp hroot
  exact mem_flatMap.mpr ⟨tree, by simp [SpaceTrees.trees, htree], id_mem_ids tree⟩

theorem Holds.mem_ids_of_container {container : DockFloatingContainer}
    (hmem : container ∈ self.floatingContainers space) :
    container.node ∈ (forest space).ids := by
  rw [h.floatings] at hmem
  obtain ⟨entry, hentry, rfl⟩ := mem_map.mp hmem
  exact mem_flatMap.mpr ⟨entry.tree,
    mem_append_right _ (mem_map_of_mem hentry), id_mem_ids entry.tree⟩

/-- Where no top is the renamed node, only its parent changes. -/
theorem Holds.replaceChildInNode (hsub : sub ∈ (forest space).subtrees)
    (hnoRoot : self.root space ≠ some sub.id)
    (hnoContainer : sub.id ∉ (self.floatingContainers space).map (·.node))
    {parent child : DockTree} (hparent : parent ∈ (forest space).subtrees)
    (hchild : child ∈ parent.children) (hid : child.id = sub.id) (new : DockNodeId) :
    ∃ after, self.replaceChildInNode parent.id sub.id new = (true, after) ∧
      self.Renames forest sub.id new after := by
  have hspace : ∀ other, sub.id ∈ (forest other).ids → other = space := fun other hmem =>
    h.apart hmem (SpaceTrees.mem_ids_iff.mpr ⟨sub, hsub, rfl⟩)
  have hget := h.get hparent
  have hmem : sub.id ∈ parent.node.children := by
    rw [node_children, ← hid]
    exact mem_map_of_mem hchild
  have hnodup : parent.node.children.Nodup := by
    rw [node_children]
    obtain ⟨tree, htree, hbelow⟩ := mem_flatMap.mp hparent
    have hids := nodup_of_mem_subtrees (h.tree_nodup htree) hbelow
    rw [ids_eq, nodup_cons] at hids
    exact children_ids_nodup hids.2
  have hrenames : self.Renames forest sub.id new
      (self.setNode parent.id (parent.node.renameChild sub.id new)) := by
    constructor
    · intro other
      symm
      apply root_map_rename
      intro hroot
      obtain rfl := hspace other (h.mem_ids_of_root hroot)
      exact hnoRoot hroot
    · intro other
      symm
      apply renameContainers_of_not_mem
      intro hin
      obtain ⟨container, hcontainer, hnode⟩ := mem_map.mp hin
      obtain rfl := hspace other (hnode ▸ h.mem_ids_of_container hcontainer)
      exact hnoContainer hin
    · exact fun other => rfl
    · intro other low hlow
      by_cases hlowId : low.id = parent.id
      · obtain ⟨_, rfl⟩ := h.sub_unique hlow hparent hlowId
        exact get_set_self _ hget
      · have hkept : low.node.renameChild sub.id new = low.node := by
          apply DockNode.renameChild_of_not_mem
          rw [node_children]
          intro hin
          obtain ⟨another, hanother, hsame⟩ := mem_map.mp hin
          have heq := h.parent_unique hlow hparent hanother hchild (hsame.trans hid.symm)
          exact hlowId (congrArg DockTree.id heq)
        rw [hkept]
        exact (get_set_ne _ _ (Ne.symm hlowId)).trans (h.get hlow)
    · intro key hkey
      apply get_set_ne
      rintro rfl
      exact hkey space (SpaceTrees.mem_ids_iff.mpr ⟨parent, hparent, rfl⟩)
  refine ⟨_, ?_, hrenames⟩
  cases parent with
  | tabs id items selected => cases hchild
  | floating id only =>
    obtain rfl := mem_singleton.mp hchild
    have hnode : self.nodes.get id = some (.floating child.id) := hget
    simp only [DockGraph.replaceChildInNode, id_floating, hnode, hid, ne_eq, not_true_eq_false,
      if_false, DockTree.node, DockNode.renameChild, if_true]
  | split id axis kids fractions =>
    have hnode : self.nodes.get id = some (.split axis (kids.map DockTree.id) fractions) := hget
    have hfind : ∃ index, (kids.map DockTree.id).findIdx? (· == sub.id) = some index := by
      rw [← Option.isSome_iff_exists, findIdx?_isSome, any_eq_true]
      exact ⟨sub.id, hmem, beq_self_eq_true _⟩
    obtain ⟨index, hindex⟩ := hfind
    have hset : (kids.map DockTree.id).set index new = _ := set_findIdx_eq_map hnodup hindex
    simp only [DockGraph.replaceChildInNode, id_split, hnode, hindex, hset, DockTree.node,
      DockNode.renameChild]

/-- Whatever holds a node of the space, the node can be replaced there. -/
theorem Holds.replaceNodeInSpaceTree (hsub : sub ∈ (forest space).subtrees) (new : DockNodeId) :
    ∃ after, self.replaceNodeInSpaceTree space sub.id new = (true, after) ∧
      self.Renames forest sub.id new after := by
  have hspace : ∀ other, sub.id ∈ (forest other).ids → other = space := fun other hmem =>
    h.apart hmem (SpaceTrees.mem_ids_iff.mpr ⟨sub, hsub, rfl⟩)
  have htops : ((self.root space).toList ++
      (self.floatingContainers space).map (·.node)).Nodup := by
    have hnodup := h.tops_nodup space
    rw [← h.spaceRoots_eq, spaceRoots] at hnodup
    exact hnodup
  have hnodes : ∀ tree ∈ (forest space).trees, tree.id = sub.id → ∀ other, ∀ low ∈ (forest
      other).subtrees, self.nodes.get low.id = some (low.node.renameChild sub.id new) := by
    intro tree htree hid other low hlow
    rw [DockNode.renameChild_of_not_mem _ (hid ▸ not_mem_children_of_top h htree hlow)]
    exact h.get hlow
  have hrootElse : ∀ other, other ≠ space → self.root other ≠ some sub.id :=
    fun other hother hroot => hother (hspace other (h.mem_ids_of_root hroot))
  have hcontainersElse : ∀ other, other ≠ space →
      sub.id ∉ (self.floatingContainers other).map (·.node) := by
    intro other hother hmem
    obtain ⟨container, hcontainer, hnode⟩ := mem_map.mp hmem
    exact hother (hspace other (hnode ▸ h.mem_ids_of_container hcontainer))
  by_cases hroot : self.root space = some sub.id
  · -- the node is the root of the space
    obtain ⟨tree, htree, hid⟩ := Option.map_eq_some_iff.mp ((h.root space).symm.trans hroot)
    have hmem : tree ∈ (forest space).trees := by simp [SpaceTrees.trees, htree]
    rw [hroot, Option.toList_some, singleton_append, nodup_cons] at htops
    refine ⟨self.setRoot space new, by rw [DockGraph.replaceNodeInSpaceTree, if_pos hroot], ?_⟩
    constructor
    · intro other
      by_cases hother : other = space
      · subst hother
        rw [hroot, Option.map_some, if_pos rfl]
        exact (KeyMap.get_insert _ _ _ _).trans (if_pos rfl)
      · rw [root_map_rename (hrootElse other hother)]
        exact (KeyMap.get_insert _ _ _ _).trans (if_neg (Ne.symm hother))
    · intro other
      by_cases hother : other = space
      · subst hother
        exact (renameContainers_of_not_mem new htops.1).symm
      · exact (renameContainers_of_not_mem new (hcontainersElse other hother)).symm
    · exact fun other => rfl
    · exact hnodes tree hmem hid
    · exact fun key _ => rfl
  · have hrootKept : ∀ other, self.root other =
        (self.root other).map fun key => if key = sub.id then new else key := by
      intro other
      by_cases hother : other = space
      · subst hother
        exact (root_map_rename hroot).symm
      · exact (root_map_rename (hrootElse other hother)).symm
    by_cases hcontainer : sub.id ∈ (self.floatingContainers space).map (·.node)
    · -- the node is a floating container of the space
      obtain ⟨container, hmem, hnode⟩ := mem_map.mp hcontainer
      have hentry : container ∈ (forest space).floatings.map FloatingTree.container :=
        h.floatings space ▸ hmem
      obtain ⟨entry, hentryMem, rfl⟩ := mem_map.mp hentry
      have htree : entry.tree ∈ (forest space).trees :=
        mem_append_right _ (mem_map_of_mem hentryMem)
      cases hget : self.floatings[space]? with
      | none =>
        rw [floatingContainers, hget, Option.getD_none] at hmem
        cases hmem
      | some containers =>
        have hself : self.floatingContainers space = containers := by
          rw [floatingContainers, hget, Option.getD_some]
        rw [hself] at hcontainer htops
        have hreplace := replaceFloatingNode_eq sub.id new (nodup_append.mp htops).2.1
        rw [if_pos hcontainer] at hreplace
        refine ⟨{ self with
          floatings := self.floatings.insert space (renameContainers sub.id new containers) },
          ?_, ?_⟩
        · rw [DockGraph.replaceNodeInSpaceTree, if_neg hroot, hget, Option.bind_some, hreplace]
        · constructor
          · exact hrootKept
          · intro other
            by_cases hother : other = space
            · subst hother
              rw [floatingContainers, KeyMap.get_insert, if_pos rfl, Option.getD_some, hself]
            · rw [renameContainers_of_not_mem new (hcontainersElse other hother)]
              rw [floatingContainers, KeyMap.get_insert, if_neg (Ne.symm hother)]
              rfl
          · exact fun other => rfl
          · exact hnodes entry.tree htree hnode
          · exact fun key _ => rfl
    · -- the node has a parent
      have hnone : (self.floatings[space]?).bind (replaceFloatingNode sub.id new) = none := by
        cases hget : self.floatings[space]? with
        | none => rfl
        | some containers =>
          have hself : self.floatingContainers space = containers := by
            rw [floatingContainers, hget, Option.getD_some]
          rw [hself] at hcontainer htops
          rw [Option.bind_some, replaceFloatingNode_eq _ _ (nodup_append.mp htops).2.1,
            if_neg hcontainer]
      have hnotTop : ∀ tree ∈ (forest space).trees, tree.id ≠ sub.id := by
        intro tree htree hid
        rcases mem_append.mp htree with hin | hin
        · apply hroot
          rw [h.root, Option.mem_toList.mp hin, Option.map_some, hid]
        · obtain ⟨entry, hentry, rfl⟩ := mem_map.mp hin
          apply hcontainer
          rw [h.floatings, map_map]
          exact mem_map.mpr ⟨entry, hentry, hid⟩
      obtain ⟨tree, htree, hbelow⟩ := mem_flatMap.mp hsub
      have hlow : sub.id ∈ tree.children.flatMap ids := by
        have hin : sub.id ∈ tree.ids := mem_ids_iff.mpr ⟨sub, hbelow, rfl⟩
        rw [ids_eq, mem_cons] at hin
        exact hin.resolve_left fun heq => hnotTop tree htree heq.symm
      have hfound : ((self.spaceRoots space).findSome? fun root =>
          self.findParentInSubtree root sub.id).isSome = true := by
        rw [findSome?_isSome_iff, h.spaceRoots_eq]
        exact ⟨tree.id, mem_map_of_mem htree, findParentInSubtreeWithin_isSome (h.stored space tree
          htree) (self.ids_length_le_fuel (h.stored space tree htree) (h.tree_nodup htree)) hlow⟩
      obtain ⟨parentId, hparentId⟩ := Option.isSome_iff_exists.mp hfound
      have hparentFound := hparentId
      rw [h.spaceRoots_eq] at hparentFound
      obtain ⟨top, htop, hsome⟩ := exists_of_findSome?_eq_some hparentFound
      obtain ⟨owner, howner, rfl⟩ := mem_map.mp htop
      obtain ⟨parent, hparent, rfl, child, hchild, hid⟩ :=
        findParentInSubtreeWithin_sound (h.stored space owner howner) hsome
      obtain ⟨after, hreplace, hrenames⟩ := h.replaceChildInNode hsub hroot hcontainer
        (mem_flatMap.mpr ⟨owner, howner, hparent⟩) hchild hid new
      refine ⟨after, ?_, hrenames⟩
      rw [DockGraph.replaceNodeInSpaceTree, if_neg hroot]
      simp only [hnone, hparentId, hreplace]

end

theorem mem_of_replaceFloatingNode {containers renamed : List DockFloatingContainer}
    (h : replaceFloatingNode old new containers = some renamed) :
    old ∈ containers.map (·.node) := by
  induction containers generalizing renamed with
  | nil => cases h
  | cons container rest ih =>
    rw [replaceFloatingNode] at h
    rw [map_cons, mem_cons]
    split at h
    · next heq => exact .inl heq.symm
    · obtain ⟨inner, hinner, _⟩ := Option.map_eq_some_iff.mp h
      exact .inr (ih hinner)

/-- Only a node of the space can be replaced there. -/
theorem Holds.mem_of_replaceNodeInSpaceTree (h : self.Holds forest)
    {after : DockGraph} (hreplace : self.replaceNodeInSpaceTree space old new = (true, after)) :
    old ∈ (forest space).ids := by
  rw [DockGraph.replaceNodeInSpaceTree] at hreplace
  split at hreplace
  · next hroot => exact h.mem_ids_of_root hroot
  · split at hreplace
    · next containers hcontainers =>
      obtain ⟨own, hown, hrenamed⟩ := Option.bind_eq_some_iff.mp hcontainers
      obtain ⟨container, hmem, rfl⟩ := mem_map.mp (mem_of_replaceFloatingNode hrenamed)
      apply h.mem_ids_of_container
      rwa [floatingContainers, hown]
    · split at hreplace
      · next parent hparent =>
        rw [h.spaceRoots_eq] at hparent
        obtain ⟨top, htop, hsome⟩ := exists_of_findSome?_eq_some hparent
        obtain ⟨owner, howner, rfl⟩ := mem_map.mp htop
        obtain ⟨high, hhigh, _, child, hchild, rfl⟩ :=
          findParentInSubtreeWithin_sound (h.stored space owner howner) hsome
        refine SpaceTrees.mem_ids_iff.mpr ⟨child, ?_, rfl⟩
        exact mem_flatMap.mpr ⟨owner, howner, mem_subtrees_trans hhigh (child_mem_subtrees hchild)⟩
      · cases hreplace

end Rename

variable {fractions : List Scalar}

theorem splitShareAndInsert_eq {children : List DockNodeId}
    {anchorIndex insertIndex : Nat} (newChild : DockNodeId) (sizing : DockEdgeDockSizing)
    (sizingScope : DockEdgeDockSizingScope) (hne : children ≠ [])
    (hlen : children.length = fractions.length) (hanchor : anchorIndex < fractions.length)
    (hinsert : insertIndex ≤ fractions.length) :
    splitShareAndInsert children fractions anchorIndex insertIndex newChild sizing sizingScope =
      some (children.insertIdx insertIndex newChild,
        insertShares fractions anchorIndex insertIndex sizing sizingScope) := by
  rw [splitShareAndInsert, if_neg]
  · rfl
  · simp [hne, hlen]
    omega

/-- The target of a plan is in the space, and a split it names has the shape the plan
expects. -/
structure PlanFits (graph : DockGraph) (forest : DockForest) (space : DockSpaceId)
    (plan : DockEdgeDockPlan) : Prop where
  target : plan.targetNode ∈ (forest space).ids
  split : ∀ {split zone anchorChild anchorIndex insertIndex sizing sizingScope},
    plan = .insertIntoSplit split zone anchorChild anchorIndex insertIndex sizing sizingScope →
    ∃ axis children fractions, graph.nodes.get split = some (.split axis children fractions) ∧
      zone.axis = some axis ∧ children ≠ [] ∧ children.length = fractions.length ∧
      children[anchorIndex]? = some anchorChild ∧ anchorIndex < fractions.length ∧
      insertIndex ≤ fractions.length ∧
      edgeInsertIndexMatchesZone zone anchorIndex insertIndex = true
  wrap : ∀ {target axis zone sizing}, plan = .wrapTarget target axis zone sizing →
    zone.axis = some axis

variable {self : DockGraph} {forest : DockForest} {space : DockSpaceId} {added : DockTree}

variable {plan : DockEdgeDockPlan}

theorem Holds.planFits (h : self.Holds forest)
    (hcurrent : self.edgeDockPlanIsCurrent space plan = true) :
    self.PlanFits forest space plan := by
  cases plan with
  | wrapTarget target axis zone sizing =>
    simp only [edgeDockPlanIsCurrent, Bool.and_eq_true, beq_iff_eq] at hcurrent
    refine ⟨h.rootForNodeInSpace_isSome_iff.mp hcurrent.2, fun heq => (nomatch heq), ?_⟩
    intro target' axis' zone' sizing' heq
    cases heq
    exact hcurrent.1.1
  | insertIntoSplit split zone anchorChild anchorIndex insertIndex sizing sizingScope =>
    rw [edgeDockPlanIsCurrent] at hcurrent
    split at hcurrent
    · cases hcurrent
    · next hguard =>
      have hsome : (self.rootForNodeInSpace space split).isSome = true := by
        rw [Bool.or_eq_true, not_or] at hguard
        rw [← Option.not_isNone, Bool.not_eq_true']
        exact Bool.eq_false_of_not_eq_true hguard.2
      refine ⟨h.rootForNodeInSpace_isSome_iff.mp hsome, ?_, fun heq => nomatch heq⟩
      intro split' zone' anchorChild' anchorIndex' insertIndex' sizing' scope' heq
      cases heq
      split at hcurrent
      · next axis children fractions hget =>
        split at hcurrent
        · cases hcurrent
        · next haxis =>
          simp only [Bool.and_eq_true, decide_eq_true_eq, beq_iff_eq, Bool.not_eq_true',
            isEmpty_eq_false_iff] at hcurrent
          obtain ⟨⟨⟨⟨⟨⟨hne, hlen⟩, hanchor⟩, hchild⟩, hinsert⟩, hmatch⟩, _⟩ := hcurrent
          have hzone : zone.axis = some axis := by simpa using haxis
          exact ⟨axis, children, fractions, hget, hzone, hne, hlen, hchild, hanchor, hinsert,
            hmatch⟩
      · cases hcurrent

theorem Holds.split_mem (h : self.Holds forest) {split : DockNodeId} {axis : SplitAxis}
    {children : List DockNodeId} (hmem : split ∈ (forest space).ids)
    (hget : self.nodes.get split = some (.split axis children fractions)) :
    ∃ kids, children = kids.map DockTree.id ∧
      DockTree.split split axis kids fractions ∈ (forest space).subtrees := by
  obtain ⟨sub, hsub, rfl⟩ := SpaceTrees.mem_ids_iff.mp hmem
  rw [h.get hsub] at hget
  cases sub with
  | tabs id items selected | floating id child => cases hget
  | split id ownAxis kids own =>
    cases hget
    exact ⟨kids, rfl, hsub⟩

/-- A plan that fits docks the tree. -/
theorem Holds.applyEdgeDockPlan (h : self.Holds forest)
    (hfits : self.PlanFits forest space plan) (hadded : self.Detached forest added) :
    ∃ after, self.applyEdgeDockPlan space plan added.id = (true, after) ∧
      after.Holds (forest.rewrite plan.targetNode (dock plan self.nodes.next added)) := by
  cases plan with
  | insertIntoSplit split zone anchorChild anchorIndex insertIndex sizing sizingScope =>
    obtain ⟨axis, children, fractions, hget, _, hne, hlen, _, hanchor, hinsert, _⟩ :=
      hfits.split rfl
    obtain ⟨kids, rfl, hsub⟩ := h.split_mem hfits.target hget
    refine ⟨self.setNode split (.split axis ((kids.map DockTree.id).insertIdx insertIndex added.id)
        (insertShares fractions anchorIndex insertIndex sizing sizingScope)), ?_, ?_⟩
    · simp only [DockGraph.applyEdgeDockPlan, hget,
        splitShareAndInsert_eq added.id sizing sizingScope hne hlen hanchor hinsert]
    · apply h.setNode (some added)
      · intro other sub hother hid
        obtain ⟨_, rfl⟩ := h.sub_unique hother hsub hid
        refine ⟨rfl, ?_, ?_⟩
        · simp only [dock, DockTree.node, map_insertIdx]
        · rw [← hlen, length_map] at hinsert
          exact (perm_insertIdx added kids hinsert).trans (perm_append_singleton added kids).symm
      · intro tree htree
        cases htree
        exact hadded
  | wrapTarget target axis zone sizing =>
    obtain ⟨sub, hsub, rfl⟩ := SpaceTrees.mem_ids_iff.mp hfits.target
    let top := dock (.wrapTarget sub.id axis zone sizing) self.nodes.next added sub
    let stored := (self.insertNode top.node).2
    have hordered : (orderedEdgeChildren zone added.id sub.id).leading = added.id ∧
        (orderedEdgeChildren zone added.id sub.id).trailing = sub.id ∧ zone.leads = true ∨
        (orderedEdgeChildren zone added.id sub.id).leading = sub.id ∧
        (orderedEdgeChildren zone added.id sub.id).trailing = added.id ∧ zone.leads = false := by
      cases zone <;> simp [orderedEdgeChildren, DropZone.leads]
    have hnode : top.node = .split axis [(orderedEdgeChildren zone added.id sub.id).leading,
        (orderedEdgeChildren zone added.id sub.id).trailing]
        [(orderedEdgeFractions zone sizing.newChildShare).leading,
          (orderedEdgeFractions zone sizing.newChildShare).trailing] := by
      rcases hordered with ⟨hleading, htrailing, hleads⟩ | ⟨hleading, htrailing, hleads⟩ <;>
        simp [top, dock, DockTree.node, hleading, htrailing, hleads]
    have hfreshAdded : self.nodes.next ∉ added.ids := by
      intro hmem
      obtain ⟨low, hlow, hid⟩ := mem_ids_iff.mp hmem
      have hget := hadded.stored low hlow
      rw [hid, get_next] at hget
      cases hget
    have hstored : stored.Holds forest := h.insertNode _
    obtain ⟨after, hreplace, hrenames⟩ := hstored.replaceNodeInSpaceTree hsub self.nodes.next
    refine ⟨after, ?_, ?_⟩
    · rw [DockGraph.applyEdgeDockPlan]
      simp only [← hnode]
      exact hreplace
    · apply hstored.rewrite (self.nodes.next :: added.ids) hsub rfl
      · rcases hordered with ⟨_, _, hleads⟩ | ⟨_, _, hleads⟩
        · simp only [dock, hleads, if_true, ids_split, flatMap_cons, flatMap_nil, append_nil]
          exact ((perm_append_comm).cons _).trans perm_middle.symm
        · simp only [dock, hleads, Bool.false_eq_true, if_false, ids_split, flatMap_cons,
            flatMap_nil, append_nil]
          exact perm_middle.symm
      · exact nodup_cons.mpr ⟨hfreshAdded, hadded.nodup⟩
      · intro other key hkey
        rcases mem_cons.mp hkey with rfl | hin
        · exact h.next_fresh other
        · exact hadded.fresh other key hin
      · exact hrenames.root
      · exact hrenames.floatings
      · exact hrenames.central
      · apply DockTree.Stored.of_children
        · have hframe := hrenames.frame self.nodes.next fun other => h.next_fresh other
          exact hframe.trans ((SlotMap.get_insert _ _ _).trans (if_pos rfl))
        · have hbelow : ∀ child, child = added ∨ child = sub → child.Stored after.nodes := by
            rintro child (rfl | rfl)
            · intro low hlow
              have hkey : low.id ∈ child.ids := mem_ids_iff.mpr ⟨low, hlow, rfl⟩
              rw [hrenames.frame _ fun other => hadded.fresh other _ hkey]
              exact get_insert_of_stored _ (hadded.stored low hlow)
            · intro low hlow
              obtain ⟨owner, howner, hin⟩ := mem_flatMap.mp hsub
              have hlowMem : low ∈ (forest space).subtrees :=
                mem_flatMap.mpr ⟨owner, howner, mem_subtrees_trans hin hlow⟩
              rw [hrenames.nodes space low hlowMem, DockNode.renameChild_of_not_mem]
              rw [node_children]
              intro hmem
              obtain ⟨grand, hgrand, hid⟩ := mem_map.mp hmem
              have hnodup := nodup_of_mem_subtrees (h.tree_nodup howner) hin
              rw [ids_eq, nodup_cons] at hnodup
              exact hnodup.1 (hid ▸ child_id_mem_below hlow hgrand)
          intro child hchild
          apply hbelow
          rcases hordered with ⟨_, _, hleads⟩ | ⟨_, _, hleads⟩
          · simpa [dock, hleads, children] using hchild
          · simpa [dock, hleads, children, or_comm] using hchild
      · intro other low hlow _
        exact hrenames.nodes other low hlow

end DockGraph

end OpenGpui.Docking
