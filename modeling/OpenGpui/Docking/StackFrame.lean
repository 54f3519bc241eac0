/-
Tab stacks as the arena stores them: simplification, docking and the sweep after a
mutation leave every stack that still has a place as it was.
-/
import OpenGpui.Docking.OpSteps

namespace OpenGpui.Docking

open SlotMap Option Nat

/-- The same stacks are stored before and after, and no key is handed out twice. -/
structure DockNodes.KeepsTabs (before after : DockNodes) : Prop where
  tabs : ∀ (key : DockNodeId) (items : List DockItemId) (selected : Option DockItemId),
    after.get key = some (.tabs items selected) ↔ before.get key = some (.tabs items selected)
  next : before.next ≤ after.next

/-- A node that is no stack. -/
def DockNode.NoStack (node : DockNode) : Prop := ∀ items selected, node ≠ .tabs items selected

theorem DockNode.NoStack.split {axis : SplitAxis} {children : List DockNodeId}
    {fractions : List Scalar} : (DockNode.split axis children fractions).NoStack :=
  fun _ _ heq => nomatch heq

theorem DockNode.NoStack.floating {child : DockNodeId} : (DockNode.floating child).NoStack :=
  fun _ _ heq => nomatch heq

namespace DockNodes

variable {before middle after nodes : DockNodes}

namespace KeepsTabs

theorem refl (nodes : DockNodes) : KeepsTabs nodes nodes := ⟨fun _ _ _ => Iff.rfl, le_refl _⟩

theorem trans (h : KeepsTabs before middle) (h' : KeepsTabs middle after) :
    KeepsTabs before after :=
  ⟨fun key items selected => (h'.tabs key items selected).trans (h.tabs key items selected),
    le_trans h.next h'.next⟩

/-- Overwriting one node that is no stack by another. -/
theorem set {key : DockNodeId} {old node : DockNode} (hget : nodes.get key = some old)
    (hold : old.NoStack) (hnode : node.NoStack) : KeepsTabs nodes (nodes.set key node) := by
  refine ⟨fun other items selected => ?_, le_refl _⟩
  by_cases heq : key = other
  · subst heq
    rw [get_set_self _ hget, hget, some.injEq, some.injEq]
    exact iff_of_false (hnode items selected) (hold items selected)
  · rw [get_set_ne _ _ heq]

theorem insert {node : DockNode} (hnode : node.NoStack) :
    KeepsTabs nodes (nodes.insert node).2 := by
  refine ⟨fun other items selected => ?_, le_succ _⟩
  rw [get_insert]
  split
  · next heq =>
    rw [← heq, get_next, some.injEq]
    exact iff_of_false (hnode items selected) (by simp)
  · rfl

theorem setFloatingChild (nodes : DockNodes) (node child : DockNodeId) :
    KeepsTabs nodes (nodes.setFloatingChild node child) := by
  rw [DockNodes.setFloatingChild]
  split
  · next hget => exact set hget .floating .floating
  · exact refl nodes

theorem setSplitChildren (nodes : DockNodes) (node : DockNodeId) (children : List DockNodeId)
    (fractions : List Scalar) :
    KeepsTabs nodes (nodes.setSplitChildren node children fractions) := by
  rw [DockNodes.setSplitChildren]
  split
  · next hget => exact set hget .split .split
  · exact refl nodes

theorem settleSplit (nodes : DockNodes) (fuel : Nat) (node : DockNodeId) (axis : SplitAxis)
    (kept : List (DockNodeId × Scalar)) :
    KeepsTabs nodes (nodes.settleSplit fuel node axis kept).2 := by
  simp only [DockNodes.settleSplit]
  split
  · exact refl nodes
  · exact refl nodes
  · split
    · exact refl nodes
    · exact refl nodes
    · exact setSplitChildren _ _ _ _

theorem simplifyChildren {simplify : DockNodeId → DockNodes → Option DockNodeId × DockNodes}
    (hsimplify : ∀ child nodes, KeepsTabs nodes (simplify child nodes).2)
    (children : List (DockNodeId × Scalar)) (nodes : DockNodes) :
    KeepsTabs nodes (DockNodes.simplifyChildren simplify children nodes).2 := by
  induction children generalizing nodes with
  | nil => exact refl nodes
  | cons entry rest ih =>
    obtain ⟨child, fraction⟩ := entry
    have hchild := hsimplify child nodes
    simp only [DockNodes.simplifyChildren]
    split
    · next next heq =>
      rw [heq] at hchild
      exact hchild.trans (ih next)
    · next kept next heq =>
      rw [heq] at hchild
      exact hchild.trans (ih next)

theorem simplifySubtree (fuel : Nat) (node : DockNodeId) (nodes : DockNodes) :
    KeepsTabs nodes (DockNodes.simplifySubtree fuel node nodes).2 := by
  induction fuel generalizing node nodes with
  | zero => exact refl nodes
  | succ fuel ih =>
    simp only [DockNodes.simplifySubtree]
    split
    · exact refl nodes
    · exact refl nodes
    · next child hget =>
      have hchild := ih child nodes
      split
      · next next heq =>
        rw [heq] at hchild
        exact hchild
      · next kept next heq =>
        rw [heq] at hchild
        exact hchild.trans (setFloatingChild _ _ _)
    · exact (simplifyChildren ih _ nodes).trans (settleSplit _ _ _ _ _)

theorem simplifyFloatings (fuel : Nat) (floatings : List DockFloatingContainer)
    (nodes : DockNodes) :
    KeepsTabs nodes (DockNodes.simplifyFloatings fuel floatings nodes).2 := by
  induction floatings generalizing nodes with
  | nil => exact refl nodes
  | cons floating rest ih =>
    have hnode := simplifySubtree fuel floating.node nodes
    simp only [DockNodes.simplifyFloatings]
    split
    · next next heq =>
      rw [heq] at hnode
      exact hnode.trans (ih next)
    · next kept next heq =>
      rw [heq] at hnode
      exact hnode.trans (ih next)

end KeepsTabs

end DockNodes

namespace DockGraph

open DockNodes

variable {self : DockGraph} {space : DockSpaceId}

/-- A later graph keeps the stacks and what is recorded about them. -/
structure KeepsStacks (before after : DockGraph) : Prop where
  tabs : before.nodes.KeepsTabs after.nodes
  history : after.tabSelectionHistory = before.tabSelectionHistory

namespace KeepsStacks

variable {before middle after : DockGraph}

theorem refl (self : DockGraph) : self.KeepsStacks self := ⟨KeepsTabs.refl _, rfl⟩

/-- An edit of the spaces alone. -/
theorem of_eq (hnodes : after.nodes = before.nodes)
    (hhistory : after.tabSelectionHistory = before.tabSelectionHistory) :
    before.KeepsStacks after :=
  ⟨hnodes ▸ KeepsTabs.refl _, hhistory⟩

theorem trans (h : before.KeepsStacks middle) (h' : middle.KeepsStacks after) :
    before.KeepsStacks after :=
  ⟨h.tabs.trans h'.tabs, h'.history.trans h.history⟩

end KeepsStacks

theorem simplifyRoot_keepsTabs (self : DockGraph) (space : DockSpaceId) :
    self.nodes.KeepsTabs (self.simplifyRoot space).2.nodes := by
  simp only [simplifyRoot]
  split
  · exact KeepsTabs.refl _
  · next root hroot =>
    have hsubtree := KeepsTabs.simplifySubtree self.fuel root self.nodes
    split
    · exact hsubtree
    · exact hsubtree

theorem simplifySpaceFloatings_keepsTabs (self : DockGraph) (space : DockSpaceId) :
    self.nodes.KeepsTabs (self.simplifySpaceFloatings space).nodes := by
  simp only [simplifySpaceFloatings]
  split
  · exact KeepsTabs.refl _
  · exact KeepsTabs.simplifyFloatings _ _ _

theorem simplifySpaceStructure_keepsStacks (self : DockGraph) (space : DockSpaceId) :
    self.KeepsStacks (self.simplifySpaceStructure space) := by
  refine ⟨?_, simplifySpaceStructure_tabSelectionHistory _ _⟩
  have hcentral : self.nodes.KeepsTabs ((self.simplifyRoot space).2.simplifyCentral space
      (self.root space) (self.simplifyRoot space).1).nodes := by
    rw [simplifyCentral_nodes]
    exact simplifyRoot_keepsTabs self space
  exact hcentral.trans (simplifySpaceFloatings_keepsTabs _ space)

theorem simplifySpacesAfterMove_keepsStacks (self : DockGraph) (source target : DockSpaceId) :
    self.KeepsStacks (self.simplifySpacesAfterMove source target) := by
  simp only [simplifySpacesAfterMove]
  split
  · exact (simplifySpaceStructure_keepsStacks _ _).trans (simplifySpaceStructure_keepsStacks _ _)
  · exact simplifySpaceStructure_keepsStacks _ _

variable {node : DockNode}

theorem insertNode_keepsStacks (self : DockGraph) (hnode : node.NoStack) :
    self.KeepsStacks (self.insertNode node).2 := ⟨KeepsTabs.insert hnode, rfl⟩

theorem setRootForEmptySpace_keepsStacks (self : DockGraph) (space : DockSpaceId)
    (root : DockNodeId) : self.KeepsStacks (self.setRootForEmptySpace space root) := by
  simp only [setRootForEmptySpace]
  split
  · split
    · exact KeepsStacks.of_eq rfl rfl
    · exact KeepsStacks.of_eq rfl rfl
  · exact KeepsStacks.of_eq rfl rfl

theorem replaceChildInNode_keepsStacks (self : DockGraph) (node old new : DockNodeId) :
    self.KeepsStacks (self.replaceChildInNode node old new).2 := by
  simp only [replaceChildInNode]
  split
  · next hget =>
    split
    · exact KeepsStacks.refl self
    · exact ⟨KeepsTabs.set hget .split .split, rfl⟩
  · next hget =>
    split
    · exact KeepsStacks.refl self
    · exact ⟨KeepsTabs.set hget .floating .floating, rfl⟩
  · exact KeepsStacks.refl self
  · exact KeepsStacks.refl self

theorem replaceNodeInSpaceTree_keepsStacks (self : DockGraph) (space : DockSpaceId)
    (old new : DockNodeId) : self.KeepsStacks (self.replaceNodeInSpaceTree space old new).2 := by
  simp only [replaceNodeInSpaceTree]
  split
  · exact KeepsStacks.of_eq rfl rfl
  · split
    · exact KeepsStacks.of_eq rfl rfl
    · split
      · exact replaceChildInNode_keepsStacks self _ old new
      · exact KeepsStacks.refl self

theorem applyEdgeDockPlan_keepsStacks (self : DockGraph) (space : DockSpaceId)
    (plan : DockEdgeDockPlan) (newChild : DockNodeId) :
    self.KeepsStacks (self.applyEdgeDockPlan space plan newChild).2 := by
  cases plan with
  | insertIntoSplit split zone anchorChild anchorIndex insertIndex sizing scope =>
    simp only [applyEdgeDockPlan]
    split
    · next hget =>
      split
      · exact ⟨KeepsTabs.set hget .split .split, rfl⟩
      · exact KeepsStacks.refl self
    · exact KeepsStacks.refl self
  | wrapTarget target axis zone sizing =>
    exact (insertNode_keepsStacks self .split).trans (replaceNodeInSpaceTree_keepsStacks _ _ _ _)

/-- The sweep leaves every node it does not remove as it was. -/
theorem finalizeCheckedMutation_get {self : DockGraph} {retention : List DockNodeId}
    {key : DockNodeId} (h : (self.finalizeCheckedMutation retention).nodes.get key = some node) :
    self.nodes.get key = some node := by
  rw [finalizeCheckedMutation, pruneNodesNotIn, get_retain] at h
  split at h
  · exact h
  · cases h

variable {forest : DockForest}

/-- A stack with a place survives the sweep as it was stored. -/
theorem Holds.finalize_get_tabs (h : self.Holds forest)
    {tabs : DockNodeId} {items : List DockItemId} {selected : Option DockItemId}
    (hleaf : forest.HasLeaf (tabs, items))
    (hget : self.nodes.get tabs = some (.tabs items selected)) (retention : List DockNodeId) :
    (self.finalizeCheckedMutation retention).nodes.get tabs = some (.tabs items selected) := by
  obtain ⟨space, other, hsub⟩ := DockForest.hasLeaf_iff.mp hleaf
  have hfound := (h.finalizeCheckedMutation retention).get_tabs hsub
  rw [hfound, ← hget, finalizeCheckedMutation_get hfound]

variable {entry : DockTree.Leaf}

/-- A stack that holds an item keeps its place through every simplification. -/
theorem hasLeaf_simplifySpace
    (h : forest.HasLeaf entry) (hne : entry.2 ≠ []) (space : DockSpaceId) :
    (forest.simplifySpace space).HasLeaf entry := by
  obtain ⟨owner, hentry⟩ := h
  refine ⟨owner, ?_⟩
  rw [DockForest.simplifySpace]
  by_cases howner : owner = space
  · subst howner
    rw [Function.update_self, SpaceTrees.simplify_leaves, List.mem_filter]
    exact ⟨hentry, by simpa using hne⟩
  · rwa [Function.update_of_ne howner]

theorem hasLeaf_simplifySpaces
    (h : forest.HasLeaf entry) (hne : entry.2 ≠ []) (spaces : List DockSpaceId) :
    (forest.simplifySpaces spaces).HasLeaf entry := by
  induction spaces generalizing forest with
  | nil => exact h
  | cons space rest ih => exact ih (hasLeaf_simplifySpace h hne space)

end DockGraph

end OpenGpui.Docking
