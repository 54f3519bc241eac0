/-
The mutations of tabs, items and whole spaces, the targets of drops, and the errors of the
checked ones.  Each returns whether it claims to have changed the graph, beside the graph it
leaves behind.
-/
import OpenGpui.Docking.EdgeDock

namespace OpenGpui.Docking

/-- The text of a node identifier in messages. -/
def debugNodeId (id : DockNodeId) : String := s!"DockNodeId({id})"

inductive DockGraphDropTarget where
  | center (tabs : DockNodeId)
  | tabBar (tabs : DockNodeId) (insertIndex : Nat)
  | edge (plan : DockEdgeDockPlan)
  | emptySpace
deriving DecidableEq

def DockGraphDropTarget.existingNode : DockGraphDropTarget → Option DockNodeId
  | center tabs | tabBar tabs _ => some tabs
  | edge plan => some plan.targetNode
  | emptySpace => none

structure DockSplitResize where
  split : DockNodeId
  fractions : List Scalar

inductive DockOp where
  | selectTab (tabs : DockNodeId) (item : DockItemId)
  | closeItem (space : DockSpaceId) (item : DockItemId)
  | openItem (space : DockSpaceId) (targetTabs : Option DockNodeId) (item : DockItemId)
      (insertIndex : Option Nat)
  | moveItem (sourceSpace : DockSpaceId) (item : DockItemId) (targetSpace : DockSpaceId)
      (target : DockGraphDropTarget)
  | moveTabs (sourceSpace : DockSpaceId) (sourceTabs : DockNodeId) (targetSpace : DockSpaceId)
      (target : DockGraphDropTarget)
  | moveFloating (sourceSpace : DockSpaceId) (floating : DockNodeId)
      (targetSpace : DockSpaceId) (target : DockGraphDropTarget)
  | floatItemInWindow (sourceSpace : DockSpaceId) (item : DockItemId)
      (targetSpace : DockSpaceId) (bounds : Bounds)
  | floatTabsInWindow (sourceSpace : DockSpaceId) (sourceTabs : DockNodeId)
      (targetSpace : DockSpaceId) (bounds : Bounds)
  | setFloatingBounds (space : DockSpaceId) (floating : DockNodeId) (bounds : Bounds)
  | raiseFloating (space : DockSpaceId) (floating : DockNodeId)
  | setSplitFractions (split : DockNodeId) (fractions : List Scalar)
  | setSplitFractionsMany (updates : List DockSplitResize)

def DockOp.opName : DockOp → String
  | selectTab _ _ => "SelectTab"
  | closeItem _ _ => "CloseItem"
  | openItem _ _ _ _ => "OpenItem"
  | moveItem _ _ _ _ => "MoveItem"
  | moveTabs _ _ _ _ => "MoveTabs"
  | moveFloating _ _ _ _ => "MoveFloating"
  | floatItemInWindow _ _ _ _ => "FloatItemInWindow"
  | floatTabsInWindow _ _ _ _ => "FloatTabsInWindow"
  | setFloatingBounds _ _ _ => "SetFloatingBounds"
  | raiseFloating _ _ => "RaiseFloating"
  | setSplitFractions _ _ => "SetSplitFractions"
  | setSplitFractionsMany _ => "SetSplitFractionsMany"

inductive DockGraphMutationError where
  | tabsNodeNotFound (tabs : DockNodeId)
  | nodeIsNotTabs (node : DockNodeId)
  | splitNodeNotFound (split : DockNodeId)
  | nodeIsNotSplit (node : DockNodeId)
  | itemNotInTabs (tabs : DockNodeId) (item : DockItemId)
  | itemNotFound (space : DockSpaceId) (item : DockItemId)
  | itemAlreadyOpen (item : DockItemId)
  | targetNodeNotInSpace (space : DockSpaceId) (target : DockNodeId)
  | sourceNodeNotInSpace (space : DockSpaceId) (node : DockNodeId)
  | tabsNodeEmpty (tabs : DockNodeId)
  | targetSpaceNotEmpty (space : DockSpaceId)
  | floatingContainerNotFound (space : DockSpaceId) (floating : DockNodeId)
  | cannotMergeFloatingIntoOwnSubtree (floating target : DockNodeId)
  | visibleSplitPayloadCannotDockOverNonEmptyTarget (payload target : DockNodeId)
  | mergeTargetTabsNotUnique (space : DockSpaceId) (tabsLen : Nat)
  | splitFractionsLenMismatch (split : DockNodeId) (childrenLen fractionsLen : Nat)
  | splitTooFewChildren (split : DockNodeId) (childrenLen : Nat)
  | splitFractionInvalid (split : DockNodeId) (index : Nat)
  | duplicateSplitFractionUpdate (split : DockNodeId)
  | mutationInvariantViolation (op : String) (reason : String)
deriving DecidableEq

/-- Whether two fraction lists agree up to the tolerance below which an update is
dropped. -/
def fractionsNearlyEqual (current next : List Scalar) : Bool :=
  current.length == next.length &&
    (current.zip next).all fun entry => decide (|entry.1 - entry.2| ≤ 1 / 10000)

namespace DockGraph

def selectTab (self : DockGraph) (tabs : DockNodeId) (item : DockItemId) : Bool × DockGraph :=
  match self.nodes.get tabs with
  | some (.tabs items selected) =>
    if !items.contains item then (false, self)
    else
      let changed := selected != some item
      let self := self.recordTabSelection tabs item
      (changed, self.setNode tabs (.tabs items (some item)))
  | _ => (false, self)

def updateSplitFractions (self : DockGraph) (split : DockNodeId) (next : List Scalar) :
    Bool × DockGraph :=
  match self.nodes.get split with
  | some (.split axis children fractions) =>
    if children.length < 2 ∨ next.length ≠ children.length then (false, self)
    else
      let next := UiCore.normalizeSplitFractions next
      if fractionsNearlyEqual fractions next then (false, self)
      else (true, self.setNode split (.split axis children next))
  | _ => (false, self)

/-- The tab to fall back to when the closing item is the selected one. -/
def preferredAfterClose (self : DockGraph) (tabs : DockNodeId) (item : DockItemId) :
    Option DockItemId :=
  match self.nodes.get tabs with
  | some (.tabs items selected) =>
    if selected = some item then self.preferredTabAfterClose tabs item items else none
  | _ => none

def selectPreferred (self : DockGraph) (tabs : DockNodeId) (preferred : Option DockItemId) :
    DockGraph :=
  match preferred, self.nodes.get tabs with
  | some preferred, some (.tabs items _) =>
    if items.contains preferred then self.setNode tabs (.tabs items (some preferred)) else self
  | _, _ => self

def closeItem (self : DockGraph) (space : DockSpaceId) (item : DockItemId) : Bool × DockGraph :=
  match self.findItemInSpace space item with
  | none => (false, self)
  | some (tabs, index) =>
    let preferred := self.preferredAfterClose tabs item
    match self.removeItemFromTabs tabs index with
    | (false, self) => (false, self)
    | (true, self) =>
      (true, (self.selectPreferred tabs preferred).simplifySpaceAfterMutation space)

def openItem (self : DockGraph) (space : DockSpaceId) (targetTabs : Option DockNodeId)
    (item : DockItemId) (insertIndex : Option Nat) : Bool × DockGraph :=
  if self.containsItem item then (false, self)
  else
    match targetTabs with
    | some targetTabs =>
      if (self.rootForNodeInSpace space targetTabs).isNone then (false, self)
      else self.insertItemIntoTabsAt targetTabs item insertIndex none
    | none =>
      if (self.root space).isSome || !(self.floatingContainers space).isEmpty then
        (false, self)
      else
        let (tabs, self) := self.insertNode (.tabs [item] (some item))
        (true, self.setRootForEmptySpace space tabs)

/-- Simplifies the spaces a move touched. -/
def simplifySpacesAfterMove (self : DockGraph) (sourceSpace targetSpace : DockSpaceId) :
    DockGraph :=
  let self := self.simplifySpaceAfterMutation sourceSpace
  if sourceSpace ≠ targetSpace then self.simplifySpaceAfterMutation targetSpace else self

def isTabsNode (self : DockGraph) (id : DockNodeId) : Bool :=
  match self.nodes.get id with
  | some (.tabs _ _) => true
  | _ => false

def targetSpaceIsEmptyForItemMove (self : DockGraph) (sourceSpace : DockSpaceId)
    (item : DockItemId) (targetSpace : DockSpaceId) : Bool :=
  if (self.root targetSpace).isSome then false
  else if sourceSpace ≠ targetSpace then (self.floatingContainers targetSpace).isEmpty
  else
    let targetItems := self.collectItemsInSpace targetSpace
    targetItems.isEmpty || targetItems == [item]

def targetSpaceIsEmptyForTabsMove (self : DockGraph) (sourceSpace : DockSpaceId)
    (sourceTabs : DockNodeId) (targetSpace : DockSpaceId) : Bool :=
  if (self.root targetSpace).isSome then false
  else if sourceSpace ≠ targetSpace then (self.floatingContainers targetSpace).isEmpty
  else
    let targetItems := self.collectItemsInSpace targetSpace
    let sourceItems := self.collectItemsInSubtree sourceTabs
    targetItems.isEmpty || (!sourceItems.isEmpty && targetItems == sourceItems)

def targetSpaceIsEmptyForFloatingMove (self : DockGraph) (sourceSpace : DockSpaceId)
    (floating : DockNodeId) (targetSpace : DockSpaceId) : Bool :=
  if (self.root targetSpace).isSome then false
  else if sourceSpace ≠ targetSpace then (self.floatingContainers targetSpace).isEmpty
  else
    let floatings := self.floatingContainers targetSpace
    !floatings.isEmpty && floatings.all fun entry => entry.node == floating

def moveItemToEmptySpace (self : DockGraph) (sourceSpace : DockSpaceId) (item : DockItemId)
    (targetSpace : DockSpaceId) : Bool × DockGraph :=
  match self.findItemInSpace sourceSpace item with
  | none => (false, self)
  | some (sourceTabs, sourceIndex) =>
    match self.removeItemFromTabs sourceTabs sourceIndex with
    | (false, self) => (false, self)
    | (true, self) =>
      let (tabs, self) := self.insertNode (.tabs [item] (some item))
      let self := self.setRootForEmptySpace targetSpace tabs
      let self := self.simplifySpaceAfterMutation sourceSpace
      (true, self.simplifySpaceAfterMutation targetSpace)

def moveItemBetweenSpaces (self : DockGraph) (sourceSpace : DockSpaceId) (item : DockItemId)
    (targetSpace : DockSpaceId) (target : DockGraphDropTarget) : Bool × DockGraph :=
  match self.findItemInSpace sourceSpace item with
  | none => (false, self)
  | some (sourceTabs, sourceIndex) =>
    match target with
    | .center tabs =>
      if sourceSpace = targetSpace ∧ sourceTabs = tabs then (false, self)
      else if (self.rootForNodeInSpace targetSpace tabs).isNone then (false, self)
      else if !self.isTabsNode tabs then (false, self)
      else
        match self.removeItemFromTabs sourceTabs sourceIndex with
        | (false, self) => (false, self)
        | (true, self) =>
          let (ok, self) := self.insertItemIntoTabsAt tabs item none none
          (ok, self.simplifySpacesAfterMove sourceSpace targetSpace)
    | .tabBar tabs insertIndex =>
      let sameStack := sourceSpace = targetSpace ∧ sourceTabs = tabs
      if (self.rootForNodeInSpace targetSpace tabs).isNone then (false, self)
      else if !self.isTabsNode tabs then (false, self)
      else if sameStack ∧ (insertIndex = sourceIndex ∨ insertIndex = sourceIndex + 1) then
        (false, self)
      else
        match self.removeItemFromTabs sourceTabs sourceIndex with
        | (false, self) => (false, self)
        | (true, self) =>
          -- the slot moves left when an earlier tab of the same stack leaves
          let index :=
            if sameStack ∧ sourceIndex < insertIndex then insertIndex - 1 else insertIndex
          let (ok, self) := self.insertItemIntoTabsAt tabs item (some index) none
          (ok, self.simplifySpacesAfterMove sourceSpace targetSpace)
    | .edge plan =>
      match self.removeItemFromTabs sourceTabs sourceIndex with
      | (false, self) => (false, self)
      | (true, self) =>
        let (newTabs, self) := self.insertNode (.tabs [item] (some item))
        match self.applyEdgeDockPlan targetSpace plan newTabs with
        | (false, self) => (false, self)
        | (true, self) => (true, self.simplifySpacesAfterMove sourceSpace targetSpace)
    | .emptySpace =>
      if !self.targetSpaceIsEmptyForItemMove sourceSpace item targetSpace then (false, self)
      else self.moveItemToEmptySpace sourceSpace item targetSpace

def moveTabsToEmptySpace (self : DockGraph) (sourceSpace : DockSpaceId)
    (sourceTabs : DockNodeId) (targetSpace : DockSpaceId) : Bool × DockGraph :=
  match self.takeTabsFromSpace sourceSpace sourceTabs with
  | none => (false, self)
  | some (detached, self) =>
    let (tabs, self) := self.insertDetachedTabs detached
    let self := self.setRootForEmptySpace targetSpace tabs
    (true, self.simplifySpaceAfterMutation targetSpace)

/-- Merges a whole stack into another one, at the end or at a tab position. -/
def moveTabsIntoTabs (self : DockGraph) (sourceSpace : DockSpaceId) (sourceTabs : DockNodeId)
    (targetSpace : DockSpaceId) (tabs : DockNodeId) (insertIndex : Option Nat) :
    Bool × DockGraph :=
  if sourceSpace = targetSpace ∧ sourceTabs = tabs then (false, self)
  else if (self.rootForNodeInSpace targetSpace tabs).isNone then (false, self)
  else if !self.isTabsNode tabs then (false, self)
  else
    match self.takeTabsFromSpaceWithoutSimplify sourceSpace sourceTabs with
    | none => (false, self)
    | some (detached, self) =>
      let (ok, self) := self.insertItemsIntoTabsAt tabs detached.items insertIndex detached.selected
      (ok, self.simplifySpacesAfterMove sourceSpace targetSpace)

def moveTabsBetweenSpaces (self : DockGraph) (sourceSpace : DockSpaceId)
    (sourceTabs : DockNodeId) (targetSpace : DockSpaceId) (target : DockGraphDropTarget) :
    Bool × DockGraph :=
  match target with
  | .center tabs => self.moveTabsIntoTabs sourceSpace sourceTabs targetSpace tabs none
  | .tabBar tabs insertIndex =>
    self.moveTabsIntoTabs sourceSpace sourceTabs targetSpace tabs (some insertIndex)
  | .edge plan =>
    match self.takeTabsFromSpaceWithoutSimplify sourceSpace sourceTabs with
    | none => (false, self)
    | some (detached, self) =>
      let (newTabs, self) := self.insertDetachedTabs detached
      match self.applyEdgeDockPlan targetSpace plan newTabs with
      | (false, self) => (false, self)
      | (true, self) => (true, self.simplifySpacesAfterMove sourceSpace targetSpace)
  | .emptySpace =>
    if !self.targetSpaceIsEmptyForTabsMove sourceSpace sourceTabs targetSpace then
      (false, self)
    else self.moveTabsToEmptySpace sourceSpace sourceTabs targetSpace

def moveRootToEmptySpace (self : DockGraph) (sourceSpace targetSpace : DockSpaceId) :
    Bool × DockGraph :=
  if sourceSpace = targetSpace ∨ (self.root targetSpace).isSome
      ∨ ¬(self.floatingContainers targetSpace).isEmpty then
    (false, self)
  else
    match self.root sourceSpace with
    | none => (false, self)
    | some sourceRoot =>
      let self := self.removeRoot sourceSpace
      let self := self.setRootForEmptySpace targetSpace sourceRoot
      let self := self.simplifySpaceAfterMutation sourceSpace
      (true, self.simplifySpaceAfterMutation targetSpace)

def moveRootTabsToNonEmptySpace (self : DockGraph) (sourceSpace : DockSpaceId)
    (sourceRoot : DockNodeId) (targetSpace : DockSpaceId) (targetTabs : DockNodeId) :
    Bool × DockGraph :=
  if !self.isTabsNode targetTabs then (false, self)
  else if (self.rootForNodeInSpace targetSpace targetTabs).isNone then (false, self)
  else
    match self.takeTabsFromSpaceWithoutSimplify sourceSpace sourceRoot with
    | none => (false, self)
    | some (detached, self) =>
      match self.insertItemsIntoTabsAt targetTabs detached.items none detached.selected with
      | (false, self) => (false, self)
      | (true, self) =>
        let self := self.simplifySpaceAfterMutation sourceSpace
        (true, self.simplifySpaceAfterMutation targetSpace)

def moveRootToNonEmptySpace (self : DockGraph) (sourceSpace targetSpace : DockSpaceId)
    (targetTabs : DockNodeId) : Bool × DockGraph :=
  if sourceSpace = targetSpace then (false, self)
  else
    match self.root sourceSpace with
    | none => (false, self)
    | some sourceRoot =>
      if (self.root targetSpace).isNone then (false, self)
      else
        match self.nodes.get sourceRoot with
        | some (.tabs _ _) =>
          self.moveRootTabsToNonEmptySpace sourceSpace sourceRoot targetSpace targetTabs
        | some (.split _ _ _) | some (.floating _) | none => (false, self)

theorem setRootForEmptySpace_roots (self : DockGraph) (space : DockSpaceId) (root : DockNodeId) :
    (self.setRootForEmptySpace space root).roots = self.roots.insert space root := by
  simp only [setRootForEmptySpace]
  repeat' split
  all_goals rfl

variable {self : DockGraph} {sourceSpace targetSpace : DockSpaceId}

theorem simplifySpaces_root_none
    (hne : sourceSpace ≠ targetSpace) (hnone : self.roots[sourceSpace]? = none) :
    ((self.simplifySpaceAfterMutation sourceSpace).simplifySpaceAfterMutation
      targetSpace).roots[sourceSpace]? = none := by
  rw [simplifySpaceAfterMutation, simplifySpaceStructure_root_ne _ _ hne.symm]
  exact simplifySpaceStructure_root_none _ _ hnone

variable {next : DockGraph}

/-- Moving the root of a space away leaves the space without a root. -/
theorem moveRootToEmptySpace_root
    (h : self.moveRootToEmptySpace sourceSpace targetSpace = (true, next)) :
    self.roots[sourceSpace]? ≠ none ∧ next.roots[sourceSpace]? = none := by
  simp only [moveRootToEmptySpace] at h
  obtain ⟨hguard, h⟩ := of_guard h
  push Not at hguard
  split at h
  · cases h
  · next sourceRoot hroot =>
    rw [root] at hroot
    simp only [Prod.mk.injEq, true_and] at h
    refine ⟨by simp [hroot], ?_⟩
    rw [← h]
    apply simplifySpaces_root_none hguard.1
    rw [setRootForEmptySpace_roots, KeyMap.get_insert, if_neg hguard.1.symm]
    simp [removeRoot]

theorem moveRootToNonEmptySpace_root {targetTabs : DockNodeId}
    (h : self.moveRootToNonEmptySpace sourceSpace targetSpace targetTabs = (true, next)) :
    self.roots[sourceSpace]? ≠ none ∧ next.roots[sourceSpace]? = none := by
  simp only [moveRootToNonEmptySpace] at h
  obtain ⟨hne, h⟩ := of_guard h
  split at h
  · cases h
  · next sourceRoot hroot =>
    refine ⟨by rw [root] at hroot; simp [hroot], ?_⟩
    obtain ⟨_, h⟩ := of_guard h
    split at h
    · simp only [moveRootTabsToNonEmptySpace] at h
      obtain ⟨_, h⟩ := of_guard h
      obtain ⟨_, h⟩ := of_guard h
      split at h
      · cases h
      · next detached taken htake =>
        split at h
        · cases h
        · next inserted hinsert =>
          cases h
          apply simplifySpaces_root_none hne
          have hroots := insertItemsIntoTabsAt_roots taken targetTabs detached.items none
            detached.selected
          rw [hinsert] at hroots
          rw [hroots]
          exact takeTabsFromSpaceWithoutSimplify_root hroot htake
    · cases h
    · cases h
    · cases h

end DockGraph

end OpenGpui.Docking
