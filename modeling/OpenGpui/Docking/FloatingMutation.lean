/-
The mutations of floating containers.
-/
import OpenGpui.Docking.Mutation

namespace OpenGpui.Docking

/-- The list with the entry at `index` moved to its end. -/
def moveToEnd {α : Type} (entries : List α) (index : Nat) : List α :=
  entries.eraseIdx index ++ (entries[index]?).toList

namespace DockGraph

variable (self : DockGraph) (space : DockSpaceId)

/-- Floats a stored subtree in a new container of a space. -/
def pushFloating (child : DockNodeId) (bounds : Bounds) : DockGraph :=
  let (floating, self) := self.insertNode (.floating child)
  self.pushFloatingContainer space ⟨floating, bounds⟩

variable (sourceSpace : DockSpaceId)

def floatItemInWindow (item : DockItemId)
    (targetSpace : DockSpaceId) (bounds : Bounds) : Bool × DockGraph :=
  match self.findItemInSpace sourceSpace item with
  | none => (false, self)
  | some (sourceTabs, sourceIndex) =>
    match self.removeItemFromTabs sourceTabs sourceIndex with
    | (false, self) => (false, self)
    | (true, self) =>
      let (tabs, self) := self.insertNode (.tabs [item] (some item))
      let self := self.pushFloating targetSpace tabs bounds
      let self := self.simplifySpaceAfterMutation sourceSpace
      (true, self.simplifySpaceAfterMutation targetSpace)

def floatTabsInWindow (sourceTabs : DockNodeId)
    (targetSpace : DockSpaceId) (bounds : Bounds) : Bool × DockGraph :=
  match self.takeTabsFromSpace sourceSpace sourceTabs with
  | none => (false, self)
  | some (detached, self) =>
    let (tabs, self) := self.insertDetachedTabs detached
    let self := self.pushFloating targetSpace tabs bounds
    (true, self.simplifySpaceAfterMutation targetSpace)

variable (floating : DockNodeId)

def setFloatingBounds (bounds : Bounds) : Bool × DockGraph :=
  match self.floatings[space]? with
  | none => (false, self)
  | some floatings =>
    match floatings.findIdx? fun entry => entry.node == floating with
    | none => (false, self)
    | some index =>
      match floatings[index]? with
      | none => (false, self)
      | some container =>
        if container.bounds = bounds then (false, self)
        else
          (true, { self with
            floatings := self.floatings.insert space
              (floatings.set index { container with bounds := bounds }) })

def raiseFloating : Bool × DockGraph :=
  match self.floatings[space]? with
  | none => (false, self)
  | some floatings =>
    match floatings.findIdx? fun entry => entry.node == floating with
    | none => (false, self)
    | some index =>
      if index + 1 = floatings.length then (false, self)
      else
        (true, { self with
          floatings := self.floatings.insert space (moveToEnd floatings index) })

def takeFloatingChildFromSpace : Option (DockNodeId × DockGraph) :=
  match self.nodes.get floating with
  | some (.floating child) =>
    match self.floatings[space]? with
    | none => none
    | some floatings =>
      match floatings.findIdx? fun entry => entry.node == floating with
      | none => none
      | some index =>
        some (child, { self with
          floatings := self.floatings.insert space (floatings.eraseIdx index) })
  | _ => none

def mergeFloatingTabsIntoTabs
    (floating floatingTabs : DockNodeId) (targetSpace : DockSpaceId) (targetTabs : DockNodeId)
    (insertIndex : Option Nat) : Bool × DockGraph :=
  if !self.isTabsNode targetTabs then (false, self)
  else
    match self.nodes.get floatingTabs with
    | some (.tabs sourceItems _) =>
      if sourceItems.isEmpty then (false, self)
      else
        let sourceSelected := self.selectedItemInTabs floatingTabs
        match self.takeFloatingChildFromSpace sourceSpace floating with
        | none => (false, self)
        | some (_, self) =>
          match self.insertItemsIntoTabsAt targetTabs sourceItems insertIndex
              sourceSelected with
          | (false, self) => (false, self)
          | (true, self) => (true, self.simplifySpacesAfterMove sourceSpace targetSpace)
    | _ => (false, self)

def moveFloatingToEmptySpace
    (floating : DockNodeId) (targetSpace : DockSpaceId) : Bool × DockGraph :=
  if !self.targetSpaceIsEmptyForFloatingMove sourceSpace floating targetSpace then (false, self)
  else
    match self.takeFloatingChildFromSpace sourceSpace floating with
    | none => (false, self)
    | some (child, self) =>
      let self := self.setRootForEmptySpace targetSpace child
      (true, self.simplifySpacesAfterMove sourceSpace targetSpace)

/-- Whether a drop target names a node that is gone from the target space or lies
inside the floating container being moved. -/
def rejectsFloatingTarget
    (floating : DockNodeId) (targetSpace : DockSpaceId) (target : DockGraphDropTarget) : Bool :=
  match target.existingNode with
  | none => false
  | some targetNode =>
    (self.rootForNodeInSpace targetSpace targetNode).isNone
      || (decide (sourceSpace = targetSpace) && self.subtreeContains floating targetNode)

def moveFloatingBetweenSpaces
    (floating : DockNodeId) (targetSpace : DockSpaceId) (target : DockGraphDropTarget) :
    Bool × DockGraph :=
  if (self.floatingContainer sourceSpace floating).isNone then (false, self)
  else if self.rejectsFloatingTarget sourceSpace floating targetSpace target then (false, self)
  else
    match target with
    | .center tabs =>
      match self.nodes.get floating with
      | some (.floating child) =>
        if self.isVisibleSplitPayload child then (false, self)
        else if !self.isTabsNode child then (false, self)
        else self.mergeFloatingTabsIntoTabs sourceSpace floating child targetSpace tabs none
      | _ => (false, self)
    | .tabBar tabs insertIndex =>
      match self.nodes.get floating with
      | some (.floating child) =>
        if !self.isTabsNode child then (false, self)
        else
          self.mergeFloatingTabsIntoTabs sourceSpace floating child targetSpace tabs
            (some insertIndex)
      | _ => (false, self)
    | .edge plan =>
      match self.takeFloatingChildFromSpace sourceSpace floating with
      | none => (false, self)
      | some (child, self) =>
        match self.applyEdgeDockPlan targetSpace plan child with
        | (false, self) => (false, self)
        | (true, self) => (true, self.simplifySpacesAfterMove sourceSpace targetSpace)
    | .emptySpace => self.moveFloatingToEmptySpace sourceSpace floating targetSpace

def mergeSpaceFloatingForestInto (sourceSpace targetSpace : DockSpaceId) : Bool × DockGraph :=
  if sourceSpace = targetSpace then (false, self)
  else
    match self.floatings[sourceSpace]? with
    | none => (false, self)
    | some sourceFloatings =>
      let self := { self with floatings := self.floatings.erase sourceSpace }
      if sourceFloatings.isEmpty then (false, self)
      else
        let self := { self with
          floatings := self.floatings.insert targetSpace
            (self.floatingContainers targetSpace ++ sourceFloatings) }
        let self := self.simplifySpaceAfterMutation sourceSpace
        (true, self.simplifySpaceAfterMutation targetSpace)

/-- Merging the containers of a space away leaves it without any; its root, if it has
none, stays absent. -/
theorem mergeSpaceFloatingForestInto_floatings {self next : DockGraph}
    {sourceSpace targetSpace : DockSpaceId}
    (h : self.mergeSpaceFloatingForestInto sourceSpace targetSpace = (true, next)) :
    self.floatings[sourceSpace]? ≠ none ∧ next.floatings[sourceSpace]? = none ∧
      (self.roots[sourceSpace]? = none → next.roots[sourceSpace]? = none) := by
  simp only [mergeSpaceFloatingForestInto] at h
  obtain ⟨hne, h⟩ := of_guard h
  split at h
  · cases h
  · next sourceFloatings hsource =>
    obtain ⟨_, h⟩ := of_guard h
    simp only [Prod.mk.injEq, true_and] at h
    refine ⟨by simp [hsource], ?_, ?_⟩
    · rw [← h, simplifySpaceAfterMutation, simplifySpaceStructure_floatings_ne _ _ (Ne.symm hne)]
      apply simplifySpaceStructure_floatings_none
      rw [KeyMap.get_insert, if_neg (Ne.symm hne)]
      simp
    · intro hroot
      rw [← h]
      exact simplifySpaces_root_none hne hroot

end DockGraph

end OpenGpui.Docking
