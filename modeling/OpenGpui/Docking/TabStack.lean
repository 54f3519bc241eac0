/-
Taking items out of tab stacks and putting them into others.  A mutation that
reports through a flag returns the flag beside the graph it leaves behind.
-/
import OpenGpui.Docking.Canonical

namespace OpenGpui.Docking

/-- A tab stack taken out of the tree together with its selection history. -/
structure DetachedTabs where
  items : List DockItemId
  selected : Option DockItemId
  selectionHistory : DockTabSelectionState

/-- Inserts one after another the items the list does not hold yet. -/
def insertMissingItems : List DockItemId → Nat → List DockItemId → List DockItemId
  | [], _, items => items
  | item :: rest, insertAt, items =>
    if items.contains item then insertMissingItems rest insertAt items
    else insertMissingItems rest (insertAt + 1) (items.insertIdx insertAt item)

namespace DockGraph

variable (self : DockGraph) (id : DockNodeId)

def setNode (node : DockNode) : DockGraph := { self with nodes := self.nodes.set id node }

@[simp] theorem setNode_nodes (node : DockNode) :
    (self.setNode id node).nodes = self.nodes.set id node := rfl

variable (space : DockSpaceId)

def takeTabsFromSpaceWithSimplify (tabs : DockNodeId)
    (simplify : Bool) : Option (DetachedTabs × DockGraph) :=
  if (self.rootForNodeInSpace space tabs).isNone then none
  else
    match self.nodes.get tabs with
    | some (.tabs items selected) =>
      if items.isEmpty then none
      else
        let (selectionHistory, self) := self.takeTabSelectionState tabs
        let self := self.setNode tabs (.tabs [] none)
        let self := if self.root space = some tabs then self.removeRoot space else self
        let self := if simplify then self.simplifySpaceAfterMutation space else self
        some (⟨items, selected, selectionHistory⟩, self)
    | _ => none

def takeTabsFromSpace (tabs : DockNodeId) : Option (DetachedTabs × DockGraph) :=
  self.takeTabsFromSpaceWithSimplify space tabs true

def takeTabsFromSpaceWithoutSimplify (tabs : DockNodeId) : Option (DetachedTabs × DockGraph) :=
  self.takeTabsFromSpaceWithSimplify space tabs false

/-- Taking the root stack of a space leaves the space without a root. -/
theorem takeTabsFromSpaceWithoutSimplify_root {self after : DockGraph} {space : DockSpaceId}
    {tabs : DockNodeId} {detached : DetachedTabs} (hroot : self.root space = some tabs)
    (h : self.takeTabsFromSpaceWithoutSimplify space tabs = some (detached, after)) :
    after.roots[space]? = none := by
  simp only [takeTabsFromSpaceWithoutSimplify, takeTabsFromSpaceWithSimplify] at h
  split at h
  · cases h
  · split at h
    · split at h
      · cases h
      · have hkept : ((self.takeTabSelectionState tabs).2.setNode tabs (.tabs [] none)).root space =
            some tabs := hroot
        simp only [hkept, if_true, Bool.false_eq_true, if_false, Option.some.injEq,
          Prod.mk.injEq] at h
        rw [← h.2]
        simp [removeRoot]
    · cases h

def insertDetachedTabs (detached : DetachedTabs) : DockNodeId × DockGraph :=
  let (tabs, self) := self.insertNode (.tabs detached.items detached.selected)
  (tabs, self.restoreTabSelectionState tabs detached.selectionHistory)

variable (tabs : DockNodeId) (item : DockItemId)

def insertItemIntoTabsAt
    (index : Option Nat) (selectedInGroup : Option DockItemId) : Bool × DockGraph :=
  match self.nodes.get tabs with
  | some (.tabs items _) =>
    let items :=
      if items.contains item then items
      else
        match index with
        | some index => items.insertIdx (min index items.length) item
        | none => items ++ [item]
    let self := self.setNode tabs (.tabs items (some item))
    (true, self.recordTabSelection tabs (selectedInGroup.getD item))
  | _ => (false, self)

def insertItemsIntoTabsAt (nextItems : List DockItemId)
    (index : Option Nat) (selectedInGroup : Option DockItemId) : Bool × DockGraph :=
  if nextItems.isEmpty then (true, self)
  else
    match self.nodes.get tabs with
    | some (.tabs items selected) =>
      let insertAt := min (index.getD items.length) items.length
      let items := insertMissingItems nextItems insertAt items
      match selectedInGroup with
      | some selectedItem =>
        let self := self.setNode tabs (.tabs items (some selectedItem))
        (true, self.recordTabSelection tabs selectedItem)
      | none => (true, self.setNode tabs (.tabs items selected))
    | _ => (false, self)

@[simp] theorem insertItemsIntoTabsAt_roots
    (nextItems : List DockItemId) (index : Option Nat) (selectedInGroup : Option DockItemId) :
    (self.insertItemsIntoTabsAt tabs nextItems index selectedInGroup).2.roots = self.roots := by
  simp only [insertItemsIntoTabsAt]
  repeat' split
  all_goals rfl

/-- Forgets the stamp of an item; a stack without stamps has no history. -/
def forgetTabSelection : DockGraph :=
  match self.tabSelectionHistory[tabs]? with
  | none => self
  | some state =>
    let stamps := state.selectedStampsByItem.erase item
    { self with
      tabSelectionHistory :=
        if stamps.isEmpty then self.tabSelectionHistory.erase tabs
        else self.tabSelectionHistory.insert tabs ⟨state.nextStamp, stamps⟩ }

def removeItemFromTabs (index : Nat) : Bool × DockGraph :=
  match self.nodes.get tabs with
  | some (.tabs items selected) =>
    match items[index]? with
    | none => (false, self)
    | some removed =>
      let items := items.eraseIdx index
      let selected :=
        if items.isEmpty then none
        else if selected = some removed then items.head?
        else selected
      (true, (self.setNode tabs (.tabs items selected)).forgetTabSelection tabs removed)
  | _ => (false, self)

end DockGraph

end OpenGpui.Docking
