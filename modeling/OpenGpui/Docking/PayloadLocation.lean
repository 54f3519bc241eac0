/-
Where a locked payload stands in a graph: its original place, the places its items can
be found in now, and the graph that brings it back into the primary space.
-/
import OpenGpui.Docking.OpValidation

namespace OpenGpui.Docking

namespace DockGraph

variable (self : DockGraph) (space : DockSpaceId)

/-- Stacks below the root of a space, then those below its floating containers. -/
def tabsInSpace : List DockNodeId :=
  (self.spaceRoots space).flatMap (self.collectTabsInSubtreeInto self.fuel)

def firstTabsInSubtreeWithin : Nat → DockNodeId → Option DockNodeId
  | 0, _ => none
  | fuel + 1, root =>
    match self.node root with
    | none => none
    | some (.tabs _ _) => some root
    | some (.floating child) => firstTabsInSubtreeWithin fuel child
    | some (.split _ children _) => children.findSome? (firstTabsInSubtreeWithin fuel)

def firstTabsInSubtree (root : DockNodeId) : Option DockNodeId :=
  self.firstTabsInSubtreeWithin self.fuel root

/-- The stack recovery fills: the first one of the central region, otherwise of the root. -/
def recoveryTargetTabs : Option DockNodeId :=
  match ((self.centralRegion space).bind (·.node)).bind self.firstTabsInSubtree with
  | some tabs => some tabs
  | none => (self.root space).bind self.firstTabsInSubtree

end DockGraph

inductive DockLockedPayloadIdentity where
  | item (sourceSpace : DockSpaceId) (sourceTabs : DockNodeId) (item : DockItemId)
  | tabs (sourceSpace : DockSpaceId) (sourceTabs : DockNodeId) (orderedItems : List DockItemId)
  | floating (sourceSpace : DockSpaceId) (floating childRoot : DockNodeId)
      (orderedItems : List DockItemId)
deriving DecidableEq

inductive DockLockedPayloadError where
  | itemNotInTabs (tabs : DockNodeId) (item : DockItemId)
  | dropPayloadMismatch (space : DockSpaceId) (tabs : DockNodeId)
  | graph (error : DockGraphMutationError)

namespace DockLockedPayloadIdentity

def validate (graph : DockGraph) : DockLockedPayloadIdentity → Except DockLockedPayloadError Unit
  | item sourceSpace sourceTabs lockedItem =>
    if (graph.findItemInSpace sourceSpace lockedItem).map (·.1) = some sourceTabs then .ok ()
    else .error (.itemNotInTabs sourceTabs lockedItem)
  | tabs sourceSpace sourceTabs orderedItems =>
    match graph.node sourceTabs with
    | some (.tabs items _) =>
      if graph.rootForNodeInSpace sourceSpace sourceTabs = none ∨ items ≠ orderedItems then
        .error (.dropPayloadMismatch sourceSpace sourceTabs)
      else .ok ()
    | _ => .error (.dropPayloadMismatch sourceSpace sourceTabs)
  | floating sourceSpace lockedNode childRoot orderedItems =>
    if (graph.floatingContainers sourceSpace).all (fun container => container.node != lockedNode)
    then .error (.graph (.floatingContainerNotFound sourceSpace lockedNode))
    else
      match graph.node lockedNode with
      | some (.floating child) =>
        if child ≠ childRoot ∨ graph.collectItemsInSubtree childRoot ≠ orderedItems then
          .error (.dropPayloadMismatch sourceSpace lockedNode)
        else .ok ()
      | _ => .error (.dropPayloadMismatch sourceSpace lockedNode)

/-- The items of the payload, in order. -/
def payloadItems : DockLockedPayloadIdentity → List DockItemId
  | item _ _ lockedItem => [lockedItem]
  | tabs _ _ orderedItems | floating _ _ _ orderedItems => orderedItems

end DockLockedPayloadIdentity

inductive PayloadRecoveryLocation where
  | item (space : DockSpaceId) (tabs : DockNodeId) (index : Nat)
  | tabs (space : DockSpaceId) (tabs : DockNodeId) (start : Nat)
  | floating (space : DockSpaceId) (forestRoot : DockNodeId) (start : Nat)
deriving DecidableEq

inductive PayloadRecoveryPrepareError where
  | authorityReasonMismatch
  | payloadAlreadyCommitted
  | payloadMissing
  | payloadAmbiguous
  | unresolvedEvidenceChanged
deriving DecidableEq

inductive PayloadRecoveryRestoreError where
  | staleAction
  | anchorUnavailable
  | payloadUnresolved
  | payloadMissing
  | payloadAmbiguous
  | graphMutation (error : DockGraphMutationError)

/-- The positions at which a non-empty list of items stands in another one. -/
def windowStarts (orderedItems items : List DockItemId) : List Nat :=
  (List.range (items.length + 1 - orderedItems.length)).filter fun start =>
    (items.drop start).take orderedItems.length == orderedItems

namespace PayloadRecoveryLocation

def space : PayloadRecoveryLocation → DockSpaceId
  | item located _ _ | tabs located _ _ | floating located _ _ => located

variable (graph : DockGraph)

def findItem (item : DockItemId) : List PayloadRecoveryLocation :=
  graph.spaces.flatMap fun space =>
    (graph.tabsInSpace space).flatMap fun tabs =>
      match graph.node tabs with
      | some (.tabs items _) =>
        ((List.range items.length).filter fun index => items[index]? == some item).map
          (.item space tabs)
      | _ => []

variable (orderedItems : List DockItemId)

def findOrderedTabs : List PayloadRecoveryLocation :=
  if orderedItems.isEmpty then []
  else
    graph.spaces.flatMap fun space =>
      (graph.tabsInSpace space).flatMap fun tabs =>
        match graph.node tabs with
        | some (.tabs items _) => (windowStarts orderedItems items).map (.tabs space tabs)
        | _ => []

def findFloating : List PayloadRecoveryLocation :=
  if orderedItems.isEmpty then []
  else
    graph.spaces.flatMap fun space =>
      (graph.spaceRoots space).flatMap fun forestRoot =>
        (windowStarts orderedItems (graph.collectItemsInSubtree forestRoot)).map
          (.floating space forestRoot)

def findAll : DockLockedPayloadIdentity → List PayloadRecoveryLocation
  | .item _ _ lockedItem => findItem graph lockedItem
  | .tabs _ _ orderedItems => findOrderedTabs graph orderedItems
  | .floating _ _ _ orderedItems => findFloating graph orderedItems

def resolveUnique (payload : DockLockedPayloadIdentity) :
    Except PayloadRecoveryRestoreError PayloadRecoveryLocation :=
  match findAll graph payload with
  | [] => .error .payloadMissing
  | [location] => .ok location
  | _ => .error .payloadAmbiguous

end PayloadRecoveryLocation

inductive PayloadSurvivalProof where
  | originalLocation
  | rehomed (location : PayloadRecoveryLocation)
deriving DecidableEq

namespace PayloadSurvivalProof

def resolve (graph : DockGraph) (payload : DockLockedPayloadIdentity) :
    Except PayloadRecoveryPrepareError PayloadSurvivalProof :=
  match payload.validate graph with
  | .ok () => .ok originalLocation
  | .error _ =>
    match PayloadRecoveryLocation.findAll graph payload with
    | [] => .error .payloadMissing
    | [location] => .ok (rehomed location)
    | _ => .error .payloadAmbiguous

def isRehomedInto (space : DockSpaceId) : PayloadSurvivalProof → Bool
  | originalLocation => false
  | rehomed location => location.space == space

end PayloadSurvivalProof

variable (graph : DockGraph)

def uniqueItemSpace (item : DockItemId) : Except PayloadRecoveryRestoreError DockSpaceId :=
  match graph.spaces.filter fun space => (graph.findItemInSpace space item).isSome with
  | [] => .error .payloadMissing
  | [space] => .ok space
  | _ => .error .payloadAmbiguous

def applyProjectedOp (op : DockOp) : Except PayloadRecoveryRestoreError DockGraph :=
  match graph.applyOpChecked op with
  | .ok (_, next) => .ok next
  | .error error => .error (.graphMutation error)

variable (primarySpace : DockSpaceId)

/-- The stack of the primary space that holds the item. -/
def tabsOfItem (item : DockItemId) : Option DockNodeId :=
  (graph.findItemInSpace primarySpace item).map (·.1)

variable (projected : DockGraph × Option DockNodeId)

/-- One turn of the loop over the items: the item goes to the end of the target stack.  An
item that moves into an empty space makes its stack the target of the items after it. -/
def projectItem
    (item : DockItemId) : Except PayloadRecoveryRestoreError (DockGraph × Option DockNodeId) :=
  match projected.2 with
  | some tabs =>
    if tabsOfItem projected.1 primarySpace item = some tabs then .ok projected
    else do
      let sourceSpace ← uniqueItemSpace projected.1 item
      match projected.1.node tabs with
      | some (.tabs items _) =>
        let next ← applyProjectedOp projected.1
          (.moveItem sourceSpace item primarySpace (.tabBar tabs items.length))
        .ok (next, some tabs)
      | _ => .error (.graphMutation (.nodeIsNotTabs tabs))
  | none => do
      let sourceSpace ← uniqueItemSpace projected.1 item
      let next ← applyProjectedOp projected.1 (.moveItem sourceSpace item primarySpace .emptySpace)
      .ok (next, tabsOfItem next primarySpace item)

def restoreFocusItem (payload : DockLockedPayloadIdentity)
    (preferredFocusItem : Option DockItemId) : Option DockItemId :=
  (preferredFocusItem.filter payload.payloadItems.contains).or payload.payloadItems.head?

/-- Selects the focused item, where it stands in the target stack. -/
def projectFocus (focusItem : Option DockItemId) : Except PayloadRecoveryRestoreError DockGraph :=
  match projected.2, focusItem with
  | some tabs, some item =>
    if tabsOfItem projected.1 primarySpace item = some tabs then
      applyProjectedOp projected.1 (.selectTab tabs item)
    else .ok projected.1
  | _, _ => .ok projected.1

def projectRestoreGraph
    (initialTargetTabs : Option DockNodeId) (payload : DockLockedPayloadIdentity)
    (preferredFocusItem : Option DockItemId) :
    Except PayloadRecoveryRestoreError (DockGraph × Option DockItemId) := do
  let focusItem := restoreFocusItem payload preferredFocusItem
  let projected ← payload.payloadItems.foldlM (projectItem primarySpace) (graph, initialTargetTabs)
  let next ← projectFocus primarySpace projected focusItem
  .ok (next, focusItem)

end OpenGpui.Docking
