/-
The retained docking graph: an arena of nodes, one optional root and any number of floating
containers per dock space, the central region of a space and the selection history of each
tab stack.  A query takes a bound on its depth; those of a graph pass the bound `fuel`.
-/
import OpenGpui.Collections
import OpenGpui.UiCore.SplitFractions

namespace OpenGpui.Docking

open SlotMap

/-- Runtime identifier of a node, as the arena hands it out. -/
abbrev DockNodeId := Nat

/-- Logical identifier of a dock space, ordered as its string. -/
abbrev DockSpaceId := String

/-- Stable identifier of a dockable item. -/
abbrev DockItemId := String

inductive SplitAxis where
  | horizontal
  | vertical
deriving DecidableEq

inductive DropZone where
  | center
  | left
  | right
  | top
  | bottom
deriving DecidableEq

namespace DropZone

def axis : DropZone → Option SplitAxis
  | left | right => some .horizontal
  | top | bottom => some .vertical
  | center => none

/-- The zones that put the new child in front of the target. -/
def leads : DropZone → Bool
  | left | top => true
  | _ => false

end DropZone

structure Point where
  x : Scalar
  y : Scalar
deriving DecidableEq

structure Size where
  width : Scalar
  height : Scalar
deriving DecidableEq

structure Bounds where
  origin : Point
  size : Size
deriving DecidableEq

inductive DockNode where
  | split (axis : SplitAxis) (children : List DockNodeId) (fractions : List Scalar)
  | tabs (items : List DockItemId) (selected : Option DockItemId)
  | floating (child : DockNodeId)
deriving DecidableEq

/-- The nodes a stored node refers to. -/
def DockNode.children : DockNode → List DockNodeId
  | split _ children _ => children
  | tabs _ _ => []
  | floating child => [child]

/-- Initial sizing of an edge dock: the share of the target given to the new
child. -/
structure DockEdgeDockSizing where
  newChildShare : Scalar
deriving DecidableEq

namespace DockEdgeDockSizing

def FALLBACK_SHARE : Scalar := 1 / 2

/-- The gap between one and the next larger `f32`. -/
def FLOAT_EPSILON : Scalar := 1 / 8388608

def fromNewChildShare (newChildShare : Scalar) : DockEdgeDockSizing :=
  if newChildShare.isFinite && decide (newChildShare > 0) then
    ⟨newChildShare.clamp FLOAT_EPSILON (1 - FLOAT_EPSILON)⟩
  else ⟨FALLBACK_SHARE⟩

def fallback : DockEdgeDockSizing := fromNewChildShare FALLBACK_SHARE

def isValid (sizing : DockEdgeDockSizing) : Bool :=
  sizing.newChildShare.isFinite && decide (sizing.newChildShare > 0) &&
    decide (sizing.newChildShare < 1)

end DockEdgeDockSizing

inductive DockEdgeDockSizingScope where
  | wholeSplit
  | anchorChild
deriving DecidableEq

inductive DockEdgeDockPlan where
  | insertIntoSplit (split : DockNodeId) (zone : DropZone) (anchorChild : DockNodeId)
      (anchorIndex insertIndex : Nat) (sizing : DockEdgeDockSizing)
      (sizingScope : DockEdgeDockSizingScope)
  | wrapTarget (target : DockNodeId) (axis : SplitAxis) (zone : DropZone)
      (sizing : DockEdgeDockSizing)
deriving DecidableEq

namespace DockEdgeDockPlan

def targetNode : DockEdgeDockPlan → DockNodeId
  | insertIntoSplit split _ _ _ _ _ _ => split
  | wrapTarget target _ _ _ => target

def dropZone : DockEdgeDockPlan → DropZone
  | insertIntoSplit _ zone _ _ _ _ _ => zone
  | wrapTarget _ _ zone _ => zone

end DockEdgeDockPlan

structure DockFloatingContainer where
  node : DockNodeId
  bounds : Bounds
deriving DecidableEq

/-- Central region semantics of a dock space.  The region is metadata beside the
tree, so an empty region needs no empty tab stack. -/
structure DockCentralRegion where
  node : Option DockNodeId
  keepAliveWhenEmpty : Bool
  passthroughWhenEmpty : Bool
deriving DecidableEq

/-- Selection stamps of one tab stack. -/
structure DockTabSelectionState where
  nextStamp : Nat
  selectedStampsByItem : KeyMap DockItemId Nat
deriving DecidableEq

def DockTabSelectionState.default : DockTabSelectionState := ⟨0, ∅⟩

def U64_MAX : Nat := 2 ^ 64 - 1

/-- Addition on 64-bit counters that stops at the largest value. -/
def saturatingAddU64 (a b : Nat) : Nat := min (a + b) U64_MAX

abbrev DockNodes := SlotMap DockNode

structure DockGraph where
  nodes : DockNodes
  roots : KeyMap DockSpaceId DockNodeId
  floatings : KeyMap DockSpaceId (List DockFloatingContainer)
  centralRegions : KeyMap DockSpaceId DockCentralRegion
  tabSelectionHistory : KeyMap DockNodeId DockTabSelectionState

/-- A mutation that reports a change has passed its guard. -/
theorem of_guard {α : Type} {c : Prop} [Decidable c] {unchanged next : α} {rest : Bool × α}
    (h : (if c then (false, unchanged) else rest) = (true, next)) : ¬c ∧ rest = (true, next) := by
  split at h
  · cases h
  · next hpasses => exact ⟨hpasses, h⟩

namespace DockGraph

def new : DockGraph := ⟨empty, ∅, ∅, ∅, ∅⟩

/-- The scalars are numbers here; floats that are not are set apart in `matchesExactlyOver`. -/
def matchesExactly (self other : DockGraph) : Bool :=
  self.nodes.len == other.nodes.len
    && self.nodes.toList.all (fun entry => other.nodes.get entry.1 == some entry.2)
    && decide (self.roots = other.roots)
    && decide (self.floatings = other.floatings)
    && decide (self.centralRegions = other.centralRegions)
    && decide (self.tabSelectionHistory = other.tabSelectionHistory)

/-- An exact match compares everything but the keys the arena will hand out next. -/
theorem matchesExactly_iff (self other : DockGraph) : self.matchesExactly other = true ↔
      self.nodes.entries = other.nodes.entries ∧ self.roots = other.roots ∧
        self.floatings = other.floatings ∧ self.centralRegions = other.centralRegions ∧
        self.tabSelectionHistory = other.tabSelectionHistory := by
  simp only [matchesExactly, Bool.and_eq_true, beq_iff_eq, decide_eq_true_eq,
    List.all_eq_true, Prod.forall, mem_toList_iff, and_assoc]
  constructor
  · rintro ⟨hlen, hsub, hrest⟩
    exact ⟨entries_eq_of_forall_mem hlen hsub, hrest⟩
  · rintro ⟨hentries, hrest⟩
    refine ⟨by rw [len, len, hentries], ?_, hrest⟩
    intro key value hget
    rw [SlotMap.get, ← hentries]
    exact hget

variable (self : DockGraph)

theorem matchesExactly_refl : self.matchesExactly self = true :=
  (matchesExactly_iff _ _).mpr ⟨rfl, rfl, rfl, rfl, rfl⟩

theorem matchesExactly_trans {first second third : DockGraph}
    (h : first.matchesExactly second = true) (h' : second.matchesExactly third = true) :
    first.matchesExactly third = true := by
  obtain ⟨hnodes, hroots, hfloatings, hcentral, hhistory⟩ := (matchesExactly_iff _ _).mp h
  obtain ⟨hnodes', hroots', hfloatings', hcentral', hhistory'⟩ := (matchesExactly_iff _ _).mp h'
  exact (matchesExactly_iff _ _).mpr ⟨hnodes.trans hnodes', hroots.trans hroots',
    hfloatings.trans hfloatings', hcentral.trans hcentral', hhistory.trans hhistory'⟩

/-- The source recurses over the arena without a bound, which ends on every tree;
no path of a tree visits more nodes than the arena stores. -/
def fuel : Nat := self.nodes.len + 1

def insertNode (node : DockNode) : DockNodeId × DockGraph :=
  let (id, nodes) := self.nodes.insert node
  (id, { self with nodes := nodes })

variable (tabs : DockNodeId)

def recordTabSelection (item : DockItemId) : DockGraph :=
  let state := (self.tabSelectionHistory[tabs]?).getD .default
  let stamp := state.nextStamp
  { self with
    tabSelectionHistory := self.tabSelectionHistory.insert tabs
      ⟨saturatingAddU64 state.nextStamp 1, state.selectedStampsByItem.insert item stamp⟩ }

@[simp] theorem recordTabSelection_nodes
    (item : DockItemId) : (self.recordTabSelection tabs item).nodes = self.nodes := rfl

/-- The later of two stamped items; the right one wins a tie. -/
def laterSelection (best : Option (DockItemId × Nat)) (candidate : DockItemId × Nat) :
    Option (DockItemId × Nat) :=
  match best with
  | none => some candidate
  | some current => if current.2 ≤ candidate.2 then some candidate else some current

def preferredTabAfterClose (closingItem : DockItemId)
    (items : List DockItemId) : Option DockItemId := do
  let state ← self.tabSelectionHistory[tabs]?
  let candidates := state.selectedStampsByItem.toList.filter
    fun entry => entry.1 != closingItem && items.contains entry.1
  (candidates.foldl laterSelection none).map Prod.fst

def takeTabSelectionState : DockTabSelectionState × DockGraph :=
  ((self.tabSelectionHistory[tabs]?).getD .default,
    { self with tabSelectionHistory := self.tabSelectionHistory.erase tabs })

def restoreTabSelectionState (state : DockTabSelectionState) : DockGraph :=
  if state.selectedStampsByItem.isEmpty then self
  else { self with tabSelectionHistory := self.tabSelectionHistory.insert tabs state }

def node (id : DockNodeId) : Option DockNode := self.nodes.get id

variable (space : DockSpaceId)

def setRoot (root : DockNodeId) : DockGraph := { self with roots := self.roots.insert space root }

def setRootForEmptySpace (root : DockNodeId) : DockGraph :=
  let rooted := self.setRoot space root
  match rooted.centralRegions[space]? with
  | some central =>
    if central.keepAliveWhenEmpty && central.node.isNone then
      { rooted with
        centralRegions := rooted.centralRegions.insert space { central with node := some root } }
    else rooted
  | none => rooted

def root : Option DockNodeId := self.roots[space]?

def removeRoot : DockGraph := { self with roots := self.roots.erase space }

/-- Every space the graph knows, in key order and without repetition. -/
def spaces : List DockSpaceId :=
  let known := self.roots.keys ++ self.floatings.keys ++ self.centralRegions.keys
  (KeyMap.ofPairs (known.map fun space => (space, ()))).keys

def floatingContainers : List DockFloatingContainer := (self.floatings[space]?).getD []

def floatingContainer (floating : DockNodeId) :
    Option DockFloatingContainer := do
  let containers ← self.floatings[space]?
  containers.find? fun container => container.node == floating

/-- Appends a container to the list of a space, creating the list if needed. -/
def pushFloatingContainer (container : DockFloatingContainer) : DockGraph :=
  { self with
    floatings := self.floatings.insert space (self.floatingContainers space ++ [container]) }

def centralRegion : Option DockCentralRegion := self.centralRegions[space]?

def setCentralRegion (central : DockCentralRegion) : DockGraph :=
  { self with centralRegions := self.centralRegions.insert space central }

variable (self : DockGraph)

def collectItemsInSubtreeInto : Nat → DockNodeId → List DockItemId
  | 0, _ => []
  | fuel + 1, root =>
    match self.nodes.get root with
    | none => []
    | some (.tabs items _) => items
    | some (.floating child) => collectItemsInSubtreeInto fuel child
    | some (.split _ children _) => children.flatMap (collectItemsInSubtreeInto fuel)

variable (root : DockNodeId)

def collectItemsInSubtree : List DockItemId := self.collectItemsInSubtreeInto self.fuel root

def collectTabsInSubtreeInto : Nat → DockNodeId → List DockNodeId
  | 0, _ => []
  | fuel + 1, root =>
    match self.nodes.get root with
    | none => []
    | some (.tabs _ _) => [root]
    | some (.floating child) => collectTabsInSubtreeInto fuel child
    | some (.split _ children _) => children.flatMap (collectTabsInSubtreeInto fuel)

/-- The tab and its position, for the first stack in tree order that holds the item. -/
def findItemInSubtreeWithin (item : DockItemId) : Nat → DockNodeId → Option (DockNodeId × Nat)
  | 0, _ => none
  | fuel + 1, root =>
    match self.nodes.get root with
    | none => none
    | some (.tabs items _) =>
      (items.findIdx? (· == item)).map fun index => (root, index)
    | some (.floating child) => findItemInSubtreeWithin item fuel child
    | some (.split _ children _) => children.findSome? (findItemInSubtreeWithin item fuel)

def findItemInSubtree (item : DockItemId) : Option (DockNodeId × Nat) :=
  self.findItemInSubtreeWithin item self.fuel root

def subtreeContainsWithin (target : DockNodeId) : Nat → DockNodeId → Bool
  | 0, _ => false
  | fuel + 1, root =>
    root == target || match self.nodes.get root with
      | none => false
      | some (.tabs _ _) => false
      | some (.floating child) => subtreeContainsWithin target fuel child
      | some (.split _ children _) => children.any (subtreeContainsWithin target fuel)

def subtreeContains (root target : DockNodeId) : Bool :=
  self.subtreeContainsWithin target self.fuel root

def isVisibleSplitPayloadWithin : Nat → DockNodeId → Bool
  | 0, _ => false
  | fuel + 1, root =>
    match self.nodes.get root with
    | some (.split _ _ _) => true
    | some (.floating child) => isVisibleSplitPayloadWithin fuel child
    | some (.tabs _ _) | none => false

def isVisibleSplitPayload : Bool := self.isVisibleSplitPayloadWithin self.fuel root

variable (space : DockSpaceId)

/-- The top nodes of a space: its root, then its floating containers in order. -/
def spaceRoots : List DockNodeId :=
  (self.root space).toList ++ (self.floatingContainers space).map (·.node)

def collectItemsInSpace : List DockItemId :=
  (self.spaceRoots space).flatMap self.collectItemsInSubtree

def findItemInSpace (item : DockItemId) : Option (DockNodeId × Nat) :=
  (self.spaceRoots space).findSome? fun root => self.findItemInSubtree root item

def containsItem (item : DockItemId) : Bool :=
  self.spaces.any fun space => (self.findItemInSpace space item).isSome

/-- Stacks below the root of a space; floating containers are left out. -/
def rootTabsInSpace : List DockNodeId :=
  match self.root space with
  | some root => self.collectTabsInSubtreeInto self.fuel root
  | none => []

def rootForNodeInSpace (target : DockNodeId) : Option DockNodeId :=
  (self.spaceRoots space).find? fun root => self.subtreeContains root target

def rootSubtreeContains (target : DockNodeId) : Bool :=
  match self.root space with
  | some root => self.subtreeContains root target
  | none => false

def selectedItem (items : List DockItemId) (selected : Option DockItemId) : Option DockItemId :=
  selected.filter items.contains

def selectedItemInTabs (tabs : DockNodeId) : Option DockItemId :=
  match self.nodes.get tabs with
  | some (.tabs items selected) => selectedItem items selected
  | _ => none

end DockGraph

end OpenGpui.Docking
