/-
Serializable layouts: exporting the spaces of a graph under consecutive numbers
and building a graph from a validated layout.
-/
import OpenGpui.Docking.Validation

namespace OpenGpui.Docking

def DOCK_LAYOUT_VERSION : Nat := 2

def U32_MAX : Nat := 2 ^ 32 - 1

/-- Addition on 32-bit counters that stops at the largest value. -/
def saturatingAddU32 (a b : Nat) : Nat := min (a + b) U32_MAX

structure DockLayoutRect where
  x : Scalar
  y : Scalar
  width : Scalar
  height : Scalar
deriving DecidableEq

namespace DockLayoutRect

def fromBounds (bounds : Bounds) : DockLayoutRect :=
  ⟨bounds.origin.x, bounds.origin.y, bounds.size.width, bounds.size.height⟩

end DockLayoutRect

structure DockLayoutFloatingContainer where
  root : Nat
  bounds : DockLayoutRect
deriving DecidableEq

structure DockLayoutCentralRegion where
  node : Option Nat
  keepAliveWhenEmpty : Bool
  passthroughWhenEmpty : Bool
deriving DecidableEq

structure DockLayoutSpace where
  id : DockSpaceId
  root : Option Nat
  floatings : List DockLayoutFloatingContainer
  central : Option DockLayoutCentralRegion
deriving DecidableEq

inductive DockLayoutNode where
  | split (id : Nat) (axis : SplitAxis) (children : List Nat) (fractions : List Scalar)
  | tabs (id : Nat) (items : List DockItemId) (selected : Option DockItemId)
deriving DecidableEq

structure DockLayout where
  layoutVersion : Nat
  spaces : List DockLayoutSpace
  nodes : List DockLayoutNode
deriving DecidableEq

namespace DockLayout

def fromRawParts (spaces : List DockLayoutSpace) (nodes : List DockLayoutNode) : DockLayout :=
  ⟨DOCK_LAYOUT_VERSION, spaces, nodes⟩

end DockLayout

/-- Numbers handed out so far and the nodes written so far, children first. -/
structure LayoutExporter where
  nextId : Nat
  ids : KeyMap DockNodeId Nat
  nodes : List DockLayoutNode

namespace LayoutExporter

def default : LayoutExporter := ⟨0, ∅, []⟩

/-- Runs a state-passing step on each element in order. -/
def mapAccum {α β σ : Type} (step : σ → α → β × σ) : List α → σ → List β × σ
  | [], state => ([], state)
  | entry :: rest, state =>
    let (value, state) := step state entry
    let (values, state) := mapAccum step rest state
    (value :: values, state)

def exportSubtree (nodes : DockNodes) : Nat → LayoutExporter → DockNodeId → Nat × LayoutExporter
  | 0, self, _ => (0, self)
  | fuel + 1, self, node =>
    match self.ids[node]? with
    | some id => (id, self)
    | none =>
      let id := saturatingAddU32 self.nextId 1
      let self := { self with nextId := id, ids := self.ids.insert node id }
      match nodes.get node with
      | none => (id, self)
      | some (.tabs items selected) =>
        (id, { self with nodes := self.nodes ++ [.tabs id items selected] })
      | some (.floating child) => exportSubtree nodes fuel self child
      | some (.split axis children fractions) =>
        let (children, self) := mapAccum (exportSubtree nodes fuel) children self
        (id, { self with nodes := self.nodes ++ [.split id axis children fractions] })

theorem mapAccum_congr {α β σ : Type} {first second : σ → α → β × σ}
    (h : ∀ state entry, first state entry = second state entry) (entries : List α)
    (state : σ) : mapAccum first entries state = mapAccum second entries state := by
  have heq : first = second := funext fun state => funext fun entry => h state entry
  rw [heq]

/-- Exporting reads the arena through its lookups only. -/
theorem exportSubtree_congr {first second : DockNodes} (h : ∀ id, first.get id = second.get id)
    (fuel : Nat) (self : LayoutExporter) (node : DockNodeId) :
    exportSubtree first fuel self node = exportSubtree second fuel self node := by
  induction fuel generalizing self node with
  | zero => rfl
  | succ fuel ih =>
    simp only [exportSubtree, h, ih, mapAccum_congr fun state entry => ih state entry]

end LayoutExporter

namespace DockGraph

variable (self : DockGraph)

def floatingChild (node : DockNodeId) : Option DockNodeId :=
  match self.node node with
  | none => none
  | some (.floating child) => some child
  | some _ => some node

variable (exporter : LayoutExporter)

def exportRoot (root : Option DockNodeId) : Option Nat × LayoutExporter :=
  match root with
  | none => (none, exporter)
  | some root =>
    let (id, exporter) := LayoutExporter.exportSubtree self.nodes self.fuel exporter root
    (some id, exporter)

/-- A container whose node is gone is not exported. -/
def exportFloating
    (floating : DockFloatingContainer) : Option DockLayoutFloatingContainer × LayoutExporter :=
  match self.floatingChild floating.node with
  | none => (none, exporter)
  | some child =>
    let (root, exporter) := LayoutExporter.exportSubtree self.nodes self.fuel exporter child
    (some ⟨root, .fromBounds floating.bounds⟩, exporter)

def exportCentral
    (central : Option DockCentralRegion) : Option DockLayoutCentralRegion × LayoutExporter :=
  match central with
  | none => (none, exporter)
  | some central =>
    let (node, exporter) := self.exportRoot exporter central.node
    (some ⟨node, central.keepAliveWhenEmpty, central.passthroughWhenEmpty⟩, exporter)

def exportSpace (space : DockSpaceId) : DockLayoutSpace × LayoutExporter :=
  let (root, exporter) := self.exportRoot exporter (self.root space)
  let (floatings, exporter) :=
    LayoutExporter.mapAccum self.exportFloating (self.floatingContainers space) exporter
  let (central, exporter) := self.exportCentral exporter (self.centralRegion space)
  (⟨space, root, floatings.filterMap id, central⟩, exporter)

def exportLayout : DockLayout :=
  let (spaces, exporter) := LayoutExporter.mapAccum self.exportSpace self.spaces .default
  .fromRawParts spaces exporter.nodes

/-- Graphs that match exactly export the same layout. -/
theorem exportLayout_congr {first second : DockGraph}
    (h : first.matchesExactly second = true) : first.exportLayout = second.exportLayout := by
  obtain ⟨hentries, hroots, hfloatings, hcentral, -⟩ := (matchesExactly_iff _ _).mp h
  have hget : ∀ id, first.nodes.get id = second.nodes.get id := by
    intro id
    rw [SlotMap.get, SlotMap.get, hentries]
  have hfuel : first.fuel = second.fuel := by
    rw [fuel, fuel, SlotMap.len, SlotMap.len, hentries]
  have hroot : ∀ exporter root,
      first.exportRoot exporter root = second.exportRoot exporter root := by
    intro exporter root
    simp only [exportRoot, hfuel, LayoutExporter.exportSubtree_congr hget]
  have hfloating : ∀ exporter floating,
      first.exportFloating exporter floating = second.exportFloating exporter floating := by
    intro exporter floating
    simp only [exportFloating, floatingChild, node, hget, hfuel,
      LayoutExporter.exportSubtree_congr hget]
  have hspaces : first.spaces = second.spaces := by
    rw [spaces, spaces, hroots, hfloatings, hcentral]
  have hspace : ∀ exporter space,
      first.exportSpace exporter space = second.exportSpace exporter space := by
    intro exporter space
    simp only [exportSpace, exportCentral, hroot, root, floatingContainers, centralRegion, hroots,
      hfloatings, hcentral, LayoutExporter.mapAccum_congr hfloating]
  simp only [exportLayout, hspaces, LayoutExporter.mapAccum_congr hspace]

end DockGraph

end OpenGpui.Docking
