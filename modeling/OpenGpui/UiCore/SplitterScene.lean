/-
Layout scenes of splitters: the rectangles of panels and handles along one axis, and
the junctions where handles of both orientations meet.
-/
import OpenGpui.UiCore.SplitterFit
import OpenGpui.Library.Spans

namespace OpenGpui.UiCore

structure UiPoint where
  x : Scalar
  y : Scalar

structure UiSize where
  width : Scalar
  height : Scalar

structure UiRect where
  origin : UiPoint
  size : UiSize

namespace SplitterMetrics

def new (handleThickness handleHitSize radius : Scalar) : SplitterMetrics :=
  ⟨handleThickness, handleHitSize, radius, .betweenPanels⟩

variable (self : SplitterMetrics)

def withHandlePlacement (placement : SplitterHandlePlacement) :
    SplitterMetrics :=
  { self with handlePlacement := placement }

/-- The axis span the panels share, after the handles between them took theirs. -/
def panelAxisExtent (outerAxisExtent : Scalar) (handleCount : Nat) :
    Scalar :=
  if !outerAxisExtent.isFinite then 0
  else
    let reservedHandleExtent :=
      match self.handlePlacement with
      | .betweenPanels => self.handleHitSize * handleCount
      | .overlayBoundary => 0
    max (outerAxisExtent - reservedHandleExtent) 0

end SplitterMetrics

structure SplitterPanelLayout where
  id : String
  index : Nat
  bounds : UiRect
  fraction : Scalar
  collapsed : Bool

structure SplitterHandleLayout where
  groupId : String
  orientation : Orientation
  index : Nat
  beforeId : String
  afterId : String
  disabled : Bool
  bounds : UiRect
  visualBounds : UiRect

structure SplitterJunctionHitRegion where
  bounds : UiRect
  horizontal : SplitterHandleLayout
  vertical : SplitterHandleLayout

structure SplitterLayoutScene where
  groupId : String
  orientation : Orientation
  bounds : UiRect
  panels : List SplitterPanelLayout
  handles : List SplitterHandleLayout
  junctions : List SplitterJunctionHitRegion

def centeredHandleVisualBounds (bounds : UiRect) (orientation : Orientation)
    (thickness : Scalar) : UiRect :=
  match orientation with
  | .horizontal =>
    let x := bounds.origin.x + (bounds.size.width - thickness) / 2
    ⟨⟨x, bounds.origin.y⟩, ⟨thickness, bounds.size.height⟩⟩
  | .vertical =>
    let y := bounds.origin.y + (bounds.size.height - thickness) / 2
    ⟨⟨bounds.origin.x, y⟩, ⟨bounds.size.width, thickness⟩⟩

def overlapOrTouchingSpan (aStart aEnd bStart bEnd touchingStart touchingEnd : Scalar) :
    Option (Scalar × Scalar) :=
  let start := max aStart bStart
  let stop := min aEnd bEnd
  if stop - start > EPSILON then some (start, stop)
  else if |aEnd - bStart| ≤ EPSILON ∨ |bEnd - aStart| ≤ EPSILON then
    some (touchingStart, touchingEnd)
  else none

def orthogonalHandleJunction (horizontal vertical : UiRect) : Option UiRect := do
  let x ← overlapOrTouchingSpan horizontal.origin.x (horizontal.origin.x + horizontal.size.width)
    vertical.origin.x (vertical.origin.x + vertical.size.width)
    horizontal.origin.x (horizontal.origin.x + horizontal.size.width)
  let y ← overlapOrTouchingSpan horizontal.origin.y (horizontal.origin.y + horizontal.size.height)
    vertical.origin.y (vertical.origin.y + vertical.size.height)
    vertical.origin.y (vertical.origin.y + vertical.size.height)
  return ⟨⟨x.1, y.1⟩, ⟨x.2 - x.1, y.2 - y.1⟩⟩

def junctionsForHandles (handles : List SplitterHandleLayout) : List SplitterJunctionHitRegion :=
  (handles.filter (·.orientation = .horizontal)).flatMap fun horizontal =>
    (handles.filter (·.orientation = .vertical)).filterMap fun vertical =>
      (orthogonalHandleJunction horizontal.bounds vertical.bounds).map fun bounds =>
        ⟨bounds, horizontal, vertical⟩

/-- The part of a rectangle from a position on, for a length along an axis. -/
def UiRect.slice (bounds : UiRect) (isVertical : Bool) (position length : Scalar) : UiRect :=
  if isVertical then ⟨⟨bounds.origin.x, position⟩, ⟨bounds.size.width, length⟩⟩
  else ⟨⟨position, bounds.origin.y⟩, ⟨length, bounds.size.height⟩⟩

/-- What the loop over the panels of a state carries. -/
structure SplitterLayoutPass where
  cursor : Scalar
  childBounds : List UiRect
  panels : List SplitterPanelLayout
  handles : List SplitterHandleLayout

namespace SplitterState

variable (state : SplitterState)

def isVertical : Bool := decide (state.orientation = .vertical)

variable (bounds : UiRect)

/-- The layout of a handle behind the panel that ends at a cursor. -/
def handleLayout (metrics : SplitterMetrics)
    (handle : SplitterHandleState) (cursor : Scalar) : SplitterHandleLayout :=
  let handleOrigin :=
    match metrics.handlePlacement with
    | .betweenPanels => cursor
    | .overlayBoundary => cursor - metrics.handleHitSize / 2
  let handleBounds := bounds.slice state.isVertical handleOrigin metrics.handleHitSize
  { groupId := state.groupId, orientation := state.orientation, index := handle.index,
    beforeId := handle.beforeId, afterId := handle.afterId, disabled := handle.disabled,
    bounds := handleBounds
    visualBounds :=
      centeredHandleVisualBounds handleBounds state.orientation metrics.handleThickness }

/-- One turn of the loop: a panel at the cursor, and the handle behind it, if any. -/
def layoutPanel (recordPanels : Bool)
    (metrics : SplitterMetrics) (panelAxis : Scalar) (pass : SplitterLayoutPass)
    (entry : SplitterPanelState × Nat) : SplitterLayoutPass :=
  let panel := entry.1
  let length := panelAxis * panel.fraction
  let panelBounds := bounds.slice state.isVertical pass.cursor length
  let panels :=
    if recordPanels then
      pass.panels ++
        [{ id := panel.id, index := pass.panels.length, bounds := panelBounds,
           fraction := panel.fraction, collapsed := panel.collapsed }]
    else pass.panels
  let cursor := pass.cursor + length
  match state.handles[entry.2]? with
  | none =>
    { pass with cursor, childBounds := pass.childBounds ++ [panelBounds], panels }
  | some handle =>
    { childBounds := pass.childBounds ++ [panelBounds]
      panels
      handles := pass.handles ++ [state.handleLayout bounds metrics handle cursor]
      cursor :=
        match metrics.handlePlacement with
        | .betweenPanels => cursor + metrics.handleHitSize
        | .overlayBoundary => cursor }

end SplitterState

namespace SplitterLayoutScene

variable (scene : SplitterLayoutScene)

/-- The bounds of the children with the scene they were recorded in.  Where a side is
not longer than the tolerance, nothing is laid out. -/
def pushStateLayoutWithMetrics (state : SplitterState)
    (bounds : UiRect) (recordPanels : Bool) (metrics : SplitterMetrics) :
    List UiRect × SplitterLayoutScene :=
  let handleCount := state.handles.length
  let axisLength := if state.isVertical then bounds.size.height else bounds.size.width
  let crossLength := if state.isVertical then bounds.size.width else bounds.size.height
  if axisLength ≤ EPSILON ∨ crossLength ≤ EPSILON ∨ state.panels.isEmpty then ([], scene)
  else
    let panelAxis := metrics.panelAxisExtent axisLength handleCount
    let cursor := if state.isVertical then bounds.origin.y else bounds.origin.x
    let pass := state.panels.zipIdx.foldl (state.layoutPanel bounds recordPanels metrics panelAxis)
      ⟨cursor, [], scene.panels, scene.handles⟩
    (pass.childBounds, { scene with panels := pass.panels, handles := pass.handles })

def resolveJunctions : SplitterLayoutScene :=
  { scene with junctions := junctionsForHandles scene.handles }

def fromStateWithMetrics (state : SplitterState) (bounds : UiRect) (metrics : SplitterMetrics) :
    SplitterLayoutScene :=
  let scene : SplitterLayoutScene := ⟨state.groupId, state.orientation, bounds, [], [], []⟩
  (scene.pushStateLayoutWithMetrics state bounds true metrics).2.resolveJunctions

end SplitterLayoutScene

variable {state : SplitterState} {bounds : UiRect} {metrics : SplitterMetrics}

/-- A turn with overlaid handles moves the cursor by the length of the panel alone. -/
theorem layoutPanel_overlay (state : SplitterState) (bounds : UiRect)
    (hoverlay : metrics.handlePlacement = .overlayBoundary) (panelAxis : Scalar)
    (pass : SplitterLayoutPass) (entry : SplitterPanelState × Nat) :
    let next := state.layoutPanel bounds true metrics panelAxis pass entry
    let length := panelAxis * entry.1.fraction
    next.cursor = pass.cursor + length ∧
      next.panels.map (·.bounds) =
        pass.panels.map (·.bounds) ++ [bounds.slice state.isVertical pass.cursor length] := by
  rw [SplitterState.layoutPanel]
  cases state.handles[entry.2]? with
  | none => exact ⟨rfl, by simp⟩
  | some handle =>
    rw [hoverlay]
    exact ⟨rfl, by simp⟩

theorem layoutPanels_overlay (hoverlay : metrics.handlePlacement = .overlayBoundary)
    (panelAxis : Scalar) (panels : List SplitterPanelState) (index : Nat)
    (pass : SplitterLayoutPass) :
    ((panels.zipIdx index).foldl (state.layoutPanel bounds true metrics panelAxis) pass).panels.map
        (·.bounds) =
      pass.panels.map (·.bounds) ++
        (Span.laid pass.cursor (panels.map (panelAxis * ·.fraction))).map fun span =>
          bounds.slice state.isVertical span.start span.length := by
  induction panels generalizing index pass with
  | nil => simp [Span.laid]
  | cons panel rest ih =>
    obtain ⟨hcursor, hpanels⟩ :=
      layoutPanel_overlay state bounds hoverlay panelAxis pass (panel, index)
    rw [List.zipIdx_cons, List.foldl_cons, ih, hcursor, hpanels, List.append_assoc]
    rfl

/-- The length of a rectangle along the axis of a splitter, and across it. -/
def UiRect.axisLength (bounds : UiRect) (isVertical : Bool) : Scalar :=
  if isVertical then bounds.size.height else bounds.size.width

/-- With overlaid handles a scene lays the panels along the axis one after another, each
as long as its fraction of the whole says, unless a side is within the tolerance. -/
theorem fromStateWithMetrics_overlay (state : SplitterState) (bounds : UiRect)
    (hoverlay : metrics.handlePlacement = .overlayBoundary) :
    (SplitterLayoutScene.fromStateWithMetrics state bounds metrics).panels.map (·.bounds) =
      if bounds.axisLength state.isVertical ≤ EPSILON ∨
          bounds.axisLength (!state.isVertical) ≤ EPSILON then []
      else
        (Span.laid (if state.isVertical then bounds.origin.y else bounds.origin.x)
          (state.panels.map (bounds.axisLength state.isVertical * ·.fraction))).map fun span =>
            bounds.slice state.isVertical span.start span.length := by
  have haxis : (if state.isVertical then bounds.size.height else bounds.size.width) =
      bounds.axisLength state.isVertical := rfl
  have hcross : (if state.isVertical then bounds.size.width else bounds.size.height) =
      bounds.axisLength (!state.isVertical) := by
    cases state.isVertical <;> rfl
  simp only [SplitterLayoutScene.fromStateWithMetrics, SplitterLayoutScene.resolveJunctions,
    SplitterLayoutScene.pushStateLayoutWithMetrics, haxis, hcross]
  by_cases hthin : bounds.axisLength state.isVertical ≤ EPSILON ∨
      bounds.axisLength (!state.isVertical) ≤ EPSILON
  · rw [if_pos hthin, if_pos (or_assoc.mp (Or.inl hthin))]
    rfl
  · rw [if_neg hthin]
    cases hpanels : state.panels with
    | nil => simp [Span.laid]
    | cons panel rest =>
      have hpanelAxis : metrics.panelAxisExtent (bounds.axisLength state.isVertical)
          state.handles.length = bounds.axisLength state.isVertical := by
        have hpos := EPSILON_pos.trans (not_le.mp (not_or.mp hthin).1)
        simp only [SplitterMetrics.panelAxisExtent, hoverlay, Scalar.isFinite_eq, Bool.not_true,
          Bool.false_eq_true, if_false, sub_zero]
        exact max_eq_left hpos.le
      have hlaid : ¬ (bounds.axisLength state.isVertical ≤ EPSILON ∨
          bounds.axisLength (!state.isVertical) ≤ EPSILON ∨ (panel :: rest).isEmpty = true) := by
        simpa using hthin
      rw [if_neg hlaid, hpanelAxis]
      exact layoutPanels_overlay hoverlay _ _ 0 _

end OpenGpui.UiCore
