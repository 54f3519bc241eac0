/-
The geometry of one split: the children of a split share its rectangle along the axis,
in the proportions of the resolved fractions.
-/
import OpenGpui.Docking.Graph
import OpenGpui.UiCore.SplitterScene

namespace OpenGpui.Docking

open List Bool OpenGpui.Span UiCore UiCore.SplitterPanelState Bounds

def uiRectFromBounds (bounds : Bounds) : UiCore.UiRect :=
  ⟨⟨bounds.origin.x, bounds.origin.y⟩, ⟨bounds.size.width, bounds.size.height⟩⟩

def boundsFromUiRect (rect : UiCore.UiRect) : Bounds :=
  ⟨⟨rect.origin.x, rect.origin.y⟩, ⟨rect.size.width, rect.size.height⟩⟩

structure DockResolvedSplitLayout where
  shares : List Scalar
  children : List DockNodeId
  axis : SplitAxis
  extent : Scalar
  scene : UiCore.SplitterLayoutScene

structure DockResolvedSplitPanel where
  child : DockNodeId
  bounds : Bounds

def DockResolvedSplitLayout.panels (self : DockResolvedSplitLayout) : List DockResolvedSplitPanel :=
  (self.children.zip self.scene.panels).map fun entry =>
    ⟨entry.1, boundsFromUiRect entry.2.bounds⟩

def resolveDockSplitShares (childCount : Nat) (fractions : List Scalar)
    (centralChildIndex : Option Nat) : List Scalar :=
  UiCore.resolveSplitFractionsWithFillChild childCount fractions centralChildIndex

def SplitAxis.orientation : SplitAxis → UiCore.Orientation
  | .horizontal => .horizontal
  | .vertical => .vertical

variable (split : DockNodeId) (axis : SplitAxis)

def splitLayoutState (children : List DockNodeId) (shares : List Scalar) : UiCore.SplitterState :=
  UiCore.SplitterState.resolve s!"dock-split-{split}" axis.orientation .medium false
    (children.mapIdx fun index child =>
      { id := s!"dock-node-{child}", fraction := shares[index]?.getD 0, minFraction := 0 })

def splitLayoutScene (children : List DockNodeId)
    (shares : List Scalar) (bounds : Bounds) (handleSize : Scalar) : UiCore.SplitterLayoutScene :=
  let state := splitLayoutState split axis children shares
  let handleSize := max handleSize 0
  let metrics := (UiCore.SplitterMetrics.new handleSize handleSize 0).withHandlePlacement
    .overlayBoundary
  .fromStateWithMetrics state (uiRectFromBounds bounds) metrics

def splitExtent (bounds : Bounds) : Scalar :=
  match axis with
  | .horizontal => bounds.size.width
  | .vertical => bounds.size.height

def resolveDockSplitLayout (children : List DockNodeId)
    (fractions : List Scalar) (centralChildIndex : Option Nat) (bounds : Bounds)
    (handleSize : Scalar) : DockResolvedSplitLayout :=
  let shares := resolveDockSplitShares children.length fractions centralChildIndex
  let scene := splitLayoutScene split axis children shares bounds handleSize
  let extent := splitExtent axis bounds
  { shares, children, axis, extent, scene }

def SplitAxis.other : SplitAxis → SplitAxis
  | .horizontal => .vertical
  | .vertical => .horizontal

def Point.along (point : Point) : SplitAxis → Scalar
  | .horizontal => point.x
  | .vertical => point.y

namespace Bounds

variable (bounds : Bounds)

/-- The side of a rectangle along an axis. -/
def along : SplitAxis → Span Scalar
  | .horizontal => ⟨bounds.origin.x, bounds.size.width⟩
  | .vertical => ⟨bounds.origin.y, bounds.size.height⟩

def contains (point : Point) : Bool :=
  decide (point.x ≥ bounds.origin.x) && decide (point.x < bounds.origin.x + bounds.size.width) &&
    decide (point.y ≥ bounds.origin.y) && decide (point.y < bounds.origin.y + bounds.size.height)

variable (axis : SplitAxis) (side : Span Scalar)

/-- The rectangle with another side along an axis. -/
def cut : Bounds :=
  match axis with
  | .horizontal => ⟨⟨side.start, bounds.origin.y⟩, ⟨side.length, bounds.size.height⟩⟩
  | .vertical => ⟨⟨bounds.origin.x, side.start⟩, ⟨bounds.size.width, side.length⟩⟩

/-- A rectangle, of zero size at the least, within the sides of another. -/
def Inside (bounds outer : Bounds) : Prop := ∀ axis, (bounds.along axis).Within (outer.along axis)

/-- Both sides are longer than the tolerance of splitter scenes. -/
def HasRoom : Prop := UiCore.EPSILON < bounds.size.width ∧ UiCore.EPSILON < bounds.size.height

instance (bounds : Bounds) : Decidable bounds.HasRoom := inferInstanceAs (Decidable (_ ∧ _))

@[simp] theorem along_cut : (bounds.cut axis side).along axis = side := by
  cases axis <;> rfl

@[simp] theorem across_cut : (bounds.cut axis side).along axis.other = bounds.along axis.other := by
  cases axis <;> rfl

/-- A point is in a rectangle when it is on both of its sides. -/
theorem contains_iff (point : Point) :
    bounds.contains point = true ↔ (bounds.along axis).holds (point.along axis) = true ∧
      (bounds.along axis.other).holds (point.along axis.other) = true := by
  simp only [contains, and_eq_true, decide_eq_true_iff, holds_iff]
  cases axis with
  | horizontal | vertical =>
    simp only [along, SplitAxis.other, Point.along, stop]
    tauto

theorem HasRoom.along_pos {bounds : Bounds} (h : bounds.HasRoom) (axis : SplitAxis) :
    UiCore.EPSILON < (bounds.along axis).length := by
  cases axis with
  | horizontal => exact h.1
  | vertical => exact h.2

end Bounds

/-- Rectangles that cut another up along an axis: they lie inside it with its whole side
across the axis, each starts where the one before stops, and every point of the
rectangle, and no other, is in exactly one of them. -/
structure TilesAlong (axis : SplitAxis) (bounds : Bounds) (tiles : List Bounds) : Prop where
  inside : ∀ tile ∈ tiles, tile.Inside bounds
  across : ∀ tile ∈ tiles, tile.along axis.other = bounds.along axis.other
  adjacent : (tiles.map (·.along axis)).IsChain fun first next => first.stop = next.start
  once : ∀ point, tiles.countP (·.contains point) = if bounds.contains point then 1 else 0

/-- Cutting a rectangle into lengths that add up to its side. -/
theorem tilesAlong_laid {bounds : Bounds} (hroom : bounds.HasRoom) (axis : SplitAxis)
    {lengths : List Scalar} (hnonneg : ∀ length ∈ lengths, 0 ≤ length)
    (hsum : lengths.sum = (bounds.along axis).length) :
    TilesAlong axis bounds ((laid (bounds.along axis).start lengths).map (bounds.cut axis)) := by
  have hwhole : (⟨(bounds.along axis).start, lengths.sum⟩ : Span Scalar) = bounds.along axis := by
    rw [hsum]
  have hsides : ((laid (bounds.along axis).start lengths).map (bounds.cut axis)).map
      (·.along axis) = laid (bounds.along axis).start lengths := by
    rw [map_map]
    refine (map_congr_left fun side _ => ?_).trans (map_id _)
    exact bounds.along_cut axis side
  refine ⟨?_, ?_, ?_, ?_⟩
  · intro tile hmem
    obtain ⟨side, hside, rfl⟩ := mem_map.mp hmem
    have halong : ((bounds.cut axis side).along axis).Within (bounds.along axis) := by
      rw [along_cut, ← hwhole]
      exact laid_within hnonneg side hside
    have hacross : ((bounds.cut axis side).along axis.other).Within (bounds.along axis.other) := by
      rw [across_cut]
      exact Span.Within.refl (UiCore.EPSILON_pos.trans (hroom.along_pos axis.other)).le
    intro other
    cases axis <;> cases other <;> assumption
  · intro tile hmem
    obtain ⟨side, _, rfl⟩ := mem_map.mp hmem
    exact bounds.across_cut axis side
  · rw [hsides]
    exact laid_adjacent _ _
  · intro point
    rw [countP_map]
    by_cases hacross : (bounds.along axis.other).holds (point.along axis.other) = true
    · have hside : ∀ side : Span Scalar, (bounds.cut axis side).contains point =
          side.holds (point.along axis) := by
        intro side
        rw [Bool.eq_iff_iff, contains_iff _ axis, along_cut, across_cut, and_iff_left hacross]
      have hbounds : bounds.contains point = (bounds.along axis).holds (point.along axis) := by
        rw [Bool.eq_iff_iff, contains_iff _ axis, and_iff_left hacross]
      rw [hbounds, ← hwhole, ← countP_laid hnonneg]
      exact countP_congr fun side _ => by rw [Function.comp_apply, hside]
    · have hnone : ∀ side : Span Scalar, (bounds.cut axis side).contains point = false := by
        intro side
        rw [← not_eq_true, contains_iff _ axis, across_cut]
        exact fun h => hacross h.2
      have hbounds : ¬ bounds.contains point = true := by
        rw [contains_iff _ axis]
        exact fun h => hacross h.2
      rw [if_neg hbounds, countP_eq_zero]
      intro side _
      rw [Function.comp_apply, hnone]
      exact false_ne_true

variable {children : List DockNodeId} {shares : List Scalar}

/-- Shares that already add up to the whole are the fractions of the panels. -/
theorem splitLayoutState_fractions (hlength : shares.length = children.length) (hshares :
    UiCore.Normalized shares) :
    (splitLayoutState split axis children shares).panels.map (·.fraction) = shares := by
  let descriptors := children.mapIdx fun index child =>
    ({ id := s!"dock-node-{child}", fraction := shares[index]?.getD 0, minFraction := 0 } :
      UiCore.SplitterPanelDescriptor)
  have hone : ∀ share ∈ shares, share ≤ 1 := by
    intro share hmem
    rw [← hshares.sum_eq_one]
    exact single_le_sum hshares.nonneg share hmem
  have hfractions : (descriptors.map fromDescriptor).map (·.fraction) = shares := by
    apply ext_getElem
    · simp [descriptors, hlength]
    · intro index _ hindex
      have hmem := getElem_mem hindex
      have hnonneg := hshares.nonneg _ hmem
      simp only [descriptors, getElem_map, getElem_mapIdx,
        getElem?_eq_getElem hindex, Option.getD_some, fromDescriptor]
      norm_num [sanitizeMaxFraction, max_eq_left hnonneg]
      exact Scalar.clamp_of_mem hnonneg (hone _ hmem)
  have hmet : normalizePanelFractions (descriptors.map fromDescriptor) =
        descriptors.map fromDescriptor := by
    apply normalizePanelFractions_of_met
    rw [fractionSum, hfractions, hshares.sum_eq_one, sub_self]
    exact UiCore.EPSILON_pos.le
  exact (congrArg (map (·.fraction)) hmet).trans hfractions

/-- The rectangles of a scene in terms of the bounds it was made from. -/
theorem splitLayoutScene_panels (hlength : shares.length = children.length)
    (hshares : UiCore.Normalized shares) (bounds : Bounds) (handleSize : Scalar) :
    (splitLayoutScene split axis children shares bounds handleSize).panels.map
        (fun panel => boundsFromUiRect panel.bounds) =
      if bounds.HasRoom then
        (laid (bounds.along axis).start
          (shares.map ((bounds.along axis).length * ·))).map (bounds.cut axis)
      else [] := by
  have hfractions := splitLayoutState_fractions split axis hlength hshares
  let metrics := (UiCore.SplitterMetrics.new (max handleSize 0) (max handleSize 0)
    0).withHandlePlacement .overlayBoundary
  have hoverlay : metrics.handlePlacement = .overlayBoundary := rfl
  have hlaid := fromStateWithMetrics_overlay (splitLayoutState split axis children shares)
    (uiRectFromBounds bounds) hoverlay
  have hlengths : ∀ length : Scalar, (splitLayoutState split axis children shares).panels.map
      (length * ·.fraction) = shares.map (length * ·) := by
    intro length
    exact map_map.symm.trans (congrArg (map (length * ·)) hfractions)
  rw [hlengths] at hlaid
  have hbounds := congrArg (map boundsFromUiRect) hlaid
  rw [map_map] at hbounds
  refine hbounds.trans ?_
  by_cases hroom : bounds.HasRoom
  · have hwide := not_le.mpr hroom.1
    have hhigh := not_le.mpr hroom.2
    rw [if_pos hroom, if_neg, map_map]
    · cases axis <;> rfl
    · cases axis with
      | horizontal => exact not_or.mpr ⟨hwide, hhigh⟩
      | vertical => exact not_or.mpr ⟨hhigh, hwide⟩
  · rw [if_neg hroom, if_pos, map_nil]
    rw [Bounds.HasRoom, not_and_or, not_lt, not_lt] at hroom
    cases axis with
    | horizontal => exact hroom
    | vertical => exact hroom.symm

/-- The children of a split are laid out side by side over its whole rectangle, or not
at all where the rectangle is too thin. -/
theorem resolveDockSplitLayout_panels (hchildren : children ≠ []) (fractions : List Scalar)
    (centralChildIndex : Option Nat) (bounds : Bounds) (handleSize : Scalar) :
    let panels := (resolveDockSplitLayout split axis children fractions centralChildIndex bounds
      handleSize).panels
    if bounds.HasRoom then
      panels.map (·.child) = children ∧ TilesAlong axis bounds (panels.map (·.bounds))
    else panels = [] := by
  intro panels
  let shares := resolveDockSplitShares children.length fractions centralChildIndex
  obtain ⟨hspec, hshares⟩ := resolveSplitFractionsWithFillChild_spec children.length
    fractions centralChildIndex
  have hlength : shares.length = children.length :=
    hspec.trans (max_eq_left (length_pos_iff.mpr hchildren))
  have hscene := splitLayoutScene_panels split axis hlength hshares bounds handleSize
  by_cases hroom : bounds.HasRoom
  · rw [if_pos hroom] at hscene ⊢
    have hcount : (splitLayoutScene split axis children shares bounds
        handleSize).panels.length = children.length := by
      have hmapped := congrArg List.length hscene
      rw [length_map, length_map, laid_length, length_map] at hmapped
      exact hmapped.trans hlength
    have hchild : panels.map (·.child) = children := by
      change (map _ (children.zip _)).map _ = children
      rw [map_map]
      exact map_fst_zip hcount.ge
    have hbounds : panels.map (·.bounds) = (laid (bounds.along axis).start
        (shares.map ((bounds.along axis).length * ·))).map (bounds.cut axis) := by
      rw [← hscene]
      change (map _ (children.zip _)).map _ = _
      rw [map_map]
      refine Eq.trans ?_ (congrArg (map fun panel : UiCore.SplitterPanelLayout =>
        boundsFromUiRect panel.bounds) (map_snd_zip hcount.le))
      rw [map_map]
      rfl
    refine ⟨hchild, hbounds ▸ tilesAlong_laid hroom axis ?_ ?_⟩
    · intro length hmem
      obtain ⟨share, hshare, rfl⟩ := mem_map.mp hmem
      exact mul_nonneg (UiCore.EPSILON_pos.trans (hroom.along_pos axis)).le
        (hshares.nonneg share hshare)
    · have hsum : shares.sum = 1 := hshares.sum_eq_one
      rw [sum_map_mul_left, map_id', hsum, mul_one]
  · rw [if_neg hroom] at hscene ⊢
    have hnone : (splitLayoutScene split axis children shares bounds handleSize).panels = [] :=
      map_eq_nil_iff.mp hscene
    change map _ (children.zip _) = []
    rw [show (resolveDockSplitLayout split axis children fractions centralChildIndex bounds
      handleSize).scene.panels = [] from hnone, zip_nil_right, map_nil]

end OpenGpui.Docking
