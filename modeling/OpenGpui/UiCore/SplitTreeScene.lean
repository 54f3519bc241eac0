/-
Scenes of nested split trees: every split shares the rectangle it gets among its children
and the handles between them, and the leaves become the panels of one flat scene.
-/
import OpenGpui.UiCore.SplitterScene

namespace OpenGpui.UiCore

open List OpenGpui.Span Nat

/-- The fraction of a child and its constraints. -/
structure SplitTreeShare where
  fraction : Scalar
  minFraction : Scalar := 1 / 10
  maxFraction : Scalar := 1

mutual

inductive SplitTreeNode where
  | leaf (id : String)
  | split (id : String) (orientation : Orientation) (children : SplitTreeChildren)

inductive SplitTreeChildren where
  | nil
  | cons (node : SplitTreeNode) (share : SplitTreeShare) (rest : SplitTreeChildren)

end

namespace SplitTreeNode

def id : SplitTreeNode → String
  | leaf id => id
  | split id _ _ => id

def orientation : SplitTreeNode → Option Orientation
  | leaf _ => none
  | split _ orientation _ => some orientation

end SplitTreeNode

namespace SplitTreeChildren

def descriptors : SplitTreeChildren → List SplitterPanelDescriptor
  | nil => []
  | cons node share rest =>
    { id := node.id, fraction := share.fraction, minFraction := share.minFraction,
      maxFraction := share.maxFraction } :: rest.descriptors

/-- The splitter that a split resolves its children with. -/
def state (children : SplitTreeChildren) (id : String) (orientation : Orientation)
    (size : Size) : SplitterState :=
  .resolve id orientation size false children.descriptors

end SplitTreeChildren

namespace SplitterLayoutScene

def pushStateLayout (scene : SplitterLayoutScene) (state : SplitterState) (bounds : UiRect)
    (recordPanels : Bool) : List UiRect × SplitterLayoutScene :=
  scene.pushStateLayoutWithMetrics state bounds recordPanels state.metrics

mutual

def pushTreeNode (size : Size) :
    SplitTreeNode → UiRect → (fraction : Scalar) → SplitterLayoutScene → SplitterLayoutScene
  | .leaf id, bounds, fraction, scene =>
    { scene with
      panels := scene.panels ++
        [{ id, index := scene.panels.length, bounds, fraction, collapsed := false }] }
  | .split id orientation children, bounds, _, scene =>
    let state := children.state id orientation size
    let fractions := state.panels.map (·.fraction)
    let laid := scene.pushStateLayout state bounds false
    pushTreeChildren size children laid.1 fractions laid.2

/-- The children with their rectangles and fractions, up to the shortest of the three. -/
def pushTreeChildren (size : Size) :
    SplitTreeChildren → List UiRect → (fractions : List Scalar) → SplitterLayoutScene →
      SplitterLayoutScene
  | .cons node _ rest, range :: ranges, fraction :: fractions, scene =>
    pushTreeChildren size rest ranges fractions (pushTreeNode size node range fraction scene)
  | _, _, _, scene => scene

end

def fromTree (root : SplitTreeNode) (bounds : UiRect) (size : Size) : SplitterLayoutScene :=
  let scene : SplitterLayoutScene :=
    ⟨root.id, root.orientation.getD .horizontal, bounds, [], [], []⟩
  (pushTreeNode size root bounds 1 scene).resolveJunctions

end SplitterLayoutScene

namespace UiRect

variable (bounds : UiRect)

def contains (point : UiPoint) : Bool :=
  decide (point.x ≥ bounds.origin.x) && decide (point.x < bounds.origin.x + bounds.size.width) &&
    decide (point.y ≥ bounds.origin.y) && decide (point.y < bounds.origin.y + bounds.size.height)

/-- The side of a rectangle along an axis. -/
def side (isVertical : Bool) : Span Scalar :=
  if isVertical then ⟨bounds.origin.y, bounds.size.height⟩
  else ⟨bounds.origin.x, bounds.size.width⟩

/-- Both sides are longer than the tolerance. -/
def HasRoom : Prop := EPSILON < bounds.size.width ∧ EPSILON < bounds.size.height

end UiRect

def UiPoint.along (point : UiPoint) (isVertical : Bool) : Scalar :=
  if isVertical then point.y else point.x

section Rectangles

variable (bounds : UiRect) (isVertical : Bool) (point : UiPoint)

theorem UiRect.contains_eq : bounds.contains point =
    ((bounds.side isVertical).holds (point.along isVertical) &&
      (bounds.side (!isVertical)).holds (point.along (!isVertical))) := by
  rw [Bool.eq_iff_iff]
  simp only [contains, Bool.and_eq_true, decide_eq_true_iff, holds_iff]
  cases isVertical with
  | false | true =>
    tauto

theorem UiRect.contains_slice (position length : Scalar) :
    (bounds.slice isVertical position length).contains point =
      ((⟨position, length⟩ : Span Scalar).holds (point.along isVertical) &&
        (bounds.side (!isVertical)).holds (point.along (!isVertical))) := by
  rw [UiRect.contains_eq _ isVertical]
  cases isVertical <;> rfl

/-- As many slices contain a point as their spans hold it, if it is within the side across. -/
theorem UiRect.countP_slices (spans : List (Span Scalar)) :
    (spans.map fun span => bounds.slice isVertical span.start span.length).countP
        (·.contains point) =
      if (bounds.side (!isVertical)).holds (point.along (!isVertical)) then
        spans.countP (·.holds (point.along isVertical))
      else 0 := by
  rw [countP_map]
  by_cases hacross : (bounds.side (!isVertical)).holds (point.along (!isVertical)) = true
  · rw [if_pos hacross]
    apply countP_congr
    intro span _
    rw [Function.comp_apply, UiRect.contains_slice, hacross, Bool.and_true]
  · rw [if_neg hacross, countP_eq_zero]
    intro span _
    rw [Function.comp_apply, UiRect.contains_slice, Bool.and_eq_true]
    exact fun h => hacross h.2

end Rectangles

section Turns

variable {state : SplitterState} {bounds : UiRect} {metrics : SplitterMetrics}

/-- Where the cursor goes, and the rectangles of the children, do not depend on what the
scene has recorded before. -/
theorem foldl_layoutPanel_congr (entries : List (SplitterPanelState × Nat))
    (recordPanels : Bool) (panelAxis : Scalar) {pass other : SplitterLayoutPass}
    (hcursor : pass.cursor = other.cursor) (hbounds : pass.childBounds = other.childBounds) :
    (entries.foldl (state.layoutPanel bounds recordPanels metrics panelAxis) pass).childBounds =
      (entries.foldl (state.layoutPanel bounds recordPanels metrics panelAxis)
        other).childBounds := by
  induction entries generalizing pass other with
  | nil => exact hbounds
  | cons entry rest ih =>
    apply ih
    · simp only [SplitterState.layoutPanel]
      cases state.handles[entry.2]? with
      | none => rw [hcursor]
      | some handle =>
        rw [hcursor]
    · simp only [SplitterState.layoutPanel]
      cases state.handles[entry.2]? with
      | none => rw [hcursor, hbounds]
      | some handle =>
        rw [hcursor, hbounds]

/-- What laying out panels from a cursor on adds: spans of the panels and of the handles
between them, which together follow each other without gap. -/
structure LaysOut (state : SplitterState) (bounds : UiRect) (metrics : SplitterMetrics)
    (panelAxis : Scalar) (panels : List SplitterPanelState) (index : Nat)
    (pass after : SplitterLayoutPass) where
  spans : List (Span Scalar)
  handleSpans : List (Span Scalar)
  lengths : List Scalar
  childBounds : after.childBounds = pass.childBounds ++
    spans.map fun span => bounds.slice state.isVertical span.start span.length
  handles : after.handles.map (·.bounds) = pass.handles.map (·.bounds) ++
    handleSpans.map fun span => bounds.slice state.isVertical span.start span.length
  recorded : after.panels = pass.panels
  spanLengths : spans.map (·.length) = panels.map (panelAxis * ·.fraction)
  handleCount : handleSpans.length = min panels.length (state.handles.length - index)
  laid : (spans ++ handleSpans).Perm (Span.laid pass.cursor lengths)
  nonneg : ∀ length ∈ lengths, 0 ≤ length
  total : lengths.sum = panelAxis * fractionSum panels + metrics.handleHitSize * handleSpans.length

/-- The panels and handles of a state between which handles take their own space. -/
theorem exists_laysOut (hbetween : metrics.handlePlacement = .betweenPanels)
    (hhit : 0 ≤ metrics.handleHitSize) {panelAxis : Scalar} (haxis : 0 ≤ panelAxis)
    {panels : List SplitterPanelState} (hpanels : ∀ panel ∈ panels, 0 ≤ panel.fraction)
    (index : Nat) (pass : SplitterLayoutPass) :
    Nonempty (LaysOut state bounds metrics panelAxis panels index pass
      ((panels.zipIdx index).foldl (state.layoutPanel bounds false metrics panelAxis) pass)) := by
  induction panels generalizing index pass with
  | nil =>
    refine ⟨⟨[], [], [], ?_, ?_, rfl, rfl, ?_, ?_, ?_, ?_⟩⟩
    · exact (append_nil _).symm
    · exact (append_nil _).symm
    · simp
    · exact List.Perm.refl _
    · intro length hmem
      cases hmem
    · simp [fractionSum]
  | cons panel rest ih =>
    have hfraction := mul_nonneg haxis (hpanels panel mem_cons_self)
    have hrest : ∀ other ∈ rest, 0 ≤ other.fraction :=
      fun other hmem => hpanels other (mem_cons_of_mem _ hmem)
    rw [zipIdx_cons, foldl_cons]
    obtain ⟨layout⟩ := ih hrest (index + 1)
      (state.layoutPanel bounds false metrics panelAxis pass (panel, index))
    cases hhandle : state.handles[index]? with
    | none =>
      have hturn : state.layoutPanel bounds false metrics panelAxis pass (panel, index) =
          { pass with
            cursor := pass.cursor + panelAxis * panel.fraction
            childBounds := pass.childBounds ++ [bounds.slice state.isVertical pass.cursor
              (panelAxis * panel.fraction)] } := by
        simp only [SplitterState.layoutPanel, hhandle]
        rfl
      rw [hturn] at layout ⊢
      have hbeyond : state.handles.length ≤ index := getElem?_eq_none_iff.mp hhandle
      refine ⟨⟨⟨pass.cursor, panelAxis * panel.fraction⟩ :: layout.spans, layout.handleSpans,
        panelAxis * panel.fraction :: layout.lengths, ?_, ?_, ?_, ?_, ?_, ?_, ?_, ?_⟩⟩
      · rw [layout.childBounds, append_assoc]
        rfl
      · exact layout.handles
      · exact layout.recorded
      · rw [map_cons, layout.spanLengths, map_cons]
      · rw [layout.handleCount, length_cons]
        omega
      · exact layout.laid.cons _
      · intro length hmem
        rcases mem_cons.mp hmem with rfl | hlater
        · exact hfraction
        · exact layout.nonneg length hlater
      · rw [sum_cons, layout.total, fractionSum_cons, mul_add, add_assoc]
    | some handle =>
      have hturn : state.layoutPanel bounds false metrics panelAxis pass (panel, index) =
          { pass with
            cursor := pass.cursor + panelAxis * panel.fraction + metrics.handleHitSize
            childBounds := pass.childBounds ++ [bounds.slice state.isVertical pass.cursor
              (panelAxis * panel.fraction)]
            handles := pass.handles ++ [state.handleLayout bounds metrics handle
              (pass.cursor + panelAxis * panel.fraction)] } := by
        simp only [SplitterState.layoutPanel, hbetween, hhandle]
        rfl
      rw [hturn] at layout ⊢
      have hwithin : index < state.handles.length := (List.getElem?_eq_some_iff.mp hhandle).1
      let handleSpan : Span Scalar :=
        ⟨pass.cursor + panelAxis * panel.fraction, metrics.handleHitSize⟩
      have hhandleBounds : (state.handleLayout bounds metrics handle
          (pass.cursor + panelAxis * panel.fraction)).bounds =
            bounds.slice state.isVertical handleSpan.start handleSpan.length := by
        simp only [SplitterState.handleLayout, hbetween]
        rfl
      refine ⟨⟨⟨pass.cursor, panelAxis * panel.fraction⟩ :: layout.spans, handleSpan ::
        layout.handleSpans, panelAxis * panel.fraction :: metrics.handleHitSize :: layout.lengths,
        ?_, ?_, ?_, ?_, ?_, ?_, ?_, ?_⟩⟩
      · rw [layout.childBounds, append_assoc]
        rfl
      · rw [layout.handles, map_append, map_cons, hhandleBounds, append_assoc]
        rfl
      · exact layout.recorded
      · rw [map_cons, layout.spanLengths, map_cons]
      · rw [length_cons, layout.handleCount, length_cons]
        omega
      · apply List.Perm.cons
        exact perm_middle.trans (layout.laid.cons _)
      · intro length hmem
        rcases mem_cons.mp hmem with rfl | hlater
        · exact hfraction
        · rcases mem_cons.mp hlater with rfl | hmore
          · exact hhit
          · exact layout.nonneg length hmore
      · rw [sum_cons, sum_cons, layout.total, fractionSum_cons, length_cons, cast_succ]
        ring

end Turns

namespace SplitterState

/-- The rectangles that the children of a state get. -/
def childRects (state : SplitterState) (bounds : UiRect) : List UiRect :=
  ((⟨state.groupId, state.orientation, bounds, [], [], []⟩ : SplitterLayoutScene).pushStateLayout
    state bounds false).1

/-- The handles take no more than the side they stand along. -/
def HandlesFit (state : SplitterState) (bounds : UiRect) : Prop :=
  state.metrics.handleHitSize * state.handles.length ≤ (bounds.side state.isVertical).length

/-- Handles between the panels, of a size that is not negative. -/
structure TakesSpace (state : SplitterState) : Prop where
  between : state.metrics.handlePlacement = .betweenPanels
  hit : 0 ≤ state.metrics.handleHitSize

theorem takesSpace_resolve (groupId : String) (orientation : Orientation) (size : Size)
    (disabled : Bool) (descriptors : List SplitterPanelDescriptor) :
    (resolve groupId orientation size disabled descriptors).TakesSpace := by
  refine ⟨rfl, ?_⟩
  change (0 : Scalar) ≤ (SplitterMetrics.fromSize size).handleHitSize
  cases size <;> norm_num [SplitterMetrics.fromSize]

theorem fraction_nonneg (state : SplitterState) : ∀ panel ∈ state.panels, 0 ≤ panel.fraction := by
  intro panel hmem
  have hpanel := state.panels_bounded panel hmem
  apply le_trans _ hpanel.lower_le
  rw [SplitterPanelState.lowerBound]
  cases panel.collapsed with
  | true => exact hpanel.collapsed_nonneg
  | false => exact hpanel.min_nonneg

theorem length_handles (state : SplitterState) :
    state.handles.length = state.panels.length - 1 := by
  rw [state.handles_eq, resolveHandles, length_mapIdx, length_zip, length_tail]
  omega

variable {state : SplitterState} {bounds : UiRect}

/-- The guard of the layout in terms of room. -/
theorem not_hasRoom_iff : ¬bounds.HasRoom ↔
    (if state.isVertical then bounds.size.height else bounds.size.width) ≤ EPSILON ∨
      (if state.isVertical then bounds.size.width else bounds.size.height) ≤ EPSILON := by
  rw [UiRect.HasRoom, not_and_or, not_lt, not_lt]
  cases state.isVertical with
  | false => exact Iff.rfl
  | true => exact or_comm

variable (scene : SplitterLayoutScene)

theorem pushStateLayout_of_thin (hthin : ¬bounds.HasRoom ∨ state.panels = []) :
    scene.pushStateLayout state bounds false = ([], scene) := by
  apply if_pos
  rcases hthin with hroom | hnone
  · rcases not_hasRoom_iff.mp hroom with haxis | hcross
    · exact .inl haxis
    · exact .inr (.inl hcross)
  · exact .inr (.inr (isEmpty_iff.mpr hnone))

theorem childRects_of_thin (hthin : ¬bounds.HasRoom ∨ state.panels = []) :
    state.childRects bounds = [] := by
  rw [childRects, pushStateLayout_of_thin _ hthin]

/-- The children and handles of a state with room, as spans along its axis. -/
theorem pushStateLayout_of_room (htakes : state.TakesSpace) (hroom : bounds.HasRoom)
    (hpanels : state.panels ≠ []) (scene : SplitterLayoutScene) :
    ∃ (panelAxis : Scalar) (spans handleSpans : List (Span Scalar)) (lengths : List Scalar),
      panelAxis = max ((bounds.side state.isVertical).length -
        state.metrics.handleHitSize * state.handles.length) 0 ∧
      (scene.pushStateLayout state bounds false).1 =
        spans.map (fun span => bounds.slice state.isVertical span.start span.length) ∧
      (scene.pushStateLayout state bounds false).2.handles.map (·.bounds) =
        scene.handles.map (·.bounds) ++
          handleSpans.map (fun span => bounds.slice state.isVertical span.start span.length) ∧
      (scene.pushStateLayout state bounds false).2.panels = scene.panels ∧
      spans.map (·.length) = state.panels.map (panelAxis * ·.fraction) ∧
      (spans ++ handleSpans).Perm (Span.laid (bounds.side state.isVertical).start lengths) ∧
      (∀ length ∈ lengths, 0 ≤ length) ∧
      lengths.sum = panelAxis * fractionSum state.panels +
        state.metrics.handleHitSize * state.handles.length := by
  have hguard : ¬((if state.isVertical then bounds.size.height else bounds.size.width) ≤ EPSILON ∨
      (if state.isVertical then bounds.size.width else bounds.size.height) ≤ EPSILON ∨
        state.panels.isEmpty = true) := by
    rw [← or_assoc, ← not_hasRoom_iff]
    rintro (hthin | hnone)
    · exact hthin hroom
    · exact hpanels (isEmpty_iff.mp hnone)
  have hside : (if state.isVertical then bounds.size.height else bounds.size.width) =
      (bounds.side state.isVertical).length := by
    cases state.isVertical <;> rfl
  have hstart : (if state.isVertical then bounds.origin.y else bounds.origin.x) =
      (bounds.side state.isVertical).start := by
    cases state.isVertical <;> rfl
  have haxis : state.metrics.panelAxisExtent (bounds.side state.isVertical).length
      state.handles.length = max ((bounds.side state.isVertical).length -
        state.metrics.handleHitSize * state.handles.length) 0 := by
    simp only [SplitterMetrics.panelAxisExtent, Scalar.isFinite_eq, htakes.between, Bool.not_true,
      Bool.false_eq_true, if_false]
  obtain ⟨layout⟩ := @exists_laysOut state bounds _ htakes.between htakes.hit _
    (le_max_right ((bounds.side state.isVertical).length -
      state.metrics.handleHitSize * state.handles.length) 0) _ state.fraction_nonneg 0
    ⟨(bounds.side state.isVertical).start, [], scene.panels, scene.handles⟩
  have hcount : layout.handleSpans.length = state.handles.length := by
    rw [layout.handleCount, state.length_handles]
    omega
  have hpush : scene.pushStateLayout state bounds false =
      let pass := state.panels.zipIdx.foldl
        (state.layoutPanel bounds false state.metrics (max ((bounds.side state.isVertical).length -
          state.metrics.handleHitSize * state.handles.length) 0))
        ⟨(bounds.side state.isVertical).start, [], scene.panels, scene.handles⟩
      (pass.childBounds, { scene with panels := pass.panels, handles := pass.handles }) := by
    rw [SplitterLayoutScene.pushStateLayout, SplitterLayoutScene.pushStateLayoutWithMetrics]
    rw [if_neg hguard]
    simp only [hside, hstart, haxis]
  rw [hpush]
  refine ⟨_, layout.spans, layout.handleSpans, layout.lengths, rfl, layout.childBounds,
    layout.handles, layout.recorded, layout.spanLengths, layout.laid, layout.nonneg, ?_⟩
  rw [layout.total, hcount]

theorem pushStateLayout_fst :
    (scene.pushStateLayout state bounds false).1 = state.childRects bounds := by
  rw [childRects, SplitterLayoutScene.pushStateLayout, SplitterLayoutScene.pushStateLayout,
    SplitterLayoutScene.pushStateLayoutWithMetrics, SplitterLayoutScene.pushStateLayoutWithMetrics]
  by_cases hguard : (if state.isVertical then bounds.size.height else bounds.size.width) ≤
      EPSILON ∨ (if state.isVertical then bounds.size.width else bounds.size.height) ≤ EPSILON ∨
        state.panels.isEmpty = true
  · rw [if_pos hguard, if_pos hguard]
  · rw [if_neg hguard, if_neg hguard]
    exact foldl_layoutPanel_congr _ _ _ rfl rfl

variable (htakes : state.TakesSpace)

include htakes

theorem length_childRects (hroom : bounds.HasRoom) :
    (state.childRects bounds).length = state.panels.length := by
  by_cases hpanels : state.panels = []
  · rw [childRects_of_thin (.inr hpanels), hpanels]
    rfl
  · obtain ⟨_, spans, _, _, _, hrects, _, _, hlengths, _⟩ :=
      pushStateLayout_of_room htakes hroom hpanels
        ⟨state.groupId, state.orientation, bounds, [], [], []⟩
    have hcount := congrArg List.length hlengths
    rw [length_map, length_map] at hcount
    rw [childRects, hrects, length_map, hcount]

/-- Where the fractions do not exceed the whole, no point is in two children, and only
points of the rectangle are in any. -/
theorem countP_childRects_le (hsum : fractionSum state.panels ≤ 1) (point : UiPoint) :
    (state.childRects bounds).countP (·.contains point) ≤
      if bounds.contains point then 1 else 0 := by
  by_cases hthin : ¬bounds.HasRoom ∨ state.panels = []
  · rw [childRects_of_thin hthin]
    exact zero_le _
  · rw [not_or, not_not] at hthin
    obtain ⟨panelAxis, spans, handleSpans, lengths, haxis, hrects, _, _, hlengths, hlaid, hnonneg,
      htotal⟩ := pushStateLayout_of_room htakes hthin.1 hthin.2
        ⟨state.groupId, state.orientation, bounds, [], [], []⟩
    rw [childRects, hrects, UiRect.countP_slices, bounds.contains_eq state.isVertical]
    by_cases hacross : (bounds.side (!state.isVertical)).holds
        (point.along (!state.isVertical)) = true
    · rw [hacross, Bool.and_true]
      by_cases hfit : state.HandlesFit bounds
      · have hpanelAxis : panelAxis = (bounds.side state.isVertical).length -
            state.metrics.handleHitSize * state.handles.length := by
          rw [haxis]
          exact max_eq_left (sub_nonneg.mpr hfit)
        have hpos : 0 ≤ panelAxis := haxis ▸ le_max_right _ _
        have hwithin : lengths.sum ≤ (bounds.side state.isVertical).length := by
          have hshare := mul_le_of_le_one_right hpos hsum
          linarith
        have hpart : spans.countP (·.holds (point.along state.isVertical)) ≤ (Span.laid (bounds.side
            state.isVertical).start lengths).countP (·.holds (point.along state.isVertical)) := by
          rw [← hlaid.countP_eq, countP_append]
          exact le_add_right _ _
        rw [countP_laid hnonneg] at hpart
        apply hpart.trans
        by_cases hon : (⟨(bounds.side state.isVertical).start, lengths.sum⟩ : Span Scalar).holds
            (point.along state.isVertical) = true
        · have hside : (bounds.side state.isVertical).holds
              (point.along state.isVertical) = true := by
            rw [holds_iff] at hon ⊢
            refine ⟨hon.1, hon.2.trans_le ?_⟩
            exact add_le_add_right hwithin _
          rw [if_pos hon, if_pos hside]
        · rw [if_neg hon]
          exact zero_le _
      · -- the handles leave nothing to the panels, which are empty
        have hpanelAxis : panelAxis = 0 := by
          rw [haxis]
          exact max_eq_right (sub_nonpos.mpr (not_le.mp hfit).le)
        have hnone : spans.countP (·.holds (point.along state.isVertical)) = 0 := by
          rw [countP_eq_zero]
          intro span hspan
          have hmem : span.length ∈ state.panels.map (panelAxis * ·.fraction) :=
            hlengths ▸ mem_map_of_mem hspan
          obtain ⟨panel, _, hlength⟩ := mem_map.mp hmem
          rw [hpanelAxis, zero_mul] at hlength
          rw [holds_iff, Span.stop, ← hlength, add_zero]
          exact fun h => absurd h.2 (not_lt.mpr h.1)
        rw [hnone]
        exact zero_le _
    · rw [if_neg hacross]
      exact zero_le _

/-- Where the fractions share out the whole and the handles fit, every point of the
rectangle is in one child or handle. -/
theorem countP_pushStateLayout (hroom : bounds.HasRoom)
    (hsum : fractionSum state.panels = 1) (hfit : state.HandlesFit bounds)
    (scene : SplitterLayoutScene) (point : UiPoint) :
    (state.childRects bounds).countP (·.contains point) +
        (scene.pushStateLayout state bounds false).2.handles.countP (·.bounds.contains point) =
      scene.handles.countP (·.bounds.contains point) + if bounds.contains point then 1 else 0 := by
  have hpanels : state.panels ≠ [] := by
    intro hnone
    rw [hnone] at hsum
    exact zero_ne_one hsum
  obtain ⟨panelAxis, spans, handleSpans, lengths, haxis, hrects, hhandles, _, _, hlaid, hnonneg,
    htotal⟩ := pushStateLayout_of_room htakes hroom hpanels scene
  have hpanelAxis : panelAxis = (bounds.side state.isVertical).length -
      state.metrics.handleHitSize * state.handles.length := by
    rw [haxis]
    exact max_eq_left (sub_nonneg.mpr hfit)
  have hwhole : (⟨(bounds.side state.isVertical).start, lengths.sum⟩ : Span Scalar) =
      bounds.side state.isVertical := by
    rw [htotal, hsum, hpanelAxis, mul_one, sub_add_cancel]
  have hhandleCount : ∀ handles : List SplitterHandleLayout, handles.countP (·.bounds.contains
      point) = (handles.map (·.bounds)).countP (·.contains point) := by
    intro handles
    rw [countP_map]
    rfl
  rw [← pushStateLayout_fst scene, hrects, hhandleCount, hhandles, countP_append,
    UiRect.countP_slices, UiRect.countP_slices, hhandleCount scene.handles,
    bounds.contains_eq state.isVertical]
  by_cases hacross : (bounds.side (!state.isVertical)).holds
      (point.along (!state.isVertical)) = true
  · rw [if_pos hacross, if_pos hacross, hacross, Bool.and_true, ← hwhole,
      ← countP_laid hnonneg, ← hlaid.countP_eq, countP_append]
    omega
  · rw [Bool.not_eq_true] at hacross
    rw [hacross]
    simp

end SplitterState

end OpenGpui.UiCore
