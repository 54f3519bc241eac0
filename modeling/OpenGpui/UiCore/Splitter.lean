/-
Splitter states: panels with their bounds, resolved from descriptors, and the
redistribution that makes their fractions add up to one.
-/
import OpenGpui.UiCore.SplitFractions
import Mathlib.Algebra.Order.AbsoluteValue.Basic

namespace OpenGpui.UiCore

open List Bool

inductive Orientation where
  | horizontal
  | vertical
deriving DecidableEq

inductive Size where
  | xSmall
  | small
  | medium
  | large

def Size.controlRadius : Size → Scalar
  | .xSmall => 6
  | .small => 6
  | .medium => 8
  | .large => 8

inductive SplitterHandlePlacement where
  | betweenPanels
  | overlayBoundary

structure SplitterMetrics where
  handleThickness : Scalar
  handleHitSize : Scalar
  radius : Scalar
  handlePlacement : SplitterHandlePlacement

def SplitterMetrics.fromSize (size : Size) : SplitterMetrics where
  handleThickness :=
    match size with
    | .xSmall | .small => 1
    | .medium | .large => 2
  handleHitSize :=
    match size with
    | .xSmall => 8
    | .small => 10
    | .medium => 12
    | .large => 14
  radius := size.controlRadius
  handlePlacement := .betweenPanels

/-- What a panel is asked to be. -/
structure SplitterPanelDescriptor where
  id : String
  fraction : Scalar
  minFraction : Scalar := 1 / 10
  maxFraction : Scalar := 1
  collapsible : Bool := false
  collapsed : Bool := false
  collapsedFraction : Scalar := 0

/-- A panel with its present fraction. -/
structure SplitterPanelState where
  id : String
  fraction : Scalar
  minFraction : Scalar
  maxFraction : Scalar
  collapsible : Bool
  collapsed : Bool
  collapsedFraction : Scalar

structure SplitterHandleState where
  index : Nat
  beforeId : String
  afterId : String
  disabled : Bool

def sanitizeMaxFraction (fraction : Scalar) : Scalar :=
  if fraction.isFinite then max fraction 0 else 1

namespace SplitterPanelState

def fromDescriptor (descriptor : SplitterPanelDescriptor) : SplitterPanelState :=
  let minFraction := min (sanitizeFraction descriptor.minFraction) 1
  let maxFraction := min (max (sanitizeMaxFraction descriptor.maxFraction) minFraction) 1
  let collapsible := descriptor.collapsible
  let collapsed := collapsible && descriptor.collapsed
  let collapsedFraction := max (min (sanitizeFraction descriptor.collapsedFraction) maxFraction) 0
  let fraction :=
    if collapsed then collapsedFraction
    else Scalar.clamp (sanitizeFraction descriptor.fraction) minFraction maxFraction
  { id := descriptor.id, fraction, minFraction, maxFraction, collapsible, collapsed,
    collapsedFraction }

variable (panel : SplitterPanelState)

/-- A collapsed panel is held at its collapsed size from both sides. -/
def lowerBound : Scalar := if panel.collapsed then panel.collapsedFraction else panel.minFraction

def upperBound : Scalar := if panel.collapsed then panel.collapsedFraction else panel.maxFraction

/-- The bounds of a panel are in order and its fraction lies between them. -/
structure Bounded (panel : SplitterPanelState) : Prop where
  min_nonneg : 0 ≤ panel.minFraction
  min_le_max : panel.minFraction ≤ panel.maxFraction
  max_le_one : panel.maxFraction ≤ 1
  collapsed_nonneg : 0 ≤ panel.collapsedFraction
  collapsed_le_max : panel.collapsedFraction ≤ panel.maxFraction
  collapsible_of_collapsed : panel.collapsed = true → panel.collapsible = true
  lower_le : panel.lowerBound ≤ panel.fraction
  le_upper : panel.fraction ≤ panel.upperBound

/-- Everything of a panel that redistribution leaves alone. -/
def frame : SplitterPanelState := { panel with fraction := 0 }

/-- How much a panel may still take. -/
def growRoom : Scalar := max (panel.maxFraction - panel.fraction) 0

/-- How much a panel may still give. -/
def shrinkRoom : Scalar := max (panel.fraction - panel.minFraction) 0

variable (take : Scalar)

def grow : SplitterPanelState :=
  { panel with fraction := min (panel.fraction + take) panel.maxFraction }

def shrink : SplitterPanelState :=
  { panel with fraction := max (panel.fraction - take) panel.minFraction }

end SplitterPanelState

def fractionSum (panels : List SplitterPanelState) : Scalar := (panels.map (·.fraction)).sum

/-- The room of the panels that are not collapsed. -/
def openRoom (room : SplitterPanelState → Scalar) (panels : List SplitterPanelState) : Scalar :=
  ((panels.filter (!·.collapsed)).map room).sum

/-- Updates every panel that is not collapsed. -/
def mapOpen (update : SplitterPanelState → SplitterPanelState)
    (panels : List SplitterPanelState) : List SplitterPanelState :=
  panels.map fun panel => if !panel.collapsed then update panel else panel

/-- The rounds of `fit_panel_sum` that are left. -/
def fitPanelRounds : Nat → List SplitterPanelState → Scalar → List SplitterPanelState
  | 0, panels, _ => panels
  | rounds + 1, panels, target =>
    let diff := target - fractionSum panels
    if !diff.isFinite || decide (|diff| ≤ EPSILON) then panels
    else if diff > 0 then
      let room := openRoom (·.growRoom) panels
      if room ≤ EPSILON then panels
      else
        fitPanelRounds rounds
          (mapOpen (fun panel => panel.grow (diff * (panel.growRoom / room))) panels) target
    else
      let room := openRoom (·.shrinkRoom) panels
      if room ≤ EPSILON then panels
      else
        fitPanelRounds rounds
          (mapOpen (fun panel => panel.shrink (-diff * (panel.shrinkRoom / room))) panels) target

def fitPanelSum (panels : List SplitterPanelState) (target : Scalar) : List SplitterPanelState :=
  fitPanelRounds 8 panels target

/-- Moves the first panel that is not collapsed by the difference, within its bounds. -/
def adjustFirstOpen (diff : Scalar) : List SplitterPanelState → List SplitterPanelState
  | [] => []
  | panel :: rest =>
    if !panel.collapsed then
      { panel with
        fraction := Scalar.clamp (panel.fraction + diff) panel.minFraction panel.maxFraction }
        :: rest
    else panel :: adjustFirstOpen diff rest

def normalizePanelFractions (panels : List SplitterPanelState) : List SplitterPanelState :=
  if panels.isEmpty then panels
  else
    let panels := fitPanelSum panels 1
    let sum := fractionSum panels
    if sum.isFinite && decide (sum > EPSILON) then
      let diff := 1 - sum
      if |diff| > EPSILON then (adjustFirstOpen diff panels.reverse).reverse else panels
    else panels

def resolveHandles (panels : List SplitterPanelState) (disabled : Bool) :
    List SplitterHandleState :=
  (panels.zip panels.tail).mapIdx fun index pair =>
    { index, beforeId := pair.1.id, afterId := pair.2.id,
      disabled := disabled || (pair.1.collapsed && pair.2.collapsed) }

section Bounded

variable {panel : SplitterPanelState}

namespace SplitterPanelState

theorem fromDescriptor_bounded (descriptor : SplitterPanelDescriptor) :
    (fromDescriptor descriptor).Bounded := by
  have hmin : 0 ≤ min (max descriptor.minFraction 0) 1 := le_min (le_max_right _ _) zero_le_one
  have hcollapsed : 0 ≤ min (max descriptor.collapsedFraction 0)
      (min (max (max descriptor.maxFraction 0) (min (max descriptor.minFraction 0) 1)) 1) :=
    le_min (le_max_right _ _) (hmin.trans (le_min (le_max_right _ _) (min_le_right _ _)))
  constructor
  · simp [fromDescriptor]
  · simp [fromDescriptor, sanitizeMaxFraction]
  · simp [fromDescriptor]
  · simp [fromDescriptor]
  · simp only [fromDescriptor, sanitizeFraction_eq, sanitizeMaxFraction, Scalar.isFinite_eq,
      if_true, max_eq_left hcollapsed]
    exact min_le_right _ _
  · simp only [fromDescriptor, and_eq_true]
    exact fun h => h.1
  · cases hclosed : descriptor.collapsible && descriptor.collapsed with
    | true => simp [lowerBound, fromDescriptor, hclosed]
    | false =>
      simp only [lowerBound, fromDescriptor, hclosed, false_eq_true, if_false, Scalar.clamp]
      exact le_min (le_max_right _ _) (by simp [sanitizeMaxFraction])
  · cases hclosed : descriptor.collapsible && descriptor.collapsed with
    | true => simp [upperBound, fromDescriptor, hclosed]
    | false =>
      simp only [upperBound, fromDescriptor, hclosed, false_eq_true, if_false, Scalar.clamp]
      exact min_le_right _ _

section

variable (h : panel.Bounded)

include h

variable (hopen : panel.collapsed = false)

include hopen

/-- Only an open panel is ever given a new fraction, and one between its bounds. -/
theorem Bounded.withFraction {fraction : Scalar} (hlow : panel.minFraction ≤ fraction)
    (hhigh : fraction ≤ panel.maxFraction) :
    ({ panel with fraction } : SplitterPanelState).Bounded where
  min_nonneg := h.min_nonneg
  min_le_max := h.min_le_max
  max_le_one := h.max_le_one
  collapsed_nonneg := h.collapsed_nonneg
  collapsed_le_max := h.collapsed_le_max
  collapsible_of_collapsed := h.collapsible_of_collapsed
  lower_le := by simpa [lowerBound, hopen] using hlow
  le_upper := by simpa [upperBound, hopen] using hhigh

theorem Bounded.min_le : panel.minFraction ≤ panel.fraction := by
  simpa [lowerBound, hopen] using h.lower_le

theorem Bounded.le_max : panel.fraction ≤ panel.maxFraction := by
  simpa [upperBound, hopen] using h.le_upper

variable {take : Scalar}

theorem Bounded.grow (htake : 0 ≤ take) : (panel.grow take).Bounded := by
  have hlow := h.min_le hopen
  exact h.withFraction hopen (le_min (by linarith) h.min_le_max) (min_le_right _ _)

theorem Bounded.shrink (htake : 0 ≤ take) : (panel.shrink take).Bounded := by
  have hhigh := h.le_max hopen
  exact h.withFraction hopen (le_max_right _ _) (max_le (by linarith) h.min_le_max)

theorem Bounded.clamp (value : Scalar) :
    ({ panel with
      fraction := Scalar.clamp value panel.minFraction panel.maxFraction }
        : SplitterPanelState).Bounded :=
  h.withFraction hopen (le_min (le_max_right _ _) h.min_le_max) (min_le_right _ _)

end

theorem growRoom_nonneg (panel : SplitterPanelState) : 0 ≤ panel.growRoom := le_max_right _ _

theorem shrinkRoom_nonneg (panel : SplitterPanelState) : 0 ≤ panel.shrinkRoom := le_max_right _ _

end SplitterPanelState

/-- What redistribution keeps: every panel bounded, and all but the fractions as it was. -/
structure Redistributes (panels result : List SplitterPanelState) : Prop where
  bounded : ∀ panel ∈ result, panel.Bounded
  frame_eq : result.map (·.frame) = panels.map (·.frame)

variable {panels : List SplitterPanelState}

theorem Redistributes.refl (h : ∀ panel ∈ panels, panel.Bounded) : Redistributes panels panels :=
  ⟨h, rfl⟩

theorem mapOpen_redistributes {update : SplitterPanelState → SplitterPanelState}
    (h : ∀ panel ∈ panels, panel.Bounded)
    (hupdate : ∀ panel : SplitterPanelState, panel.Bounded → panel.collapsed = false →
      (update panel).Bounded)
    (hframe : ∀ panel : SplitterPanelState, (update panel).frame = panel.frame) :
    Redistributes panels (mapOpen update panels) := by
  constructor
  · intro panel hmem
    obtain ⟨original, horiginal, rfl⟩ := mem_map.mp hmem
    cases hopen : original.collapsed with
    | true => simpa using h original horiginal
    | false => simpa using hupdate original (h original horiginal) hopen
  · rw [mapOpen, map_map]
    apply map_congr_left
    intro panel _
    simp only [Function.comp_apply]
    split
    · exact hframe panel
    · rfl

theorem openRoom_nonneg {room : SplitterPanelState → Scalar}
    (h : ∀ panel : SplitterPanelState, 0 ≤ room panel) (panels : List SplitterPanelState) :
    0 ≤ openRoom room panels := by
  apply sum_nonneg
  intro value hmem
  obtain ⟨panel, -, rfl⟩ := mem_map.mp hmem
  exact h panel

theorem fitPanelRounds_redistributes (rounds : Nat) (target : Scalar)
    (h : ∀ panel ∈ panels, panel.Bounded) :
    Redistributes panels (fitPanelRounds rounds panels target) := by
  induction rounds generalizing panels with
  | zero => exact Redistributes.refl h
  | succ rounds ih =>
    simp only [fitPanelRounds]
    split
    · exact Redistributes.refl h
    · split
      · next hdiff =>
        split
        · exact Redistributes.refl h
        · have hstep := mapOpen_redistributes h (fun panel hpanel hopen =>
            hpanel.grow hopen (mul_nonneg (le_of_lt hdiff) (div_nonneg panel.growRoom_nonneg
              (openRoom_nonneg SplitterPanelState.growRoom_nonneg panels)))) (fun _ => rfl)
          have hrest := ih hstep.bounded
          exact ⟨hrest.bounded, hrest.frame_eq.trans hstep.frame_eq⟩
      · next hdiff =>
        split
        · exact Redistributes.refl h
        · have hneg : 0 ≤ -(target - fractionSum panels) := by linarith
          have hstep := mapOpen_redistributes h (fun panel hpanel hopen =>
            hpanel.shrink hopen (mul_nonneg hneg (div_nonneg panel.shrinkRoom_nonneg
              (openRoom_nonneg SplitterPanelState.shrinkRoom_nonneg panels)))) (fun _ => rfl)
          have hrest := ih hstep.bounded
          exact ⟨hrest.bounded, hrest.frame_eq.trans hstep.frame_eq⟩

theorem adjustFirstOpen_redistributes (diff : Scalar) (h : ∀ panel ∈ panels, panel.Bounded) :
    Redistributes panels (adjustFirstOpen diff panels) := by
  induction panels with
  | nil => exact Redistributes.refl h
  | cons panel rest ih =>
    have hpanel := h panel mem_cons_self
    have hrest := ih fun other hother => h other (mem_cons_of_mem _ hother)
    cases hopen : panel.collapsed with
    | false =>
      simp only [adjustFirstOpen, hopen, Bool.not_false, if_true]
      refine ⟨fun other hother => ?_, by simp [SplitterPanelState.frame, hopen]⟩
      rcases mem_cons.mp hother with rfl | hother
      · exact hopen ▸ hpanel.clamp hopen _
      · exact h other (mem_cons_of_mem _ hother)
    | true =>
      simp only [adjustFirstOpen, hopen, Bool.not_true, Bool.false_eq_true, if_false]
      refine ⟨fun other hother => ?_, by simp [hrest.frame_eq]⟩
      rcases mem_cons.mp hother with rfl | hother
      · exact hpanel
      · exact hrest.bounded other hother

theorem normalizePanelFractions_redistributes (h : ∀ panel ∈ panels, panel.Bounded) :
    Redistributes panels (normalizePanelFractions panels) := by
  have hfit : Redistributes panels (fitPanelSum panels 1) := fitPanelRounds_redistributes 8 1 h
  simp only [normalizePanelFractions]
  split
  · exact Redistributes.refl h
  · split
    · split
      · have hlast := adjustFirstOpen_redistributes (1 - fractionSum (fitPanelSum panels 1))
          (fun panel hpanel => hfit.bounded panel (mem_reverse.mp hpanel))
        refine ⟨fun panel hpanel => hlast.bounded panel (mem_reverse.mp hpanel), ?_⟩
        rw [map_reverse, hlast.frame_eq, map_reverse, reverse_reverse, hfit.frame_eq]
      · exact hfit
    · exact hfit

end Bounded

/-- A resolved splitter: its panels are bounded and its handles belong to them. -/
structure SplitterState where
  groupId : String
  orientation : Orientation
  size : Size
  disabled : Bool
  panels : List SplitterPanelState
  handles : List SplitterHandleState
  metrics : SplitterMetrics
  panels_bounded : ∀ panel ∈ panels, panel.Bounded
  handles_eq : handles = resolveHandles panels disabled

namespace SplitterState

theorem fromDescriptors_bounded (descriptors : List SplitterPanelDescriptor) :
    ∀ panel ∈ descriptors.map SplitterPanelState.fromDescriptor, panel.Bounded := by
  intro panel hmem
  obtain ⟨descriptor, -, rfl⟩ := mem_map.mp hmem
  exact SplitterPanelState.fromDescriptor_bounded descriptor

def resolve (groupId : String) (orientation : Orientation) (size : Size) (disabled : Bool)
    (panels : List SplitterPanelDescriptor) : SplitterState :=
  let panels' := normalizePanelFractions (panels.map SplitterPanelState.fromDescriptor)
  { groupId, orientation, size, disabled
    panels := panels'
    handles := resolveHandles panels' disabled
    metrics := SplitterMetrics.fromSize size
    panels_bounded :=
      (normalizePanelFractions_redistributes (fromDescriptors_bounded panels)).bounded
    handles_eq := rfl }

end SplitterState

end OpenGpui.UiCore
