/-
Resizing a splitter at one of its handles, in fractions and in pixels.
-/
import OpenGpui.UiCore.SplitterFit

namespace OpenGpui.UiCore

open List Scalar SplitterState SplitterPanelState

open SplitterPanelState

inductive SplitterResizeOutcome where
  | applied
  | clamped
  | rejected
deriving DecidableEq

structure SplitterResizeResult where
  state : SplitterState
  outcome : SplitterResizeOutcome

def collapsedRestoreThreshold (panel : SplitterPanelState) : Scalar :=
  max panel.minFraction panel.collapsedFraction

/-- The panel after the attempt, and whether the attempt went through. -/
def applyResizeFraction (panel : SplitterPanelState) (fraction : Scalar) :
    SplitterPanelState × Bool :=
  let fraction := sanitizeFraction fraction
  if panel.collapsed && decide (fraction + EPSILON < collapsedRestoreThreshold panel) then
    ({ panel with fraction := panel.collapsedFraction }, false)
  else
    ({ panel with
        collapsed := false
        fraction := Scalar.clamp fraction panel.minFraction panel.maxFraction }, true)

/-- The part of a delta that both neighbours of a handle have room for. -/
def clampedDelta (before after : SplitterPanelState) (deltaFraction : Scalar) : Scalar :=
  if deltaFraction > 0 then
    let growRoom := before.maxFraction - before.fraction
    let shrinkRoom := after.fraction - after.minFraction
    min (min deltaFraction (max growRoom 0)) (max shrinkRoom 0)
  else
    let shrinkRoom := before.fraction - before.minFraction
    let growRoom := after.maxFraction - after.fraction
    (-min (min (-deltaFraction) (max shrinkRoom 0)) (max growRoom 0))

/-- Both neighbours moved by the delta, unless it is too small or one of them refuses. -/
def resizePair (before after : SplitterPanelState) (delta : Scalar) :
    Option (SplitterPanelState × SplitterPanelState) :=
  if |delta| ≤ EPSILON then none
  else
    let before' := applyResizeFraction before (before.fraction + delta)
    let after' := applyResizeFraction after (after.fraction - delta)
    if !before'.2 || !after'.2 then none else some (before'.1, after'.1)

/-- The panels and the outcome of a resize that passed its first checks. -/
def resizePanels (panels : List SplitterPanelState) (handleIndex : Nat)
    (deltaFraction : Scalar) : Option (List SplitterPanelState × SplitterResizeOutcome) :=
  match panels[handleIndex]?, panels[handleIndex + 1]? with
  | some before, some after =>
    let delta := clampedDelta before after deltaFraction
    (resizePair before after delta).map fun pair =>
      (normalizePanelFractions ((panels.set handleIndex pair.1).set (handleIndex + 1) pair.2),
        if |delta - deltaFraction| > EPSILON then .clamped else .applied)
  | _, _ => none

theorem applyResizeFraction_bounded {panel : SplitterPanelState} (h : panel.Bounded)
    (fraction : Scalar) : (applyResizeFraction panel fraction).1.Bounded := by
  simp only [applyResizeFraction]
  split
  · next hclosed =>
    simp only [Bool.and_eq_true] at hclosed
    exact ⟨h.min_nonneg, h.min_le_max, h.max_le_one, h.collapsed_nonneg, h.collapsed_le_max,
      h.collapsible_of_collapsed, by simp [lowerBound, hclosed.1],
      by simp [upperBound, hclosed.1]⟩
  · exact ⟨h.min_nonneg, h.min_le_max, h.max_le_one, h.collapsed_nonneg, h.collapsed_le_max,
      fun hclosed => absurd hclosed (by simp),
      by simpa [lowerBound, Scalar.clamp] using h.min_le_max,
      by simp [upperBound, Scalar.clamp]⟩

theorem resizePair_eq_some {before after : SplitterPanelState} {delta : Scalar}
    {pair : SplitterPanelState × SplitterPanelState}
    (h : resizePair before after delta = some pair) :
    EPSILON < |delta| ∧ applyResizeFraction before (before.fraction + delta) = (pair.1, true)
      ∧ applyResizeFraction after (after.fraction - delta) = (pair.2, true) := by
  simp only [resizePair] at h
  split at h
  · exact absurd h (by simp)
  · next hdelta =>
    split at h
    · exact absurd h (by simp)
    · next hpassed =>
      simp only [Bool.or_eq_true, Bool.not_eq_true', not_or, Bool.not_eq_false] at hpassed
      cases h
      exact ⟨not_le.mp hdelta, Prod.ext rfl hpassed.1, Prod.ext rfl hpassed.2⟩

variable {panels : List SplitterPanelState} {result : List SplitterPanelState}

variable {outcome : SplitterResizeOutcome}

/-- A resize that goes through, told by the two panels it started from. -/
theorem resizePanels_eq_some {handleIndex : Nat} {deltaFraction : Scalar}
    (h : resizePanels panels handleIndex deltaFraction = some (result, outcome)) :
    ∃ before after pair, panels[handleIndex]? = some before ∧ panels[handleIndex + 1]? = some after
      ∧ resizePair before after (clampedDelta before after deltaFraction) = some pair
      ∧ result = normalizePanelFractions
          ((panels.set handleIndex pair.1).set (handleIndex + 1) pair.2)
      ∧ outcome = if |clampedDelta before after deltaFraction - deltaFraction| > EPSILON
          then .clamped else .applied := by
  simp only [resizePanels] at h
  split at h
  · next before after hbefore hafter =>
    rw [Option.map_eq_some_iff] at h
    obtain ⟨pair, hpair, heq⟩ := h
    simp only [Prod.mk.injEq] at heq
    exact ⟨before, after, pair, hbefore, hafter, hpair, heq.1.symm, heq.2.symm⟩
  · exact absurd h (by simp)

theorem set_set_bounded {index other : Nat}
    {first second : SplitterPanelState} (h : ∀ panel ∈ panels, panel.Bounded)
    (hfirst : first.Bounded) (hsecond : second.Bounded) :
    ∀ panel ∈ (panels.set index first).set other second, panel.Bounded := by
  intro panel hmem
  rcases mem_or_eq_of_mem_set hmem with hmem | rfl
  · rcases mem_or_eq_of_mem_set hmem with hmem | rfl
    · exact h panel hmem
    · exact hfirst
  · exact hsecond

theorem resizedPair_bounded {handleIndex : Nat} {before after before' after' : SplitterPanelState}
    {first second : Scalar} (hbounded : ∀ panel ∈ panels, panel.Bounded)
    (hbefore : panels[handleIndex]? = some before)
    (hafter : panels[handleIndex + 1]? = some after)
    (hfirst : applyResizeFraction before first = (before', true))
    (hsecond : applyResizeFraction after second = (after', true)) :
    ∀ panel ∈ (panels.set handleIndex before').set (handleIndex + 1) after', panel.Bounded := by
  have hbefore' := applyResizeFraction_bounded (hbounded before (mem_of_getElem? hbefore)) first
  have hafter' := applyResizeFraction_bounded (hbounded after (mem_of_getElem? hafter)) second
  rw [hfirst] at hbefore'
  rw [hsecond] at hafter'
  exact set_set_bounded hbounded hbefore' hafter'

theorem resizePanels_bounded {handleIndex : Nat} {deltaFraction : Scalar}
    (hbounded : ∀ panel ∈ panels, panel.Bounded)
    (h : resizePanels panels handleIndex deltaFraction = some (result, outcome)) :
    ∀ panel ∈ result, panel.Bounded := by
  obtain ⟨before, after, pair, hbefore, hafter, hpair, rfl, -⟩ := resizePanels_eq_some h
  obtain ⟨-, hfirst, hsecond⟩ := resizePair_eq_some hpair
  exact (normalizePanelFractions_redistributes
    (resizedPair_bounded hbounded hbefore hafter hfirst hsecond)).bounded

namespace SplitterState

variable (state : SplitterState)

/-- The same splitter over other panels, with the handles that belong to them. -/
def withPanels (panels : List SplitterPanelState)
    (h : ∀ panel ∈ panels, panel.Bounded) : SplitterState :=
  { state with
    panels
    handles := resolveHandles panels state.disabled
    panels_bounded := h
    handles_eq := rfl }

def resizeBy (handleIndex : Nat) (deltaFraction : Scalar) : SplitterResizeResult :=
  if (state.handles[handleIndex]?).all (·.disabled) || !deltaFraction.isFinite
      || decide (|deltaFraction| ≤ EPSILON) || decide (handleIndex + 1 ≥ state.panels.length) then
    ⟨state, .rejected⟩
  else
    match h : resizePanels state.panels handleIndex deltaFraction with
    | none => ⟨state, .rejected⟩
    | some (panels, outcome) =>
      ⟨state.withPanels panels (resizePanels_bounded state.panels_bounded h), outcome⟩

def resizeByPixels (handleIndex : Nat) (axisExtent delta : Scalar) : SplitterResizeResult :=
  if !axisExtent.isFinite || decide (axisExtent ≤ EPSILON) then ⟨state, .rejected⟩
  else state.resizeBy handleIndex (delta / axisExtent)

end SplitterState

/-- The panel of one share: the pair next to the handle is held between two bounds. -/
def pairDescriptor (handleIndex : Nat) (minFraction maxPairFraction : Scalar) (index : Nat)
    (share : Scalar) : SplitterPanelDescriptor :=
  let descriptor : SplitterPanelDescriptor :=
    { id := "panel-" ++ toString index, fraction := share }
  if index = handleIndex ∨ index = handleIndex + 1 then
    { descriptor with minFraction, maxFraction := maxPairFraction }
  else { descriptor with minFraction := 0 }

def resizeSplitFractionsByPixels (fractions : List Scalar) (handleIndex : Nat)
    (axisExtent delta minPanelExtent : Scalar) : Option (List Scalar) :=
  let childCount := fractions.length
  if childCount < 2 || decide (handleIndex + 1 ≥ childCount) then none
  else if !axisExtent.isFinite || decide (axisExtent ≤ EPSILON) then none
  else
    let shares := resolveSplitFractions childCount fractions
    let pairTotal := shares[handleIndex]?.getD 0 + shares[handleIndex + 1]?.getD 0
    if !pairTotal.isFinite || decide (pairTotal ≤ EPSILON) then none
    else
      let minFraction := Scalar.clamp (max minPanelExtent 0 / axisExtent) 0 (pairTotal / 2)
      let maxPairFraction := pairTotal - minFraction
      let state :=
        resolve "split-fraction-resize" .horizontal .medium false
          (shares.mapIdx (pairDescriptor handleIndex minFraction maxPairFraction))
      let resized := state.resizeByPixels handleIndex axisExtent delta
      some (resized.state.panels.map (·.fraction))

section Pair

variable {panel before after : SplitterPanelState} {amount : Scalar}

/-- A panel can only be made smaller while it is open, and gives exactly what is asked. -/
theorem applyResizeFraction_shrinks (h : panel.Bounded)
    (hamount : EPSILON < amount) (hroom : amount ≤ panel.fraction - panel.minFraction)
    (hpassed : (applyResizeFraction panel (panel.fraction - amount)).2 = true) :
    panel.collapsed = false ∧ (applyResizeFraction panel (panel.fraction - amount)).1
        = { panel with fraction := panel.fraction - amount } := by
  have hnonneg : 0 ≤ panel.fraction - amount := by
    have hmin := h.min_nonneg
    linarith
  have hopen : panel.collapsed = false := by
    by_contra hclosed
    rw [Bool.not_eq_false] at hclosed
    have hfraction : panel.fraction ≤ panel.collapsedFraction := by
      simpa [upperBound, hclosed] using h.le_upper
    have hrefused : panel.fraction - amount + EPSILON < collapsedRestoreThreshold panel :=
      lt_max_of_lt_right (by linarith)
    simp [applyResizeFraction, hclosed, max_eq_left hnonneg, hrefused] at hpassed
  refine ⟨hopen, ?_⟩
  have hamount' := EPSILON_pos.trans hamount
  have hmax := h.le_max hopen
  simp only [applyResizeFraction, hopen, Bool.false_and, Bool.false_eq_true, if_false,
    sanitizeFraction_eq, max_eq_left hnonneg]
  rw [clamp_of_mem (by linarith) (by linarith)]

/-- A panel that is made larger ends open, at the target or at its minimum above it. -/
theorem applyResizeFraction_grows (h : panel.Bounded)
    (hamount : 0 < amount) (hroom : amount ≤ panel.maxFraction - panel.fraction)
    (hpassed : (applyResizeFraction panel (panel.fraction + amount)).2 = true) :
    (applyResizeFraction panel (panel.fraction + amount)).1 =
        { panel with
          collapsed := false
          fraction := max (panel.fraction + amount) panel.minFraction }
      ∧ panel.minFraction ≤ panel.fraction + amount + EPSILON
      ∧ (panel.collapsed = false → panel.minFraction ≤ panel.fraction + amount) := by
  have hlower : 0 ≤ panel.lowerBound := by
    cases hopen : panel.collapsed with
    | true => simpa [lowerBound, hopen] using h.collapsed_nonneg
    | false => simpa [lowerBound, hopen] using h.min_nonneg
  have hnonneg : 0 ≤ panel.fraction + amount := by
    have hle := h.lower_le
    linarith
  have hmin_of_open : panel.collapsed = false → panel.minFraction ≤ panel.fraction + amount := by
    intro hopen
    have hle := h.min_le hopen
    linarith
  have hrefused : ¬ (panel.collapsed && decide
      (panel.fraction + amount + EPSILON < collapsedRestoreThreshold panel)) = true := by
    intro hrefused
    simp [applyResizeFraction, max_eq_left hnonneg, hrefused] at hpassed
  refine ⟨?_, ?_, hmin_of_open⟩
  · simp only [applyResizeFraction, sanitizeFraction_eq, max_eq_left hnonneg, if_neg hrefused,
      Scalar.clamp]
    rw [min_eq_left (max_le (by linarith) h.min_le_max)]
  · cases hopen : panel.collapsed with
    | false =>
      have hle := hmin_of_open hopen
      linarith [EPSILON_pos]
    | true =>
      simp only [hopen, Bool.true_and, decide_eq_true_eq, not_lt] at hrefused
      exact (le_max_left _ _).trans hrefused

/-- The neighbour that a delta makes larger. -/
def growing (before after : SplitterPanelState) (deltaFraction : Scalar) : SplitterPanelState :=
  if deltaFraction > 0 then before else after

/-- How far below its minimum the growing neighbour would come out of its collapse. -/
def restoreShortfall (before after : SplitterPanelState) (deltaFraction : Scalar) : Scalar :=
  let panel := growing before after deltaFraction
  max (panel.minFraction - (panel.fraction + |clampedDelta before after deltaFraction|)) 0

variable {deltaFraction : Scalar}

/-- A demand that is cut at two rooms, and moves something, stays within both. -/
theorem lt_clamped {moved demand room room' : Scalar} (hdemand : 0 ≤ demand)
    (hmoved : moved = min (min demand (max room 0)) (max room' 0)) (h : EPSILON < |moved|) :
    EPSILON < moved ∧ moved ≤ room ∧ moved ≤ room' := by
  have hnonneg : 0 ≤ moved := by
    rw [hmoved]
    exact le_min (le_min hdemand (le_max_right _ _)) (le_max_right _ _)
  rw [abs_of_nonneg hnonneg] at h
  have hpos := EPSILON_pos.trans h
  have hle : moved ≤ max room 0 := hmoved.trans_le ((min_le_left _ _).trans (min_le_right _ _))
  have hle' : moved ≤ max room' 0 := hmoved.trans_le (min_le_right _ _)
  exact ⟨h, (le_max_iff.mp hle).resolve_right (not_le.mpr hpos),
    (le_max_iff.mp hle').resolve_right (not_le.mpr hpos)⟩

theorem clampedDelta_of_pos (h : 0 < deltaFraction)
    (hdelta : EPSILON < |clampedDelta before after deltaFraction|) :
    EPSILON < clampedDelta before after deltaFraction
      ∧ clampedDelta before after deltaFraction ≤ before.maxFraction - before.fraction
      ∧ clampedDelta before after deltaFraction ≤ after.fraction - after.minFraction :=
  lt_clamped h.le (by simp [clampedDelta, h]) hdelta

theorem clampedDelta_of_nonpos (h : ¬ 0 < deltaFraction)
    (hdelta : EPSILON < |clampedDelta before after deltaFraction|) :
    EPSILON < -clampedDelta before after deltaFraction
      ∧ -clampedDelta before after deltaFraction ≤ before.fraction - before.minFraction
      ∧ -clampedDelta before after deltaFraction ≤ after.maxFraction - after.fraction :=
  lt_clamped (neg_nonneg.mpr (not_lt.mp h)) (by simp [clampedDelta, h])
    (hdelta.trans_eq (abs_neg _).symm)

theorem max_eq_add_shortfall (target low : Scalar) :
    max target low = target + max (low - target) 0 := by
  rw [← max_add_add_left, add_sub_cancel, add_zero, max_comm]

/-- What a pair gains is exactly the shortfall of the panel that is restored. -/
theorem resizePair_total (hbefore : before.Bounded) (hafter : after.Bounded) {pair :
    SplitterPanelState × SplitterPanelState}
    (h : resizePair before after (clampedDelta before after deltaFraction) = some pair) :
    pair.1.fraction + pair.2.fraction
        = before.fraction + after.fraction + restoreShortfall before after deltaFraction
      ∧ restoreShortfall before after deltaFraction ≤ EPSILON
      ∧ ((growing before after deltaFraction).collapsed = false →
          restoreShortfall before after deltaFraction = 0) := by
  obtain ⟨hdelta, hfirst, hsecond⟩ := resizePair_eq_some h
  by_cases hpos : 0 < deltaFraction
  · obtain ⟨hmoved, hgrow, hshrink⟩ := clampedDelta_of_pos hpos hdelta
    have hpositive := EPSILON_pos.trans hmoved
    obtain ⟨hgrown, hnear, hopen⟩ :=
      applyResizeFraction_grows hbefore hpositive hgrow (by rw [hfirst])
    obtain ⟨-, hshrunk⟩ := applyResizeFraction_shrinks hafter hmoved hshrink (by rw [hsecond])
    have hfirstFraction := congrArg fraction (hfirst ▸ hgrown)
    have hsecondFraction := congrArg fraction (hsecond ▸ hshrunk)
    simp only [restoreShortfall, growing, if_pos hpos, abs_of_pos hpositive] at *
    refine ⟨?_, max_le (by linarith) EPSILON_pos.le, fun hclosed => ?_⟩
    · rw [hfirstFraction, hsecondFraction, max_eq_add_shortfall]
      ring
    · exact max_eq_right (by linarith [hopen hclosed])
  · obtain ⟨hmoved, hshrink, hgrow⟩ := clampedDelta_of_nonpos hpos hdelta
    have hpositive := EPSILON_pos.trans hmoved
    have hnegative : clampedDelta before after deltaFraction < 0 := neg_pos.mp hpositive
    rw [sub_eq_add_neg] at hsecond
    rw [← neg_neg (clampedDelta before after deltaFraction), ← sub_eq_add_neg] at hfirst
    obtain ⟨hgrown, hnear, hopen⟩ :=
      applyResizeFraction_grows hafter hpositive hgrow (by rw [hsecond])
    obtain ⟨-, hshrunk⟩ := applyResizeFraction_shrinks hbefore hmoved hshrink (by rw [hfirst])
    have hfirstFraction := congrArg fraction (hfirst ▸ hshrunk)
    have hsecondFraction := congrArg fraction (hsecond ▸ hgrown)
    simp only [restoreShortfall, growing, if_neg hpos, abs_of_neg hnegative] at *
    refine ⟨?_, max_le (by linarith) EPSILON_pos.le, fun hclosed => ?_⟩
    · rw [hfirstFraction, hsecondFraction, max_eq_add_shortfall]
      ring
    · exact max_eq_right (by linarith [hopen hclosed])

/-- Writing over two neighbours moves the sum by what their total changes. -/
theorem sum_set_set {shares : List Scalar} {index : Nat} {first second : Scalar}
    (hfirst : shares[index]? = some first) (hsecond : shares[index + 1]? = some second)
    (first' second' : Scalar) :
    ((shares.set index first').set (index + 1) second').sum =
      shares.sum + (first' + second') - (first + second) := by
  induction shares generalizing index with
  | nil => simp at hfirst
  | cons head rest ih =>
    cases index with
    | zero =>
      obtain ⟨next, rest', rfl⟩ : ∃ next rest', rest = next :: rest' := by
        cases rest with
        | nil => simp at hsecond
        | cons next rest' => exact ⟨next, rest', rfl⟩
      simp only [getElem?_cons_zero, getElem?_cons_succ, Option.some.injEq] at hfirst hsecond
      simp only [set_cons_zero, set_cons_succ, sum_cons, hfirst, hsecond]
      ring
    | succ index =>
      simp only [set_cons_succ, sum_cons, ih hfirst hsecond]
      ring

theorem fractionSum_set_set {panels : List SplitterPanelState} {index : Nat}
    (hbefore : panels[index]? = some before) (hafter : panels[index + 1]? = some after)
    (first second : SplitterPanelState) :
    fractionSum ((panels.set index first).set (index + 1) second) =
      fractionSum panels + (first.fraction + second.fraction)
        - (before.fraction + after.fraction) := by
  simp only [fractionSum, map_set]
  exact sum_set_set (by simp [hbefore]) (by simp [hafter]) _ _

end Pair

/-- What a resize never changes about a panel. -/
def SplitterPanelState.limits (panel : SplitterPanelState) : SplitterPanelState :=
  { panel with fraction := 0, collapsed := false }

theorem applyResizeFraction_limits (panel : SplitterPanelState) (fraction : Scalar)
    (h : (applyResizeFraction panel fraction).2 = true) :
    (applyResizeFraction panel fraction).1.limits = panel.limits := by
  simp only [applyResizeFraction] at h ⊢
  split at h
  · exact absurd h (by simp)
  · next hopen => simp only [if_neg hopen, limits]

namespace SplitterState

theorem resizeBy_cases (state : SplitterState) (handleIndex : Nat) (deltaFraction : Scalar) :
    state.resizeBy handleIndex deltaFraction = ⟨state, .rejected⟩ ∨ ∃ panels outcome,
          ∃ h : resizePanels state.panels handleIndex deltaFraction = some (panels, outcome),
            state.resizeBy handleIndex deltaFraction =
              ⟨state.withPanels panels (resizePanels_bounded state.panels_bounded h), outcome⟩ := by
  simp only [resizeBy]
  split
  · exact .inl rfl
  · split
    · exact .inl rfl
    · next panels outcome h => exact .inr ⟨panels, outcome, h, rfl⟩

variable {handleIndex : Nat} {deltaFraction : Scalar}

theorem resizePanels_not_rejected {panels result : List SplitterPanelState} {outcome :
    SplitterResizeOutcome}
    (h : resizePanels panels handleIndex deltaFraction = some (result, outcome)) :
    outcome ≠ .rejected := by
  obtain ⟨_, _, _, -, -, -, -, rfl⟩ := resizePanels_eq_some h
  split
  · exact fun heq => nomatch heq
  · exact fun heq => nomatch heq

variable {state : SplitterState}

theorem resizeBy_of_rejected (h : (state.resizeBy handleIndex deltaFraction).outcome = .rejected) :
    (state.resizeBy handleIndex deltaFraction).state = state := by
  rcases state.resizeBy_cases handleIndex deltaFraction with heq | ⟨panels, outcome, hsome, heq⟩
  · rw [heq]
  · rw [heq] at h
    exact absurd h (resizePanels_not_rejected hsome)

/-- A resize that goes through writes over the two neighbours of its handle; the pair gains
the shortfall of a panel it restores, and where that overfills the whole the panels are refitted
by making some of them smaller. -/
structure ResizesPair (state result : SplitterState) (handleIndex : Nat) (deltaFraction : Scalar)
    (before after before' after' : SplitterPanelState) (moved : List SplitterPanelState) :
    Prop where
  before_eq : state.panels[handleIndex]? = some before
  after_eq : state.panels[handleIndex + 1]? = some after
  before_limits : before'.limits = before.limits
  after_limits : after'.limits = after.limits
  total : before'.fraction + after'.fraction =
    before.fraction + after.fraction + restoreShortfall before after deltaFraction
  shortfall_le : restoreShortfall before after deltaFraction ≤ EPSILON
  shortfall_eq_zero : (growing before after deltaFraction).collapsed = false →
    restoreShortfall before after deltaFraction = 0
  moved_eq : moved = (state.panels.set handleIndex before').set (handleIndex + 1) after'
  result_eq : result = state.withPanels result.panels result.panels_bounded
  kept : |1 - (fractionSum state.panels + restoreShortfall before after deltaFraction)| ≤ EPSILON →
    result.panels = moved
  refitted : Forall₂ GivesUp moved result.panels
  sum : lowerSum moved ≤ 1 → |1 - fractionSum result.panels| ≤ EPSILON

theorem resizeBy_of_not_rejected (hsum : |1 - fractionSum state.panels| ≤ EPSILON)
    (h : (state.resizeBy handleIndex deltaFraction).outcome ≠ .rejected) :
    ∃ before after before' after' moved,
      ResizesPair state (state.resizeBy handleIndex deltaFraction).state handleIndex deltaFraction
        before after before' after' moved := by
  rcases state.resizeBy_cases handleIndex deltaFraction with heq | ⟨panels, outcome, hpanels, heq⟩
  · exact absurd (by rw [heq]) h
  · obtain ⟨before, after, pair, hbefore, hafter, hpair, rfl, -⟩ := resizePanels_eq_some hpanels
    obtain ⟨-, hfirst, hsecond⟩ := resizePair_eq_some hpair
    obtain ⟨htotal, hle, hnone⟩ := resizePair_total
      (state.panels_bounded before (mem_of_getElem? hbefore))
      (state.panels_bounded after (mem_of_getElem? hafter)) hpair
    have hmovedSum := fractionSum_set_set hbefore hafter pair.1 pair.2
    rw [htotal, add_sub_assoc, add_sub_cancel_left] at hmovedSum
    have hlimits := applyResizeFraction_limits before _ (by rw [hfirst])
    have hlimits' := applyResizeFraction_limits after _ (by rw [hsecond])
    rw [hfirst] at hlimits
    rw [hsecond] at hlimits'
    have hmoved := resizedPair_bounded state.panels_bounded hbefore hafter hfirst hsecond
    generalize hpair : (state.panels.set handleIndex pair.1).set (handleIndex + 1) pair.2 =
      moved at *
    have hresult : (state.resizeBy handleIndex deltaFraction).state.panels =
        normalizePanelFractions moved := by
      simp only [heq, withPanels]
    have hgain : 0 ≤ restoreShortfall before after deltaFraction := le_max_right _ _
    obtain ⟨hkept, hgives, hmet⟩ := normalizePanelFractions_refits hmoved
      (by linarith [(abs_le.mp hsum).2])
    rw [← hresult] at hkept hgives hmet
    exact ⟨before, after, pair.1, pair.2, moved, hbefore, hafter, hlimits, hlimits', htotal, hle,
      hnone, hpair.symm, by simp only [heq, withPanels], hmovedSum ▸ hkept, hgives, hmet⟩

end SplitterState

section Pixels

theorem set_of_getElem? {α : Type*} {entries : List α} {index : Nat} {entry : α}
    (h : entries[index]? = some entry) : entries.set index entry = entries := by
  obtain ⟨hindex, rfl⟩ := List.getElem?_eq_some_iff.mp h
  exact List.set_getElem_self hindex

/-- While no panel is collapsed, a resize only passes a share from one neighbour to the other. -/
theorem resizeBy_fractions {state : SplitterState} (hsum : |1 - fractionSum state.panels| ≤ EPSILON)
    (hopen : ∀ panel ∈ state.panels, panel.collapsed = false) {handleIndex : Nat}
    {first second : Scalar} (hfirst : (state.panels.map (·.fraction))[handleIndex]? = some first)
    (hsecond : (state.panels.map (·.fraction))[handleIndex + 1]? = some second)
    (deltaFraction : Scalar) :
    ∃ first' second', first' + second' = first + second
      ∧ (state.resizeBy handleIndex deltaFraction).state.panels.map (·.fraction) =
        ((state.panels.map (·.fraction)).set handleIndex first').set (handleIndex + 1) second' := by
  by_cases hrejected : (state.resizeBy handleIndex deltaFraction).outcome = .rejected
  · refine ⟨first, second, rfl, ?_⟩
    rw [resizeBy_of_rejected hrejected, set_of_getElem? hfirst, set_of_getElem? hsecond]
  · obtain ⟨before, after, before', after', moved, h⟩ := resizeBy_of_not_rejected hsum hrejected
    have hgrowing : (growing before after deltaFraction).collapsed = false := by
      rw [growing]
      split
      · exact hopen before (mem_of_getElem? h.before_eq)
      · exact hopen after (mem_of_getElem? h.after_eq)
    have htotal := h.total
    have hkept := h.kept
    rw [h.shortfall_eq_zero hgrowing, add_zero] at htotal hkept
    simp only [getElem?_map, h.before_eq, h.after_eq, Option.map_some, Option.some.injEq]
      at hfirst hsecond
    refine ⟨before'.fraction, after'.fraction, by rw [htotal, hfirst, hsecond], ?_⟩
    rw [hkept hsum, h.moved_eq, map_set, map_set]

/-- Two shares clamped between complementary bounds still add up to their total. -/
theorem clamp_pair {first second low : Scalar} (h : low ≤ first + second - low) :
    Scalar.clamp first low (first + second - low) + Scalar.clamp second low (first + second - low)
      = first + second := by
  simp only [Scalar.clamp]
  rcases le_total first low with hlow | hlow
  · rw [max_eq_right hlow, min_eq_left h, max_eq_left (by linarith), min_eq_right (by linarith)]
    ring
  · rw [max_eq_left hlow]
    rcases le_total first (first + second - low) with hhigh | hhigh
    · rw [min_eq_left hhigh, max_eq_left (by linarith), min_eq_left (by linarith)]
    · rw [min_eq_right hhigh, max_eq_right (by linarith), min_eq_left h]
      ring

variable {shares : List Scalar} {handleIndex : Nat} {first second low : Scalar} {share : Scalar}

theorem share_le_one (h : Normalized shares) (hmem : share ∈ shares) : share ≤ 1 :=
  h.sum_eq_one ▸ single_le_sum h.nonneg share hmem

theorem pair_le_one (h : Normalized shares) (hfirst : shares[handleIndex]? = some first)
    (hsecond : shares[handleIndex + 1]? = some second) : first + second ≤ 1 := by
  obtain ⟨hindex, rfl⟩ := List.getElem?_eq_some_iff.mp hfirst
  obtain ⟨hnext, rfl⟩ := List.getElem?_eq_some_iff.mp hsecond
  have hsplit : shares = shares.take handleIndex
      ++ (shares[handleIndex] :: shares[handleIndex + 1] :: shares.drop (handleIndex + 2)) := by
    rw [← drop_eq_getElem_cons hnext, ← drop_eq_getElem_cons hindex, take_append_drop]
  have hrest : ∀ part : List Scalar, (∀ share ∈ part, share ∈ shares) → 0 ≤ part.sum :=
    fun part hpart => sum_nonneg fun share hmem => h.nonneg share (hpart share hmem)
  have htake := hrest (shares.take handleIndex) fun _ hmem => mem_of_mem_take hmem
  have hdrop := hrest (shares.drop (handleIndex + 2)) fun _ hmem => mem_of_mem_drop hmem
  have hsum := h.sum_eq_one
  rw [hsplit] at hsum
  simp only [sum_append, sum_cons] at hsum
  linarith

theorem pairDescriptor_open (high : Scalar) (index : Nat) (share : Scalar) :
    (fromDescriptor (pairDescriptor handleIndex low high index share)).collapsed = false := by
  simp only [pairDescriptor]
  split <;> rfl

theorem pairDescriptor_fraction {high : Scalar} (hlow : 0 ≤ low) (hle : low ≤ high)
    (hhigh : high ≤ 1) {index : Nat} (hshare : 0 ≤ share) (hone : share ≤ 1) :
    (fromDescriptor (pairDescriptor handleIndex low high index share)).fraction =
      if index = handleIndex ∨ index = handleIndex + 1 then Scalar.clamp share low high
      else share := by
  simp only [pairDescriptor]
  split
  · simp only [fromDescriptor, Bool.false_and, Bool.false_eq_true, if_false, sanitizeFraction_eq,
      sanitizeMaxFraction, isFinite_eq, if_true, max_eq_left hshare, max_eq_left hlow, min_eq_left
      (hle.trans hhigh), max_eq_left (hlow.trans hle), max_eq_left hle, min_eq_left hhigh]
  · simp only [fromDescriptor, Bool.false_and, Bool.false_eq_true, if_false, sanitizeFraction_eq,
      sanitizeMaxFraction, isFinite_eq, if_true, max_eq_left hshare, max_self,
      min_eq_left zero_le_one, max_eq_left zero_le_one, min_self]
    exact clamp_of_mem hshare hone

/-- The panels start out at the shares, the pair clamped to its bounds. -/
theorem pairDescriptors_fractions (h : Normalized shares)
    (hfirst : shares[handleIndex]? = some first)
    (hsecond : shares[handleIndex + 1]? = some second) (hlow : 0 ≤ low)
    (hhalf : low ≤ first + second - low) :
    ((shares.mapIdx (pairDescriptor handleIndex low (first + second - low))).map
        fromDescriptor).map (·.fraction) =
      (shares.set handleIndex (Scalar.clamp first low (first + second - low))).set
        (handleIndex + 1) (Scalar.clamp second low (first + second - low)) := by
  have hpair := pair_le_one h hfirst hsecond
  apply ext_getElem (by simp)
  intro index hindex _
  have hlength : index < shares.length := by simpa using hindex
  have hmem : shares[index] ∈ shares := getElem_mem hlength
  simp only [getElem_map, getElem_mapIdx, getElem_set]
  rw [pairDescriptor_fraction hlow hhalf (by linarith) (h.nonneg _ hmem) (share_le_one h hmem)]
  by_cases hsecondIndex : handleIndex + 1 = index
  · subst hsecondIndex
    obtain ⟨_, heq⟩ := List.getElem?_eq_some_iff.mp hsecond
    simp [heq]
  · by_cases hfirstIndex : handleIndex = index
    · subst hfirstIndex
      obtain ⟨_, heq⟩ := List.getElem?_eq_some_iff.mp hfirst
      simp [heq]
    · have hother : ¬ (index = handleIndex ∨ index = handleIndex + 1) := by omega
      simp [hother, hsecondIndex, hfirstIndex]

/-- The splitter over the panels of the shares needs no redistribution. -/
theorem resolve_pairDescriptors (h : Normalized shares) (hfirst : shares[handleIndex]? = some first)
    (hsecond : shares[handleIndex + 1]? = some second) (hlow : 0 ≤ low)
    (hhalf : low ≤ first + second - low) :
    let panels := (shares.mapIdx (pairDescriptor handleIndex low (first + second - low))).map
      fromDescriptor
    fractionSum panels = 1 ∧ normalizePanelFractions panels = panels := by
  intro panels
  have hsum : fractionSum panels = 1 := by
    rw [fractionSum, pairDescriptors_fractions h hfirst hsecond hlow hhalf,
      sum_set_set hfirst hsecond, clamp_pair hhalf, h.sum_eq_one]
    ring
  refine ⟨hsum, normalizePanelFractions_of_met ?_⟩
  rw [hsum, sub_self]
  exact EPSILON_pos.le

theorem resizeByPixels_pair (h : Normalized shares) (hfirst : shares[handleIndex]? = some first)
    (hsecond : shares[handleIndex + 1]? = some second) (hlow : 0 ≤ low)
    (hhalf : low ≤ first + second - low) {axisExtent : Scalar} (hextent : ¬ axisExtent ≤ EPSILON)
    (delta : Scalar) :
    ∃ first' second', first' + second' = first + second
      ∧ (((resolve "split-fraction-resize" .horizontal .medium false
          (shares.mapIdx (pairDescriptor handleIndex low (first + second - low)))).resizeByPixels
            handleIndex axisExtent delta).state.panels.map (·.fraction)) =
        (shares.set handleIndex first').set (handleIndex + 1) second' := by
  obtain ⟨hsum, hpanels⟩ := resolve_pairDescriptors h hfirst hsecond hlow hhalf
  have hstart := pairDescriptors_fractions h hfirst hsecond hlow hhalf
  generalize hstate : resolve "split-fraction-resize" .horizontal .medium false
    (shares.mapIdx (pairDescriptor handleIndex low (first + second - low))) = state
  have hstatePanels : state.panels = (shares.mapIdx
      (pairDescriptor handleIndex low (first + second - low))).map fromDescriptor := by
    rw [← hstate]
    exact hpanels
  have hopen : ∀ panel ∈ state.panels, panel.collapsed = false := by
    intro panel hmem
    rw [hstatePanels, mem_map] at hmem
    obtain ⟨descriptor, hdescriptor, rfl⟩ := hmem
    obtain ⟨index, hindex, rfl⟩ := mem_mapIdx.mp hdescriptor
    exact pairDescriptor_open _ _ _
  have hindex : handleIndex < shares.length := (List.getElem?_eq_some_iff.mp hfirst).1
  have hnext : handleIndex + 1 < shares.length := (List.getElem?_eq_some_iff.mp hsecond).1
  have hmet : |1 - fractionSum state.panels| ≤ EPSILON := by
    rw [hstatePanels, hsum, sub_self]
    exact EPSILON_pos.le
  have hbefore : (state.panels.map (·.fraction))[handleIndex]?
      = some (Scalar.clamp first low (first + second - low)) := by
    rw [hstatePanels, hstart]
    simp [hindex]
  have hafter : (state.panels.map (·.fraction))[handleIndex + 1]?
      = some (Scalar.clamp second low (first + second - low)) := by
    rw [hstatePanels, hstart]
    simp [hnext]
  obtain ⟨first', second', hkept, hresult⟩ :=
    resizeBy_fractions hmet hopen hbefore hafter (delta / axisExtent)
  refine ⟨first', second', hkept.trans (clamp_pair hhalf), ?_⟩
  simp only [resizeByPixels, isFinite_eq, Bool.not_true, Bool.false_or,
    decide_eq_true_eq, if_neg hextent]
  rw [hresult, hstatePanels, hstart]
  rw [set_comm _ first' (by omega : handleIndex + 1 ≠ handleIndex), set_set, set_set]

/-- Resizing in pixels passes a part of one resolved share to its neighbour. -/
theorem resizeSplitFractionsByPixels_eq_some {fractions result : List Scalar}
    {axisExtent delta minPanelExtent : Scalar}
    (h : resizeSplitFractionsByPixels fractions handleIndex axisExtent delta minPanelExtent
      = some result) :
    ∃ first second first' second',
      (resolveSplitFractions fractions.length fractions)[handleIndex]? = some first
      ∧ (resolveSplitFractions fractions.length fractions)[handleIndex + 1]? = some second
      ∧ first' + second' = first + second
      ∧ result = ((resolveSplitFractions fractions.length fractions).set handleIndex first').set
          (handleIndex + 1) second' := by
  have hnormalized := resolveSplitFractions_normalized fractions.length fractions
  have hlength := resolveSplitFractions_length fractions.length fractions
  simp only [resizeSplitFractionsByPixels, isFinite_eq, Bool.not_true, Bool.false_or,
    Bool.or_eq_true, decide_eq_true_eq] at h
  generalize resolveSplitFractions fractions.length fractions = shares at *
  split at h
  · exact absurd h (by simp)
  · next hcount =>
    split at h
    · exact absurd h (by simp)
    · next hextent =>
      have hnext : handleIndex + 1 < shares.length := by omega
      have hindex : handleIndex < shares.length := by omega
      have hfirst := getElem?_eq_getElem hindex
      have hsecond := getElem?_eq_getElem hnext
      generalize shares[handleIndex] = first at hfirst
      generalize shares[handleIndex + 1] = second at hsecond
      simp only [hfirst, hsecond, Option.getD_some] at h
      split at h
      · exact absurd h (by simp)
      · next htotal =>
        have hhalf : 0 ≤ (first + second) / 2 := by
          have hpos := EPSILON_pos.trans (not_le.mp htotal)
          linarith
        have hlow : 0 ≤ Scalar.clamp (max minPanelExtent 0 / axisExtent) 0
            ((first + second) / 2) := le_min (le_max_right _ _) hhalf
        have hhigh : Scalar.clamp (max minPanelExtent 0 / axisExtent) 0
            ((first + second) / 2) ≤ (first + second) / 2 := min_le_right _ _
        generalize Scalar.clamp (max minPanelExtent 0 / axisExtent) 0
          ((first + second) / 2) = low at h hlow hhigh
        have hle : low ≤ first + second - low := by linarith
        obtain ⟨first', second', hkept, hresult⟩ :=
          resizeByPixels_pair hnormalized hfirst hsecond hlow hle hextent delta
        exact ⟨first, second, first', second', hfirst, hsecond, hkept,
          (Option.some.inj h).symm.trans hresult⟩

end Pixels

/-- Resizing is local and conservative.  A panel that is restored from its collapse comes
back at its minimum, so a pair gains at most `EPSILON`, and a whole that this overfills is
refitted by making panels smaller; shares are resized as they resolve. -/
theorem resize_local : (∀ (state : SplitterState) (handleIndex : Nat) (deltaFraction : Scalar),
      |1 - (state.panels.map (·.fraction)).sum| ≤ EPSILON →
      let result := state.resizeBy handleIndex deltaFraction
      (result.outcome = .rejected → result.state = state)
      ∧ (∀ panel ∈ result.state.panels, panel.lowerBound ≤ panel.fraction
          ∧ panel.fraction ≤ panel.upperBound)
      ∧ (result.outcome ≠ .rejected → ∃ before after before' after' moved,
          ResizesPair state result.state handleIndex deltaFraction before after before' after'
            moved))
    ∧ ∀ (fractions : List Scalar) (handleIndex : Nat)
        (axisExtent delta minPanelExtent : Scalar) (result : List Scalar),
      resizeSplitFractionsByPixels fractions handleIndex axisExtent delta minPanelExtent
        = some result →
      let shares := resolveSplitFractions fractions.length fractions
      result.length = fractions.length
      ∧ (Normalized fractions → shares = fractions)
      ∧ ∃ first second first' second',
          shares[handleIndex]? = some first ∧ shares[handleIndex + 1]? = some second
          ∧ first' + second' = first + second
          ∧ result = (shares.set handleIndex first').set (handleIndex + 1) second' := by
  refine ⟨fun state handleIndex deltaFraction hsum => ⟨resizeBy_of_rejected, ?_, ?_⟩,
    fun fractions handleIndex axisExtent delta minPanelExtent result hresult => ⟨?_, ?_, ?_⟩⟩
  · intro panel hmem
    have hpanel := panels_bounded _ panel hmem
    exact ⟨hpanel.lower_le, hpanel.le_upper⟩
  · exact resizeBy_of_not_rejected hsum
  · obtain ⟨_, _, _, _, hfirst, -, -, rfl⟩ := resizeSplitFractionsByPixels_eq_some hresult
    have hlength := resolveSplitFractions_length fractions.length fractions
    have hindex : 0 < fractions.length := by
      rw [length_pos_iff]
      rintro rfl
      simp [resizeSplitFractionsByPixels] at hresult
    simp only [length_set]
    omega
  · exact resolveSplitFractions_of_normalized
  · exact resizeSplitFractionsByPixels_eq_some hresult

/-- A collapsed panel beside an open one that holds the whole. -/
def collapsedDescriptors : List SplitterPanelDescriptor :=
  [{ id := "nav", fraction := 0, collapsible := true, collapsed := true },
   { id := "main", fraction := 1 }]

def collapsedPair : SplitterState := resolve "panes" .horizontal .medium false collapsedDescriptors

/-- Opened a little short of its minimum, the collapsed panel takes more than the other
gives, and shares that do not add up to one are all rescaled. -/
theorem restored_panel_gains :
    (¬ ∀ (state : SplitterState) (handleIndex : Nat) (deltaFraction : Scalar),
      |1 - (state.panels.map (·.fraction)).sum| ≤ EPSILON →
      let result := (state.resizeBy handleIndex deltaFraction).state.panels.map (·.fraction)
      result[handleIndex]?.getD 0 + result[handleIndex + 1]?.getD 0
        = (state.panels.map (·.fraction))[handleIndex]?.getD 0
          + (state.panels.map (·.fraction))[handleIndex + 1]?.getD 0)
    ∧ ¬ ∀ (fractions : List Scalar) (handleIndex : Nat)
        (axisExtent delta minPanelExtent : Scalar) (result : List Scalar),
      resizeSplitFractionsByPixels fractions handleIndex axisExtent delta minPanelExtent
        = some result →
      ∀ index, index ≠ handleIndex → index ≠ handleIndex + 1 →
        result[index]? = fractions[index]? := by
  constructor
  · intro hall
    have hkept := hall collapsedPair 0 (1999 / 20000) (by decide +kernel)
    revert hkept
    decide +kernel
  · intro hall
    have hkept := hall [1, 1, 2] 0 100 10 5 [7 / 20, 3 / 20, 1 / 2] (by decide +kernel) 2
      (by decide) (by decide)
    norm_num at hkept

theorem resize_local_collapsedPair :
    |1 - (collapsedPair.panels.map (·.fraction)).sum| ≤ EPSILON
      ∧ (collapsedPair.resizeBy 0 (1999 / 20000)).outcome ≠ .rejected
      ∧ (∃ before after before' after' moved,
          ResizesPair collapsedPair (collapsedPair.resizeBy 0 (1999 / 20000)).state 0 (1999 / 20000)
            before after before' after' moved)
      ∧ resizeSplitFractionsByPixels [1, 1, 2] 0 100 10 5 = some [7 / 20, 3 / 20, 1 / 2]
      ∧ [(7 : Scalar) / 20, 3 / 20, 1 / 2].length = 3 := by
  have hsum : |1 - (collapsedPair.panels.map (·.fraction)).sum| ≤ EPSILON := by decide +kernel
  have houtcome : (collapsedPair.resizeBy 0 (1999 / 20000)).outcome ≠ .rejected := by
    decide +kernel
  have hpixels : resizeSplitFractionsByPixels [1, 1, 2] 0 100 10 5
      = some [7 / 20, 3 / 20, 1 / 2] := by decide +kernel
  exact ⟨hsum, houtcome, (resize_local.1 collapsedPair 0 (1999 / 20000) hsum).2.2 houtcome, hpixels,
    (resize_local.2 _ _ _ _ _ _ hpixels).1⟩

end OpenGpui.UiCore
