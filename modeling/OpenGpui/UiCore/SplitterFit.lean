/-
One proportional round is enough: it either meets the target exactly or takes
every open panel to its bound, so the remaining rounds change nothing.
-/
import OpenGpui.UiCore.Splitter
import Mathlib.Algebra.Order.Group.MinMax

namespace OpenGpui.UiCore

open SplitterPanelState List SplitterState

def lowerSum (panels : List SplitterPanelState) : Scalar := (panels.map (·.lowerBound)).sum

def upperSum (panels : List SplitterPanelState) : Scalar := (panels.map (·.upperBound)).sum

section Sums

variable {panels : List SplitterPanelState}

@[simp] theorem fractionSum_cons (panel : SplitterPanelState) (rest : List SplitterPanelState) :
    fractionSum (panel :: rest) = panel.fraction + fractionSum rest := by
  simp [fractionSum]

@[simp] theorem mapOpen_cons (update : SplitterPanelState → SplitterPanelState)
    (panel : SplitterPanelState) (rest : List SplitterPanelState) :
    mapOpen update (panel :: rest) =
      (if !panel.collapsed then update panel else panel) :: mapOpen update rest := rfl

theorem openRoom_cons (room : SplitterPanelState → Scalar) (panel : SplitterPanelState)
    (rest : List SplitterPanelState) :
    openRoom room (panel :: rest) =
      (if panel.collapsed then 0 else room panel) + openRoom room rest := by
  cases hopen : panel.collapsed <;> simp [openRoom, hopen]

/-- The room of panels that are open: how far their bounds are from their fractions. -/
theorem openRoom_eq_sub {room high low : SplitterPanelState → Scalar}
    (h : ∀ panel ∈ panels, (if panel.collapsed then 0 else room panel) = high panel - low panel) :
    openRoom room panels = (panels.map high).sum - (panels.map low).sum := by
  induction panels with
  | nil => simp [openRoom]
  | cons panel rest ih =>
    have hrest := ih fun other hother => h other (mem_cons_of_mem _ hother)
    rw [openRoom_cons, h panel mem_cons_self, hrest, map_cons, map_cons, sum_cons, sum_cons]
    ring

theorem openRoom_growRoom (h : ∀ panel ∈ panels, panel.Bounded) :
    openRoom (·.growRoom) panels = upperSum panels - fractionSum panels := by
  apply openRoom_eq_sub
  intro panel hmem
  have hpanel := h panel hmem
  cases hopen : panel.collapsed with
  | true =>
    have heq : panel.fraction = panel.upperBound := le_antisymm hpanel.le_upper
      (by simpa [upperBound, lowerBound, hopen] using hpanel.lower_le)
    rw [if_pos rfl, heq, sub_self]
  | false =>
    have hroom : panel.growRoom = panel.maxFraction - panel.fraction :=
      max_eq_left (sub_nonneg.mpr (hpanel.le_max hopen))
    simp [hroom, upperBound, hopen]

theorem openRoom_shrinkRoom (h : ∀ panel ∈ panels, panel.Bounded) :
    openRoom (·.shrinkRoom) panels = fractionSum panels - lowerSum panels := by
  apply openRoom_eq_sub
  intro panel hmem
  have hpanel := h panel hmem
  cases hopen : panel.collapsed with
  | true =>
    have heq : panel.fraction = panel.lowerBound := le_antisymm
      (by simpa [upperBound, lowerBound, hopen] using hpanel.le_upper) hpanel.lower_le
    rw [if_pos rfl, heq, sub_self]
  | false =>
    have hroom : panel.shrinkRoom = panel.fraction - panel.minFraction :=
      max_eq_left (sub_nonneg.mpr (hpanel.min_le hopen))
    simp [hroom, lowerBound, hopen]

/-- Open panels that each gain a part of their room gain that part of all the room. -/
theorem fractionSum_mapOpen {update : SplitterPanelState → SplitterPanelState}
    {room : SplitterPanelState → Scalar} {part : Scalar} (h : ∀ panel ∈ panels,
      panel.collapsed = false → (update panel).fraction = panel.fraction + room panel * part) :
    fractionSum (mapOpen update panels) = fractionSum panels + openRoom room panels * part := by
  induction panels with
  | nil => simp [mapOpen, fractionSum, openRoom]
  | cons panel rest ih =>
    have hrest := ih fun other hother => h other (mem_cons_of_mem _ hother)
    rw [mapOpen_cons, fractionSum_cons, hrest, openRoom_cons, fractionSum_cons]
    cases hopen : panel.collapsed with
    | true =>
      simp only [Bool.not_true, Bool.false_eq_true, if_false, if_true]
      ring
    | false =>
      simp only [Bool.not_false, Bool.false_eq_true, if_false, if_true, h panel mem_cons_self hopen]
      ring

variable {demand total : Scalar}

/-- A share of the demand, cut at the panel's own room, is the panel's share of what
can be given at all. -/
theorem min_share {room : Scalar} (hroom : 0 ≤ room) (htotal : 0 < total) :
    min (demand * (room / total)) room = room * (min demand total / total) := by
  have hshare : 0 ≤ room / total := div_nonneg hroom htotal.le
  rw [mul_div_left_comm room, mul_comm (min demand total), mul_min_of_nonneg _ _ hshare,
    div_mul_cancel₀ _ htotal.ne', mul_comm demand]

theorem fractionSum_grow (h : ∀ panel ∈ panels, panel.Bounded) (htotal : 0 < total) :
    fractionSum (mapOpen (fun panel => panel.grow (demand * (panel.growRoom / total))) panels) =
      fractionSum panels + openRoom (·.growRoom) panels * (min demand total / total) := by
  apply fractionSum_mapOpen
  intro panel hmem hopen
  have hroom : panel.maxFraction = panel.fraction + panel.growRoom := by
    rw [growRoom, max_eq_left (sub_nonneg.mpr ((h panel hmem).le_max hopen))]
    ring
  simp only [grow]
  rw [hroom, min_add_add_left, min_share panel.growRoom_nonneg htotal]

theorem fractionSum_shrink (h : ∀ panel ∈ panels, panel.Bounded) (htotal : 0 < total) :
    fractionSum (mapOpen (fun panel => panel.shrink (demand * (panel.shrinkRoom / total))) panels) =
      fractionSum panels + openRoom (·.shrinkRoom) panels * -(min demand total / total) := by
  apply fractionSum_mapOpen
  intro panel hmem hopen
  have hroom : panel.minFraction = panel.fraction - panel.shrinkRoom := by
    rw [shrinkRoom, max_eq_left (sub_nonneg.mpr ((h panel hmem).min_le hopen))]
    ring
  simp only [shrink]
  rw [hroom, max_sub_sub_left, min_share panel.shrinkRoom_nonneg htotal]
  ring

end Sums

section Fit

variable {panels : List SplitterPanelState} {target : Scalar}

/-- Nothing is left to do: the target is met, or no open panel can move towards it. -/
def Settled (panels : List SplitterPanelState) (target : Scalar) : Prop :=
  |target - fractionSum panels| ≤ EPSILON
    ∨ (0 < target - fractionSum panels ∧ openRoom (·.growRoom) panels ≤ EPSILON)
    ∨ (target - fractionSum panels ≤ 0 ∧ openRoom (·.shrinkRoom) panels ≤ EPSILON)

theorem fitPanelRounds_of_settled (h : Settled panels target) (rounds : Nat) :
    fitPanelRounds rounds panels target = panels := by
  cases rounds with
  | zero => rfl
  | succ rounds =>
    simp only [fitPanelRounds, Scalar.isFinite_eq, Bool.not_true, Bool.false_or, decide_eq_true_eq]
    rcases h with hmet | ⟨hdiff, hroom⟩ | ⟨hdiff, hroom⟩
    · rw [if_pos hmet]
    · rw [if_pos hdiff, if_pos hroom, ite_self]
    · rw [if_neg (not_lt.mpr hdiff), if_pos hroom, ite_self]

/-- The panels after one round that is not settled. -/
def fitRound (panels : List SplitterPanelState) (target : Scalar) : List SplitterPanelState :=
  let diff := target - fractionSum panels
  if diff > 0 then
    mapOpen (fun panel => panel.grow (diff * (panel.growRoom / openRoom (·.growRoom) panels)))
      panels
  else
    mapOpen
      (fun panel => panel.shrink (-diff * (panel.shrinkRoom / openRoom (·.shrinkRoom) panels)))
      panels

theorem fitPanelRounds_succ (h : ¬ Settled panels target) (rounds : Nat) :
    fitPanelRounds (rounds + 1) panels target =
      fitPanelRounds rounds (fitRound panels target) target := by
  simp only [Settled, not_or, not_and, not_le] at h
  obtain ⟨hmet, hgrow, hshrink⟩ := h
  simp only [fitPanelRounds, fitRound, Scalar.isFinite_eq, Bool.not_true, Bool.false_or,
    decide_eq_true_eq, if_neg (not_le.mpr hmet)]
  split
  · next hdiff => rw [if_neg (not_le.mpr (hgrow hdiff))]
  · next hdiff => rw [if_neg (not_le.mpr (hshrink (not_lt.mp hdiff)))]

theorem fitRound_redistributes (hbounded : ∀ panel ∈ panels, panel.Bounded)
    (h : ¬ Settled panels target) : Redistributes panels (fitRound panels target) := by
  have hone := fitPanelRounds_redistributes 1 target hbounded
  rwa [fitPanelRounds_succ h] at hone

variable {result : List SplitterPanelState}

theorem Redistributes.upperSum_eq
    (h : Redistributes panels result) : upperSum result = upperSum panels := by
  have hframes := congrArg (List.map (·.upperBound)) h.frame_eq
  simp only [map_map] at hframes
  exact congrArg List.sum hframes

theorem Redistributes.lowerSum_eq
    (h : Redistributes panels result) : lowerSum result = lowerSum panels := by
  have hframes := congrArg (List.map (·.lowerBound)) h.frame_eq
  simp only [map_map] at hframes
  exact congrArg List.sum hframes

section

variable (hbounded : ∀ panel ∈ panels, panel.Bounded)

include hbounded

variable (h : ¬ Settled panels target)

include h

/-- A round that grows gives out what is missing, or all the room there is. -/
theorem fractionSum_fitRound_grow (hdiff : 0 < target - fractionSum panels) :
    fractionSum (fitRound panels target) = min target (upperSum panels) := by
  have hroom : EPSILON < openRoom (·.growRoom) panels := by
    by_contra hle
    exact h (.inr (.inl ⟨hdiff, not_lt.mp hle⟩))
  have hpos := EPSILON_pos.trans hroom
  simp only [fitRound, if_pos hdiff]
  rw [fractionSum_grow hbounded hpos, mul_div_cancel₀ _ hpos.ne', openRoom_growRoom hbounded,
    ← min_add_add_left]
  congr 1 <;> ring

/-- A round that shrinks takes away what is too much, or all the room there is. -/
theorem fractionSum_fitRound_shrink (hdiff : target - fractionSum panels ≤ 0) :
    fractionSum (fitRound panels target) = max target (lowerSum panels) := by
  have hroom : EPSILON < openRoom (·.shrinkRoom) panels := by
    by_contra hle
    exact h (.inr (.inr ⟨hdiff, not_lt.mp hle⟩))
  have hpos := EPSILON_pos.trans hroom
  simp only [fitRound, if_neg (not_lt.mpr hdiff)]
  rw [fractionSum_shrink hbounded hpos, mul_neg, mul_div_cancel₀ _ hpos.ne', ← sub_eq_add_neg,
    openRoom_shrinkRoom hbounded, ← max_sub_sub_left]
  congr 1 <;> ring

theorem fitRound_settled : Settled (fitRound panels target) target := by
  have hround := fitRound_redistributes hbounded h
  rcases lt_or_ge 0 (target - fractionSum panels) with hdiff | hdiff
  · have hsum := fractionSum_fitRound_grow hbounded h hdiff
    rcases le_or_gt target (upperSum panels) with hle | hlt
    · refine .inl ?_
      rw [hsum, min_eq_left hle, sub_self]
      exact EPSILON_pos.le
    · refine .inr (.inl ⟨?_, ?_⟩)
      · rw [hsum, min_eq_right hlt.le]
        linarith
      · rw [openRoom_growRoom hround.bounded, hround.upperSum_eq, hsum, min_eq_right hlt.le,
          sub_self]
        exact EPSILON_pos.le
  · have hsum := fractionSum_fitRound_shrink hbounded h hdiff
    rcases le_or_gt (lowerSum panels) target with hle | hlt
    · refine .inl ?_
      rw [hsum, max_eq_left hle, sub_self]
      exact EPSILON_pos.le
    · refine .inr (.inr ⟨?_, ?_⟩)
      · rw [hsum, max_eq_right hlt.le]
        linarith
      · rw [openRoom_shrinkRoom hround.bounded, hround.lowerSum_eq, hsum, max_eq_right hlt.le,
          sub_self]
        exact EPSILON_pos.le

end

theorem fitPanelSum_of_settled (h : Settled panels target) : fitPanelSum panels target = panels :=
  fitPanelRounds_of_settled h 8

theorem fitPanelSum_of_not_settled (hbounded : ∀ panel ∈ panels, panel.Bounded)
    (h : ¬ Settled panels target) : fitPanelSum panels target = fitRound panels target := by
  rw [fitPanelSum, fitPanelRounds_succ h, fitPanelRounds_of_settled (fitRound_settled hbounded h)]

theorem fitPanelSum_meets_target (hbounded : ∀ panel ∈ panels, panel.Bounded)
    (hlower : lowerSum panels ≤ target) (hupper : target ≤ upperSum panels) :
    |target - fractionSum (fitPanelSum panels target)| ≤ EPSILON := by
  by_cases h : Settled panels target
  · rw [fitPanelSum_of_settled h]
    rcases h with hmet | ⟨hdiff, hroom⟩ | ⟨hdiff, hroom⟩
    · exact hmet
    · rw [openRoom_growRoom hbounded] at hroom
      rw [abs_of_pos hdiff]
      linarith
    · rw [openRoom_shrinkRoom hbounded] at hroom
      rw [abs_of_nonpos hdiff]
      linarith
  · have hsum : fractionSum (fitRound panels target) = target := by
      rcases lt_or_ge 0 (target - fractionSum panels) with hdiff | hdiff
      · rw [fractionSum_fitRound_grow hbounded h hdiff, min_eq_left hupper]
      · rw [fractionSum_fitRound_shrink hbounded h hdiff, max_eq_left hlower]
    rw [fitPanelSum_of_not_settled hbounded h, hsum, sub_self]
    exact EPSILON_pos.le

theorem normalizePanelFractions_of_fit (h : |1 - fractionSum (fitPanelSum panels 1)| ≤ EPSILON) :
    normalizePanelFractions panels = fitPanelSum panels 1 := by
  simp only [normalizePanelFractions, if_neg (not_lt.mpr h), ite_self]
  split
  · next hempty =>
    rw [isEmpty_iff.mp hempty, fitPanelSum_of_settled]
    exact .inr (.inl ⟨by simp [fractionSum], by simp [openRoom, EPSILON_pos.le]⟩)
  · rfl

theorem normalizePanelFractions_of_met (h : |1 - fractionSum panels| ≤ EPSILON) :
    normalizePanelFractions panels = panels := by
  have hfit : fitPanelSum panels 1 = panels := fitPanelSum_of_settled (.inl h)
  rw [normalizePanelFractions_of_fit (by rwa [hfit]), hfit]

/-- What an over-full splitter does to a panel: it takes some of its share at most. -/
structure GivesUp (panel refit : SplitterPanelState) : Prop where
  frame_eq : refit.frame = panel.frame
  fraction_le : refit.fraction ≤ panel.fraction

theorem GivesUp.refl (panel : SplitterPanelState) : GivesUp panel panel := ⟨rfl, le_refl _⟩

theorem givesUp_trans {refit : List SplitterPanelState}
    (hfirst : Forall₂ GivesUp panels refit) (hsecond : Forall₂ GivesUp refit result) :
    Forall₂ GivesUp panels result := by
  induction hfirst generalizing result with
  | nil => exact hsecond
  | cons hpanel _ ih =>
    cases hsecond with
    | cons hrefit hrest =>
      exact .cons ⟨hrefit.frame_eq.trans hpanel.frame_eq,
        hrefit.fraction_le.trans hpanel.fraction_le⟩ (ih hrest)

theorem fitRound_givesUp (hbounded : ∀ panel ∈ panels, panel.Bounded)
    (hfull : target - fractionSum panels ≤ 0) :
    Forall₂ GivesUp panels (fitRound panels target) := by
  have hover : 0 ≤ -(target - fractionSum panels) := neg_nonneg.mpr hfull
  simp only [fitRound, if_neg (not_lt.mpr hfull), mapOpen]
  rw [forall₂_map_right_iff, forall₂_same]
  intro panel hmem
  cases hopen : panel.collapsed with
  | true => exact GivesUp.refl panel
  | false =>
    have hshare := mul_nonneg hover (div_nonneg panel.shrinkRoom_nonneg
      (openRoom_nonneg SplitterPanelState.shrinkRoom_nonneg panels))
    exact ⟨rfl, max_le (by linarith) ((hbounded panel hmem).min_le hopen)⟩

theorem adjustFirstOpen_givesUp (hbounded : ∀ panel ∈ panels, panel.Bounded) {diff : Scalar}
    (hdiff : diff ≤ 0) : Forall₂ GivesUp panels (adjustFirstOpen diff panels) := by
  induction panels with
  | nil => exact .nil
  | cons panel rest ih =>
    have hrest := ih fun other hother => hbounded other (mem_cons_of_mem _ hother)
    cases hopen : panel.collapsed with
    | true =>
      simp only [adjustFirstOpen, hopen, Bool.not_true, Bool.false_eq_true, if_false]
      exact .cons (GivesUp.refl panel) hrest
    | false =>
      simp only [adjustFirstOpen, hopen, Bool.not_false, if_true]
      have hmin := (hbounded panel mem_cons_self).min_le hopen
      refine .cons ⟨by simp [frame, hopen], ?_⟩ (forall₂_same.mpr fun other _ => GivesUp.refl other)
      exact (min_le_left _ _).trans (max_le (by linarith) hmin)

/-- An over-full splitter is refitted by making panels smaller, down to the whole where
their bounds allow it. -/
theorem normalizePanelFractions_of_full (hbounded : ∀ panel ∈ panels, panel.Bounded)
    (hfull : 1 + EPSILON < fractionSum panels) :
    Forall₂ GivesUp panels (normalizePanelFractions panels)
      ∧ (lowerSum panels ≤ 1 → fractionSum (normalizePanelFractions panels) = 1) := by
  have hover : 1 - fractionSum panels ≤ 0 := by linarith [EPSILON_pos]
  have hfit : Forall₂ GivesUp panels (fitPanelSum panels 1)
      ∧ 1 ≤ fractionSum (fitPanelSum panels 1)
      ∧ (lowerSum panels ≤ 1 → fractionSum (fitPanelSum panels 1) = 1) := by
    by_cases hsettled : Settled panels 1
    · rw [fitPanelSum_of_settled hsettled]
      refine ⟨forall₂_same.mpr fun panel _ => GivesUp.refl panel, by linarith, fun hlower => ?_⟩
      -- an over-full splitter is settled only where its bounds leave no room
      rcases hsettled with hmet | ⟨hpos, -⟩ | ⟨-, hroom⟩
      · rw [abs_of_nonpos hover] at hmet
        linarith
      · linarith
      · rw [openRoom_shrinkRoom hbounded] at hroom
        linarith
    · have hsum := fractionSum_fitRound_shrink hbounded hsettled hover
      rw [fitPanelSum_of_not_settled hbounded hsettled, hsum]
      exact ⟨fitRound_givesUp hbounded hover, le_max_left _ _, max_eq_left⟩
  obtain ⟨hgives, hge, hone⟩ := hfit
  by_cases hmet : |1 - fractionSum (fitPanelSum panels 1)| ≤ EPSILON
  · rw [normalizePanelFractions_of_fit hmet]
    exact ⟨hgives, hone⟩
  · refine ⟨?_, fun hlower => absurd (by rw [hone hlower]; simp [EPSILON_pos.le]) hmet⟩
    have hrefit := (fitPanelRounds_redistributes 8 1 hbounded).bounded
    simp only [normalizePanelFractions]
    split
    · exact forall₂_same.mpr fun panel _ => GivesUp.refl panel
    · split
      · rw [if_pos (not_le.mp hmet)]
        refine givesUp_trans hgives (forall₂_reverse_iff.mp ?_)
        rw [reverse_reverse]
        exact adjustFirstOpen_givesUp (fun panel hmem => hrefit panel (mem_reverse.mp hmem))
          (by linarith)
      · exact hgives

/-- Normalizing a splitter that is not short of the whole leaves it as it is, or makes
panels smaller. -/
theorem normalizePanelFractions_refits (hbounded : ∀ panel ∈ panels, panel.Bounded)
    (hlow : 1 - fractionSum panels ≤ EPSILON) :
    (|1 - fractionSum panels| ≤ EPSILON → normalizePanelFractions panels = panels)
      ∧ Forall₂ GivesUp panels (normalizePanelFractions panels)
      ∧ (lowerSum panels ≤ 1 → |1 - fractionSum (normalizePanelFractions panels)| ≤ EPSILON) := by
  refine ⟨normalizePanelFractions_of_met, ?_⟩
  by_cases hmet : |1 - fractionSum panels| ≤ EPSILON
  · rw [normalizePanelFractions_of_met hmet]
    exact ⟨forall₂_same.mpr fun panel _ => GivesUp.refl panel, fun _ => hmet⟩
  · have hfull : 1 + EPSILON < fractionSum panels := by
      by_contra hnot
      exact hmet (abs_le.mpr ⟨by linarith, hlow⟩)
    obtain ⟨hgives, hone⟩ := normalizePanelFractions_of_full hbounded hfull
    refine ⟨hgives, fun hlower => ?_⟩
    rw [hone hlower, sub_self, abs_zero]
    exact EPSILON_pos.le

end Fit

/-- What a panel keeps of the descriptor it was resolved from. -/
structure ResolvedFrom (descriptor : SplitterPanelDescriptor) (panel : SplitterPanelState) :
    Prop where
  id_eq : panel.id = descriptor.id
  min_eq : panel.minFraction = min (max descriptor.minFraction 0) 1
  max_eq : panel.maxFraction = min (max (max descriptor.maxFraction 0) panel.minFraction) 1
  collapsible_eq : panel.collapsible = descriptor.collapsible
  collapsed_eq : panel.collapsed = (descriptor.collapsible && descriptor.collapsed)
  collapsed_fraction_eq :
    panel.collapsedFraction = max (min (max descriptor.collapsedFraction 0) panel.maxFraction) 0

theorem resolvedFrom_of_frame {descriptor : SplitterPanelDescriptor}
    {panel : SplitterPanelState} (h : (fromDescriptor descriptor).frame = panel.frame) :
    ResolvedFrom descriptor panel := by
  simp only [frame, fromDescriptor, sanitizeFraction_eq, sanitizeMaxFraction,
    Scalar.isFinite_eq, if_true, SplitterPanelState.mk.injEq, true_and] at h
  obtain ⟨hid, hmin, hmax, hcollapsible, hclosed, hfraction⟩ := h
  constructor
  · exact hid.symm
  · exact hmin.symm
  · rw [← hmax, ← hmin]
  · exact hcollapsible.symm
  · exact hclosed.symm
  · rw [← hfraction, ← hmax]

theorem resolve_resolvedFrom (groupId : String) (orientation : Orientation) (size : Size)
    (disabled : Bool) (descriptors : List SplitterPanelDescriptor) :
    List.Forall₂ ResolvedFrom descriptors
      (resolve groupId orientation size disabled descriptors).panels := by
  have hframes := (normalizePanelFractions_redistributes
    (fromDescriptors_bounded descriptors)).frame_eq
  rw [map_map] at hframes
  have hall : List.Forall₂ (fun descriptor panel => (fromDescriptor descriptor).frame = panel.frame)
      descriptors (normalizePanelFractions (descriptors.map fromDescriptor)) := by
    have hmaps : List.Forall₂ (· = ·) (descriptors.map ((·.frame) ∘ fromDescriptor))
        ((normalizePanelFractions (descriptors.map fromDescriptor)).map (·.frame)) := by
      rw [forall₂_eq_eq_eq]
      exact hframes.symm
    exact forall₂_map_left_iff.mp (forall₂_map_right_iff.mp hmaps)
  exact hall.imp fun _ _ h => resolvedFrom_of_frame h

/-- Resolved panels lie within their bounds, collapsed ones at their collapsed size, and
where the bounds allow the whole to be shared out, it is. -/
theorem resolve_respects_bounds (groupId : String) (orientation : Orientation) (size : Size)
    (disabled : Bool) (descriptors : List SplitterPanelDescriptor) :
    let state := resolve groupId orientation size disabled descriptors
    List.Forall₂ ResolvedFrom descriptors state.panels ∧ (∀ panel ∈ state.panels,
          if panel.collapsed then panel.fraction = panel.collapsedFraction
          else panel.minFraction ≤ panel.fraction ∧ panel.fraction ≤ panel.maxFraction)
      ∧ ((state.panels.map (·.lowerBound)).sum ≤ 1 → 1 ≤ (state.panels.map (·.upperBound)).sum →
          |1 - (state.panels.map (·.fraction)).sum| ≤ EPSILON) := by
  intro state
  refine ⟨resolve_resolvedFrom groupId orientation size disabled descriptors, ?_, ?_⟩
  · intro panel hmem
    have hpanel := state.panels_bounded panel hmem
    cases hopen : panel.collapsed with
    | true =>
      exact le_antisymm (by simpa [upperBound, hopen] using hpanel.le_upper)
        (by simpa [lowerBound, hopen] using hpanel.lower_le)
    | false =>
      exact ⟨hpanel.min_le hopen, hpanel.le_max hopen⟩
  · intro hlower hupper
    have hbounded := fromDescriptors_bounded descriptors
    have hresult := normalizePanelFractions_redistributes hbounded
    have hmeets := fitPanelSum_meets_target hbounded (hresult.lowerSum_eq.symm.trans_le hlower)
      (hupper.trans_eq hresult.upperSum_eq)
    change |1 - fractionSum (normalizePanelFractions (descriptors.map fromDescriptor))| ≤ EPSILON
    rwa [normalizePanelFractions_of_fit hmeets]

/-- A collapsed panel beside two that start out too small. -/
def sidebarDescriptors : List SplitterPanelDescriptor :=
  [{ id := "nav", fraction := 1 / 2, collapsible := true, collapsed := true,
     collapsedFraction := 1 / 20 },
   { id := "main", fraction := 1 / 5 },
   { id := "side", fraction := 1 / 10, maxFraction := 3 / 10 }]

theorem sidebar_respects_bounds :
    (((resolve "panes" .horizontal .medium false sidebarDescriptors).panels.map
        (·.lowerBound)).sum ≤ 1
      ∧ 1 ≤ ((resolve "panes" .horizontal .medium false
          sidebarDescriptors).panels.map (·.upperBound)).sum)
      ∧ |1 - ((resolve "panes" .horizontal .medium false
          sidebarDescriptors).panels.map (·.fraction)).sum| ≤ EPSILON := by
  have hbounds : ((resolve "panes" .horizontal .medium false
      sidebarDescriptors).panels.map (·.lowerBound)).sum ≤ 1
      ∧ 1 ≤ ((resolve "panes" .horizontal .medium false
        sidebarDescriptors).panels.map (·.upperBound)).sum := by
    decide +kernel
  exact ⟨hbounds, (resolve_respects_bounds _ _ _ _ _).2.2 hbounds.1 hbounds.2⟩

end OpenGpui.UiCore
