/-
Split fractions over exact rationals, resolved for an ordered list of children.  Every
rational is finite, so the checks for infinities and NaN that the source makes on floats are
constantly passed; they are kept so that each definition can be read against its source.
-/
import Mathlib.Algebra.BigOperators.Ring.List
import Mathlib.Tactic.FieldSimp
import Mathlib.Tactic.Linarith
import Mathlib.Tactic.Positivity
import Mathlib.Tactic.Ring

namespace OpenGpui

open List

/-- Scalars stand for the source's `f32` values, taken as exact numbers. -/
abbrev Scalar := ℚ

namespace Scalar

def isFinite (_ : Scalar) : Bool := true

def clamp (value low high : Scalar) : Scalar := min (max value low) high

@[simp] theorem isFinite_eq (value : Scalar) : isFinite value = true := rfl

theorem clamp_of_mem {value low high : Scalar} (hlow : low ≤ value)
    (hhigh : value ≤ high) : clamp value low high = value := by
  rw [clamp, max_eq_left hlow, min_eq_left hhigh]

end Scalar

namespace UiCore

def EPSILON : Scalar := 1 / 10000

theorem EPSILON_pos : 0 < EPSILON := by norm_num [EPSILON]

/-- Invalid entries become zero before anything is summed. -/
def repairFractions (fractions : List Scalar) : List Scalar :=
  fractions.map fun fraction =>
    if !fraction.isFinite || decide (fraction < 0) then 0 else fraction

def normalizeSplitFractions (fractions : List Scalar) : List Scalar :=
  let repaired := repairFractions fractions
  let sum := repaired.sum
  if !sum.isFinite || decide (sum ≤ EPSILON) then
    let len := max repaired.length 1
    List.replicate len (1 / (len : Scalar))
  else
    let shares := repaired.map (· / sum)
    if shares.isEmpty then shares
    else
      let rest := (shares.take (shares.length - 1)).sum
      shares.set (shares.length - 1) (Scalar.clamp (1 - rest) 0 1)

/-- The shape every normalized fraction list has. -/
structure Normalized (fractions : List Scalar) : Prop where
  nonneg : ∀ fraction ∈ fractions, 0 ≤ fraction
  sum_eq_one : fractions.sum = 1

theorem repairFractions_length (fractions : List Scalar) :
    (repairFractions fractions).length = fractions.length := by
  simp [repairFractions]

theorem repairFractions_nonneg (fractions : List Scalar) :
    ∀ fraction ∈ repairFractions fractions, 0 ≤ fraction := by
  intro fraction hmem
  simp only [repairFractions, mem_map] at hmem
  obtain ⟨original, -, rfl⟩ := hmem
  by_cases hneg : original < 0
  · simp [hneg]
  · simpa [hneg] using not_lt.mp hneg

variable {fractions : List Scalar}

theorem repairFractions_of_nonneg
    (h : ∀ fraction ∈ fractions, 0 ≤ fraction) : repairFractions fractions = fractions := by
  conv_rhs => rw [← map_id fractions]
  apply map_congr_left
  intro fraction hmem
  simp [not_lt.mpr (h fraction hmem)]

theorem sum_map_div (fractions : List Scalar) (total : Scalar) :
    (fractions.map (· / total)).sum = fractions.sum / total := by
  simp only [div_eq_mul_inv, sum_map_mul_right, map_id']

theorem set_last_of_sum_eq_one {shares : List Scalar} (hne : shares ≠ [])
    (hnonneg : ∀ share ∈ shares, 0 ≤ share) (hsum : shares.sum = 1) :
    shares.set (shares.length - 1)
      (Scalar.clamp (1 - (shares.take (shares.length - 1)).sum) 0 1) = shares := by
  obtain ⟨front, last, rfl⟩ : ∃ front last, shares = front ++ [last] :=
    ⟨shares.dropLast, shares.getLast hne, (dropLast_append_getLast hne).symm⟩
  have hfront : 0 ≤ front.sum := sum_nonneg fun share hmem =>
    hnonneg share (mem_append_left _ hmem)
  have hlast : 0 ≤ last := hnonneg last (by simp)
  simp only [sum_append, sum_cons, sum_nil, add_zero] at hsum
  have hrest : 1 - front.sum = last := by linarith
  simp only [length_append, length_singleton, Nat.add_sub_cancel, take_left', hrest]
  rw [Scalar.clamp_of_mem hlast (by linarith)]
  simp

/-- Over exact numbers the last share needs no correction: normalizing either
divides every repaired fraction by their sum or falls back to equal shares. -/
theorem normalizeSplitFractions_eq (fractions : List Scalar) : normalizeSplitFractions fractions =
      if (repairFractions fractions).sum ≤ EPSILON then
        List.replicate (max fractions.length 1) (1 / ((max fractions.length 1 : ℕ) : Scalar))
      else (repairFractions fractions).map (· / (repairFractions fractions).sum) := by
  simp only [normalizeSplitFractions, Scalar.isFinite_eq, Bool.not_true, Bool.false_or,
    decide_eq_true_eq, repairFractions_length]
  split
  · rfl
  · next hsum =>
    have hpos : 0 < (repairFractions fractions).sum := lt_trans EPSILON_pos (not_le.mp hsum)
    split
    · rfl
    · next hne =>
      apply set_last_of_sum_eq_one
      · simpa using hne
      · intro share hmem
        simp only [mem_map] at hmem
        obtain ⟨fraction, hfraction, rfl⟩ := hmem
        exact div_nonneg (repairFractions_nonneg _ _ hfraction) hpos.le
      · rw [sum_map_div, div_self hpos.ne']

theorem normalizeSplitFractions_length (hne : fractions ≠ []) :
    (normalizeSplitFractions fractions).length = fractions.length := by
  have hlen : 1 ≤ fractions.length := length_pos_iff.mpr hne
  rw [normalizeSplitFractions_eq]
  split
  · simp only [length_replicate]
    omega
  · simp [repairFractions_length]

theorem normalizeSplitFractions_normalized (fractions : List Scalar) :
    Normalized (normalizeSplitFractions fractions) := by
  rw [normalizeSplitFractions_eq]
  split
  · constructor
    · intro fraction hmem
      rw [eq_of_mem_replicate hmem]
      positivity
    · rw [sum_replicate, nsmul_eq_mul]
      field_simp
  · next hsum =>
    have hpos : 0 < (repairFractions fractions).sum := lt_trans EPSILON_pos (not_le.mp hsum)
    constructor
    · intro share hmem
      simp only [mem_map] at hmem
      obtain ⟨fraction, hfraction, rfl⟩ := hmem
      exact div_nonneg (repairFractions_nonneg _ _ hfraction) hpos.le
    · rw [sum_map_div, div_self hpos.ne']

/-- Normalizing is the identity on lists that are already normalized. -/
theorem normalizeSplitFractions_of_normalized
    (h : Normalized fractions) : normalizeSplitFractions fractions = fractions := by
  rw [normalizeSplitFractions_eq, repairFractions_of_nonneg h.nonneg, h.sum_eq_one,
    if_neg (by norm_num [EPSILON])]
  simp

variable (fraction : Scalar)

def sanitizeFraction : Scalar := if fraction.isFinite then max fraction 0 else 0

@[simp] theorem sanitizeFraction_eq : sanitizeFraction fraction = max fraction 0 := by
  simp [sanitizeFraction]

def resolveSplitFractions (childCount : Nat) (fractions : List Scalar) : List Scalar :=
  let shares := (List.range childCount).map fun index => fractions[index]?.getD 1
  normalizeSplitFractions shares

/-- The shares of all children before the fill child receives its own. -/
def sharesBesideFill (childCount : Nat) (fractions : List Scalar) (fillChildIndex : Nat) :
    List Scalar :=
  (List.range childCount).map fun index =>
    if index = fillChildIndex then 0 else sanitizeFraction (fractions[index]?.getD 0)

def resolveSplitFractionsWithFillChild (childCount : Nat) (fractions : List Scalar)
    (fillChildIndex : Option Nat) : List Scalar :=
  match fillChildIndex with
  | none => resolveSplitFractions childCount fractions
  | some fillChildIndex =>
    if childCount = 0 ∨ fillChildIndex ≥ childCount then resolveSplitFractions childCount fractions
    else if childCount = 1 then [1]
    else
      let shares := sharesBesideFill childCount fractions fillChildIndex
      let nonFillSum := shares.sum
      if nonFillSum > 1 then
        let shares := shares.mapIdx fun index share =>
          if index ≠ fillChildIndex then share / nonFillSum else share
        shares.set fillChildIndex 0
      else
        shares.set fillChildIndex (1 - nonFillSum)

theorem resolveSplitFractions_length (childCount : Nat) (fractions : List Scalar) :
    (resolveSplitFractions childCount fractions).length = max childCount 1 := by
  rcases Nat.eq_zero_or_pos childCount with rfl | hpos
  · simp [resolveSplitFractions, normalizeSplitFractions_eq, repairFractions, EPSILON_pos.le]
  · rw [resolveSplitFractions, normalizeSplitFractions_length]
    · simp only [length_map, length_range]
      omega
    · simpa using hpos.ne'

theorem resolveSplitFractions_normalized (childCount : Nat) (fractions : List Scalar) :
    Normalized (resolveSplitFractions childCount fractions) :=
  normalizeSplitFractions_normalized _

/-- A list that is already a distribution over the children resolves to itself. -/
theorem resolveSplitFractions_of_normalized {fractions : List Scalar} (h : Normalized fractions) :
    resolveSplitFractions fractions.length fractions = fractions := by
  have hshares : ((List.range fractions.length).map fun index => fractions[index]?.getD 1)
      = fractions := by
    apply ext_getElem (by simp)
    intro index _ hindex
    simp [hindex]
  simp only [resolveSplitFractions, hshares]
  exact normalizeSplitFractions_of_normalized h

section FillChild

variable {childCount fillChildIndex : Nat} (fractions : List Scalar)

@[simp] theorem sharesBesideFill_length :
    (sharesBesideFill childCount fractions fillChildIndex).length = childCount := by
  simp [sharesBesideFill]

theorem sharesBesideFill_nonneg :
    ∀ share ∈ sharesBesideFill childCount fractions fillChildIndex, 0 ≤ share := by
  intro share hmem
  simp only [sharesBesideFill, mem_map] at hmem
  obtain ⟨index, -, rfl⟩ := hmem
  split
  · exact le_refl 0
  · simp

theorem sharesBesideFill_fill (hfill : fillChildIndex < childCount) :
    (sharesBesideFill childCount fractions fillChildIndex)[fillChildIndex]? = some 0 := by
  simp [sharesBesideFill, hfill]

/-- Writing over an entry that was zero adds the written share to the sum. -/
theorem sum_set_of_zero {shares : List Scalar} {index : Nat} (share : Scalar)
    (h : shares[index]? = some 0) : (shares.set index share).sum = shares.sum + share := by
  induction shares generalizing index with
  | nil => simp at h
  | cons first rest ih =>
    cases index with
    | zero =>
      simp only [getElem?_cons_zero, Option.some.injEq] at h
      simp only [h, set_cons_zero, sum_cons]
      ring
    | succ index =>
      simp only [set_cons_succ, sum_cons, ih h]
      ring

section

variable (hfill : fillChildIndex < childCount)

include hfill

/-- The fill child's own entry is zero, so dividing the others divides them all. -/
theorem mapIdx_div_fill (total : Scalar) :
    ((sharesBesideFill childCount fractions fillChildIndex).mapIdx fun index share =>
        if index ≠ fillChildIndex then share / total else share) =
      (sharesBesideFill childCount fractions fillChildIndex).map (· / total) := by
  apply ext_getElem (by simp)
  intro index hindex _
  simp only [getElem_mapIdx, getElem_map]
  split
  · rfl
  · next hne =>
    have heq : index = fillChildIndex := not_not.mp hne
    subst heq
    simp [sharesBesideFill]

/-- The others ask for more than the whole: they are scaled down and the fill child gets nothing. -/
theorem normalized_overfull
    (hsum : 1 < (sharesBesideFill childCount fractions fillChildIndex).sum) :
    Normalized (((sharesBesideFill childCount fractions fillChildIndex).map
      (· / (sharesBesideFill childCount fractions fillChildIndex).sum)).set fillChildIndex 0) := by
  have hpos := lt_trans zero_lt_one hsum
  constructor
  · intro share hmem
    rcases mem_or_eq_of_mem_set hmem with hmem | rfl
    · obtain ⟨fraction, hfraction, rfl⟩ := mem_map.mp hmem
      exact div_nonneg (sharesBesideFill_nonneg fractions _ hfraction) hpos.le
    · exact le_refl 0
  · rw [sum_set_of_zero 0 (by simp [sharesBesideFill_fill fractions hfill]), sum_map_div,
      div_self hpos.ne', add_zero]

theorem normalized_underfull
    (hsum : (sharesBesideFill childCount fractions fillChildIndex).sum ≤ 1) :
    Normalized ((sharesBesideFill childCount fractions fillChildIndex).set fillChildIndex
      (1 - (sharesBesideFill childCount fractions fillChildIndex).sum)) := by
  constructor
  · intro share hmem
    rcases mem_or_eq_of_mem_set hmem with hmem | rfl
    · exact sharesBesideFill_nonneg fractions share hmem
    · linarith
  · rw [sum_set_of_zero _ (sharesBesideFill_fill fractions hfill)]
    ring

end

theorem resolveSplitFractionsWithFillChild_spec (childCount : Nat) (fractions : List Scalar)
    (fillChildIndex : Option Nat) :
    (resolveSplitFractionsWithFillChild childCount fractions fillChildIndex).length
        = max childCount 1
      ∧ Normalized (resolveSplitFractionsWithFillChild childCount fractions fillChildIndex) := by
  have hplain : (resolveSplitFractions childCount fractions).length = max childCount 1
      ∧ Normalized (resolveSplitFractions childCount fractions) :=
    ⟨resolveSplitFractions_length _ _, resolveSplitFractions_normalized _ _⟩
  cases fillChildIndex with
  | none => exact hplain
  | some fillChildIndex =>
    simp only [resolveSplitFractionsWithFillChild]
    split
    · exact hplain
    · next hrange =>
      have hfill : fillChildIndex < childCount := by omega
      have hmax : childCount = max childCount 1 := by omega
      split
      · next hone => exact ⟨by simp [hone], ⟨by simp, by simp⟩⟩
      · split
        · next hsum =>
          rw [mapIdx_div_fill fractions hfill]
          exact ⟨by simpa using hmax, normalized_overfull fractions hfill hsum⟩
        · next hsum =>
          exact ⟨by simpa using hmax, normalized_underfull fractions hfill (not_lt.mp hsum)⟩

end FillChild

/-- Both resolvers give every child one share of a distribution, and normalizing
a second time changes nothing.  Without children the single share is left. -/
theorem split_fractions_resolve :
    (∀ (childCount : Nat) (fractions : List Scalar) (fillChildIndex : Option Nat),
      (resolveSplitFractions childCount fractions).length = max childCount 1
        ∧ Normalized (resolveSplitFractions childCount fractions)
        ∧ (resolveSplitFractionsWithFillChild childCount fractions fillChildIndex).length
            = max childCount 1
        ∧ Normalized (resolveSplitFractionsWithFillChild childCount fractions fillChildIndex))
    ∧ ∀ fractions : List Scalar, normalizeSplitFractions (normalizeSplitFractions fractions)
        = normalizeSplitFractions fractions := by
  refine ⟨fun childCount fractions fillChildIndex => ?_, fun fractions => ?_⟩
  · exact ⟨resolveSplitFractions_length _ _, resolveSplitFractions_normalized _ _,
      resolveSplitFractionsWithFillChild_spec childCount fractions fillChildIndex⟩
  · exact normalizeSplitFractions_of_normalized (normalizeSplitFractions_normalized fractions)

/-- Resolving for no children at all still returns one share. -/
theorem resolveSplitFractions_without_children :
    ¬ ∀ (childCount : Nat) (fractions : List Scalar) (fillChildIndex : Option Nat),
      ((resolveSplitFractions childCount fractions).length = childCount
        ∧ Normalized (resolveSplitFractions childCount fractions))
      ∧ ((resolveSplitFractionsWithFillChild childCount fractions fillChildIndex).length
          = childCount
        ∧ Normalized (resolveSplitFractionsWithFillChild childCount fractions fillChildIndex)) := by
  intro hall
  have hlength := (hall 0 [] none).1.1
  rw [resolveSplitFractions_length] at hlength
  exact absurd hlength (by decide)

end UiCore

end OpenGpui
