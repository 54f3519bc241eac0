/-
Spans of a line.  Spans of given lengths, each starting where the one before stops,
cut the span of their total length into pieces: every point of it is on exactly one.
-/
import Mathlib.Algebra.Order.BigOperators.Group.List
import Mathlib.Algebra.Order.Group.Defs
import Mathlib.Tactic.Abel

namespace OpenGpui

open List List.IsChain

universe u

/-- A half-open piece of a line. -/
structure Span (α : Type u) where
  start : α
  length : α

namespace Span

variable {α : Type u} [AddCommGroup α] (span : Span α)

def stop : α := span.start + span.length

/-- Spans of some lengths, one after another. -/
def laid (start : α) : List α → List (Span α)
  | [] => []
  | length :: rest => ⟨start, length⟩ :: laid (start + length) rest

variable (start : α)

@[simp] theorem laid_length (lengths : List α) : (laid start lengths).length = lengths.length := by
  induction lengths generalizing start with
  | nil => rfl
  | cons length rest ih => rw [laid, length_cons, ih, length_cons]

theorem laid_adjacent (lengths : List α) :
    (laid start lengths).IsChain fun first next => first.stop = next.start := by
  induction lengths generalizing start with
  | nil => exact nil
  | cons length rest ih =>
    cases rest with
    | nil => exact singleton _
    | cons next rest => exact cons_cons rfl (ih (start + length))

variable [LinearOrder α]

/-- The span a point is on. -/
def holds (point : α) : Bool := decide (span.start ≤ point) && decide (point < span.stop)

theorem holds_iff {span : Span α} {point : α} :
    span.holds point = true ↔ span.start ≤ point ∧ point < span.stop := by
  rw [holds, Bool.and_eq_true, decide_eq_true_iff, decide_eq_true_iff]

/-- A span between the ends of another. -/
structure Within (part whole : Span α) : Prop where
  start_le : whole.start ≤ part.start
  nonneg : 0 ≤ part.length
  stop_le : part.stop ≤ whole.stop

theorem Within.refl {span : Span α} (hnonneg : 0 ≤ span.length) : span.Within span :=
  ⟨le_rfl, hnonneg, le_rfl⟩

variable [IsOrderedAddMonoid α] {lengths : List α}

theorem laid_within {start : α} (hnonneg : ∀ length ∈ lengths, 0 ≤ length) :
    ∀ part ∈ laid start lengths, part.Within ⟨start, lengths.sum⟩ := by
  induction lengths generalizing start with
  | nil => exact fun part hmem => absurd hmem not_mem_nil
  | cons length rest ih =>
    have hfirst : 0 ≤ length := hnonneg length mem_cons_self
    have hrest : ∀ other ∈ rest, 0 ≤ other := fun other hmem =>
      hnonneg other (mem_cons_of_mem _ hmem)
    intro part hmem
    rw [laid, mem_cons] at hmem
    rcases hmem with rfl | hmem
    · refine ⟨le_rfl, hfirst, ?_⟩
      exact add_le_add_right (le_add_of_nonneg_right (sum_nonneg hrest)) start
    · obtain ⟨hstart, hlength, hstop⟩ := ih hrest part hmem
      refine ⟨(le_add_of_nonneg_right hfirst).trans hstart, hlength, hstop.trans_eq ?_⟩
      exact add_assoc start length rest.sum

/-- Every point of the whole is on exactly one of the spans laid in it. -/
theorem countP_laid {start : α} (hnonneg : ∀ length ∈ lengths, 0 ≤ length)
    (point : α) : (laid start lengths).countP (·.holds point) =
      if (⟨start, lengths.sum⟩ : Span α).holds point then 1 else 0 := by
  induction lengths generalizing start with
  | nil =>
    have hempty : ¬ (⟨start, ([] : List α).sum⟩ : Span α).holds point = true := by
      rw [holds_iff, stop, sum_nil, add_zero]
      exact fun ⟨hstart, hstop⟩ => absurd hstop (not_lt.mpr hstart)
    rw [if_neg hempty]
    rfl
  | cons length rest ih =>
    have hfirst : 0 ≤ length := hnonneg length mem_cons_self
    have hrest : ∀ other ∈ rest, 0 ≤ other := fun other hmem =>
      hnonneg other (mem_cons_of_mem _ hmem)
    have hend : start + length + rest.sum = start + (length :: rest).sum := by
      rw [sum_cons, add_assoc]
    rw [laid, countP_cons, ih hrest]
    simp only [holds_iff, stop, hend]
    by_cases hon : start ≤ point ∧ point < start + length
    · have hpast : ¬ (start + length ≤ point ∧ point < start + (length :: rest).sum) :=
        fun h => absurd hon.2 (not_lt.mpr h.1)
      have hwhole : start ≤ point ∧ point < start + (length :: rest).sum := by
        refine ⟨hon.1, hon.2.trans_le ?_⟩
        rw [← hend]
        exact le_add_of_nonneg_right (sum_nonneg hrest)
      rw [if_pos hon, if_neg hpast, if_pos hwhole]
    · have hiff : (start + length ≤ point ∧ point < start + (length :: rest).sum) ↔
          start ≤ point ∧ point < start + (length :: rest).sum := by
        constructor
        · exact fun h => ⟨(le_add_of_nonneg_right hfirst).trans h.1, h.2⟩
        · exact fun h => ⟨not_lt.mp fun hlt => hon ⟨h.1, hlt⟩, h.2⟩
      rw [if_neg hon, add_zero]
      simp only [hiff]

end Span

end OpenGpui
