/-
Summaries added up from the left, and the dimensions that measure them.  Zero has to
be neutral on the left only: the keys of an ordered map are summaries whose sum is the
last one.
-/
import Mathlib.Algebra.Group.Basic

namespace OpenGpui.SumTrees

open List

universe u v w

class Summary (S : Type v) extends AddSemigroup S, Zero S where
  zero_add_summary : ∀ summary : S, 0 + summary = summary

scoped instance (priority := low) summaryOfAddMonoid {S : Type v} [AddMonoid S] : Summary S where
  zero_add_summary := zero_add

class Item (T : Type u) (S : outParam (Type v)) where
  summary : T → S

section Sum

variable {S : Type v} [Summary S]

def sum (summaries : List S) : S := summaries.foldl (· + ·) 0

variable (first second : S)

theorem foldl_add (rest : List S) :
    rest.foldl (· + ·) (first + second) = first + rest.foldl (· + ·) second := by
  induction rest generalizing second with
  | nil => rfl
  | cons third rest ih => rw [foldl_cons, foldl_cons, add_assoc, ih]

variable (first : S)

theorem sum_cons (rest : List S) : sum (first :: rest) = rest.foldl (· + ·) first := by
  rw [sum, foldl_cons, Summary.zero_add_summary]

@[simp] theorem sum_singleton (summary : S) : sum [summary] = summary := sum_cons summary []

/-- Without a right neutral zero, only a tail that is not empty can be split off. -/
theorem sum_append (front : List S) {back : List S} (hback : back ≠ []) :
    sum (front ++ back) = sum front + sum back := by
  obtain ⟨next, rest, rfl⟩ := exists_cons_of_ne_nil hback
  rw [sum, foldl_append, foldl_cons, foldl_add, sum_cons]
  rfl

theorem sum_cons_of_ne_nil {rest : List S} (hrest : rest ≠ []) :
    sum (first :: rest) = first + sum rest := by
  rw [← singleton_append, sum_append [first] hrest, sum_singleton]

/-- A sum of sums of lists that are not empty is the sum of them all. -/
theorem sum_map_sum {α : Type u} (parts : α → List S) (list : List α)
    (hparts : ∀ x ∈ list, parts x ≠ []) :
    sum (list.map fun x => sum (parts x)) = sum (list.flatMap parts) := by
  induction list with
  | nil => rfl
  | cons x rest ih =>
    have hrest := ih fun y hy => hparts y (mem_cons_of_mem x hy)
    rw [map_cons, flatMap_cons]
    cases rest with
    | nil => rw [map_nil, sum_singleton, flatMap_nil, append_nil]
    | cons y rest =>
      have hne : (y :: rest).flatMap parts ≠ [] := by
        have hy := hparts y (by simp)
        simp [flatMap_cons, hy]
      rw [sum_cons_of_ne_nil _ (by simp), hrest, sum_append _ hne]

end Sum

/-- A measure that summaries are added to. -/
class Dimension (D : Type w) (S : Type v) [Summary S] where
  zero : D
  addSummary : D → S → D
  addSummary_add : ∀ (position : D) (first second : S),
    addSummary position (first + second) = addSummary (addSummary position first) second
  addSummary_zero_zero : addSummary zero 0 = zero

instance Summary.dimension {S : Type v} [Summary S] : Dimension S S where
  zero := 0
  addSummary := (· + ·)
  addSummary_add position first second := (add_assoc position first second).symm
  addSummary_zero_zero := Summary.zero_add_summary 0

variable {T : Type u} {S : Type v} {D : Type w} [Summary S] [Item T S] [Dimension D S]

variable (position : D)

variable (items : List T)

/-- A position moved past the items, one after another. -/
def advance : D :=
  items.foldl (fun position item => Dimension.addSummary position (Item.summary item)) position

variable (D) in
/-- The position after the items of a front part. -/
def positionOf : D := advance (Dimension.zero S) items

theorem advance_cons (item : T) (items : List T) : advance position (item :: items) =
      advance (Dimension.addSummary position (Item.summary item)) items := rfl

variable (front back : List T)

theorem advance_append : advance position (front ++ back) = advance (advance position front) back :=
  foldl_append

theorem positionOf_append :
    positionOf D (front ++ back) = advance (positionOf D front) back := advance_append _ _ _

theorem positionOf_append_singleton (front : List T) (item : T) : positionOf D (front ++ [item]) =
      Dimension.addSummary (positionOf D front) (Item.summary item) := positionOf_append _ _

theorem addSummary_foldl (first : S) (rest : List S) :
    Dimension.addSummary position (rest.foldl (· + ·) first) =
      rest.foldl Dimension.addSummary (Dimension.addSummary position first) := by
  induction rest generalizing first with
  | nil => rfl
  | cons second rest ih => rw [foldl_cons, foldl_cons, ih, Dimension.addSummary_add]

/-- The summary of items takes a position to where the items one by one take it. -/
theorem addSummary_sum {items : List T} (hitems : items ≠ []) :
    Dimension.addSummary position (sum (items.map Item.summary)) = advance position items := by
  obtain ⟨item, rest, rfl⟩ := exists_cons_of_ne_nil hitems
  rw [map_cons, sum_cons, addSummary_foldl, advance_cons, advance, foldl_map]

/-- From zero this holds for no items too. -/
theorem addSummary_zero_sum :
    Dimension.addSummary (Dimension.zero S : D) (sum (items.map Item.summary)) =
      positionOf D items := by
  cases items with
  | nil => exact Dimension.addSummary_zero_zero
  | cons item rest => exact addSummary_sum _ (by simp)

end OpenGpui.SumTrees
