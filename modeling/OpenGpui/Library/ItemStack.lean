/-
Items laid one after another along an axis, with a gap between neighbours: where
each of them starts and stops, the loop that places them, and the searches that
find a threshold in such a list.
-/
import Mathlib.Algebra.Order.Group.Basic
import Mathlib.Algebra.Module.NatInt
import Mathlib.Data.List.Basic
import Mathlib.Tactic.Abel

namespace OpenGpui

open List Nat

universe u v

section Searches

variable {α : Type u}

/-- Where a list stops to satisfy the predicate, when the entries that do stand first. -/
def partitionPoint (p : α → Bool) (entries : List α) : Nat := entries.findIdx fun entry => !p entry

/-- The last position whose entry satisfies the predicate. -/
def rposition (p : α → Bool) : List α → Option Nat
  | [] => none
  | entry :: rest =>
    match rposition p rest with
    | some index => some (index + 1)
    | none => if p entry then some 0 else none

variable {p : α → Bool} {entries : List α} {index : Nat}

theorem findIdx_le_iff
    (hup : entries.Pairwise fun earlier later => p earlier = true → p later = true) (hindex :
    index < entries.length) :
    entries.findIdx p ≤ index ↔ p entries[index] = true := by
  induction entries generalizing index with
  | nil => simp at hindex
  | cons entry rest ih =>
    rw [pairwise_cons] at hup
    rw [findIdx_cons]
    by_cases hp : p entry = true
    · simp only [hp, cond_true, zero_le, true_iff]
      cases index with
      | zero => exact hp
      | succ index => exact hup.1 _ (getElem_mem _) hp
    · simp only [hp, cond_false]
      cases index with
      | zero => simpa using hp
      | succ index =>
        have hrest := ih hup.2 (lt_of_succ_lt_succ hindex)
        rw [getElem_cons_succ, ← hrest]
        omega

theorem lt_partitionPoint_iff
    (hdown : entries.Pairwise fun earlier later => p later = true → p earlier = true) (hindex :
    index < entries.length) :
    index < partitionPoint p entries ↔ p entries[index] = true := by
  have hup : entries.Pairwise fun earlier later =>
      (!p earlier) = true → (!p later) = true := by
    apply hdown.imp
    intro earlier later himp
    cases hearlier : p earlier <;> cases hlater : p later <;> simp_all
  have hle := findIdx_le_iff hup hindex
  rw [← not_le, partitionPoint, hle]
  simp

theorem partitionPoint_le (p : α → Bool) (entries : List α) :
    partitionPoint p entries ≤ entries.length :=
  findIdx_le_length

theorem rposition_lt (h : rposition p entries = some index) : index < entries.length := by
  induction entries generalizing index with
  | nil => simp [rposition] at h
  | cons entry rest ih =>
    rw [rposition] at h
    split at h
    next found hfound =>
      grind
    next => grind

/-- Counted from the front, the entries up to the last hit are those that satisfy
the predicate, if no entry after one that fails it does. -/
theorem lt_rposition_iff
    (hdown : entries.Pairwise fun earlier later => p later = true → p earlier = true) (hindex :
    index < entries.length) :
    index < ((rposition p entries).map (· + 1)).getD 0 ↔ p entries[index] = true := by
  induction entries generalizing index with
  | nil => simp at hindex
  | cons entry rest ih =>
    rw [pairwise_cons] at hdown
    rw [rposition]
    cases hrest : rposition p rest with
    | some found =>
      have hlt := rposition_lt hrest
      have hhit : p rest[found] = true := by
        rw [← ih hdown.2 hlt, hrest]
        simp
      cases index with
      | zero => simpa using hdown.1 _ (getElem_mem hlt) hhit
      | succ index =>
        have hnext := ih hdown.2 (lt_of_succ_lt_succ hindex)
        rw [getElem_cons_succ, ← hnext, hrest]
        simp
    | none =>
      cases index with
      | zero => by_cases hp : p entry = true <;> simp [hp]
      | succ index =>
        have hnext := ih hdown.2 (lt_of_succ_lt_succ hindex)
        rw [getElem_cons_succ, ← hnext, hrest]
        by_cases hp : p entry = true <;> simp [hp]

end Searches

/-- Sizes of items laid along an axis from an origin. -/
structure ItemStack (K : Type u) [AddCommGroup K] [LinearOrder K] where
  origin : K
  gap : K
  size : Nat → K
  gap_nonneg : 0 ≤ gap
  size_nonneg : ∀ index, 0 ≤ size index

namespace ItemStack

section Positions

variable {K : Type u} [AddCommGroup K] [LinearOrder K]

def start (stack : ItemStack K) : Nat → K
  | 0 => stack.origin
  | index + 1 => stack.start index + stack.size index + stack.gap

variable (stack : ItemStack K) (index : Nat)

def stop : K := stack.start index + stack.size index

@[simp] theorem start_zero : stack.start 0 = stack.origin := rfl

theorem start_succ : stack.start (index + 1) = stack.stop index + stack.gap := rfl

theorem stop_sub_start : stack.stop index - stack.start index = stack.size index :=
  add_sub_cancel_left _ _

/-- Items of one size stand at equal strides. -/
theorem start_of_uniform {extent : K} {count : Nat}
    (h : ∀ index < count, stack.size index = extent) :
    stack.start count = stack.origin + count • (extent + stack.gap) := by
  induction count with
  | zero => simp
  | succ count ih =>
    have hprev := ih fun index hindex => h index (lt_succ_of_lt hindex)
    rw [start_succ, stop, hprev, h count (lt_succ_self count), succ_nsmul]
    abel

variable [IsOrderedAddMonoid K]

theorem start_le_stop : stack.start index ≤ stack.stop index :=
  le_add_of_nonneg_right (stack.size_nonneg index)

theorem start_mono : Monotone stack.start := by
  apply monotone_nat_of_le_succ
  intro index
  exact le_add_of_le_of_nonneg (stack.start_le_stop index) stack.gap_nonneg

theorem stop_mono : Monotone stack.stop := by
  apply monotone_nat_of_le_succ
  intro index
  have hgap : stack.stop index ≤ stack.start (index + 1) := by
    exact le_add_of_nonneg_right stack.gap_nonneg
  exact hgap.trans (stack.start_le_stop (index + 1))

/-- The item has a point inside the open window. -/
def Meets (low high : K) (index : Nat) : Prop := low < stack.stop index ∧ stack.start index < high

end Positions

variable {K : Type u} {β : Type v} [AddCommGroup K] [LinearOrder K]

def placeStep (gap : K) (size : Nat → K) (emit : Nat → K → β) (count : Nat)
    (placed : List β × K) (index : Nat) : List β × K :=
  let stop := placed.2 + size index
  (placed.1 ++ [emit index placed.2], if index + 1 < count then stop + gap else stop)

/-- Place the items one after another, the cursor standing where the next starts. -/
def place (gap : K) (size : Nat → K) (emit : Nat → K → β) (count : Nat) (origin : K) : List β :=
  ((List.range count).foldl (placeStep gap size emit count) ([], origin)).1

variable (stack : ItemStack K)

theorem foldl_placeStep (emit : Nat → K → β) {count placed : Nat} (hplaced : placed ≤ count) :
    ∃ cursor, (placed < count → cursor = stack.start placed) ∧
      (List.range placed).foldl (placeStep stack.gap stack.size emit count) ([], stack.origin) =
        ((List.range placed).map fun index => emit index (stack.start index), cursor) := by
  induction placed with
  | zero => exact ⟨stack.origin, fun _ => rfl, rfl⟩
  | succ placed ih =>
    obtain ⟨cursor, hcursor, hfold⟩ := ih (le_of_succ_le hplaced)
    have hstart : cursor = stack.start placed := hcursor hplaced
    rw [range_succ, foldl_append, hfold]
    refine ⟨if placed + 1 < count then stack.stop placed + stack.gap
      else stack.stop placed, ?_, ?_⟩
    · intro hmore
      rw [if_pos hmore, start_succ]
    · simp [placeStep, hstart, stop]

/-- The loop puts every item where the stack has it. -/
theorem place_eq (emit : Nat → K → β) (count : Nat) :
    place stack.gap stack.size emit count stack.origin =
      (List.range count).map fun index => emit index (stack.start index) := by
  obtain ⟨_, _, hfold⟩ := stack.foldl_placeStep emit (le_refl count)
  rw [place, hfold]

omit [LinearOrder K] in
theorem place_congr {gap : K} {size other : Nat → K} {emit emit' : Nat → K → β}
    {count : Nat} (origin : K) (hsize : ∀ index < count, size index = other index)
    (hemit : ∀ index < count, ∀ start, emit index start = emit' index start) :
    place gap size emit count origin = place gap other emit' count origin := by
  have hfold := foldl_ext (placeStep gap size emit count)
    (placeStep gap other emit' count) ([], origin) (l := List.range count) ?_
  · rw [place, hfold, place]
  · intro placed index hmem
    have hlt := mem_range.mp hmem
    rw [placeStep, placeStep, hsize index hlt, hemit index hlt]

end ItemStack

end OpenGpui
