/-
Counting keys: a map of counts, and the entries of a list numbered by how often their
key has come before.
-/
import OpenGpui.Library.IndexMap
import Mathlib.Data.List.Count

namespace OpenGpui

open List

universe u v

/-- How often each key has been counted; a key that is absent was not. -/
abbrev Tally (κ : Type u) := IndexMap κ Nat

namespace Tally

variable {α : Type v} {κ : Type u} [DecidableEq κ]

def count (tally : Tally κ) (key : κ) : Nat := (tally.get key).getD 0

def add (tally : Tally κ) (key : κ) : Tally κ := tally.insert key (tally.count key + 1)

theorem count_empty (key : κ) : count (.empty : Tally κ) key = 0 := rfl

theorem count_add (tally : Tally κ) (key other : κ) :
    (tally.add key).count other = tally.count other + if key = other then 1 else 0 := by
  rw [count, add]
  by_cases hkey : key = other
  · subst hkey
    simp
  · simp [hkey, count]

def addAll (tally : Tally κ) (keys : List κ) : Tally κ := keys.foldl add tally

theorem addAll_append (tally : Tally κ) (first second : List κ) :
    tally.addAll (first ++ second) = (tally.addAll first).addAll second :=
  foldl_append

theorem count_addAll (tally : Tally κ) (keys : List κ) (key : κ) : (tally.addAll keys).count key =
      tally.count key + keys.countP fun other => decide (other = key) := by
  induction keys generalizing tally with
  | nil => simp [addAll]
  | cons head rest ih =>
    have hrest := ih (tally.add head)
    rw [addAll, foldl_cons]
    rw [addAll] at hrest
    rw [hrest, count_add]
    by_cases hkey : head = key
    · simp [hkey]
      omega
    · simp [hkey]

/-- The entries with the count of their key among the tally and the entries before. -/
@[grind =] def number (key : α → κ) (tally : Tally κ) : List α → List (α × Nat)
  | [] => []
  | entry :: rest =>
    (entry, tally.count (key entry)) :: number key (tally.add (key entry)) rest

variable {key : α → κ}

theorem map_fst_number (tally : Tally κ) (entries : List α) :
    (number key tally entries).map Prod.fst = entries := by
  induction entries generalizing tally with
  | nil => rfl
  | cons entry rest ih => rw [number, map_cons, ih]

theorem number_append (tally : Tally κ) (first second : List α) :
    number key tally (first ++ second) =
      number key tally first ++ number key (tally.addAll (first.map key)) second := by
  induction first generalizing tally with
  | nil => rfl
  | cons entry rest ih =>
    rw [cons_append, number, ih]
    rfl

/-- The number of an entry counts the entries with its key that come before it. -/
theorem getElem?_number (tally : Tally κ) (entries : List α) (index : Nat) :
    (number key tally entries)[index]? = entries[index]?.map fun entry =>
      (entry, tally.count (key entry) +
        (entries.take index).countP fun other => decide (key other = key entry)) := by
  induction entries generalizing tally index with
  | nil => rfl
  | cons first rest ih =>
    cases index with
    | zero => simp [number]
    | succ index =>
      rw [number, getElem?_cons_succ, ih]
      apply congrArg (Option.map · rest[index]?)
      funext entry
      rw [count_add]
      by_cases hkey : key first = key entry
      · simp [hkey]
        omega
      · simp [hkey]

theorem count_le_of_mem_number {tally : Tally κ} {entries : List α} {numbered : α × Nat}
    (h : numbered ∈ number key tally entries) :
    tally.count (key numbered.1) ≤ numbered.2 := by
  induction entries generalizing tally with
  | nil => cases h
  | cons entry rest ih =>
    rcases mem_cons.mp h with rfl | hrest
    · exact Nat.le_refl _
    · have hle := ih hrest
      rw [count_add] at hle
      omega

/-- Of two entries with one key the later has the greater number. -/
theorem pairwise_number (tally : Tally κ) (entries : List α) :
    (number key tally entries).Pairwise fun earlier later =>
      key earlier.1 = key later.1 → earlier.2 < later.2 := by
  induction entries generalizing tally with
  | nil => exact List.Pairwise.nil
  | cons entry rest ih =>
    rw [number, pairwise_cons]
    refine ⟨?_, ih _⟩
    intro later hlater hkey
    have hle := count_le_of_mem_number hlater
    rw [count_add, if_pos hkey] at hle
    rw [hkey]
    omega

end Tally

end OpenGpui
