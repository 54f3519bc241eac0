/-
Keyed entries laid over each other: an entry takes the place of the entry that has its
key, and an entry with a new key goes to the end.
-/
import Mathlib.Data.List.Induction
import Mathlib.Data.List.Nodup

namespace OpenGpui.Overlay

open List

universe u v

variable {α : Type u} {κ : Type v} [DecidableEq κ] (key : α → κ)

def place (entry : α) : List α → List α
  | [] => [entry]
  | head :: rest => if key head = key entry then entry :: rest else head :: place entry rest

/-- What a log of entries, the latest first, leaves. -/
def overlay : List α → List α
  | [] => []
  | entry :: earlier => place key entry (overlay earlier)

/-- The entries of the second list that replace one, each with the one it replaces; the first
list is the log before them. -/
def replaced : List α → List α → List (α × α)
  | _, [] => []
  | earlier, entry :: later =>
    ((earlier.find? fun old => decide (key old = key entry)).map fun old => (old, entry)).toList ++
      replaced (entry :: earlier) later

variable {key}

theorem map_key_place (entry : α) (entries : List α) : (place key entry entries).map key =
      if key entry ∈ entries.map key then entries.map key else entries.map key ++ [key entry] := by
  induction entries with
  | nil => rfl
  | cons head rest ih =>
    by_cases heq : key head = key entry
    · rw [place, if_pos heq, map_cons, map_cons, if_pos (heq ▸ mem_cons_self), heq]
    · have hmem : key entry ∈ (head :: rest).map key ↔ key entry ∈ rest.map key := by
        rw [map_cons, mem_cons, or_iff_right (Ne.symm heq)]
      rw [place, if_neg heq, map_cons, ih, map_cons]
      rw [map_cons] at hmem
      by_cases hin : key entry ∈ rest.map key
      · rw [if_pos hin, if_pos (hmem.mpr hin)]
      · rw [if_neg hin, if_neg fun h => hin (hmem.mp h), cons_append]

theorem eraseDups_append_singleton (keys : List κ) (k : κ) :
    (keys ++ [k]).eraseDups = if k ∈ keys then keys.eraseDups else keys.eraseDups ++ [k] := by
  rw [eraseDups_append]
  by_cases hin : k ∈ keys
  · simp [removeAll, hin]
  · simp [removeAll, hin, eraseDups_cons]

variable (key) in
/-- Every key once, in the order the keys came up. -/
theorem map_key_overlay (log : List α) :
    (overlay key log).map key = (log.reverse.map key).eraseDups := by
  induction log with
  | nil => rfl
  | cons entry earlier ih =>
    rw [overlay, map_key_place, ih, reverse_cons, map_append, map_cons, map_nil,
      eraseDups_append_singleton]
    simp only [mem_eraseDups]

theorem nodup_eraseDups (keys : List κ) : keys.eraseDups.Nodup := by
  induction keys using reverseRecOn with
  | nil => exact nodup_nil
  | append_singleton keys k ih =>
    rw [eraseDups_append_singleton]
    by_cases hin : k ∈ keys
    · rw [if_pos hin]
      exact ih
    · rw [if_neg hin, ← concat_eq_append]
      exact ih.concat fun h => hin (mem_eraseDups.mp h)

variable (key) in
theorem keys_nodup (log : List α) : ((overlay key log).map key).Nodup := by
  rw [map_key_overlay]
  exact nodup_eraseDups _

variable {entry : α} {entries : List α}

theorem mem_place {other : α} (hnodup : (entries.map key).Nodup) :
    other ∈ place key entry entries ↔ other = entry ∨ other ∈ entries ∧ key other ≠ key entry := by
  induction entries with
  | nil => simp [place]
  | cons head rest ih =>
    rw [map_cons, nodup_cons] at hnodup
    by_cases heq : key head = key entry
    · have hapart : ∀ later ∈ rest, key later ≠ key entry := by
        intro later hlater hsame
        exact hnodup.1 (heq.trans hsame.symm ▸ mem_map_of_mem hlater)
      rw [place, if_pos heq, mem_cons, mem_cons]
      constructor
      · rintro (rfl | hrest)
        · exact .inl rfl
        · exact .inr ⟨.inr hrest, hapart other hrest⟩
      · rintro (rfl | ⟨rfl | hrest, hne⟩)
        · exact .inl rfl
        · exact absurd heq hne
        · exact .inr hrest
    · rw [place, if_neg heq, mem_cons, ih hnodup.2, mem_cons]
      constructor
      · rintro (rfl | rfl | ⟨hrest, hne⟩)
        · exact .inr ⟨.inl rfl, heq⟩
        · exact .inl rfl
        · exact .inr ⟨.inr hrest, hne⟩
      · rintro (rfl | ⟨rfl | hrest, hne⟩)
        · exact .inr (.inl rfl)
        · exact .inl rfl
        · exact .inr (.inr ⟨hrest, hne⟩)

/-- An entry is left when it is the latest one with its key. -/
theorem mem_overlay_iff {log : List α} : entry ∈ overlay key log ↔
      (log.find? fun other => decide (key other = key entry)) = some entry := by
  induction log with
  | nil => simp [overlay]
  | cons latest earlier ih =>
    rw [overlay, mem_place (keys_nodup key earlier), ih, find?_cons]
    by_cases heq : key latest = key entry
    · simp only [heq, decide_true, Option.some.injEq, ne_eq, not_true_eq_false, and_false, or_false]
      exact eq_comm
    · simp only [heq, decide_false, ne_eq, Ne.symm heq, not_false_eq_true, and_true,
        or_iff_right_iff_imp]
      rintro rfl
      exact absurd rfl heq

variable (key) in
theorem replaced_append (log first second : List α) : replaced key log (first ++ second) =
      replaced key log first ++ replaced key (first.reverse ++ log) second := by
  induction first generalizing log with
  | nil => rfl
  | cons entry rest ih =>
    rw [cons_append, replaced, replaced, ih, append_assoc, reverse_cons,
      append_assoc, singleton_append]

theorem place_eq_append (hnew : key entry ∉ entries.map key) :
    place key entry entries = entries ++ [entry] := by
  induction entries with
  | nil => rfl
  | cons head rest ih =>
    rw [map_cons, mem_cons, not_or] at hnew
    rw [place, if_neg (Ne.symm hnew.1), ih hnew.2, cons_append]

variable {position : Nat}

theorem place_eq_set {old : α} (hnodup : (entries.map key).Nodup)
    (hold : entries[position]? = some old) (hsame : key old = key entry) :
    place key entry entries = entries.set position entry := by
  induction entries generalizing position with
  | nil => simp at hold
  | cons head rest ih =>
    rw [map_cons, nodup_cons] at hnodup
    cases position with
    | zero =>
      obtain rfl : head = old := by simpa using hold
      rw [place, if_pos hsame, set_cons_zero]
    | succ position =>
      rw [getElem?_cons_succ] at hold
      have hne : key head ≠ key entry := by
        intro heq
        have hin := mem_map_of_mem (f := key) (mem_of_getElem? hold)
        exact hnodup.1 (heq.trans hsame.symm ▸ hin)
      rw [place, if_neg hne, ih hnodup.2 hold, set_cons_succ]

/-- The entry at an index of a list that one more entry is appended to. -/
theorem getElem?_append_singleton_iff {keys : List κ} {k id : κ} (hnew : k ∉ keys) :
    (keys ++ [k])[position]? = some id ↔
      if k = id then keys.length = position else keys[position]? = some id := by
  by_cases heq : k = id
  · subst heq
    rw [if_pos rfl]
    constructor
    · intro hget
      rw [getElem?_append] at hget
      split at hget
      · exact absurd (mem_of_getElem? hget) hnew
      · have hlt := (List.getElem?_eq_some_iff.mp hget).1
        simp only [List.length_singleton] at hlt
        omega
    · rintro rfl
      simp
  · rw [getElem?_append]
    split
    · exact Iff.rfl
    · rename_i hle
      rw [getElem?_eq_none (Nat.le_of_not_lt hle)]
      constructor
      · intro hget
        exact absurd (mem_singleton.mp (mem_of_getElem? hget)).symm heq
      · intro hget
        cases hget

end OpenGpui.Overlay
