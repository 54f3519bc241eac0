/-
Entries taken in order unless their key was taken before: a list of what was taken,
and the set of all keys seen so far.
-/
import Mathlib.Data.Finset.Insert

namespace OpenGpui

open List

variable {α κ : Type} [DecidableEq κ] (key : α → κ)

/-- What was taken, and the keys seen. -/
abbrev Taken (α κ : Type) := List α × Finset κ

namespace Taken

variable (taken : Taken α κ)

def push (entry : α) : Taken α κ :=
  if key entry ∈ taken.2 then taken else (taken.1 ++ [entry], insert (key entry) taken.2)

variable (entries : List α)

def pushAll : Taken α κ := entries.foldl (push key) taken

theorem pushAll_append (entries more : List α) :
    pushAll key taken (entries ++ more) = pushAll key (pushAll key taken entries) more :=
  foldl_append

theorem pushAll_flatMap {β : Type} (taken : Taken α κ) (parts : List β) (part : β → List α) :
    pushAll key taken (parts.flatMap part) =
      parts.foldl (fun taken one => pushAll key taken (part one)) taken := by
  induction parts generalizing taken with
  | nil => rfl
  | cons one rest ih => rw [flatMap_cons, pushAll_append, ih, foldl_cons]

/-- What a run of entries adds to what was taken before. -/
structure Adds (seen : Finset κ) (entries added : List α) : Prop where
  sublist : added.Sublist entries
  nodup : (added.map key).Nodup
  unseen : ∀ entry ∈ added, key entry ∉ seen
  covers : ∀ entry ∈ entries, key entry ∈ seen ∨ key entry ∈ added.map key

theorem pushAll_adds :
    ∃ added, Adds key taken.2 entries added ∧ (pushAll key taken entries).1 = taken.1 ++ added ∧
      ∀ k, k ∈ (pushAll key taken entries).2 ↔ k ∈ taken.2 ∨ k ∈ added.map key := by
  induction entries generalizing taken with
  | nil =>
    refine ⟨[], ⟨nil_sublist _, nodup_nil, ?_, ?_⟩, ?_, ?_⟩
    · intro entry hentry
      cases hentry
    · intro entry hentry
      cases hentry
    · exact (append_nil _).symm
    · intro k
      simp [pushAll]
  | cons first rest ih =>
    have hstep : pushAll key taken (first :: rest) = pushAll key (push key taken first) rest := rfl
    by_cases hseen : key first ∈ taken.2
    · -- seen before: nothing changes
      have hpush : push key taken first = taken := if_pos hseen
      obtain ⟨added, hadds, hlist, hkeys⟩ := ih taken
      rw [hstep, hpush]
      refine ⟨added, ⟨hadds.sublist.cons _, hadds.nodup, hadds.unseen, ?_⟩, hlist, hkeys⟩
      intro entry hentry
      rcases mem_cons.mp hentry with rfl | hrest
      · exact .inl hseen
      · exact hadds.covers entry hrest
    · have hpush : push key taken first = (taken.1 ++ [first], insert (key first) taken.2) :=
        if_neg hseen
      obtain ⟨added, hadds, hlist, hkeys⟩ := ih (push key taken first)
      rw [hpush] at hadds hlist hkeys
      rw [hstep, hpush]
      have hapart : ∀ entry ∈ added, key entry ≠ key first ∧ key entry ∉ taken.2 := by
        intro entry hentry
        have hnot := hadds.unseen entry hentry
        rw [Finset.mem_insert, not_or] at hnot
        exact hnot
      refine ⟨first :: added, ⟨hadds.sublist.cons_cons _, ?_, ?_, ?_⟩, ?_, ?_⟩
      · rw [map_cons, nodup_cons]
        refine ⟨?_, hadds.nodup⟩
        intro hmem
        obtain ⟨entry, hentry, hsame⟩ := mem_map.mp hmem
        exact (hapart entry hentry).1 hsame
      · intro entry hentry
        rcases mem_cons.mp hentry with rfl | hadded
        · exact hseen
        · exact (hapart entry hadded).2
      · intro entry hentry
        rw [map_cons, mem_cons]
        rcases mem_cons.mp hentry with rfl | hrest
        · exact .inr (.inl rfl)
        · rcases hadds.covers entry hrest with hold | hnew
          · rw [Finset.mem_insert] at hold
            rcases hold with hsame | hold
            · exact .inr (.inl hsame)
            · exact .inl hold
          · exact .inr (.inr hnew)
      · rw [hlist, append_assoc]
        rfl
      · intro k
        rw [hkeys, Finset.mem_insert, map_cons, mem_cons, or_left_comm, or_assoc]

end Taken

end OpenGpui
