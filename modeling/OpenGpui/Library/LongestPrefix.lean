/-
Cutting a list into chunks, each the longest beginning that is known, or one entry
where no beginning is.
-/
import Mathlib.Data.List.Infix

namespace OpenGpui

open List Nat

universe u

/-- The greatest number below the bound that passes. -/
def lastBelow (passes : Nat → Bool) : Nat → Option Nat
  | 0 => none
  | bound + 1 => if passes bound then some bound else lastBelow passes bound

variable {passes : Nat → Bool}

theorem lastBelow_eq_some_iff {bound found : Nat} :
    lastBelow passes bound = some found ↔ found < bound ∧ passes found = true ∧
        ∀ later, found < later → later < bound → passes later = false := by
  induction bound with
  | zero => simp [lastBelow]
  | succ bound ih =>
    rw [lastBelow]
    by_cases hpasses : passes bound = true
    · rw [if_pos hpasses, Option.some.injEq]
      constructor
      · rintro rfl
        refine ⟨lt_succ_self _, hpasses, ?_⟩
        intro later hlater hbound
        omega
      · rintro ⟨hlt, _, hlast⟩
        by_contra hne
        have hfails := hlast bound (by omega) (lt_succ_self _)
        rw [hfails] at hpasses
        cases hpasses
    · rw [if_neg hpasses, ih]
      constructor
      · rintro ⟨hlt, hfound, hlast⟩
        refine ⟨lt_succ_of_lt hlt, hfound, ?_⟩
        intro later hlater hbound
        by_cases hsame : later = bound
        · rw [hsame]
          exact Bool.eq_false_iff.mpr hpasses
        · exact hlast later hlater (by omega)
      · rintro ⟨hlt, hfound, hlast⟩
        have hne : found ≠ bound := by
          rintro rfl
          exact hpasses hfound
        exact ⟨by omega, hfound, fun later hlater hbound =>
          hlast later hlater (lt_succ_of_lt hbound)⟩

theorem lastBelow_eq_none_iff {bound : Nat} :
    lastBelow passes bound = none ↔ ∀ found < bound, passes found = false := by
  induction bound with
  | zero => simp [lastBelow]
  | succ bound ih =>
    rw [lastBelow]
    by_cases hpasses : passes bound = true
    · rw [if_pos hpasses]
      constructor
      · intro h
        cases h
      · intro h
        rw [h bound (lt_succ_self _)] at hpasses
        cases hpasses
    · rw [if_neg hpasses, ih, forall_lt_succ_right]
      exact (and_iff_left (Bool.eq_false_iff.mpr hpasses)).symm

namespace LongestPrefix

variable {α : Type u} {known : List α → Bool}

/-- The chunk a list is cut at: its longest known beginning, or its first entry. -/
structure IsFirst (known : List α → Bool) (entries chunk : List α) : Prop where
  isPrefix : chunk <+: entries
  ne_nil : chunk ≠ []
  longest : (known chunk = true ∧ ∀ longer, longer <+: entries →
      chunk.length < longer.length → known longer = false) ∨
    (chunk.length = 1 ∧ ∀ first, first <+: entries → first ≠ [] → known first = false)

/-- One more entry leaves the chunk as it is, unless all entries are known together. -/
theorem IsFirst.concat {entries chunk : List α} (h : IsFirst known entries chunk)
    {last : α} (hall : known (entries ++ [last]) = false) :
    IsFirst known (entries ++ [last]) chunk where
  isPrefix := h.isPrefix.trans (prefix_append _ _)
  ne_nil := h.ne_nil
  longest := by
    rcases h.longest with ⟨hknown, hlonger⟩ | ⟨hlength, hnone⟩
    · left
      refine ⟨hknown, ?_⟩
      intro longer hprefix hlt
      rcases prefix_concat_iff.mp hprefix with rfl | hshorter
      · exact hall
      · exact hlonger longer hshorter hlt
    · right
      refine ⟨hlength, ?_⟩
      intro first hprefix hne
      rcases prefix_concat_iff.mp hprefix with rfl | hshorter
      · exact hall
      · exact hnone first hshorter hne

/-- The entries cut into chunks, up to what is left of them. -/
inductive Splits (known : List α → Bool) : List α → List (List α) → List α → Prop where
  | done (last : List α) : Splits known last [] last
  | chunk {entries chunk rest last : List α} {chunks : List (List α)}
      (hentries : entries = chunk ++ rest) (hfirst : IsFirst known entries chunk)
      (hrest : Splits known rest chunks last) : Splits known entries (chunk :: chunks) last

theorem Splits.flatten_append {entries last : List α} {chunks : List (List α)}
    (h : Splits known entries chunks last) : chunks.flatten ++ last = entries := by
  induction h with
  | done last => rfl
  | chunk hentries _ _ ih => rw [flatten_cons, append_assoc, ih, hentries]

end LongestPrefix

end OpenGpui
