/-
Moving the chosen entries of a list toward one of its ends.  Every way of moving them
keeps the order among the chosen entries and the order among the others; the single
steps carry a chosen entry past at most one other entry.
-/
import Mathlib.Data.List.Basic
import Mathlib.Data.List.Induction

namespace OpenGpui

open List

universe u v

namespace Lifting

variable {α : Type u} {β : Type v}

section Moves

variable (chosen : α → Bool) (entries : List α)

def toEnd : List α := entries.filter (!chosen ·) ++ entries.filter chosen

def toStart : List α := entries.filter chosen ++ entries.filter (!chosen ·)

/-- The entry at the index changes places with the next one. -/
def swapNext : List α → Nat → List α
  | first :: second :: rest, 0 => second :: first :: rest
  | first :: rest, index + 1 => first :: swapNext rest index
  | entries, _ => entries

variable (index : Nat)

/-- A chosen entry with another one right after it changes places with it. -/
def raiseAt : List α :=
  if (entries[index]?).any chosen && (entries[index + 1]?).any (!chosen ·) then
    swapNext entries index
  else entries

/-- A chosen entry with another one right before it changes places with it. -/
def lowerAt : List α :=
  if (entries[index]?).any chosen && decide (0 < index) &&
      (entries[index - 1]?).any (!chosen ·) then
    swapNext entries (index - 1)
  else entries

/-- One step at each index, from the last one down. -/
def raise : List α := (range entries.length).reverse.foldl (raiseAt chosen) entries

/-- One step at each index, from the first one up. -/
def lower : List α := (range entries.length).foldl (lowerAt chosen) entries

/-- The entries before an entry that are not chosen. -/
def othersBefore [DecidableEq α] (entries : List α) (entry : α) : List α :=
  (entries.takeWhile (· ≠ entry)).filter (!chosen ·)

/-- The chosen entries stand at the end. -/
def AtEnd : Prop := entries.Pairwise fun before after => chosen before = true → chosen after = true

/-- The chosen entries stand at the start. -/
def AtStart : Prop :=
  entries.Pairwise fun before after => chosen after = true → chosen before = true

/-- The order among the chosen entries and the order among the others are those of
another list. -/
structure KeepsOrders (before after : List α) : Prop where
  picked : after.filter chosen = before.filter chosen
  others : after.filter (!chosen ·) = before.filter (!chosen ·)

end Moves

variable {chosen : α → Bool}

namespace KeepsOrders

variable {before after : List α}

theorem perm (h : KeepsOrders chosen before after) : after.Perm before := by
  have hafter := filter_append_perm chosen after
  rw [h.picked, h.others] at hafter
  exact hafter.symm.trans (filter_append_perm chosen before)

theorem reverse (h : KeepsOrders chosen before after) :
    KeepsOrders chosen before.reverse after.reverse := by
  refine ⟨?_, ?_⟩
  · rw [filter_reverse, filter_reverse, h.picked]
  · rw [filter_reverse, filter_reverse, h.others]

end KeepsOrders

section Step

variable (chosen) (first : α) (rest : List α)

theorem raiseAt_succ (index : Nat) :
    raiseAt chosen (first :: rest) (index + 1) = first :: raiseAt chosen rest index := by
  rw [raiseAt, raiseAt, getElem?_cons_succ, getElem?_cons_succ, swapNext, apply_ite (first :: ·)]

theorem raiseAt_zero_singleton : raiseAt chosen [first] 0 = [first] := by
  simp [raiseAt]

theorem raiseAt_zero (second : α) : raiseAt chosen (first :: second :: rest) 0 =
      if chosen first && !chosen second then second :: first :: rest
      else first :: second :: rest := by
  simp [raiseAt, swapNext]

theorem foldl_raiseAt_succ (indices : List Nat) :
    (indices.map Nat.succ).foldl (raiseAt chosen) (first :: rest) =
      first :: indices.foldl (raiseAt chosen) rest := by
  induction indices generalizing rest with
  | nil => rfl
  | cons index indices ih => rw [map_cons, foldl_cons, raiseAt_succ, ih, foldl_cons]

@[simp] theorem raise_nil : raise chosen [] = [] := rfl

/-- The last step of the pass is the one at the first entry. -/
theorem raise_cons :
    raise chosen (first :: rest) = raiseAt chosen (first :: raise chosen rest) 0 := by
  rw [raise, length_cons, range_succ_eq_map, reverse_cons, foldl_append,
    ← map_reverse, foldl_raiseAt_succ]
  rfl

/-- What the last step finds: an entry that stays, or a chosen one that goes behind the
next, which is not chosen. -/
theorem raise_cons_cases :
    (raise chosen (first :: rest) = first :: raise chosen rest ∧
        (chosen first = true → ∀ second ∈ (raise chosen rest).head?, chosen second = true)) ∨
      ∃ second more, raise chosen rest = second :: more ∧ chosen first = true ∧
        chosen second = false ∧ raise chosen (first :: rest) = second :: first :: more := by
  rw [raise_cons]
  cases hraised : raise chosen rest with
  | nil => exact .inl ⟨raiseAt_zero_singleton chosen first, by simp⟩
  | cons second more =>
    rw [raiseAt_zero]
    by_cases hswap : (chosen first && !chosen second) = true
    · rw [Bool.and_eq_true, Bool.not_eq_true'] at hswap
      refine .inr ⟨second, more, rfl, hswap.1, hswap.2, ?_⟩
      rw [hswap.1, hswap.2]
      rfl
    · refine .inl ⟨if_neg hswap, ?_⟩
      intro hfirst other hother
      rw [head?_cons, Option.mem_some_iff] at hother
      rw [hfirst, Bool.true_and, Bool.not_eq_true, Bool.not_eq_false'] at hswap
      rw [← hother, hswap]

end Step

section Raise

variable (chosen)

theorem filter_raise (kept : Bool) (entries : List α) :
    (raise chosen entries).filter (chosen · == kept) = entries.filter (chosen · == kept) := by
  induction entries with
  | nil => rfl
  | cons first rest ih =>
    rcases raise_cons_cases chosen first rest with
      ⟨hstay, _⟩ | ⟨second, more, hraised, hfirst, hsecond, hswap⟩
    · rw [hstay, filter_cons, filter_cons, ih]
    · rw [hraised] at ih
      rw [hswap, @filter_cons _ first rest, ← ih]
      cases kept <;> simp [hfirst, hsecond]

variable (entries : List α)

theorem raise_keepsOrders : KeepsOrders chosen entries (raise chosen entries) := by
  refine ⟨?_, ?_⟩
  · simpa using filter_raise chosen true entries
  · simpa using filter_raise chosen false entries

theorem raise_map (f : β → α) (entries : List β) :
    raise chosen (entries.map f) = (raise (fun entry => chosen (f entry)) entries).map f := by
  induction entries with
  | nil => rfl
  | cons first rest ih =>
    rw [map_cons, raise_cons, raise_cons, ih]
    cases raise (fun entry => chosen (f entry)) rest with
    | nil => simp [raiseAt_zero_singleton]
    | cons second more =>
      rw [map_cons, raiseAt_zero, raiseAt_zero]
      split
      · rfl
      · rfl

/-- A chosen entry comes to stand after at most one more of the others. -/
theorem raise_passes [DecidableEq α] (entries : List α) {entry : α} (hchosen : chosen entry = true)
    (hmem : entry ∈ entries) :
    ∃ passed, passed.length ≤ 1 ∧ othersBefore chosen (raise chosen entries) entry =
        othersBefore chosen entries entry ++ passed := by
  induction entries with
  | nil => cases hmem
  | cons first rest ih =>
    rcases raise_cons_cases chosen first rest with
      ⟨hstay, _⟩ | ⟨second, more, hraised, hfirst, hsecond, hswap⟩
    · rw [hstay]
      by_cases heq : first = entry
      · exact ⟨[], Nat.zero_le 1, by simp [othersBefore, heq]⟩
      · obtain ⟨passed, hone, hbefore⟩ := ih ((mem_cons.mp hmem).resolve_left (Ne.symm heq))
        refine ⟨passed, hone, ?_⟩
        cases hother : chosen first <;> simpa [othersBefore, heq, hother] using hbefore
    · have hne : second ≠ entry := fun heq => by rw [heq, hchosen] at hsecond; cases hsecond
      rw [hswap]
      by_cases heq : first = entry
      · exact ⟨[second], Nat.le_refl 1, by simp [othersBefore, heq, hne, hsecond]⟩
      · obtain ⟨passed, hone, hbefore⟩ := ih ((mem_cons.mp hmem).resolve_left (Ne.symm heq))
        refine ⟨passed, hone, ?_⟩
        rw [hraised] at hbefore
        simpa [othersBefore, heq, hne, hfirst, hsecond] using hbefore

/-- Nothing is raised exactly when the chosen entries already stand at the end. -/
theorem raise_eq_self_iff : raise chosen entries = entries ↔ AtEnd chosen entries := by
  induction entries with
  | nil => simp [AtEnd]
  | cons first rest ih =>
    rw [AtEnd, pairwise_cons]
    rcases raise_cons_cases chosen first rest with
      ⟨hstay, hnext⟩ | ⟨second, more, hraised, hfirst, hsecond, hswap⟩
    · rw [hstay, cons.injEq, ih]
      constructor
      · rintro ⟨_, hrest⟩
        refine ⟨?_, hrest⟩
        intro entry hmem hfirst
        rw [ih.mpr hrest] at hnext
        cases rest with
        | nil => cases hmem
        | cons second more =>
          have hsecond := hnext hfirst second rfl
          rcases mem_cons.mp hmem with heq | hmore
          · exact heq ▸ hsecond
          · exact (pairwise_cons.mp hrest).1 entry hmore hsecond
      · rintro ⟨_, hrest⟩
        exact ⟨rfl, hrest⟩
    · constructor
      · intro hsame
        rw [hswap, cons.injEq] at hsame
        rw [hsame.1, hfirst] at hsecond
        cases hsecond
      · rintro ⟨hall, hrest⟩
        rw [ih.mpr hrest] at hraised
        have hmem : second ∈ rest := hraised ▸ mem_cons_self
        rw [hall second hmem hfirst] at hsecond
        cases hsecond

end Raise

section ToEnd

variable (chosen) (entries : List α)

theorem toEnd_keepsOrders : KeepsOrders chosen entries (toEnd chosen entries) := by
  refine ⟨?_, ?_⟩
  · simp [toEnd, filter_append, filter_filter]
  · simp [toEnd, filter_append, filter_filter]

theorem toEnd_map (f : β → α) (entries : List β) :
    toEnd chosen (entries.map f) = (toEnd (fun entry => chosen (f entry)) entries).map f := by
  rw [toEnd, toEnd, map_append, filter_map, filter_map]
  rfl

theorem toEnd_atEnd : AtEnd chosen (toEnd chosen entries) := by
  rw [AtEnd, toEnd, pairwise_append]
  refine ⟨?_, ?_, ?_⟩
  · refine pairwise_of_forall_mem_list fun before hbefore _ _ hchosen => ?_
    rw [mem_filter, hchosen] at hbefore
    cases hbefore.2
  · exact pairwise_of_forall_mem_list fun _ _ after hafter _ => (mem_filter.mp hafter).2
  · exact fun _ _ after hafter _ => (mem_filter.mp hafter).2

theorem toEnd_eq_self_iff : toEnd chosen entries = entries ↔ AtEnd chosen entries := by
  constructor
  · intro hsame
    exact hsame ▸ toEnd_atEnd chosen entries
  · intro hend
    induction entries with
    | nil => rfl
    | cons first rest ih =>
      obtain ⟨hfirst, hrest⟩ := pairwise_cons.mp hend
      cases hchosen : chosen first with
      | false =>
        rw [toEnd, filter_cons_of_pos (by simp [hchosen]), filter_cons_of_neg (by simp [hchosen])]
        exact congrArg _ (ih hrest)
      | true =>
        have hall : ∀ entry ∈ first :: rest, chosen entry = true := by
          intro entry hmem
          rcases mem_cons.mp hmem with heq | hmem
          · exact heq ▸ hchosen
          · exact hfirst entry hmem hchosen
        have hnone : (first :: rest).filter (!chosen ·) = [] := by
          rw [filter_eq_nil_iff]
          intro entry hmem
          simp [hall entry hmem]
        rw [toEnd, hnone, filter_eq_self.mpr hall, nil_append]

end ToEnd

variable (chosen) (entries : List α)

theorem toStart_reverse : toStart chosen entries = (toEnd chosen entries.reverse).reverse := by
  rw [toStart, toEnd, reverse_append, filter_reverse, filter_reverse,
    reverse_reverse, reverse_reverse]

theorem swapNext_append (front : List α) (first second : α) (rest : List α) :
    swapNext (front ++ first :: second :: rest) front.length =
      front ++ second :: first :: rest := by
  induction front with
  | nil => rfl
  | cons entry front ih => rw [cons_append, length_cons, swapNext, ih, cons_append]

theorem swapNext_append_left (entries more : List α) {index : Nat}
    (hindex : index + 1 < entries.length) :
    swapNext (entries ++ more) index = swapNext entries index ++ more := by
  induction entries generalizing index with
  | nil => simp at hindex
  | cons first rest ih =>
    cases index with
    | zero =>
      cases rest with
      | nil => simp at hindex
      | cons second rest => rfl
    | succ index =>
      have hrest : index + 1 < rest.length := by simpa using hindex
      simp [swapNext, ih hrest]

theorem length_swapNext (index : Nat) : (swapNext entries index).length = entries.length := by
  induction entries, index using swapNext.induct with
  | case1 first second rest => rfl
  | case2 first rest index ih => simp [swapNext, ih]
  | case3 entries index _ _ => simp_all [swapNext]

theorem length_lowerAt (index : Nat) : (lowerAt chosen entries index).length = entries.length := by
  rw [lowerAt]
  split
  · rw [length_swapNext]
  · rfl

/-- The steps below an end do not see what stands after it. -/
theorem foldl_lowerAt_append (entries more : List α) (indices : List Nat)
    (hindices : ∀ index ∈ indices, index < entries.length) :
    indices.foldl (lowerAt chosen) (entries ++ more) =
      indices.foldl (lowerAt chosen) entries ++ more := by
  induction indices generalizing entries with
  | nil => rfl
  | cons index indices ih =>
    obtain ⟨hindex, hrest⟩ := forall_mem_cons.mp hindices
    have hstep : lowerAt chosen (entries ++ more) index = lowerAt chosen entries index ++ more := by
      rw [lowerAt, lowerAt, getElem?_append_left hindex, getElem?_append_left (by omega)]
      split
      · have hpos : 0 < index := by simp_all
        exact swapNext_append_left entries more (by omega)
      · rfl
    rw [foldl_cons, foldl_cons, hstep, ih _ (by simpa [length_lowerAt] using hrest)]

theorem length_foldl_lowerAt (indices : List Nat) :
    (indices.foldl (lowerAt chosen) entries).length = entries.length := by
  induction indices generalizing entries with
  | nil => rfl
  | cons index indices ih => rw [foldl_cons, ih, length_lowerAt]

/-- A step at the last entry, seen from the other end. -/
theorem lowerAt_last (last : α) : lowerAt chosen (entries ++ [last]) entries.length =
      (raiseAt chosen (last :: entries.reverse) 0).reverse := by
  induction entries using reverseRecOn with
  | nil => simp [lowerAt, raiseAt_zero_singleton]
  | append_singleton entries before _ =>
    rw [reverse_append, reverse_singleton, singleton_append, raiseAt_zero]
    have hlast : (entries ++ [before] ++ [last])[(entries ++ [before]).length]? = some last := by
      simp
    have hbefore : (entries ++ [before] ++ [last])[(entries ++ [before]).length - 1]? =
        some before := by
      simp
    have hswap : swapNext (entries ++ [before] ++ [last]) ((entries ++ [before]).length - 1) =
        entries ++ [last, before] := by
      rw [append_assoc, length_append, length_singleton, Nat.add_sub_cancel]
      exact swapNext_append entries before last []
    rw [lowerAt, hlast, hbefore, hswap]
    cases hupper : chosen last <;> cases hlower : chosen before <;> simp [hupper, hlower]

theorem lower_reverse : lower chosen entries = (raise chosen entries.reverse).reverse := by
  induction entries using reverseRecOn with
  | nil => rfl
  | append_singleton entries last ih =>
    have hlength : (lower chosen entries).length = entries.length :=
      length_foldl_lowerAt chosen entries _
    have hfold : lower chosen (entries ++ [last]) =
        lowerAt chosen (lower chosen entries ++ [last]) (lower chosen entries).length := by
      rw [hlength, lower, length_append, length_singleton, range_succ,
        foldl_append, foldl_lowerAt_append chosen entries [last] _ (by simp)]
      rfl
    rw [hfold, lowerAt_last, reverse_append, reverse_singleton, singleton_append,
      raise_cons, ih, reverse_reverse]

theorem atEnd_reverse_iff : AtEnd chosen entries.reverse ↔ AtStart chosen entries := by
  rw [AtEnd, pairwise_reverse, AtStart]

theorem toStart_keepsOrders : KeepsOrders chosen entries (toStart chosen entries) := by
  have h := (toEnd_keepsOrders chosen entries.reverse).reverse
  rwa [reverse_reverse, ← toStart_reverse] at h

theorem lower_keepsOrders : KeepsOrders chosen entries (lower chosen entries) := by
  have h := (raise_keepsOrders chosen entries.reverse).reverse
  rwa [reverse_reverse, ← lower_reverse] at h

theorem toStart_map (f : β → α) (entries : List β) :
    toStart chosen (entries.map f) = (toStart (fun entry => chosen (f entry)) entries).map f := by
  rw [toStart_reverse, toStart_reverse, ← map_reverse, toEnd_map, map_reverse]

theorem lower_map (f : β → α) (entries : List β) :
    lower chosen (entries.map f) = (lower (fun entry => chosen (f entry)) entries).map f := by
  rw [lower_reverse, lower_reverse, ← map_reverse, raise_map, map_reverse]

theorem toStart_atStart : AtStart chosen (toStart chosen entries) := by
  rw [← atEnd_reverse_iff, toStart_reverse, reverse_reverse]
  exact toEnd_atEnd chosen entries.reverse

theorem toStart_eq_self_iff : toStart chosen entries = entries ↔ AtStart chosen entries := by
  rw [← atEnd_reverse_iff, ← toEnd_eq_self_iff, toStart_reverse, reverse_eq_iff]

theorem lower_eq_self_iff : lower chosen entries = entries ↔ AtStart chosen entries := by
  rw [← atEnd_reverse_iff, ← raise_eq_self_iff, lower_reverse, reverse_eq_iff]

/-- Seen from the end, a chosen entry comes to stand after at most one more of the
others. -/
theorem lower_passes [DecidableEq α] (entries : List α) {entry : α} (hchosen : chosen entry = true)
    (hmem : entry ∈ entries) :
    ∃ passed, passed.length ≤ 1 ∧ othersBefore chosen (lower chosen entries).reverse entry =
        othersBefore chosen entries.reverse entry ++ passed := by
  rw [lower_reverse, reverse_reverse]
  exact raise_passes chosen entries.reverse hchosen (mem_reverse.mpr hmem)

end Lifting

end OpenGpui
