/-
Walks around a ring.  A step that leads from each element of a list to the next one, and
from the last to the first, visits the elements in turn, finds the first one of a kind,
and is undone by the step around the reversed list.
-/
import Mathlib.Data.List.Rotate

namespace OpenGpui

open List Option

universe u

variable {α : Type u}

theorem head?_rotate_mod (ring : List α) (i : Nat) :
    (ring.rotate i).head? = ring[i % ring.length]? := by
  rcases Nat.eq_zero_or_pos ring.length with hnil | hpos
  · rw [length_eq_zero_iff] at hnil
    subst hnil
    rw [rotate_nil]
    rfl
  · rw [head?_eq_getElem?, getElem?_rotate hpos, Nat.zero_add]

/-- The step leads from each element to the next, and from the last to the first. -/
def GoesRound (ring : List α) (step : α → Option α) : Prop :=
  ∀ i, (h : i < ring.length) → step ring[i] = ring[(i + 1) % ring.length]?

/-- Where a number of steps leads. -/
def walk (step : α → Option α) (start : Option α) : Nat → Option α
  | 0 => start
  | count + 1 => (walk step start count).bind step

/-- The first element of a kind among the next ones. -/
def firstAlong (step : α → Option α) (p : α → Bool) : Nat → Option α → Option α
  | 0, _ => none
  | _ + 1, none => none
  | fuel + 1, some candidate =>
    if p candidate then some candidate else firstAlong step p fuel (step candidate)

namespace GoesRound

variable {ring : List α} {step : α → Option α} (h : GoesRound ring step)

include h

theorem bind_step (i : Nat) : ring[i % ring.length]?.bind step = ring[(i + 1) % ring.length]? := by
  rcases Nat.eq_zero_or_pos ring.length with hnil | hpos
  · rw [length_eq_zero_iff] at hnil
    subst hnil
    rfl
  · have hlt := Nat.mod_lt i hpos
    rw [getElem?_eq_getElem hlt, bind_some, h _ hlt, Nat.mod_add_mod]

theorem walk_eq (count : Nat) : walk step ring.head? count = ring[count % ring.length]? := by
  induction count with
  | zero => rw [walk, Nat.zero_mod, head?_eq_getElem?]
  | succ count ih => rw [walk, ih, h.bind_step]

theorem firstAlong_eq_none {p : α → Bool} (hnone : ∀ a ∈ ring, ¬p a = true) (fuel i : Nat) :
    firstAlong step p fuel ring[i % ring.length]? = none := by
  induction fuel generalizing i with
  | zero => rfl
  | succ fuel ih =>
    cases hget : ring[i % ring.length]? with
    | none => rfl
    | some candidate =>
      have hnext := h.bind_step i
      rw [hget, bind_some] at hnext
      rw [firstAlong, if_neg (hnone _ (mem_of_getElem? hget)), hnext, ih]

/-- With as many steps as the ring has elements all of them are tried in turn. -/
theorem firstAlong_eq (p : α → Bool) {fuel : Nat} (hfuel : ring.length ≤ fuel) (i : Nat) :
    firstAlong step p fuel ring[i % ring.length]? = (ring.rotate i).find? p := by
  have htake : ∀ count ≤ ring.length, ∀ i extra, firstAlong step p (count + extra) ring[i %
      ring.length]? = (((ring.rotate i).take count).find? p).or (firstAlong step p extra ring[(i +
      count) % ring.length]?) := by
    intro count hcount
    induction count with
    | zero =>
      intro i extra
      rw [Nat.zero_add]
      rfl
    | succ count ih =>
      intro i extra
      have hhead := head?_rotate_mod ring i
      obtain ⟨candidate, rest, hrotate⟩ :
          ∃ candidate rest, ring.rotate i = candidate :: rest := by
        apply exists_cons_of_ne_nil
        rw [← length_pos_iff, length_rotate]
        omega
      have hlength := congrArg length hrotate
      rw [length_rotate, length_cons] at hlength
      have hnext : ring.rotate (i + 1) = rest ++ [candidate] := by
        rw [← rotate_rotate, hrotate, rotate_cons_succ, rotate_zero]
      have hstep := h.bind_step i
      rw [hrotate, head?_cons] at hhead
      rw [← hhead, bind_some] at hstep
      rw [← hhead, show count + 1 + extra = count + extra + 1 by omega, firstAlong, hstep,
        ih (by omega), hnext, take_append_of_le_length (by omega), hrotate, take_succ_cons,
        find?_cons, show i + 1 + count = i + (count + 1) by omega]
      cases p candidate with
      | true => rfl
      | false => rfl
  obtain ⟨extra, rfl⟩ := Nat.exists_eq_add_of_le hfuel
  rw [htake _ le_rfl, take_of_length_le (length_rotate ring i).le]
  cases hfind : (ring.rotate i).find? p with
  | some found => rfl
  | none =>
    rw [find?_eq_none] at hfind
    rw [none_or]
    exact h.firstAlong_eq_none (fun a ha => hfind a (mem_rotate.mpr ha)) _ _

/-- The way around the reversed list undoes the way around the list. -/
theorem step_eq_some_iff {back : α → Option α}
    (hback : GoesRound ring.reverse back) (hnodup : ring.Nodup) {a b : α} (ha : a ∈ ring)
    (hb : b ∈ ring) : step a = some b ↔ back b = some a := by
  obtain ⟨i, hi, rfl⟩ := getElem_of_mem ha
  obtain ⟨j, hj, rfl⟩ := getElem_of_mem hb
  have hlast : ring.length - 1 - j < ring.reverse.length := by
    rw [length_reverse]
    omega
  have hpos : 0 < ring.length := by omega
  have hthere : ring.reverse[ring.length - 1 - j] = ring[j] := by
    rw [getElem_reverse]
    congr 1
    omega
  have hturn := hback _ hlast
  have hnext := Nat.mod_lt (i + 1) hpos
  have hprevious := Nat.mod_lt (ring.length - 1 - j + 1) hpos
  rw [hthere, length_reverse, getElem?_reverse hprevious] at hturn
  rw [h i hi, hturn, getElem?_eq_getElem hnext, getElem?_eq_getElem (by omega), some.injEq,
    some.injEq, hnodup.getElem_inj_iff, hnodup.getElem_inj_iff]
  rcases Nat.lt_or_ge (i + 1) ring.length with hi' | hi'
  · rw [Nat.mod_eq_of_lt hi']
    rcases Nat.eq_zero_or_pos j with rfl | hj'
    · rw [show ring.length - 1 - 0 + 1 = ring.length by omega, Nat.mod_self]
      omega
    · rw [Nat.mod_eq_of_lt (by omega)]
      omega
  · rw [show i + 1 = ring.length by omega, Nat.mod_self]
    rcases Nat.eq_zero_or_pos j with rfl | hj'
    · rw [show ring.length - 1 - 0 + 1 = ring.length by omega, Nat.mod_self]
      omega
    · rw [Nat.mod_eq_of_lt (by omega)]
      omega

end GoesRound

end OpenGpui
