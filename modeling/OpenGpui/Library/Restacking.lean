/-
Restacking.  A list of distinct keys grows at its end and loses keys anywhere.  When
its edits are taken back, last one first, by edits that also put keys at the end, the
keys that were never taken keep their order, and those that were come after them.
-/
import Mathlib.Data.List.Dedup
import OpenGpui.Library.IndexMapCarry

namespace OpenGpui

open List

universe u v

/-- An edit of a list of keys. -/
inductive OrderEdit (κ : Type u) where
  | put (key : κ)
  | take (gone : List κ)
  | keep

namespace OrderEdit

variable {κ : Type u} [DecidableEq κ] (keys : List κ)

def run : OrderEdit κ → List κ
  | put key => keys ++ [key]
  | take gone => keys.filter (· ∉ gone)
  | keep => keys

/-- Taking an edit back; a key that comes back is put at the end. -/
def back : OrderEdit κ → List κ
  | put key => keys.filter (· ∉ [key])
  | take gone => keys ++ gone
  | keep => keys

/-- A key is put where it is not, and what is taken is there. -/
def Fits : OrderEdit κ → Prop
  | put key => key ∉ keys
  | take gone => gone.Nodup ∧ ∀ key ∈ gone, key ∈ keys
  | keep => True

/-- The keys after some edits were taken back, the last one first. -/
def backAll (keys : List κ) : List (OrderEdit κ) → List κ
  | [] => keys
  | edit :: rest => edit.back (backAll (edit.run keys) rest)

/-- Each edit fits the keys it meets. -/
def FitAll (keys : List κ) : List (OrderEdit κ) → Prop
  | [] => True
  | edit :: rest => edit.Fits keys ∧ FitAll (edit.run keys) rest

/-- The blocks of keys that some edits take, in their order. -/
def takes : List (OrderEdit κ) → List (List κ)
  | [] => []
  | take gone :: rest => gone :: takes rest
  | _ :: rest => takes rest

end OrderEdit

section Restack

variable {κ : Type u} [DecidableEq κ] (keys : List κ) (blocks : List (List κ))

/-- The keys of a list that were taken, in the order in which they come back: the last
block first, and a key that was taken twice where it was taken first. -/
def comeBack : List κ := blocks.reverse.flatten.dedup.filter (· ∈ keys)

/-- The keys that were never taken, and after them those that come back. -/
def restack : List κ := keys.filter (· ∉ blocks.flatten) ++ comeBack keys blocks

theorem mem_comeBack_iff {keys : List κ} {blocks : List (List κ)} {key : κ} :
    key ∈ comeBack keys blocks ↔ key ∈ keys ∧ key ∈ blocks.flatten := by
  rw [comeBack, mem_filter, mem_dedup, mem_flatten, mem_flatten, decide_eq_true_iff, and_comm]
  simp only [mem_reverse]

@[simp] theorem restack_nil : restack keys [] = keys := by
  simp [restack, comeBack]

/-- Removing repetitions from the front of a list, block after block. -/
theorem dedup_append_block (front block : List κ) (hnodup : block.Nodup) :
    (front ++ block).dedup = front.dedup.filter (· ∉ block) ++ block := by
  induction front with
  | nil => simpa using hnodup.dedup
  | cons key rest ih =>
    by_cases hrest : key ∈ rest
    · rw [cons_append, dedup_cons_of_mem (mem_append_left _ hrest), ih, dedup_cons_of_mem hrest]
    · rw [dedup_cons_of_notMem hrest]
      by_cases hblock : key ∈ block
      · rw [cons_append, dedup_cons_of_mem (mem_append_right _ hblock), ih,
          filter_cons_of_neg (by simpa using hblock)]
      · have hnew : key ∉ rest ++ block := by
          rw [mem_append]
          exact not_or.mpr ⟨hrest, hblock⟩
        rw [cons_append, dedup_cons_of_notMem hnew, ih,
          filter_cons_of_pos (by simpa using hblock), cons_append]

/-- Keys come back in their old order exactly when they were the last ones. -/
theorem restack_eq_self_iff {keys : List κ} (hnodup : keys.Nodup) (blocks : List (List κ)) :
    restack keys blocks = keys ↔ comeBack keys blocks <:+ keys := by
  constructor
  · intro hsame
    exact ⟨_, hsame⟩
  · rintro ⟨front, hfront⟩
    have hdisjoint := (nodup_append.mp (hfront ▸ hnodup)).2.2
    have hkept : keys.filter (· ∉ blocks.flatten) = front := by
      have hfrontKept : front.filter (· ∉ blocks.flatten) = front := by
        rw [filter_eq_self]
        intro key hmem
        rw [decide_eq_true_iff]
        intro htaken
        have hkeys : key ∈ keys := hfront ▸ mem_append_left _ hmem
        exact hdisjoint key hmem key (mem_comeBack_iff.mpr ⟨hkeys, htaken⟩) rfl
      have hbackGone : (comeBack keys blocks).filter (· ∉ blocks.flatten) = [] := by
        rw [filter_eq_nil_iff]
        intro key hmem hkept
        exact of_decide_eq_true hkept (mem_comeBack_iff.mp hmem).2
      conv_lhs => rw [← hfront]
      rw [filter_append, hfrontKept, hbackGone, append_nil]
    rw [restack, hkept, hfront]

end Restack

namespace OrderEdit

variable {κ : Type u} [DecidableEq κ] {keys : List κ}

theorem back_put_restack {key : κ} (hfits : key ∉ keys) (blocks : List (List κ)) :
    (put key).back (restack (keys ++ [key]) blocks) = restack keys blocks := by
  have hkept : (keys ++ [key]).filter (fun other => other ∉ blocks.flatten ∧ other ∉ [key]) =
      keys.filter (· ∉ blocks.flatten) := by
    rw [filter_append, filter_cons_of_neg (by simp), filter_nil, append_nil]
    refine filter_congr fun other hmem => ?_
    have hother : other ∉ [key] := by
      rw [mem_singleton]
      exact fun heq => hfits (heq ▸ hmem)
    simp [hother]
  have hback : (comeBack (keys ++ [key]) blocks).filter (· ∉ [key]) = comeBack keys blocks := by
    rw [comeBack, filter_filter]
    refine filter_congr fun other _ => ?_
    by_cases heq : other = key
    · simp [heq, hfits]
    · simp [heq]
  rw [back, restack, filter_append, filter_filter, restack, ← hkept]
  congr 1
  refine filter_congr fun other _ => ?_
  simp [Bool.and_comm]

theorem back_take_restack {gone : List κ} (hnodup : gone.Nodup) (hfits : ∀ key ∈ gone, key ∈ keys)
    (blocks : List (List κ)) :
    (take gone).back (restack (keys.filter (· ∉ gone)) blocks) = restack keys (gone :: blocks) := by
  have hkept : (keys.filter (· ∉ gone)).filter (· ∉ blocks.flatten) =
      keys.filter (· ∉ (gone :: blocks).flatten) := by
    rw [filter_filter]
    refine filter_congr fun other _ => ?_
    rw [flatten_cons, ← Bool.decide_and, decide_eq_decide, mem_append]
    tauto
  have hback : comeBack keys (gone :: blocks) =
      comeBack (keys.filter (· ∉ gone)) blocks ++ gone := by
    have hgone : gone.filter (· ∈ keys) = gone := by
      rw [filter_eq_self]
      intro key hmem
      exact decide_eq_true (hfits key hmem)
    rw [comeBack, reverse_cons, flatten_append, flatten_cons, flatten_nil,
      append_nil, dedup_append_block _ _ hnodup, filter_append, filter_filter]
    congr 1
    refine filter_congr fun other _ => ?_
    simp [mem_filter]
  rw [back, restack, hkept, restack, hback, append_assoc]

/-- Edits that fit are taken back to the keys never taken, followed by the others. -/
theorem backAll_eq_restack (edits : List (OrderEdit κ)) (hfits : FitAll keys edits) :
    backAll keys edits = restack keys (takes edits) := by
  induction edits generalizing keys with
  | nil => exact (restack_nil keys).symm
  | cons edit rest ih =>
    rw [backAll, ih hfits.2]
    cases edit with
    | put key => exact back_put_restack hfits.1 (takes rest)
    | take gone => exact back_take_restack hfits.1.1 hfits.1.2 (takes rest)
    | keep => rfl

end OrderEdit

namespace IndexMap

variable {κ : Type u} {ν : Type v} [DecidableEq κ] {m : IndexMap κ ν}

theorem keys_insert_of_absent {key : κ} {value : ν} (habsent : m.get key = none) :
    (m.insert key value).keys = m.keys ++ [key] := by
  have hnew : key ∉ m.entries.map Prod.fst := (lookup_eq_none_iff key m.entries).mp habsent
  exact (congrArg (List.map Prod.fst) (upsert_of_not_mem hnew)).trans map_append

theorem keys_insert_of_stored {key : κ} {old value : ν} (hstored : m.get key = some old) :
    (m.insert key value).keys = m.keys := by
  have hupsert : ∀ entries : List (κ × ν), key ∈ entries.map Prod.fst →
      (upsert key value entries).map Prod.fst = entries.map Prod.fst := by
    intro entries hmem
    induction entries with
    | nil => cases hmem
    | cons entry rest ih =>
      by_cases hentry : entry.1 = key
      · rw [upsert, if_pos hentry, map_cons, map_cons, hentry]
      · rw [map_cons, mem_cons] at hmem
        rw [upsert, if_neg hentry, map_cons, ih (hmem.resolve_left (Ne.symm hentry)), map_cons]
  exact hupsert m.entries (mem_keys_iff.mpr (containsKey_iff.mpr ⟨old, hstored⟩))

/-- Keeping the entries of which a list does not have the key. -/
theorem keys_retain_of_iff {keep : κ → ν → Bool} {gone : List κ}
    (hkeep : ∀ key value, m.get key = some value → (keep key value = true ↔ key ∉ gone)) :
    (m.retain keep).keys = m.keys.filter (· ∉ gone) := by
  rw [keys, keys, filter_map]
  congr 1
  refine filter_congr fun entry hmem => ?_
  rw [Bool.eq_iff_iff, hkeep entry.1 entry.2 (get_eq_some_iff.mpr hmem)]
  exact (decide_eq_true_iff).symm

theorem keys_erase (m : IndexMap κ ν) (key : κ) : (m.erase key).keys = m.keys.filter (· ∉ [key]) :=
  keys_retain_of_iff fun other _ _ => by simp

end IndexMap

end OpenGpui
