/-
Trees of items with keys: insertion in a key's place, and batches of edits that are merged
into the tree.
-/
import OpenGpui.Library.Comparisons
import OpenGpui.Library.OrderedEntries
import OpenGpui.SumTree.CursorParts
import Mathlib.Data.List.Perm.Basic
import Mathlib.Data.Set.List

namespace OpenGpui.SumTrees

open List Option Dimension

universe u v w

open SumTree

class KeyedItem (T : Type u) (S : outParam (Type v)) (Key : outParam (Type w)) extends
    Item T S where
  key : T → Key

inductive Edit (T : Type u) (Key : Type w) where
  | insert (item : T)
  | remove (key : Key)

section Operations

variable {T : Type u} {S : Type v} {Key : Type w}

def Edit.key [KeyedItem T S Key] : Edit T Key → Key
  | insert item => KeyedItem.key item
  | remove key => key

/-- What a batch of edits works on; the removed items are returned at the end. -/
structure Editing (T : Type u) (S : Type v) (Key : Type w) where
  cursor : Cursor T S Key
  newTree : SumTree T S
  bufferedItems : List T
  removed : List T

variable [LinearOrder Key] [Summary S] [KeyedItem T S Key] [Dimension Key S]

namespace SumTree

def insertOrReplace (self : SumTree T S) (item : T) : Option (Option T × SumTree T S) :=
  ((Cursor.new self : Cursor T S Key).slice (compare (KeyedItem.key item)) .left).bind
    fun sliced => sliced.1.item.bind fun cursorItem =>
      let replaced := cursorItem.filter fun old =>
        decide (KeyedItem.key old = KeyedItem.key item)
      (if replaced.isSome then sliced.1.next else some sliced.1).bind fun cursor =>
        (sliced.2.push item).bind fun newTree => cursor.suffix.bind fun suffix =>
          (newTree.append suffix.2).map fun newTree => (replaced, newTree)

/-- The old items with smaller keys, which the edits before come in front of. -/
def editSlice (newKey : Key) (state : Editing T S Key) : Option (Editing T S Key) :=
  state.cursor.item.bind fun oldItem =>
    if oldItem.any fun old => decide (KeyedItem.key old < newKey) then
      (state.newTree.extend state.bufferedItems).bind fun newTree =>
        (state.cursor.slice (compare newKey) .left).bind fun sliced =>
          (newTree.append sliced.2).map fun newTree => ⟨sliced.1, newTree, [], state.removed⟩
    else some state

def editStep (edit : Edit T Key) (state : Editing T S Key) : Option (Editing T S Key) :=
  (editSlice edit.key state).bind fun state => state.cursor.item.bind fun oldItem =>
    let replaced := oldItem.filter fun old => decide (KeyedItem.key old = edit.key)
    (if replaced.isSome then state.cursor.next else some state.cursor).map fun cursor =>
      let bufferedItems :=
        match edit with
        | .insert item => state.bufferedItems ++ [item]
        | .remove _ => state.bufferedItems
      ⟨cursor, state.newTree, bufferedItems, state.removed ++ replaced.toList⟩

def editAll : List (Edit T Key) → Editing T S Key → Option (Editing T S Key)
  | [], state => some state
  | edit :: edits, state => (editStep edit state).bind (editAll edits)

def edit (sort : SliceSort (Edit T Key)) (self : SumTree T S) (edits : List (Edit T Key)) :
    Option (List T × SumTree T S) :=
  if edits.isEmpty then some ([], self)
  else
    let edits := sort.sortBy (fun left right => cmp left.key right.key) edits
    ((Cursor.new self : Cursor T S Key).seek (compare (zero S)) .left).bind fun sought =>
      (editAll edits ⟨sought.1, .new, [], []⟩).bind fun state =>
        (state.newTree.extend state.bufferedItems).bind fun newTree =>
          state.cursor.suffix.bind fun suffix =>
            (newTree.append suffix.2).map fun newTree => (state.removed, newTree)

end SumTree

end Operations

section Sorted

variable {T : Type u} {S : Type v} {Key : Type w} [LinearOrder Key] [KeyedItem T S Key]

/-- Sorted insertions with different keys have increasing keys, however the sort treats ties. -/
theorem sorted_inserts (sort : SliceSort (Edit T Key)) {items : List T}
    (hdistinct : (items.map KeyedItem.key).Nodup) :
    ∃ news, sort.sortBy (fun left right => cmp left.key right.key) (items.map Edit.insert) =
        news.map Edit.insert ∧
      news.Perm items ∧ Increasing KeyedItem.key news := by
  have hperm := sort.perm (fun left right => cmp left.key right.key) (items.map Edit.insert)
  have horder := sort.sorted (fun left right => cmp left.key right.key) (items.map Edit.insert)
    ((TotalPreorderOn.of_linearOrder Set.univ).comap Edit.key fun _ _ => Set.mem_univ _)
  generalize sort.sortBy (fun left right => cmp left.key right.key) (items.map Edit.insert) =
    edits at hperm horder
  have hrange : edits ∈ Set.range (List.map (Edit.insert : T → Edit T Key)) := by
    rw [Set.range_list_map]
    intro edit hedit
    obtain ⟨item, _, rfl⟩ := mem_map.mp (hperm.subset hedit)
    exact ⟨item, rfl⟩
  obtain ⟨news, rfl⟩ := hrange
  have hnews : news.Perm items := (map_perm_map_iff fun _ _ => Edit.insert.inj).mp hperm
  have hne : (news.map KeyedItem.key).Nodup := (hnews.map KeyedItem.key).nodup_iff.mpr hdistinct
  refine ⟨news, rfl, hnews, ?_⟩
  refine ((pairwise_map.mp horder).and (pairwise_map.mp hne)).imp ?_
  rintro earlier later ⟨hle, hdiffer⟩
  exact lt_of_le_of_ne (not_lt.mp fun hlt => hle ((cmp_eq_gt_iff _ _).mpr hlt)) hdiffer

end Sorted

variable {T : Type u} {S : Type v} {Key : Type w}
variable [LinearOrder Key] [Summary S] [KeyedItem T S Key] [Dimension Key S]

/-- The position behind an item is its key, and zero is below every key. -/
structure LastKey (T : Type u) (S : Type v) (Key : Type w) [LinearOrder Key] [Summary S]
    [KeyedItem T S Key] [Dimension Key S] : Prop where
  last : ∀ (position : Key) (item : T), addSummary position (Item.summary item) = KeyedItem.key item
  zero_lt : ∀ item : T, zero S < KeyedItem.key item

/-- A target that is not found again behind a key it lies before. -/
def Aligned (target : SeekTarget Key) : Prop :=
  ∀ small large, small ≤ large →
    (target small = .lt → target large = .lt) ∧ (target large = .gt → target small = .gt)

theorem aligned_compare (key : Key) : Aligned (compare key) := by
  intro small large hle
  constructor
  · intro hlt
    exact compare_lt_iff_lt.mpr (lt_of_lt_of_le (compare_lt_iff_lt.mp hlt) hle)
  · intro hgt
    exact compare_gt_iff_gt.mpr (lt_of_le_of_lt hle (compare_gt_iff_gt.mp hgt))

theorem forward_compare {key position : Key} (h : position ≤ key) : compare key position ≠ .lt :=
  fun hlt => absurd (compare_lt_iff_lt.mp hlt) (not_lt.mpr h)

theorem isPast_compare (key other : Key) :
    isPast (compare key) .left other = decide (other < key) := by
  rw [Bool.eq_iff_iff, isPast_iff, decide_eq_true_iff]
  constructor
  · rintro (hgt | ⟨_, hbias⟩)
    · exact compare_gt_iff_gt.mp hgt
    · exact absurd hbias (by decide)
  · exact fun hlt => Or.inl (compare_gt_iff_gt.mpr hlt)

namespace LastKey

variable (hkeys : LastKey T S Key) {items front : List T}

include hkeys

theorem positionOf_append (front : List T) (item : T) :
    positionOf Key (front ++ [item]) = KeyedItem.key item := by
  rw [positionOf_append_singleton, hkeys.last]

theorem positionOf_lt {key : Key} (hzero : zero S < key)
    (hfront : ∀ item ∈ front, KeyedItem.key item < key) : positionOf Key front < key := by
  rcases eq_nil_or_concat front with rfl | ⟨front, last, rfl⟩
  · exact hzero
  · rw [concat_eq_append] at hfront ⊢
    rw [hkeys.positionOf_append]
    exact hfront last (by simp)

theorem skipped_eq (target : SeekTarget Key) (bias : Bias) (position : Key) :
    skipped target bias position items =
      items.takeWhile fun item => isPast target bias (KeyedItem.key item) := by
  induction items generalizing position with
  | nil => rfl
  | cons item items ih =>
    rw [skipped]
    simp only [hkeys.last, ih]
    cases hpast : isPast target bias (KeyedItem.key item) with
    | true | false => simp [hpast]

theorem positionOf_le (hitems : Increasing KeyedItem.key items) {middle back : List T}
    (hsplit : items = front ++ middle ++ back) :
    positionOf Key front ≤ positionOf Key (front ++ middle) := by
  rcases eq_nil_or_concat middle with rfl | ⟨middle, last, rfl⟩
  · rw [append_nil]
  · rw [concat_eq_append] at hsplit ⊢
    rw [← append_assoc, hkeys.positionOf_append]
    refine le_of_lt (hkeys.positionOf_lt (hkeys.zero_lt last) fun item hitem => ?_)
    rw [hsplit, append_assoc front] at hitems
    exact (pairwise_append.mp hitems).2.2 item hitem last (by simp)

theorem descending {target : SeekTarget Key} (htarget : Aligned target)
    (hitems : Increasing KeyedItem.key items) : Descending target items := by
  intro front middle back hsplit
  exact htarget _ _ (hkeys.positionOf_le hitems hsplit)

theorem skipped_compare (hitems : Increasing KeyedItem.key items) (key position : Key) :
    skipped (compare key) .left position items =
      items.filter fun item => decide (KeyedItem.key item < key) := by
  rw [hkeys.skipped_eq]
  simp only [isPast_compare]
  refine hitems.takeWhile_eq_filter fun one two hless hpass => ?_
  exact decide_eq_true (hless.trans (of_decide_eq_true hpass))

end LastKey

/-- The state of a batch: what was built and buffered, and what of the old items is left. -/
structure Editing.Holds (tree : SumTree T S) (state : Editing T S Key) (done front rest : List T) :
    Prop where
  parts : state.cursor.Parts tree front rest
  valid : Valid state.newTree
  done : state.newTree.toList ++ state.bufferedItems = done

theorem Editing.Holds.increasing {tree : SumTree T S} {state : Editing T S Key}
    {done front rest : List T} (h : state.Holds tree done front rest)
    (hitems : Increasing KeyedItem.key tree.toList) : Increasing KeyedItem.key rest := by
  rw [h.parts.items] at hitems
  exact (pairwise_append.mp hitems).2.1

variable (hkeys : LastKey T S Key) {self : SumTree T S} (hself : Valid self)
  (hitems : Increasing KeyedItem.key self.toList)

include hkeys hself hitems

theorem insertOrReplace_spec (item : T) :
    ∃ tree, self.insertOrReplace item =
        some (self.toList.find? fun old => decide (KeyedItem.key old = KeyedItem.key item), tree) ∧
      Valid tree ∧ tree.toList = overwrite KeyedItem.key [item] self.toList := by
  have hsplit := hitems.split_at (KeyedItem.key item)
  obtain ⟨sliced, left, hslice, hleft, hleftItems, hparts⟩ :=
    Cursor.new_slice hself (hkeys.descending (aligned_compare (KeyedItem.key item)) hitems)
      (forward_compare (hkeys.zero_lt item).le)
      (hkeys.skipped_compare hitems _ _) hsplit
  obtain ⟨cursor, hpass, hpassed⟩ := hparts.pass hself
  obtain ⟨pushed, hpush, hpushed, hpushedItems⟩ := push_spec hleft item
  obtain ⟨last, right, hsuffix, hright, hrightItems⟩ := hpassed.suffix hself
  obtain ⟨tree, happend, htree, htreeItems⟩ := append_spec hpushed hright
  refine ⟨tree, ?_, htree, ?_⟩
  · rw [insertOrReplace]
    simp only [hslice, bind_some, hparts.item_eq, head_filter_eq_find, hpass, hpush,
      hsuffix, happend, map_some]
  · rw [htreeItems, hpushedItems, hrightItems, hleftItems, append_assoc]
    rfl

variable {state : Editing T S Key} {done front rest : List T}

theorem editSlice_spec {newKey : Key}
    (h : state.Holds self done front rest) (hzero : zero S < newKey)
    (hfront : ∀ item ∈ front, KeyedItem.key item < newKey) :
    ∃ state', editSlice newKey state = some state' ∧ state'.removed = state.removed ∧
      state'.Holds self (done ++ rest.filter fun old => decide (KeyedItem.key old < newKey))
        (front ++ rest.filter fun old => decide (KeyedItem.key old < newKey))
        ((rest.find? fun old => decide (KeyedItem.key old = newKey)).toList ++
          rest.filter fun old => decide (newKey < KeyedItem.key old)) := by
  have hrest := h.increasing hitems
  have hsplit := hrest.split_at newKey
  rw [editSlice, h.parts.item_eq, bind_some]
  cases hany : rest.head?.any fun old => decide (KeyedItem.key old < newKey) with
  | true =>
    obtain ⟨extended, hextend, hextended, hextendedItems⟩ := extend_spec h.valid state.bufferedItems
    obtain ⟨sliced, slice, hslice, hvalid, hsliceItems, hparts⟩ :=
      h.parts.slice hself (hkeys.descending (aligned_compare newKey) hitems)
        (forward_compare (hkeys.positionOf_lt hzero hfront).le)
        (hkeys.skipped_compare hrest _ _) hsplit
    obtain ⟨newTree, happend, hnewTree, hnewItems⟩ := append_spec hextended hvalid
    refine ⟨⟨sliced, newTree, [], state.removed⟩, ?_, rfl, hparts, hnewTree, ?_⟩
    · rw [hextend, bind_some, hslice, bind_some, happend]
      rfl
    · rw [append_nil, hnewItems, hextendedItems, hsliceItems, h.done]
  | false =>
    -- nothing to slice: no smaller key is left
    have hnone : rest.filter (fun old => decide (KeyedItem.key old < newKey)) = [] := by
      cases rest with
      | nil => rfl
      | cons old rest =>
        have hhead := (pairwise_cons.mp hrest).1
        have hold : ¬KeyedItem.key old < newKey := by simpa using hany
        refine filter_eq_nil_iff.mpr fun other hother hless => hold ?_
        rcases mem_cons.mp hother with rfl | hother
        · exact of_decide_eq_true hless
        · exact (hhead other hother).trans (of_decide_eq_true hless)
    have hparts := h.parts
    rw [hsplit, hnone] at hparts
    rw [hnone, append_nil, append_nil]
    exact ⟨state, rfl, rfl, hparts, h.valid, h.done⟩

theorem editStep_insert {item : T} (h : state.Holds self done front rest)
    (hfront : ∀ old ∈ front, KeyedItem.key old < KeyedItem.key item) :
    ∃ state' front', editStep (.insert item) state = some state' ∧ state'.Holds self
        (done ++ (rest.filter fun old => decide (KeyedItem.key old < KeyedItem.key item)) ++ [item])
        front' (rest.filter fun old => decide (KeyedItem.key item < KeyedItem.key old)) ∧
      ∀ old ∈ front', KeyedItem.key old ≤ KeyedItem.key item := by
  obtain ⟨sliced, hslice, _, hsliced⟩ :=
    editSlice_spec hkeys hself hitems h (hkeys.zero_lt item) hfront
  obtain ⟨cursor, hpass, hpassed⟩ := hsliced.parts.pass hself
  refine ⟨⟨cursor, sliced.newTree, sliced.bufferedItems ++ [item], sliced.removed ++
    (rest.find? fun old => decide (KeyedItem.key old = KeyedItem.key item)).toList⟩, _, ?_,
    ⟨hpassed, hsliced.valid, ?_⟩, ?_⟩
  · rw [editStep, Edit.key, hslice, bind_some, hsliced.parts.item_eq, bind_some]
    simp only [head_filter_eq_find, hpass, map_some]
  · rw [← hsliced.done, append_assoc]
  · intro old hold
    rcases mem_append.mp hold with hold | hold
    · rcases mem_append.mp hold with hold | hold
      · exact (hfront old hold).le
      · exact (of_decide_eq_true (mem_filter.mp hold).2).le
    · have hkey := find?_some (mem_toList.mp hold)
      exact (of_decide_eq_true hkey).le

theorem editAll_spec {news : List T} (hnews : Increasing KeyedItem.key news) (h :
    state.Holds self done front rest)
    (hfront : ∀ old ∈ front, ∀ item ∈ news, KeyedItem.key old < KeyedItem.key item) :
    ∃ state' done' front' rest', editAll (news.map Edit.insert) state = some state' ∧
      state'.Holds self done' front' rest' ∧
      done' ++ rest' = done ++ overwrite KeyedItem.key news rest := by
  induction news generalizing state done front rest with
  | nil => exact ⟨state, done, front, rest, rfl, h, rfl⟩
  | cons item news ih =>
    obtain ⟨hhead, hnews⟩ := pairwise_cons.mp hnews
    obtain ⟨next, front', hstep, hnext, hless⟩ := editStep_insert hkeys hself hitems h
      fun old hold => hfront old hold item mem_cons_self
    obtain ⟨last, done', front'', rest', hrun, hlast, heq⟩ := ih hnews hnext
      fun old hold other hother => (hless old hold).trans_lt (hhead other hother)
    refine ⟨last, done', front'', rest', ?_, hlast, ?_⟩
    · rw [map_cons, editAll, hstep]
      exact hrun
    · rw [heq, overwrite]
      simp only [append_assoc, singleton_append]

/-- A batch of insertions with different keys is laid over the old items. -/
theorem edit_spec (sort : SliceSort (Edit T Key)) (items : List T)
    (hdistinct : (items.map KeyedItem.key).Nodup) :
    ∃ removed tree news, self.edit sort (items.map Edit.insert) = some (removed, tree) ∧
      Valid tree ∧ news.Perm items ∧ Increasing KeyedItem.key news ∧
      tree.toList = overwrite KeyedItem.key news self.toList := by
  rw [edit]
  cases hempty : items.isEmpty with
  | true =>
    obtain rfl := isEmpty_iff.mp hempty
    exact ⟨[], self, [], rfl, hself, .refl _, List.Pairwise.nil, rfl⟩
  | false =>
    obtain ⟨news, hnews, hperm, hincreasing⟩ := sorted_inserts sort hdistinct
    have hskip := hkeys.skipped_compare hitems (zero S) (zero S)
    have hnone : self.toList.filter
        (fun old => decide (KeyedItem.key old < (zero S : Key))) = [] := by
      refine filter_eq_nil_iff.mpr fun old _ hless => ?_
      exact (hkeys.zero_lt old).not_gt (of_decide_eq_true hless)
    obtain ⟨sought, found, hseek, hparts⟩ := @Cursor.seek_parts T S Key _ _ _ self (.new self) []
      self.toList _ .left hself rfl (hkeys.descending (aligned_compare (zero S)) hitems)
      (forward_compare le_rfl) (hskip.trans hnone) rfl
    have hstart : (⟨sought, .new, [], []⟩ : Editing T S Key).Holds self [] [] self.toList :=
      ⟨hparts, valid_new, rfl⟩
    obtain ⟨state, done, front, rest, hrun, hstate, hdone⟩ := editAll_spec hkeys hself hitems
      hincreasing hstart fun old hold => absurd hold not_mem_nil
    obtain ⟨extended, hextend, hextended, hextendedItems⟩ :=
      extend_spec hstate.valid state.bufferedItems
    obtain ⟨last, right, hsuffix, hright, hrightItems⟩ := hstate.parts.suffix hself
    obtain ⟨tree, happend, htree, htreeItems⟩ := append_spec hextended hright
    refine ⟨state.removed, tree, news, ?_, htree, hperm, hincreasing, ?_⟩
    · rw [if_neg (by simpa using hempty), hnews]
      simp only [hseek, bind_some, hrun, hextend, hsuffix, happend, map_some]
    · rw [htreeItems, hextendedItems, hstate.done, hrightItems, hdone]
      rfl

end OpenGpui.SumTrees
