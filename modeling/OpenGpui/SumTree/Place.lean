/-
Places in a list of items for a cursor to stand at, and what a cursor that stands at a
place answers.
-/
import OpenGpui.SumTree.Seek
import Mathlib.Data.List.Basic

namespace OpenGpui.SumTrees

open List Option

universe u v w x

open SumTree

/-- A cursor that was not moved yet has no item; otherwise it stands at an item of the list, or
before the first or after the last one. -/
inductive Place where
  | unmoved
  | beforeFirst
  | item (index : Nat)
  | afterLast
deriving DecidableEq

namespace Place

variable {T : Type u}

/-- The number of items before the place. -/
def index (items : List T) : Place → Nat
  | unmoved => 0
  | beforeFirst => 0
  | item index => index
  | afterLast => items.length

variable (items : List T)

/-- The place in front of which there are so many items. -/
def ofIndex (index : Nat) : Place := if index < items.length then .item index else .afterLast

def itemAt : Place → Option T
  | item index => items[index]?
  | _ => none

def prevItem : Place → Option T
  | item index => if index = 0 then none else items[index - 1]?
  | afterLast => items.getLast?
  | _ => none

def nextItem : Place → Option T
  | item index => items[index + 1]?
  | beforeFirst => items.head?
  | _ => none

end Place

section Ends

variable {T : Type u} {S : Type v}

theorem rightmostLeafOfLast_append (front : List (SumTree T S)) (child : SumTree T S) :
    rightmostLeafOfLast (front ++ [child]) = child.rightmostLeaf := by
  induction front with
  | nil => rw [nil_append, rightmostLeafOfLast]
  | cons first front ih =>
    cases front with
    | nil => rw [cons_append, nil_append, rightmostLeafOfLast, rightmostLeafOfLast]
    | cons second front =>
      exact ih

variable [Summary S] [Item T S] {tree : SumTree T S} {height : Nat}

theorem leftmostLeaf_spec (htree : Shaped height tree) : ∃ summary items itemSummaries,
      tree.leftmostLeaf = some (.leaf summary items itemSummaries) ∧ items ≠ [] ∧
        items.head? = tree.toList.head? := by
  induction htree with
  | leaf filled => exact ⟨_, _, _, by rw [leftmostLeaf], filled, by rw [toList_leaf]⟩
  | internal filled fits children summaries total ih =>
    obtain ⟨child, rest, rfl⟩ := exists_cons_of_ne_nil filled
    obtain ⟨summary, items, itemSummaries, hleaf, hne, hhead⟩ := ih child mem_cons_self
    refine ⟨summary, items, itemSummaries, by rw [leftmostLeaf, hleaf], hne, ?_⟩
    obtain ⟨item, items, hitems⟩ :=
      exists_cons_of_ne_nil (children child mem_cons_self).toList_ne_nil
    rw [hhead, toList_internal, flatMap_cons, hitems]
    rfl

theorem rightmostLeaf_spec (htree : Shaped height tree) : ∃ summary items itemSummaries,
      tree.rightmostLeaf = some (.leaf summary items itemSummaries) ∧ items ≠ [] ∧
        items.getLast? = tree.toList.getLast? := by
  induction htree with
  | leaf filled => exact ⟨_, _, _, by rw [rightmostLeaf], filled, by rw [toList_leaf]⟩
  | @internal _ _ _ childTrees filled fits children summaries total ih =>
    obtain ⟨front, last, rfl⟩ : ∃ front last, childTrees = front ++ [last] :=
      ⟨_, _, (dropLast_concat_getLast filled).symm⟩
    obtain ⟨summary, items, itemSummaries, hleaf, hne, hlast⟩ := ih last (by simp)
    refine ⟨summary, items, itemSummaries, ?_, hne, ?_⟩
    · rw [rightmostLeaf, rightmostLeafOfLast_append, hleaf]
    · rw [hlast, toList_internal, flatMap_append, flatMap_singleton, getLast?_append_of_ne_nil]
      exact (children last (by simp)).toList_ne_nil

theorem first_spec (htree : Valid tree) : tree.first = some tree.toList.head? := by
  rcases htree with rfl | htree
  · rfl
  · obtain ⟨summary, items, itemSummaries, hleaf, _, hhead⟩ := leftmostLeaf_spec htree
    rw [first, hleaf, ← hhead]
    rfl

theorem last_spec (htree : Valid tree) : tree.last = some tree.toList.getLast? := by
  rcases htree with rfl | htree
  · rfl
  · obtain ⟨summary, items, itemSummaries, hleaf, _, hlast⟩ := rightmostLeaf_spec htree
    rw [last, hleaf, ← hlast]
    rfl

end Ends

variable {T : Type u} {S : Type v} {D : Type w} [Summary S] [Item T S] [Dimension D S]

/-- The cursor stands at the place in the items of the tree. -/
inductive Cursor.Standing (tree : SumTree T S) : Cursor T S D → Place → Prop
  | unmoved : Standing tree (.new tree) .unmoved
  | beforeFirst (more : tree.isEmpty = false) :
      Standing tree ⟨tree, [], Dimension.zero S, true, false⟩ .beforeFirst
  | item {stack : List (StackEntry T S D)} {front back : List T} {item : T}
      (stands : Stands tree [] [] stack front item back) :
      Standing tree ⟨tree, stack, positionOf D front, true, false⟩ (.item front.length)
  | afterLast : Standing tree ⟨tree, [], positionOf D tree.toList, true, true⟩ .afterLast

namespace Cursor

variable {tree : SumTree T S} {cursor : Cursor T S D} {place : Place}

section

variable (h : cursor.Standing tree place)

include h

theorem Standing.tree_eq : cursor.tree = tree := by
  cases h <;> rfl

/-- The start of the cursor is the sum of the items before it. -/
theorem Standing.position_eq :
    cursor.position = positionOf D (tree.toList.take (place.index tree.toList)) := by
  cases h with
  | unmoved => rfl
  | beforeFirst => rfl
  | item stands =>
    have hitems := stands.items_eq
    rw [hitems, Place.index, take_left]
  | afterLast => rw [Place.index, take_length]

theorem Standing.didSeek_eq (hmoved : place ≠ .unmoved) : cursor.didSeek = true := by
  cases h with
  | unmoved => exact absurd rfl hmoved
  | beforeFirst => rfl
  | item => rfl
  | afterLast => rfl

end

theorem entryAt_of_split {α : Type u} (left right : List α) (entry : α) :
    entryAt (left ++ entry :: right) left.length = some (some entry) := by
  rw [entryAt]
  simp

theorem Standing.item_eq (h : cursor.Standing tree place) (hmoved : place ≠ .unmoved) :
    cursor.item = some (place.itemAt tree.toList) := by
  cases h with
  | unmoved => exact absurd rfl hmoved
  | beforeFirst => rfl
  | item stands =>
    have hitems := stands.items_eq
    rw [hitems]
    cases stands with
    | leaf path =>
      rw [Cursor.item, Place.itemAt]
      simp only [Bool.not_true, Bool.false_eq_true, if_false, leafItems, bind_some,
        entryAt_of_split]
      simp
  | afterLast => rfl

theorem Standing.itemSummary_eq (htree : Valid tree) (h : cursor.Standing tree place)
    (hmoved : place ≠ .unmoved) :
    cursor.itemSummary = some ((place.itemAt tree.toList).map Item.summary) := by
  cases h with
  | unmoved => exact absurd rfl hmoved
  | beforeFirst => rfl
  | @item stack front back here stands =>
    have hitems := stands.items_eq
    have hshaped := htree.shaped_of_items hitems
    rw [hitems]
    cases stands with
    | @leaf _ _ itemSummaries left right _ _ _ _ path =>
      obtain ⟨level, hleaf⟩ := path.shaped hshaped
      cases hleaf with
      | leaf filled fits summaries total =>
        have hsplit : itemSummaries =
            left.map Item.summary ++ Item.summary here :: right.map Item.summary := by
          rw [summaries, map_append, map_cons]
        have hlength : left.length = (left.map Item.summary).length := by simp
        rw [Cursor.itemSummary, Place.itemAt]
        simp only [Bool.not_true, Bool.false_eq_true, if_false]
        rw [hsplit, hlength, entryAt_of_split]
        simp
  | afterLast => rfl

/-- The end of the cursor's item, or where the cursor stands when it has none. -/
def endOf (D : Type w) [Dimension D S] (items : List T) (place : Place) : D :=
  match place.itemAt items with
  | some here =>
    Dimension.addSummary (positionOf D (items.take (place.index items))) (Item.summary here)
  | none => positionOf D (items.take (place.index items))

theorem Standing.endPosition_eq (htree : Valid tree) (h : cursor.Standing tree place)
    (hmoved : place ≠ .unmoved) : cursor.endPosition = some (endOf D tree.toList place) := by
  rw [endPosition, h.itemSummary_eq htree hmoved, h.position_eq, endOf]
  cases place.itemAt tree.toList with
  | none => rfl
  | some item => rfl

variable {stack : List (StackEntry T S D)} {before after : List T} {node : SumTree T S}

variable {height : Nat}

/-- The leaf behind the node that the entries lead to. -/
theorem nextLeaf_spec (hroot : Shaped height tree)
    (path : Path tree [] [] stack node before after) :
    (nextLeaf stack = some none ∧ after = []) ∨ ∃ summary items itemSummaries,
        nextLeaf stack = some (some (.leaf summary items itemSummaries)) ∧ items ≠ [] ∧
          items.head? = after.head? := by
  induction path with
  | root => exact .inl ⟨rfl, rfl⟩
  | @child stack own summary childSummaries left right child before after path ih =>
    obtain ⟨level, hshaped⟩ := path.shaped hroot
    have hne : (left ++ child :: right).isEmpty = false := by simp
    rw [nextLeaf]
    simp only [childTrees, hne, Bool.false_eq_true, if_false]
    cases right with
    | nil =>
      rw [if_neg (by simp)]
      exact ih
    | cons next right =>
      cases hshaped with
      | internal filled fits children summaries total =>
        have hnext := children next (by simp)
        obtain ⟨summary, items, itemSummaries, hleaf, hfilled, hhead⟩ := leftmostLeaf_spec hnext
        obtain ⟨item, rest, hitems⟩ := exists_cons_of_ne_nil hnext.toList_ne_nil
        refine .inr ⟨summary, items, itemSummaries, ?_, hfilled, ?_⟩
        · simp [hleaf]
        · rw [hhead, flatMap_cons, hitems]
          rfl

/-- The leaf in front of the node that the entries lead to. -/
theorem prevLeaf_spec (hroot : Shaped height tree)
    (path : Path tree [] [] stack node before after) :
    (prevLeaf stack = some none ∧ before = []) ∨ ∃ summary items itemSummaries,
        prevLeaf stack = some (some (.leaf summary items itemSummaries)) ∧ items ≠ [] ∧
          items.getLast? = before.getLast? := by
  induction path with
  | root => exact .inl ⟨rfl, rfl⟩
  | @child stack own summary childSummaries left right child before after path ih =>
    obtain ⟨level, hshaped⟩ := path.shaped hroot
    rw [prevLeaf]
    rcases eq_nil_or_concat left with rfl | ⟨front, previous, rfl⟩
    · rw [flatMap_nil, append_nil]
      exact ih
    · cases hshaped with
      | internal filled fits children summaries total =>
        have hprevious := children previous (by simp)
        obtain ⟨summary, items, itemSummaries, hleaf, hfilled, hlast⟩ :=
          rightmostLeaf_spec hprevious
        refine .inr ⟨summary, items, itemSummaries, ?_, hfilled, ?_⟩
        · simp [childTrees, hleaf]
        · rw [hlast, concat_eq_append, flatMap_append, flatMap_singleton, ← append_assoc,
            getLast?_append_of_ne_nil _ hprevious.toList_ne_nil]

theorem Standing.nextItem_eq (htree : Valid tree) (h : cursor.Standing tree place)
    (hmoved : place ≠ .unmoved) : cursor.nextItem = some (place.nextItem tree.toList) := by
  cases h with
  | unmoved => exact absurd rfl hmoved
  | beforeFirst => exact first_spec htree
  | @item stack front back here stands =>
    have hitems := stands.items_eq
    have hshaped := htree.shaped_of_items hitems
    rw [hitems, Place.nextItem]
    cases stands with
    | @leaf rest summary itemSummaries left right before after _ _ path =>
      have hne : (left ++ here :: right).isEmpty = false := by simp
      have hnext : (before ++ left ++ here :: (right ++ after))[(before ++ left).length + 1]? =
          (right ++ after).head? := by
        rw [getElem?_append_right (by omega)]
        simp [head?_eq_getElem?]
      rw [Cursor.nextItem, hnext]
      simp only [Bool.not_true, Bool.false_eq_true, if_false, leafItems, bind_some, hne]
      cases right with
      | nil =>
        rw [if_pos (by simp), nil_append]
        rcases nextLeaf_spec hshaped path with ⟨hnone, rfl⟩ |
          ⟨summary, items, itemSummaries, hleaf, hfilled, hhead⟩
        · rw [hnone]
          rfl
        · obtain ⟨item, items, rfl⟩ := exists_cons_of_ne_nil hfilled
          rw [hleaf, ← hhead]
          rfl
      | cons next right =>
        simp
  | afterLast => rfl

theorem Standing.prevItem_eq (htree : Valid tree) (h : cursor.Standing tree place)
    (hmoved : place ≠ .unmoved) : cursor.prevItem = some (place.prevItem tree.toList) := by
  cases h with
  | unmoved => exact absurd rfl hmoved
  | beforeFirst => rfl
  | @item stack front back here stands =>
    have hitems := stands.items_eq
    have hshaped := htree.shaped_of_items hitems
    rw [hitems, Place.prevItem]
    cases stands with
    | @leaf rest summary itemSummaries left right before after _ _ path =>
      rw [Cursor.prevItem]
      simp only [Bool.not_true, Bool.false_eq_true, if_false, leafItems, bind_some]
      rcases eq_nil_or_concat left with rfl | ⟨front, previous, rfl⟩
      · rw [append_nil, if_pos length_nil]
        rcases prevLeaf_spec hshaped path with ⟨hnone, rfl⟩ |
          ⟨summary, items, itemSummaries, hleaf, hfilled, hlast⟩
        · rw [hnone]
          rfl
        · have hbefore : before ≠ [] := by
            rintro rfl
            rw [getLast?_nil, getLast?_eq_none_iff] at hlast
            exact hfilled hlast
          have hpos : before.length ≠ 0 := by simpa using hbefore
          rw [hleaf, if_neg hpos, getElem?_append_left (by omega), ← getLast?_eq_getElem?, ← hlast]
          obtain ⟨init, last, rfl⟩ := eq_nil_or_concat items |>.resolve_left hfilled
          simp
      · simp
  | afterLast => exact last_spec htree

end Cursor

end OpenGpui.SumTrees
