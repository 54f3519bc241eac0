/-
A cursor that stands behind a front part of the items, and what its operations make of
the rest; the cursor as an iterator.
-/
import OpenGpui.SumTree.ListCursor

namespace OpenGpui.SumTrees

open Option Place List Nat Dimension

universe u v w

open SumTree

variable {T : Type u} {S : Type v} {D : Type w}

section Iterator

variable [Summary S] [Dimension D S]

/-- A cursor as an iterator moves to the first item when it was not moved yet. -/
def Cursor.iterNext (cursor : Cursor T S D) : Option (Option T × Cursor T S D) :=
  (if cursor.didSeek then some cursor else cursor.next).bind fun cursor =>
    cursor.item.bind fun item =>
      match item with
      | some item => cursor.next.map fun cursor => (some item, cursor)
      | none => some (none, cursor)

/-- What a loop collects that ends at the first `none`; with too little fuel it does not end. -/
def Cursor.collect : Nat → Cursor T S D → Option (List T)
  | 0, _ => none
  | fuel + 1, cursor =>
    match cursor.iterNext with
    | none => none
    | some (some item, cursor) => (collect fuel cursor).map (item :: ·)
    | some (none, _) => some []

end Iterator

variable [Summary S] [Item T S] [Dimension D S]

/-- The cursor was moved behind the front part. -/
structure Cursor.Parts (tree : SumTree T S) (cursor : Cursor T S D) (front rest : List T) :
    Prop where
  standing : cursor.Standing tree (ofIndex tree.toList front.length)
  items : tree.toList = front ++ rest

namespace Cursor

variable {tree : SumTree T S} {cursor : Cursor T S D} {front rest : List T}

theorem Parts.index_eq (h : cursor.Parts tree front rest) :
    (ofIndex tree.toList front.length).index tree.toList = front.length :=
  index_ofIndex (by rw [h.items, length_append]; exact le_add_right _ _)

theorem Parts.position_eq (h : cursor.Parts tree front rest) :
    cursor.position = positionOf D front := by
  rw [h.standing.position_eq, h.index_eq, h.items, take_left]

theorem Parts.place_eq {item : T} (h : cursor.Parts tree front (item :: rest)) :
    ofIndex tree.toList front.length = .item front.length := by
  rw [h.items, ofIndex_of_split]

theorem Parts.place_end (h : cursor.Parts tree front []) :
    ofIndex tree.toList front.length = .afterLast := by
  have hitems := h.items
  rw [append_nil] at hitems
  rw [hitems, ofIndex_length]

theorem Parts.itemAt_eq (h : cursor.Parts tree front rest) :
    (ofIndex tree.toList front.length).itemAt tree.toList = rest.head? := by
  cases rest with
  | nil => rw [h.place_end]; rfl
  | cons item rest =>
    rw [h.place_eq, Place.itemAt, h.items]
    simp

theorem Parts.item_eq (h : cursor.Parts tree front rest) : cursor.item = some rest.head? := by
  rw [h.standing.item_eq (ofIndex_ne_unmoved _ _), h.itemAt_eq]

theorem Parts.endPosition_eq (htree : Valid tree) (h : cursor.Parts tree front rest) :
    cursor.endPosition = some (match rest.head? with
        | some item => positionOf D (front ++ [item])
        | none => positionOf D front) := by
  rw [h.standing.endPosition_eq htree (ofIndex_ne_unmoved _ _), endOf, h.itemAt_eq,
    h.index_eq, h.items, take_left]
  cases rest with
  | nil => rfl
  | cons item rest => exact congrArg some (positionOf_append_singleton front item).symm

theorem Parts.not_beforeFirst (h : cursor.Parts tree front rest) :
    cursor.isBeforeFirst = false := by
  have hstanding := h.standing
  have hplace := ofIndex_ne_beforeFirst tree.toList front.length
  generalize ofIndex tree.toList front.length = place at hstanding hplace
  cases hstanding with
  | unmoved => rfl
  | beforeFirst => exact absurd rfl hplace
  | item stands =>
    cases stands with
    | leaf path => rfl
  | afterLast => rfl

/-- What is passed on the way to a target, and what is left. -/
theorem Parts.passed_eq (h : cursor.Parts tree front rest) (target : SeekTarget D) (bias : Bias) :
    (ofIndex tree.toList front.length).passed target bias tree.toList =
      skipped target bias (positionOf D front) rest := by
  rw [passed, h.index_eq, h.items, take_left, drop_left]

section

variable (htree : Valid tree)

include htree

theorem Parts.next {item : T} (h : cursor.Parts tree front (item :: rest)) :
    ∃ cursor', cursor.next = some cursor' ∧ cursor'.Parts tree (front ++ [item]) rest := by
  obtain ⟨cursor', place', hrun, hmoves, hstanding⟩ :=
    @searchForward_spec T S D _ _ _ tree cursor _ (fun _ => true) htree h.standing
  rw [next_of_moves hmoves, h.place_eq] at hstanding
  refine ⟨cursor', hrun, by rwa [length_append], ?_⟩
  rw [h.items, append_assoc]
  rfl

/-- Past the next item, if it is to be left out. -/
theorem Parts.pass {skip : Option T} (h : cursor.Parts tree front (skip.toList ++ rest)) :
    ∃ cursor', (if skip.isSome then cursor.next else some cursor) = some cursor' ∧
      cursor'.Parts tree (front ++ skip.toList) rest := by
  cases skip with
  | none => exact ⟨cursor, rfl, by rwa [toList_none, append_nil]⟩
  | some item => exact h.next htree

theorem Parts.slice {left right : List T} (h : cursor.Parts tree front rest)
    {target : SeekTarget D} {bias : Bias} (hdescending : Descending target tree.toList)
    (hforward : target (positionOf D front) ≠ .lt)
    (hpassed : skipped target bias (positionOf D front) rest = left)
    (hrest : rest = left ++ right) :
    ∃ cursor' slice, cursor.slice target bias = some (cursor', slice) ∧ Valid slice ∧
      slice.toList = left ∧ cursor'.Parts tree (front ++ left) right := by
  rw [← h.position_eq] at hforward
  obtain ⟨cursor', slice, hrun, hvalid, hitems, hstanding⟩ :=
    slice_spec htree h.standing hdescending hforward h.not_beforeFirst
  rw [h.passed_eq, hpassed] at hitems
  rw [sought, h.passed_eq, hpassed, h.index_eq, ← length_append] at hstanding
  refine ⟨cursor', slice, hrun, hvalid, hitems, hstanding, ?_⟩
  rw [h.items, hrest, append_assoc]

/-- A step back from behind the front part leads to its last item. -/
theorem Parts.prev_item (h : cursor.Parts tree front rest) :
    cursor.prev.item = some front.getLast? := by
  obtain ⟨place', hmoves, hstanding⟩ :=
    @searchBackward_spec T S D _ _ _ tree cursor _ (fun _ => true) htree h.standing
  have hbefore : (ofIndex tree.toList front.length).indexBefore tree.toList =
      front.length := by
    cases rest with
    | nil =>
      rw [h.place_end, indexBefore, h.items, append_nil]
    | cons item rest => rw [h.place_eq, indexBefore]
  rw [previous_of_moves h.standing.index_le.2 hmoves, previous, hbefore] at hstanding
  rcases eq_nil_or_concat front with rfl | ⟨front, last, rfl⟩
  · rw [length_nil] at hstanding
    simp only at hstanding
    rw [prev, hstanding.item_eq (by split <;> exact Place.noConfusion)]
    split <;> rfl
  · rw [concat_eq_append, length_append, length_singleton] at hstanding
    rw [prev, hstanding.item_eq Place.noConfusion, Place.itemAt, h.items]
    simp

end

theorem descending_endTarget (items : List T) : Descending (endTarget : SeekTarget D) items :=
  fun _ _ _ _ => ⟨fun hlt => hlt, fun hgt => hgt⟩

theorem Parts.suffix (htree : Valid tree) (h : cursor.Parts tree front rest) :
    ∃ cursor' slice, cursor.suffix = some (cursor', slice) ∧ Valid slice ∧ slice.toList = rest := by
  obtain ⟨cursor', slice, hrun, hvalid, hitems, _⟩ :=
    @slice_spec T S D _ _ _ tree cursor _ htree h.standing endTarget .right
      (descending_endTarget _) Ordering.noConfusion h.not_beforeFirst
  rw [passed_endTarget, h.index_eq, h.items, drop_left] at hitems
  exact ⟨cursor', slice, hrun, hvalid, hitems⟩

section New

variable {left right : List T} {target : SeekTarget D} {bias : Bias}

theorem passed_new (items : List T) :
    unmoved.passed target bias items = skipped target bias (zero S) items := rfl

theorem new_slice (htree : Valid tree) (hdescending : Descending target tree.toList)
    (hforward : target (zero S) ≠ .lt)
    (hpassed : skipped target bias (zero S) tree.toList = left)
    (hitems : tree.toList = left ++ right) :
    ∃ cursor' slice, (Cursor.new tree).slice target bias = some (cursor', slice) ∧ Valid slice ∧
      slice.toList = left ∧ cursor'.Parts tree left right := by
  obtain ⟨cursor', slice, hrun, hvalid, hslice, hstanding⟩ :=
    @slice_spec T S D _ _ _ tree (.new tree) .unmoved htree .unmoved target bias hdescending
      hforward rfl
  rw [passed_new, hpassed] at hslice
  rw [sought, passed_new, hpassed, index, zero_add] at hstanding
  exact ⟨cursor', slice, hrun, hvalid, hslice, hstanding, hitems⟩

/-- A seek starts again from the first item. -/
theorem seek_parts (htree : Valid tree) (hsame : cursor.tree = tree)
    (hdescending : Descending target tree.toList) (hforward : target (zero S) ≠ .lt)
    (hpassed : skipped target bias (zero S) tree.toList = left)
    (hitems : tree.toList = left ++ right) :
    ∃ cursor' found, cursor.seek target bias = some (cursor', found) ∧
      cursor'.Parts tree left right := by
  obtain ⟨result, hrun, hseeks⟩ := @seekInternal_spec T S D _ _ _ tree (.new tree)
    .unmoved Unit (fun _ _ _ => True) target bias _ collects_unit htree .unmoved
    Place.noConfusion hdescending hforward () trivial
  have hstanding := hseeks.standing
  rw [sought, passed_new, hpassed, index, zero_add] at hstanding
  refine ⟨result.cursor, result.found, ?_, hstanding, hitems⟩
  rw [seek, reset_eq, hsame, hrun]
  rfl

theorem new_next (htree : Valid tree) :
    ∃ cursor', (Cursor.new tree : Cursor T S D).next = some cursor' ∧
      cursor'.Parts tree [] tree.toList := by
  obtain ⟨cursor', place', hrun, hmoves, hstanding⟩ :=
    @searchForward_spec T S D _ _ _ tree (.new tree) .unmoved (fun _ => true) htree .unmoved
  rw [next_of_moves hmoves] at hstanding
  exact ⟨cursor', hrun, hstanding, rfl⟩

end New

/-- As an iterator the cursor yields what is left. -/
theorem Parts.collect (htree : Valid tree) {fuel : Nat} (h : cursor.Parts tree front rest)
    (hfuel : rest.length < fuel) : cursor.collect fuel = some rest := by
  induction fuel generalizing cursor front rest with
  | zero => exact absurd hfuel (not_lt_zero _)
  | succ fuel ih =>
    rw [Cursor.collect, iterNext, h.standing.didSeek_eq (ofIndex_ne_unmoved _ _), if_pos rfl,
      bind_some, h.item_eq]
    cases rest with
    | nil => rfl
    | cons item rest =>
      obtain ⟨cursor', hrun, hparts⟩ := h.next htree
      simp only [head?_cons, bind_some, hrun, map_some]
      rw [ih hparts (lt_of_succ_lt_succ hfuel)]
      rfl

end Cursor

end OpenGpui.SumTrees
