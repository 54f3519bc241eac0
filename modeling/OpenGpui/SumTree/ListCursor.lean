/-
The cursor of a tree as a place in the list of its items: every run of moves, seeks and
slices is one of the list.
-/
import OpenGpui.Library.Machine
import OpenGpui.SumTree.Build
import OpenGpui.SumTree.CursorSeek
import OpenGpui.SumTree.Search
import Mathlib.Algebra.Group.Nat.Defs
import Mathlib.Data.Nat.Basic

namespace OpenGpui.SumTrees

open Cursor Place List Nat Option Dimension

universe u v w x

open SumTree

inductive CursorCommand (S : Type v) (D : Type w) where
  | seek (target : SeekTarget D) (bias : Bias)
  | seekForward (target : SeekTarget D) (bias : Bias)
  | slice (target : SeekTarget D) (bias : Bias)
  | suffix
  | summary (target : SeekTarget D) (bias : Bias)
  | next
  | prev
  | searchForward (filterNode : S → Bool)
  | searchBackward (filterNode : S → Bool)

inductive CursorAnswer (T : Type u) (S : Type v) (O : Type w) where
  | found (found : Bool)
  | slice (tree : SumTree T S)
  | summary (output : O)
  | moved

variable {T : Type u} {S : Type v} {D O : Type w}
variable [Summary S] [Item T S] [Dimension D S] [Dimension O S]

def Cursor.step (cursor : Cursor T S D) :
    CursorCommand S D → Option (CursorAnswer T S O × Cursor T S D)
  | .seek target bias => (cursor.seek target bias).map fun (cursor, found) => (.found found, cursor)
  | .seekForward target bias =>
    (cursor.seekForward target bias).map fun (cursor, found) => (.found found, cursor)
  | .slice target bias => (cursor.slice target bias).map fun (cursor, tree) => (.slice tree, cursor)
  | .suffix => cursor.suffix.map fun (cursor, tree) => (.slice tree, cursor)
  | .summary target bias =>
    (cursor.summary O target bias).map fun (cursor, output) => (.summary output, cursor)
  | .next => cursor.next.map fun cursor => (.moved, cursor)
  | .prev => some (.moved, cursor.prev)
  | .searchForward filterNode =>
    (cursor.searchForward filterNode).map fun cursor => (.moved, cursor)
  | .searchBackward filterNode => some (.moved, cursor.searchBackward filterNode)

/-- A cursor over a tree, with what it sums up in a dimension of its own. -/
def cursorMachine (T : Type u) (S : Type v) (D O : Type w) [Summary S] [Item T S] [Dimension D S]
    [Dimension O S] : Machine (Cursor T S D) (CursorCommand S D) (CursorAnswer T S O) where
  step := Cursor.step

namespace Place

variable (items : List T)

/-- The number of items that a move forward leaves behind. -/
def indexAfter : Place → Nat
  | unmoved => 0
  | beforeFirst => 0
  | item index => index + 1
  | afterLast => items.length

/-- The number of items that a move backward has in front; the first move of a cursor starts at
the end. -/
def indexBefore : Place → Nat
  | unmoved => items.length
  | beforeFirst => 0
  | item index => index
  | afterLast => items.length

variable (filterNode : S → Bool)

/-- Forward over items that a faithful filter rejects, to one it accepts or behind the last. -/
def MovesForward (items : List T) (place place' : Place) : Prop :=
  ∃ crossed rest, items.drop (place.indexAfter items) = crossed ++ rest ∧
    Rejects filterNode (items.drop (place.indexAfter items)) crossed ∧
    (∀ item ∈ rest.head?, filterNode (Item.summary item) = true) ∧
    place' = ofIndex items (place.indexAfter items + crossed.length)

/-- Backward over items that a faithful filter rejects, to one it accepts or before the first.  In
an empty list that is behind the last, too. -/
def MovesBackward (items : List T) (place place' : Place) : Prop :=
  (∃ front item crossed, items.take (place.indexBefore items) = front ++ item :: crossed ∧
    Rejects filterNode (items.take (place.indexBefore items)) crossed ∧
    filterNode (Item.summary item) = true ∧ place' = .item front.length) ∨
  (Rejects filterNode (items.take (place.indexBefore items))
      (items.take (place.indexBefore items)) ∧
    place' = if items.isEmpty then .afterLast else .beforeFirst)

def previous (place : Place) : Place :=
  match place.indexBefore items with
  | 0 => if items.isEmpty then .afterLast else .beforeFirst
  | index + 1 => .item index

/-- Whether the seek to a place has found the target: at its item's end, or at its start. -/
def foundAt (target : SeekTarget D) (bias : Bias) (items : List T) (place : Place) : Bool :=
  match bias with
  | .left => decide (target (Cursor.endOf D items place) = .eq)
  | .right => decide (target (positionOf D (items.take (place.index items))) = .eq)

end Place

/-- The steps of a cursor over a list of items. -/
inductive ListStep (items : List T) :
    Place → CursorCommand S D → CursorAnswer T S O → Place → Prop
  | seek (place : Place) (target : SeekTarget D) (bias : Bias) :
      ListStep items place (.seek target bias)
        (.found (foundAt target bias items (sought target bias items .unmoved)))
        (sought target bias items .unmoved)
  | seekForward (place : Place) (target : SeekTarget D) (bias : Bias) :
      ListStep items place (.seekForward target bias)
        (.found (foundAt target bias items (place.sought target bias items)))
        (place.sought target bias items)
  | slice (place : Place) (target : SeekTarget D) (bias : Bias) {tree : SumTree T S}
      (valid : Valid tree) (same : tree.toList = place.passed target bias items) :
      ListStep items place (.slice target bias) (.slice tree) (place.sought target bias items)
  | suffix (place : Place) {tree : SumTree T S} (valid : Valid tree)
      (same : tree.toList = items.drop (place.index items)) :
      ListStep items place .suffix (.slice tree) .afterLast
  | summary (place : Place) (target : SeekTarget D) (bias : Bias) :
      ListStep items place (.summary target bias)
        (.summary (positionOf O (place.passed target bias items)))
        (place.sought target bias items)
  | next (place : Place) :
      ListStep items place .next .moved (ofIndex items (place.indexAfter items))
  | prev (place : Place) : ListStep items place .prev .moved (place.previous items)
  | searchForward (place : Place) (filterNode : S → Bool) (place' : Place)
      (moves : place.MovesForward filterNode items place') :
      ListStep items place (.searchForward filterNode) .moved place'
  | searchBackward (place : Place) (filterNode : S → Bool) (place' : Place)
      (moves : place.MovesBackward filterNode items place') :
      ListStep items place (.searchBackward filterNode) .moved place'

section Moves

variable {tree : SumTree T S} {cursor : Cursor T S D} {place : Place} {filterNode : S → Bool}

variable {front rest : List T}

/-- Where a search forward ends: what was in front of it, and what it went over. -/
theorem standing_of_forward {position : D} {found : Option (List (StackEntry T S D))}
    (hforward : Forward filterNode tree [] [] front rest position found)
    (hsplit : tree.toList = front ++ rest) :
    ∃ crossed back, rest = crossed ++ back ∧ Rejects filterNode rest crossed ∧
      (∀ item ∈ back.head?, filterNode (Item.summary item) = true) ∧
      Cursor.Standing tree ⟨tree, found.getD [], position, true, (found.getD []).isEmpty⟩
        (ofIndex tree.toList (front.length + crossed.length)) := by
  cases hforward with
  | whole rejects =>
    refine ⟨rest, [], (append_nil rest).symm, rejects, by simp, ?_⟩
    rw [← length_append, ← hsplit, ofIndex_length]
    exact .afterLast
  | @inside entries crossed rest back item split rejects accepted stands =>
    have hitems := stands.items_eq
    refine ⟨crossed, item :: rest, split, rejects, ?_, ?_⟩
    · rintro other ⟨⟩
      exact accepted
    · rw [← length_append, hitems, ofIndex_of_split, getD_some, stands.stack_ne_nil]
      exact .item stands

theorem Cursor.searchForward_spec (htree : Valid tree) (h : cursor.Standing tree place) :
    ∃ cursor' place', cursor.searchForward filterNode = some cursor' ∧
      place.MovesForward filterNode tree.toList place' ∧ cursor'.Standing tree place' := by
  have hroot : tree.isEmpty = false → ∃ cursor' place',
        (forwardStack filterNode true [⟨tree, 0, zero S⟩] (zero S : D)).map
            (fun found => (⟨tree, found.2, found.1, true, found.2.isEmpty⟩ : Cursor T S D)) =
          some cursor' ∧
        unmoved.MovesForward filterNode tree.toList place' ∧
          cursor'.Standing tree place' := by
    intro hmore
    obtain ⟨position, found, hrun, hforward⟩ := @forwardStack_root T S D _ _ _ filterNode _ tree
      (htree.shaped hmore)
    obtain ⟨crossed, back, hsplit, hrejects, haccepted, hstanding⟩ :=
      standing_of_forward hforward rfl
    rw [hrun]
    exact ⟨_, _, rfl, ⟨crossed, back, hsplit, hrejects, haccepted, rfl⟩, hstanding⟩
  cases h with
  | unmoved =>
    cases hmore : tree.isEmpty with
    | false =>
      obtain ⟨cursor', place', hrun, hmoves, hstanding⟩ := hroot hmore
      refine ⟨cursor', place', ?_, hmoves, hstanding⟩
      rw [searchForward, ← hrun]
      simp only [Cursor.new, hmore, isEmpty_nil, Bool.not_false, Bool.and_self, if_true,
        Bool.or_false]
    | true =>
      obtain rfl := htree.eq_new hmore
      exact ⟨_, .afterLast, rfl, ⟨[], [], rfl, fun _ _ h => absurd h not_mem_nil,
        by simp, rfl⟩, .afterLast⟩
  | beforeFirst more =>
    obtain ⟨cursor', place', hrun, hmoves, hstanding⟩ := hroot more
    refine ⟨cursor', place', ?_, hmoves, hstanding⟩
    rw [searchForward, ← hrun]
    simp only [isEmpty_nil, Bool.not_false, Bool.and_self, if_true, Bool.true_or, Bool.or_false]
  | @item stack front back here stands =>
    have hitems := stands.items_eq
    obtain ⟨position, found, hrun, hforward⟩ := @forwardStack_stands T S D _ _ _ filterNode _ tree
      (htree.shaped_of_items stands.items_eq) front back here stack stands
    obtain ⟨crossed, rest, hsplit, hrejects, haccepted, hstanding⟩ :=
      standing_of_forward hforward (by rw [hitems]; simp)
    have hdrop : tree.toList.drop (front.length + 1) = back := by
      rw [hitems]
      simp
    refine ⟨⟨tree, found.getD [], position, true, (found.getD []).isEmpty⟩, _, ?_,
      ⟨crossed, rest, ?_, ?_, haccepted, rfl⟩, ?_⟩
    · rw [searchForward]
      simp only [stands.stack_ne_nil, Bool.false_and, Bool.false_eq_true, if_false, hrun,
        map_some, Bool.or_true, Bool.or_false]
    · rw [indexAfter, hdrop]
      exact hsplit
    · rw [indexAfter, hdrop]
      exact hrejects
    · rw [indexAfter]
      simpa using hstanding
  | afterLast =>
    refine ⟨_, .afterLast, rfl, ⟨[], [], ?_, fun _ _ h => absurd h not_mem_nil, by simp, ?_⟩,
      .afterLast⟩
    · rw [indexAfter, drop_length]
      rfl
    · rw [indexAfter, length_nil, add_zero, ofIndex_length]

theorem standing_of_backward (htree : Valid tree) (hmore : tree.isEmpty = false)
    {result : D × List (StackEntry T S D)} (hbackward : BackwardEnd filterNode tree front result)
    (hsplit : tree.toList = front ++ rest) (hindex : place.indexBefore tree.toList = front.length) :
    ∃ place', place.MovesBackward filterNode tree.toList place' ∧
      Cursor.Standing tree ⟨tree, result.2, result.1, true, false⟩ place' := by
  have htake : tree.toList.take (place.indexBefore tree.toList) = front := by
    rw [hindex, hsplit, take_left]
  cases hbackward with
  | whole rejects =>
    have hitems : tree.toList.isEmpty = false := by
      refine isEmpty_eq_false_iff.mpr fun hnil => ?_
      rw [htree.isEmpty_iff.mpr hnil] at hmore
      exact absurd hmore (by decide)
    refine ⟨.beforeFirst, .inr ⟨by rwa [htake], by rw [hitems]; rfl⟩, .beforeFirst hmore⟩
  | inside split rejects accepted stands =>
    exact ⟨_, .inl ⟨_, _, _, htake.trans split, by rwa [htake], accepted, rfl⟩, .item stands⟩

theorem Cursor.searchBackward_spec (htree : Valid tree) (h : cursor.Standing tree place) :
    ∃ place', place.MovesBackward filterNode tree.toList place' ∧
      (cursor.searchBackward filterNode).Standing tree place' := by
  -- from the end of the tree
  have hend : place.indexBefore tree.toList = tree.toList.length →
      (cursor.searchBackward filterNode =
        ⟨tree,
          (backwardStack filterNode (if tree.isEmpty then []
            else [⟨tree, tree.childSummaries.length, addSummary (zero S : D) tree.summary⟩])).2,
          (backwardStack filterNode (if tree.isEmpty then []
            else [⟨tree, tree.childSummaries.length, addSummary (zero S : D) tree.summary⟩])).1,
          true, tree.isEmpty⟩) →
      ∃ place', place.MovesBackward filterNode tree.toList place' ∧
        (cursor.searchBackward filterNode).Standing tree place' := by
    intro hindex hrun
    rw [hrun]
    cases hmore : tree.isEmpty with
    | false =>
      exact standing_of_backward htree hmore (backwardStack_root (htree.shaped hmore) _)
        (append_nil _).symm hindex
    | true =>
      obtain rfl := htree.eq_new hmore
      refine ⟨.afterLast, .inr ⟨?_, rfl⟩, .afterLast⟩
      intro _ item hitem
      exact absurd (mem_of_mem_take hitem) not_mem_nil
  cases h with
  | unmoved =>
    refine hend rfl ?_
    rfl
  | beforeFirst more =>
    refine ⟨.beforeFirst, .inr ⟨fun _ item hitem => absurd hitem not_mem_nil, ?_⟩,
      .beforeFirst more⟩
    have hitems : tree.toList.isEmpty = false := by
      refine isEmpty_eq_false_iff.mpr fun hnil => ?_
      rw [htree.isEmpty_iff.mpr hnil] at more
      exact absurd more (by decide)
    rw [hitems]
    rfl
  | @item stack front back here stands =>
    have hshaped := htree.shaped_of_items stands.items_eq
    have hitems := stands.toList_eq
    rw [append_nil] at hitems
    have hrun : (⟨tree, stack, positionOf D front, true, false⟩ :
        Cursor T S D).searchBackward filterNode =
          ⟨tree, (backwardStack filterNode stack).2, (backwardStack filterNode stack).1, true,
            false⟩ := by
      cases stands with
      | leaf path => rfl
    rw [hrun]
    exact standing_of_backward htree hshaped.isEmpty_eq (backwardStack_stands hshaped stands)
      hitems rfl
  | afterLast =>
    refine hend rfl ?_
    rw [searchBackward]
    simp only [Bool.or_true, if_true]

variable {items : List T}

/-- Every sum has an accepted part when the filter accepts everything. -/
theorem nil_of_rejects_all {part : List T}
    (hrejects : Rejects (fun _ : S => true) part items) : items = [] := by
  refine eq_nil_iff_forall_not_mem.mpr fun item hitem => ?_
  exact Bool.noConfusion (hrejects (fun _ _ _ _ _ => rfl) item hitem)

variable {place' : Place}

theorem Place.next_of_moves (hmoves : place.MovesForward (fun _ : S => true) items place') :
    place' = ofIndex items (place.indexAfter items) := by
  obtain ⟨crossed, rest, _, hrejects, _, rfl⟩ := hmoves
  rw [nil_of_rejects_all hrejects, length_nil, add_zero]

theorem Place.previous_of_moves (hle : place.indexBefore items ≤ items.length)
    (hmoves : place.MovesBackward (fun _ : S => true) items place') :
    place' = place.previous items := by
  have hlength : (items.take (place.indexBefore items)).length = place.indexBefore items := by
    rw [length_take]
    omega
  rcases hmoves with ⟨front, item, crossed, hsplit, hrejects, _, rfl⟩ | ⟨hrejects, rfl⟩
  · rw [hsplit, nil_of_rejects_all hrejects, length_append, length_singleton] at hlength
    rw [previous, ← hlength]
  · rw [nil_of_rejects_all hrejects, length_nil] at hlength
    rw [previous, ← hlength]

end Moves

/-! Every run. -/

/-- The cursor was moved back to before the first item. -/
def Cursor.isBeforeFirst (cursor : Cursor T S D) : Bool :=
  cursor.didSeek && cursor.stack.isEmpty && !cursor.atEnd

/-- The targets are ones of a dimension that is monotone over the items and do not lie before the
cursor; and none is sought from before the first item, which a backward move has reached. -/
def Cursor.Permitted (items : List T) (cursor : Cursor T S D) : CursorCommand S D → Prop
  | .seek target _ => Descending target items ∧ target (zero S) ≠ .lt
  | .seekForward target _ => Descending target items ∧ target cursor.position ≠ .lt ∧
      cursor.isBeforeFirst = false
  | .slice target _ => Descending target items ∧ target cursor.position ≠ .lt ∧
      cursor.isBeforeFirst = false
  | .suffix => cursor.isBeforeFirst = false
  | .summary target _ => Descending target items ∧ target cursor.position ≠ .lt ∧
      cursor.isBeforeFirst = false
  | .next => True
  | .prev => True
  | .searchForward _ => True
  | .searchBackward _ => True

section Steps

variable {tree : SumTree T S} {cursor : Cursor T S D} {place : Place}

theorem Cursor.Standing.not_beforeFirst (h : cursor.Standing tree place)
    (hplace : cursor.isBeforeFirst = false) : place ≠ .beforeFirst := by
  rintro rfl
  cases h
  exact Bool.noConfusion hplace

/-- Behind every item lies the target of a suffix. -/
theorem passed_endTarget (items : List T) :
    place.passed (endTarget : SeekTarget D) .right items = items.drop (place.index items) := by
  rw [passed]
  generalize items.drop (place.index items) = rest
  generalize (positionOf D (items.take (place.index items))) = position
  induction rest generalizing position with
  | nil => rfl
  | cons item rest ih =>
    rw [skipped, if_pos (isPast_iff.mpr (.inl rfl)), ih]

theorem sought_endTarget {items : List T} (hindex : place.index items ≤ items.length) :
    place.sought (endTarget : SeekTarget D) .right items = .afterLast := by
  rw [sought, passed_endTarget, length_drop]
  have hall : place.index items + (items.length - place.index items) = items.length := by omega
  rw [hall, ofIndex_length]

theorem Cursor.Standing.index_le (h : cursor.Standing tree place) :
    place.index tree.toList ≤ tree.toList.length ∧
      place.indexBefore tree.toList ≤ tree.toList.length := by
  cases h with
  | unmoved => exact ⟨zero_le _, le_refl _⟩
  | beforeFirst => exact ⟨zero_le _, zero_le _⟩
  | item stands =>
    have hitems := stands.items_eq
    rw [index, indexBefore, hitems]
    simp
  | afterLast => exact ⟨le_refl _, le_refl _⟩

theorem Cursor.SeeksTo.foundAt_eq {A : Type x} {holds : A → List T → List T → Prop}
    {target : SeekTarget D} {bias : Bias} {result : Cursor.Sought T S D A}
    (h : Cursor.SeeksTo holds target bias tree place result) :
    result.found = foundAt target bias tree.toList (place.sought target bias tree.toList) := by
  rw [h.found]
  cases bias with
  | left => rfl
  | right => rfl

theorem Cursor.slice_spec (htree : Valid tree) (h : cursor.Standing tree place)
    {target : SeekTarget D} {bias : Bias} (hdescending : Descending target tree.toList)
    (hforward : target cursor.position ≠ .lt) (hplace : cursor.isBeforeFirst = false) :
    ∃ cursor' slice, cursor.slice target bias = some (cursor', slice) ∧ Valid slice ∧
      slice.toList = place.passed target bias tree.toList ∧
      cursor'.Standing tree (place.sought target bias tree.toList) := by
  have hnew : SliceSeekAggregate.Holds (⟨.new, [], [], 0⟩ : SliceSeekAggregate T S) [] [] :=
    ⟨valid_new, rfl, rfl, rfl, rfl⟩
  obtain ⟨result, hrun, hstanding, hcollected, _⟩ := @seekInternal_spec T S D _ _ _ tree cursor
    place _ SliceSeekAggregate.Holds target bias _ collects_slice htree h
    (h.not_beforeFirst hplace) hdescending hforward ⟨.new, [], [], 0⟩ hnew
  exact ⟨result.cursor, result.aggregate.tree, by rw [slice, hrun]; rfl, hcollected.valid,
    hcollected.tree, hstanding⟩

/-- One step is defined and is a step in the list. -/
theorem Cursor.step_follows (htree : Valid tree) (h : cursor.Standing tree place)
    (command : CursorCommand S D) (hpermitted : cursor.Permitted tree.toList command) :
    ∃ (answer : CursorAnswer T S O) (next : Cursor T S D) (place' : Place),
      cursor.step command = some (answer, next) ∧
        ListStep tree.toList place command answer place' ∧ next.Standing tree place' := by
  cases command with
  | seek target bias =>
    obtain ⟨hdescending, hforward⟩ := hpermitted
    obtain ⟨result, hrun, hseeks⟩ := @seekInternal_spec T S D _ _ _ tree (.new tree)
      .unmoved Unit (fun _ _ _ => True) target bias _ collects_unit htree .unmoved
      Place.noConfusion hdescending hforward () trivial
    refine ⟨.found result.found, result.cursor, _, ?_, ?_, hseeks.standing⟩
    · rw [step, seek, reset_eq, h.tree_eq, hrun]
      rfl
    · rw [hseeks.foundAt_eq]
      exact .seek place target bias
  | seekForward target bias =>
    obtain ⟨hdescending, hforward, hplace⟩ := hpermitted
    obtain ⟨result, hrun, hseeks⟩ := @seekInternal_spec T S D _ _ _ tree cursor
      place Unit (fun _ _ _ => True) target bias _ collects_unit htree h
      (h.not_beforeFirst hplace) hdescending hforward () trivial
    refine ⟨.found result.found, result.cursor, _, ?_, ?_, hseeks.standing⟩
    · rw [step, seekForward, hrun]
      rfl
    · rw [hseeks.foundAt_eq]
      exact .seekForward place target bias
  | slice target bias =>
    obtain ⟨hdescending, hforward, hplace⟩ := hpermitted
    obtain ⟨cursor', slice, hrun, hvalid, hitems, hstanding⟩ :=
      slice_spec htree h hdescending hforward hplace
    exact ⟨.slice slice, cursor', _, by rw [step, hrun]; rfl,
      .slice place target bias hvalid hitems, hstanding⟩
  | suffix =>
    have hdescending : Descending (endTarget : SeekTarget D) tree.toList :=
      fun _ _ _ _ => ⟨fun hlt => hlt, fun hgt => hgt⟩
    obtain ⟨cursor', slice, hrun, hvalid, hitems, hstanding⟩ :=
      @slice_spec T S D _ _ _ tree cursor place htree h endTarget .right hdescending
        Ordering.noConfusion hpermitted
    rw [passed_endTarget] at hitems
    rw [sought_endTarget h.index_le.1] at hstanding
    exact ⟨.slice slice, cursor', .afterLast, by rw [step, suffix, hrun]; rfl,
      .suffix place hvalid hitems, hstanding⟩
  | summary target bias =>
    obtain ⟨hdescending, hforward, hplace⟩ := hpermitted
    obtain ⟨result, hrun, hstanding, hcollected, _⟩ := @seekInternal_spec T S D _ _ _ tree cursor
      place _ (SummarySeekAggregate.Holds (D := O)) target bias _ collects_summary htree h
      (h.not_beforeFirst hplace) hdescending hforward ⟨zero S⟩ rfl
    rw [SummarySeekAggregate.Holds, append_nil] at hcollected
    refine ⟨.summary result.aggregate.output, result.cursor, _, ?_, ?_, hstanding⟩
    · rw [step, summary, hrun]
      rfl
    · rw [hcollected]
      exact .summary place target bias
  | next =>
    obtain ⟨cursor', place', hrun, hmoves, hstanding⟩ :=
      @searchForward_spec T S D _ _ _ tree cursor place (fun _ => true) htree h
    rw [next_of_moves hmoves] at hstanding
    exact ⟨.moved, cursor', _, by rw [step, next, hrun]; rfl, .next place, hstanding⟩
  | prev =>
    obtain ⟨place', hmoves, hstanding⟩ :=
      @searchBackward_spec T S D _ _ _ tree cursor place (fun _ => true) htree h
    rw [previous_of_moves h.index_le.2 hmoves] at hstanding
    exact ⟨.moved, cursor.prev, _, rfl, .prev place, hstanding⟩
  | searchForward filterNode =>
    obtain ⟨cursor', place', hrun, hmoves, hstanding⟩ :=
      @searchForward_spec T S D _ _ _ tree cursor place filterNode htree h
    exact ⟨.moved, cursor', place', by rw [step, hrun]; rfl,
      .searchForward place filterNode place' hmoves, hstanding⟩
  | searchBackward filterNode =>
    obtain ⟨place', hmoves, hstanding⟩ :=
      @searchBackward_spec T S D _ _ _ tree cursor place filterNode htree h
    exact ⟨.moved, _, place', rfl, .searchBackward place filterNode place' hmoves, hstanding⟩

end Steps

/-- What a cursor at a place answers: its neighbours in the list and the sum of the items before. -/
structure Cursor.Shows (items : List T) (cursor : Cursor T S D) (place : Place) : Prop where
  item : place ≠ .unmoved → cursor.item = some (place.itemAt items)
  prevItem : place ≠ .unmoved → cursor.prevItem = some (place.prevItem items)
  nextItem : place ≠ .unmoved → cursor.nextItem = some (place.nextItem items)
  start : cursor.position = positionOf D (items.take (place.index items))

/-- A run in which no slice, summary or forward seek starts from before the first item, where a
backward move has taken the cursor: it is defined, it is a run of the list of items with the same
answers, and it ends at a place that the cursor shows. -/
theorem cursor_run_follows_list {tree : SumTree T S} (htree : Valid tree)
    (commands : List (CursorCommand S D))
    (hpermitted : (cursorMachine T S D O).Along (Cursor.Permitted tree.toList) (.new tree)
      commands) :
    ∃ answers cursor place,
      (cursorMachine T S D O).trace (.new tree) commands = some (answers, cursor) ∧
        Machine.Follows (ListStep tree.toList) .unmoved commands answers place ∧
        cursor.Shows tree.toList place := by
  obtain ⟨answers, cursor, place, hrun, hfollows, hstanding⟩ :=
    @Machine.trace_follows _ _ _ (cursorMachine T S D O) Place (ListStep tree.toList)
      (Cursor.Standing tree) (Cursor.Permitted tree.toList)
      (fun _ _ command hstanding hcondition =>
        step_follows htree hstanding command hcondition)
      (.new tree) .unmoved commands Cursor.Standing.unmoved hpermitted
  exact ⟨answers, cursor, place, hrun, hfollows, hstanding.item_eq,
    hstanding.prevItem_eq htree, hstanding.nextItem_eq htree, hstanding.position_eq⟩

/-- Items of size one. -/
local instance sizedItem : Item Nat Nat := ⟨fun _ => 1⟩

theorem le_advance_sized (position : Nat) (items : List Nat) :
    position ≤ advance position items := by
  induction items generalizing position with
  | nil => exact le_refl _
  | cons item items ih => exact le_trans (le_succ position) (ih _)

/-- From before the first item, where `prev` has taken the cursor, a suffix is empty and leaves the
cursor behind the last item. -/
theorem suffix_from_before_first_is_empty :
    ∃ (tree : SumTree Nat Nat) (answers : List (CursorAnswer Nat Nat Nat))
      (cursor : Cursor Nat Nat Nat),
      fromIter [0, 1, 2] = some tree ∧
      (cursorMachine Nat Nat Nat Nat).trace (.new tree) [.next, .prev, .suffix] =
        some (answers, cursor) ∧
      ¬∃ place, Machine.Follows (ListStep (D := Nat) tree.toList) .unmoved [.next, .prev, .suffix]
        answers place := by
  refine ⟨_, _, _, rfl, rfl, ?_⟩
  rintro ⟨_, hfollows⟩
  obtain _ | @⟨_, _, _, _, _, _, _, hnext, hrest⟩ := hfollows
  obtain _ | @⟨_, _, _, _, _, _, _, hprev, hrest⟩ := hrest
  obtain _ | @⟨_, _, _, _, _, _, _, hsuffix, _⟩ := hrest
  cases hnext
  cases hprev
  cases hsuffix with
  | suffix _ hsame => exact absurd hsame (by decide)

/-- A suffix from inside the tree, and then a walk back to before the first item and forward
again. -/
theorem walk_follows_list : ∃ (tree : SumTree Nat Nat) (answers : List (CursorAnswer Nat Nat Nat))
      (cursor : Cursor Nat Nat Nat) (place : Place),
      fromIter [0, 1] = some tree ∧
      (cursorMachine Nat Nat Nat Nat).trace (.new tree)
        [.seek (compare 1) .right, .suffix, .prev, .prev, .prev, .next] = some (answers, cursor) ∧
      Machine.Follows (ListStep tree.toList) .unmoved
        [.seek (compare 1) .right, .suffix, .prev, .prev, .prev, .next] answers place ∧
      cursor.Shows tree.toList place := by
  obtain ⟨tree, htree, hvalid, hitems⟩ := fromIter_spec (S := Nat) [0, 1]
  have hmonotone : Descending (compare 1) tree.toList := by
    refine .of_monotone (fun front middle _ _ => ?_) 1
    rw [positionOf_append]
    exact le_advance_sized _ _
  obtain ⟨answers, cursor, place, hrun, hfollows, hshows⟩ :=
    @cursor_run_follows_list Nat Nat Nat Nat _ _ _ _ tree hvalid
      [.seek (compare 1) .right, .suffix, .prev, .prev, .prev, .next] (by
      obtain rfl := Option.some.inj htree
      refine ⟨⟨hmonotone, by decide⟩, fun _ _ hseek => ?_⟩
      cases hseek
      exact ⟨rfl, fun _ _ _ => ⟨trivial, fun _ _ _ => ⟨trivial, fun _ _ _ => ⟨trivial, fun _ _ _ =>
        ⟨trivial, fun _ _ _ => trivial⟩⟩⟩⟩⟩)
  exact ⟨tree, answers, cursor, place, htree, hrun, hfollows, hshows⟩

end OpenGpui.SumTrees
