/-
Seeking with a cursor: it comes to stand behind the items the target lies beyond, having
collected those it passed.
-/
import OpenGpui.SumTree.Place

namespace OpenGpui.SumTrees

open Option Place List

universe u v w x

open SumTree

variable {T : Type u} {S : Type v} {D : Type w} [Summary S] [Dimension D S]

namespace Cursor

variable {cursor : Cursor T S D}

/-- A seek that runs did not go backward. -/
theorem seekInternal_forward {A : Type x} [SeekAggregate A T S] {target : SeekTarget D}
    {bias : Bias} {aggregate : A} {result : Sought T S D A}
    (hrun : cursor.seekInternal target bias aggregate = some result) :
    target cursor.position ≠ .lt := by
  intro hless
  rw [seekInternal, if_pos hless] at hrun
  exact absurd hrun (by simp)

theorem reset_eq : cursor.reset = .new cursor.tree := rfl

end Cursor

variable [Item T S]

namespace Place

variable (target : SeekTarget D)

/-- The items from the place on that a seek to the target passes. -/
def passed (bias : Bias) (items : List T) (place : Place) : List T :=
  skipped target bias (positionOf D (items.take (place.index items)))
    (items.drop (place.index items))

/-- Where a seek to the target ends. -/
def sought (bias : Bias) (items : List T) (place : Place) : Place :=
  ofIndex items (place.index items + (place.passed target bias items).length)

variable (items : List T)

theorem ofIndex_length : ofIndex items items.length = .afterLast := if_neg (Nat.lt_irrefl _)

theorem ofIndex_of_split (front back : List T) (item : T) :
    ofIndex (front ++ item :: back) front.length = .item front.length :=
  if_pos (by simp)

theorem index_ofIndex {items : List T} {index : Nat} (hindex : index ≤ items.length) :
    (ofIndex items index).index items = index := by
  by_cases hlt : index < items.length
  · rw [ofIndex, if_pos hlt, Place.index]
  · rw [ofIndex, if_neg hlt, Place.index]
    omega

variable (index : Nat)

theorem ofIndex_ne_unmoved : ofIndex items index ≠ .unmoved := by
  rw [ofIndex]
  split <;> exact Place.noConfusion

theorem ofIndex_ne_beforeFirst : ofIndex items index ≠ .beforeFirst := by
  rw [ofIndex]
  split <;> exact Place.noConfusion

end Place

theorem Stands.stack_ne_nil {root : SumTree T S} {start finish front back : List T} {item : T}
    {stack : List (StackEntry T S D)}
    (stands : Stands root start finish stack front item back) : stack.isEmpty = false := by
  cases stands
  rfl

namespace Cursor

variable {tree : SumTree T S} {cursor : Cursor T S D} {place : Place}

section Seek

variable {A : Type x} {holds : A → List T → List T → Prop} {target : SeekTarget D} {bias : Bias}

/-- A seek over the items from the place on ended at its place and collected them. -/
structure Ended (holds : A → List T → List T → Prop) (target : SeekTarget D) (bias : Bias)
    (tree : SumTree T S) (place : Place) (result : Option (Seeking A D × List (StackEntry T S D)))
    (state : Seeking A D) (stack : List (StackEntry T S D)) : Prop where
  run : result = some (state, stack)
  standing : Standing tree ⟨tree, stack, state.position, true, stack.isEmpty⟩
    (place.sought target bias tree.toList)
  collected : holds state.aggregate (place.passed target bias tree.toList) []

theorem ended_of_passed {result : Option (Seeking A D × List (StackEntry T S D))}
    {state : Seeking A D} {found : Option (List (StackEntry T S D))}
    (hpassed : Passed holds target bias tree (tree.toList.take (place.index tree.toList)) []
      (tree.toList.drop (place.index tree.toList)) result state found)
    (hindex : place.index tree.toList ≤ tree.toList.length) :
    Ended holds target bias tree place result state (found.getD []) := by
  have hlength : (tree.toList.take (place.index tree.toList)).length = place.index tree.toList := by
    rw [length_take]
    omega
  obtain ⟨hrun, ⟨hposition, haggregate⟩, hstopped⟩ := hpassed
  refine ⟨hrun, ?_, haggregate⟩
  rw [sought, passed]
  cases hstopped with
  | whole all =>
    have hwhole : place.index tree.toList +
        (tree.toList.drop (place.index tree.toList)).length = tree.toList.length := by
      rw [length_drop]
      omega
    rw [all, take_append_drop] at hposition
    rw [all, hwhole, ofIndex_length, hposition]
    exact .afterLast
  | @inside entries item back more stands =>
    have hitems := stands.toList_eq
    have hplace := ofIndex_of_split (tree.toList.take (place.index tree.toList) ++
      skipped target bias (positionOf D (tree.toList.take (place.index tree.toList)))
        (tree.toList.drop (place.index tree.toList))) back item
    rw [nil_append, append_nil] at hitems
    rw [← hitems, length_append, hlength] at hplace
    rw [hplace, hposition, getD_some, stands.stack_ne_nil, ← hlength, ← length_append, hlength]
    exact .item stands

variable [SeekAggregate A T S]

theorem seekStack_ended (hcollects : Collects holds) (htree : Valid tree)
    (h : cursor.Standing tree place) (hplace : place ≠ .beforeFirst)
    (hdescending : Descending target tree.toList) {aggregate : A}
    (haggregate : holds aggregate [] []) :
    ∃ state stack, Ended holds target bias tree place (seekStack target bias false
        (if cursor.didSeek then cursor.stack
          else ⟨cursor.tree, 0, Dimension.zero S⟩ :: cursor.stack)
        ⟨cursor.position, aggregate⟩) state stack := by
  cases h with
  | unmoved =>
    rcases htree with rfl | htree
    · obtain ⟨aggregate', hrun, hholds⟩ := hcollects.endLeaf haggregate (Nat.zero_le _)
      refine ⟨⟨positionOf D ([] : List T), aggregate'⟩, [], ?_, .afterLast, hholds⟩
      simp only [Cursor.new, SumTree.new, Bool.false_eq_true, if_false, seekStack, seekLeaf,
        drop_zero, hrun, map_some, map_none]
      rfl
    · obtain ⟨state, found, hpassed⟩ := @seekStack_root T S D A _ _ _ holds target bias _ tree
        hcollects _ htree hdescending [] ⟨positionOf D ([] : List T), aggregate⟩ rfl haggregate
      exact ⟨state, _, ended_of_passed hpassed (Nat.zero_le _)⟩
  | beforeFirst => exact absurd rfl hplace
  | @item stack front back here stands =>
    have hitems := stands.items_eq
    obtain ⟨state, found, hpassed⟩ := @seekStack_stands T S D A _ _ _ holds target bias _
      tree hcollects _ (htree.shaped_of_items stands.items_eq) hdescending front back [] here stack
      stands false ⟨positionOf D front, aggregate⟩ rfl haggregate
    refine ⟨state, found.getD [], @ended_of_passed T S D _ _ _ tree (.item front.length) A holds
      target bias _ state found ?_ ?_⟩
    · rw [Place.index, hitems, take_left, drop_left]
      exact hpassed
    · rw [hitems, length_append]
      exact Nat.le_add_right _ _
  | afterLast =>
    refine ⟨⟨positionOf D tree.toList, aggregate⟩, [], rfl, ?_, ?_⟩
    · rw [sought, passed, Place.index, drop_length, skipped_nil, length_nil,
        Nat.add_zero, ofIndex_length]
      exact .afterLast
    · rw [passed, Place.index, drop_length]
      exact haggregate

/-- A seek that does not go backward ends where the target lies, with what it passed. -/
structure SeeksTo (holds : A → List T → List T → Prop) (target : SeekTarget D) (bias : Bias)
    (tree : SumTree T S) (place : Place) (result : Sought T S D A) : Prop where
  standing : result.cursor.Standing tree (place.sought target bias tree.toList)
  collected : holds result.aggregate (place.passed target bias tree.toList) []
  found : result.found = match bias with
    | .left => decide (target (endOf D tree.toList (place.sought target bias tree.toList)) = .eq)
    | .right => decide (target (positionOf D (tree.toList.take
        ((place.sought target bias tree.toList).index tree.toList))) = .eq)

theorem seekInternal_spec (hcollects : Collects holds) (htree : Valid tree)
    (h : cursor.Standing tree place) (hplace : place ≠ .beforeFirst)
    (hdescending : Descending target tree.toList)
    (hforward : target cursor.position ≠ .lt) {aggregate : A} (haggregate : holds aggregate [] []) :
    ∃ result, cursor.seekInternal target bias aggregate = some result ∧
      SeeksTo holds target bias tree place result := by
  obtain ⟨state, stack, hrun, hstanding, hcollected⟩ :=
    @seekStack_ended T S D _ _ _ tree cursor place A holds target bias _ hcollects htree h hplace
      hdescending aggregate haggregate
  have hmoved : place.sought target bias tree.toList ≠ .unmoved := ofIndex_ne_unmoved _ _
  rw [seekInternal, if_neg hforward]
  simp only [hrun]
  rw [h.tree_eq]
  cases bias with
  | left =>
    rw [hstanding.endPosition_eq htree hmoved]
    exact ⟨_, rfl, hstanding, hcollected, rfl⟩
  | right =>
    refine ⟨_, rfl, hstanding, hcollected, ?_⟩
    have hposition := hstanding.position_eq
    simp only at hposition ⊢
    rw [hposition]

end Seek

/-- A seek starts from the beginning, wherever the cursor stands. -/
theorem seek_spec {target : SeekTarget D} {bias : Bias} {cursor' : Cursor T S D} {found : Bool}
    (htree : Valid tree) (htreeEq : cursor.tree = tree)
    (hdescending : Descending target tree.toList)
    (hrun : cursor.seek target bias = some (cursor', found)) :
    cursor'.Standing tree (sought target bias tree.toList .unmoved) := by
  rw [seek, reset_eq, htreeEq, map_eq_some_iff] at hrun
  obtain ⟨result, hresult, heq⟩ := hrun
  obtain ⟨result', hresult', hseeks⟩ := @seekInternal_spec T S D _ _ _ tree (.new tree) .unmoved
    Unit (fun _ _ _ => True) target bias _ collects_unit htree .unmoved (by decide) hdescending
    (seekInternal_forward hresult) () trivial
  rw [hresult'] at hresult
  cases hresult
  cases heq
  exact hseeks.standing

end Cursor

end OpenGpui.SumTrees
