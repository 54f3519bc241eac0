/-
Lookups against cursors and against lookups in trees of another shape.  An exact lookup
with the right bias reads one leaf only, so the ends of leaves decide what it finds.
-/
import OpenGpui.SumTree.Build
import OpenGpui.SumTree.Find
import Mathlib.Algebra.Group.Nat.Defs
import Mathlib.Data.Nat.Basic

namespace OpenGpui.SumTrees

open Dimension Option Nat Place

universe u v w

open SumTree

variable {T : Type u} {S : Type v} {D : Type w} [Summary S] [Item T S] [Dimension D S]
variable {target : SeekTarget D} {bias : Bias}

/-! One leaf. -/

variable {position : D} {front back : List T} {item : T}

section

variable (hskip : skipped target bias position (front ++ item :: back) = front)

include hskip

theorem findItem_skipped :
    findItem false target bias (front ++ item :: back)
        ((front ++ item :: back).map Item.summary) position =
      (some (item, advance position (front ++ [item])), advance position front) := by
  induction front generalizing position with
  | nil =>
    have hstops := skipped_stops hskip rfl
    rw [List.nil_append, List.map_cons, findItem]
    simp only [entryFound, targetIn_eq_not_isPast, Bool.false_eq_true, if_false]
    rw [if_pos]
    · rfl
    · exact Bool.not_eq_true' _ |>.mpr hstops
  | cons first front ih =>
    rw [List.cons_append, skipped] at hskip
    split at hskip
    · rename_i hpast
      rw [List.cons_append, List.map_cons, findItem]
      simp only [entryFound, targetIn_eq_not_isPast, hpast, Bool.false_eq_true, if_false,
        Bool.not_true]
      exact ih (List.cons_eq_cons.mp hskip).2
    · exact absurd hskip (by simp)

theorem findItemWithPrev_skipped {prev : Option T} :
    findItemWithPrev target bias (front ++ item :: back)
        ((front ++ item :: back).map Item.summary) prev position =
      (some (front.getLast?.or prev, item, advance position (front ++ [item])),
        advance position front) := by
  induction front generalizing position prev with
  | nil =>
    have hstops := skipped_stops hskip rfl
    rw [List.nil_append, List.map_cons, findItemWithPrev]
    simp only [entryFound, targetIn_eq_not_isPast, Bool.false_eq_true, if_false]
    rw [if_pos]
    · rfl
    · exact Bool.not_eq_true' _ |>.mpr hstops
  | cons first front ih =>
    rw [List.cons_append, skipped] at hskip
    split at hskip
    · rename_i hpast
      have hlast : (first :: front).getLast?.or prev = front.getLast?.or (some first) := by
        rw [List.getLast?_cons]
        cases front.getLast? <;> rfl
      rw [List.cons_append, List.map_cons, findItemWithPrev]
      simp only [entryFound, targetIn_eq_not_isPast, hpast, Bool.false_eq_true, if_false,
        Bool.not_true]
      rw [hlast]
      exact ih (List.cons_eq_cons.mp hskip).2
    · exact absurd hskip (by simp)

end

/-- The items that end exactly at the target. -/
def endingAt (target : SeekTarget D) : D → List T → List T
  | _, [] => []
  | position, item :: items =>
    let itemEnd := addSummary position (Item.summary item)
    if target itemEnd = .eq then item :: endingAt target itemEnd items
    else endingAt target itemEnd items

theorem findItem_exact (position : D) (items : List T) :
    (findItem true target bias items (items.map Item.summary) position).1.map Prod.fst =
      (endingAt target position items).head? := by
  induction items generalizing position with
  | nil => rfl
  | cons item items ih =>
    rw [List.map_cons, findItem, endingAt]
    by_cases hexact :
        target (addSummary position (Item.summary item)) = .eq
    · simp [entryFound, hexact]
    · simp only [entryFound, hexact, decide_false, if_true, Bool.false_eq_true, if_false]
      exact ih _

theorem endingAt_append (position : D) (front back : List T) :
    endingAt target position (front ++ back) =
      endingAt target position front ++ endingAt target (advance position front) back := by
  induction front generalizing position with
  | nil => rfl
  | cons item front ih =>
    rw [List.cons_append, endingAt, endingAt, ih]
    by_cases hexact :
        target (addSummary position (Item.summary item)) = .eq
    · simp only [hexact, if_true, List.cons_append]
      rfl
    · simp only [hexact, if_false]
      rfl

theorem endingAt_length_le (position : D) (items : List T) :
    (endingAt target position items).length ≤ items.length := by
  induction items generalizing position with
  | nil => exact le_refl _
  | cons item items ih =>
    have hrest := ih (addSummary position (Item.summary item))
    rw [endingAt]
    simp only [List.length_cons]
    split
    · rw [List.length_cons]
      omega
    · omega

variable {before part : List T} {after : List T}

/-- Behind a position the target lies before, no item ends at it. -/
theorem endingAt_behind
    (h : Descending target (before ++ part ++ after)) (hless : target (positionOf D before) = .lt) :
    endingAt target (positionOf D before) part = [] := by
  induction part generalizing before with
  | nil => rfl
  | cons item part ih =>
    have hsplit : before ++ item :: part ++ after = before ++ [item] ++ (part ++ after) := by simp
    have hsplit' : before ++ item :: part ++ after = before ++ [item] ++ part ++ after := by simp
    have hend := (h before [item] (part ++ after) hsplit).1 hless
    rw [endingAt, ← positionOf_append_singleton]
    simp only [hend, reduceCtorEq, if_false]
    exact ih (hsplit' ▸ h) hend

/-- With the left bias the target lies strictly beyond what is skipped. -/
theorem endingAt_skipped_left (hfront : skipped target .left position front = front) :
    endingAt target position front = [] := by
  induction front generalizing position with
  | nil => rfl
  | cons item front ih =>
    rw [skipped] at hfront
    split at hfront
    · rename_i hpast
      have hgreater : target (addSummary position (Item.summary item)) = .gt := by
        rcases isPast_iff.mp hpast with hgt | ⟨_, hbias⟩
        · exact hgt
        · exact absurd hbias (by decide)
      rw [endingAt]
      simp only [hgreater, reduceCtorEq, if_false]
      exact ih (List.cons_eq_cons.mp hfront).2
    · exact absurd hfront (by simp)

/-- After an item that ends at the target no position lies in front of it. -/
theorem not_gt_of_endingAt (h : Descending target (before ++ part ++ after))
    (hsome : endingAt target (positionOf D before) part ≠ []) :
    target (positionOf D (before ++ part)) ≠ .gt := by
  induction part generalizing before with
  | nil => exact absurd rfl hsome
  | cons item part ih =>
    have hsplit : before ++ item :: part = before ++ [item] ++ part := by simp
    rw [hsplit] at h ⊢
    rw [endingAt, ← positionOf_append_singleton] at hsome
    by_cases hexact : target (positionOf D (before ++ [item])) = .eq
    · intro hgreater
      have hfirst := (h (before ++ [item]) part after rfl).2 hgreater
      rw [hexact] at hfirst
      exact absurd hfirst (by decide)
    · simp only [hexact, if_false] at hsome
      exact ih h hsome

/-- From there on, what is skipped with the right bias ends at the target. -/
theorem endingAt_skipped_right
    (h : Descending target (before ++ part ++ after)) (hbefore : target (positionOf D before) ≠ .gt)
    (hpart : skipped target .right (positionOf D before) part = part) :
    endingAt target (positionOf D before) part = part := by
  induction part generalizing before with
  | nil => rfl
  | cons item part ih =>
    have hsplit : before ++ item :: part ++ after = before ++ [item] ++ part ++ after := by simp
    have hsplit' : before ++ item :: part ++ after = before ++ [item] ++ (part ++ after) := by
      simp
    rw [skipped] at hpart
    split at hpart
    · rename_i hpast
      rw [← positionOf_append_singleton] at hpast hpart
      have hexact : target (positionOf D (before ++ [item])) = .eq := by
        rcases isPast_iff.mp hpast with hgt | ⟨heq, _⟩
        · exact absurd ((h before [item] (part ++ after) hsplit').2 hgt) hbefore
        · exact heq
      have hrest := ih (hsplit ▸ h) (by rw [hexact]; decide) (List.cons_eq_cons.mp hpart).2
      rw [endingAt, ← positionOf_append_singleton]
      simp only [hexact, if_true]
      rw [hrest]
    · exact absurd hpart (by simp)

/-- The items that end at the target, of the skipped ones from an index on: the run of them all
without its first ones. -/
theorem endingAt_suffix {left right after : List T} (h : Descending target (left ++ right ++ after))
    (hright : skipped target .right (positionOf D left) right = right) :
    endingAt target (positionOf D left) right =
      (endingAt target (zero S) (left ++ right)).drop
        (left.length - ((left ++ right).length -
          (endingAt target (zero S) (left ++ right)).length)) := by
  have hrun : endingAt target (zero S) (left ++ right) =
      endingAt target (zero S) left ++ endingAt target (positionOf D left) right :=
    endingAt_append _ _ _
  have hleft := @endingAt_length_le T S D _ _ _ target (zero S) left
  have hle := @endingAt_length_le T S D _ _ _ target (positionOf D left) right
  by_cases hnone : endingAt target (zero S) left = []
  · rw [hrun, hnone, List.nil_append, List.length_append]
    have hzero : left.length - (left.length + right.length -
        (endingAt target (positionOf D left) right).length) = 0 := by
      omega
    rw [hzero, List.drop_zero]
  · -- the run began on the left: all of the right belongs to it
    have hbefore : target (positionOf D ([] ++ left)) ≠ .gt :=
      not_gt_of_endingAt (by rwa [← List.append_assoc]) hnone
    have hall := endingAt_skipped_right h hbefore hright
    rw [hall] at hrun
    rw [hall, hrun, List.length_append, List.length_append]
    have hcount : left.length - (left.length + right.length - ((endingAt target (zero S)
        left).length + right.length)) = (endingAt target (zero S) left).length := by
      omega
    rw [hcount, List.drop_left]

/-! The whole tree. -/

variable {tree : SumTree T S}

/-- Nothing is found when the target lies beyond every item. -/
theorem lookup_none (htree : Valid tree)
    (hall : skipped target bias (zero S) tree.toList = tree.toList) :
    tree.find target bias = ⟨positionOf D tree.toList, positionOf D tree.toList, none⟩ ∧
      tree.findWithPrev target bias =
        some ⟨positionOf D tree.toList, positionOf D tree.toList, none⟩ ∧
      (tree.findExact target bias).item = none := by
  have hend : addSummary (zero S) tree.summary = positionOf D tree.toList := by
    rw [htree.summary_eq, addSummary_zero_sum]
  have hcases : isPast target bias (positionOf D tree.toList) = true ∨ tree = .new := by
    cases hempty : tree.isEmpty with
    | true => exact .inr (htree.eq_new hempty)
    | false => exact .inl (isPast_of_skipped (htree.shaped hempty).toList_ne_nil hall)
  rw [find, findExact, findWithPrev, lookup, lookup]
  simp only [hend]
  rcases hcases with hpast | rfl
  · simp only [hpast, if_true, and_self]
  · simp only [SumTree.new, findIterate, findWithPrevIterate, findItem, findItemWithPrev, map_some]
    split <;> exact ⟨rfl, rfl, rfl⟩

/-- The items of the run that ends at the target without those in earlier leaves than the first
item beyond the target. -/
def exactRun (target : SeekTarget D) (tree : SumTree T S) : List T :=
  let front := skipped target .right (zero S) tree.toList
  let run := endingAt target (zero S) front
  run.drop (leafStart tree.leaves front.length - (front.length - run.length))

theorem skipped_front (hskip : skipped target bias position (front ++ back) = front) :
    skipped target bias position front = front := by
  by_contra hne
  exact hne ((skipped_append_of_ne hne back).symm.trans hskip)

/-- The leaf of a lookup holds the first item that is not skipped. -/
theorem leaf_of_skipped {left items right : List T}
    (hleft : skipped target bias (zero S) left = left)
    (hstops : skipped target bias (positionOf D left) items ≠ items)
    (hskip : skipped target bias (zero S) (left ++ items ++ right) = front)
    (hitems : left ++ items ++ right = front ++ item :: back) :
    ∃ middle leafBack, items = middle ++ item :: leafBack ∧ front = left ++ middle ∧
      skipped target bias (positionOf D left) items = middle := by
  obtain ⟨rest, hrest⟩ := skipped_isPrefix (positionOf D left) items
  generalize hmiddle : skipped target bias (positionOf D left) items = middle at *
  obtain ⟨item', leafBack, rfl⟩ : ∃ item' leafBack, rest = item' :: leafBack := by
    refine List.exists_cons_of_ne_nil fun hnil => hstops ?_
    rw [← hrest, hnil, List.append_nil]
  have hfront : front = left ++ middle := by
    rw [← hskip, List.append_assoc, skipped_append_of_eq hleft]
    have hposition : advance (zero S) left = positionOf D left := rfl
    rw [hposition, skipped_append_of_ne (by rwa [hmiddle]), hmiddle]
  rw [← hrest, hfront] at hitems
  have hcons : item' :: (leafBack ++ right) = item :: back := by
    simpa using hitems
  obtain ⟨rfl, _⟩ := List.cons_eq_cons.mp hcons
  exact ⟨middle, leafBack, hrest.symm, hfront, rfl⟩

theorem lookup_some (htree : Valid tree) (hdescending : Descending target tree.toList)
    (hskip : skipped target bias (zero S) tree.toList = front)
    (hitems : tree.toList = front ++ item :: back) :
    tree.find target bias = ⟨positionOf D front, positionOf D (front ++ [item]), some item⟩ ∧
      tree.findWithPrev target bias = some ⟨positionOf D front, positionOf D (front ++ [item]),
          some (front.getLast?, item)⟩ ∧
      (tree.findExact target bias).item = match bias with
        | .left => if target (positionOf D (front ++ [item])) = .eq then some item else none
        | .right => (exactRun target tree).head? := by
  have hshaped := htree.shaped_of_items hitems
  have hmore : skipped target bias (zero S) tree.toList ≠ tree.toList := by
    rw [hskip, hitems]
    simp
  have hend : addSummary (zero S) tree.summary = positionOf D tree.toList := by
    rw [htree.summary_eq, addSummary_zero_sum]
  have hin : isPast target bias (positionOf D tree.toList) = false := by
    refine Bool.eq_false_iff.mpr fun hpast => hmore ?_
    exact @skipped_of_isPast T S D _ _ _ target bias [] tree.toList [] (by simpa using hdescending)
      hpast
  obtain ⟨left, items, right, hdescends⟩ := @findIterate_descends T S D _ _ _ _ target bias tree
    hshaped [] [] (by simpa using hdescending) hmore
  have hstops := hdescends.stops
  have hsplit := hdescends.split
  have hstart := hdescends.start
  have hfind := hdescends.find
  have hprev := hdescends.findWithPrev none
  rw [hsplit] at hskip hitems
  simp only [List.nil_append] at hstops hfind hprev
  obtain ⟨middle, leafBack, rfl, rfl, hmiddle⟩ :=
    leaf_of_skipped hdescends.passed hstops hskip hitems
  have hposition : advance (positionOf D left) middle = positionOf D (left ++ middle) :=
    (positionOf_append _ _).symm
  have hitemEnd : advance (positionOf D left) (middle ++ [item]) =
      positionOf D (left ++ middle ++ [item]) := by
    rw [List.append_assoc, positionOf_append _ (middle ++ [item])]
  have hzero : positionOf D ([] : List T) = zero S := rfl
  rw [hzero] at hfind hprev
  refine ⟨?_, ?_, ?_⟩
  · rw [find, lookup]
    simp only [hend, hin, Bool.false_eq_true, if_false, hfind]
    rw [findItem_skipped hmiddle, hposition, hitemEnd]
  · rw [findWithPrev]
    simp only [hend, hin, Bool.false_eq_true, if_false, hprev, map_some]
    rw [findItemWithPrev_skipped hmiddle, hposition, hitemEnd, List.getLast?_append]
    cases middle.getLast? <;> cases left.getLast? <;> rfl
  · have hexact : (tree.findExact target bias).item =
        (endingAt target (positionOf D left) (middle ++ item :: leafBack)).head? := by
      have hleaf := @findItem_exact T S D _ _ _ target bias (positionOf D left)
        (middle ++ item :: leafBack)
      rw [← hleaf, findExact, lookup]
      simp only [hend, hin, Bool.false_eq_true, if_false, hfind]
      rcases findItem true target bias (middle ++ item :: leafBack)
        ((middle ++ item :: leafBack).map Item.summary) (positionOf D left) with
        ⟨_ | ⟨found, finish⟩, position⟩ <;> rfl
    have hitemEnd' : addSummary (positionOf D (left ++ middle)) (Item.summary item) =
        positionOf D (left ++ middle ++ [item]) := (positionOf_append_singleton _ _).symm
    have hnotPast := skipped_stops hmiddle rfl
    rw [hitemEnd] at hnotPast
    rw [hsplit] at hdescending
    have hbehind : target (positionOf D (left ++ middle ++ [item])) = .lt →
        endingAt target (positionOf D (left ++ middle ++ [item])) leafBack = [] := by
      refine @endingAt_behind T S D _ _ _ target _ _ right ?_
      have hall : left ++ middle ++ [item] ++ leafBack ++ right =
          left ++ (middle ++ item :: leafBack) ++ right := by simp
      rwa [hall]
    rw [hexact, endingAt_append, hposition, endingAt, hitemEnd']
    cases bias with
    | left =>
      rw [endingAt_skipped_left (skipped_front hmiddle), List.nil_append]
      cases hend : target (positionOf D (left ++ middle ++ [item])) with
      | lt =>
        simp only [reduceCtorEq, if_false]
        rw [hbehind hend, List.head?_nil]
      | eq => simp only [if_true, List.head?_cons]
      | gt =>
        have hpast : isPast target .left (positionOf D (left ++ middle ++ [item])) = true :=
          isPast_iff.mpr (.inl hend)
        rw [hpast] at hnotPast
        exact absurd hnotPast (by decide)
    | right =>
      have hless : target (positionOf D (left ++ middle ++ [item])) = .lt := by
        cases hend : target (positionOf D (left ++ middle ++ [item])) with
        | lt => rfl
        | eq =>
          rw [isPast_iff.mpr (.inr ⟨hend, rfl⟩)] at hnotPast
          exact absurd hnotPast (by decide)
        | gt =>
          rw [isPast_iff.mpr (.inl hend)] at hnotPast
          exact absurd hnotPast (by decide)
      have hfront : skipped target .right (zero S) tree.toList = left ++ middle := by
        rw [hsplit]
        exact hskip
      have hsuffix := @endingAt_suffix T S D _ _ _ target left middle
        (item :: leafBack ++ right) (by simpa using hdescending) (skipped_front hmiddle)
      rw [hzero, hfront] at hstart
      simp only [hless, reduceCtorEq, if_false]
      rw [hbehind hless, List.append_nil, hsuffix, exactRun]
      simp only [hfront, hstart]

/-- What is asked of the lookups of a target: they agree with a cursor that seeks it, and with the
lookups in another tree of the same items. -/
structure LookupsAgree (target : SeekTarget D) (bias : Bias) (tree other : SumTree T S) :
    Prop where
  seek : ∀ cursor found, (Cursor.new tree : Cursor T S D).seek target bias = some (cursor, found) →
    cursor.item = some (tree.find target bias).item ∧
      cursor.position = (tree.find target bias).start
  prev : ∃ result, tree.findWithPrev target bias = some result ∧
    result.item.map Prod.snd = (tree.find target bias).item ∧
    result.start = (tree.find target bias).start ∧
    ∀ cursor found, (Cursor.new tree : Cursor T S D).seek target bias = some (cursor, found) →
      ∀ prev item, result.item = some (prev, item) → cursor.prevItem = some prev
  exact : bias = .left → (tree.findExact target bias).item =
    if target (tree.find target bias).finish = .eq then (tree.find target bias).item else none
  find_shape : (tree.find target bias).item = (other.find target bias).item
  prev_shape : (tree.findWithPrev target bias).map Lookup.item =
    (other.findWithPrev target bias).map Lookup.item
  exact_shape : (tree.findExact target bias).item = (other.findExact target bias).item

variable {other : SumTree T S}

/-- A target that lies beyond every item is found in neither tree. -/
theorem LookupsAgree.beyond (htree : Valid tree) (hother : Valid other)
    (hdescending : Descending target tree.toList) (hitems : tree.toList = other.toList)
    (hall : skipped target bias (zero S) tree.toList = tree.toList) :
    LookupsAgree target bias tree other := by
  obtain ⟨hfind, hprev, hexact⟩ := lookup_none htree hall
  obtain ⟨hfind', hprev', hexact'⟩ := lookup_none hother (hitems ▸ hall)
  have hplace : sought target bias tree.toList .unmoved = .afterLast := by
    have hzero : positionOf D (tree.toList.take 0) = zero S := rfl
    rw [sought, passed, index, hzero, List.drop_zero, hall, zero_add, ofIndex_length]
  have hstanding : ∀ cursor found, (Cursor.new tree : Cursor T S D).seek target bias = some (cursor,
      found) → cursor.Standing tree .afterLast := by
    intro cursor found hrun
    exact hplace ▸ Cursor.seek_spec htree rfl hdescending hrun
  refine ⟨?_, ⟨_, hprev, by rw [hfind]; rfl, by rw [hfind], ?_⟩, ?_, ?_, ?_, ?_⟩
  · intro cursor found hrun
    have hstands := hstanding cursor found hrun
    rw [hfind, hstands.item_eq (by decide), hstands.position_eq, index, List.take_length]
    exact ⟨rfl, rfl⟩
  · intro cursor found _ prev item hsome
    exact absurd hsome (by simp)
  · intro _
    rw [hexact, hfind]
    split <;> rfl
  · rw [hfind, hfind']
  · rw [hprev, hprev']
    rfl
  · rw [hexact, hexact']

theorem LookupsAgree.iff_exact (htree : Valid tree)
    (hother : Valid other) (hdescending : Descending target tree.toList)
    (hitems : tree.toList = other.toList)
    (hskip : skipped target bias (zero S) tree.toList = front)
    (hsplit : tree.toList = front ++ item :: back) :
    LookupsAgree target bias tree other ↔
      (bias = .left ∨ (exactRun target tree).head? = (exactRun target other).head?) := by
  obtain ⟨hfind, hprev, hexact⟩ := lookup_some htree hdescending hskip hsplit
  obtain ⟨hfind', hprev', hexact'⟩ :=
    lookup_some hother (hitems ▸ hdescending) (hitems ▸ hskip) (hitems ▸ hsplit)
  have hplace : sought target bias tree.toList .unmoved = .item front.length := by
    have hzero : positionOf D (tree.toList.take 0) = zero S := rfl
    rw [sought, passed, index, hzero, List.drop_zero, hskip, zero_add, hsplit, ofIndex_of_split]
  have hstanding : ∀ cursor found, (Cursor.new tree : Cursor T S D).seek target bias = some (cursor,
      found) → cursor.Standing tree (.item front.length) := by
    intro cursor found hrun
    exact hplace ▸ Cursor.seek_spec htree rfl hdescending hrun
  constructor
  · intro hagree
    cases bias with
    | left => exact .inl rfl
    | right =>
      have hshape := hagree.exact_shape
      rw [hexact, hexact'] at hshape
      exact .inr hshape
  · intro hcondition
    refine ⟨?_, ⟨_, hprev, by rw [hfind]; rfl, by rw [hfind], ?_⟩, ?_, ?_, ?_, ?_⟩
    · intro cursor found hrun
      have hstands := hstanding cursor found hrun
      rw [hfind, hstands.item_eq (by simp), hstands.position_eq, itemAt, index, hsplit]
      simp
    · rintro cursor found hrun prev item' ⟨⟩
      rw [(hstanding cursor found hrun).prevItem_eq htree (by simp), prevItem, hsplit]
      rcases List.eq_nil_or_concat front with rfl | ⟨init, last, rfl⟩
      · rfl
      · simp
    · rintro rfl
      rw [hexact, hfind]
    · rw [hfind, hfind']
    · rw [hprev, hprev']
    · rw [hexact, hexact']
      rcases hcondition with rfl | hruns
      · rfl
      · cases bias with
        | left => rfl
        | right => exact hruns

/-- The lookups agree with a cursor and whatever the shape of the tree, unless an exact lookup with
the right bias finds the run of items that end at the target cut by the end of a leaf. -/
theorem lookups_agree_iff {tree other : SumTree T S} (htree : Valid tree) (hother : Valid other)
    (hitems : tree.toList = other.toList) (hdescending : Descending target tree.toList) :
    LookupsAgree target bias tree other ↔ (bias = .left ∨
        skipped target .right (zero S) tree.toList = tree.toList ∨
        (exactRun target tree).head? = (exactRun target other).head?) := by
  obtain ⟨rest, hrest⟩ := @skipped_isPrefix T S D _ _ _ target bias (zero S) tree.toList
  cases rest with
  | nil =>
    rw [List.append_nil] at hrest
    refine iff_of_true (.beyond htree hother hdescending hitems hrest) ?_
    cases bias with
    | left => exact .inl rfl
    | right => exact .inr (.inl hrest)
  | cons item back =>
    rw [LookupsAgree.iff_exact htree hother hdescending hitems rfl hrest.symm]
    cases bias with
    | left => exact iff_of_true (.inl rfl) (.inl rfl)
    | right =>
      have hmore : skipped target .right (zero S) tree.toList ≠ tree.toList := by
        intro heq
        rw [heq] at hrest
        exact absurd hrest (by simp)
      constructor
      · rintro (hleft | hruns)
        · exact .inl hleft
        · exact .inr (.inr hruns)
      · rintro (hleft | hall | hruns)
        · exact .inl hleft
        · exact absurd hall hmore
        · exact .inr hruns

/-- Items that count one each. -/
local instance countedItem : Item Nat Nat := ⟨fun _ => 1⟩

theorem advance_counted (position : Nat) (items : List Nat) :
    advance position items = position + items.length := by
  induction items generalizing position with
  | nil => rfl
  | cons item items ih =>
    have hone : addSummary position (Item.summary item) = position + 1 := rfl
    rw [advance_cons, ih, List.length_cons]
    omega

theorem descending_counted (key : Nat) (items : List Nat) : Descending (compare key) items := by
  refine .of_monotone (fun front middle _ _ => ?_) key
  rw [positionOf_append, advance_counted]
  exact le_add_right _ _

/-- The item that ends at 12 is the last of a leaf in one tree of thirteen items, and inside a leaf
in another: the exact lookup with the right bias finds it only there. -/
theorem exact_lookup_cut_by_leaf :
    ∃ tree other : SumTree Nat Nat, (Construction.fromIter (List.range 13)).build = some tree ∧
      (Construction.push (.fromIter (List.range 12)) 12).build = some other ∧
      tree.toList = other.toList ∧
      (tree.findExact (compare 12) .right).item = none ∧
      (other.findExact (compare 12) .right).item = some 11 :=
  ⟨_, _, rfl, rfl, rfl, by decide +kernel, by decide +kernel⟩

/-- In the same two trees the lookups with the left bias agree. -/
theorem left_lookups_agree : ∃ tree other : SumTree Nat Nat, fromIter (List.range 13) = some tree ∧
      ((fromIter (List.range 12) : Option (SumTree Nat Nat)).bind fun tree => tree.push 12) =
        some other ∧
      LookupsAgree (compare 12) .left tree other := by
  obtain ⟨tree, htree, hvalid, hitems⟩ := fromIter_spec (S := Nat) (List.range 13)
  obtain ⟨most, hmost, hvalidMost, hitemsMost⟩ := fromIter_spec (S := Nat) (List.range 12)
  obtain ⟨other, hother, hvalidOther, hitemsOther⟩ := push_spec hvalidMost 12
  refine ⟨tree, other, htree, by rw [hmost]; exact hother, ?_⟩
  have hsame : tree.toList = other.toList := by
    rw [hitems, hitemsOther, hitemsMost]
    rfl
  exact (lookups_agree_iff hvalid hvalidOther hsame (descending_counted 12 _)).mpr (Or.inl rfl)

end OpenGpui.SumTrees
