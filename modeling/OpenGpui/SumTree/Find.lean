/-
Lookups that go down a sum tree without a cursor.
-/
import OpenGpui.SumTree.CursorSeek

namespace OpenGpui.SumTrees

universe u v w

namespace SumTree

variable {T : Type u} {S : Type v} {D : Type w} [Summary S] [Dimension D S]

/-- The two ends of what a lookup came to, and the item found between them. -/
structure Lookup (α : Type u) (D : Type w) where
  start : D
  finish : D
  item : Option α

def targetIn (target : SeekTarget D) (bias : Bias) (childEnd : D) : Bool :=
  decide (target childEnd = .lt) || (decide (target childEnd = .eq) && decide (bias = .left))

variable (exact : Bool)

def entryFound (target : SeekTarget D) (bias : Bias) (childEnd : D) : Bool :=
  if exact then decide (target childEnd = .eq) else targetIn target bias childEnd

def findItem (exact : Bool) (target : SeekTarget D) (bias : Bias) :
    List T → List S → D → Option (T × D) × D
  | item :: items, itemSummary :: itemSummaries, position =>
    let childEnd := Dimension.addSummary position itemSummary
    if entryFound exact target bias childEnd then (some (item, childEnd), position)
    else findItem exact target bias items itemSummaries childEnd
  | _, _, position => (none, position)

mutual

def findIterate (exact : Bool) (target : SeekTarget D) (bias : Bias) :
    SumTree T S → D → Option (T × D) × D
  | internal _ _ childSummaries childTrees, position =>
    findChild exact target bias childTrees childSummaries position
  | leaf _ items itemSummaries, position =>
    findItem exact target bias items itemSummaries position

def findChild (exact : Bool) (target : SeekTarget D) (bias : Bias) :
    List (SumTree T S) → List S → D → Option (T × D) × D
  | childTree :: childTrees, childSummary :: childSummaries, position =>
    let childEnd := Dimension.addSummary position childSummary
    if targetIn target bias childEnd then findIterate exact target bias childTree position
    else findChild exact target bias childTrees childSummaries childEnd
  | _, _, position => (none, position)

end

def lookup (tree : SumTree T S) (target : SeekTarget D) (bias : Bias) : Lookup T D :=
  let treeEnd := Dimension.addSummary (Dimension.zero S) tree.summary
  if isPast target bias treeEnd then ⟨treeEnd, treeEnd, none⟩
  else
    match findIterate exact target bias tree (Dimension.zero S) with
    | (some (item, finish), position) => ⟨position, finish, some item⟩
    | (none, position) => ⟨position, position, none⟩

variable (tree : SumTree T S)

def find (target : SeekTarget D) (bias : Bias) : Lookup T D := tree.lookup false target bias

def findExact (target : SeekTarget D) (bias : Bias) : Lookup T D := tree.lookup true target bias

def findItemWithPrev (target : SeekTarget D) (bias : Bias) :
    List T → List S → Option T → D → Option (Option T × T × D) × D
  | item :: items, itemSummary :: itemSummaries, prev, position =>
    let childEnd := Dimension.addSummary position itemSummary
    if entryFound false target bias childEnd then (some (prev, item, childEnd), position)
    else findItemWithPrev target bias items itemSummaries (some item) childEnd
  | _, _, _, position => (none, position)

mutual

def findWithPrevIterate (target : SeekTarget D) (bias : Bias) :
    SumTree T S → Option T → D → Option (Option (Option T × T × D) × D)
  | internal _ _ childSummaries childTrees, prev, position =>
    findChildWithPrev target bias childTrees childSummaries prev position
  | leaf _ items itemSummaries, prev, position =>
    some (findItemWithPrev target bias items itemSummaries prev position)

def findChildWithPrev (target : SeekTarget D) (bias : Bias) :
    List (SumTree T S) → List S → Option T → D → Option (Option (Option T × T × D) × D)
  | childTree :: childTrees, childSummary :: childSummaries, prev, position =>
    let childEnd := Dimension.addSummary position childSummary
    if targetIn target bias childEnd then findWithPrevIterate target bias childTree prev position
    else
      match childTree.last with
      | none => none
      | some prev' => findChildWithPrev target bias childTrees childSummaries prev' childEnd
  | _, _, _, position => some (none, position)

end

def findWithPrev (target : SeekTarget D) (bias : Bias) : Option (Lookup (Option T × T) D) :=
  let treeEnd := Dimension.addSummary (Dimension.zero S) tree.summary
  if isPast target bias treeEnd then some ⟨treeEnd, treeEnd, none⟩
  else
    (findWithPrevIterate target bias tree none (Dimension.zero S)).map fun result =>
      match result with
      | (some (prev, item, finish), position) => ⟨position, finish, some (prev, item)⟩
      | (none, position) => ⟨position, position, none⟩

/-! The leaves of a tree, each with its items. -/

mutual

def leaves : SumTree T S → List (List T)
  | internal _ _ _ childTrees => leavesOfAll childTrees
  | leaf _ items _ => [items]

def leavesOfAll : List (SumTree T S) → List (List T)
  | [] => []
  | tree :: trees => tree.leaves ++ leavesOfAll trees

end

/-- The number of items in front of the leaf with the item of the index. -/
def leafStart : List (List T) → Nat → Nat
  | [], _ => 0
  | items :: rest, index =>
    if index < items.length then 0 else items.length + leafStart rest (index - items.length)

end SumTree

open SumTree List Nat

variable {T : Type u} {S : Type v} {D : Type w}

theorem targetIn_eq_not_isPast (target : SeekTarget D) (bias : Bias) (childEnd : D) :
    targetIn target bias childEnd = !isPast target bias childEnd := by
  unfold targetIn isPast
  cases target childEnd <;> cases bias <;> rfl

theorem leavesOfAll_eq_flatMap (trees : List (SumTree T S)) :
    leavesOfAll trees = trees.flatMap leaves := by
  induction trees with
  | nil => rfl
  | cons tree trees ih => rw [leavesOfAll, ih, flatMap_cons]

variable {front : List (List T)}

theorem leafStart_append_left {index : Nat}
    (hindex : index < front.flatten.length) (back : List (List T)) :
    leafStart (front ++ back) index = leafStart front index := by
  induction front generalizing index with
  | nil => exact absurd hindex (not_lt_zero _)
  | cons items front ih =>
    rw [flatten_cons, length_append] at hindex
    rw [cons_append, leafStart, leafStart]
    by_cases hin : index < items.length
    · rw [if_pos hin, if_pos hin]
    · rw [if_neg hin, if_neg hin, ih (by omega)]

theorem leafStart_append_right {index : Nat}
    (hindex : front.flatten.length ≤ index) (back : List (List T)) :
    leafStart (front ++ back) index =
      front.flatten.length + leafStart back (index - front.flatten.length) := by
  induction front generalizing index with
  | nil => simp
  | cons items front ih =>
    rw [flatten_cons, length_append] at hindex ⊢
    rw [cons_append, leafStart, if_neg (by omega), ih (by omega), Nat.sub_sub]
    omega

variable [Summary S] [Item T S] {height : Nat}

/-- The leaves hold the items in order. -/
theorem flatten_leaves {tree : SumTree T S} (htree : Shaped height tree) :
    tree.leaves.flatten = tree.toList := by
  induction htree with
  | leaf => rw [leaves, toList_leaf, flatten_singleton]
  | @internal _ _ _ childTrees _ _ _ _ _ ih =>
    rw [leaves, leavesOfAll_eq_flatMap, toList_internal]
    clear * - ih
    induction childTrees with
    | nil => rfl
    | cons child rest ihRest =>
      rw [flatMap_cons, flatMap_cons, flatten_append, ih child (by simp),
        ihRest fun other hother => ih other (mem_cons_of_mem child hother)]


variable [Dimension D S] {target : SeekTarget D} {bias : Bias}

/-- A lookup in a part of the items, which lies on the leaves, comes down to the items of one leaf:
those on the left of it are skipped, and in it the target is found. -/
structure Descends (target : SeekTarget D) (bias : Bias) (part : List T)
    (leaves : List (List T)) (find : Bool → D → Option (T × D) × D)
    (findWithPrev : Option T → D → Option (Option (Option T × T × D) × D))
    (before left items right : List T) : Prop where
  split : part = left ++ items ++ right
  passed : skipped target bias (positionOf D before) left = left
  stops : skipped target bias (positionOf D (before ++ left)) items ≠ items
  start : leafStart leaves (skipped target bias (positionOf D before) part).length = left.length
  find : ∀ exact, find exact (positionOf D before) =
    findItem exact target bias items (items.map Item.summary) (positionOf D (before ++ left))
  findWithPrev : ∀ prev, findWithPrev prev (positionOf D before) =
    some (findItemWithPrev target bias items (items.map Item.summary) (left.getLast?.or prev)
      (positionOf D (before ++ left)))

/-- Every lookup of a target that lies in the tree. -/
def DescendsIn (target : SeekTarget D) (bias : Bias) (tree : SumTree T S) : Prop :=
  ∀ {before after : List T}, Descending target (before ++ tree.toList ++ after) →
    skipped target bias (positionOf D before) tree.toList ≠ tree.toList →
      ∃ left items right, Descends target bias tree.toList tree.leaves
        (fun exact => findIterate exact target bias tree) (findWithPrevIterate target bias tree)
        before left items right

theorem findChild_descends {trees : List (SumTree T S)} :
    ∀ {before after : List T}, (∀ tree ∈ trees, Shaped height tree ∧ DescendsIn target bias tree) →
      Descending target (before ++ trees.flatMap toList ++ after) →
      skipped target bias (positionOf D before) (trees.flatMap toList) ≠ trees.flatMap toList →
        ∃ left items right, Descends target bias (trees.flatMap toList) (trees.flatMap leaves)
          (fun exact => findChild exact target bias trees (trees.map SumTree.summary))
          (findChildWithPrev target bias trees (trees.map SumTree.summary))
          before left items right := by
  induction trees with
  | nil => exact fun _ _ hmore => absurd rfl hmore
  | cons tree trees ih =>
    intro before after htrees hdescending hmore
    obtain ⟨hshaped, hin⟩ := htrees tree mem_cons_self
    have hrest := fun other hother => htrees other (mem_cons_of_mem tree hother)
    rw [flatMap_cons] at hdescending hmore ⊢
    have hitems : before ++ (tree.toList ++ trees.flatMap toList) ++ after =
        before ++ tree.toList ++ (trees.flatMap toList ++ after) := by
      simp
    have hitems' : before ++ (tree.toList ++ trees.flatMap toList) ++ after =
        before ++ tree.toList ++ trees.flatMap toList ++ after := by
      simp
    have hend := @Shaped.addSummary_positionOf T S D _ _ _ _ _ hshaped before
    by_cases hpast : isPast target bias (positionOf D (before ++ tree.toList)) = true
    · -- the whole tree is in front of the target
      have hskip := skipped_of_isPast (hitems ▸ hdescending) hpast
      have hall : skipped target bias (positionOf D before)
          (tree.toList ++ trees.flatMap toList) = tree.toList ++
            skipped target bias (positionOf D (before ++ tree.toList)) (trees.flatMap toList) := by
        rw [skipped_append_of_eq hskip, positionOf_append]
      obtain ⟨left, items, right, hdescends⟩ := ih hrest (hitems' ▸ hdescending)
        fun heq => hmore (by rw [hall, heq])
      have hposition : positionOf D (before ++ (tree.toList ++ left)) =
          positionOf D (before ++ tree.toList ++ left) := by
        rw [append_assoc]
      refine ⟨tree.toList ++ left, items, right, ?_, ?_, ?_, ?_, ?_, ?_⟩
      · rw [hdescends.split]
        simp
      · rw [skipped_append_of_eq hskip, ← positionOf_append, hdescends.passed]
      · rw [hposition]
        exact hdescends.stops
      · rw [flatMap_cons, hall, length_append,
          leafStart_append_right (by rw [flatten_leaves hshaped]; omega),
          flatten_leaves hshaped, Nat.add_sub_cancel_left, hdescends.start, length_append]
      · intro exact'
        rw [hposition, ← hdescends.find exact', map_cons, findChild, hend,
          targetIn_eq_not_isPast, hpast]
        rfl
      · intro prev
        have hlast : (tree.toList ++ left).getLast?.or prev =
            left.getLast?.or tree.toList.getLast? := by
          have hsome : tree.toList.getLast?.isSome = true :=
            getLast?_isSome.mpr hshaped.toList_ne_nil
          rw [getLast?_append, Option.or_assoc]
          congr 1
          exact Option.or_of_isSome hsome
        rw [hposition, hlast, ← hdescends.findWithPrev, map_cons, findChildWithPrev, hend,
          targetIn_eq_not_isPast, hpast, last_spec hshaped.valid]
        rfl
    · -- the target is found in this tree
      have hskip : skipped target bias (positionOf D before) tree.toList ≠ tree.toList := by
        intro heq
        rw [positionOf_append] at hpast
        exact hpast (isPast_of_skipped hshaped.toList_ne_nil heq)
      have hfirst := skipped_append_of_ne hskip (trees.flatMap toList)
      have hless : (skipped target bias (positionOf D before) tree.toList).length <
          tree.toList.length := by
        have hfront : skipped target bias (positionOf D before) tree.toList <+: tree.toList :=
          skipped_isPrefix _ _
        exact Nat.lt_of_le_of_ne hfront.length_le fun heq => hskip (hfront.eq_of_length heq)
      obtain ⟨left, items, right, hdescends⟩ := hin (hitems ▸ hdescending) hskip
      refine ⟨left, items, right ++ trees.flatMap toList, ?_, hdescends.passed, hdescends.stops,
        ?_, ?_, ?_⟩
      · rw [hdescends.split]
        simp
      · rw [flatMap_cons, hfirst,
          leafStart_append_left (by rw [flatten_leaves hshaped]; exact hless), hdescends.start]
      · intro exact'
        rw [← hdescends.find exact', map_cons, findChild, hend, targetIn_eq_not_isPast,
          Bool.eq_false_iff.mpr hpast]
        rfl
      · intro prev
        rw [← hdescends.findWithPrev, map_cons, findChildWithPrev, hend,
          targetIn_eq_not_isPast, Bool.eq_false_iff.mpr hpast]
        rfl

theorem findIterate_descends {tree : SumTree T S} (htree : Shaped height tree) :
    DescendsIn target bias tree := by
  induction htree with
  | leaf filled fits summaries total =>
    rename_i summary items itemSummaries
    intro before after hdescending hmore
    refine ⟨[], items, [], by simp, rfl, by rwa [append_nil], ?_, ?_, ?_⟩
    · have hfront : skipped target bias (positionOf D before) items <+: items :=
        skipped_isPrefix _ _
      rw [leaves, leafStart, if_pos, length_nil]
      exact lt_of_le_of_ne hfront.length_le fun heq => hmore (hfront.eq_of_length heq)
    · intro exact'
      rw [findIterate, append_nil, summaries]
    · intro prev
      rw [findWithPrevIterate, append_nil, summaries]
      rfl
  | internal filled fits children summaries total ih =>
    intro before after hdescending hmore
    rw [toList_internal] at hdescending hmore ⊢
    obtain ⟨left, items, right, hdescends⟩ := findChild_descends
      (fun child hchild => ⟨children child hchild, ih child hchild⟩) hdescending hmore
    refine ⟨left, items, right, hdescends.split, hdescends.passed, hdescends.stops, ?_, ?_, ?_⟩
    · rw [leaves, leavesOfAll_eq_flatMap]
      exact hdescends.start
    · intro exact'
      rw [← hdescends.find exact', findIterate, summaries]
    · intro prev
      rw [← hdescends.findWithPrev, findWithPrevIterate, summaries]

end OpenGpui.SumTrees
