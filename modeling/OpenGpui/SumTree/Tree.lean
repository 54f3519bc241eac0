/-
The sum tree: nodes with the summaries of their entries, the operations that build one, and
its shape: all leaves at one depth, every node filled within its capacity, and every stored
summary the sum of what is below it.  A panic of the source is `none`.
-/
import OpenGpui.SumTree.Summary

namespace OpenGpui.SumTrees

open List

universe u v

def treeBase : Nat := 6

inductive SumTree (T : Type u) (S : Type v) where
  | internal (height : Nat) (summary : S) (childSummaries : List S)
      (childTrees : List (SumTree T S))
  | leaf (summary : S) (items : List T) (itemSummaries : List S)

namespace SumTree

variable {T : Type u} {S : Type v}

def isLeaf : SumTree T S → Bool
  | internal .. => false
  | leaf .. => true

def height : SumTree T S → Nat
  | internal height _ _ _ => height
  | leaf .. => 0

def summary : SumTree T S → S
  | internal _ summary _ _ => summary
  | leaf summary _ _ => summary

/-- The summaries of the entries of a node: children, or items at a leaf. -/
def childSummaries : SumTree T S → List S
  | internal _ _ childSummaries _ => childSummaries
  | leaf _ _ itemSummaries => itemSummaries

def childTrees : SumTree T S → Option (List (SumTree T S))
  | internal _ _ _ childTrees => some childTrees
  | leaf .. => none

def leafItems : SumTree T S → Option (List T)
  | internal .. => none
  | leaf _ items _ => some items

def isUnderflowing : SumTree T S → Bool
  | internal _ _ _ childTrees => decide (childTrees.length < treeBase)
  | leaf _ items _ => decide (items.length < treeBase)

def isEmpty : SumTree T S → Bool
  | internal .. => false
  | leaf _ items _ => items.isEmpty

/-! The items of a tree in order, which is what the tree stands for. -/

mutual

def toList : SumTree T S → List T
  | internal _ _ _ childTrees => toListAll childTrees
  | leaf _ items _ => items

def toListAll : List (SumTree T S) → List T
  | [] => []
  | tree :: trees => tree.toList ++ toListAll trees

end

theorem toListAll_eq_flatMap (trees : List (SumTree T S)) :
    toListAll trees = trees.flatMap toList := by
  induction trees with
  | nil => rfl
  | cons tree trees ih => rw [toListAll, ih, flatMap_cons]

@[simp] theorem toList_internal (height : Nat) (summary : S) (childSummaries : List S)
    (childTrees : List (SumTree T S)) :
    (internal height summary childSummaries childTrees).toList = childTrees.flatMap toList := by
  rw [toList, toListAll_eq_flatMap]

@[simp] theorem toList_leaf (summary : S) (items : List T) (itemSummaries : List S) :
    (leaf summary items itemSummaries).toList = items := by
  rw [toList]

variable [Summary S] [Item T S]

protected def new : SumTree T S := leaf 0 [] []

section FromIter

/-- Runs of `2 * treeBase` entries in order, the last of them shorter; `current` is the run
being filled. -/
def chunks {α : Type u} : List α → List α → List (List α)
  | current, [] => if current.isEmpty then [] else [current]
  | current, entry :: entries =>
    if current.length + 1 = 2 * treeBase then
      (current ++ [entry]) :: chunks [] entries
    else
      chunks (current ++ [entry]) entries

variable (items : List T)

/-- A leaf of a run of items; its summary starts with the first item's own. -/
def leafOf : SumTree T S :=
  let itemSummaries := items.map Item.summary
  match itemSummaries with
  | [] => .new
  | first :: rest => leaf (rest.foldl (· + ·) first) items itemSummaries

def parentOf (height : Nat) (childTrees : List (SumTree T S)) : SumTree T S :=
  internal height (sum (childTrees.map summary)) (childTrees.map summary) childTrees

/-- Levels of parents until one node is left. -/
def buildLevels : Nat → Nat → List (SumTree T S) → Option (SumTree T S)
  | _, _, [] => some .new
  | _, _, [tree] => some tree
  | 0, _, _ :: _ :: _ => none
  | fuel + 1, height, first :: second :: rest =>
    buildLevels fuel (height + 1)
      ((chunks [] (first :: second :: rest)).map (parentOf (height + 1)))

def fromIter : Option (SumTree T S) :=
  let nodes := (chunks [] items).map leafOf
  buildLevels nodes.length 0 nodes

end FromIter

section Update

/-- A node with its last item changed, and the node's summary when it has an item. -/
structure Updated (T : Type u) (S : Type v) where
  tree : SumTree T S
  summary : Option S

def setLast {α : Type u} (list : List α) (last : α) : List α := list.dropLast ++ [last]

mutual

def updateLastRecursive (f : T → T) : SumTree T S → Option (Updated T S)
  | internal height _ childSummaries childTrees =>
    match updateLastChild f childTrees with
    | none => none
    | some (childTrees', lastSummary) =>
      if childSummaries.isEmpty then none
      else
        let childSummaries' := setLast childSummaries lastSummary
        let summary := sum childSummaries'
        some ⟨internal height summary childSummaries' childTrees', some summary⟩
  | leaf summary items itemSummaries =>
    match items.getLast?, itemSummaries.getLast? with
    | some item, some _ =>
      let items' := setLast items (f item)
      let itemSummaries' := setLast itemSummaries (Item.summary (f item))
      let summary' := sum itemSummaries'
      some ⟨leaf summary' items' itemSummaries', some summary'⟩
    | _, _ => some ⟨leaf summary items itemSummaries, none⟩

/-- The last child is changed; without a child, or when it has no summary, the source panics. -/
def updateLastChild (f : T → T) : List (SumTree T S) → Option (List (SumTree T S) × S)
  | [] => none
  | [child] =>
    match updateLastRecursive f child with
    | some ⟨child', some summary⟩ => some ([child'], summary)
    | _ => none
  | child :: next :: rest =>
    match updateLastChild f (next :: rest) with
    | none => none
    | some (rest', summary) => some (child :: rest', summary)

end

variable (f : T → T)

def updateLast (tree : SumTree T S) : Option (SumTree T S) :=
  (tree.updateLastRecursive f).map Updated.tree

def updateFirstRecursive (f : T → T) : SumTree T S → Option (Updated T S)
  | internal height _ (_ :: restSummaries) (firstChild :: restTrees) =>
    match updateFirstRecursive f firstChild with
    | some ⟨firstChild', some firstSummary⟩ =>
      let summary := sum (firstSummary :: restSummaries)
      some ⟨internal height summary (firstSummary :: restSummaries) (firstChild' :: restTrees),
        some summary⟩
    | _ => none
  | internal _ _ _ _ => none
  | leaf _ (item :: items) (_ :: itemSummaries) =>
    let itemSummaries' := Item.summary (f item) :: itemSummaries
    let summary' := sum itemSummaries'
    some ⟨leaf summary' (f item :: items) itemSummaries', some summary'⟩
  | leaf summary items itemSummaries => some ⟨leaf summary items itemSummaries, none⟩

def updateFirst (tree : SumTree T S) : Option (SumTree T S) :=
  (tree.updateFirstRecursive f).map Updated.tree

end Update

/-- A node after an insertion at its right end, and the node split off it to the right. -/
structure Pushed (T : Type u) (S : Type v) where
  tree : SumTree T S
  split : Option (SumTree T S)

/-- Where entries are split in two, the left part the larger. -/
def midpoint (count : Nat) : Nat := (count + count % 2) / 2

variable (height : Nat)

/-- An internal node with more entries at its right end; `summary` counts them already. -/
def pushChildren (summary : S) (childSummaries : List S)
    (childTrees : List (SumTree T S)) (summariesToAppend : List S)
    (treesToAppend : List (SumTree T S)) : Pushed T S :=
  let childCount := childTrees.length + treesToAppend.length
  let allSummaries := childSummaries ++ summariesToAppend
  let allTrees := childTrees ++ treesToAppend
  if childCount > 2 * treeBase then
    let mid := midpoint childCount
    ⟨internal height (sum (allSummaries.take mid)) (allSummaries.take mid) (allTrees.take mid),
      some (internal height (sum (allSummaries.drop mid)) (allSummaries.drop mid)
        (allTrees.drop mid))⟩
  else
    ⟨internal height summary allSummaries allTrees, none⟩

/-- A leaf with the items of another one at its right end. -/
def pushItems (summary : S) (items : List T) (itemSummaries : List S) (otherSummary : S)
    (otherItems : List T) (otherSummaries : List S) : Pushed T S :=
  let childCount := items.length + otherItems.length
  let allItems := items ++ otherItems
  let allSummaries := itemSummaries ++ otherSummaries
  if childCount > 2 * treeBase then
    let mid := midpoint childCount
    ⟨leaf (sum (allSummaries.take mid)) (allItems.take mid) (allSummaries.take mid),
      some (leaf (sum (allSummaries.drop mid)) (allItems.drop mid) (allSummaries.drop mid))⟩
  else
    ⟨leaf (summary + otherSummary) allItems allSummaries, none⟩

mutual

def pushTreeRecursive (other : SumTree T S) : SumTree T S → Option (Pushed T S)
  | internal height summary childSummaries childTrees =>
    let summary' := summary + other.summary
    -- the heights are unsigned
    if height < other.height then none
    else if height - other.height = 0 then
      match other.childTrees with
      | none => none
      | some otherTrees =>
        some (pushChildren height summary' childSummaries childTrees other.childSummaries
          otherTrees)
    else if height - other.height = 1 ∧ !other.isUnderflowing then
      some (pushChildren height summary' childSummaries childTrees [other.summary] [other])
    else
      match pushIntoLastChild other childTrees with
      | none => none
      | some (childTrees', lastSummary, treeToAppend) =>
        if childSummaries.isEmpty then none
        else
          some (pushChildren height summary' (setLast childSummaries lastSummary) childTrees'
            (treeToAppend.toList.map SumTree.summary) treeToAppend.toList)
  | leaf summary items itemSummaries =>
    match other.leafItems with
    | none => none
    | some otherItems =>
      some (pushItems summary items itemSummaries other.summary otherItems other.childSummaries)

/-- The insertion into the last child: the children after it, the last one's summary and the
tree split off it. -/
def pushIntoLastChild (other : SumTree T S) :
    List (SumTree T S) → Option (List (SumTree T S) × S × Option (SumTree T S))
  | [] => none
  | [child] =>
    match pushTreeRecursive other child with
    | none => none
    | some pushed => some ([pushed.tree], pushed.tree.summary, pushed.split)
  | child :: next :: rest =>
    match pushIntoLastChild other (next :: rest) with
    | none => none
    | some (rest', summary, split) => some (child :: rest', summary, split)

end

/-- The node that took a smaller one in at its left end, and the node split off it to the left. -/
structure Merged (T : Type u) (S : Type v) where
  split : Option (SumTree T S)
  large : SumTree T S

def mergeIntoRight : SumTree T S → SumTree T S → Option (Merged T S)
  | internal _ smallSummary smallChildSummaries smallChildTrees,
      internal height summary childSummaries childTrees =>
      let totalChildCount := childTrees.length + smallChildTrees.length
      let allTrees := smallChildTrees ++ childTrees
      let allSummaries := smallChildSummaries ++ childSummaries
      if totalChildCount ≤ 2 * treeBase then
        some ⟨none, internal height (smallSummary + summary) allSummaries allTrees⟩
      else
        let mid := (totalChildCount + 1) / 2
        some ⟨some (internal height (sum (allSummaries.take mid)) (allSummaries.take mid)
            (allTrees.take mid)),
          internal height (sum (allSummaries.drop mid)) (allSummaries.drop mid) (allTrees.drop mid)⟩
  | leaf smallSummary smallItems smallItemSummaries, leaf summary items itemSummaries =>
    let totalChildCount := smallItems.length + items.length
    let allItems := smallItems ++ items
    let allSummaries := smallItemSummaries ++ itemSummaries
    if totalChildCount ≤ 2 * treeBase then
      some ⟨none, leaf (smallSummary + summary) allItems allSummaries⟩
    else
      let mid := (totalChildCount + 1) / 2
      some ⟨some (leaf (sum (allSummaries.take mid)) (allItems.take mid) (allSummaries.take mid)),
        leaf (sum (allSummaries.drop mid)) (allItems.drop mid) (allSummaries.drop mid)⟩
  | _, _ => none

/-- An internal node whose first child took a tree in; a tree split off to the left becomes the
first child, or splits the node in turn when it is full. -/
def insertFirstChild (summary : S) (childSummaries : List S)
    (childTrees : List (SumTree T S)) : Option (SumTree T S) → Merged T S
  | none => ⟨none, internal height summary childSummaries childTrees⟩
  | some tree =>
    if childTrees.length < 2 * treeBase then
      ⟨none, internal height summary (tree.summary :: childSummaries) (tree :: childTrees)⟩
    else
      let newChildSummaries := tree.summary :: childSummaries.take treeBase
      ⟨some (internal height (sum newChildSummaries) newChildSummaries
          (tree :: childTrees.take treeBase)),
        internal height (sum (childSummaries.drop treeBase)) (childSummaries.drop treeBase)
          (childTrees.drop treeBase)⟩

/-- What both trees of one height do: a small one that is large enough stays a tree. -/
def appendLevel (small large : SumTree T S) : Option (Merged T S) :=
  if small.isUnderflowing then mergeIntoRight small large else some ⟨some small, large⟩

def appendLarge (small : SumTree T S) : SumTree T S → Option (Merged T S)
  | leaf summary items itemSummaries =>
    if small.height = 0 then appendLevel small (leaf summary items itemSummaries) else none
  | internal height summary (firstSummary :: restSummaries) (first :: restTrees) =>
    if small.height = height then
      appendLevel small (internal height summary (firstSummary :: restSummaries)
        (first :: restTrees))
    else
      match appendLarge small first with
      | none => none
      | some merged =>
        some (insertFirstChild height (small.summary + summary)
          (merged.large.summary :: restSummaries) (merged.large :: restTrees) merged.split)
  | internal height summary childSummaries childTrees =>
    if small.height = height then
      appendLevel small (internal height summary childSummaries childTrees)
    else none

def fromChildTrees (left right : SumTree T S) : SumTree T S :=
  internal (left.height + 1) (sum [left.summary, right.summary]) [left.summary, right.summary]
    [left, right]

def append (self other : SumTree T S) : Option (SumTree T S) :=
  if self.isEmpty then some other
  else if other.isEmpty then some self
  else if self.height < other.height then
    (appendLarge self other).map fun merged =>
      match merged.split with
      | some tree => fromChildTrees tree merged.large
      | none => merged.large
  else
    (pushTreeRecursive other self).map fun pushed =>
      match pushed.split with
      | some splitTree => fromChildTrees pushed.tree splitTree
      | none => pushed.tree

variable (self : SumTree T S)

def push (item : T) : Option (SumTree T S) :=
  self.append (leaf (Item.summary item) [item] [Item.summary item])

def extend (items : List T) : Option (SumTree T S) := (fromIter items).bind self.append

variable {T : Type u} {S : Type v} [Summary S] [Item T S]

/-- A tree of the height with entries in every node. -/
inductive Shaped : Nat → SumTree T S → Prop
  | leaf {summary : S} {items : List T} {itemSummaries : List S}
      (filled : items ≠ []) (fits : items.length ≤ 2 * treeBase)
      (summaries : itemSummaries = items.map Item.summary)
      (total : summary = sum itemSummaries) :
      Shaped 0 (.leaf summary items itemSummaries)
  | internal {height : Nat} {summary : S} {childSummaries : List S}
      {childTrees : List (SumTree T S)}
      (filled : childTrees ≠ []) (fits : childTrees.length ≤ 2 * treeBase)
      (children : ∀ child ∈ childTrees, Shaped height child)
      (summaries : childSummaries = childTrees.map SumTree.summary)
      (total : summary = sum childSummaries) :
      Shaped (height + 1) (.internal (height + 1) summary childSummaries childTrees)

/-- The empty tree, or a tree of its own height with entries in every node. -/
def Valid (tree : SumTree T S) : Prop := tree = .new ∨ Shaped tree.height tree

variable {height : Nat} {tree : SumTree T S}

section

variable (h : Shaped height tree)

include h

theorem Shaped.height_eq : tree.height = height := by
  cases h with
  | leaf => rfl
  | internal => rfl

theorem Shaped.valid : Valid tree := by
  have hheight := h.height_eq
  exact .inr (hheight.symm ▸ h)

theorem Shaped.toList_ne_nil : tree.toList ≠ [] := by
  induction h with
  | leaf filled => rwa [toList_leaf]
  | internal filled _ _ _ _ ih =>
    obtain ⟨child, rest, rfl⟩ := exists_cons_of_ne_nil filled
    intro hnil
    exact ih child mem_cons_self (append_eq_nil_iff.mp hnil).1

theorem Shaped.isEmpty_eq : tree.isEmpty = false := by
  cases h with
  | leaf filled => exact isEmpty_eq_false_iff.mpr filled
  | internal => rfl

end

variable {trees : List (SumTree T S)}

theorem flatMap_toList_ne_nil (hne : trees ≠ [])
    (htrees : ∀ tree ∈ trees, Shaped height tree) : trees.flatMap toList ≠ [] := by
  obtain ⟨tree, rest, rfl⟩ := exists_cons_of_ne_nil hne
  intro hnil
  exact (htrees tree mem_cons_self).toList_ne_nil (append_eq_nil_iff.mp hnil).1

/-- The summaries of trees that hold the sums of their items add up to the sum of all items. -/
theorem sum_map_summary (htrees : ∀ tree ∈ trees, Shaped height tree ∧
      tree.summary = sum (tree.toList.map Item.summary)) :
    sum (trees.map SumTree.summary) = sum ((trees.flatMap toList).map Item.summary) := by
  have hparts : trees.map SumTree.summary =
      trees.map fun tree => sum (tree.toList.map Item.summary) :=
    map_congr_left fun tree htree => (htrees tree htree).2
  rw [hparts, sum_map_sum (fun tree : SumTree T S => tree.toList.map Item.summary) trees,
    map_flatMap]
  intro tree htree hnil
  exact (htrees tree htree).1.toList_ne_nil (map_eq_nil_iff.mp hnil)

/-- The summary of a tree is the sum of the summaries of its items, in order. -/
theorem Shaped.summary_eq (h : Shaped height tree) :
    tree.summary = sum (tree.toList.map Item.summary) := by
  induction h with
  | leaf _ _ summaries total => rw [toList_leaf, ← summaries]; exact total
  | internal _ _ children summaries total ih =>
    rw [toList_internal, ← sum_map_summary fun child hchild =>
      ⟨children child hchild, ih child hchild⟩, ← summaries]
    exact total

theorem Shaped.sum_children (htrees : ∀ tree ∈ trees, Shaped height tree) :
    sum (trees.map SumTree.summary) = sum ((trees.flatMap toList).map Item.summary) :=
  sum_map_summary fun tree htree => ⟨htrees tree htree, (htrees tree htree).summary_eq⟩

theorem Valid.isEmpty_iff (h : Valid tree) : tree.isEmpty = true ↔ tree.toList = [] := by
  rcases h with rfl | h
  · exact iff_of_true rfl rfl
  · rw [h.isEmpty_eq]
    exact iff_of_false Bool.false_ne_true h.toList_ne_nil

theorem Valid.shaped (h : Valid tree) (hne : tree.isEmpty = false) : Shaped tree.height tree := by
  rcases h with rfl | h
  · exact absurd hne.symm Bool.false_ne_true
  · exact h

/-- A tree that holds an item is of the shape. -/
theorem Valid.shaped_of_items (h : Valid tree) {front back : List T} {item : T}
    (hitems : tree.toList = front ++ item :: back) : Shaped tree.height tree := by
  apply h.shaped
  cases hempty : tree.isEmpty with
  | false => rfl
  | true =>
    rw [h.isEmpty_iff.mp hempty] at hitems
    exact absurd hitems (by simp)

theorem Valid.eq_new (h : Valid tree) (hempty : tree.isEmpty = true) : tree = .new := by
  rcases h with rfl | h
  · rfl
  · rw [h.isEmpty_eq] at hempty
    exact absurd hempty Bool.false_ne_true

theorem valid_new : Valid (.new : SumTree T S) := .inl rfl

/-- The summary of the whole tree, the empty one included. -/
theorem Valid.summary_eq (h : Valid tree) : tree.summary = sum (tree.toList.map Item.summary) := by
  rcases h with rfl | h
  · rfl
  · exact h.summary_eq

/-! Nodes whose summary counts the items below them have the shape. -/

theorem Shaped.leaf_of {summary : S} {items : List T} (filled : items ≠ [])
    (fits : items.length ≤ 2 * treeBase) (total : summary = sum (items.map Item.summary)) :
    Shaped 0 (.leaf summary items (items.map Item.summary)) :=
  .leaf filled fits rfl total

variable {childTrees : List (SumTree T S)}

theorem Shaped.internal_of {summary : S}
    (filled : childTrees ≠ []) (fits : childTrees.length ≤ 2 * treeBase)
    (children : ∀ child ∈ childTrees, Shaped height child)
    (total : summary = sum ((childTrees.flatMap toList).map Item.summary)) :
    Shaped (height + 1)
      (.internal (height + 1) summary (childTrees.map SumTree.summary) childTrees) :=
  .internal filled fits children rfl (total.trans (Shaped.sum_children children).symm)

theorem Shaped.parentOf (filled : childTrees ≠ []) (fits : childTrees.length ≤ 2 * treeBase)
    (children : ∀ child ∈ childTrees, Shaped height child) :
    Shaped (height + 1) (SumTree.parentOf (height + 1) childTrees) :=
  .internal filled fits children rfl rfl

theorem sum_map_append (front : List T) {back : List T} (hback : back ≠ []) :
    sum ((front ++ back).map Item.summary) =
      sum (front.map Item.summary) + sum (back.map Item.summary) := by
  rw [map_append, sum_append]
  exact fun hnil => hback (map_eq_nil_iff.mp hnil)

end SumTree

end OpenGpui.SumTrees
