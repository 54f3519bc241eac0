/-
Where a stack of entries stands in a tree: the items in front of an entry and behind it, and
those that a forward seek leaves behind.  An iterator is a stack of entries without positions.
-/
import OpenGpui.SumTree.Append
import OpenGpui.SumTree.Cursor
import Mathlib.Order.Compare
import Mathlib.Order.Lattice

namespace OpenGpui.SumTrees

universe u v w

open SumTree List

section Places

variable {T : Type u} {S : Type v} {D : Type w} [Summary S] [Item T S] [Dimension D S]

theorem SumTree.Shaped.addSummary_positionOf {height : Nat} {tree : SumTree T S}
    (h : Shaped height tree) (items : List T) :
    Dimension.addSummary (positionOf D items) tree.summary =
      positionOf D (items ++ tree.toList) := by
  rw [h.summary_eq, addSummary_sum _ h.toList_ne_nil, positionOf_append]

/-! The target along the items. -/

/-- Along the items the target is never found again behind a position it lies before. -/
def Descending (target : SeekTarget D) (items : List T) : Prop :=
  ∀ front middle back, items = front ++ middle ++ back →
    (target (positionOf D front) = .lt → target (positionOf D (front ++ middle)) = .lt) ∧
      (target (positionOf D (front ++ middle)) = .gt → target (positionOf D front) = .gt)

theorem isPast_iff {target : SeekTarget D} {bias : Bias} {position : D} :
    isPast target bias position = true ↔
      target position = .gt ∨ (target position = .eq ∧ bias = .right) := by
  simp [isPast]

/-- Before a position that the target lies beyond, it lies beyond every position. -/
theorem Descending.isPast {target : SeekTarget D} {bias : Bias} {front middle back : List T}
    (h : Descending target (front ++ middle ++ back))
    (hpast : isPast target bias (positionOf D (front ++ middle)) = true) :
    SumTrees.isPast target bias (positionOf D front) = true := by
  obtain ⟨hless, hgreater⟩ := h front middle back rfl
  rw [isPast_iff] at hpast ⊢
  rcases hpast with hgt | ⟨heq, hbias⟩
  · exact .inl (hgreater hgt)
  · cases hfront : target (positionOf D front) with
    | lt => rw [hless hfront] at heq; exact absurd heq (by decide)
    | eq => exact .inr ⟨rfl, hbias⟩
    | gt => exact .inl rfl

/-- A dimension with an order that no item lowers: every key of it is a target. -/
theorem Descending.of_monotone [LinearOrder D] {items : List T}
    (hmonotone : ∀ front middle back, items = front ++ middle ++ back →
      positionOf D front ≤ positionOf D (front ++ middle)) (key : D) :
    Descending (compare key) items := by
  intro front middle back hitems
  have hle := hmonotone front middle back hitems
  constructor
  · intro hlt
    exact compare_lt_iff_lt.mpr (lt_of_lt_of_le (compare_lt_iff_lt.mp hlt) hle)
  · intro hgt
    exact compare_gt_iff_gt.mpr (lt_of_le_of_lt hle (compare_gt_iff_gt.mp hgt))

/-- The items in front of the first one whose end the target does not lie beyond. -/
@[grind =] def skipped (target : SeekTarget D) (bias : Bias) : D → List T → List T
  | _, [] => []
  | position, item :: items =>
    let itemEnd := Dimension.addSummary position (Item.summary item)
    if isPast target bias itemEnd then item :: skipped target bias itemEnd items else []

section Skipped

variable {target : SeekTarget D} {bias : Bias}

@[simp] theorem skipped_nil (position : D) : skipped target bias position ([] : List T) = [] := rfl

theorem skipped_isPrefix (position : D) (items : List T) :
    skipped target bias position items <+: items := by
  induction items generalizing position with
  | nil => exact nil_prefix
  | cons item items ih =>
    rw [skipped]
    split
    · exact cons_prefix_cons.mpr ⟨rfl, ih _⟩
    · exact nil_prefix

variable {position : D} {front : List T}

theorem skipped_append_of_eq (hfront : skipped target bias position front = front) (back : List T) :
    skipped target bias position (front ++ back) =
      front ++ skipped target bias (advance position front) back := by
  induction front generalizing position with
  | nil => rfl
  | cons item front ih =>
    rw [skipped] at hfront
    split at hfront
    · rename_i hpast
      rw [cons_append, skipped, if_pos hpast, ih (cons_eq_cons.mp hfront).2]
      rfl
    · exact absurd hfront (by simp)

theorem skipped_append_of_ne (hfront : skipped target bias position front ≠ front) (back : List T) :
    skipped target bias position (front ++ back) = skipped target bias position front := by
  induction front generalizing position with
  | nil => exact absurd rfl hfront
  | cons item front ih =>
    rw [skipped] at hfront
    rw [cons_append, skipped, skipped]
    split at hfront
    · rename_i hpast
      rw [if_pos hpast, if_pos hpast, ih fun heq => hfront (by rw [heq])]
    · rename_i hpast
      rw [if_neg hpast, if_neg hpast]

/-- Whole parts in front of a position the target lies beyond are skipped item by item. -/
theorem skipped_of_isPast {before part after : List T}
    (h : Descending target (before ++ part ++ after))
    (hpast : isPast target bias (positionOf D (before ++ part)) = true) :
    skipped target bias (positionOf D before) part = part := by
  induction part generalizing before with
  | nil => rfl
  | cons item part ih =>
    have hsplit : before ++ item :: part = before ++ [item] ++ part := by simp
    rw [hsplit] at h hpast
    have hitem : isPast target bias
        (Dimension.addSummary (positionOf D before) (Item.summary item)) = true := by
      rw [← positionOf_append_singleton]
      exact h.isPast hpast
    rw [skipped, if_pos hitem, ← positionOf_append_singleton, ih h hpast]

theorem isPast_of_skipped {part : List T} (hne : part ≠ [])
    (hpart : skipped target bias position part = part) :
    isPast target bias (advance position part) = true := by
  induction part generalizing position with
  | nil => exact absurd rfl hne
  | cons item part ih =>
    rw [skipped] at hpart
    split at hpart
    · rename_i hpast
      cases part with
      | nil => exact hpast
      | cons next part => exact ih (by simp) (cons_eq_cons.mp hpart).2
    · exact absurd hpart (by simp)

/-- The first item that is not skipped ends where the target does not lie beyond. -/
theorem skipped_stops {items back : List T} {item : T}
    (hskip : skipped target bias position items = front) (hitems : items = front ++ item :: back) :
    isPast target bias (advance position (front ++ [item])) = false := by
  induction front generalizing position items with
  | nil =>
    rw [hitems, nil_append, skipped] at hskip
    split at hskip
    · exact absurd hskip (by simp)
    · rename_i hpast
      exact Bool.eq_false_iff.mpr hpast
  | cons first front ih =>
    rw [hitems, cons_append, skipped] at hskip
    split at hskip
    · exact ih (cons_eq_cons.mp hskip).2 rfl
    · exact absurd hskip (by simp)

end Skipped

/-! Entries of a stack in a tree. -/

/-- The entries lead from the root down to a node, with the items in front of it and behind it;
around the root there may be others. -/
inductive Path (root : SumTree T S) (start finish : List T) :
    List (StackEntry T S D) → SumTree T S → List T → List T → Prop
  | root : Path root start finish [] root start finish
  | child {stack : List (StackEntry T S D)} {height : Nat} {summary : S}
      {childSummaries : List S} {left right : List (SumTree T S)} {child : SumTree T S}
      {before after : List T}
      (path : Path root start finish stack
        (.internal height summary childSummaries (left ++ child :: right)) before after) :
      Path root start finish
        (⟨.internal height summary childSummaries (left ++ child :: right), left.length,
          positionOf D (before ++ left.flatMap toList)⟩ :: stack)
        child (before ++ left.flatMap toList) (right.flatMap toList ++ after)

/-- The entries lead down to an item of a leaf. -/
inductive Stands (root : SumTree T S) (start finish : List T) :
    List (StackEntry T S D) → List T → T → List T → Prop
  | leaf {stack : List (StackEntry T S D)} {summary : S} {itemSummaries : List S}
      {left right before after : List T} {item : T} {position : D}
      (path : Path root start finish stack (.leaf summary (left ++ item :: right) itemSummaries)
        before after) :
      Stands root start finish
        (⟨.leaf summary (left ++ item :: right) itemSummaries, left.length, position⟩ :: stack)
        (before ++ left) item (right ++ after)

namespace Path

variable {root tree : SumTree T S} {start finish before after : List T}
  {stack : List (StackEntry T S D)}

theorem toList_eq (path : Path root start finish stack tree before after) :
    start ++ root.toList ++ finish = before ++ tree.toList ++ after := by
  induction path with
  | root => rfl
  | child path ih =>
    rw [ih, toList_internal]
    simp only [flatMap_append, flatMap_cons, append_assoc]

theorem shaped {height : Nat} (path : Path root start finish stack tree before after)
    (hroot : Shaped height root) : ∃ own, Shaped own tree := by
  induction path with
  | root => exact ⟨height, hroot⟩
  | child path ih =>
    obtain ⟨own, hown⟩ := ih
    cases hown with
    | internal filled fits children summaries total =>
      exact ⟨_, children _ (by simp)⟩

variable {entries : List (StackEntry T S D)} {front back : List T}

/-- A path inside the node that a path leads to. -/
theorem append {inner : SumTree T S} (path : Path root start finish stack tree before after)
    (rest : Path tree before after entries inner front back) :
    Path root start finish (entries ++ stack) inner front back := by
  induction rest with
  | root => exact path
  | child rest ih => exact .child ih

theorem stands {item : T} (path : Path root start finish stack tree before after)
    (rest : Stands tree before after entries front item back) :
    Stands root start finish (entries ++ stack) front item back := by
  cases rest with
  | leaf rest => exact .leaf (path.append rest)

end Path

theorem Stands.toList_eq {root : SumTree T S} {start finish front back : List T} {item : T}
    {stack : List (StackEntry T S D)} (stands : Stands root start finish stack front item back) :
    start ++ root.toList ++ finish = front ++ item :: back := by
  cases stands with
  | leaf path =>
    rw [path.toList_eq]
    simp

theorem Stands.items_eq {tree : SumTree T S} {front back : List T} {item : T}
    {stack : List (StackEntry T S D)} (stands : Stands tree [] [] stack front item back) :
    tree.toList = front ++ item :: back := by
  rw [← stands.toList_eq, nil_append, append_nil]

end Places

variable {T : Type u} {S : Type v}

/-- The dimension that measures nothing. -/
instance Unit.dimension [Summary S] : Dimension Unit S where
  zero := ()
  addSummary _ _ := ()
  addSummary_add _ _ _ := rfl
  addSummary_zero_zero := rfl

mutual

/-- The first item from a new entry for the tree on. -/
def iterTree : SumTree T S → Option (T × List (StackEntry T S Unit))
  | .internal height summary childSummaries childTrees =>
    iterChildren (.internal height summary childSummaries childTrees) 0 childTrees
  | .leaf summary items itemSummaries =>
    items.head?.map fun item => (item, [⟨.leaf summary items itemSummaries, 0, ()⟩])

/-- The children of a node from the index on. -/
def iterChildren (tree : SumTree T S) (index : Nat) :
    List (SumTree T S) → Option (T × List (StackEntry T S Unit))
  | [] => none
  | childTree :: childTrees =>
    match iterTree childTree with
    | some (item, entries) => some (item, entries ++ [⟨tree, index, ()⟩])
    | none => iterChildren tree (index + 1) childTrees

end

/-- The loop over the entries of the stack, from its top; `descend` when that one is new. -/
def iterStack : Bool → List (StackEntry T S Unit) → Option (T × List (StackEntry T S Unit))
  | _, [] => none
  | descend, entry :: stack =>
    let index := if descend then entry.index else entry.index + 1
    let found :=
      match entry.tree with
      | .internal _ _ _ childTrees => iterChildren entry.tree index (childTrees.drop index)
      | .leaf _ items _ => items[index]?.map fun item => (item, [⟨entry.tree, index, ()⟩])
    match found with
    | some (item, entries) => some (item, entries ++ stack)
    | none => iterStack false stack

structure Iter (T : Type u) (S : Type v) where
  tree : SumTree T S
  stack : List (StackEntry T S Unit)

namespace Iter

protected def new (tree : SumTree T S) : Iter T S := ⟨tree, []⟩

/-- An exhausted iterator has an empty stack, and would start again. -/
def next (iter : Iter T S) : Option T × Iter T S :=
  let isNew := iter.stack.isEmpty
  let stack := if isNew then [⟨iter.tree, 0, ()⟩] else iter.stack
  match iterStack isNew stack with
  | some (item, entries) => (some item, ⟨iter.tree, entries⟩)
  | none => (none, ⟨iter.tree, []⟩)

/-- What a loop collects that ends at the first `none`; with too little fuel it does not end. -/
def collect : Nat → Iter T S → Option (List T)
  | 0, _ => none
  | fuel + 1, iter =>
    match iter.next with
    | (some item, iter) => (collect fuel iter).map (item :: ·)
    | (none, _) => some []

end Iter

/-- The items of the tree as its iterator yields them. -/
def SumTree.iter (tree : SumTree T S) : Option (List T) :=
  (Iter.new tree).collect (tree.toList.length + 1)

variable [Summary S] [Item T S] {tree root node : SumTree T S} {before after : List T}
  {stack : List (StackEntry T S Unit)}

variable {height : Nat}

theorem iterTree_spec (htree : Shaped height tree) (before after : List T) :
    ∃ item rest entries, iterTree tree = some (item, entries) ∧ tree.toList = item :: rest ∧
      Stands tree before after entries before item (rest ++ after) := by
  induction htree generalizing before after with
  | @leaf summary items itemSummaries filled =>
    obtain ⟨item, rest, rfl⟩ := exists_cons_of_ne_nil filled
    have hstands : Stands (.leaf summary ([] ++ item :: rest) itemSummaries) before after
        [(⟨.leaf summary ([] ++ item :: rest) itemSummaries, 0, ()⟩ : StackEntry T S Unit)]
        (before ++ []) item (rest ++ after) := .leaf .root
    rw [append_nil] at hstands
    exact ⟨item, rest, _, rfl, toList_leaf .., hstands⟩
  | @internal height summary childSummaries childTrees filled _ _ _ _ ih =>
    obtain ⟨child, rest, rfl⟩ := exists_cons_of_ne_nil filled
    obtain ⟨item, items, entries, hrun, hitems, hstands⟩ :=
      ih child mem_cons_self before (rest.flatMap toList ++ after)
    have hpath : Path (.internal (height + 1) summary childSummaries ([] ++ child :: rest)) before
        after [(⟨.internal (height + 1) summary childSummaries ([] ++ child :: rest), 0, ()⟩ :
          StackEntry T S Unit)]
        child (before ++ []) (rest.flatMap toList ++ after) := .child .root
    rw [append_nil] at hpath
    refine ⟨item, items ++ rest.flatMap toList, entries ++ [⟨.internal (height + 1) summary
      childSummaries (child :: rest), 0, ()⟩], ?_, ?_, ?_⟩
    · rw [iterTree, iterChildren]
      simp only [hrun]
    · rw [toList_internal, flatMap_cons, hitems]
      rfl
    · rw [append_assoc]
      exact hpath.stands hstands

section

variable (hroot : Shaped height root)

include hroot

/-- Out of a node that is done, to the item behind it. -/
theorem iterStack_ascending (path : Path root [] [] stack node before after) :
    (after = [] ∧ iterStack false stack = none) ∨
      ∃ item rest entries, after = item :: rest ∧ iterStack false stack = some (item, entries) ∧
        Stands root [] [] entries (before ++ node.toList) item rest := by
  induction path with
  | root => exact .inl ⟨rfl, rfl⟩
  | @child stack own summary childSummaries left right child before after path ih =>
    rw [iterStack]
    simp only [Bool.false_eq_true, if_false]
    cases right with
    | nil =>
      have hdone : (left ++ [child]).drop (left.length + 1) = [] := by simp
      rw [hdone, iterChildren]
      simpa using ih
    | cons next right =>
      obtain ⟨level, hshaped⟩ := path.shaped hroot
      cases hshaped with
      | @internal level' _ _ _ filled fits children summaries total =>
        have hrest : (left ++ child :: next :: right).drop (left.length + 1) =
            next :: right := by simp
        have hsplit : left ++ child :: next :: right = left ++ [child] ++ next :: right := by
          simp
        rw [hsplit] at path
        have hpath := Path.child path
        obtain ⟨item, items, entries, hrun, hitems, hstands⟩ :=
          iterTree_spec (children next (by simp)) (before ++ (left ++ [child]).flatMap toList)
            (right.flatMap toList ++ after)
        refine .inr ⟨item, items ++ (right.flatMap toList ++ after),
          entries ++ ⟨.internal (level' + 1) summary childSummaries
            (left ++ child :: next :: right), left.length + 1, ()⟩ :: stack, ?_, ?_, ?_⟩
        · rw [flatMap_cons, hitems, append_assoc]
          rfl
        · rw [hrest, iterChildren]
          simp only [hrun, append_assoc, singleton_append]
        · have hwhole := hpath.stands hstands
          simp only [flatMap_append, flatMap_singleton, length_append,
            length_singleton, append_assoc, cons_append, nil_append] at hwhole ⊢
          exact hwhole

variable {front back : List T}

theorem iterStack_stands {item : T} (stands : Stands root [] [] stack front item back) :
    (back = [] ∧ iterStack false stack = none) ∨
      ∃ next rest entries, back = next :: rest ∧ iterStack false stack = some (next, entries) ∧
        Stands root [] [] entries (front ++ [item]) next rest := by
  cases stands with
  | @leaf stack summary itemSummaries left right before after item position path =>
    rw [iterStack]
    simp only [Bool.false_eq_true, if_false]
    cases right with
    | nil =>
      simpa using iterStack_ascending hroot path
    | cons next right =>
      have hnext : (left ++ item :: next :: right)[left.length + 1]? = some next := by simp
      have hsplit : left ++ item :: next :: right = left ++ [item] ++ next :: right := by simp
      rw [hsplit] at path
      have hstands : Stands root [] [] ((⟨.leaf summary (left ++ [item] ++ next :: right)
          itemSummaries, (left ++ [item]).length, ()⟩ : StackEntry T S Unit) :: stack) (before ++
          (left ++ [item])) next (right ++ after) := .leaf path
      rw [hnext]
      refine .inr ⟨next, right ++ after, _, rfl, rfl, ?_⟩
      simpa using hstands

theorem collect_stands {fuel : Nat} {item : T} (stands : Stands root [] [] stack front item back)
    (hfuel : back.length < fuel) : (Iter.mk root stack).collect fuel = some back := by
  induction fuel generalizing stack front back item with
  | zero => exact absurd hfuel (Nat.not_lt_zero _)
  | succ fuel ih =>
    have hnew : stack.isEmpty = false := by
      cases stands with
      | leaf path => rfl
    rw [Iter.collect, Iter.next]
    simp only [hnew, Bool.false_eq_true, if_false]
    rcases iterStack_stands hroot stands with ⟨rfl, hrun⟩ |
      ⟨next, rest, entries, rfl, hrun, hstands⟩
    · rw [hrun]
    · rw [hrun]
      simp only [ih hstands (Nat.lt_of_succ_lt_succ hfuel), Option.map_some]

end

/-- Iteration yields the items of the tree. -/
theorem iter_eq (htree : Valid tree) : tree.iter = some tree.toList := by
  rw [SumTree.iter, Iter.collect, Iter.next, Iter.new]
  simp only [isEmpty_nil, if_true]
  rcases htree with rfl | hshaped
  · rfl
  · obtain ⟨item, rest, entries, hrun, hitems, hstands⟩ := iterTree_spec hshaped [] []
    have hfirst : iterStack true [⟨tree, 0, ()⟩] = some (item, entries) := by
      rw [iterStack]
      cases tree with
      | leaf summary items itemSummaries =>
        rw [iterTree] at hrun
        cases items with
        | nil => exact absurd hrun (by simp)
        | cons first items => simpa using hrun
      | internal own summary childSummaries childTrees =>
        rw [iterTree] at hrun
        simp [hrun]
    have hrest : (Iter.mk tree entries).collect tree.toList.length = some rest :=
      collect_stands hshaped (by simpa using hstands) (by rw [hitems]; exact Nat.lt_succ_self _)
    rw [hfirst]
    simp only [hrest, Option.map_some]
    rw [hitems]

end OpenGpui.SumTrees
