/-
Cursors over a sum tree: the path to a leaf as a stack of entries, moved by seeks and by
filtered searches in both directions.  A panic of the source is `none`.
-/
import OpenGpui.SumTree.Tree

namespace OpenGpui.SumTrees

open Dimension

universe u v w x

inductive Bias where
  | left
  | right
deriving DecidableEq

/-- A target is how it compares with a position. -/
abbrev SeekTarget (D : Type w) := D → Ordering

namespace SumTree

variable {T : Type u} {S : Type v}

def leftmostLeaf : SumTree T S → Option (SumTree T S)
  | leaf summary items itemSummaries => some (leaf summary items itemSummaries)
  | internal _ _ _ (child :: _) => leftmostLeaf child
  | internal _ _ _ [] => none

mutual

def rightmostLeaf : SumTree T S → Option (SumTree T S)
  | leaf summary items itemSummaries => some (leaf summary items itemSummaries)
  | internal _ _ _ childTrees => rightmostLeafOfLast childTrees

def rightmostLeafOfLast : List (SumTree T S) → Option (SumTree T S)
  | [] => none
  | [child] => rightmostLeaf child
  | _ :: next :: rest => rightmostLeafOfLast (next :: rest)

end

variable (tree : SumTree T S)

def first : Option (Option T) := tree.leftmostLeaf.bind fun leaf => leaf.leafItems.map List.head?

def last : Option (Option T) := tree.rightmostLeaf.bind fun leaf => leaf.leafItems.map List.getLast?

end SumTree

/-- The index is where the cursor stands in the node; the position is where that entry starts.
The position of a leaf's entry is never read, and here stays as it was pushed. -/
structure StackEntry (T : Type u) (S : Type v) (D : Type w) where
  tree : SumTree T S
  index : Nat
  position : D

/-- The top of the stack is the head of the list. -/
structure Cursor (T : Type u) (S : Type v) (D : Type w) where
  tree : SumTree T S
  stack : List (StackEntry T S D)
  position : D
  didSeek : Bool
  atEnd : Bool

/-- What is collected while a cursor seeks forward. -/
class SeekAggregate (A : Type x) (T : Type u) (S : Type v) where
  endLeaf : A → Option A
  pushItem : A → T → S → Option A
  pushTree : A → SumTree T S → S → Option A

/-- A plain seek collects nothing. -/
instance Unit.seekAggregate {T : Type u} {S : Type v} : SeekAggregate Unit T S where
  endLeaf aggregate := some aggregate
  pushItem aggregate _ _ := some aggregate
  pushTree aggregate _ _ := some aggregate

structure SliceSeekAggregate (T : Type u) (S : Type v) where
  tree : SumTree T S
  leafItems : List T
  leafItemSummaries : List S
  leafSummary : S

instance SliceSeekAggregate.seekAggregate {T : Type u} {S : Type v} [Summary S] [Item T S] :
    SeekAggregate (SliceSeekAggregate T S) T S where
  endLeaf aggregate :=
    (aggregate.tree.append
      (.leaf aggregate.leafSummary aggregate.leafItems aggregate.leafItemSummaries)).map
      fun tree => ⟨tree, [], [], 0⟩
  pushItem aggregate item summary :=
    if aggregate.leafItems.length < 2 * treeBase then
      some ⟨aggregate.tree, aggregate.leafItems ++ [item],
        aggregate.leafItemSummaries ++ [summary], aggregate.leafSummary + summary⟩
    else none
  pushTree aggregate tree _ :=
    (aggregate.tree.append tree).map fun tree => { aggregate with tree := tree }

structure SummarySeekAggregate (D : Type w) where
  output : D

instance SummarySeekAggregate.seekAggregate {T : Type u} {S : Type v} {D : Type w} [Summary S]
    [Item T S] [Dimension D S] : SeekAggregate (SummarySeekAggregate D) T S where
  endLeaf aggregate := some aggregate
  pushItem aggregate _ summary := some ⟨addSummary aggregate.output summary⟩
  pushTree aggregate _ summary := some ⟨addSummary aggregate.output summary⟩

/-- What a seek changes besides the stack. -/
structure Seeking (A : Type x) (D : Type w) where
  position : D
  aggregate : A

section Seek

variable {T : Type u} {S : Type v} {D : Type w} {A : Type x}
variable [Summary S] [Dimension D S] [SeekAggregate A T S]

/-- The target lies beyond an entry that ends at the position. -/
def isPast (target : SeekTarget D) (bias : Bias) (childEnd : D) : Bool :=
  decide (target childEnd = .gt) || (decide (target childEnd = .eq) && decide (bias = .right))

/-- The items of a leaf from the index on; the answer is where the seek stops in it. -/
def seekLeaf (target : SeekTarget D) (bias : Bias) :
    Nat → List T → List S → Seeking A D → Option (Seeking A D × Option Nat)
  | index, item :: items, itemSummary :: itemSummaries, state =>
    let childEnd := addSummary state.position itemSummary
    if isPast target bias childEnd then
      match SeekAggregate.pushItem state.aggregate item itemSummary with
      | none => none
      | some aggregate =>
        seekLeaf target bias (index + 1) items itemSummaries ⟨childEnd, aggregate⟩
    else
      (SeekAggregate.endLeaf T S state.aggregate).map fun aggregate =>
        (⟨state.position, aggregate⟩, some index)
  | _, _, _, state =>
    (SeekAggregate.endLeaf T S state.aggregate).map fun aggregate =>
      (⟨state.position, aggregate⟩, none)

mutual

/-- The loop from a new entry for the tree on: the entries pushed when the seek stops in the
tree, or nothing when the whole tree lies before the target. -/
def seekTree (target : SeekTarget D) (bias : Bias) (entryPosition : D) :
    SumTree T S → Seeking A D → Option (Seeking A D × Option (List (StackEntry T S D)))
  | .internal height summary childSummaries childTrees, state =>
    seekChildren target bias (.internal height summary childSummaries childTrees) 0 entryPosition
      childTrees childSummaries state
  | .leaf summary items itemSummaries, state =>
    (seekLeaf target bias 0 items itemSummaries state).map fun result =>
      (result.1, result.2.map fun index =>
        [⟨.leaf summary items itemSummaries, index, entryPosition⟩])

/-- The children of a node from the index on. -/
def seekChildren (target : SeekTarget D) (bias : Bias) (tree : SumTree T S) (index : Nat)
    (entryPosition : D) :
    List (SumTree T S) → List S → Seeking A D →
      Option (Seeking A D × Option (List (StackEntry T S D)))
  | childTree :: childTrees, childSummary :: childSummaries, state =>
    let childEnd := addSummary state.position childSummary
    if isPast target bias childEnd then
      match SeekAggregate.pushTree state.aggregate childTree childSummary with
      | none => none
      | some aggregate =>
        seekChildren target bias tree (index + 1) childEnd childTrees childSummaries
          ⟨childEnd, aggregate⟩
    else
      match seekTree target bias state.position childTree state with
      | none => none
      | some (state', some entries) =>
        some (state', some (entries ++ [⟨tree, index, entryPosition⟩]))
      | some (state', none) =>
        -- ascending out of the child: the next one is tried
        seekChildren target bias tree (index + 1) state'.position childTrees childSummaries state'
  | _, _, state => some (state, none)

end

/-- The loop over the entries of the stack, from its top. -/
def seekStack (target : SeekTarget D) (bias : Bias) :
    Bool → List (StackEntry T S D) → Seeking A D → Option (Seeking A D × List (StackEntry T S D))
  | _, [], state => some (state, [])
  | ascending, entry :: stack, state =>
    let found : Option (Seeking A D × Option (List (StackEntry T S D))) :=
      match entry.tree with
      | .internal _ _ childSummaries childTrees =>
        let index := if ascending then entry.index + 1 else entry.index
        let entryPosition := if ascending then state.position else entry.position
        seekChildren target bias entry.tree index entryPosition (childTrees.drop index)
          (childSummaries.drop index) state
      | .leaf _ items itemSummaries =>
        (seekLeaf target bias entry.index (items.drop entry.index)
          (itemSummaries.drop entry.index) state).map fun result =>
            (result.1, result.2.map fun index => [⟨entry.tree, index, entry.position⟩])
    match found with
    | none => none
    | some (state', some entries) => some (state', entries ++ stack)
    | some (state', none) => seekStack target bias true stack state'

end Seek

section Search

variable {T : Type u} {S : Type v} {D : Type w} [Summary S] [Dimension D S]

/-- The first item of a leaf from the index on that the filter accepts. -/
def forwardLeaf (filterNode : S → Bool) : Nat → D → List S → D × Option Nat
  | index, position, itemSummary :: itemSummaries =>
    if filterNode itemSummary then (position, some index)
    else
      forwardLeaf filterNode (index + 1) (addSummary position itemSummary) itemSummaries
  | _, position, [] => (position, none)

mutual

/-- The search from a new entry for the tree on. -/
def forwardTree (filterNode : S → Bool) (entryPosition : D) :
    SumTree T S → D → D × Option (List (StackEntry T S D))
  | .internal height summary childSummaries childTrees, position =>
    forwardChildren filterNode (.internal height summary childSummaries childTrees) 0
      entryPosition childTrees childSummaries position
  | .leaf summary items itemSummaries, position =>
    let result := forwardLeaf filterNode 0 position itemSummaries
    (result.1, result.2.map fun index =>
      [⟨.leaf summary items itemSummaries, index, entryPosition⟩])

/-- The children of a node from the index on. -/
def forwardChildren (filterNode : S → Bool) (tree : SumTree T S) (index : Nat)
    (entryPosition : D) :
    List (SumTree T S) → List S → D → D × Option (List (StackEntry T S D))
  | childTree :: childTrees, childSummary :: childSummaries, position =>
    if filterNode childSummary then
      match forwardTree filterNode position childTree position with
      | (position', some entries) =>
        (position', some (entries ++ [⟨tree, index, entryPosition⟩]))
      | (position', none) =>
        forwardChildren filterNode tree (index + 1) position' childTrees childSummaries position'
    else
      forwardChildren filterNode tree (index + 1)
        (addSummary entryPosition childSummary) childTrees childSummaries
        (addSummary position childSummary)
  | _, _, position => (position, none)

end

/-- The loop over the entries of the stack, from its top; `descend` when that one is new. -/
def forwardStack (filterNode : S → Bool) :
    Bool → List (StackEntry T S D) → D → Option (D × List (StackEntry T S D))
  | _, [], position => some (position, [])
  | descend, entry :: stack, position =>
    let found : Option (D × Option (List (StackEntry T S D))) :=
      match entry.tree with
      | .internal _ _ childSummaries childTrees =>
        let index := if descend then entry.index else entry.index + 1
        let entryPosition := if descend then entry.position else position
        some (forwardChildren filterNode entry.tree index entryPosition
          (childTrees.drop index) (childSummaries.drop index) position)
      | .leaf _ _ itemSummaries =>
        if descend then
          let result := forwardLeaf filterNode entry.index position (itemSummaries.drop entry.index)
          some (result.1, result.2.map fun index => [⟨entry.tree, index, entry.position⟩])
        else
          match itemSummaries[entry.index]? with
          | none => none
          | some itemSummary =>
            let result := forwardLeaf filterNode (entry.index + 1)
              (addSummary position itemSummary)
              (itemSummaries.drop (entry.index + 1))
            some (result.1, result.2.map fun index =>
              [⟨entry.tree, index, entry.position⟩])
    match found with
    | none => none
    | some (position', some entries) => some (position', entries ++ stack)
    | some (position', none) => forwardStack filterNode false stack position'

/-- The last item of a leaf that the filter accepts; `position` is where the list starts. -/
def backwardLeaf (filterNode : S → Bool) : Nat → D → List S → Option (D × Nat)
  | index, position, itemSummary :: itemSummaries =>
    match backwardLeaf filterNode (index + 1) (addSummary position itemSummary)
        itemSummaries with
    | some found => some found
    | none => if filterNode itemSummary then some (position, index) else none
  | _, _, [] => none

mutual

/-- The search from a new entry at the end of the tree; `position` is where the tree starts. -/
def backwardTree (filterNode : S → Bool) :
    SumTree T S → D → Option (D × List (StackEntry T S D))
  | .internal height summary childSummaries childTrees, position =>
    backwardChildren filterNode (.internal height summary childSummaries childTrees) 0
      childTrees childSummaries position
  | .leaf summary items itemSummaries, position =>
    (backwardLeaf filterNode 0 position itemSummaries).map fun result =>
      (result.1, [⟨.leaf summary items itemSummaries, result.2, result.1⟩])

/-- Later children are searched before earlier ones. -/
def backwardChildren (filterNode : S → Bool) (tree : SumTree T S) (index : Nat) :
    List (SumTree T S) → List S → D → Option (D × List (StackEntry T S D))
  | childTree :: childTrees, childSummary :: childSummaries, position =>
    match backwardChildren filterNode tree (index + 1) childTrees childSummaries
        (addSummary position childSummary) with
    | some found => some found
    | none =>
      if filterNode childSummary then
        (backwardTree filterNode childTree position).map fun result =>
          (result.1, result.2 ++ [⟨tree, index, position⟩])
      else none
  | _, _, _ => none

end

/-- Where the node of an entry starts, which the entry below it holds. -/
def startAbove : List (StackEntry T S D) → D
  | parent :: _ => parent.position
  | [] => zero S

/-- The loop over the entries of the stack, from its top: what lies before each entry's index. -/
def backwardStack (filterNode : S → Bool) :
    List (StackEntry T S D) → D × List (StackEntry T S D)
  | [] => (zero S, [])
  | entry :: stack =>
    let start := startAbove stack
    let found : Option (D × List (StackEntry T S D)) :=
      match entry.tree with
      | .internal _ _ childSummaries childTrees =>
        backwardChildren filterNode entry.tree 0 (childTrees.take entry.index)
          (childSummaries.take entry.index) start
      | .leaf _ _ itemSummaries =>
        (backwardLeaf filterNode 0 start (itemSummaries.take entry.index)).map
          fun result => (result.1, [⟨entry.tree, result.2, result.1⟩])
    match found with
    | some (position, entries) => (position, entries ++ stack)
    | none => backwardStack filterNode stack

end Search

namespace Cursor

variable {T : Type u} {S : Type v} {D : Type w} [Summary S] [Dimension D S]

protected def new (tree : SumTree T S) : Cursor T S D := ⟨tree, [], zero S, false, tree.isEmpty⟩

variable (cursor : Cursor T S D)

def reset : Cursor T S D := ⟨cursor.tree, [], zero S, false, cursor.tree.isEmpty⟩

/-- The entry of a leaf's list at the index of the top entry: nothing at its end. -/
def entryAt {α : Type u} (list : List α) (index : Nat) : Option (Option α) :=
  if index = list.length then some none else list[index]?.map some

def item : Option (Option T) :=
  if !cursor.didSeek then none
  else
    match cursor.stack with
    | entry :: _ => entry.tree.leafItems.bind fun items => entryAt items entry.index
    | [] => some none

def itemSummary : Option (Option S) :=
  if !cursor.didSeek then none
  else
    match cursor.stack with
    | entry :: _ =>
      match entry.tree with
      | .leaf _ _ itemSummaries => entryAt itemSummaries entry.index
      | .internal .. => none
    | [] => some none

def endPosition : Option D :=
  cursor.itemSummary.map fun itemSummary =>
    match itemSummary with
    | some itemSummary => addSummary cursor.position itemSummary
    | none => cursor.position

/-- The leaf after the top entry's, from the entries below it. -/
def nextLeaf : List (StackEntry T S D) → Option (Option (SumTree T S))
  | [] => some none
  | entry :: stack =>
    match entry.tree.childTrees with
    | none => none
    | some childTrees =>
      if childTrees.isEmpty then none
      else if entry.index < childTrees.length - 1 then
        childTrees[entry.index + 1]?.bind fun child => child.leftmostLeaf.map some
      else nextLeaf stack

def prevLeaf : List (StackEntry T S D) → Option (Option (SumTree T S))
  | [] => some none
  | entry :: stack =>
    if entry.index ≠ 0 then
      match entry.tree.childTrees with
      | none => none
      | some childTrees =>
        childTrees[entry.index - 1]?.bind fun child => child.rightmostLeaf.map some
    else prevLeaf stack

def nextItem : Option (Option T) :=
  if !cursor.didSeek then none
  else
    match cursor.stack with
    | entry :: stack =>
      entry.tree.leafItems.bind fun items =>
        if items.isEmpty then none
        else if entry.index = items.length - 1 then
          (nextLeaf stack).bind fun leaf =>
            match leaf with
            | some leaf => leaf.leafItems.bind fun items => items.head?.map some
            | none => some none
        else items[entry.index + 1]?.map some
    | [] => if cursor.atEnd then some none else cursor.tree.first

def prevItem : Option (Option T) :=
  if !cursor.didSeek then none
  else
    match cursor.stack with
    | entry :: stack =>
      if entry.index = 0 then
        (prevLeaf stack).bind fun leaf =>
          match leaf with
          | some leaf => leaf.leafItems.bind fun items => items.getLast?.map some
          | none => some none
      else entry.tree.leafItems.bind fun items => items[entry.index - 1]?.map some
    | [] => if cursor.atEnd then cursor.tree.last else some none

variable (filterNode : S → Bool)

def searchBackward (cursor : Cursor T S D) : Cursor T S D :=
  let atEnd := !cursor.didSeek || cursor.atEnd
  if atEnd then
    -- from the end, also on the first move of a cursor
    let stack :=
      if cursor.tree.isEmpty then cursor.stack
      else
        ⟨cursor.tree, cursor.tree.childSummaries.length,
          addSummary (zero S) cursor.tree.summary⟩ :: cursor.stack
    let found := backwardStack filterNode stack
    ⟨cursor.tree, found.2, found.1, true, cursor.tree.isEmpty⟩
  else
    match cursor.stack with
    | [] => cursor
    | entry :: stack =>
      let found := backwardStack filterNode (entry :: stack)
      ⟨cursor.tree, found.2, found.1, true, false⟩

def prev : Cursor T S D := cursor.searchBackward fun _ => true

def searchForward (cursor : Cursor T S D) : Option (Cursor T S D) :=
  let isNew := cursor.stack.isEmpty && !cursor.atEnd
  let stack := if isNew then [⟨cursor.tree, 0, zero S⟩] else cursor.stack
  let didSeek := cursor.stack.isEmpty || cursor.didSeek
  (forwardStack filterNode isNew stack cursor.position).map fun found =>
    ⟨cursor.tree, found.2, found.1, didSeek, found.2.isEmpty || cursor.atEnd⟩

def next : Option (Cursor T S D) := cursor.searchForward fun _ => true

section Seek

variable {A : Type x} [SeekAggregate A T S]

/-- The cursor after a seek, what was collected, and whether the target was found. -/
structure Sought (T : Type u) (S : Type v) (D : Type w) (A : Type x) where
  cursor : Cursor T S D
  aggregate : A
  found : Bool

def seekInternal (target : SeekTarget D) (bias : Bias) (aggregate : A) (cursor : Cursor T S D) :
    Option (Sought T S D A) :=
  -- the source asserts that the target does not lie before the cursor
  if target cursor.position = .lt then none
  else
    let stack :=
      if cursor.didSeek then cursor.stack
      else ⟨cursor.tree, 0, zero S⟩ :: cursor.stack
    match seekStack target bias false stack ⟨cursor.position, aggregate⟩ with
    | none => none
    | some (state, stack) =>
      let cursor' : Cursor T S D := ⟨cursor.tree, stack, state.position, true, stack.isEmpty⟩
      let targetEnd :=
        match bias with
        | .left => cursor'.endPosition
        | .right => some cursor'.position
      targetEnd.map fun targetEnd =>
        ⟨cursor', state.aggregate, decide (target targetEnd = .eq)⟩

end Seek

variable (target : SeekTarget D)

def seek (bias : Bias) (cursor : Cursor T S D) :
    Option (Cursor T S D × Bool) :=
  (cursor.reset.seekInternal target bias ()).map fun sought => (sought.cursor, sought.found)

def seekForward (bias : Bias) (cursor : Cursor T S D) :
    Option (Cursor T S D × Bool) :=
  (cursor.seekInternal target bias ()).map fun sought => (sought.cursor, sought.found)

def slice [Item T S] (target : SeekTarget D) (bias : Bias) (cursor : Cursor T S D) :
    Option (Cursor T S D × SumTree T S) :=
  (cursor.seekInternal target bias (⟨.new, [], [], 0⟩ : SliceSeekAggregate T S)).map fun sought =>
    (sought.cursor, sought.aggregate.tree)

/-- The target after every item. -/
def endTarget : SeekTarget D := fun _ => .gt

def suffix [Item T S] (cursor : Cursor T S D) : Option (Cursor T S D × SumTree T S) :=
  cursor.slice endTarget .right

def summary [Item T S] (Output : Type w) [Dimension Output S] (target : SeekTarget D)
    (bias : Bias) (cursor : Cursor T S D) : Option (Cursor T S D × Output) :=
  (cursor.seekInternal target bias
    (⟨zero S⟩ : SummarySeekAggregate Output)).map fun sought =>
      (sought.cursor, sought.aggregate.output)

end Cursor

end OpenGpui.SumTrees
