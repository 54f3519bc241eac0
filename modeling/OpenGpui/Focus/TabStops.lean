/-
Tab stops.  Inserted handles lie in the order of their path of tab indices and of their
insertion, and a traversal goes round those that are active.
-/
import OpenGpui.Collections
import OpenGpui.Library.CyclicWalk
import OpenGpui.Library.OrderedEntries
import Mathlib.Data.List.Lex
import Mathlib.Data.Prod.Lex

namespace OpenGpui.Focus

open List

/-- What can be focused. -/
structure FocusHandle where
  id : Nat
  tabIndex : Int
  tabStop : Bool
  deriving DecidableEq

variable {Validity : Type}

/-- A call that fills the map. -/
inductive TabStopOperation (Validity : Type) where
  | insert (focusHandle : FocusHandle) (validity : Option Validity)
  | group (tabIndex : Int)
  | groupEnd

def TabStopOperation.focusHandle : TabStopOperation Validity → Option FocusHandle
  | .insert focusHandle _ => some focusHandle
  | .group _ | .groupEnd => none

/-- Where a handle stands in the order. -/
structure TabStopNode (Validity : Type) where
  path : List Int
  nodeInsertionIndex : Nat
  tabStop : Bool
  validity : Option Validity

namespace TabStopNode

/-- Nodes are compared by path, then by insertion. -/
def key (node : TabStopNode Validity) : List Int ×ₗ Nat :=
  toLex (node.path, node.nodeInsertionIndex)

/-- A tab stop whose geometry is valid at present. -/
def isActiveStop (isValid : Validity → Bool) (node : TabStopNode Validity) : Bool :=
  node.tabStop && node.validity.all isValid

end TabStopNode

/-- The handles inserted so far, by id and in order. -/
structure TabStopMap (Validity : Type) where
  currentPath : List Int
  insertionHistory : List (TabStopOperation Validity)
  byId : KeyMap Nat (TabStopNode Validity)
  order : List (TabStopNode Validity)

namespace TabStopMap

def default : TabStopMap Validity := ⟨[], [], ∅, []⟩

def insertScoped (self : TabStopMap Validity) (focusHandle : FocusHandle)
    (validity : Option Validity) : TabStopMap Validity :=
  let history := self.insertionHistory ++ [.insert focusHandle validity]
  let order : TabStopNode Validity :=
    ⟨self.currentPath ++ [focusHandle.tabIndex], history.length - 1, focusHandle.tabStop, validity⟩
  { self with
    insertionHistory := history
    byId := self.byId.insert focusHandle.id order
    order := overwrite TabStopNode.key [order] self.order }

def beginGroup (self : TabStopMap Validity) (tabIndex : Int) : TabStopMap Validity :=
  { self with
    insertionHistory := self.insertionHistory ++ [.group tabIndex]
    currentPath := self.currentPath ++ [tabIndex] }

def endGroup (self : TabStopMap Validity) : TabStopMap Validity :=
  { self with
    insertionHistory := self.insertionHistory ++ [.groupEnd]
    currentPath := self.currentPath.dropLast }

def perform (self : TabStopMap Validity) : TabStopOperation Validity → TabStopMap Validity
  | .insert focusHandle validity => self.insertScoped focusHandle validity
  | .group tabIndex => self.beginGroup tabIndex
  | .groupEnd => self.endGroup

/-- The map after a sequence of calls. -/
def after (operations : List (TabStopOperation Validity)) : TabStopMap Validity :=
  operations.foldl perform default

variable (isValid : Validity → Bool) (self : TabStopMap Validity) (node : TabStopNode Validity)

/-- The cursor is sought to the node; it goes on to the next active stop. -/
def nextInner : Option (TabStopNode Validity) :=
  ((self.order.dropWhile fun other => decide (other.key < node.key)).drop 1).find?
    (·.isActiveStop isValid)

/-- The active stop before the node. -/
def prevInner : Option (TabStopNode Validity) :=
  (self.order.takeWhile fun other => decide (other.key < node.key)).reverse.find?
    (·.isActiveStop isValid)

def focusHandleForOrder (order : TabStopNode Validity) : Option FocusHandle :=
  self.insertionHistory[order.nodeInsertionIndex]?.bind (·.focusHandle)

variable (inner : TabStopNode Validity → Option (TabStopNode Validity))

/-- From the end of the order that comes first, `inner` leads to the other stops. -/
def fromEnd (first : Option (TabStopNode Validity)) : Option FocusHandle :=
  first.bind fun first =>
    if first.isActiveStop isValid then self.focusHandleForOrder first
    else (inner first).bind self.focusHandleForOrder

def fromFocused
    (first : Option (TabStopNode Validity)) (focusedId : Option Nat) : Option FocusHandle :=
  match focusedId.bind (self.byId[·]?) with
  | none => self.fromEnd isValid inner first
  | some node =>
    match inner node with
    | some item => self.focusHandleForOrder item
    | none => self.fromEnd isValid inner first

def next : Option Nat → Option FocusHandle :=
  self.fromFocused isValid (self.nextInner isValid) self.order.head?

def prev : Option Nat → Option FocusHandle :=
  self.fromFocused isValid (self.prevInner isValid) self.order.getLast?

/-- The walk ends after as many steps as there were calls. -/
def firstWhere (advance : Option Nat → Option FocusHandle) (predicate : FocusHandle → Bool) :
    Nat → Option Nat → Option FocusHandle
  | 0, _ => none
  | fuel + 1, current =>
    match advance current with
    | none => none
    | some candidate =>
      if predicate candidate then some candidate
      else firstWhere advance predicate fuel (some candidate.id)

variable (focusedId : Option Nat)

def nextWhere (predicate : FocusHandle → Bool) : Option FocusHandle :=
  firstWhere (self.next isValid) predicate self.insertionHistory.length focusedId

def prevWhere (predicate : FocusHandle → Bool) : Option FocusHandle :=
  firstWhere (self.prev isValid) predicate self.insertionHistory.length focusedId

/-- The stop that repeated calls of `next` lead to. -/
def visited : Nat → Option FocusHandle
  | 0 => self.next isValid none
  | count + 1 => (visited count).bind fun focused => self.next isValid (some focused.id)

end TabStopMap

/-- An inserted handle with its node and with the groups that were open: where each began,
and its tab index. -/
structure TabStopEntry (Validity : Type) where
  groups : List (Nat × Int)
  node : TabStopNode Validity
  focusHandle : FocusHandle

namespace TabStopEntry

/-- The handles that are inserted while such groups are open, after so many calls. -/
def entries : List (Nat × Int) → Nat → List (TabStopOperation Validity) →
    List (TabStopEntry Validity)
  | _, _, [] => []
  | groups, index, .insert focusHandle validity :: operations =>
    ⟨groups, ⟨groups.map Prod.snd ++ [focusHandle.tabIndex], index, focusHandle.tabStop, validity⟩,
      focusHandle⟩ :: entries groups (index + 1) operations
  | groups, index, .group tabIndex :: operations =>
    entries (groups ++ [(index, tabIndex)]) (index + 1) operations
  | groups, index, .groupEnd :: operations => entries groups.dropLast (index + 1) operations

def key (entry : TabStopEntry Validity) : List Int ×ₗ Nat := entry.node.key

/-- The entries by path and insertion. -/
def inOrder (operations : List (TabStopOperation Validity)) : List (TabStopEntry Validity) :=
  (entries [] 0 operations).mergeSort fun one two => decide (one.key ≤ two.key)

/-- The active stops among the entries. -/
def stops (isValid : Validity → Bool) (entries : List (TabStopEntry Validity)) : List FocusHandle :=
  (entries.filter (·.node.isActiveStop isValid)).map (·.focusHandle)

end TabStopEntry

end OpenGpui.Focus
