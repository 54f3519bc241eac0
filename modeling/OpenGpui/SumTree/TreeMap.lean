/-
The ordered map over a sum tree: entries with their keys as summaries, of which a sum keeps
the last.
-/
import OpenGpui.SumTree.Find
import OpenGpui.SumTree.Keyed
import Mathlib.Order.WithBot

namespace OpenGpui.SumTrees

universe u v w x

open SumTree

structure MapEntry (K : Type u) (V : Type v) where
  key : K
  value : V

structure MapKey (K : Type u) where
  key : Option K

/-- A borrowed key. -/
abbrev MapKeyRef (K : Type u) := MapKey K

section Keys

variable {K : Type u} {V : Type v}

instance MapKey.summary : Summary (MapKey K) where
  add _ second := second
  add_assoc _ _ _ := rfl
  zero := ⟨none⟩
  zero_add_summary _ := rfl

/-- No key comes before every key. -/
def MapKey.toWithBot (mapKey : MapKey K) : WithBot K := mapKey.key

theorem MapKey.toWithBot_injective : Function.Injective (MapKey.toWithBot : MapKey K → _) :=
  fun _ _ => congrArg MapKey.mk

instance MapKey.linearOrder [LinearOrder K] : LinearOrder (MapKey K) :=
  LinearOrder.lift' MapKey.toWithBot MapKey.toWithBot_injective

instance MapEntry.keyedItem : KeyedItem (MapEntry K V) (MapKey K) (MapKey K) where
  summary entry := ⟨some entry.key⟩
  key entry := ⟨some entry.key⟩

def MapEntry.pair (entry : MapEntry K V) : K × V := (entry.key, entry.value)

end Keys

/-- A place between the keys, told by how it compares with each of them. -/
structure MapSeekTarget (K : Type u) [LinearOrder K] where
  cmpCursor : K → Ordering
  less : ∀ small large, small ≤ large → cmpCursor small = .lt → cmpCursor large = .lt
  greater : ∀ small large, small ≤ large → cmpCursor large = .gt → cmpCursor small = .gt

namespace MapSeekTarget

variable {K : Type u} [LinearOrder K]

/-- A key is a target. -/
def ofKey (key : K) : MapSeekTarget K where
  cmpCursor := compare key
  less small large hle := (aligned_compare key small large hle).1
  greater small large hle := (aligned_compare key small large hle).2

variable (target : MapSeekTarget K)

/-- `MapSeekTargetAdaptor` -/
def adaptor : SeekTarget (MapKeyRef K) := fun cursorLocation =>
  match cursorLocation.key with
  | some key => target.cmpCursor key
  | none => .gt

/-- The target is the key or lies before it. -/
def atMost (key : K) : Bool := decide (target.cmpCursor key ≠ .gt)

end MapSeekTarget

structure TreeMap (K : Type u) (V : Type v) where
  tree : SumTree (MapEntry K V) (MapKey K)

namespace TreeMap

variable {K : Type u} {V : Type v} {R : Type w} {σ : Type x} [LinearOrder K]

def empty : TreeMap K V := ⟨.new⟩

variable (self : TreeMap K V) (key : K)

def get : Option V :=
  match (self.tree.find (compare (⟨some key⟩ : MapKeyRef K)) .left).item with
  | some item => if (⟨some key⟩ : MapKey K) = KeyedItem.key item then some item.value else none
  | none => none

def insert (value : V) : Option (TreeMap K V) :=
  (self.tree.insertOrReplace ⟨key, value⟩).map fun result => ⟨result.2⟩

def insertOrReplace (self : TreeMap K V) (key : K) (value : V) : Option (Option V × TreeMap K V) :=
  (self.tree.insertOrReplace ⟨key, value⟩).map fun result =>
    (result.1.map MapEntry.value, ⟨result.2⟩)

variable (sort : SliceSort (Edit (MapEntry K V) (MapKey K)))

def extend (self : TreeMap K V)
    (pairs : List (K × V)) : Option (TreeMap K V) :=
  let edits := pairs.map fun pair => Edit.insert ⟨pair.1, pair.2⟩
  (self.tree.edit sort edits).map fun result => ⟨result.2⟩

/-- The entry of the key at the cursor, if it is there, and the cursor behind it. -/
def takeEntry (key : MapKeyRef K) (cursor : Cursor (MapEntry K V) (MapKey K) (MapKeyRef K)) :
    Option (Option (MapEntry K V) × Cursor (MapEntry K V) (MapKey K) (MapKeyRef K)) :=
  cursor.endPosition.bind fun cursorEnd =>
    if compare key cursorEnd = .eq then
      cursor.item.bind fun item => item.bind fun entry =>
        cursor.next.map fun cursor => (some entry, cursor)
    else some (none, cursor)

def remove : Option (Option V × TreeMap K V) :=
  ((Cursor.new self.tree).slice (compare (⟨some key⟩ : MapKeyRef K)) .left).bind fun sliced =>
    (takeEntry ⟨some key⟩ sliced.1).bind fun taken =>
      taken.2.suffix.bind fun suffix =>
        (sliced.2.append suffix.2).map fun newTree => (taken.1.map MapEntry.value, ⟨newTree⟩)

def removeRange (start stop : MapSeekTarget K) : Option (TreeMap K V) :=
  ((Cursor.new self.tree).slice start.adaptor .left).bind fun sliced =>
    (sliced.1.seek stop.adaptor .left).bind fun sought =>
      sought.1.suffix.bind fun suffix =>
        (sliced.2.append suffix.2).map fun newTree => ⟨newTree⟩

/-- The entry with the greatest key less than or equal to the given key. -/
def closest : Option (Option (K × V)) :=
  ((Cursor.new self.tree).seek (compare (⟨some key⟩ : MapKeyRef K)) .right).bind fun sought =>
    sought.1.prev.item.map fun item => item.map MapEntry.pair

def iterFrom : Option (List (K × V)) :=
  ((Cursor.new self.tree).seek (compare (⟨some key⟩ : MapKeyRef K)) .left).bind fun sought =>
    (sought.1.collect (self.tree.toList.length + 1)).map fun entries =>
      entries.map MapEntry.pair

variable (f : V → R × V)

/-- The entry pushed with its new value. -/
def pushUpdated (newTree : SumTree (MapEntry K V) (MapKey K)) :
    Option (MapEntry K V) → Option (SumTree (MapEntry K V) (MapKey K))
  | some entry => newTree.push ⟨entry.key, (f entry.value).2⟩
  | none => some newTree

/-- The function gives its result and what the value has become. -/
def update : Option (Option R × TreeMap K V) :=
  ((Cursor.new self.tree).slice (compare (⟨some key⟩ : MapKeyRef K)) .left).bind fun sliced =>
    (takeEntry ⟨some key⟩ sliced.1).bind fun taken =>
      (pushUpdated f sliced.2 taken.1).bind fun newTree =>
        taken.2.suffix.bind fun suffix =>
          (newTree.append suffix.2).map fun newTree =>
            (taken.1.map fun entry => (f entry.value).1, ⟨newTree⟩)

/-- The predicate may change its state at every call. -/
def retainLoop (predicate : σ → K → V → Bool × σ) :
    Nat → σ → Cursor (MapEntry K V) (MapKey K) (MapKeyRef K) →
      SumTree (MapEntry K V) (MapKey K) → Option (σ × SumTree (MapEntry K V) (MapKey K))
  | 0, _, _, _ => none
  | fuel + 1, state, cursor, newMap =>
    cursor.item.bind fun item =>
      match item with
      | some entry =>
        let verdict := predicate state entry.key entry.value
        (if verdict.1 then newMap.push entry else some newMap).bind fun newMap =>
          cursor.next.bind fun cursor => retainLoop predicate fuel verdict.2 cursor newMap
      | none => some (state, newMap)

def retain (predicate : σ → K → V → Bool × σ) (state : σ) : Option (σ × TreeMap K V) :=
  (Cursor.new self.tree : Cursor _ _ (MapKeyRef K)).next.bind fun cursor =>
    (retainLoop predicate (self.tree.toList.length + 1) state cursor .new).map fun result =>
      (result.1, ⟨result.2⟩)

def iter (self : TreeMap K V) : Option (List (K × V)) :=
  self.tree.iter.map fun entries => entries.map MapEntry.pair

def insertTree (self other : TreeMap K V) :
    Option (TreeMap K V) :=
  other.iter.bind fun pairs =>
    let edits := pairs.map fun pair => Edit.insert ⟨pair.1, pair.2⟩
    (self.tree.edit sort edits).map fun result => ⟨result.2⟩

end TreeMap

end OpenGpui.SumTrees
