/-
The keymap: bindings in the order they were added, the indices kept beside them, the
bindings an input dispatches, and the bindings shown for an action.
-/
import OpenGpui.Keys.Binding
import OpenGpui.Library.IndexMap
import Mathlib.Data.List.Sort

namespace OpenGpui.Keys

open List

variable {α : Type} [ActionData α]

section Indices

variable (bindings : List (KeyBinding α))

/-- The places of the bindings that pass, in the order of the bindings. -/
def placesOf (keep : KeyBinding α → Bool) : List Nat :=
  (bindings.zipIdx.filter fun entry => keep entry.1).map Prod.snd

omit [ActionData α] in
theorem placesOf_append (binding : KeyBinding α) (keep : KeyBinding α → Bool) :
    placesOf (bindings ++ [binding]) keep =
      placesOf bindings keep ++ if keep binding then [bindings.length] else [] := by
  rw [placesOf, zipIdx_append, filter_append, map_append]
  by_cases hkeep : keep binding = true
  · simp [placesOf, hkeep]
  · simp [placesOf, hkeep]

def dispatchesType (typeId : ActionTypeId) (binding : KeyBinding α) : Bool :=
  !binding.disables && binding.action.typeId == typeId

end Indices

/-- The indices hold the places of the bindings that dispatch an action of each type, and
of those that take bindings away. -/
structure Keymap (α : Type) [ActionData α] where
  bindings : List (KeyBinding α)
  bindingIndicesByActionId : IndexMap ActionTypeId (List Nat)
  disabledBindingIndices : List Nat
  indexed : ∀ typeId, (bindingIndicesByActionId.get typeId).getD [] =
    placesOf bindings (dispatchesType typeId)
  disabled : disabledBindingIndices = placesOf bindings KeyBinding.disables

variable (disabledBinding binding : KeyBinding α)

def bindingIsUnbound : Bool :=
  disabledBinding.keystrokes == binding.keystrokes && match disabledBinding.action with
    | .unbind name => name == binding.action.name
    | _ => false

/-- A binding that matches all of an input. -/
structure MatchedBinding (α : Type) where
  depth : Nat
  ix : Nat
  binding : KeyBinding α

/-- Deeper matches come first, and of one depth those added later. -/
def MatchedBinding.precedes (first second : MatchedBinding α) : Bool :=
  decide (second.depth < first.depth) ||
    (first.depth == second.depth && decide (second.ix ≤ first.ix))

/-- The matches that are dispatched.  A user's entry without action ends the walk, and an
unbinding takes away the later matches that it names. -/
def dispatchedMatches : (unboundBindings : List (KeyBinding α)) →
    List (MatchedBinding α) → List (MatchedBinding α)
  | _, [] => []
  | unboundBindings, candidate :: rest =>
    match candidate.binding.action with
    | .noAction =>
      if candidate.binding.isUsers then [] else dispatchedMatches unboundBindings rest
    | .unbind _ => dispatchedMatches (unboundBindings ++ [candidate.binding]) rest
    | .app _ =>
      if unboundBindings.any (bindingIsUnbound · candidate.binding) then
        dispatchedMatches unboundBindings rest
      else candidate :: dispatchedMatches unboundBindings rest

/-- The keystrokes still to be waited for, after the entries that begin with the input in
the order they were added.  Those before the first dispatched match do not count. -/
def pendingKeystrokes (firstBindingIndex : Option Nat) :
    List (Nat × KeyBinding α) → List (List KeybindingKeystroke) → List (List KeybindingKeystroke)
  | [], pending => pending
  | (ix, binding) :: rest, pending =>
    if firstBindingIndex.any (ix < ·) then pendingKeystrokes firstBindingIndex rest pending
    else if binding.disables then
      pendingKeystrokes firstBindingIndex rest (pending.filter (· != binding.keystrokes))
    else pendingKeystrokes firstBindingIndex rest (pending.insert binding.keystrokes)

structure InputBindings (α : Type) where
  bindings : List (KeyBinding α)
  pending : Bool

namespace Keymap

def empty : Keymap α where
  bindings := []
  bindingIndicesByActionId := .empty
  disabledBindingIndices := []
  indexed _ := rfl
  disabled := rfl

variable (keymap : Keymap α)

def addBinding (binding : KeyBinding α) : Keymap α where
  bindings := keymap.bindings ++ [binding]
  bindingIndicesByActionId :=
    if binding.disables then keymap.bindingIndicesByActionId
    else keymap.bindingIndicesByActionId.insert binding.action.typeId
      ((keymap.bindingIndicesByActionId.get binding.action.typeId).getD [] ++
        [keymap.bindings.length])
  disabledBindingIndices :=
    if binding.disables then keymap.disabledBindingIndices ++ [keymap.bindings.length]
    else keymap.disabledBindingIndices
  indexed := by
    intro typeId
    rw [placesOf_append, ← keymap.indexed]
    by_cases hdisables : binding.disables = true
    · simp [hdisables, dispatchesType]
    · rw [if_neg hdisables, IndexMap.get_insert]
      by_cases htype : binding.action.typeId = typeId
      · subst htype
        simp [hdisables, dispatchesType]
      · simp [htype, dispatchesType]
  disabled := by
    rw [placesOf_append, ← keymap.disabled]
    by_cases hdisables : binding.disables = true
    · simp [hdisables]
    · simp [hdisables]

variable (bindings : List (KeyBinding α))

def addBindings : Keymap α := bindings.foldl addBinding keymap

def new : Keymap α := empty.addBindings bindings

/-- The depth at which a binding matches the contexts; one without a predicate is as deep
as they are. -/
def bindingEnabled (binding : KeyBinding α) (contexts : List KeyContext) : Option Nat :=
  match binding.contextPredicate with
  | some predicate => predicate.depthOf contexts
  | none => some contexts.length

variable (os : TargetOs)

/-- The matches of an input, the later ones first. -/
def matchedBindings (keymap : Keymap α) (input : List Keystroke)
    (contextStack : List KeyContext) : List (MatchedBinding α) :=
  keymap.bindings.zipIdx.reverse.filterMap fun entry =>
    (bindingEnabled entry.1 contextStack).bind fun depth =>
      if entry.1.matchKeystrokes os input = some false then some ⟨depth, entry.2, entry.1⟩
      else none

/-- The bindings that an input begins, the later ones first. -/
def pendingBindings (keymap : Keymap α) (input : List Keystroke)
    (contextStack : List KeyContext) : List (Nat × KeyBinding α) :=
  keymap.bindings.zipIdx.reverse.filterMap fun entry =>
    (bindingEnabled entry.1 contextStack).bind fun _ =>
      if entry.1.matchKeystrokes os input = some true then some (entry.2, entry.1) else none

def bindingsForInput (keymap : Keymap α) (input : List Keystroke)
    (contextStack : List KeyContext) : InputBindings α :=
  let matched := dispatchedMatches []
    ((keymap.matchedBindings os input contextStack).insertionSort (·.precedes ·))
  let pending := pendingKeystrokes (matched.head?.map MatchedBinding.ix)
    (keymap.pendingBindings os input contextStack).reverse []
  { bindings := matched.map MatchedBinding.binding, pending := !pending.isEmpty }

end Keymap

end OpenGpui.Keys
