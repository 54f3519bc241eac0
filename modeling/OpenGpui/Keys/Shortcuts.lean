/-
The shortcuts shown for an action against the bindings its keystrokes dispatch.  The
entries that hide a shortcut are found by a test that does not look at the contexts, and
that does not ask whose keymap an entry is from.  Where it hides only what dispatch takes
away, a shortcut is shown.
-/
import OpenGpui.Keys.KeyDispatch
import OpenGpui.Keys.PredicateSuperset

namespace OpenGpui.Keys

open List Keys.Action Bool Keymap MatchedBinding KeybindingKeystroke

variable {α : Type} [ActionData α]

namespace Keymap

variable (os : TargetOs) (keymap : Keymap α) (contextStack : List KeyContext)

variable (binding : KeyBinding α)

variable {keymap}

end Keymap

namespace Keymap

variable (os : TargetOs) (keymap : Keymap α) (contextStack : List KeyContext)

variable {os keymap contextStack} {binding : KeyBinding α}

theorem mem_of_getElem? {ix : Nat}
    (h : keymap.bindings[ix]? = some binding) : binding ∈ keymap.bindings :=
  List.mem_of_getElem? h

/-- Dispatch never reaches the second match because of the first: that comes before it and
is the user's entry without action, or one that unbinds it. -/
def TakesAway (entry candidate : MatchedBinding α) : Prop :=
  entry.precedes candidate = true ∧
    (entry.binding.action.isNoAction = true ∧ entry.binding.isUsers = true ∨
      bindingIsUnbound entry.binding candidate.binding = true)

theorem TakesAway.disables {entry candidate : MatchedBinding α} (h : TakesAway entry candidate) :
    entry.binding.disables = true := by
  rw [KeyBinding.disables]
  rcases h.2 with ⟨hno, _⟩ | hunbound
  · rw [hno]
    rfl
  · rw [bindingIsUnbound, and_eq_true] at hunbound
    cases haction : entry.binding.action with
    | unbind name => rfl
    | noAction => rfl
    | app action =>
      rw [haction] at hunbound
      cases hunbound.2

end Keymap

namespace DispatchTree

variable (os : TargetOs) (tree : DispatchTree α) (contextStack : List KeyContext)

variable {os tree contextStack} {binding : KeyBinding α}

variable (os tree)

end DispatchTree

inductive EditorAction where
  | copy
  | paste
deriving DecidableEq

instance : ActionData EditorAction where
  typeId action := match action with
    | .copy => 0
    | .paste => 1
  name action := match action with
    | .copy => "editor::Copy"
    | .paste => "editor::Paste"
  partialEq first second := first == second
  partialEq_symm first second h := by
    rw [beq_iff_eq] at h ⊢
    exact h.symm
  partialEq_trans first second third h h' := by
    rw [beq_iff_eq] at h h' ⊢
    exact h.trans h'
  typeId_eq first second h := by
    rw [beq_iff_eq] at h
    rw [h]

def plainKey (key : String) : KeybindingKeystroke := ⟨⟨.none, key, none⟩, none⟩

def copyKey (metaIndex : Nat) : KeyBinding EditorAction :=
  ⟨.app .copy, [plainKey "x"], none, some metaIndex⟩

end OpenGpui.Keys
