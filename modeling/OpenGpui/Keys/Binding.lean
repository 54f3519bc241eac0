/-
Key bindings: keystrokes, the actions they dispatch, when what has been typed matches what
is bound, and the predicates that say in which stacks of contexts a binding is enabled.
-/
import OpenGpui.Library.LongestPrefix

namespace OpenGpui.Keys

structure ContextEntry where
  key : String
  value : Option String

abbrev KeyContext := List ContextEntry

variable (context : KeyContext)

def KeyContext.contains (key : String) : Bool := context.any fun entry => entry.key == key

def KeyContext.get (key : String) : Option String :=
  (context.find? fun entry => entry.key == key).bind ContextEntry.value

inductive KeyBindingContextPredicate where
  | identifier (name : String)
  | equal (left right : String)
  | notEqual (left right : String)
  | descendant (parent child : KeyBindingContextPredicate)
  | not (predicate : KeyBindingContextPredicate)
  | and (left right : KeyBindingContextPredicate)
  | or (left right : KeyBindingContextPredicate)
deriving DecidableEq

namespace KeyBindingContextPredicate

/-- Evaluates at the last of the contexts.  A negation looks at all contexts, and the
child of a descendant at those below the first parent only. -/
@[grind =] def evalInner (predicate : KeyBindingContextPredicate)
    (contexts allContexts : List KeyContext) : Bool :=
  match contexts.getLast? with
  | none => false
  | some context =>
    match predicate with
    | identifier name => KeyContext.contains context name
    | equal left right => (KeyContext.get context left).any (· == right)
    | notEqual left right => (KeyContext.get context left).all (· != right)
    | not negated => (List.range allContexts.length).all fun i =>
      !negated.evalInner (allContexts.take (i + 1)) allContexts
    | descendant parent child =>
      match (List.range (contexts.length - 1)).find? fun i =>
        parent.evalInner (contexts.take (i + 1)) allContexts with
      | some i => child.evalInner (contexts.drop (i + 1)) (contexts.drop (i + 1))
      | none => false
    | and left right =>
      left.evalInner contexts allContexts && right.evalInner contexts allContexts
    | or left right =>
      left.evalInner contexts allContexts || right.evalInner contexts allContexts

variable (predicate : KeyBindingContextPredicate)

def eval (contexts : List KeyContext) : Bool := predicate.evalInner contexts contexts

/-- The deepest depth at which the predicate matches. -/
def depthOf (contexts : List KeyContext) : Option Nat :=
  lastBelow (fun depth => predicate.evalInner (contexts.take depth) contexts) (contexts.length + 1)

/-- The part of the superset test that goes down the other predicate. -/
def isSupersetBelow (predicate : KeyBindingContextPredicate) :
    KeyBindingContextPredicate → Bool
  | descendant parent child =>
    predicate == descendant parent child || predicate.isSupersetBelow child
  | and left right =>
    predicate == and left right ||
      (predicate.isSupersetBelow left || predicate.isSupersetBelow right)
  | other => predicate == other

def isSuperset (predicate other : KeyBindingContextPredicate) : Bool :=
  predicate == other || match predicate with
    | or left right => left.isSuperset other || right.isSuperset other
    | _ => predicate.isSupersetBelow other

end KeyBindingContextPredicate

structure Modifiers where
  control : Bool
  alt : Bool
  shift : Bool
  platform : Bool
  function : Bool
deriving DecidableEq

def Modifiers.none : Modifiers := ⟨false, false, false, false, false⟩

structure Keystroke where
  modifiers : Modifiers
  key : String
  keyChar : Option String
deriving DecidableEq

/-- What is shown of a keystroke differs from the keystroke on Windows alone. -/
structure KeybindingKeystroke where
  inner : Keystroke
  display : Option (Modifiers × String)
deriving DecidableEq

inductive TargetOs where
  | windows
  | other

variable (os : TargetOs)

/-- The modifiers that remain when a key is taken for the character it produced. -/
def Keystroke.imeModifiers (typed : Keystroke) : Modifiers :=
  match os with
  | .windows => .none
  | .other =>
    { Modifiers.none with
      control := typed.modifiers.control, platform := typed.modifiers.platform }

def Keystroke.shouldMatch (typed : Keystroke)
    (target : KeybindingKeystroke) : Bool :=
  ((typed.keyChar.filter (· != typed.key)).any fun keyChar =>
      target.inner.key == keyChar && target.inner.modifiers == typed.imeModifiers os) ||
    (target.inner.modifiers == typed.modifiers && target.inner.key == typed.key)

/-- What dispatching reads of an application's actions.  Equality of actions need not be
reflexive, and holds between actions of one type only. -/
class ActionData (α : Type) where
  typeId : α → Nat
  name : α → String
  partialEq : α → α → Bool
  partialEq_symm : ∀ first second, partialEq first second = true → partialEq second first = true
  partialEq_trans : ∀ first second third, partialEq first second = true →
    partialEq second third = true → partialEq first third = true
  typeId_eq : ∀ first second, partialEq first second = true → typeId first = typeId second

/-- An application's actions and the two that take bindings away. -/
inductive Action (α : Type) where
  | noAction
  | unbind (name : String)
  | app (action : α)

inductive ActionTypeId where
  | noAction
  | unbind
  | app (id : Nat)
deriving DecidableEq

variable {α : Type}

namespace Action

def isNoAction : Action α → Bool
  | noAction => true
  | _ => false

def isUnbind : Action α → Bool
  | unbind _ => true
  | _ => false

variable [ActionData α]

def typeId : Action α → ActionTypeId
  | noAction => .noAction
  | unbind _ => .unbind
  | app action => .app (ActionData.typeId action)

def name : Action α → String
  | noAction => "open_gpui::NoAction"
  | unbind _ => "open_gpui::Unbind"
  | app action => ActionData.name action

def partialEq : Action α → Action α → Bool
  | noAction, noAction => true
  | unbind first, unbind second => first == second
  | app first, app second => ActionData.partialEq first second
  | _, _ => false

variable {first second : Action α} (h : first.partialEq second = true)

include h

theorem partialEq_symm : second.partialEq first = true := by
  cases first with
  | noAction => cases second <;> first | rfl | cases h
  | unbind name =>
    cases second with
    | unbind other =>
      rw [partialEq, beq_iff_eq] at h ⊢
      exact h.symm
    | _ => cases h
  | app action =>
    cases second with
    | app other => exact ActionData.partialEq_symm _ _ h
    | _ => cases h

theorem partialEq_trans {third : Action α} (h' : second.partialEq third = true) :
    first.partialEq third = true := by
  cases second with
  | noAction =>
    cases first with
    | noAction => exact h'
    | _ => cases h
  | unbind name =>
    cases first with
    | unbind other =>
      rw [partialEq, beq_iff_eq] at h
      rw [h]
      exact h'
    | _ => cases h
  | app action =>
    cases first with
    | app one =>
      cases third with
      | app three => exact ActionData.partialEq_trans _ _ _ h h'
      | _ => cases h'
    | _ => cases h

end Action

/-- A binding without metadata is taken for a user's. -/
structure KeyBinding (α : Type) where
  action : Action α
  keystrokes : List KeybindingKeystroke
  contextPredicate : Option KeyBindingContextPredicate
  metaIndex : Option Nat

namespace KeyBinding

/-- Whether the keystrokes typed begin the binding, and whether more are needed. -/
def matchKeystrokes (os : TargetOs) (binding : KeyBinding α) (typed : List Keystroke) :
    Option Bool :=
  if binding.keystrokes.length < typed.length then none
  else if (binding.keystrokes.zip typed).all fun pair => pair.2.shouldMatch os pair.1 then
    some (decide (typed.length < binding.keystrokes.length))
  else none

variable (binding : KeyBinding α)

/-- Whether the binding takes others away instead of dispatching an action. -/
def disables : Bool := binding.action.isNoAction || binding.action.isUnbind

/-- Metadata zero is that of the user's keymap. -/
def isUsers : Bool := binding.metaIndex.all (· == 0)

end KeyBinding

end OpenGpui.Keys
