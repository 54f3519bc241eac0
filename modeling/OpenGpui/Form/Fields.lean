/-
What an operation can do to a field, and the invariant it keeps: the dirty and
validating flags say what the values and the running validation say.
-/
import OpenGpui.Form.Session

namespace OpenGpui.Form

open Option

universe u

variable {Value : Type u} [BEq Value]

namespace FieldState

/-- What one operation makes of a field. -/
inductive Becomes (field : FieldState Value) : FieldState Value → Prop
  | same : Becomes field field
  | edited (value : Value) : Becomes field (field.setValue value).2
  | touched : Becomes field field.touch
  | visited : Becomes field field.visit
  | validated (errors : List String) : Becomes field (field.setErrors errors)
  | begun (authority : FormAuthority) (generation : Nat) :
      Becomes field (field.beginValidation authority generation).2
  | completed (ticket : ValidationTicket) (errors : List String) :
      Becomes field (field.completeValidation ticket errors).2
  | reset : Becomes field field.reset

/-- The flags say what the values and the running validation say. -/
structure Consistent (field : FieldState Value) : Prop where
  dirty_eq : field.metaSnapshot.dirty = (field.value != field.initialValue)
  validating_eq : field.metaSnapshot.validating = field.activeValidationGeneration.isSome

theorem consistent_new [ReflBEq Value] (path : FieldPath) (initialValue : Value) :
    (new path initialValue).Consistent where
  dirty_eq := by simp [new, bne]
  validating_eq := rfl

variable {field next : FieldState Value}

theorem Becomes.consistent [ReflBEq Value]
    (hbecomes : field.Becomes next) (hfield : field.Consistent) : next.Consistent := by
  obtain ⟨hdirty, hvalidating⟩ := hfield
  cases hbecomes with
  | same | touched | visited => exact ⟨hdirty, hvalidating⟩
  | edited value =>
    by_cases hsame : (field.value == value) = true
    · simp only [setValue, hsame, if_true]
      exact ⟨hdirty, hvalidating⟩
    · constructor <;> simp [setValue, hsame, cancelValidation]
  | validated errors | begun authority generation => exact ⟨hdirty, rfl⟩
  | completed ticket errors =>
    unfold completeValidation
    split
    · exact ⟨hdirty, hvalidating⟩
    · split
      · split
        · exact ⟨hdirty, rfl⟩
        · exact ⟨hdirty, hvalidating⟩
      · exact ⟨hdirty, hvalidating⟩
  | reset => constructor <;> simp [FieldState.reset, bne]

/-- No operation moves a field to another path. -/
theorem Becomes.path_eq (hbecomes : field.Becomes next) : next.path = field.path := by
  cases hbecomes with
  | edited value =>
    unfold setValue
    split <;> rfl
  | completed ticket errors =>
    unfold completeValidation
    split
    · rfl
    · split
      · split <;> rfl
      · rfl
  | _ => rfl

end FieldState

namespace FormStore

variable {store next : FormStore Value}

/-- Every field of the next store comes from an earlier one by one operation, or is new. -/
def FieldsBecome (store next : FormStore Value) : Prop :=
  ∀ (path : FieldPath) (field : FieldState Value), next.fields[path]? = some field →
    (∃ old, store.fields[path]? = some old ∧ old.Becomes field) ∨
      ∃ initialValue, field = .new path initialValue

theorem fieldsBecome_of_write {path : FieldPath} {old written : FieldState Value}
    (hget : store.fields[path]? = some old) (hbecomes : old.Becomes written)
    (hfields : next.fields = store.fields.insert path written) : store.FieldsBecome next := by
  intro other field hother
  rw [hfields, KeyMap.get_insert] at hother
  by_cases heq : path = other
  · subst heq
    rw [if_pos rfl] at hother
    obtain rfl := some.inj hother
    exact .inl ⟨old, hget, hbecomes⟩
  · rw [if_neg heq] at hother
    exact .inl ⟨field, hother, .same⟩

/-- Each kind of step takes every field along or makes it new. -/
theorem Steps.fields {events : List (FormEvent Value)} (hstep : store.Steps events next) :
    store.FieldsBecome next := by
  have hsame : store.FieldsBecome store := fun path field hget => .inl ⟨field, hget, .same⟩
  cases hstep with
  | unchanged | submitBegun | submitFinished => exact hsame
  | registered path initialValue hget =>
    intro other field hother
    by_cases heq : path = other
    · subst heq
      have hnew := (get_setField store path path (.new path initialValue)).trans (if_pos rfl)
      exact .inr ⟨initialValue, some.inj (hother.symm.trans hnew)⟩
    · have hold := (get_setField store path other (.new path initialValue)).trans (if_neg heq)
      exact .inl ⟨field, hold.symm.trans hother, .same⟩
  | edited path field value hget hne => exact fieldsBecome_of_write hget (.edited value) rfl
  | touched path field hget => exact fieldsBecome_of_write hget .touched rfl
  | visited path field hget => exact fieldsBecome_of_write hget .visited rfl
  | validated path field errors hsubmission hget =>
    apply fieldsBecome_of_write hget (.validated errors)
    simp [setField]
  | validationBegun path field generation hsubmission hget hgeneration =>
    apply fieldsBecome_of_write hget (.begun store.authority generation)
    simp [setField]
  | validationCompleted ticket field errors hauthority hget hawaits =>
    exact fieldsBecome_of_write hget (.completed ticket errors) rfl
  | reset =>
    intro path field hget
    rw [get_reset, map_eq_some_iff] at hget
    obtain ⟨old, hold, rfl⟩ := hget
    exact .inl ⟨old, hold, .reset⟩

end FormStore

namespace FormSession

/-- Every field of the store, by its path. -/
def EveryField (good : FieldPath → FieldState Value → Prop) (session : FormSession Value) : Prop :=
  ∀ (path : FieldPath) (field : FieldState Value),
    session.store.fields[path]? = some field → good path field

omit [BEq Value] in
theorem everyField_start (good : FieldPath → FieldState Value → Prop) (authority : FormAuthority) :
    (start authority).EveryField good := by
  intro path field hget
  simp [start, FormStore.default] at hget

section

variable {good : FieldPath → FieldState Value → Prop}
  (hnew : ∀ path initialValue, good path (.new path initialValue))
  (hbecomes : ∀ path (field next : FieldState Value), field.Becomes next → good path field →
    good path next)

include hnew hbecomes

/-- A property of new fields that every operation keeps is kept by a session. -/
theorem EveryField.perform {session : FormSession Value} (hgood : session.EveryField good)
    (operation : FormOperation Value) : (session.perform operation).EveryField good := by
  intro path field hget
  rcases (session.store.perform_steps operation).fields path field hget with
    ⟨old, hold, hfield⟩ | ⟨initialValue, rfl⟩
  · exact hbecomes path old field hfield (hgood path old hold)
  · exact hnew path initialValue

end

/-- Every field is stored under its own path. -/
def Named (session : FormSession Value) : Prop := session.EveryField fun path field =>
  field.path = path

variable {session : FormSession Value}

theorem Named.perform (hnamed : session.Named)
    (operation : FormOperation Value) : (session.perform operation).Named := by
  apply EveryField.perform _ _ hnamed
  · intro path initialValue
    rfl
  · intro path field next hbecomes hpath
    rw [hbecomes.path_eq, hpath]

def Consistent (session : FormSession Value) : Prop := session.EveryField fun _ field =>
  field.Consistent

theorem Consistent.perform [ReflBEq Value]
    (hconsistent : session.Consistent) (operation : FormOperation Value) :
    (session.perform operation).Consistent := by
  apply EveryField.perform _ _ hconsistent
  · exact FieldState.consistent_new
  · intro path field next hbecomes hfield
    exact hbecomes.consistent hfield

end FormSession

end OpenGpui.Form
