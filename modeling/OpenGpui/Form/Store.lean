/-
The form store: registered fields, each with its value against the initial one, its flags
and errors, the validation and submission tickets it has issued, and the lifecycle of one
submission.
-/
import OpenGpui.Collections
import OpenGpui.Library.Primitives

namespace OpenGpui.Form

abbrev FieldPath := String
abbrev FieldId := String

/-- The identity of a store.  Tickets carry the identity of the store that issued
them, and no two stores share one. -/
abbrev FormAuthority := Nat

/-- Permission to complete one validation of a field at one revision. -/
structure ValidationTicket where
  authority : FormAuthority
  path : FieldPath
  valueRevision : Nat
  generation : Nat

def ValidationTicket.belongsTo (ticket : ValidationTicket) (authority : FormAuthority) : Bool :=
  ticket.authority == authority

/-- What came of a completed validation. -/
inductive ValidationCompletion where
  | applied
  | stale
  | cancelled

/-- The flags and errors of a field. -/
structure FieldMetaSnapshot where
  dirty : Bool := false
  touched : Bool := false
  visited : Bool := false
  validating : Bool := false
  errors : List String := []

universe u

/-- A registered field. -/
structure FieldState (Value : Type u) where
  id : FieldId
  path : FieldPath
  initialValue : Value
  value : Value
  metaSnapshot : FieldMetaSnapshot
  valueRevision : Nat
  activeValidationGeneration : Option Nat

namespace FieldState

variable {Value : Type u}

def new (path : FieldPath) (initialValue : Value) : FieldState Value where
  id := path
  path := path
  initialValue := initialValue
  value := initialValue
  metaSnapshot := {}
  valueRevision := 0
  activeValidationGeneration := none

variable (field : FieldState Value)

/-- The field no longer waits for a validation. -/
def cancelValidation : FieldState Value :=
  { field with
    activeValidationGeneration := none
    metaSnapshot := { field.metaSnapshot with validating := false } }

/-- Whether the value changed, and the field after it. -/
def setValue [BEq Value] (field : FieldState Value) (value : Value) : Bool × FieldState Value :=
  if field.value == value then
    (false, field)
  else
    (true, { field with
        value := value
        valueRevision := U64.saturatingAdd field.valueRevision 1
        metaSnapshot :=
          { field.metaSnapshot with dirty := value != field.initialValue, errors := [] }
        : FieldState Value }.cancelValidation)

def touch : FieldState Value :=
  { field with metaSnapshot := { field.metaSnapshot with touched := true } }

def visit : FieldState Value :=
  { field with metaSnapshot := { field.metaSnapshot with visited := true } }

/-- Errors from outside end the running validation. -/
def setErrors (errors : List String) : FieldState Value :=
  let field := field.cancelValidation
  { field with metaSnapshot := { field.metaSnapshot with errors := errors } }

/-- A ticket for the value at its present revision. -/
def beginValidation (authority : FormAuthority) (generation : Nat) :
    ValidationTicket × FieldState Value :=
  (⟨authority, field.path, field.valueRevision, generation⟩, { field with
      activeValidationGeneration := some generation
      metaSnapshot := { field.metaSnapshot with validating := true } })

/-- Errors are written only for the awaited generation and the same value. -/
def completeValidation (ticket : ValidationTicket)
    (errors : List String) : ValidationCompletion × FieldState Value :=
  match field.activeValidationGeneration with
  | none => (.cancelled, field)
  | some generation =>
    if generation = ticket.generation then
      if ticket.valueRevision = field.valueRevision then
        (.applied, { field with
            activeValidationGeneration := none
            metaSnapshot := { field.metaSnapshot with validating := false, errors := errors } })
      else
        (.cancelled, field)
    else
      (.stale, field)

/-- Back to the initial value, as a new revision. -/
def reset : FieldState Value :=
  { field with
    value := field.initialValue
    valueRevision := U64.saturatingAdd field.valueRevision 1
    metaSnapshot := {}
    activeValidationGeneration := none }

end FieldState

/-- Permission to finish one submission of a form at one revision. -/
structure SubmitTicket where
  authority : FormAuthority
  formRevision : Nat
  generation : Nat
deriving DecidableEq

def SubmitTicket.belongsTo (ticket : SubmitTicket) (authority : FormAuthority) : Bool :=
  ticket.authority == authority

/-- What came of a finished submission. -/
inductive SubmitCompletion where
  | applied
  | stale
  | cancelled

/-- Where a form stands in its submission. -/
inductive SubmissionPhase where
  | idle
  | submitting (ticket : SubmitTicket)
  | submitted
  | submitFailed
deriving DecidableEq

namespace SubmissionPhase

def isSubmitting : SubmissionPhase → Bool
  | submitting _ => true
  | _ => false

def isTerminal : SubmissionPhase → Bool
  | submitted | submitFailed => true
  | _ => false

end SubmissionPhase

/-- Why a form cannot be submitted. -/
inductive SubmitBlockReason where
  | invalid
  | validating
  | alreadySubmitting

inductive FormError where
  | duplicateField (path : FieldPath)
  | unknownField (path : FieldPath)
  | cannotSubmit (reason : SubmitBlockReason)
  | cannotValidateWhileSubmitting
  | lifecycleGenerationExhausted

/-- The fields of a form and the state of its submission. -/
structure FormStore (Value : Type u) where
  authority : FormAuthority
  fields : KeyMap FieldPath (FieldState Value)
  submission : SubmissionPhase
  errors : List String
  submitCount : Nat
  formRevision : Nat
  nextValidationGeneration : Nat
  nextSubmitGeneration : Nat

def U32_MAX : Nat := 2 ^ 32 - 1

/-- The next generation of a counter, unless it is exhausted. -/
def nextGeneration (current : Nat) : Except FormError Nat :=
  match U64.checkedAdd current 1 with
  | some next => .ok next
  | none => .error .lifecycleGenerationExhausted

namespace FormStore

variable {Value : Type u}

/-- A new store, with an identity of its own. -/
def default (authority : FormAuthority) : FormStore Value where
  authority := authority
  fields := ∅
  submission := .idle
  errors := []
  submitCount := 0
  formRevision := 0
  nextValidationGeneration := 0
  nextSubmitGeneration := 0

variable (store : FormStore Value)

def isValidating : Bool := store.fields.toList.any fun entry => entry.2.metaSnapshot.validating

def isInvalid : Bool := store.fields.toList.any fun entry => !entry.2.metaSnapshot.errors.isEmpty

/-- The outcome of a finished submission is forgotten. -/
def clearTerminalSubmission : FormStore Value :=
  if store.submission.isTerminal then
    { store with submission := .idle, errors := [] }
  else
    store

/-- The form changed, and a submission of it is given up. -/
def advanceFormRevision : FormStore Value :=
  { store with
    formRevision := U64.saturatingAdd store.formRevision 1
    submission := .idle
    errors := [] }

variable (path : FieldPath)

def setField (field : FieldState Value) : FormStore Value :=
  { store with fields := store.fields.insert path field }

/-- A path is registered once. -/
def registerField (initialValue : Value) : Except FormError Unit × FormStore Value :=
  if store.fields.contains path then
    (.error (.duplicateField path), store)
  else
    (.ok (), (store.setField path (.new path initialValue)).advanceFormRevision)

/-- Only a value that differs advances the form. -/
def setValue [BEq Value] (store : FormStore Value) (path : FieldPath) (value : Value) :
    Except FormError Unit × FormStore Value :=
  match store.fields[path]? with
  | none => (.error (.unknownField path), store)
  | some field =>
    let (changed, field) := field.setValue value
    if changed then
      (.ok (), (store.setField path field).advanceFormRevision)
    else
      (.ok (), store.setField path field)

def touch (store : FormStore Value) (path : FieldPath) : Except FormError Unit × FormStore Value :=
  match store.fields[path]? with
  | none => (.error (.unknownField path), store)
  | some field => (.ok (), store.setField path field.touch)

def visit (store : FormStore Value) (path : FieldPath) : Except FormError Unit × FormStore Value :=
  match store.fields[path]? with
  | none => (.error (.unknownField path), store)
  | some field => (.ok (), store.setField path field.visit)

/-- The errors the validator finds. -/
def validateField
    (validator : Value → List String) : Except FormError (List String) × FormStore Value :=
  if store.submission.isSubmitting then
    (.error .cannotValidateWhileSubmitting, store)
  else
    match store.fields[path]? with
    | none => (.error (.unknownField path), store)
    | some field =>
      let errors := validator field.value
      (.ok errors, store.clearTerminalSubmission.setField path (field.setErrors errors))

/-- The next validation of a field, which no submission may overlap. -/
def beginAsyncValidation : Except FormError ValidationTicket × FormStore Value :=
  if store.submission.isSubmitting then
    (.error .cannotValidateWhileSubmitting, store)
  else
    match store.fields[path]? with
    | none => (.error (.unknownField path), store)
    | some field =>
      match nextGeneration store.nextValidationGeneration with
      | .error error => (.error error, store)
      | .ok generation =>
        let store := { store with nextValidationGeneration := generation }
        let (ticket, field) := field.beginValidation store.authority generation
        (.ok ticket, store.clearTerminalSubmission.setField path field)

/-- The outcome of a validation that this store began. -/
def completeAsyncValidation (ticket : ValidationTicket)
    (errors : List String) : ValidationCompletion × FormStore Value :=
  if ticket.belongsTo store.authority then
    match store.fields[ticket.path]? with
    | none => (.cancelled, store)
    | some field =>
      let (completion, field) := field.completeValidation ticket errors
      (completion, store.setField ticket.path field)
  else
    (.cancelled, store)

/-- A valid and settled form is submitted, one submission at a time. -/
def beginSubmit : Except FormError SubmitTicket × FormStore Value :=
  if store.submission.isSubmitting then
    (.error (.cannotSubmit .alreadySubmitting), store)
  else if store.isValidating then
    (.error (.cannotSubmit .validating), store)
  else if store.isInvalid then
    (.error (.cannotSubmit .invalid), store)
  else
    match nextGeneration store.nextSubmitGeneration with
    | .error error => (.error error, store)
    | .ok generation =>
      let ticket := ⟨store.authority, store.formRevision, generation⟩
      (.ok ticket, { store with
          nextSubmitGeneration := generation
          submission := .submitting ticket
          submitCount := min (store.submitCount + 1) U32_MAX
          errors := [] })

variable (ticket : SubmitTicket)

/-- How the store takes the end of a submission. -/
def submitCompletion : SubmitCompletion :=
  if ticket.belongsTo store.authority then
    match store.submission with
    | .submitting active => if active = ticket then .applied else .stale
    | .idle | .submitted | .submitFailed => .cancelled
  else
    .cancelled

def finishSubmitSuccess : SubmitCompletion × FormStore Value :=
  match store.submitCompletion ticket with
  | .applied => (.applied, { store with submission := .submitted, errors := [] })
  | completion => (completion, store)

def finishSubmitError (error : String) : SubmitCompletion × FormStore Value :=
  match store.submitCompletion ticket with
  | .applied => (.applied, { store with submission := .submitFailed, errors := [error] })
  | completion => (completion, store)

/-- Every field is reset, and the form advances. -/
def reset (store : FormStore Value) : FormStore Value :=
  { store with fields := store.fields.map fun _ (field : FieldState Value) => field.reset
      }.advanceFormRevision

theorem get_setField (path other : FieldPath) (field : FieldState Value) :
    (store.setField path field).fields[other]? =
      if path = other then some field else store.fields[other]? :=
  KeyMap.get_insert _ _ _ _

/-- A field written back changes nothing. -/
theorem setField_get {store : FormStore Value} {path : FieldPath} {field : FieldState Value}
    (hget : store.fields[path]? = some field) : store.setField path field = store := by
  rw [setField, KeyMap.insert_get_self hget]

@[simp] theorem fields_clearTerminalSubmission :
    store.clearTerminalSubmission.fields = store.fields := by
  unfold clearTerminalSubmission
  split <;> rfl

@[simp] theorem authority_clearTerminalSubmission :
    store.clearTerminalSubmission.authority = store.authority := by
  unfold clearTerminalSubmission
  split <;> rfl

theorem get_reset : store.reset.fields[path]? = store.fields[path]?.map FieldState.reset := by
  show (store.fields.map fun _ (field : FieldState Value) => field.reset)[path]? = _
  rw [Std.ExtTreeMap.getElem?_map]

end FormStore

end OpenGpui.Form
