/-
Sessions of a form store: the operations a program performs on it, the log of what they
did, told by their results, and the steps that one operation can take.
-/
import OpenGpui.Form.Store
import OpenGpui.Library.EventLog

namespace OpenGpui.Form

open SubmitTicket

universe u

/-- The calls a program makes on a store. -/
inductive FormOperation (Value : Type u) where
  | registerField (path : FieldPath) (initialValue : Value)
  | setValue (path : FieldPath) (value : Value)
  | touch (path : FieldPath)
  | visit (path : FieldPath)
  | validateField (path : FieldPath) (validator : Value → List String)
  | beginAsyncValidation (path : FieldPath)
  | completeAsyncValidation (ticket : ValidationTicket) (errors : List String)
  | beginSubmit
  | finishSubmitSuccess (ticket : SubmitTicket)
  | finishSubmitError (ticket : SubmitTicket) (error : String)
  | reset

/-- What a call did. -/
inductive FormEvent (Value : Type u) where
  | registered (path : FieldPath)
  /-- A value was written that differs from the one before it. -/
  | edited (path : FieldPath)
  | validated (path : FieldPath)
  | validationBegun (ticket : ValidationTicket)
  | validationCompleted (path : FieldPath)
  /-- A submission began, with these fields and values. -/
  | submitBegun (ticket : SubmitTicket) (values : KeyMap FieldPath Value)
  | submitFinished (ticket : SubmitTicket)
  | reset

namespace FormEvent

variable {Value : Type u}

/-- The event decides about the validation of the field. -/
def ConcernsField (path : FieldPath) : FormEvent Value → Prop
  | edited other | validated other | validationCompleted other => other = path
  | validationBegun ticket => ticket.path = path
  | reset => True
  | registered _ | submitBegun _ _ | submitFinished _ => False

/-- The event begins or ends a submission. -/
def ConcernsSubmission : FormEvent Value → Prop
  | registered _ | edited _ | submitBegun _ _ | submitFinished _ | reset => True
  | validated _ | validationBegun _ | validationCompleted _ => False

/-- The submission that the event ended. -/
def finishedTicket : FormEvent Value → Option SubmitTicket
  | submitFinished ticket => some ticket
  | _ => none

end FormEvent

namespace FormStore

variable {Value : Type u} [BEq Value] (store : FormStore Value)

/-- The values of the fields, by path. -/
def values : KeyMap FieldPath Value := store.fields.map fun _ field => field.value

/-- What the operation did, and the store after it. -/
def perform :
    FormOperation Value → List (FormEvent Value) × FormStore Value
  | .registerField path initialValue =>
    match store.registerField path initialValue with
    | (.ok _, next) => ([.registered path], next)
    | (.error _, next) => ([], next)
  | .setValue path value =>
    let changed := store.fields[path]?.any fun field => field.value != value
    (if changed then [.edited path] else [], (store.setValue path value).2)
  | .touch path => ([], (store.touch path).2)
  | .visit path => ([], (store.visit path).2)
  | .validateField path validator =>
    match store.validateField path validator with
    | (.ok _, next) => ([.validated path], next)
    | (.error _, next) => ([], next)
  | .beginAsyncValidation path =>
    match store.beginAsyncValidation path with
    | (.ok ticket, next) => ([.validationBegun ticket], next)
    | (.error _, next) => ([], next)
  | .completeAsyncValidation ticket errors =>
    match store.completeAsyncValidation ticket errors with
    | (.applied, next) => ([.validationCompleted ticket.path], next)
    | (_, next) => ([], next)
  | .beginSubmit =>
    match store.beginSubmit with
    | (.ok ticket, next) => ([.submitBegun ticket store.values], next)
    | (.error _, next) => ([], next)
  | .finishSubmitSuccess ticket =>
    match store.finishSubmitSuccess ticket with
    | (.applied, next) => ([.submitFinished ticket], next)
    | (_, next) => ([], next)
  | .finishSubmitError ticket error =>
    match store.finishSubmitError ticket error with
    | (.applied, next) => ([.submitFinished ticket], next)
    | (_, next) => ([], next)
  | .reset => ([.reset], store.reset)

end FormStore

/-- A store and what has been done to it, the newest event first. -/
structure FormSession (Value : Type u) where
  store : FormStore Value
  history : List (FormEvent Value)

namespace FormSession

variable {Value : Type u} [BEq Value] (authority : FormAuthority)

def start : FormSession Value := ⟨.default authority, []⟩

def perform (session : FormSession Value) (operation : FormOperation Value) : FormSession Value :=
  ⟨(session.store.perform operation).2, (session.store.perform operation).1 ++ session.history⟩

/-- The session after a list of operations on a new store. -/
def run (operations : List (FormOperation Value)) : FormSession Value :=
  operations.foldl perform (start authority)

/-- What holds at the start and is kept by every operation holds after every run. -/
theorem run_invariant {invariant : FormSession Value → Prop} {authority : FormAuthority}
    (hstart : invariant (start authority))
    (hperform : ∀ session operation, invariant session → invariant (session.perform operation))
    (operations : List (FormOperation Value)) : invariant (run authority operations) :=
  List.foldlRecOn operations perform hstart fun session hinvariant operation _ =>
    hperform session operation hinvariant

end FormSession

variable {Value : Type u}

/-- The validation the field is waiting for. -/
def FieldState.Awaits (field : FieldState Value) (ticket : ValidationTicket) : Prop :=
  field.activeValidationGeneration = some ticket.generation ∧
    ticket.valueRevision = field.valueRevision

namespace FormStore

/-- The validation the store is waiting for at a path. -/
def Awaits (store : FormStore Value) (path : FieldPath) (ticket : ValidationTicket) : Prop :=
  ticket.authority = store.authority ∧ ticket.path = path ∧
    ∃ field, store.fields[path]? = some field ∧ field.Awaits ticket

end FormStore

namespace FieldState

theorem completeValidation_cases (field : FieldState Value) (ticket : ValidationTicket)
    (errors : List String) :
    field.Awaits ticket ∧ (field.completeValidation ticket errors).1 = .applied ∨
      ¬ field.Awaits ticket ∧ (field.completeValidation ticket errors).1 ≠ .applied ∧
        (field.completeValidation ticket errors).2 = field := by
  rw [completeValidation, Awaits]
  cases hactive : field.activeValidationGeneration with
  | none => simp
  | some generation =>
    by_cases hgeneration : generation = ticket.generation
    · by_cases hrevision : ticket.valueRevision = field.valueRevision <;>
        simp [hgeneration, hrevision]
    · simp [hgeneration]

end FieldState

namespace FormStore

variable (store : FormStore Value)

/-- The events and the next store of a step. -/
inductive Steps [BEq Value] : List (FormEvent Value) → FormStore Value → Prop
  | unchanged : Steps [] store
  | registered (path : FieldPath) (initialValue : Value) (hget : store.fields[path]? = none) :
      Steps [.registered path] (store.setField path (.new path initialValue)).advanceFormRevision
  | edited (path : FieldPath) (field : FieldState Value) (value : Value)
      (hget : store.fields[path]? = some field) (hne : (field.value == value) = false) :
      Steps [.edited path] (store.setField path (field.setValue value).2).advanceFormRevision
  | touched (path : FieldPath) (field : FieldState Value)
      (hget : store.fields[path]? = some field) : Steps [] (store.setField path field.touch)
  | visited (path : FieldPath) (field : FieldState Value)
      (hget : store.fields[path]? = some field) : Steps [] (store.setField path field.visit)
  | validated (path : FieldPath) (field : FieldState Value) (errors : List String)
      (hsubmission : store.submission.isSubmitting = false)
      (hget : store.fields[path]? = some field) :
      Steps [.validated path] (store.clearTerminalSubmission.setField path (field.setErrors errors))
  | validationBegun (path : FieldPath) (field : FieldState Value) (generation : Nat)
      (hsubmission : store.submission.isSubmitting = false)
      (hget : store.fields[path]? = some field)
      (hgeneration : nextGeneration store.nextValidationGeneration = .ok generation) :
      Steps [.validationBegun (field.beginValidation store.authority generation).1]
        ({ store with nextValidationGeneration := generation }.clearTerminalSubmission.setField
          path (field.beginValidation store.authority generation).2)
  | validationCompleted (ticket : ValidationTicket) (field : FieldState Value)
      (errors : List String) (hauthority : ticket.authority = store.authority)
      (hget : store.fields[ticket.path]? = some field) (hawaits : field.Awaits ticket) :
      Steps [.validationCompleted ticket.path]
        (store.setField ticket.path (field.completeValidation ticket errors).2)
  | submitBegun (generation : Nat) (hsubmission : store.submission.isSubmitting = false)
      (hvalidating : store.isValidating = false) (hinvalid : store.isInvalid = false)
      (hgeneration : nextGeneration store.nextSubmitGeneration = .ok generation) :
      Steps [.submitBegun ⟨store.authority, store.formRevision, generation⟩ store.values]
        { store with
          nextSubmitGeneration := generation
          submission := .submitting ⟨store.authority, store.formRevision, generation⟩
          submitCount := min (store.submitCount + 1) U32_MAX
          errors := [] }
  | submitFinished (ticket : SubmitTicket) (phase : SubmissionPhase) (errors : List String)
      (hsubmission : store.submission = .submitting ticket) (hphase : phase.isSubmitting = false) :
      Steps [.submitFinished ticket] { store with submission := phase, errors := errors }
  | reset : Steps [.reset] store.reset

theorem completeAsyncValidation_cases (ticket : ValidationTicket) (errors : List String) :
    (∃ field, ticket.authority = store.authority ∧ store.fields[ticket.path]? = some field ∧
      field.Awaits ticket ∧ store.completeAsyncValidation ticket errors =
        (.applied, store.setField ticket.path (field.completeValidation ticket errors).2)) ∨
    ¬ store.Awaits ticket.path ticket ∧ ∃ completion, completion ≠ .applied ∧
      store.completeAsyncValidation ticket errors = (completion, store) := by
  by_cases hauthority : ticket.authority = store.authority
  · cases hget : store.fields[ticket.path]? with
    | none =>
      refine .inr ⟨?_, .cancelled, nofun, by simp [completeAsyncValidation, hget]⟩
      simp [Awaits, hget]
    | some field =>
      have hcomplete : store.completeAsyncValidation ticket errors =
          ((field.completeValidation ticket errors).1,
            store.setField ticket.path (field.completeValidation ticket errors).2) := by
        simp [completeAsyncValidation, ValidationTicket.belongsTo, hauthority, hget]
      rcases field.completeValidation_cases ticket errors with
        ⟨hawaits, happlied⟩ | ⟨hawaits, hrejected, hsame⟩
      · exact .inl ⟨field, hauthority, rfl, hawaits, by rw [hcomplete, happlied]⟩
      · refine .inr ⟨?_, _, hrejected, by rw [hcomplete, hsame, setField_get hget]⟩
        simpa [Awaits, hget] using fun _ => hawaits
  · refine .inr ⟨fun hawaits => hauthority hawaits.1, .cancelled, nofun, ?_⟩
    simp [completeAsyncValidation, ValidationTicket.belongsTo, hauthority]

/-- A submission begins under a fresh ticket, or nothing happens. -/
theorem beginSubmit_cases :
    (∃ generation, store.submission.isSubmitting = false ∧ store.isValidating = false ∧
      store.isInvalid = false ∧ nextGeneration store.nextSubmitGeneration = .ok generation ∧
      store.beginSubmit = (.ok ⟨store.authority, store.formRevision, generation⟩, { store with
          nextSubmitGeneration := generation
          submission := .submitting ⟨store.authority, store.formRevision, generation⟩
          submitCount := min (store.submitCount + 1) U32_MAX
          errors := [] })) ∨
    ∃ error, store.beginSubmit = (.error error, store) := by
  by_cases hsubmission : store.submission.isSubmitting = true
  · exact .inr ⟨_, by rw [beginSubmit, if_pos hsubmission]⟩
  by_cases hvalidating : store.isValidating = true
  · exact .inr ⟨_, by rw [beginSubmit, if_neg hsubmission, if_pos hvalidating]⟩
  by_cases hinvalid : store.isInvalid = true
  · exact .inr ⟨_, by rw [beginSubmit, if_neg hsubmission, if_neg hvalidating, if_pos hinvalid]⟩
  rw [beginSubmit, if_neg hsubmission, if_neg hvalidating, if_neg hinvalid]
  cases hgeneration : nextGeneration store.nextSubmitGeneration with
  | error error => exact .inr ⟨error, rfl⟩
  | ok generation => exact .inl ⟨generation, by simpa using hsubmission, by simpa using hvalidating,
      by simpa using hinvalid, rfl, rfl⟩

/-- Only the ticket of the running submission is applied. -/
theorem submitCompletion_applied_iff {ticket : SubmitTicket} :
    store.submitCompletion ticket = .applied ↔
      ticket.authority = store.authority ∧ store.submission = .submitting ticket := by
  by_cases hauthority : ticket.authority = store.authority
  · cases hsubmission : store.submission with
    | submitting active =>
      by_cases heq : active = ticket <;>
        simp [submitCompletion, belongsTo, hauthority, hsubmission, heq]
    | _ => simp [submitCompletion, belongsTo, hauthority, hsubmission]
  · simp [submitCompletion, belongsTo, hauthority]

/-- Every operation is one of the steps. -/
theorem perform_steps [BEq Value] (operation : FormOperation Value) :
    store.Steps (store.perform operation).1 (store.perform operation).2 := by
  cases operation with
  | registerField path initialValue =>
    by_cases hcontains : store.fields.contains path = true
    · simpa [perform, registerField, hcontains] using Steps.unchanged
    · have hget : store.fields[path]? = none := by simpa using hcontains
      simpa [perform, registerField, hcontains] using Steps.registered path initialValue hget
  | setValue path value =>
    cases hget : store.fields[path]? with
    | none => simpa [perform, setValue, hget] using Steps.unchanged
    | some field =>
      cases hsame : field.value == value with
      | true =>
        simpa [perform, setValue, hget, FieldState.setValue, bne, hsame, setField_get hget]
          using Steps.unchanged
      | false =>
        have hstep := Steps.edited path field value hget hsame
        simpa [perform, setValue, hget, FieldState.setValue, bne, hsame] using hstep
  | touch path =>
    cases hget : store.fields[path]? with
    | none => simpa [perform, touch, hget] using Steps.unchanged
    | some field => simpa [perform, touch, hget] using Steps.touched path field hget
  | visit path =>
    cases hget : store.fields[path]? with
    | none => simpa [perform, visit, hget] using Steps.unchanged
    | some field => simpa [perform, visit, hget] using Steps.visited path field hget
  | validateField path validator =>
    cases hsubmission : store.submission.isSubmitting with
    | true => simpa [perform, validateField, hsubmission] using Steps.unchanged
    | false =>
      cases hget : store.fields[path]? with
      | none => simpa [perform, validateField, hsubmission, hget] using Steps.unchanged
      | some field =>
        simpa [perform, validateField, hsubmission, hget] using
          Steps.validated path field (validator field.value) hsubmission hget
  | beginAsyncValidation path =>
    cases hsubmission : store.submission.isSubmitting with
    | true => simpa [perform, beginAsyncValidation, hsubmission] using Steps.unchanged
    | false =>
      cases hget : store.fields[path]? with
      | none => simpa [perform, beginAsyncValidation, hsubmission, hget] using Steps.unchanged
      | some field =>
        cases hgeneration : nextGeneration store.nextValidationGeneration with
        | error error =>
          simpa [perform, beginAsyncValidation, hsubmission, hget, hgeneration]
            using Steps.unchanged
        | ok generation =>
          simpa [perform, beginAsyncValidation, hsubmission, hget, hgeneration]
            using Steps.validationBegun path field generation hsubmission hget hgeneration
  | completeAsyncValidation ticket errors =>
    rw [perform]
    rcases store.completeAsyncValidation_cases ticket errors with
      ⟨field, hauthority, hget, hawaits, hcomplete⟩ | ⟨-, completion, hrejected, hcomplete⟩
    · rw [hcomplete]
      exact .validationCompleted ticket field errors hauthority hget hawaits
    · rw [hcomplete]
      cases completion with
      | applied => exact absurd rfl hrejected
      | stale | cancelled => exact .unchanged
  | beginSubmit =>
    rw [perform]
    rcases store.beginSubmit_cases with
      ⟨generation, hsubmission, hvalidating, hinvalid, hgeneration, hbegin⟩ | ⟨error, hbegin⟩
    · rw [hbegin]
      exact .submitBegun generation hsubmission hvalidating hinvalid hgeneration
    · rw [hbegin]
      exact .unchanged
  | finishSubmitSuccess ticket =>
    rw [perform, finishSubmitSuccess]
    cases hcompletion : store.submitCompletion ticket with
    | applied =>
      have hactive := (store.submitCompletion_applied_iff.mp hcompletion).2
      exact .submitFinished ticket .submitted [] hactive rfl
    | stale | cancelled => exact .unchanged
  | finishSubmitError ticket error =>
    rw [perform, finishSubmitError]
    cases hcompletion : store.submitCompletion ticket with
    | applied =>
      have hactive := (store.submitCompletion_applied_iff.mp hcompletion).2
      exact .submitFinished ticket .submitFailed [error] hactive rfl
    | stale | cancelled => exact .unchanged
  | reset => exact .reset

end FormStore

end OpenGpui.Form
