/-
Validation tickets: the store awaits a ticket exactly when issuing it is the latest
thing that happened to the validation of its field, so a completion is applied for
that ticket and no other.
-/
import OpenGpui.Form.Fields

namespace OpenGpui.Form

open FieldState

universe u

variable {Value : Type u}

open EventLog FormEvent

namespace FormStore

variable {store next : FormStore Value} {path other : FieldPath} {field written : FieldState Value}
  {ticket : ValidationTicket}

theorem awaits_congr (hauthority : next.authority = store.authority)
    (hfields : next.fields[path]? = store.fields[path]?) :
    next.Awaits path ticket ↔ store.Awaits path ticket := by
  rw [Awaits, Awaits, hauthority, hfields]

theorem awaits_of_get (hget : store.fields[path]? = some field) : store.Awaits path ticket ↔
      ticket.authority = store.authority ∧ ticket.path = path ∧ field.Awaits ticket := by
  simp [Awaits, hget]

theorem not_awaits_of_get (hget : store.fields[path]? = none) : ¬ store.Awaits path ticket := by
  rintro ⟨-, -, field, hsome, -⟩
  rw [hget] at hsome
  cases hsome

/-- What a step does to the validations that a path awaits. -/
abbrev StepsAwaiting (store next : FormStore Value) (events : List (FormEvent Value))
    (path : FieldPath) : Prop :=
  Step (ConcernsField path) validationBegun events (store.Awaits path) (next.Awaits path)

variable {events : List (FormEvent Value)}

/-- A step that logs nothing about the path and keeps its field. -/
theorem stepsAwaiting_of_get (hauthority : next.authority = store.authority)
    (hfields : next.fields[path]? = store.fields[path]?)
    (hevents : ∀ event ∈ events, ¬ event.ConcernsField path) :
    StepsAwaiting store next events path :=
  .quiet hevents fun _ => awaits_congr hauthority hfields

/-- A write that keeps what the field awaits, and logs nothing. -/
theorem stepsAwaiting_of_write (hget : store.fields[path]? = some field)
    (hactive : written.activeValidationGeneration = field.activeValidationGeneration)
    (hrevision : written.valueRevision = field.valueRevision) :
    StepsAwaiting store (store.setField path written) [] other := by
  refine .quiet (by simp) ?_
  intro ticket
  by_cases heq : path = other
  · subst heq
    have hwritten : (store.setField path written).fields[path]? = some written :=
      (get_setField store path path written).trans (if_pos rfl)
    rw [awaits_of_get hwritten, awaits_of_get hget, FieldState.Awaits, FieldState.Awaits, hactive,
      hrevision]
    rfl
  · exact awaits_congr rfl ((get_setField store path other written).trans (if_neg heq))

/-- A write of a field that awaits nothing, told by an event about it. -/
theorem stepsAwaiting_of_settled {event : FormEvent Value}
    (hauthority : next.authority = store.authority)
    (hfields : next.fields = store.fields.insert path written)
    (hactive : written.activeValidationGeneration = none)
    (hconcerns : ∀ other, event.ConcernsField other ↔ path = other)
    (hevent : ∀ ticket, validationBegun ticket ≠ event) :
    StepsAwaiting store next [event] other := by
  by_cases heq : path = other
  · subst heq
    refine .logged event rfl ((hconcerns path).mpr rfl) ?_
    intro ticket
    have hget : next.fields[path]? = some written := by
      rw [hfields, KeyMap.get_insert, if_pos rfl]
    rw [awaits_of_get hget, FieldState.Awaits, hactive]
    simp [hevent ticket]
  · apply stepsAwaiting_of_get hauthority
    · rw [hfields, KeyMap.get_insert, if_neg heq]
    · simpa [hconcerns] using heq

/-- Every step either says nothing about a field and keeps the validation it awaits, or
is the newest event about it. -/
theorem Steps.awaiting [BEq Value] (hstep : store.Steps events next)
    (hnamed : ∀ (path : FieldPath) (field : FieldState Value), store.fields[path]? = some field →
      field.path = path) (other : FieldPath) :
    StepsAwaiting store next events other := by
  cases hstep with
  | unchanged => exact .quiet (by simp) fun _ => Iff.rfl
  | registered path initialValue hget =>
    refine .quiet (by simp [ConcernsField]) ?_
    intro ticket
    have hnew := get_setField store path other (.new path initialValue)
    rw [show (store.setField path (.new path initialValue)).advanceFormRevision.Awaits other ticket
      ↔ (store.setField path (.new path initialValue)).Awaits other ticket from Iff.rfl]
    by_cases heq : path = other
    · subst heq
      have hawaits : ¬ store.Awaits path ticket := not_awaits_of_get hget
      rw [awaits_of_get (hnew.trans (if_pos rfl))]
      simp [hawaits, FieldState.Awaits, FieldState.new]
    · exact awaits_congr rfl (hnew.trans (if_neg heq))
  | edited path field value hget hne =>
    apply stepsAwaiting_of_settled
    · rfl
    · rfl
    · simp [FieldState.setValue, hne, cancelValidation]
    · exact fun other => Iff.rfl
    · simp
  | touched path field hget | visited path field hget => exact stepsAwaiting_of_write hget rfl rfl
  | validated path field errors hsubmission hget =>
    apply stepsAwaiting_of_settled
    · exact authority_clearTerminalSubmission store
    · rw [setField, fields_clearTerminalSubmission]
    · rfl
    · exact fun other => Iff.rfl
    · simp
  | validationBegun path field generation hsubmission hget hgeneration =>
    let advanced : FormStore Value := { store with nextValidationGeneration := generation }
    have hauthority : advanced.clearTerminalSubmission.authority = store.authority :=
      authority_clearTerminalSubmission advanced
    have hfields : advanced.clearTerminalSubmission.fields = store.fields :=
      fields_clearTerminalSubmission advanced
    have hpath := hnamed path field hget
    have hwritten := get_setField advanced.clearTerminalSubmission path other
      (field.beginValidation store.authority generation).2
    by_cases heq : path = other
    · subst heq
      refine .logged _ rfl hpath ?_
      intro ticket
      rw [awaits_of_get (hwritten.trans (if_pos rfl))]
      rw [show (advanced.clearTerminalSubmission.setField path (field.beginValidation
        store.authority generation).2).authority = store.authority from hauthority]
      cases ticket
      simp only [FieldState.Awaits, beginValidation, hpath,
        FormEvent.validationBegun.injEq, ValidationTicket.mk.injEq, Option.some.injEq]
      constructor
      · rintro ⟨rfl, rfl, rfl, rfl⟩
        exact ⟨rfl, rfl, rfl, rfl⟩
      · rintro ⟨rfl, rfl, rfl, rfl⟩
        exact ⟨rfl, rfl, rfl, rfl⟩
    · apply stepsAwaiting_of_get
      · exact hauthority
      · rw [hwritten, if_neg heq, hfields]
      · simpa [ConcernsField, beginValidation, hpath] using heq
  | validationCompleted ticket field errors hauthority hget hawaits =>
    apply stepsAwaiting_of_settled
    · rfl
    · rfl
    · simp [completeValidation, hawaits.1, hawaits.2]
    · exact fun other => Iff.rfl
    · simp
  | submitBegun | submitFinished => exact stepsAwaiting_of_get rfl rfl (by simp [ConcernsField])
  | reset =>
    refine .logged .reset rfl trivial ?_
    intro ticket
    have hget := get_reset store other
    cases hfield : store.fields[other]? with
    | none =>
      rw [hfield] at hget
      simp [not_awaits_of_get hget]
    | some field =>
      rw [hfield] at hget
      rw [awaits_of_get hget]
      simp [FieldState.Awaits, FieldState.reset]

end FormStore

namespace FormSession

/-- The ticket was issued by this store, it is the latest for its field, and no edit, reset,
synchronous validation or completion of that field has happened since. -/
def IsCurrent (session : FormSession Value) (ticket : ValidationTicket) : Prop :=
  Latest (ConcernsField ticket.path) session.history (validationBegun ticket)

variable [BEq Value]

/-- In every run a path awaits a ticket exactly when the ticket is current. -/
theorem run_tracks (authority : FormAuthority) (operations : List (FormOperation Value))
    (path : FieldPath) :
    Tracks (ConcernsField path) validationBegun (run authority operations).history
      ((run authority operations).store.Awaits path) := by
  have hrun : (run authority operations).Named ∧ Tracks (ConcernsField path) validationBegun (run
      authority operations).history ((run authority operations).store.Awaits path) := by
    refine @run_invariant _ _ (fun session => session.Named ∧
      Tracks (ConcernsField path) validationBegun session.history (session.store.Awaits path))
      authority ?_ ?_ operations
    · refine ⟨everyField_start _ authority, tracks_nil ?_⟩
      intro ticket
      apply FormStore.not_awaits_of_get
      simp [start, FormStore.default]
    · rintro session operation ⟨hnamed, htracks⟩
      have hstep := session.store.perform_steps operation
      exact ⟨hnamed.perform operation, htracks.step (hstep.awaiting hnamed path)⟩
  exact hrun.2

/-- A completion is applied exactly when its ticket is current, and otherwise changes nothing. -/
theorem complete_async_validation_applies_current (authority : FormAuthority)
    (operations : List (FormOperation Value)) (ticket : ValidationTicket) (errors : List String) :
    (((run authority operations).store.completeAsyncValidation ticket errors).1 = .applied ↔
      (run authority operations).IsCurrent ticket) ∧
    (¬ (run authority operations).IsCurrent ticket →
      ((run authority operations).store.completeAsyncValidation ticket errors).2 =
        (run authority operations).store) := by
  have htracks := run_tracks authority operations ticket.path ticket
  rw [IsCurrent, htracks]
  rcases (run authority operations).store.completeAsyncValidation_cases ticket errors with
    ⟨field, hauthority, hget, hawaits, hcomplete⟩ | ⟨hawaits, completion, hrejected, hcomplete⟩
  · have hcurrent := (FormStore.awaits_of_get hget).mpr ⟨hauthority, rfl, hawaits⟩
    rw [hcomplete]
    exact ⟨iff_of_true rfl hcurrent, fun hnot => absurd hcurrent hnot⟩
  · rw [hcomplete]
    exact ⟨iff_of_false hrejected hawaits, fun _ => rfl⟩

end FormSession

end OpenGpui.Form
