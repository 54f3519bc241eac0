/-
Submissions: one at a time, over fields that stay as they were when it began, and
finished at most once by the ticket it was begun with.
-/
import OpenGpui.Form.Fields

namespace OpenGpui.Form

open FormStore List

universe u

variable {Value : Type u}

open EventLog FormEvent

namespace FormStore

variable {store next : FormStore Value} {path : FieldPath} {field written : FieldState Value}

/-- No field is validating and none has errors. -/
def Settled (store : FormStore Value) : Prop :=
  ∀ (path : FieldPath) (field : FieldState Value), store.fields[path]? = some field →
    field.metaSnapshot.validating = false ∧ field.metaSnapshot.errors = []

/-- A form that may be submitted is settled. -/
theorem settled_of_begin (hvalidating : store.isValidating = false)
    (hinvalid : store.isInvalid = false) : store.Settled := by
  intro path field hget
  have hmem : (path, field) ∈ store.fields.toList :=
    (KeyMap.mem_toList_iff_get store.fields path field).mpr hget
  rw [isValidating, any_eq_false] at hvalidating
  rw [isInvalid, any_eq_false] at hinvalid
  exact ⟨by simpa using hvalidating _ hmem, by simpa using hinvalid _ hmem⟩

theorem Settled.setField (hsettled : store.Settled) (hget : store.fields[path]? = some field)
    (hvalidating : written.metaSnapshot.validating = field.metaSnapshot.validating)
    (herrors : written.metaSnapshot.errors = field.metaSnapshot.errors) :
    (store.setField path written).Settled := by
  intro other found hfound
  rw [get_setField] at hfound
  by_cases heq : path = other
  · rw [if_pos heq] at hfound
    obtain rfl := Option.some.inj hfound
    rw [hvalidating, herrors]
    exact hsettled path field hget
  · rw [if_neg heq] at hfound
    exact hsettled other found hfound

theorem get_values (store : FormStore Value) (path : FieldPath) :
    store.values[path]? = store.fields[path]?.map FieldState.value := by
  rw [values, Std.ExtTreeMap.getElem?_map]

/-- A write that keeps the value keeps the values. -/
theorem values_setField (hget : store.fields[path]? = some field)
    (hvalue : written.value = field.value) :
    (store.setField path written).values = store.values := by
  apply KeyMap.ext_get
  intro other
  rw [get_values, get_values, get_setField]
  by_cases heq : path = other
  · subst heq
    simp [hget, hvalue]
  · rw [if_neg heq]

theorem isSubmitting_clearTerminalSubmission (hsubmission : store.submission.isSubmitting = false) :
    store.clearTerminalSubmission.submission.isSubmitting = false := by
  unfold clearTerminalSubmission
  split
  · rfl
  · exact hsubmission

theorem ne_submitting {phase : SubmissionPhase} (hphase : phase.isSubmitting = false)
    (ticket : SubmitTicket) : phase ≠ .submitting ticket := by
  rintro rfl
  cases hphase

/-- The submission in progress and the values of the fields. -/
def Submits (store : FormStore Value) (begun : SubmitTicket × KeyMap FieldPath Value) : Prop :=
  store.submission = .submitting begun.1 ∧ begun.2 = store.values

/-- The event that begins a submission with these values. -/
def beginning (begun : SubmitTicket × KeyMap FieldPath Value) : FormEvent Value :=
  .submitBegun begun.1 begun.2

variable {events : List (FormEvent Value)}

theorem Steps.submitting [BEq Value] (hstep : store.Steps events next) :
    Step ConcernsSubmission beginning events store.Submits next.Submits := by
  -- Neither the store nor the next one submits.
  have hidle : ∀ {after : FormStore Value}, store.submission.isSubmitting = false →
      after.submission.isSubmitting = false →
      ∀ begun, after.Submits begun ↔ store.Submits begun := by
    intro after hbefore hafter begun
    exact iff_of_false (fun h => ne_submitting hafter _ h.1) fun h => ne_submitting hbefore _ h.1
  have hended : ∀ {after : FormStore Value} {event : FormEvent Value},
      after.submission.isSubmitting = false → (∀ begun, beginning begun ≠ event) →
      ∀ begun, after.Submits begun ↔ beginning begun = event := by
    intro after event hafter hevent begun
    exact iff_of_false (fun h => ne_submitting hafter _ h.1) (hevent begun)
  have hkept : ∀ {path : FieldPath} {field written : FieldState Value},
      store.fields[path]? = some field → written.value = field.value →
      ∀ begun, (store.setField path written).Submits begun ↔ store.Submits begun := by
    intro path field written hget hvalue begun
    rw [Submits, values_setField hget hvalue]
    rfl
  cases hstep with
  | unchanged => exact .quiet (by simp) fun _ => Iff.rfl
  | registered path initialValue hget | edited path field value hget hne =>
    exact .logged _ rfl trivial (hended rfl (by simp [beginning]))
  | touched path field hget | visited path field hget => exact .quiet (by simp) (hkept hget rfl)
  | validated path field errors hsubmission hget
  | validationBegun path field generation hsubmission hget hgeneration =>
    refine .quiet (by simp [ConcernsSubmission]) (hidle hsubmission ?_)
    exact isSubmitting_clearTerminalSubmission hsubmission
  | validationCompleted ticket field errors hauthority hget hawaits =>
    refine .quiet (by simp [ConcernsSubmission]) (hkept hget ?_)
    simp [FieldState.completeValidation, hawaits.1, hawaits.2]
  | submitBegun generation hsubmission hvalidating hinvalid hgeneration =>
    refine .logged _ rfl trivial ?_
    rintro ⟨ticket, values⟩
    simp only [Submits, beginning, SubmissionPhase.submitting.injEq, FormEvent.submitBegun.injEq]
    constructor
    · rintro ⟨hticket, hvalues⟩
      exact ⟨hticket.symm, hvalues⟩
    · rintro ⟨hticket, hvalues⟩
      exact ⟨hticket.symm, hvalues⟩
  | submitFinished ticket phase errors hsubmission hphase =>
    exact .logged _ rfl trivial (hended hphase (by simp [beginning]))
  | reset => exact .logged _ rfl trivial (hended rfl (by simp [beginning]))

/-- While a submission is in progress its fields stay settled. -/
theorem Steps.settled [BEq Value] (hstep : store.Steps events next)
    (hconsistent : ∀ (path : FieldPath) (field : FieldState Value),
      store.fields[path]? = some field → field.Consistent)
    (hsettled : store.submission.isSubmitting = true → store.Settled)
    (hnext : next.submission.isSubmitting = true) : next.Settled := by
  cases hstep with
  | unchanged => exact hsettled hnext
  | touched path field hget | visited path field hget =>
    exact (hsettled hnext).setField hget rfl rfl
  | validated path field errors hsubmission hget =>
    have hcleared := isSubmitting_clearTerminalSubmission hsubmission
    exact absurd (hnext.symm.trans hcleared) (by simp)
  | validationBegun path field generation hsubmission hget hgeneration =>
    let advanced : FormStore Value := { store with nextValidationGeneration := generation }
    have hcleared : advanced.clearTerminalSubmission.submission.isSubmitting = false :=
      isSubmitting_clearTerminalSubmission hsubmission
    exact absurd (hnext.symm.trans hcleared) (by simp)
  | validationCompleted ticket field errors hauthority hget hawaits =>
    -- A field of a submission in progress awaits nothing.
    have hvalidating := (hsettled hnext ticket.path field hget).1
    rw [(hconsistent ticket.path field hget).validating_eq, hawaits.1] at hvalidating
    cases hvalidating
  | submitBegun generation hsubmission hvalidating hinvalid hgeneration =>
    exact settled_of_begin hvalidating hinvalid
  | submitFinished ticket phase errors hsubmission hphase =>
    exact absurd (hnext.symm.trans hphase) (by simp)
  | registered | edited | reset => cases hnext

/-- Generations are issued without gaps. -/
theorem nextGeneration_eq_ok {current generation : Nat}
    (h : nextGeneration current = .ok generation) : generation = current + 1 := by
  rw [nextGeneration] at h
  cases hnext : U64.checkedAdd current 1 with
  | none =>
    rw [hnext] at h
    cases h
  | some next =>
    rw [hnext] at h
    rw [← Except.ok.inj h]
    exact (U64.checkedAdd_eq_some_iff.mp hnext).1

@[simp] theorem nextSubmitGeneration_clearTerminalSubmission (store : FormStore Value) :
    store.clearTerminalSubmission.nextSubmitGeneration = store.nextSubmitGeneration := by
  unfold clearTerminalSubmission
  split <;> rfl

/-- What a step does to submission tickets: nothing, one is issued, or the active one is
finished. -/
inductive StepsTickets (store next : FormStore Value) : List SubmitTicket → Prop
  | kept (hnext : next.nextSubmitGeneration = store.nextSubmitGeneration)
      (hactive : ∀ ticket, next.submission = .submitting ticket →
        store.submission = .submitting ticket) : StepsTickets store next []
  | issued (ticket : SubmitTicket) (hauthority : ticket.authority = store.authority)
      (hgeneration : ticket.generation = store.nextSubmitGeneration + 1)
      (hnext : next.nextSubmitGeneration = store.nextSubmitGeneration + 1)
      (hactive : next.submission = .submitting ticket) : StepsTickets store next []
  | finished (ticket : SubmitTicket)
      (hnext : next.nextSubmitGeneration = store.nextSubmitGeneration)
      (hactive : store.submission = .submitting ticket)
      (hended : next.submission.isSubmitting = false) : StepsTickets store next [ticket]

theorem Steps.authority_eq [BEq Value] (hstep : store.Steps events next) :
    next.authority = store.authority := by
  cases hstep with
  | validated => exact authority_clearTerminalSubmission store
  | validationBegun path field generation =>
    exact authority_clearTerminalSubmission
      { store with nextValidationGeneration := generation : FormStore Value }
  | _ => rfl

theorem Steps.tickets [BEq Value] (hstep : store.Steps events next) :
    StepsTickets store next (events.filterMap finishedTicket) := by
  have hended : ∀ {after : FormStore Value},
      after.nextSubmitGeneration = store.nextSubmitGeneration →
      after.submission.isSubmitting = false → StepsTickets store after [] := by
    intro after hnext hafter
    exact .kept hnext fun ticket hactive => absurd hactive (ne_submitting hafter ticket)
  cases hstep with
  | unchanged | touched | visited | validationCompleted => exact .kept rfl fun _ hactive => hactive
  | registered | edited | reset => exact hended rfl rfl
  | validated path field errors hsubmission hget
  | validationBegun path field generation hsubmission hget hgeneration =>
    apply hended
    · simp [setField]
    · exact isSubmitting_clearTerminalSubmission hsubmission
  | submitBegun generation hsubmission hvalidating hinvalid hgeneration =>
    have hsucc := nextGeneration_eq_ok hgeneration
    exact .issued _ rfl hsucc hsucc rfl
  | submitFinished ticket phase errors hsubmission hphase =>
    exact .finished ticket rfl hsubmission hphase

/-- Tickets are finished once, and only after they were issued. -/
structure TicketsFresh (store : FormStore Value) (finished : List SubmitTicket) : Prop where
  nodup : finished.Nodup
  issued : ∀ ticket ∈ finished, ticket.generation ≤ store.nextSubmitGeneration
  active_authority : ∀ ticket, store.submission = .submitting ticket →
    ticket.authority = store.authority
  active_issued : ∀ ticket, store.submission = .submitting ticket →
    ticket.generation ≤ store.nextSubmitGeneration
  active_unfinished : ∀ ticket, store.submission = .submitting ticket → ticket ∉ finished

theorem TicketsFresh.step {finished ended : List SubmitTicket} (hfresh :
    store.TicketsFresh finished)
    (hauthority : next.authority = store.authority) (hstep : StepsTickets store next ended) :
    next.TicketsFresh (ended ++ finished) := by
  cases hstep with
  | kept hnext hactive =>
    constructor
    · exact hfresh.nodup
    · intro ticket hmem
      rw [hnext]
      exact hfresh.issued ticket hmem
    · intro ticket hsubmission
      rw [hauthority]
      exact hfresh.active_authority ticket (hactive ticket hsubmission)
    · intro ticket hsubmission
      rw [hnext]
      exact hfresh.active_issued ticket (hactive ticket hsubmission)
    · intro ticket hsubmission
      exact hfresh.active_unfinished ticket (hactive ticket hsubmission)
  | issued ticket hticket hgeneration hnext hactive =>
    have hold : ∀ other ∈ finished, other.generation < ticket.generation := by
      intro other hmem
      have hle := hfresh.issued other hmem
      omega
    have heq : ∀ other, next.submission = .submitting other → ticket = other := by
      intro other hsubmission
      simpa [hactive] using hsubmission
    constructor
    · exact hfresh.nodup
    · intro other hmem
      have hlt := hold other hmem
      omega
    · intro other hsubmission
      rw [← heq other hsubmission, hticket, hauthority]
    · intro other hsubmission
      rw [← heq other hsubmission]
      omega
    · intro other hsubmission hmem
      rw [← heq other hsubmission] at hmem
      exact absurd (hold ticket hmem) (Nat.lt_irrefl _)
  | finished ticket hnext hactive hended =>
    constructor
    · exact nodup_cons.mpr ⟨hfresh.active_unfinished ticket hactive, hfresh.nodup⟩
    · intro other hmem
      rw [hnext]
      rcases mem_cons.mp hmem with rfl | hrest
      · exact hfresh.active_issued other hactive
      · exact hfresh.issued other hrest
    all_goals
      intro other hsubmission
      exact absurd hsubmission (ne_submitting hended other)

theorem finishSubmitSuccess_cases (store : FormStore Value) (ticket : SubmitTicket) :
    ((store.finishSubmitSuccess ticket).1 = .applied ↔ store.submitCompletion ticket = .applied) ∧
      (store.submitCompletion ticket ≠ .applied →
        (store.finishSubmitSuccess ticket).2 = store) := by
  rw [finishSubmitSuccess]
  cases store.submitCompletion ticket <;> simp

theorem finishSubmitError_cases (store : FormStore Value) (ticket : SubmitTicket) (error : String) :
    ((store.finishSubmitError ticket error).1 = .applied ↔
      store.submitCompletion ticket = .applied) ∧
    (store.submitCompletion ticket ≠ .applied →
      (store.finishSubmitError ticket error).2 = store) := by
  rw [finishSubmitError]
  cases store.submitCompletion ticket <;> simp

end FormStore

namespace FormSession

variable [BEq Value]

/-- The submission begun with the ticket, over these values, is the latest, and it has not
been finished or given up to a registration, an edit or a reset. -/
def InProgress (session : FormSession Value) (ticket : SubmitTicket)
    (values : KeyMap FieldPath Value) : Prop :=
  Latest ConcernsSubmission session.history (.submitBegun ticket values)

/-- The tickets whose submissions were finished, the latest first. -/
def finishedTickets (session : FormSession Value) : List SubmitTicket :=
  session.history.filterMap finishedTicket

structure Lifecycle (session : FormSession Value) : Prop where
  consistent : session.Consistent
  submitting : Tracks ConcernsSubmission FormStore.beginning session.history session.store.Submits
  settled : session.store.submission.isSubmitting = true → session.store.Settled
  tickets : session.store.TicketsFresh session.finishedTickets

variable (authority : FormAuthority)

theorem lifecycle_start : (start authority : FormSession Value).Lifecycle where
  consistent := everyField_start _ authority
  submitting := tracks_nil (by simp [FormStore.Submits, start, FormStore.default])
  settled := by simp [start, FormStore.default, SubmissionPhase.isSubmitting]
  tickets := by
    constructor <;> simp [finishedTickets, start, FormStore.default]

variable {session : FormSession Value}

section

variable (hlifecycle : session.Lifecycle)

include hlifecycle

theorem Lifecycle.perform [ReflBEq Value]
    (operation : FormOperation Value) : (session.perform operation).Lifecycle := by
  have hstep := session.store.perform_steps operation
  constructor
  · exact hlifecycle.consistent.perform operation
  · exact hlifecycle.submitting.step hstep.submitting
  · exact hstep.settled hlifecycle.consistent hlifecycle.settled
  · have htickets := hlifecycle.tickets.step hstep.authority_eq hstep.tickets
    rwa [finishedTickets, ← filterMap_append] at htickets

variable {ticket : SubmitTicket}

theorem Lifecycle.inProgress_iff {values : KeyMap FieldPath Value} :
    session.InProgress ticket values ↔
      session.store.submission = .submitting ticket ∧ values = session.store.values :=
  hlifecycle.submitting (ticket, values)

/-- The applied ticket is the one in progress. -/
theorem Lifecycle.completion_iff : session.store.submitCompletion ticket = .applied ↔ ∃ values,
      session.InProgress ticket values := by
  rw [submitCompletion_applied_iff]
  constructor
  · rintro ⟨-, hsubmission⟩
    exact ⟨session.store.values, hlifecycle.inProgress_iff.mpr ⟨hsubmission, rfl⟩⟩
  · rintro ⟨values, hprogress⟩
    have hsubmission := (hlifecycle.inProgress_iff.mp hprogress).1
    exact ⟨hlifecycle.tickets.active_authority ticket hsubmission, hsubmission⟩

end

variable [ReflBEq Value]

/-- The lifecycle invariant holds after every run. -/
theorem run_lifecycle (operations : List (FormOperation Value)) :
    (run authority operations).Lifecycle :=
  run_invariant (lifecycle_start authority)
    (fun _ operation hlifecycle => hlifecycle.perform operation) operations

/-- A submission in progress is the latest begun, over settled fields with the values they
had then; only its own ticket finishes it, once; and the flags of every field say what its
values and its running validation say. -/
theorem submission_is_single_flight (authority : FormAuthority)
    (operations : List (FormOperation Value)) :
    (∀ ticket values, (run authority operations).InProgress ticket values ↔
      (run authority operations).store.submission = .submitting ticket ∧
        values = (run authority operations).store.values) ∧
    (∀ ticket, (run authority operations).store.submission = .submitting ticket →
      (run authority operations).store.Settled) ∧
    (∀ ticket, ((run authority operations).store.finishSubmitSuccess ticket).1 = .applied ↔
      ∃ values, (run authority operations).InProgress ticket values) ∧
    (∀ ticket, (¬ ∃ values, (run authority operations).InProgress ticket values) →
      ((run authority operations).store.finishSubmitSuccess ticket).2 =
        (run authority operations).store) ∧
    (∀ ticket error,
      ((run authority operations).store.finishSubmitError ticket error).1 = .applied ↔
        ∃ values, (run authority operations).InProgress ticket values) ∧
    (∀ ticket error, (¬ ∃ values, (run authority operations).InProgress ticket values) →
      ((run authority operations).store.finishSubmitError ticket error).2 =
        (run authority operations).store) ∧
    (run authority operations).finishedTickets.Nodup ∧ (run authority operations).Consistent := by
  have hlifecycle := run_lifecycle authority operations
  have hcompletion : ∀ ticket, (run authority operations).store.submitCompletion ticket = .applied ↔
      ∃ values, (run authority operations).InProgress ticket values :=
    fun _ => hlifecycle.completion_iff
  refine ⟨fun ticket values => hlifecycle.inProgress_iff, ?_, ?_, ?_, ?_, ?_,
    hlifecycle.tickets.nodup, hlifecycle.consistent⟩
  · intro ticket hsubmission
    apply hlifecycle.settled
    rw [hsubmission]
    rfl
  · intro ticket
    rw [(finishSubmitSuccess_cases _ ticket).1, hcompletion]
  · intro ticket hnone
    rw [← hcompletion] at hnone
    exact (finishSubmitSuccess_cases _ ticket).2 hnone
  · intro ticket error
    rw [(finishSubmitError_cases _ ticket error).1, hcompletion]
  · intro ticket error hnone
    rw [← hcompletion] at hnone
    exact (finishSubmitError_cases _ ticket error).2 hnone

/-- A submission survives a write that changes nothing. -/
def resubmitted : List (FormOperation String) :=
  [.registerField "email" "a@b", .beginSubmit, .setValue "email" "c@d", .beginSubmit,
    .setValue "email" "c@d"]

theorem resubmitted_settled : (run 0 resubmitted).store.submission = .submitting ⟨0, 2, 2⟩ ∧
      (run 0 resubmitted).store.Settled :=
  ⟨by decide, (submission_is_single_flight 0 resubmitted).2.1 ⟨0, 2, 2⟩ (by decide)⟩

end FormSession

end OpenGpui.Form
