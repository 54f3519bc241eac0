/-
What one operation can do to one query and to the mutations of one id, told by the events it
logs.  A query that was invalidated is successful again only after a fetch that was begun
since, as long as no fetch is completed that an invalidation has overtaken.
-/
import OpenGpui.Resource.Client

namespace OpenGpui.Resource

open IndexMap List ResourceClient

universe u

variable {Value : Type u}

open ResourceEvent

/-- The operation invalidates the query, if it is known: on its own, or as a mutation that
is accepted. -/
def ResourceOperation.Invalidates (client : ResourceClient Value) (key : QueryKey) :
    ResourceOperation Value → Prop
  | .invalidate other => other = key
  | .completeMutationSuccess ticket _ invalidateKeys =>
    (client.mutationOrNew ticket.id).generation = ticket.generation ∧ key ∈ invalidateKeys
  | _ => False

/-- What an operation makes of a query: nothing an observer of its contents would see, the
next fetch, the outcome of the current one, or an invalidation. -/
inductive QueryStep (key : QueryKey) (operation : ResourceOperation Value)
    (events : List ResourceEvent) (invalidates : Prop) (before after : QueryEntry Value) : Prop
  | quiet (hevents : ∀ event ∈ events, ¬ event.ConcernsQuery key)
      (hstatus : after.status = before.status) (hdata : after.data = before.data)
      (hgeneration : after.fetchGeneration = before.fetchGeneration)
  | begun (hoperation : operation = .beginFetch key)
      (hevents : events = [.fetchBegun ⟨key, before.beginFetch.fetchGeneration⟩])
      (hafter : after = before.beginFetch)
  | succeeded (ticket : FetchTicket) (data : Value)
      (hoperation : operation = .completeFetchSuccess ticket data) (hkey : ticket.key = key)
      (hgeneration : before.fetchGeneration = ticket.generation)
      (hevents : events = [.fetchSucceeded ticket])
      (hafter : after = { before with status := .success, data := some data, error := none })
  | failed (ticket : FetchTicket) (error : String)
      (hoperation : operation = .completeFetchError ticket error) (hkey : ticket.key = key)
      (hgeneration : before.fetchGeneration = ticket.generation)
      (hevents : events = [.fetchFailed ticket])
      (hafter : after = { before with
        status := if before.data.isSome then .stale else .error
        error := some error })
  | invalidated (hinvalidates : invalidates)
      (hevents : ∀ event ∈ events, event.ConcernsQuery key → event = .invalidated key)
      (hafter : after = before.invalidate)

namespace ResourceClient

variable {entry : QueryEntry Value}

theorem queryOrNew_of_get {client : ResourceClient Value} {key : QueryKey}
    (hget : client.queries.get key = some entry) :
    client.queryOrNew key = entry := by
  rw [queryOrNew, hget, Option.getD_some]

theorem queryOrNew_setQuery (client : ResourceClient Value) (key other : QueryKey)
    (entry : QueryEntry Value) :
    (client.setQuery key entry).queryOrNew other =
      if key = other then entry else client.queryOrNew other := by
  rw [queryOrNew, setQuery, get_insert]
  split <;> rfl

theorem setQuery_get {client : ResourceClient Value} {key : QueryKey}
    (hget : client.queries.get key = some entry) : client.setQuery key entry = client := by
  rw [setQuery, insert_get_self hget]

@[simp] theorem queryOrNew_setMutation (client : ResourceClient Value) (id : String)
    (entry : MutationEntry Value) (key : QueryKey) :
    (client.setMutation id entry).queryOrNew key = client.queryOrNew key := rfl

@[simp] theorem invalidate_invalidate (entry : QueryEntry Value) :
    entry.invalidate.invalidate = entry.invalidate := rfl

/-- An invalidation reaches its own query only. -/
theorem get_invalidate (client : ResourceClient Value) (key other : QueryKey) :
    (client.invalidate key).2.queries.get other =
      if key = other then (client.queries.get other).map QueryEntry.invalidate
      else client.queries.get other := by
  cases hget : client.queries.get key with
  | none =>
    by_cases heq : key = other
    · subst heq
      simp [invalidate, hget]
    · simp [invalidate, hget, heq]
  | some entry =>
    by_cases heq : key = other
    · subst heq
      simp [invalidate, hget, setQuery]
    · simp [invalidate, hget, setQuery, heq]

/-- Invalidating several queries invalidates each of them once. -/
theorem get_invalidateAll (client : ResourceClient Value) (keys : List QueryKey)
    (other : QueryKey) :
    (client.invalidateAll keys).queries.get other =
      if other ∈ keys then (client.queries.get other).map QueryEntry.invalidate
      else client.queries.get other := by
  induction keys generalizing client with
  | nil => simp [invalidateAll]
  | cons key rest ih =>
    rw [show client.invalidateAll (key :: rest) = (client.invalidate key).2.invalidateAll rest
      from rfl, ih, get_invalidate]
    by_cases heq : key = other
    · subst heq
      by_cases hmem : key ∈ rest
      · cases client.queries.get key <;> simp [hmem]
      · simp [hmem]
    · simp [heq, Ne.symm heq]

variable (client : ResourceClient Value) (key : QueryKey)

/-- What an operation does to a query of the client. -/
abbrev PerformsOn (operation : ResourceOperation Value) : Prop :=
  QueryStep key operation (client.perform operation).1
    (operation.Invalidates client key ∧ client.queries.containsKey key = true)
    (client.queryOrNew key) ((client.perform operation).2.queryOrNew key)

variable {operation : ResourceOperation Value}

theorem performsOn_of_same
    (hevents : ∀ event ∈ (client.perform operation).1, ¬ event.ConcernsQuery key)
    (hsame : (client.perform operation).2.queryOrNew key = client.queryOrNew key) :
    client.PerformsOn key operation :=
  .quiet hevents (by rw [hsame]) (by rw [hsame]) (by rw [hsame])

variable (other : QueryKey)

theorem ensureQuery_performsOn : client.PerformsOn key (.ensureQuery other) := by
  apply performsOn_of_same
  · simp [perform]
  · rw [perform, ensureQuery, queryOrNew_setQuery]
    split
    · next heq => rw [heq]
    · rfl

/-- A new observer changes nothing an observer sees. -/
theorem subscribe_performsOn : client.PerformsOn key (.subscribe other) := by
  by_cases heq : other = key
  · subst heq
    refine .quiet (by simp [perform]) ?_ ?_ ?_ <;>
      simp [perform, subscribe, queryOrNew_setQuery]
  · apply performsOn_of_same
    · simp [perform]
    · simp [perform, subscribe, queryOrNew_setQuery, heq]

theorem unsubscribe_performsOn (handle : ObserverHandle) :
    client.PerformsOn key (.unsubscribe handle) := by
  cases hget : client.queries.get handle.key with
  | none => apply performsOn_of_same <;> simp [perform, unsubscribe, hget]
  | some entry =>
    by_cases hmem : handle.id ∈ entry.observers
    · by_cases heq : handle.key = key
      · subst heq
        have hentry := queryOrNew_of_get hget
        refine .quiet (by simp [perform]) ?_ ?_ ?_ <;>
          simp [perform, unsubscribe, hget, hmem, queryOrNew_setQuery, hentry]
      · apply performsOn_of_same
        · simp [perform]
        · simp [perform, unsubscribe, hget, hmem, queryOrNew_setQuery, heq]
    · apply performsOn_of_same <;> simp [perform, unsubscribe, hget, hmem]

theorem beginFetch_performsOn : client.PerformsOn key (.beginFetch other) := by
  by_cases heq : other = key
  · subst heq
    exact .begun rfl rfl (by simp [perform, beginFetch, queryOrNew_setQuery])
  · apply performsOn_of_same
    · simp [perform, beginFetch, ConcernsQuery, heq]
    · simp [perform, beginFetch, queryOrNew_setQuery, heq]

/-- The completion of a fetch, whose only event is about the query of its ticket. -/
theorem performsOn_of_completion {ticket : FetchTicket}
    {entry written : QueryEntry Value} {event : ResourceEvent}
    (hget : client.queries.get ticket.key = some entry) (hperform : client.perform operation =
      if entry.fetchGeneration = ticket.generation then
        ([event], client.setQuery ticket.key written) else ([], client))
    (hconcerns : event.ConcernsQuery key → ticket.key = key)
    (hstep : entry.fetchGeneration = ticket.generation →
      QueryStep ticket.key operation [event] (operation.Invalidates client ticket.key ∧
        client.queries.containsKey ticket.key = true) entry written) :
    client.PerformsOn key operation := by
  by_cases hgeneration : entry.fetchGeneration = ticket.generation
  · rw [if_pos hgeneration] at hperform
    by_cases heq : ticket.key = key
    · subst heq
      rw [PerformsOn, hperform, queryOrNew_of_get hget, queryOrNew_setQuery, if_pos rfl]
      exact hstep hgeneration
    · apply performsOn_of_same
      · rw [hperform]
        simpa using fun h => heq (hconcerns h)
      · rw [hperform, queryOrNew_setQuery, if_neg heq]
  · rw [if_neg hgeneration] at hperform
    apply performsOn_of_same <;> simp [hperform]

variable (ticket : FetchTicket)

theorem completeFetchSuccess_performsOn (data : Value) :
    client.PerformsOn key (.completeFetchSuccess ticket data) := by
  cases hget : client.queries.get ticket.key with
  | none => apply performsOn_of_same <;> simp [perform, completeFetchSuccess, hget]
  | some entry =>
    apply client.performsOn_of_completion key hget
    · simp only [perform, completeFetchSuccess, hget, QueryEntry.completeFetchSuccess]
      split
      · rfl
      · simp [setQuery_get hget]
    · exact id
    · intro hgeneration
      exact .succeeded ticket data rfl rfl hgeneration rfl rfl

theorem completeFetchError_performsOn (error : String) :
    client.PerformsOn key (.completeFetchError ticket error) := by
  cases hget : client.queries.get ticket.key with
  | none => apply performsOn_of_same <;> simp [perform, completeFetchError, hget]
  | some entry =>
    apply client.performsOn_of_completion key hget
    · simp only [perform, completeFetchError, hget, QueryEntry.completeFetchError]
      split
      · rfl
      · simp [setQuery_get hget]
    · exact id
    · intro hgeneration
      exact .failed ticket error rfl rfl hgeneration rfl rfl

theorem invalidate_performsOn : client.PerformsOn key (.invalidate other) := by
  cases hget : client.queries.get other with
  | none => apply performsOn_of_same <;> simp [perform, invalidate, hget]
  | some entry =>
    have hentry := queryOrNew_of_get hget
    by_cases heq : other = key
    · subst heq
      refine .invalidated ⟨rfl, containsKey_iff.mpr ⟨entry, hget⟩⟩ ?_ ?_
      · simp [perform, invalidate, hget]
      · simp [perform, invalidate, hget, queryOrNew_setQuery, hentry]
    · apply performsOn_of_same
      · simp [perform, invalidate, hget, ConcernsQuery, heq]
      · simp [perform, invalidate, hget, queryOrNew_setQuery, heq]

theorem beginMutation_performsOn (id : String) : client.PerformsOn key (.beginMutation id) := by
  by_cases hempty : trimIsEmpty id = true
  · apply performsOn_of_same <;> simp [perform, beginMutation, hempty]
  · apply performsOn_of_same <;> simp [perform, beginMutation, hempty, ConcernsQuery]

variable (ticket : MutationTicket)

theorem completeMutationError_performsOn (error : String) :
    client.PerformsOn key (.completeMutationError ticket error) := by
  cases hget : client.mutations.get ticket.id with
  | none => apply performsOn_of_same <;> simp [perform, completeMutationError, hget]
  | some entry =>
    by_cases hgeneration : entry.generation = ticket.generation
    · apply performsOn_of_same <;>
        simp [perform, completeMutationError, hget, hgeneration, ConcernsQuery]
    · apply performsOn_of_same <;> simp [perform, completeMutationError, hget, hgeneration]

theorem completeMutationSuccess_performsOn (data : Option Value) (invalidateKeys : List QueryKey) :
    client.PerformsOn key (.completeMutationSuccess ticket data invalidateKeys) := by
  cases hget : client.mutations.get ticket.id with
  | none => apply performsOn_of_same <;> simp [perform, completeMutationSuccess, hget]
  | some entry =>
    by_cases hgeneration : entry.generation = ticket.generation
    · have hevents : ∀ event, event ∈ (client.perform (.completeMutationSuccess ticket data
          invalidateKeys)).1 ↔ (∃ other ∈ invalidateKeys, client.queries.containsKey other = true ∧
          event = .invalidated other) ∨ event = .mutationCompleted ticket := by
        intro event
        simp only [perform, completeMutationSuccess, hget, hgeneration,
          if_true, mem_append, mem_map, mem_reverse, mem_filter, mem_singleton, and_assoc]
        simp only [eq_comm]
      have hnext : (client.perform (.completeMutationSuccess ticket data
          invalidateKeys)).2.queryOrNew key =
          ((if key ∈ invalidateKeys then (client.queries.get key).map QueryEntry.invalidate
            else client.queries.get key).getD .new) := by
        simp only [perform, completeMutationSuccess, hget, hgeneration, if_true]
        rw [queryOrNew, get_invalidateAll]
        rfl
      by_cases hmem : key ∈ invalidateKeys ∧ client.queries.containsKey key = true
      · obtain ⟨hkey, hcontains⟩ := hmem
        obtain ⟨query, hquery⟩ := containsKey_iff.mp hcontains
        have haccepted : (client.mutationOrNew ticket.id).generation = ticket.generation := by
          rw [mutationOrNew, hget]
          exact hgeneration
        refine .invalidated ⟨⟨haccepted, hkey⟩, hcontains⟩ ?_ ?_
        · intro event hevent hconcerns
          rcases (hevents event).mp hevent with ⟨other, -, -, rfl⟩ | rfl
          · rw [show other = key from hconcerns]
          · exact hconcerns.elim
        · rw [hnext, if_pos hkey, queryOrNew, hquery]
          rfl
      · apply performsOn_of_same
        · intro event hevent hconcerns
          rcases (hevents event).mp hevent with ⟨other, hother, hcontains, rfl⟩ | rfl
          · obtain rfl : other = key := hconcerns
            exact hmem ⟨hother, hcontains⟩
          · exact hconcerns.elim
        · rw [hnext, queryOrNew]
          by_cases hkey : key ∈ invalidateKeys
          · have hnone : client.queries.get key = none := by
              rw [← containsKey_eq_false_iff]
              simpa [hkey] using hmem
            simp [hkey, hnone]
          · rw [if_neg hkey]
    · apply performsOn_of_same <;> simp [perform, completeMutationSuccess, hget, hgeneration]

/-- Every operation does to a query one of the things a step may do. -/
theorem performsOn (operation : ResourceOperation Value) : client.PerformsOn key operation := by
  cases operation with
  | ensureQuery other => exact client.ensureQuery_performsOn key other
  | subscribe other => exact client.subscribe_performsOn key other
  | unsubscribe handle => exact client.unsubscribe_performsOn key handle
  | beginFetch other => exact client.beginFetch_performsOn key other
  | completeFetchSuccess ticket data => exact client.completeFetchSuccess_performsOn key ticket data
  | completeFetchError ticket error => exact client.completeFetchError_performsOn key ticket error
  | invalidate other => exact client.invalidate_performsOn key other
  | beginMutation id => exact client.beginMutation_performsOn key id
  | completeMutationSuccess ticket data invalidateKeys =>
    exact client.completeMutationSuccess_performsOn key ticket data invalidateKeys
  | completeMutationError ticket error =>
    exact client.completeMutationError_performsOn key ticket error

end ResourceClient

open EventLog

/-- Every invalidation of the query is followed by the begin of a fetch, and that by its
success. -/
def Answered (key : QueryKey) (history : List ResourceEvent) : Prop :=
  ∀ later earlier, history = later ++ .invalidated key :: earlier →
    ∃ ticket newest middle oldest, ticket.key = key ∧
      later = newest ++ .fetchSucceeded ticket :: (middle ++ .fetchBegun ticket :: oldest)

/-- The query was invalidated and the fetch has not begun since. -/
def Overtaken (history : List ResourceEvent) (ticket : FetchTicket) : Prop :=
  Latest (fun event => event = .fetchBegun ticket ∨ event = .invalidated ticket.key) history
    (.invalidated ticket.key)

instance (history : List ResourceEvent) (ticket : FetchTicket) :
    Decidable (Overtaken history ticket) :=
  inferInstanceAs (Decidable (Latest _ _ _))

variable {history : List ResourceEvent}

theorem Answered.append {key : QueryKey}
    (hanswered : Answered key history) {events : List ResourceEvent}
    (hevents : .invalidated key ∉ events) : Answered key (events ++ history) := by
  induction events with
  | nil => exact hanswered
  | cons newest rest ih =>
    rw [mem_cons, not_or] at hevents
    intro later earlier hhistory
    cases later with
    | nil => exact absurd (cons.inj hhistory).1.symm hevents.1
    | cons head tail =>
      obtain ⟨rfl, htail⟩ := cons.inj hhistory
      obtain ⟨ticket, first, middle, oldest, hkey, rfl⟩ := ih hevents.2 tail earlier htail
      exact ⟨ticket, newest :: first, middle, oldest, hkey, rfl⟩

/-- The success of a fetch that no invalidation has overtaken answers them all. -/
theorem answered_of_success {ticket : FetchTicket} (htime : ¬ Overtaken history ticket) :
    Answered ticket.key (.fetchSucceeded ticket :: history) := by
  intro later earlier hhistory
  cases later with
  | nil => cases (cons.inj hhistory).1
  | cons head tail =>
    obtain ⟨rfl, rfl⟩ := cons.inj hhistory
    have hmem : ResourceEvent.invalidated ticket.key ∈ tail ++
        .invalidated ticket.key :: earlier := by
      simp
    obtain ⟨event, hlatest⟩ : ∃ event, Latest (fun event =>
        event = .fetchBegun ticket ∨ event = .invalidated ticket.key)
        (tail ++ .invalidated ticket.key :: earlier) event :=
      exists_latest hmem (.inr rfl)
    have hbegun : event = .fetchBegun ticket := by
      rcases hlatest.of_kind with hbegun | hinvalidated
      · exact hbegun
      · rw [hinvalidated] at hlatest
        exact absurd hlatest htime
    subst hbegun
    have hlater := hlatest.mem_later (.inr rfl) nofun
    obtain ⟨middle, oldest, rfl⟩ := append_of_mem hlater
    exact ⟨ticket, [], middle, oldest, rfl, rfl⟩

namespace ResourceSession

variable (session : ResourceSession Value)

/-- No query is successful while an invalidation of it is unanswered. -/
def KeepsInvalidations : Prop :=
  ∀ key entry, session.client.queries.get key = some entry → entry.status = .success →
    Answered key session.history

/-- A fetch that would be accepted is completed with success only when its query has not
been invalidated since it began. -/
def InTime : ResourceOperation Value → Prop
  | .completeFetchSuccess ticket _ =>
    (session.client.queryOrNew ticket.key).fetchGeneration = ticket.generation →
      ¬ Overtaken session.history ticket
  | _ => True

instance (session : ResourceSession Value) :
    (operation : ResourceOperation Value) → Decidable (session.InTime operation)
  | .completeFetchSuccess ticket _ =>
    inferInstanceAs (Decidable ((session.client.queryOrNew ticket.key).fetchGeneration =
      ticket.generation → ¬ Overtaken session.history ticket))
  | .ensureQuery _ | .subscribe _ | .unsubscribe _ | .beginFetch _ | .completeFetchError _ _
  | .invalidate _ | .beginMutation _ | .completeMutationSuccess _ _ _
  | .completeMutationError _ _ => inferInstanceAs (Decidable True)

theorem keepsInvalidations_iff {session : ResourceSession Value} :
    session.KeepsInvalidations ↔ ∀ key, (session.client.queryOrNew key).status = .success →
      Answered key session.history := by
  constructor
  · intro hkeeps key hstatus
    cases hget : session.client.queries.get key with
    | none =>
      rw [queryOrNew, hget] at hstatus
      cases hstatus
    | some entry =>
      rw [queryOrNew_of_get hget] at hstatus
      exact hkeeps key entry hget hstatus
  · intro hkeeps key entry hget hstatus
    apply hkeeps key
    rw [queryOrNew_of_get hget, hstatus]

/-- A step in time keeps the invalidations. -/
theorem KeepsInvalidations.perform {session : ResourceSession Value}
    (hkeeps : session.KeepsInvalidations) {operation : ResourceOperation Value}
    (htime : session.InTime operation) : (session.perform operation).KeepsInvalidations := by
  rw [keepsInvalidations_iff] at hkeeps ⊢
  intro key hafter
  show Answered key ((session.client.perform operation).1 ++ session.history)
  rw [show (session.perform operation).client = (session.client.perform operation).2 from rfl]
    at hafter
  have hstep := session.client.performsOn key operation
  cases hstep with
  | quiet hevents hstatus hdata hgeneration =>
    rw [hstatus] at hafter
    exact (hkeeps key hafter).append fun hmem => hevents _ hmem rfl
  | begun hoperation hevents hentry =>
    rw [hentry, QueryEntry.beginFetch] at hafter
    split at hafter <;> cases hafter
  | succeeded ticket data hoperation hkey hgeneration hevents hentry =>
    subst hoperation hkey
    rw [hevents]
    exact answered_of_success (htime hgeneration)
  | failed ticket error hoperation hkey hgeneration hevents hentry =>
    rw [hentry] at hafter
    split at hafter <;> cases hafter
  | invalidated hinvalidates hevents hentry =>
    rw [hentry, QueryEntry.invalidate] at hafter
    split at hafter <;> cases hafter

/-- In every run whose completions are in time, no invalidation is lost. -/
theorem no_invalidation_is_lost {operations : List (ResourceOperation Value)}
    {session : ResourceSession Value} (htime : (machine Value).Along InTime start operations)
    (hrun : (machine Value).run start operations = some session) :
    session.KeepsInvalidations := by
  refine Machine.run_induction ?_ ?_ htime hrun
  · intro before operation output after hkeeps hintime hstep
    cases hstep
    exact hkeeps.perform hintime
  · intro key entry hget hstatus
    cases hget

/-- A fetch that begins again after the invalidation. -/
def refetched : List (ResourceOperation String) :=
  [.beginFetch [.text "members"], .invalidate [.text "members"], .beginFetch [.text "members"],
    .completeFetchSuccess ⟨[.text "members"], 1⟩ "old",
    .completeFetchSuccess ⟨[.text "members"], 2⟩ "new"]

theorem no_invalidation_is_lost_refetched :
    ∃ session, (machine String).run start refetched = some session ∧
      session.KeepsInvalidations := by
  have htime : (machine String).holdsAlong (fun session operation => decide
      (session.InTime operation))
      start refetched = true := by decide
  have hintime := Machine.Along.mono (fun _ _ => of_decide_eq_true)
    (Machine.holdsAlong_iff.mp htime)
  exact ⟨_, rfl, no_invalidation_is_lost hintime rfl⟩

/-- A fetch that was begun before the invalidation and completes after it. -/
theorem invalidation_lost_to_earlier_fetch :
    ¬ ∀ (operations : List (ResourceOperation String)) (session : ResourceSession String),
      (machine String).run start operations = some session → session.KeepsInvalidations := by
  intro hkeeps
  have hanswered := hkeeps [.beginFetch [.text "members"], .invalidate [.text "members"],
      .completeFetchSuccess ⟨[.text "members"], 1⟩ "old"] _ rfl [.text "members"] _ rfl rfl
  obtain ⟨ticket, newest, middle, oldest, -, hlater⟩ :=
    hanswered [.fetchSucceeded ⟨[.text "members"], 1⟩] [.fetchBegun ⟨[.text "members"], 1⟩] rfl
  have hlength := congrArg length hlater
  simp at hlength
  omega

end ResourceSession

end OpenGpui.Resource
