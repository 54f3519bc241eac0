/-
Tickets and contents: the status of a query says whether it has data, and every fetch or
mutation ticket is accepted at most once, while it is the newest of its key.
-/
import OpenGpui.Resource.Steps

namespace OpenGpui.Resource

universe u

variable {Value : Type u}

open EventLog ResourceEvent List QueryEntry

namespace ResourceClient

variable (client : ResourceClient Value) (id : String)

theorem mutationOrNew_of_get {client : ResourceClient Value} {id : String}
    {entry : MutationEntry Value} (hget : client.mutations.get id = some entry) :
    client.mutationOrNew id = entry := by
  rw [mutationOrNew, hget, Option.getD_some]

theorem mutationOrNew_setMutation (other : String) (entry : MutationEntry Value) :
    (client.setMutation other entry).mutationOrNew id =
      if other = id then entry else client.mutationOrNew id := by
  rw [mutationOrNew, setMutation, IndexMap.get_insert]
  split <;> rfl

@[simp] theorem mutationOrNew_invalidate (key : QueryKey) :
    (client.invalidate key).2.mutationOrNew id = client.mutationOrNew id := by
  unfold invalidate
  split <;> rfl

@[simp] theorem mutationOrNew_invalidateAll (keys : List QueryKey) :
    (client.invalidateAll keys).mutationOrNew id = client.mutationOrNew id := by
  induction keys generalizing client with
  | nil => rfl
  | cons key rest ih =>
    rw [show client.invalidateAll (key :: rest) = (client.invalidate key).2.invalidateAll rest
      from rfl, ih, mutationOrNew_invalidate]

end ResourceClient

/-- What an operation makes of the mutations of an id. -/
inductive MutationStep (id : String) (operation : ResourceOperation Value)
    (marks : List GenerationMark) (before after : Nat) : Prop
  | quiet (hmarks : marks = []) (hafter : after = before)
  | begun (hoperation : operation = .beginMutation id)
      (hmarks : marks = [.begun (increment 64 before)]) (hafter : after = increment 64 before)
  | completed (ticket : MutationTicket)
      (hoperation : (∃ data keys, operation = .completeMutationSuccess ticket data keys) ∨
        ∃ error, operation = .completeMutationError ticket error)
      (hid : ticket.id = id) (hgeneration : before = ticket.generation)
      (hmarks : marks = [.accepted before]) (hafter : after = before)

namespace ResourceClient

variable (client : ResourceClient Value) (id : String) (operation : ResourceOperation Value)

abbrev PerformsMutation : Prop :=
  MutationStep id operation ((client.perform operation).1.filterMap (mutationMark id))
    (client.mutationOrNew id).generation ((client.perform operation).2.mutationOrNew id).generation

/-- An operation without marks leaves the mutation as it was. -/
theorem performsMutation_of_quiet {operation : ResourceOperation Value}
    (hevents : ∀ event ∈ (client.perform operation).1, event.mutationMark id = none)
    (hmutations : (client.perform operation).2.mutationOrNew id = client.mutationOrNew id) :
    client.PerformsMutation id operation := by
  refine .quiet ?_ (by rw [hmutations])
  rw [filterMap_eq_nil_iff]
  exact hevents

theorem beginMutation_performsMutation (other : String) :
    client.PerformsMutation id (.beginMutation other) := by
  by_cases hempty : trimIsEmpty other = true
  · apply performsMutation_of_quiet <;> simp [perform, beginMutation, hempty]
  · by_cases heq : other = id
    · subst heq
      refine .begun rfl ?_ ?_
      · simp [perform, beginMutation, hempty, mutationMark, MutationEntry.begin]
      · simp [perform, beginMutation, hempty, mutationOrNew_setMutation, MutationEntry.begin]
    · apply performsMutation_of_quiet
      · simp [perform, beginMutation, hempty, mutationMark, heq]
      · simp [perform, beginMutation, hempty, mutationOrNew_setMutation, heq]

@[simp] theorem mutationOrNew_setQuery (key : QueryKey) (entry : QueryEntry Value) :
    (client.setQuery key entry).mutationOrNew id = client.mutationOrNew id := rfl

/-- The completion of a mutation, whose only mark is about the id of its ticket. -/
theorem performsMutation_of_completion {operation : ResourceOperation Value}
    {ticket : MutationTicket} {entry : MutationEntry Value}
    (hoperation : (∃ data keys, operation = .completeMutationSuccess ticket data keys) ∨
      ∃ error, operation = .completeMutationError ticket error)
    (hget : client.mutations.get ticket.id = some entry)
    (hgeneration : entry.generation = ticket.generation)
    (hmarks : (client.perform operation).1.filterMap (mutationMark id) =
      [ResourceEvent.mutationCompleted ticket].filterMap (mutationMark id))
    (hnext : ((client.perform operation).2.mutationOrNew id).generation =
      (client.mutationOrNew id).generation) :
    client.PerformsMutation id operation := by
  by_cases heq : ticket.id = id
  · subst heq
    have hbefore : (client.mutationOrNew ticket.id).generation = ticket.generation := by
      rw [mutationOrNew_of_get hget, hgeneration]
    refine .completed ticket hoperation rfl hbefore ?_ hnext
    rw [hmarks, hbefore]
    simp [mutationMark]
  · refine .quiet ?_ hnext
    rw [hmarks]
    simp [mutationMark, heq]

variable (ticket : MutationTicket)

theorem completeMutationSuccess_performsMutation (data : Option Value)
    (invalidateKeys : List QueryKey) :
    client.PerformsMutation id (.completeMutationSuccess ticket data invalidateKeys) := by
  cases hget : client.mutations.get ticket.id with
  | none => apply performsMutation_of_quiet <;> simp [perform, completeMutationSuccess, hget]
  | some entry =>
    by_cases hgeneration : entry.generation = ticket.generation
    · apply client.performsMutation_of_completion id (.inl ⟨_, _, rfl⟩) hget hgeneration
      · have hinvalidated : ∀ keys : List QueryKey,
            (keys.map ResourceEvent.invalidated).filterMap (mutationMark id) = [] := by
          intro keys
          simp [mutationMark]
        simp only [perform, completeMutationSuccess, hget, hgeneration,
          if_true, filterMap_append, hinvalidated, nil_append]
      · simp only [perform, completeMutationSuccess, hget, hgeneration,
          if_true, mutationOrNew_invalidateAll, mutationOrNew_setMutation]
        split
        · next heq => rw [← heq, mutationOrNew_of_get hget, hgeneration]
        · rfl
    · apply performsMutation_of_quiet <;> simp [perform, completeMutationSuccess, hget, hgeneration]

theorem completeMutationError_performsMutation (error : String) :
    client.PerformsMutation id (.completeMutationError ticket error) := by
  cases hget : client.mutations.get ticket.id with
  | none => apply performsMutation_of_quiet <;> simp [perform, completeMutationError, hget]
  | some entry =>
    by_cases hgeneration : entry.generation = ticket.generation
    · apply client.performsMutation_of_completion id (.inr ⟨_, rfl⟩) hget hgeneration
      · simp only [perform, completeMutationError, hget, hgeneration, if_true]
      · simp only [perform, completeMutationError, hget, hgeneration, if_true,
          mutationOrNew_setMutation]
        split
        · next heq => rw [← heq, mutationOrNew_of_get hget, hgeneration]
        · rfl
    · apply performsMutation_of_quiet <;> simp [perform, completeMutationError, hget, hgeneration]

/-- Every operation does to a mutation one of the things a step may do. -/
theorem performsMutation : client.PerformsMutation id operation := by
  cases operation with
  | ensureQuery key => apply performsMutation_of_quiet <;> simp [perform, ensureQuery]
  | subscribe key => apply performsMutation_of_quiet <;> simp [perform, subscribe]
  | unsubscribe handle =>
    apply performsMutation_of_quiet
    · simp [perform]
    · simp only [perform, unsubscribe]
      split
      · rfl
      · split <;> rfl
  | beginFetch key =>
    apply performsMutation_of_quiet <;> simp [perform, beginFetch, mutationMark]
  | completeFetchSuccess ticket data =>
    apply performsMutation_of_quiet
    · simp [perform, mutationMark]
    · simp only [perform, completeFetchSuccess]
      split <;> rfl
  | completeFetchError ticket error =>
    apply performsMutation_of_quiet
    · simp [perform, mutationMark]
    · simp only [perform, completeFetchError]
      split <;> rfl
  | invalidate key =>
    apply performsMutation_of_quiet <;> cases hget : client.queries.get key <;>
      simp [perform, invalidate, hget, mutationMark]
  | beginMutation other => exact client.beginMutation_performsMutation id other
  | completeMutationSuccess ticket data invalidateKeys =>
    exact client.completeMutationSuccess_performsMutation id ticket data invalidateKeys
  | completeMutationError ticket error =>
    exact client.completeMutationError_performsMutation id ticket error

/-- A completion that is rejected changes nothing. -/
def RejectsUnchanged : Prop :=
    (∀ ticket data, (client.completeFetchSuccess ticket data).1 = false →
      (client.completeFetchSuccess ticket data).2 = client) ∧
    (∀ ticket error, (client.completeFetchError ticket error).1 = false →
      (client.completeFetchError ticket error).2 = client) ∧
    (∀ ticket data keys, (client.completeMutationSuccess ticket data keys).1 = false →
      (client.completeMutationSuccess ticket data keys).2 = client) ∧
    ∀ ticket error, (client.completeMutationError ticket error).1 = false →
      (client.completeMutationError ticket error).2 = client

theorem rejectsUnchanged : client.RejectsUnchanged := by
  refine ⟨?_, ?_, ?_, ?_⟩
  · intro ticket data
    unfold completeFetchSuccess QueryEntry.completeFetchSuccess
    cases hget : client.queries.get ticket.key with
    | none => simp
    | some entry =>
      by_cases h : entry.fetchGeneration = ticket.generation <;> simp [h, setQuery_get hget]
  · intro ticket error
    unfold completeFetchError QueryEntry.completeFetchError
    cases hget : client.queries.get ticket.key with
    | none => simp
    | some entry =>
      by_cases h : entry.fetchGeneration = ticket.generation <;> simp [h, setQuery_get hget]
  · intro ticket data keys
    unfold completeMutationSuccess
    cases hget : client.mutations.get ticket.id with
    | none => simp
    | some entry => by_cases h : entry.generation = ticket.generation <;> simp [h]
  · intro ticket error
    unfold completeMutationError
    cases hget : client.mutations.get ticket.id with
    | none => simp
    | some entry => by_cases h : entry.generation = ticket.generation <;> simp [h]

end ResourceClient

namespace ResourceSession

/-- The status of every query says whether it has data. -/
def StatusesAgree (session : ResourceSession Value) : Prop :=
  ∀ key entry, session.client.queries.get key = some entry →
    entry.status.hasData = entry.data.isSome

/-- Of the tickets for the fetches of a query, and for the mutations of an id, each is
accepted once at most and while it is the newest. -/
def AcceptsOnce (session : ResourceSession Value) : Prop :=
  (∀ key, ((session.fetchMarks key).filterMap GenerationMark.acceptedGeneration).Nodup ∧
    ∀ later earlier generation, session.fetchMarks key = later ++ .accepted generation :: earlier →
      Latest GenerationMark.IsBegun earlier (.begun generation)) ∧
  ∀ id, ((session.mutationMarks id).filterMap GenerationMark.acceptedGeneration).Nodup ∧
    ∀ later earlier generation,
      session.mutationMarks id = later ++ .accepted generation :: earlier →
      Latest GenerationMark.IsBegun earlier (.begun generation)

/-- A ticket that was issued, and that has not been accepted since as the newest. -/
def FreshFetch (session : ResourceSession Value) (ticket : FetchTicket) : Prop :=
  ticket.generation ≠ 0 ∧ (session.fetchMarks ticket.key).head? ≠ some (.accepted ticket.generation)

def FreshMutation (session : ResourceSession Value) (ticket : MutationTicket) : Prop :=
  ticket.generation ≠ 0 ∧
    (session.mutationMarks ticket.id).head? ≠ some (.accepted ticket.generation)

/-- The query is unknown or has data. -/
def Invalidatable (session : ResourceSession Value) (key : QueryKey) : Prop :=
  ∀ entry ∈ session.client.queries.get key, entry.data.isSome = true

/-- Invalidations, also those of a mutation that is accepted, meet queries with data,
tickets are not presented again once accepted, and no counter of generations is at its
end. -/
def Orderly (session : ResourceSession Value) : ResourceOperation Value → Prop
  | .beginFetch key => (session.client.queryOrNew key).fetchGeneration < U64.MAX
  | .beginMutation id => (session.client.mutationOrNew id).generation < U64.MAX
  | .completeFetchSuccess ticket _ => session.FreshFetch ticket
  | .completeFetchError ticket _ => session.FreshFetch ticket
  | .invalidate key => session.Invalidatable key
  | .completeMutationSuccess ticket _ invalidateKeys => session.FreshMutation ticket ∧
      ((session.client.mutationOrNew ticket.id).generation = ticket.generation →
        ∀ key ∈ invalidateKeys, session.Invalidatable key)
  | .completeMutationError ticket _ => session.FreshMutation ticket
  | _ => True

section

variable (session : ResourceSession Value)

instance (ticket : FetchTicket) : Decidable (session.FreshFetch ticket) :=
  inferInstanceAs (Decidable (_ ∧ _))

instance (ticket : MutationTicket) : Decidable (session.FreshMutation ticket) :=
  inferInstanceAs (Decidable (_ ∧ _))

instance (key : QueryKey) : Decidable (session.Invalidatable key) :=
  inferInstanceAs (Decidable (∀ entry ∈ session.client.queries.get key, entry.data.isSome = true))

instance : (operation : ResourceOperation Value) → Decidable (session.Orderly operation)
  | .beginFetch _ | .beginMutation _ => inferInstanceAs (Decidable (_ < _))
  | .completeFetchSuccess ticket _ | .completeFetchError ticket _ =>
    inferInstanceAs (Decidable (session.FreshFetch ticket))
  | .invalidate key => inferInstanceAs (Decidable (session.Invalidatable key))
  | .completeMutationSuccess ticket _ invalidateKeys =>
    inferInstanceAs (Decidable (session.FreshMutation ticket ∧
      ((session.client.mutationOrNew ticket.id).generation = ticket.generation →
        ∀ key ∈ invalidateKeys, session.Invalidatable key)))
  | .completeMutationError ticket _ => inferInstanceAs (Decidable (session.FreshMutation ticket))
  | .ensureQuery _ | .subscribe _ | .unsubscribe _ => inferInstanceAs (Decidable True)

end

/-- What an orderly run keeps. -/
structure Sound (session : ResourceSession Value) : Prop where
  statuses : ∀ key, (session.client.queryOrNew key).status.hasData =
    (session.client.queryOrNew key).data.isSome
  fetches : ∀ key, Ledger (session.client.queryOrNew key).fetchGeneration (session.fetchMarks key)
  mutations : ∀ id, Ledger (session.client.mutationOrNew id).generation (session.mutationMarks id)

variable {session : ResourceSession Value} {operation : ResourceOperation Value}

/-- An orderly step keeps what the statuses say. -/
theorem Sound.statuses_perform (hsound : session.Sound) (horderly : session.Orderly operation)
    (key : QueryKey) :
    ((session.client.perform operation).2.queryOrNew key).status.hasData =
      ((session.client.perform operation).2.queryOrNew key).data.isSome := by
  have hbefore := hsound.statuses key
  cases session.client.performsOn key operation with
  | quiet hevents hstatus hdata hgeneration => rw [hstatus, hdata, hbefore]
  | begun hoperation hevents hafter =>
    rw [hafter, beginFetch]
    cases (session.client.queryOrNew key).data <;> rfl
  | succeeded ticket data hoperation hkey hgeneration hevents hafter =>
    rw [hafter]
    rfl
  | failed ticket error hoperation hkey hgeneration hevents hafter =>
    rw [hafter]
    cases (session.client.queryOrNew key).data <;> rfl
  | invalidated hinvalidates hevents hafter =>
    obtain ⟨hoperation, hknown⟩ := hinvalidates
    obtain ⟨entry, hget⟩ := IndexMap.containsKey_iff.mp hknown
    have hinvalidatable : session.Invalidatable key := by
      cases operation with
      | invalidate other =>
        obtain rfl : other = key := hoperation
        exact horderly
      | completeMutationSuccess ticket data keys => exact horderly.2 hoperation.1 key hoperation.2
      | _ => exact hoperation.elim
    have hdata := hinvalidatable entry hget
    rw [hafter, ResourceClient.queryOrNew_of_get hget, invalidate, hdata]
    cases entry.observers.isEmpty <;> rfl

/-- Below the end of the counter a step is plus one. -/
theorem increment_of_lt {counter : Nat} (h : counter < U64.MAX) :
    increment 64 counter = counter + 1 := by
  rw [U64.MAX] at h
  rw [increment, Nat.mod_eq_of_lt]
  omega

/-- An orderly step accepts no fetch ticket again. -/
theorem Sound.fetches_perform (hsound : session.Sound) (horderly : session.Orderly operation)
    (key : QueryKey) :
    Ledger ((session.client.perform operation).2.queryOrNew key).fetchGeneration
      ((session.perform operation).fetchMarks key) := by
  have hledger := hsound.fetches key
  rw [fetchMarks, show (session.perform operation).history =
    (session.client.perform operation).1 ++ session.history from rfl, filterMap_append]
  rw [fetchMarks] at hledger
  have hquiet : (∀ event ∈ (session.client.perform operation).1, event.ConcernsQuery key →
      event = .invalidated key) →
        (session.client.perform operation).1.filterMap (fetchMark key) = [] := by
    intro hevents
    rw [filterMap_eq_nil_iff]
    intro event hmem
    have hconcerns := hevents event hmem
    cases event <;> simp_all [ConcernsQuery, fetchMark]
  have haccept : ∀ ticket, session.FreshFetch ticket → ticket.key = key →
      (session.client.queryOrNew key).fetchGeneration = ticket.generation →
        Ledger (session.client.queryOrNew key).fetchGeneration
          (.accepted ticket.generation :: session.history.filterMap (fetchMark key)) := by
    rintro ticket ⟨hissued, hfresh⟩ rfl hgeneration
    rw [← hgeneration] at hissued hfresh ⊢
    exact hledger.accept hissued hfresh
  cases session.client.performsOn key operation with
  | quiet hevents hstatus hdata hgeneration =>
    rw [hquiet fun event hmem hconcerns => absurd hconcerns (hevents event hmem), hgeneration]
    exact hledger
  | begun hoperation hevents hafter =>
    subst hoperation
    rw [hevents, hafter]
    have hnext := hledger.begin
    rw [← increment_of_lt horderly] at hnext
    simpa [fetchMark, beginFetch] using hnext
  | succeeded ticket data hoperation hkey hgeneration hevents hafter
  | failed ticket error hoperation hkey hgeneration hevents hafter =>
    subst hoperation
    rw [hevents, hafter]
    simpa [fetchMark, hkey] using haccept ticket horderly hkey hgeneration
  | invalidated hinvalidates hevents hafter =>
    rw [hquiet hevents, hafter, nil_append]
    exact hledger

/-- An orderly step accepts no mutation ticket again. -/
theorem Sound.mutations_perform (hsound : session.Sound) (horderly : session.Orderly operation)
    (id : String) :
    Ledger ((session.client.perform operation).2.mutationOrNew id).generation
      ((session.perform operation).mutationMarks id) := by
  have hledger := hsound.mutations id
  rw [mutationMarks, show (session.perform operation).history =
    (session.client.perform operation).1 ++ session.history from rfl, filterMap_append]
  cases session.client.performsMutation id operation with
  | quiet hmarks hafter =>
    rw [hmarks, hafter]
    exact hledger
  | begun hoperation hmarks hafter =>
    subst hoperation
    have hnext := hledger.begin
    rw [hmarks, hafter, increment_of_lt horderly]
    exact hnext
  | completed ticket hoperation hid hgeneration hmarks hafter =>
    subst hid
    have hfreshTicket : session.FreshMutation ticket := by
      rcases hoperation with ⟨data, keys, rfl⟩ | ⟨error, rfl⟩
      · exact horderly.1
      · exact horderly
    obtain ⟨hissued, hfresh⟩ := hfreshTicket
    rw [← hgeneration] at hissued hfresh
    rw [hmarks, hafter]
    exact hledger.accept hissued hfresh

theorem sound_start : (start : ResourceSession Value).Sound where
  statuses _ := rfl
  fetches _ := Ledger.empty
  mutations _ := Ledger.empty

/-- In every orderly run the statuses agree with the contents and tickets are accepted once,
and in any client a rejected completion changes nothing. -/
theorem orderly_runs_are_sound {operations : List (ResourceOperation Value)}
    {session : ResourceSession Value} (horderly : (machine Value).Along Orderly start operations)
    (hrun : (machine Value).run start operations = some session) :
    session.StatusesAgree ∧ session.AcceptsOnce ∧ session.client.RejectsUnchanged := by
  have hsound : session.Sound := by
    refine Machine.run_induction ?_ sound_start horderly hrun
    intro before operation output after hsound horderly hstep
    cases hstep
    exact ⟨hsound.statuses_perform horderly, hsound.fetches_perform horderly,
      hsound.mutations_perform horderly⟩
  refine ⟨?_, ⟨?_, ?_⟩, session.client.rejectsUnchanged⟩
  · intro key entry hget
    have hstatus := hsound.statuses key
    rwa [ResourceClient.queryOrNew_of_get hget] at hstatus
  · intro key
    exact ⟨(hsound.fetches key).accepted_once, (hsound.fetches key).accepted_latest⟩
  · intro id
    exact ⟨(hsound.mutations id).accepted_once, (hsound.mutations id).accepted_latest⟩

/-- A list that is fetched, saved to and fetched again, with a late error for the first
fetch. -/
def edited : List (ResourceOperation String) :=
  [.beginFetch [.text "members"], .completeFetchSuccess ⟨[.text "members"], 1⟩ "old",
    .beginMutation "save", .completeMutationSuccess ⟨"save", 1⟩ none [[.text "members"]],
    .beginFetch [.text "members"], .completeFetchError ⟨[.text "members"], 1⟩ "late",
    .completeFetchSuccess ⟨[.text "members"], 2⟩ "new"]

theorem orderly_runs_are_sound_edited :
    ∃ session, (machine String).run start edited = some session ∧
      session.StatusesAgree ∧ session.AcceptsOnce ∧ session.client.RejectsUnchanged := by
  have horderly : (machine String).holdsAlong
      (fun session operation => decide (session.Orderly operation)) start edited = true := by
    decide
  have halong := Machine.Along.mono (fun _ _ => of_decide_eq_true)
    (Machine.holdsAlong_iff.mp horderly)
  exact ⟨_, rfl, orderly_runs_are_sound halong rfl⟩

/-- An invalidation of a query without data, and a ticket that is presented twice. -/
theorem unsound_without_order :
    (¬ ∀ (operations : List (ResourceOperation String)) (session : ResourceSession String),
      (machine String).run start operations = some session → session.StatusesAgree) ∧
    ¬ ∀ (operations : List (ResourceOperation String)) (session : ResourceSession String),
      (machine String).run start operations = some session → session.AcceptsOnce := by
  constructor
  · intro hagree
    have hstatus := hagree [.ensureQuery [.text "members"], .invalidate [.text "members"]] _ rfl
      [.text "members"] _ rfl
    cases hstatus
  · intro honce
    have hnodup := ((honce [.beginFetch [.text "members"],
      .completeFetchSuccess ⟨[.text "members"], 1⟩ "first",
      .completeFetchSuccess ⟨[.text "members"], 1⟩ "second"] _ rfl).1 [.text "members"]).1
    revert hnodup
    decide

end ResourceSession

end OpenGpui.Resource
