/-
The resource client: queries with their cached data, the fetch generations that may still
write to them, mutations that invalidate queries when they succeed, and the log of what the
operations of a session did, told by their results.
-/
import OpenGpui.Library.EventLog
import OpenGpui.Library.IndexMap
import OpenGpui.Library.Machine
import OpenGpui.Library.Primitives

namespace OpenGpui.Resource

universe u

/-- A part of a query key. -/
inductive QueryKeySegment where
  | text (value : String)
  | integer (value : Int)
  | bool (value : Bool)
deriving DecidableEq

abbrev QueryKey := List QueryKeySegment

/-- Where a query stands. -/
inductive ResourceStatus where
  | idle
  | loading
  | success
  | stale
  | refetching
  | error

/-- The statuses of a query that has data. -/
def ResourceStatus.hasData : ResourceStatus → Bool
  | success | stale | refetching => true
  | idle | loading | error => false

inductive MutationStatus where
  | idle
  | pending
  | success
  | error

inductive ResourceError where
  | unknownQuery (key : QueryKey)
  | unknownObserver
  | emptyMutationId
  | unknownMutation (id : String)

/-- Permission to complete one fetch. -/
structure FetchTicket where
  key : QueryKey
  generation : Nat
deriving DecidableEq

/-- Permission to complete one mutation. -/
structure MutationTicket where
  id : String
  generation : Nat
deriving DecidableEq

structure ObserverHandle where
  key : QueryKey
  id : Nat

structure InvalidationOutcome where
  refetchRequested : Bool

/-- A query: its data, its observers and its fetches. -/
structure QueryEntry (Value : Type u) where
  status : ResourceStatus
  data : Option Value
  error : Option String
  observers : List Nat
  nextObserverId : Nat
  fetchGeneration : Nat
  fetchAttempts : Nat

/-- A mutation and its outcome. -/
structure MutationEntry (Value : Type u) where
  status : MutationStatus
  data : Option Value
  error : Option String
  generation : Nat

/-- `+= 1` on a counter of the given width, as a release build computes it. -/
def increment (width counter : Nat) : Nat := (counter + 1) % 2 ^ width

namespace QueryEntry

variable {Value : Type u}

def new : QueryEntry Value where
  status := .idle
  data := none
  error := none
  observers := []
  nextObserverId := 0
  fetchGeneration := 0
  fetchAttempts := 0

variable (entry : QueryEntry Value)

/-- A query whose next fetch generation has begun. -/
def beginFetch : QueryEntry Value :=
  { entry with
    fetchGeneration := increment 64 entry.fetchGeneration
    fetchAttempts := increment 32 entry.fetchAttempts
    status := if entry.data.isSome then .refetching else .loading
    error := none }

variable (generation : Nat)

/-- Data is accepted from the newest fetch only. -/
def completeFetchSuccess (data : Value) : Bool × QueryEntry Value :=
  if entry.fetchGeneration = generation then
    (true, { entry with status := .success, data := some data, error := none })
  else
    (false, entry)

/-- Old data outlives an error, as stale. -/
def completeFetchError (error : String) : Bool × QueryEntry Value :=
  if entry.fetchGeneration = generation then
    (true, { entry with
        status := if entry.data.isSome then .stale else .error
        error := some error })
  else
    (false, entry)

/-- An observed query is fetched again, another one is stale. -/
def invalidate : QueryEntry Value :=
  { entry with status := if entry.observers.isEmpty then .stale else .refetching }

end QueryEntry

namespace MutationEntry

variable {Value : Type u}

def new : MutationEntry Value where
  status := .idle
  data := none
  error := none
  generation := 0

def begin (entry : MutationEntry Value) : MutationEntry Value :=
  { entry with
    generation := increment 64 entry.generation
    status := .pending
    error := none }

end MutationEntry

/-- The queries and mutations by key. -/
structure ResourceClient (Value : Type u) where
  queries : IndexMap QueryKey (QueryEntry Value)
  mutations : IndexMap String (MutationEntry Value)

namespace ResourceClient

variable {Value : Type u}

def default : ResourceClient Value := ⟨.empty, .empty⟩

variable (client : ResourceClient Value) (key : QueryKey)

def setQuery (entry : QueryEntry Value) : ResourceClient Value :=
  { client with queries := client.queries.insert key entry }

variable (id : String)

def setMutation (entry : MutationEntry Value) : ResourceClient Value :=
  { client with mutations := client.mutations.insert id entry }

/-- The entry of a query, which is made when there is none. -/
def queryOrNew : QueryEntry Value := (client.queries.get key).getD .new

def mutationOrNew : MutationEntry Value := (client.mutations.get id).getD .new

def ensureQuery : ResourceClient Value := client.setQuery key (client.queryOrNew key)

/-- A new observer of the query. -/
def subscribe : ObserverHandle × ResourceClient Value :=
  let entry := client.queryOrNew key
  let id := increment 64 entry.nextObserverId
  (⟨key, id⟩, client.setQuery key
      { entry with nextObserverId := id, observers := entry.observers.insert id })

/-- The observer no longer counts. -/
def unsubscribe (handle : ObserverHandle) : Except ResourceError Unit × ResourceClient Value :=
  match client.queries.get handle.key with
  | none => (.error (.unknownQuery handle.key), client)
  | some entry =>
    if handle.id ∈ entry.observers then
      (.ok (), client.setQuery handle.key
        { entry with observers := entry.observers.filter (· != handle.id) })
    else
      (.error .unknownObserver, client)

/-- The ticket of the next fetch. -/
def beginFetch : FetchTicket × ResourceClient Value :=
  let entry := (client.queryOrNew key).beginFetch
  (⟨key, entry.fetchGeneration⟩, client.setQuery key entry)

def completeFetchSuccess (client : ResourceClient Value) (ticket : FetchTicket) (data : Value) :
    Bool × ResourceClient Value :=
  match client.queries.get ticket.key with
  | none => (false, client)
  | some entry =>
    let (accepted, entry) := entry.completeFetchSuccess ticket.generation data
    (accepted, client.setQuery ticket.key entry)

def completeFetchError (client : ResourceClient Value) (ticket : FetchTicket) (error : String) :
    Bool × ResourceClient Value :=
  match client.queries.get ticket.key with
  | none => (false, client)
  | some entry =>
    let (accepted, entry) := entry.completeFetchError ticket.generation error
    (accepted, client.setQuery ticket.key entry)

/-- A known query is invalidated. -/
def invalidate (client : ResourceClient Value) (key : QueryKey) :
    Except ResourceError InvalidationOutcome × ResourceClient Value :=
  match client.queries.get key with
  | none => (.error (.unknownQuery key), client)
  | some entry => (.ok ⟨!entry.observers.isEmpty⟩, client.setQuery key entry.invalidate)

/-- The ticket of the next mutation of an id. -/
def beginMutation : Except ResourceError MutationTicket × ResourceClient Value :=
  if trimIsEmpty id then
    (.error .emptyMutationId, client)
  else
    let entry := (client.mutationOrNew id).begin
    (.ok ⟨id, entry.generation⟩, client.setMutation id entry)

/-- Invalidates the queries in turn; unknown ones are skipped. -/
def invalidateAll (keys : List QueryKey) : ResourceClient Value :=
  keys.foldl (fun client key => (client.invalidate key).2) client

variable (ticket : MutationTicket)

/-- An accepted success invalidates the queries it names. -/
def completeMutationSuccess
    (data : Option Value) (invalidateKeys : List QueryKey) : Bool × ResourceClient Value :=
  match client.mutations.get ticket.id with
  | none => (false, client)
  | some entry =>
    if entry.generation = ticket.generation then
      let entry := { entry with status := .success, data := data, error := none }
      (true, (client.setMutation ticket.id entry).invalidateAll invalidateKeys)
    else
      (false, client)

def completeMutationError (error : String) : Bool × ResourceClient Value :=
  match client.mutations.get ticket.id with
  | none => (false, client)
  | some entry =>
    if entry.generation = ticket.generation then
      (true, client.setMutation ticket.id { entry with status := .error, error := some error })
    else
      (false, client)

end ResourceClient

/-- The calls a program makes on a client. -/
inductive ResourceOperation (Value : Type u) where
  | ensureQuery (key : QueryKey)
  | subscribe (key : QueryKey)
  | unsubscribe (handle : ObserverHandle)
  | beginFetch (key : QueryKey)
  | completeFetchSuccess (ticket : FetchTicket) (data : Value)
  | completeFetchError (ticket : FetchTicket) (error : String)
  | invalidate (key : QueryKey)
  | beginMutation (id : String)
  | completeMutationSuccess (ticket : MutationTicket) (data : Option Value)
      (invalidateKeys : List QueryKey)
  | completeMutationError (ticket : MutationTicket) (error : String)

/-- What a call did. -/
inductive ResourceEvent where
  | fetchBegun (ticket : FetchTicket)
  | fetchSucceeded (ticket : FetchTicket)
  | fetchFailed (ticket : FetchTicket)
  | invalidated (key : QueryKey)
  | mutationBegun (ticket : MutationTicket)
  | mutationCompleted (ticket : MutationTicket)
deriving DecidableEq

namespace ResourceEvent

variable (key : QueryKey)

/-- The event is about the query. -/
def ConcernsQuery : ResourceEvent → Prop
  | fetchBegun ticket | fetchSucceeded ticket | fetchFailed ticket => ticket.key = key
  | invalidated other => other = key
  | mutationBegun _ | mutationCompleted _ => False

/-- What the event says about the fetches of a query. -/
def fetchMark : ResourceEvent → Option GenerationMark
  | fetchBegun ticket => if ticket.key = key then some (.begun ticket.generation) else none
  | fetchSucceeded ticket | fetchFailed ticket =>
    if ticket.key = key then some (.accepted ticket.generation) else none
  | _ => none

/-- What the event says about the mutations of an id. -/
def mutationMark (id : String) : ResourceEvent → Option GenerationMark
  | mutationBegun ticket => if ticket.id = id then some (.begun ticket.generation) else none
  | mutationCompleted ticket => if ticket.id = id then some (.accepted ticket.generation) else none
  | _ => none

end ResourceEvent

namespace ResourceClient

variable {Value : Type u}

/-- What the operation did, the newest event first, and the client after it. -/
@[grind =] def perform (client : ResourceClient Value) :
    ResourceOperation Value → List ResourceEvent × ResourceClient Value
  | .ensureQuery key => ([], client.ensureQuery key)
  | .subscribe key => ([], (client.subscribe key).2)
  | .unsubscribe handle => ([], (client.unsubscribe handle).2)
  | .beginFetch key =>
    let (ticket, next) := client.beginFetch key
    ([.fetchBegun ticket], next)
  | .completeFetchSuccess ticket data =>
    let (accepted, next) := client.completeFetchSuccess ticket data
    (if accepted then [.fetchSucceeded ticket] else [], next)
  | .completeFetchError ticket error =>
    let (accepted, next) := client.completeFetchError ticket error
    (if accepted then [.fetchFailed ticket] else [], next)
  | .invalidate key =>
    match client.invalidate key with
    | (.ok _, next) => ([.invalidated key], next)
    | (.error _, next) => ([], next)
  | .beginMutation id =>
    match client.beginMutation id with
    | (.ok ticket, next) => ([.mutationBegun ticket], next)
    | (.error _, next) => ([], next)
  | .completeMutationSuccess ticket data invalidateKeys =>
    let (accepted, next) := client.completeMutationSuccess ticket data invalidateKeys
    let known := invalidateKeys.filter client.queries.containsKey
    (if accepted then known.reverse.map .invalidated ++ [.mutationCompleted ticket] else [], next)
  | .completeMutationError ticket error =>
    let (accepted, next) := client.completeMutationError ticket error
    (if accepted then [.mutationCompleted ticket] else [], next)

end ResourceClient

/-- A client and what has been done to it, the newest event first. -/
structure ResourceSession (Value : Type u) where
  client : ResourceClient Value
  history : List ResourceEvent

namespace ResourceSession

variable {Value : Type u}

def start : ResourceSession Value := ⟨.default, []⟩

def perform (session : ResourceSession Value) (operation : ResourceOperation Value) :
    ResourceSession Value :=
  ⟨(session.client.perform operation).2, (session.client.perform operation).1 ++ session.history⟩

def machine (Value : Type u) : Machine (ResourceSession Value) (ResourceOperation Value) Unit where
  step session operation := some ((), session.perform operation)

variable (session : ResourceSession Value)

/-- The fetches of a query that were begun and accepted. -/
def fetchMarks (key : QueryKey) : List GenerationMark :=
  session.history.filterMap (ResourceEvent.fetchMark key)

/-- The mutations of an id that were begun and accepted. -/
def mutationMarks (id : String) : List GenerationMark :=
  session.history.filterMap (ResourceEvent.mutationMark id)

end ResourceSession

end OpenGpui.Resource
