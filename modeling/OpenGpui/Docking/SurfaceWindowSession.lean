/-
The lifecycle of the windows of a dock surface: an opening that commits or rolls back, an
active anchor, and a shutdown that waits for the tickets of all windows and dependencies.
-/
import OpenGpui.Docking.ViewportRegistry

namespace OpenGpui.Docking

abbrev EntityId := Nat

/-- Why an opening did not become active. -/
inductive OpeningRollbackReason where
  | windowOpenFailed
  | closedDuringOpening
  | presentationFailedBeforeVisibility
  | appShutdown
  | cancelled
  | panicked

/-- Why the windows shut down. -/
inductive ShutdownReason where
  | anchorCloseRequested
  | anchorDestroyed
  | presentationFailed
  | appShutdown

inductive WindowSessionReason where
  | openingRolledBack (reason : OpeningRollbackReason)
  | shutdown (reason : ShutdownReason)

/-- Permission to finish one opening. -/
structure OpeningToken where
  authority : EntityId
  generation : Nat
deriving DecidableEq

/-- The right to the active windows of one opening. -/
structure WindowSessionLease where
  authority : EntityId
  generation : Nat
  anchor : WindowId
deriving DecidableEq

/-- Why no opening can begin. -/
inductive OpenConflict where
  | alreadyOpening (generation : Nat)
  | alreadyActive (generation : Nat) (anchor : WindowId)
  | notClosed (generation pendingTerminalTickets : Nat)

inductive CommitError where
  | notOpening
  | staleOpeningToken

inductive RollbackOutcome where
  | rolledBack
  | staleOpeningToken
  | notOpening

inductive BeginShutdownOutcome where
  | started (terminalTicketCount : Nat)
  | alreadyShuttingDown
  | staleLease
  | notActive

inductive TerminalOutcome where
  | settled
  | alreadyTerminal
  | unknownWindow
  | staleLease
  | notShuttingDown

inductive CloseDispatchOutcome where
  | claimed
  | alreadyDispatching
  | alreadyDispatched
  | alreadyTerminal
  | unknownWindow
  | staleLease
  | notShuttingDown

inductive CloseDispatchCommitOutcome where
  | dispatched
  | alreadyTerminal
  | notDispatching
  | unknownWindow
  | staleLease
  | notShuttingDown

inductive CloseDispatchRetryOutcome where
  | pending
  | alreadyPending
  | alreadyTerminal
  | notDispatching
  | unknownWindow
  | staleLease
  | notShuttingDown

inductive RuntimeEmptyOutcome where
  | marked
  | alreadyEmpty
  | staleLease
  | notShuttingDown

inductive DependencyKind where
  | liveUndock
deriving DecidableEq

/-- What a shutdown waits for besides its windows. -/
structure DependencyId where
  kind : DependencyKind
  generation : Nat
deriving DecidableEq

inductive DependencyTerminalDisposition where
  | settled
  | failed

inductive DependencyTerminalOutcome where
  | settled
  | failed
  | alreadyTerminal
  | unknownDependency
  | staleLease
  | notShuttingDown

inductive AdoptWindowOutcome where
  | added
  | alreadyTracked
  | staleLease
  | notShuttingDown

inductive ShutdownConvergenceOutcome where
  | closed
  | waiting (runtimeEmpty : Bool) (pendingTerminalTickets : Nat)
  | staleLease
  | notShuttingDown

/-- A ticket is terminal once its window was observed closed. -/
inductive CloseTicketState where
  | pending
  | dispatching
  | dispatched
  | terminal
deriving DecidableEq

/-- How far the closing of a window has come. -/
structure TerminalTicket where
  windowId : WindowId
  state : CloseTicketState

namespace TerminalTicket

def pending (windowId : WindowId) : TerminalTicket := ⟨windowId, .pending⟩

def isTerminal (ticket : TerminalTicket) : Bool := decide (ticket.state = .terminal)

end TerminalTicket

/-- Whether a dependency has ended. -/
structure DependencyTicket where
  id : DependencyId
  terminal : Option DependencyTerminalDisposition

namespace DependencyTicket

def pending (id : DependencyId) : DependencyTicket := ⟨id, none⟩

def isTerminal (ticket : DependencyTicket) : Bool := ticket.terminal.isSome

end DependencyTicket

/-- A shutdown and what it waits for. -/
structure WindowShutdown where
  lease : WindowSessionLease
  reason : ShutdownReason
  runtimeEmpty : Bool
  terminalTickets : List TerminalTicket
  dependencyTickets : List DependencyTicket

/-- What is left of windows that are closed. -/
structure ClosedWindows where
  generation : Nat
  anchor : Option WindowId
  reason : WindowSessionReason
  terminalTickets : List TerminalTicket
  dependencyTickets : List DependencyTicket

/-- The phase of the windows. -/
inductive WindowSessionState where
  | vacant
  | opening (token : OpeningToken)
  | active (lease : WindowSessionLease)
  | shuttingDown (shutdown : WindowShutdown)
  | closed (closed : ClosedWindows)

/-- The phase, and the last generation that was issued. -/
structure SurfaceWindowSession where
  authority : EntityId
  lastGeneration : Nat
  state : WindowSessionState

/-- One ticket for each key that is not skipped, in the order of their first occurrence. -/
def collectTickets {κ τ : Type} [DecidableEq κ] (key : τ → κ) (pending : κ → τ)
    (skip : κ → Bool) (keys : List κ) : List τ :=
  keys.foldl (fun tickets next =>
    if skip next || tickets.any (fun ticket => decide (key ticket = next)) then tickets
    else tickets ++ [pending next]) []

/-- Changes the first ticket with a key. -/
def updateTicket {κ τ : Type} [DecidableEq κ] (key : τ → κ) (target : κ) (update : τ → τ) :
    List τ → List τ
  | [] => []
  | ticket :: rest =>
    if key ticket = target then update ticket :: rest
    else ticket :: updateTicket key target update rest

/-- Puts a ticket before the one of the anchor, or at the end. -/
def insertBeforeAnchor (anchor : WindowId) (ticket : TerminalTicket)
    (tickets : List TerminalTicket) : List TerminalTicket :=
  tickets.insertIdx (tickets.findIdx fun other => decide (other.windowId = anchor)) ticket

namespace WindowShutdown

variable (shutdown : WindowShutdown)

/-- How many tickets are not terminal. -/
def pendingTerminalTickets : Nat :=
  (shutdown.terminalTickets.filter fun ticket => !ticket.isTerminal).length +
    (shutdown.dependencyTickets.filter fun ticket => !ticket.isTerminal).length

variable (windowId : WindowId)

def findTicket : Option TerminalTicket :=
  shutdown.terminalTickets.find? fun ticket => decide (ticket.windowId = windowId)

def setTicket (state : CloseTicketState) : WindowShutdown :=
  { shutdown with
    terminalTickets := updateTicket TerminalTicket.windowId windowId
      (fun ticket => { ticket with state }) shutdown.terminalTickets }

end WindowShutdown

namespace SurfaceWindowSession

def new (authority : EntityId) : SurfaceWindowSession := ⟨authority, 0, .vacant⟩

variable (session : SurfaceWindowSession)

/-- Running out of generations is a panic. -/
def reserveOpening : Option (Except OpenConflict OpeningToken × SurfaceWindowSession) :=
  let reserve := (U64.checkedAdd session.lastGeneration 1).map fun generation =>
    let token : OpeningToken := ⟨session.authority, generation⟩
    (Except.ok token, { session with lastGeneration := generation, state := .opening token })
  match session.state with
  | .vacant => reserve
  | .closed _ => reserve
  | .opening token => some (.error (.alreadyOpening token.generation), session)
  | .active lease => some (.error (.alreadyActive lease.generation lease.anchor), session)
  | .shuttingDown shutdown =>
    some (.error (.notClosed shutdown.lease.generation shutdown.pendingTerminalTickets), session)

variable (token : OpeningToken)

/-- Only the current token makes an opening active. -/
def commitOpening (anchor : WindowId) :
    Except CommitError WindowSessionLease × SurfaceWindowSession :=
  match session.state with
  | .opening current =>
    if current ≠ token then (.error .staleOpeningToken, session)
    else
      let lease : WindowSessionLease := ⟨session.authority, token.generation, anchor⟩
      (.ok lease, { session with state := .active lease })
  | _ => (.error .notOpening, session)

/-- Only the current token ends an opening. -/
def rollbackOpening (reason : OpeningRollbackReason) :
    RollbackOutcome × SurfaceWindowSession :=
  match session.state with
  | .opening current =>
    if current ≠ token then (.staleOpeningToken, session)
    else
      (.rolledBack, { session with
        state := .closed ⟨token.generation, none, .openingRolledBack reason, [], []⟩ })
  | _ => (.notOpening, session)

variable (lease : WindowSessionLease) (reason : ShutdownReason)

/-- The windows get their tickets in order, the anchor's the last. -/
def beginShutdownWithDependencies (windows : List WindowId) (dependencies : List DependencyId) :
    BeginShutdownOutcome × SurfaceWindowSession :=
  match session.state with
  | .active current =>
    if current = lease then
      let terminalTickets :=
        collectTickets TerminalTicket.windowId TerminalTicket.pending
          (fun windowId => decide (windowId = lease.anchor)) windows ++
            [TerminalTicket.pending lease.anchor]
      let dependencyTickets :=
        collectTickets DependencyTicket.id DependencyTicket.pending (fun _ => false) dependencies
      (.started (terminalTickets.length + dependencyTickets.length), { session with
        state := .shuttingDown ⟨lease, reason, false, terminalTickets, dependencyTickets⟩ })
    else (.staleLease, session)
  | .shuttingDown shutdown =>
    if shutdown.lease = lease then (.alreadyShuttingDown, session) else (.staleLease, session)
  | _ => (.notActive, session)

def beginShutdown (windows : List WindowId) : BeginShutdownOutcome × SurfaceWindowSession :=
  session.beginShutdownWithDependencies lease reason windows []

/-- What a step does while its lease shuts down, and how it answers otherwise. -/
def duringShutdown {Outcome : Type} (lease : WindowSessionLease)
    (staleLease notShuttingDown : Outcome)
    (act : WindowShutdown → Outcome × WindowSessionState) : Outcome × SurfaceWindowSession :=
  match session.state with
  | .shuttingDown shutdown =>
    if shutdown.lease = lease then
      ((act shutdown).1, { session with state := (act shutdown).2 })
    else (staleLease, session)
  | .active current =>
    if current = lease then (notShuttingDown, session) else (staleLease, session)
  | _ => (staleLease, session)

/-- What a step does to the ticket of a window. -/
def withTicket {Outcome : Type} (lease : WindowSessionLease) (windowId : WindowId)
    (staleLease notShuttingDown unknownWindow : Outcome)
    (act : CloseTicketState → Outcome × CloseTicketState) : Outcome × SurfaceWindowSession :=
  session.duringShutdown lease staleLease notShuttingDown fun shutdown =>
    match shutdown.findTicket windowId with
    | none => (unknownWindow, .shuttingDown shutdown)
    | some ticket =>
      ((act ticket.state).1, .shuttingDown (shutdown.setTicket windowId (act ticket.state).2))

variable (windowId : WindowId)

/-- A window found while shutting down is waited for too. -/
def adoptShutdownWindow : AdoptWindowOutcome × SurfaceWindowSession :=
  session.duringShutdown lease .staleLease .notShuttingDown fun shutdown =>
    if (shutdown.findTicket windowId).isSome then (.alreadyTracked, .shuttingDown shutdown)
    else
      (.added, .shuttingDown { shutdown with
        terminalTickets :=
          insertBeforeAnchor lease.anchor (.pending windowId) shutdown.terminalTickets
        runtimeEmpty := false })

variable (dependency : DependencyId)

/-- A dependency ends once. -/
def completeDependency (disposition : DependencyTerminalDisposition) :
    DependencyTerminalOutcome × SurfaceWindowSession :=
  session.duringShutdown lease .staleLease .notShuttingDown fun shutdown =>
    match shutdown.dependencyTickets.find? fun ticket => decide (ticket.id = dependency) with
    | none => (.unknownDependency, .shuttingDown shutdown)
    | some ticket =>
      if ticket.terminal.isSome then (.alreadyTerminal, .shuttingDown shutdown)
      else
        (match disposition with
          | .settled => .settled
          | .failed => .failed,
          .shuttingDown { shutdown with
            dependencyTickets := updateTicket DependencyTicket.id dependency
              (fun ticket => { ticket with terminal := some disposition })
              shutdown.dependencyTickets })

def settleDependency : DependencyTerminalOutcome × SurfaceWindowSession :=
  session.completeDependency lease dependency .settled

def failDependency : DependencyTerminalOutcome × SurfaceWindowSession :=
  session.completeDependency lease dependency .failed

def markRuntimeEmpty : RuntimeEmptyOutcome × SurfaceWindowSession :=
  session.duringShutdown lease .staleLease .notShuttingDown fun shutdown =>
    if shutdown.runtimeEmpty then (.alreadyEmpty, .shuttingDown shutdown)
    else (.marked, .shuttingDown { shutdown with runtimeEmpty := true })

def settleTerminal : TerminalOutcome × SurfaceWindowSession :=
  session.withTicket lease windowId .staleLease .notShuttingDown .unknownWindow fun
    | .terminal => (.alreadyTerminal, .terminal)
    | _ => (.settled, .terminal)

def claimCloseDispatch : CloseDispatchOutcome × SurfaceWindowSession :=
  session.withTicket lease windowId .staleLease .notShuttingDown .unknownWindow fun
    | .pending => (.claimed, .dispatching)
    | .dispatching => (.alreadyDispatching, .dispatching)
    | .dispatched => (.alreadyDispatched, .dispatched)
    | .terminal => (.alreadyTerminal, .terminal)

def markCloseDispatched : CloseDispatchCommitOutcome × SurfaceWindowSession :=
  session.withTicket lease windowId .staleLease .notShuttingDown .unknownWindow fun
    | .dispatching => (.dispatched, .dispatched)
    | .terminal => (.alreadyTerminal, .terminal)
    | .pending => (.notDispatching, .pending)
    | .dispatched => (.notDispatching, .dispatched)

def retryCloseDispatch : CloseDispatchRetryOutcome × SurfaceWindowSession :=
  session.withTicket lease windowId .staleLease .notShuttingDown .unknownWindow fun
    | .dispatching => (.pending, .pending)
    | .pending => (.alreadyPending, .pending)
    | .dispatched => (.notDispatching, .dispatched)
    | .terminal => (.alreadyTerminal, .terminal)

/-- The windows are closed when nothing is pending. -/
def completeShutdown : ShutdownConvergenceOutcome × SurfaceWindowSession :=
  session.duringShutdown lease .staleLease .notShuttingDown fun shutdown =>
    if !shutdown.runtimeEmpty || decide (shutdown.pendingTerminalTickets ≠ 0) then
      (.waiting shutdown.runtimeEmpty shutdown.pendingTerminalTickets, .shuttingDown shutdown)
    else
      (.closed, .closed ⟨lease.generation, some lease.anchor, .shutdown shutdown.reason,
        shutdown.terminalTickets, shutdown.dependencyTickets⟩)

def admits : Bool :=
  match session.state with
  | .active current => decide (current = lease)
  | _ => false

def isShuttingDown : Bool :=
  match session.state with
  | .shuttingDown shutdown => decide (shutdown.lease = lease)
  | _ => false

def openingToken : Option OpeningToken :=
  match session.state with
  | .opening token => some token
  | _ => none

end SurfaceWindowSession

end OpenGpui.Docking
