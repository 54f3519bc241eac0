/-
Runs of a surface window session with a log of what happened, and what one step can do:
it leaves the session alone, moves it to the next phase, or moves one ticket of the
shutdown.
-/
import OpenGpui.Docking.SurfaceWindowSession

namespace OpenGpui.Docking

open Option TerminalTicket

inductive WindowOutcome where
  | claimed
  | retried
  | settled
deriving DecidableEq

inductive SurfaceWindowEvent where
  | reserved (generation : Nat)
  | began (lease : WindowSessionLease) (windows : List WindowId)
      (dependencies : List DependencyId)
  | adopted (lease : WindowSessionLease) (windowId : WindowId)
  | window (lease : WindowSessionLease) (windowId : WindowId) (outcome : WindowOutcome)
  | dependencyEnded (lease : WindowSessionLease) (dependency : DependencyId)
  | emptied (lease : WindowSessionLease)

inductive SurfaceWindowCommand where
  | reserveOpening
  | commitOpening (token : OpeningToken) (anchor : WindowId)
  | rollbackOpening (token : OpeningToken) (reason : OpeningRollbackReason)
  | beginShutdown (lease : WindowSessionLease) (reason : ShutdownReason)
      (windows : List WindowId) (dependencies : List DependencyId)
  | adoptShutdownWindow (lease : WindowSessionLease) (windowId : WindowId)
  | completeDependency (lease : WindowSessionLease) (dependency : DependencyId)
      (disposition : DependencyTerminalDisposition)
  | markRuntimeEmpty (lease : WindowSessionLease)
  | settleTerminal (lease : WindowSessionLease) (windowId : WindowId)
  | claimCloseDispatch (lease : WindowSessionLease) (windowId : WindowId)
  | markCloseDispatched (lease : WindowSessionLease) (windowId : WindowId)
  | retryCloseDispatch (lease : WindowSessionLease) (windowId : WindowId)
  | completeShutdown (lease : WindowSessionLease)

inductive SurfaceWindowOutput where
  | reserved (result : Except OpenConflict OpeningToken)
  | committed (result : Except CommitError WindowSessionLease)
  | rolledBack (outcome : RollbackOutcome)
  | began (outcome : BeginShutdownOutcome)
  | adopted (outcome : AdoptWindowOutcome)
  | dependency (outcome : DependencyTerminalOutcome)
  | emptied (outcome : RuntimeEmptyOutcome)
  | settled (outcome : TerminalOutcome)
  | claimed (outcome : CloseDispatchOutcome)
  | dispatched (outcome : CloseDispatchCommitOutcome)
  | retried (outcome : CloseDispatchRetryOutcome)
  | completed (outcome : ShutdownConvergenceOutcome)

namespace SurfaceWindowCommand

/-- What the answer to a command says has happened. -/
def event : SurfaceWindowCommand → SurfaceWindowOutput → Option SurfaceWindowEvent
  | reserveOpening, .reserved (.ok token) => some (.reserved token.generation)
  | beginShutdown lease _ windows dependencies, .began (.started _) =>
    some (.began lease windows dependencies)
  | adoptShutdownWindow lease windowId, .adopted .added => some (.adopted lease windowId)
  | completeDependency lease dependency _, .dependency .settled =>
    some (.dependencyEnded lease dependency)
  | completeDependency lease dependency _, .dependency .failed =>
    some (.dependencyEnded lease dependency)
  | markRuntimeEmpty lease, .emptied .marked => some (.emptied lease)
  | settleTerminal lease windowId, .settled .settled => some (.window lease windowId .settled)
  | claimCloseDispatch lease windowId, .claimed .claimed =>
    some (.window lease windowId .claimed)
  | retryCloseDispatch lease windowId, .retried .pending =>
    some (.window lease windowId .retried)
  | _, _ => none

/-- The token or lease of the command is the one the session is at. -/
def isCurrent (session : SurfaceWindowSession) : SurfaceWindowCommand → Bool
  | reserveOpening => true
  | commitOpening token _ | rollbackOpening token _ =>
    decide (session.openingToken = some token)
  | beginShutdown lease _ _ _ | adoptShutdownWindow lease _ | completeDependency lease _ _
  | markRuntimeEmpty lease | settleTerminal lease _ | claimCloseDispatch lease _
  | markCloseDispatched lease _ | retryCloseDispatch lease _ | completeShutdown lease =>
    session.admits lease || session.isShuttingDown lease

end SurfaceWindowCommand

/-- A session with the log of what has happened, the newest first. -/
structure SurfaceWindowRun where
  session : SurfaceWindowSession
  log : List SurfaceWindowEvent

def SurfaceWindowSession.perform (session : SurfaceWindowSession) :
    SurfaceWindowCommand → Option (SurfaceWindowOutput × SurfaceWindowSession)
  | .reserveOpening => session.reserveOpening.map fun result => (.reserved result.1, result.2)
  | .commitOpening token anchor =>
    let result := session.commitOpening token anchor
    some (.committed result.1, result.2)
  | .rollbackOpening token reason =>
    let result := session.rollbackOpening token reason
    some (.rolledBack result.1, result.2)
  | .beginShutdown lease reason windows dependencies =>
    let result := session.beginShutdownWithDependencies lease reason windows dependencies
    some (.began result.1, result.2)
  | .adoptShutdownWindow lease windowId =>
    let result := session.adoptShutdownWindow lease windowId
    some (.adopted result.1, result.2)
  | .completeDependency lease dependency disposition =>
    let result := session.completeDependency lease dependency disposition
    some (.dependency result.1, result.2)
  | .markRuntimeEmpty lease =>
    let result := session.markRuntimeEmpty lease
    some (.emptied result.1, result.2)
  | .settleTerminal lease windowId =>
    let result := session.settleTerminal lease windowId
    some (.settled result.1, result.2)
  | .claimCloseDispatch lease windowId =>
    let result := session.claimCloseDispatch lease windowId
    some (.claimed result.1, result.2)
  | .markCloseDispatched lease windowId =>
    let result := session.markCloseDispatched lease windowId
    some (.dispatched result.1, result.2)
  | .retryCloseDispatch lease windowId =>
    let result := session.retryCloseDispatch lease windowId
    some (.retried result.1, result.2)
  | .completeShutdown lease =>
    let result := session.completeShutdown lease
    some (.completed result.1, result.2)

namespace SurfaceWindowRun

def start (authority : EntityId) : SurfaceWindowRun := ⟨.new authority, []⟩

def step (run : SurfaceWindowRun) (command : SurfaceWindowCommand) :
    Option (SurfaceWindowOutput × SurfaceWindowRun) :=
  (run.session.perform command).map fun result =>
    (result.1, ⟨result.2, (command.event result.1).toList ++ run.log⟩)

end SurfaceWindowRun

def surfaceWindowMachine : Machine SurfaceWindowRun SurfaceWindowCommand SurfaceWindowOutput :=
  ⟨SurfaceWindowRun.step⟩

/-- How the ticket of a window moves, with what is reported to have happened to it. -/
inductive CloseTicketState.Moves : CloseTicketState → Option WindowOutcome →
    CloseTicketState → Prop where
  | claim : Moves .pending (some .claimed) .dispatching
  | retry : Moves .dispatching (some .retried) .pending
  | settle {state : CloseTicketState} (h : state ≠ .terminal) :
      Moves state (some .settled) .terminal
  | dispatch : Moves .dispatching none .dispatched
  | stay (state : CloseTicketState) : Moves state none state

/-- What a step with the current lease does during the shutdown. -/
inductive ShutdownStep (shutdown : WindowShutdown) :
    Option SurfaceWindowEvent → WindowSessionState → Prop where
  | idle : ShutdownStep shutdown none (.shuttingDown shutdown)
  | adopt {windowId : WindowId} (hnew : shutdown.findTicket windowId = none) :
      ShutdownStep shutdown (some (.adopted shutdown.lease windowId)) (.shuttingDown { shutdown with
          terminalTickets := insertBeforeAnchor shutdown.lease.anchor (.pending windowId)
            shutdown.terminalTickets
          runtimeEmpty := false })
  | endDependency {dependency : DependencyId} (disposition : DependencyTerminalDisposition) :
      ShutdownStep shutdown (some (.dependencyEnded shutdown.lease dependency))
        (.shuttingDown { shutdown with
          dependencyTickets := updateTicket DependencyTicket.id dependency
            (fun ticket => { ticket with terminal := some disposition })
            shutdown.dependencyTickets })
  | empty : ShutdownStep shutdown (some (.emptied shutdown.lease))
        (.shuttingDown { shutdown with runtimeEmpty := true })
  | move {windowId : WindowId} {ticket : TerminalTicket} {outcome : Option WindowOutcome}
      {state : CloseTicketState} (hticket : shutdown.findTicket windowId = some ticket)
      (hmoves : ticket.state.Moves outcome state) :
      ShutdownStep shutdown (outcome.map (.window shutdown.lease windowId))
        (.shuttingDown (shutdown.setTicket windowId state))
  | close (hempty : shutdown.runtimeEmpty = true)
      (hterminal : shutdown.pendingTerminalTickets = 0) :
      ShutdownStep shutdown none (.closed ⟨shutdown.lease.generation,
        some shutdown.lease.anchor, .shutdown shutdown.reason, shutdown.terminalTickets,
        shutdown.dependencyTickets⟩)

/-- What a step does to the session, with the event it logs. -/
inductive SessionStep (session : SurfaceWindowSession) :
    Option SurfaceWindowEvent → SurfaceWindowSession → Prop where
  | idle : SessionStep session none session
  | reserve (hphase : session.state = .vacant ∨ ∃ closed, session.state = .closed closed) :
      SessionStep session (some (.reserved (session.lastGeneration + 1))) { session with
          lastGeneration := session.lastGeneration + 1
          state := .opening ⟨session.authority, session.lastGeneration + 1⟩ }
  | activate {token : OpeningToken} {anchor : WindowId}
      (hphase : session.state = .opening token) :
      SessionStep session none
        { session with state := .active ⟨session.authority, token.generation, anchor⟩ }
  | rollBack {token : OpeningToken} {reason : OpeningRollbackReason}
      (hphase : session.state = .opening token) :
      SessionStep session none { session with
        state := .closed ⟨token.generation, none, .openingRolledBack reason, [], []⟩ }
  | begin {lease : WindowSessionLease} {reason : ShutdownReason} {windows : List WindowId}
      {dependencies : List DependencyId} (hphase : session.state = .active lease) :
      SessionStep session (some (.began lease windows dependencies)) { session with
        state := .shuttingDown ⟨lease, reason, false,
          collectTickets windowId pending
            (fun windowId => decide (windowId = lease.anchor)) windows ++ [pending lease.anchor],
          collectTickets DependencyTicket.id DependencyTicket.pending (fun _ => false)
            dependencies⟩ }
  | shutdown {shutdown : WindowShutdown} {event : Option SurfaceWindowEvent}
      {state : WindowSessionState} (hphase : session.state = .shuttingDown shutdown)
      (hstep : ShutdownStep shutdown event state) :
      SessionStep session event { session with state := state }

namespace SurfaceWindowSession

/-- The answer is that of a step, and without the current lease it is that nothing
happens. -/
def Answers (session : SurfaceWindowSession) (current : Bool)
    (event : Option SurfaceWindowEvent) (after : SurfaceWindowSession) : Prop :=
  SessionStep session event after ∧ (current = false → after = session ∧ event = none)

variable {session : SurfaceWindowSession}

theorem Answers.idle (current : Bool) : session.Answers current none session :=
  ⟨.idle, fun _ => ⟨rfl, rfl⟩⟩

variable {lease : WindowSessionLease} {Outcome : Type}

theorem duringShutdown_answers
    {staleLease notShuttingDown : Outcome} {act : WindowShutdown → Outcome × WindowSessionState}
    (event : Outcome → Option SurfaceWindowEvent) (hstale : event staleLease = none)
    (hactive : event notShuttingDown = none)
    (hact : ∀ shutdown : WindowShutdown, shutdown.lease = lease →
      ShutdownStep shutdown (event (act shutdown).1) (act shutdown).2) :
    session.Answers (session.admits lease || session.isShuttingDown lease)
      (event (session.duringShutdown lease staleLease notShuttingDown act).1)
      (session.duringShutdown lease staleLease notShuttingDown act).2 := by
  rw [duringShutdown]
  cases hphase : session.state with
  | vacant | opening token | closed closed =>
    simp only [hstale]
    exact .idle _
  | active current =>
    by_cases hlease : current = lease
    · simp only [if_pos hlease, hactive]
      exact .idle _
    · simp only [if_neg hlease, hstale]
      exact .idle _
  | shuttingDown shutdown =>
    by_cases hlease : shutdown.lease = lease
    · simp only [if_pos hlease]
      refine ⟨.shutdown hphase (hact shutdown hlease), ?_⟩
      intro hcurrent
      simp [admits, isShuttingDown, hphase, hlease] at hcurrent
    · simp only [if_neg hlease, hstale]
      exact .idle _

theorem withTicket_answers {windowId : WindowId}
    {staleLease notShuttingDown unknownWindow : Outcome}
    {act : CloseTicketState → Outcome × CloseTicketState}
    (event : Outcome → Option SurfaceWindowEvent) (hstale : event staleLease = none)
    (hactive : event notShuttingDown = none) (hunknown : event unknownWindow = none)
    (hact : ∀ state : CloseTicketState, ∃ outcome, state.Moves outcome (act state).2 ∧
      event (act state).1 = outcome.map (.window lease windowId)) :
    session.Answers (session.admits lease || session.isShuttingDown lease)
      (event (session.withTicket lease windowId staleLease notShuttingDown unknownWindow act).1)
      (session.withTicket lease windowId staleLease notShuttingDown unknownWindow act).2 := by
  apply duringShutdown_answers event hstale hactive
  rintro shutdown rfl
  cases hticket : shutdown.findTicket windowId with
  | none =>
    simp only [hunknown]
    exact .idle
  | some ticket =>
    obtain ⟨outcome, hmoves, houtcome⟩ := hact ticket.state
    simp only [houtcome]
    exact .move hticket hmoves

theorem perform_answers {command : SurfaceWindowCommand} {output : SurfaceWindowOutput}
    {after : SurfaceWindowSession} (h : session.perform command = some (output, after)) :
    session.Answers (command.isCurrent session) (command.event output) after := by
  cases command with
  | reserveOpening =>
    simp only [perform, map_eq_some_iff, Prod.mk.injEq] at h
    obtain ⟨⟨result, next⟩, hresult, rfl, rfl⟩ := h
    refine ⟨?_, fun hcurrent => by cases hcurrent⟩
    have hreserve : ∀ {result next}, (session.state = .vacant ∨
        ∃ closed, session.state = .closed closed) →
        ((U64.checkedAdd session.lastGeneration 1).map fun generation =>
          ((Except.ok ⟨session.authority, generation⟩ : Except OpenConflict OpeningToken),
            { session with
              lastGeneration := generation
              state := .opening ⟨session.authority, generation⟩ })) = some (result, next) →
        SessionStep session
          (SurfaceWindowCommand.reserveOpening.event (.reserved result)) next := by
      intro result next hphase hnext
      simp only [map_eq_some_iff, Prod.mk.injEq] at hnext
      obtain ⟨generation, hgeneration, rfl, rfl⟩ := hnext
      obtain ⟨rfl, _⟩ := U64.checkedAdd_eq_some_iff.mp hgeneration
      exact .reserve hphase
    rw [reserveOpening] at hresult
    cases hphase : session.state with
    | vacant =>
      simp only [hphase] at hresult
      exact hreserve (.inl hphase) hresult
    | closed closed =>
      simp only [hphase] at hresult
      exact hreserve (.inr ⟨closed, hphase⟩) hresult
    | opening token | active lease | shuttingDown shutdown =>
      simp only [hphase, some.injEq, Prod.mk.injEq] at hresult
      rw [← hresult.1, ← hresult.2]
      exact .idle
  | commitOpening token anchor =>
    obtain ⟨rfl, rfl⟩ := h
    rw [commitOpening]
    cases hphase : session.state with
    | opening current =>
      by_cases htoken : current ≠ token
      · simp only [if_pos htoken]
        exact .idle _
      · simp only [if_neg htoken]
        rw [not_not] at htoken
        subst htoken
        refine ⟨.activate hphase, ?_⟩
        intro hcurrent
        simp [SurfaceWindowCommand.isCurrent, openingToken, hphase] at hcurrent
    | vacant | active lease | shuttingDown shutdown | closed closed => exact .idle _
  | rollbackOpening token reason =>
    simp only [perform] at h
    cases h
    rw [rollbackOpening]
    cases hphase : session.state with
    | opening current =>
      by_cases htoken : current ≠ token
      · simp only [if_pos htoken]
        exact .idle _
      · simp only [if_neg htoken]
        rw [not_not] at htoken
        subst htoken
        refine ⟨.rollBack hphase, ?_⟩
        intro hcurrent
        simp [SurfaceWindowCommand.isCurrent, openingToken, hphase] at hcurrent
    | vacant | active lease | shuttingDown shutdown | closed closed => exact .idle _
  | beginShutdown lease reason windows dependencies =>
    obtain ⟨rfl, rfl⟩ := h
    rw [beginShutdownWithDependencies]
    cases hphase : session.state with
    | active current =>
      by_cases hlease : current = lease
      · simp only [if_pos hlease]
        subst hlease
        refine ⟨.begin hphase, ?_⟩
        intro hcurrent
        simp [SurfaceWindowCommand.isCurrent, admits, hphase] at hcurrent
      · simp only [if_neg hlease]
        exact .idle _
    | shuttingDown shutdown =>
      by_cases hlease : shutdown.lease = lease
      · simp only [if_pos hlease]
        exact .idle _
      · simp only [if_neg hlease]
        exact .idle _
    | vacant | opening token | closed closed => exact .idle _
  | adoptShutdownWindow lease windowId =>
    obtain ⟨rfl, rfl⟩ := h
    apply duringShutdown_answers (fun outcome =>
      (SurfaceWindowCommand.adoptShutdownWindow lease windowId).event (.adopted outcome))
      rfl rfl
    rintro shutdown rfl
    by_cases hknown : (shutdown.findTicket windowId).isSome = true
    · simp only [if_pos hknown]
      exact .idle
    · simp only [if_neg hknown]
      exact .adopt (by simpa using hknown)
  | completeDependency lease dependency disposition =>
    simp only [perform] at h
    cases h
    apply duringShutdown_answers (fun outcome =>
      (SurfaceWindowCommand.completeDependency lease dependency disposition).event
        (.dependency outcome)) rfl rfl
    rintro shutdown rfl
    cases hticket : shutdown.dependencyTickets.find?
        fun ticket => decide (ticket.id = dependency) with
    | none =>
      exact .idle
    | some ticket =>
      by_cases hterminal : ticket.terminal.isSome = true
      · simp only [if_pos hterminal]
        exact .idle
      · simp only [if_neg hterminal]
        cases disposition with
        | settled => exact .endDependency .settled
        | failed => exact .endDependency .failed
  | markRuntimeEmpty lease =>
    obtain ⟨rfl, rfl⟩ := h
    apply duringShutdown_answers (fun outcome =>
      (SurfaceWindowCommand.markRuntimeEmpty lease).event (.emptied outcome)) rfl rfl
    rintro shutdown rfl
    by_cases hempty : shutdown.runtimeEmpty = true
    · simp only [if_pos hempty]
      exact .idle
    · simp only [if_neg hempty]
      exact .empty
  | settleTerminal lease windowId =>
    obtain ⟨rfl, rfl⟩ := h
    apply withTicket_answers (fun outcome =>
      (SurfaceWindowCommand.settleTerminal lease windowId).event (.settled outcome))
      rfl rfl rfl
    intro state
    cases state with
    | terminal => exact ⟨none, .stay _, rfl⟩
    | pending | dispatching | dispatched => exact ⟨some .settled, .settle (by simp), rfl⟩
  | claimCloseDispatch lease windowId =>
    obtain ⟨rfl, rfl⟩ := h
    apply withTicket_answers (fun outcome =>
      (SurfaceWindowCommand.claimCloseDispatch lease windowId).event (.claimed outcome))
      rfl rfl rfl
    intro state
    cases state with
    | pending => exact ⟨some .claimed, .claim, rfl⟩
    | dispatching | dispatched | terminal => exact ⟨none, .stay _, rfl⟩
  | markCloseDispatched lease windowId =>
    obtain ⟨rfl, rfl⟩ := h
    apply withTicket_answers (fun outcome =>
      (SurfaceWindowCommand.markCloseDispatched lease windowId).event (.dispatched outcome))
      rfl rfl rfl
    intro state
    cases state with
    | dispatching => exact ⟨none, .dispatch, rfl⟩
    | pending | dispatched | terminal => exact ⟨none, .stay _, rfl⟩
  | retryCloseDispatch lease windowId =>
    simp only [perform] at h
    cases h
    apply withTicket_answers (fun outcome =>
      (SurfaceWindowCommand.retryCloseDispatch lease windowId).event (.retried outcome))
      rfl rfl rfl
    intro state
    cases state with
    | dispatching => exact ⟨some .retried, .retry, rfl⟩
    | pending | dispatched | terminal => exact ⟨none, .stay _, rfl⟩
  | completeShutdown lease =>
    obtain ⟨rfl, rfl⟩ := h
    apply duringShutdown_answers (fun outcome =>
      (SurfaceWindowCommand.completeShutdown lease).event (.completed outcome)) rfl rfl
    rintro shutdown rfl
    by_cases hwaiting : (!shutdown.runtimeEmpty ||
        decide (shutdown.pendingTerminalTickets ≠ 0)) = true
    · simp only [if_pos hwaiting]
      exact .idle
    · simp only [if_neg hwaiting]
      rw [Bool.or_eq_true, not_or, decide_eq_true_eq, not_not] at hwaiting
      exact .close (by simpa using hwaiting.1) hwaiting.2

end SurfaceWindowSession

end OpenGpui.Docking
