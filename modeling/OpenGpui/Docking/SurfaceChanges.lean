/-
Root transactions of a surface owner and the events they publish: commit and publication are
separate steps, joined by a slot for every committed revision that was not published yet.
-/
import OpenGpui.Docking.Workspace

namespace OpenGpui.Docking

inductive SurfaceChangeCategory where
  | layout
  | selection
  | panelLifecycle
  | viewportTopology
  | observedViewportPlacement
deriving DecidableEq

namespace SurfaceChangeCategory

def ALL : List SurfaceChangeCategory :=
  [layout, selection, panelLifecycle, viewportTopology, observedViewportPlacement]

def bit : SurfaceChangeCategory → BitVec 8
  | layout => 1 <<< 0
  | selection => 1 <<< 1
  | panelLifecycle => 1 <<< 2
  | viewportTopology => 1 <<< 3
  | observedViewportPlacement => 1 <<< 4

end SurfaceChangeCategory

inductive SurfaceTransition where
  | viewportLostAfterPromotion
  | viewportRecovered

namespace SurfaceTransition

def ALL : List SurfaceTransition := [viewportLostAfterPromotion, viewportRecovered]

def bit : SurfaceTransition → BitVec 8
  | viewportLostAfterPromotion => 1 <<< 0
  | viewportRecovered => 1 <<< 1

end SurfaceTransition

structure SurfaceChangeEvent where
  revision : Nat
  categories : List SurfaceChangeCategory
  transitions : List SurfaceTransition

structure SurfaceTransactionReceipt where
  committedRevision : Option Nat
  aborted : Bool

namespace SurfaceTransactionReceipt

def pending : SurfaceTransactionReceipt := ⟨none, false⟩

variable (receipt : SurfaceTransactionReceipt)

def commit (revision : Nat) : SurfaceTransactionReceipt :=
  { receipt with committedRevision := some revision }

def abort : SurfaceTransactionReceipt := { receipt with aborted := true }

end SurfaceTransactionReceipt

inductive SurfaceDeferredPublicationState where
  | pending
  | delivering
  | settled
deriving DecidableEq

/-- What all clones of a deferred publication share. -/
structure SurfaceDeferredPublication where
  event : Option SurfaceChangeEvent
  state : SurfaceDeferredPublicationState

namespace SurfaceDeferredPublication

protected def new (event : Option SurfaceChangeEvent) : SurfaceDeferredPublication :=
  ⟨event, if event.isSome then .pending else .settled⟩

end SurfaceDeferredPublication

structure PendingSurfacePublication where
  event : SurfaceChangeEvent
  ready : Bool

/-- A tracked transaction holds the index of its receipt. -/
structure PendingSurfaceTransaction where
  id : Nat
  categoryBits : BitVec 8
  transitionBits : BitVec 8
  receipt : Option Nat

namespace PendingSurfaceTransaction

protected def new (id : Nat) (receipt : Option Nat) : PendingSurfaceTransaction :=
  ⟨id, 0, 0, receipt⟩

variable (self : PendingSurfaceTransaction)

def record (category : SurfaceChangeCategory) : PendingSurfaceTransaction :=
  { self with categoryBits := self.categoryBits ||| category.bit }

def categories : List SurfaceChangeCategory :=
  SurfaceChangeCategory.ALL.filter fun category =>
    decide (self.categoryBits &&& category.bit ≠ 0)

def recordTransition (transition : SurfaceTransition) : PendingSurfaceTransaction :=
  { self with transitionBits := self.transitionBits ||| transition.bit }

def transitions : List SurfaceTransition :=
  SurfaceTransition.ALL.filter fun transition =>
    decide (self.transitionBits &&& transition.bit ≠ 0)

end PendingSurfaceTransaction

/-- What of an owner concerns revisions, transactions and events. -/
structure SurfaceOwner where
  revision : Nat
  lastPublishedRevision : Nat
  pendingPublications : Nat → Option PendingSurfacePublication
  publicationFlushActive : Bool
  lastTransactionId : Nat
  pendingTransaction : Option PendingSurfaceTransaction

protected def SurfaceOwner.new : SurfaceOwner := ⟨0, 0, fun _ => none, false, 0, none⟩

/-- The owner with the receipts and the deferred publications that were handed out.  `flush` is
the loop that delivers an event right now, with whether a subscriber has panicked in it. -/
structure SurfaceApp where
  owner : SurfaceOwner
  receipts : List SurfaceTransactionReceipt
  publications : List SurfaceDeferredPublication
  flush : Option Bool

/-- What happened in a step, for the log of a run. -/
inductive SurfaceFact where
  | began (transaction : Nat) (receipt : Option Nat)
  | recorded (transaction : Nat) (category : SurfaceChangeCategory)
  | committed (transaction : Nat) (event : Option SurfaceChangeEvent) (revision : Nat)
  | aborted (transaction : Nat)
  | published (revision : Nat)
  | emitted (event : SurfaceChangeEvent)

/-- A call returned, panicked, or waits for the subscribers of an event it emits. -/
inductive SurfaceReply where
  | returned
  | panicked
  | delivering

/-- The facts of a step stand newest first. -/
structure SurfaceOutcome where
  reply : SurfaceReply
  facts : List SurfaceFact
  next : SurfaceApp

namespace SurfaceApp

protected def new : SurfaceApp := ⟨.new, [], [], none⟩

variable (app : SurfaceApp)

def beginRootTransaction (tracked : Bool) : SurfaceOutcome :=
  if app.owner.pendingTransaction.isSome then ⟨.panicked, [], app⟩
  else
    match checkedNext app.owner.lastTransactionId with
    | none => ⟨.panicked, [], app⟩
    | some id =>
      let receipt := if tracked then some app.receipts.length else none
      ⟨.returned, [.began id receipt], { app with
          owner :=
            { app.owner with
              lastTransactionId := id
              pendingTransaction := some (.new id receipt) }
          receipts := if tracked then app.receipts ++ [.pending] else app.receipts }⟩

variable (transaction : Nat)

/-- Work on the active transaction, which must be the one that the caller holds. -/
def onTransaction (facts : List SurfaceFact)
    (update : PendingSurfaceTransaction → PendingSurfaceTransaction) : SurfaceOutcome :=
  match app.owner.pendingTransaction with
  | none => ⟨.panicked, [], app⟩
  | some pending =>
    if pending.id = transaction then
      ⟨.returned, facts,
        { app with owner := { app.owner with pendingTransaction := some (update pending) } }⟩
    else ⟨.panicked, [], app⟩

def recordChange (category : SurfaceChangeCategory) : SurfaceOutcome :=
  app.onTransaction transaction [.recorded transaction category] fun pending =>
    pending.record category

def recordTransition (app : SurfaceApp) (transaction : Nat) (transition : SurfaceTransition) :
    SurfaceOutcome :=
  app.onTransaction transaction [] fun pending => pending.recordTransition transition

/-- A receipt that is tracked is filled. -/
def settleReceipt (receipt : Option Nat)
    (settle : SurfaceTransactionReceipt → SurfaceTransactionReceipt) : SurfaceApp :=
  match receipt with
  | some index => { app with receipts := app.receipts.modify index settle }
  | none => app

/-- The event of a commit, or `none` when the commit panicked. -/
structure Commit where
  event : Option (Option SurfaceChangeEvent)
  facts : List SurfaceFact
  next : SurfaceApp

def commitRootTransaction : Commit :=
  match app.owner.pendingTransaction with
  | none => ⟨none, [], app⟩
  | some pending =>
    if pending.id = transaction then
      let owner := { app.owner with pendingTransaction := none }
      if pending.categories.isEmpty then
        ⟨some none, [.committed transaction none owner.revision],
          { app with owner := owner }.settleReceipt pending.receipt fun receipt =>
            receipt.commit owner.revision⟩
      else
        match checkedNext owner.revision with
        | none => ⟨none, [], { app with owner := owner }⟩
        | some revision =>
          let event := ⟨revision, pending.categories, pending.transitions⟩
          let owner' :=
            { owner with
              revision := revision
              pendingPublications :=
                Function.update owner.pendingPublications revision (some ⟨event, false⟩) }
          if (owner.pendingPublications revision).isSome then
            ⟨none, [], { app with owner := owner' }⟩
          else
            ⟨some (some event), [.committed transaction (some event) revision],
              { app with owner := owner' }.settleReceipt pending.receipt fun receipt =>
                receipt.commit revision⟩
    else ⟨none, [], app⟩

/-- The loop up to the next event it emits.  Subscribers may run before `emit` returns, and the
loop goes on with `resume`. -/
def flushLoop (firstPanic : Bool) : SurfaceOutcome :=
  match checkedNext app.owner.lastPublishedRevision with
  | none => ⟨.panicked, [], { app with flush := none }⟩
  | some nextRevision =>
    match (app.owner.pendingPublications nextRevision).filter (·.ready) with
    | some publication =>
      ⟨.delivering, [.emitted publication.event], { app with
          owner :=
            { app.owner with
              lastPublishedRevision := nextRevision
              pendingPublications :=
                Function.update app.owner.pendingPublications nextRevision none }
          flush := some firstPanic }⟩
    | none =>
      ⟨if firstPanic then .panicked else .returned, [], { app with
          owner := { app.owner with publicationFlushActive := false }
          flush := none }⟩

def flushReadyPublications : SurfaceOutcome :=
  if app.owner.publicationFlushActive then ⟨.returned, [], app⟩
  else flushLoop { app with owner := { app.owner with publicationFlushActive := true } } false

/-- The subscribers are done, and one of them may have panicked. -/
def resume (panicked : Bool) : Option SurfaceOutcome :=
  app.flush.map fun firstPanic => app.flushLoop (firstPanic || panicked)

def publishCommittedEvent (revision : Nat) : SurfaceOutcome :=
  match app.owner.pendingPublications revision with
  | none => ⟨.panicked, [], app⟩
  | some publication =>
    let outcome := flushReadyPublications { app with
        owner :=
          { app.owner with
            pendingPublications :=
              Function.update app.owner.pendingPublications revision
                (some { publication with ready := true }) } }
    ⟨outcome.reply, outcome.facts ++ [.published revision], outcome.next⟩

def finishRootTransaction : SurfaceOutcome :=
  let commit := app.commitRootTransaction transaction
  match commit.event with
  | none => ⟨.panicked, commit.facts, commit.next⟩
  | some none => ⟨.returned, commit.facts, commit.next⟩
  | some (some event) =>
    let outcome := commit.next.publishCommittedEvent event.revision
    ⟨outcome.reply, outcome.facts ++ commit.facts, outcome.next⟩

/-- The end of a detached transaction whose event is published later. -/
def commitDeferred : SurfaceOutcome :=
  let commit := app.commitRootTransaction transaction
  match commit.event with
  | none => ⟨.panicked, commit.facts, commit.next⟩
  | some event =>
    ⟨.returned, commit.facts,
      { commit.next with publications := commit.next.publications ++ [.new event] }⟩

def abortRootTransaction : SurfaceOutcome :=
  match app.owner.pendingTransaction with
  | none => ⟨.panicked, [], app⟩
  | some pending =>
    if pending.id = transaction then
      ⟨.returned, [.aborted transaction],
        { app with owner := { app.owner with pendingTransaction := none } }.settleReceipt
          pending.receipt SurfaceTransactionReceipt.abort⟩
    else ⟨.panicked, [], app⟩

def setState (index : Nat) (state : SurfaceDeferredPublicationState) : SurfaceApp :=
  { app with
    publications := app.publications.modify index fun publication =>
      { publication with state := state } }

/-- An owner that is borrowed already cannot be updated, which panics before the delivery. -/
def publish (borrowed : Bool) (index : Nat) : Option SurfaceOutcome :=
  app.publications[index]?.map fun publication =>
    if publication.state ≠ .pending then ⟨.returned, [], app⟩
    else
      match publication.event with
      | none => ⟨.returned, [], app.setState index .settled⟩
      | some event =>
        let app := app.setState index .delivering
        if borrowed then ⟨.panicked, [], app.setState index .pending⟩
        else (app.setState index .settled).publishCommittedEvent event.revision

end SurfaceApp

inductive SurfaceCommand where
  | begin (tracked : Bool)
  | recordChange (transaction : Nat) (category : SurfaceChangeCategory)
  | recordTransition (transaction : Nat) (transition : SurfaceTransition)
  | finish (transaction : Nat)
  | commitDeferred (transaction : Nat)
  | abort (transaction : Nat)
  | publish (borrowed : Bool) (index : Nat)
  | resume (panicked : Bool)

/-- A step is undefined for a publication that was not handed out, and for the end of a delivery
that does not run. -/
def SurfaceApp.perform (app : SurfaceApp) : SurfaceCommand → Option SurfaceOutcome
  | .begin tracked => some (app.beginRootTransaction tracked)
  | .recordChange transaction category => some (app.recordChange transaction category)
  | .recordTransition transaction transition => some (app.recordTransition transaction transition)
  | .finish transaction => some (app.finishRootTransaction transaction)
  | .commitDeferred transaction => some (app.commitDeferred transaction)
  | .abort transaction => some (app.abortRootTransaction transaction)
  | .publish borrowed index => app.publish borrowed index
  | .resume panicked => app.resume panicked

end OpenGpui.Docking
