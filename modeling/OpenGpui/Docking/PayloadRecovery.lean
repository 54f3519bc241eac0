/-
The registry a dock surface keeps of recoveries: reservations a preparation makes, records
a commit makes of them, and the restores that consumed a record.
-/
import OpenGpui.Docking.PayloadLocation
import OpenGpui.Docking.SurfaceWindowSession
import OpenGpui.Docking.Workspace

namespace OpenGpui.Docking

open PayloadSurvivalProof PayloadRecoveryLocation

abbrev FocusHandle := Nat

structure LiveUndockOpeningKey where
  lease : WindowSessionLease
  generation : Nat
deriving DecidableEq

/-- One drag of one opening. -/
structure LiveUndockIdentity where
  opening : LiveUndockOpeningKey
  dragGeneration : Nat
deriving DecidableEq

structure LiveUndockSourceSnapshot where
  windowId : WindowId
  sceneGeneration : Nat
deriving DecidableEq

structure TicketIdentity where
  sourceWindow : WindowId
  sourceFrameGeneration : Nat
  leaseGeneration : Nat
deriving DecidableEq

/-- The right to present a payload outside its window. -/
structure LiveUndockPayloadLeaseReceipt where
  identity : LiveUndockIdentity
  source : LiveUndockSourceSnapshot
  surfaceRevision : Nat
  leaseGeneration : Nat
  retainedVisual : Option TicketIdentity
  rehostGeneration : Nat
  destinationWindow : WindowId
  provisionalSessionGeneration : Nat
deriving DecidableEq

inductive LiveUndockPromotionDestination where
  | sameWindowDesktop (windowId : WindowId)
  | host (windowId : WindowId) (hostSceneGeneration : Nat)
deriving DecidableEq

structure LiveUndockSourceFocusSnapshot where
  focusHandle : FocusHandle
  claimRevision : Nat
deriving DecidableEq

/-- Why a payload has to be recovered. -/
inductive PayloadRecoveryReason where
  | preCommitOrphan
  | lostViewportRecovery
deriving DecidableEq

/-- Who may recover a payload, before or after the drop. -/
inductive PayloadRecoveryAuthority where
  | presentationLease (lease : LiveUndockPayloadLeaseReceipt)
  | committedDestination (identity : LiveUndockIdentity) (token : Nat)
      (destination : LiveUndockPromotionDestination)
deriving DecidableEq

namespace PayloadRecoveryAuthority

def liveIdentity : PayloadRecoveryAuthority → LiveUndockIdentity
  | presentationLease lease => lease.identity
  | committedDestination identity _ _ => identity

/-- Each kind of authority recovers for one reason. -/
def admitsReason : PayloadRecoveryAuthority → PayloadRecoveryReason → Bool
  | presentationLease _, .preCommitOrphan => true
  | committedDestination _ _ _, .lostViewportRecovery => true
  | _, _ => false

end PayloadRecoveryAuthority

/-- Where a recovered payload is found. -/
inductive PayloadRecoveryDisposition where
  | visibleRecoveryEntry
  | alreadyRehomed
  | unresolved
deriving DecidableEq

/-- Whether the payload was found in the graph. -/
inductive PayloadRecoveryEvidence where
  | survived (proof : PayloadSurvivalProof)
  | unresolved (error : PayloadRecoveryPrepareError)
deriving DecidableEq

structure PayloadRecoveryFocus where
  item : Option DockItemId
  descendant : Option LiveUndockSourceFocusSnapshot
deriving DecidableEq

def PayloadRecoveryFocus.requestsEntryFocus (focus : PayloadRecoveryFocus) : Bool :=
  focus.descendant.isSome

/-- A token for one attempt to commit; `Origin` is where the payload was presented. -/
structure PayloadRecoveryPrepared (Origin : Type) where
  generation : Nat
  ownerRevision : Nat
  authority : PayloadRecoveryAuthority
  payloadIdentity : DockLockedPayloadIdentity
  evidence : PayloadRecoveryEvidence
  reason : PayloadRecoveryReason
  focus : Option PayloadRecoveryFocus
  presentationOrigin : Option Origin
deriving DecidableEq

def PayloadRecoveryPrepared.liveIdentity {Origin : Type}
    (prepared : PayloadRecoveryPrepared Origin) : LiveUndockIdentity :=
  prepared.authority.liveIdentity

/-- Proof that a recovery was committed. -/
structure PayloadRecoveryCommitReceipt where
  generation : Nat
  authority : PayloadRecoveryAuthority
  disposition : PayloadRecoveryDisposition
deriving DecidableEq

/-- Why a prepared recovery is not committed. -/
inductive PayloadRecoveryCommitError where
  | stalePreparedToken
  | ownerRevisionChanged
  | payloadSurvivalChanged

structure PayloadRecoveryRestoreAction where
  recovery : PayloadRecoveryCommitReceipt
  anchorLease : WindowSessionLease
deriving DecidableEq

/-- A restore to be made while nothing has changed. -/
structure PayloadRecoveryRestorePrepared (Origin : Type) where
  action : PayloadRecoveryRestoreAction
  ownerRevision : Nat
  primarySpace : DockSpaceId
  sourceLocation : PayloadRecoveryLocation
  targetTabs : Option DockNodeId
  projectedGraph : DockGraph
  items : List DockItemId
  focusItem : Option DockItemId
  descendantFocus : Option LiveUndockSourceFocusSnapshot
  presentationOrigin : Option Origin

/-- Proof that a restore was made. -/
structure PayloadRecoveryRestoreReceipt where
  recovery : PayloadRecoveryCommitReceipt
  focusItem : Option DockItemId
  descendantFocus : Option LiveUndockSourceFocusSnapshot
deriving DecidableEq

structure PayloadRecoveryEntryFocus where
  handle : FocusHandle
  pending : Bool

/-- A committed recovery that may still be restored. -/
structure PayloadRecoveryRecord (Origin : Type) where
  receipt : PayloadRecoveryCommitReceipt
  baseOwnerRevision : Nat
  reason : PayloadRecoveryReason
  payloadIdentity : DockLockedPayloadIdentity
  evidence : PayloadRecoveryEvidence
  focus : Option PayloadRecoveryFocus
  presentationOrigin : Option Origin
  entryFocus : Option PayloadRecoveryEntryFocus

structure PayloadRecoveryCommittedRestore where
  action : PayloadRecoveryRestoreAction
  receipt : PayloadRecoveryRestoreReceipt
deriving DecidableEq

/-- Everything recovered and not yet forgotten. -/
structure PayloadRecoveryRegistry (Origin : Type) where
  lastGeneration : Nat
  reservations : List (PayloadRecoveryPrepared Origin)
  records : List (PayloadRecoveryRecord Origin)
  committedRestores : List PayloadRecoveryCommittedRestore

namespace PayloadRecoveryRegistry

variable {Origin : Type}

def new : PayloadRecoveryRegistry Origin := ⟨0, [], [], []⟩

variable (self : PayloadRecoveryRegistry Origin)

/-- Admits an attempt and drops every reservation for the same live identity.  Only the
records are asked whether the authority has committed before. -/
def beginPreparation (authority : PayloadRecoveryAuthority)
    (reason : PayloadRecoveryReason) :
    Except PayloadRecoveryPrepareError (PayloadRecoveryRegistry Origin) :=
  if authority.admitsReason reason = false then .error .authorityReasonMismatch
  else if self.records.any fun record => record.receipt.authority = authority then
    .error .payloadAlreadyCommitted
  else
    .ok { self with
      reservations := self.reservations.filter fun reservation =>
        reservation.liveIdentity ≠ authority.liveIdentity }

/-- Reserves the next generation; `none` where the counter of the source overflows. -/
def reserve (ownerRevision : Nat)
    (authority : PayloadRecoveryAuthority) (payloadIdentity : DockLockedPayloadIdentity)
    (evidence : PayloadRecoveryEvidence) (reason : PayloadRecoveryReason)
    (focus : Option PayloadRecoveryFocus) (presentationOrigin : Option Origin) :
    Option (PayloadRecoveryPrepared Origin × PayloadRecoveryRegistry Origin) := do
  let generation ← checkedNext self.lastGeneration
  let prepared : PayloadRecoveryPrepared Origin :=
    ⟨generation, ownerRevision, authority, payloadIdentity, evidence, reason, focus,
      presentationOrigin⟩
  some (prepared, { self with
      lastGeneration := generation
      reservations := self.reservations ++ [prepared] })

variable (graph : DockGraph)

def prepareWithFocusAndOrigin (ownerRevision : Nat) (authority : PayloadRecoveryAuthority)
    (payloadIdentity : DockLockedPayloadIdentity) (reason : PayloadRecoveryReason)
    (focus : Option PayloadRecoveryFocus) (presentationOrigin : Option Origin) :
    Option (Except PayloadRecoveryPrepareError (PayloadRecoveryPrepared Origin) ×
      PayloadRecoveryRegistry Origin) :=
  match self.beginPreparation authority reason with
  | .error error => some (.error error, self)
  | .ok begun =>
    match resolve graph payloadIdentity with
    | .error error => some (.error error, begun)
    | .ok survival => do
        let (prepared, next) ← begun.reserve ownerRevision authority payloadIdentity
          (.survived survival) reason focus presentationOrigin
        some (.ok prepared, next)

def prepareUnresolvedWithOrigin (ownerRevision : Nat) (authority : PayloadRecoveryAuthority)
    (payloadIdentity : DockLockedPayloadIdentity) (reason : PayloadRecoveryReason)
    (unresolved : PayloadRecoveryPrepareError) (presentationOrigin : Option Origin) :
    Option (Except PayloadRecoveryPrepareError (PayloadRecoveryPrepared Origin) ×
      PayloadRecoveryRegistry Origin) :=
  if unresolved ≠ .payloadMissing ∧ unresolved ≠ .payloadAmbiguous then
    some (.error unresolved, self)
  else
    match self.beginPreparation authority reason with
    | .error error => some (.error error, self)
    | .ok begun =>
      match resolve graph payloadIdentity with
      | .ok _ => some (.error .unresolvedEvidenceChanged, begun)
      | .error found =>
        if found ≠ unresolved then some (.error .unresolvedEvidenceChanged, begun)
        else do
          let (prepared, next) ← begun.reserve ownerRevision authority payloadIdentity
            (.unresolved unresolved) reason none presentationOrigin
          some (.ok prepared, next)

/-- The current graph still says about the payload what the preparation found. -/
def evidenceMatches (prepared : PayloadRecoveryPrepared Origin) : Bool :=
  match prepared.evidence, resolve graph prepared.payloadIdentity with
  | .survived survival, .ok current => current = survival
  | .unresolved unresolved, .error current => current = unresolved
  | _, _ => false

/-- What a prepared recovery is checked against. -/
def validateCommit [DecidableEq Origin] (self : PayloadRecoveryRegistry Origin) (graph : DockGraph)
    (ownerRevision : Nat) (prepared : PayloadRecoveryPrepared Origin) :
    Except PayloadRecoveryCommitError Unit :=
  match self.reservations.find? fun reservation =>
      reservation.generation == prepared.generation with
  | none => .error .stalePreparedToken
  | some reservation =>
    if reservation ≠ prepared then .error .stalePreparedToken
    else if ownerRevision ≠ prepared.ownerRevision then .error .ownerRevisionChanged
    else if evidenceMatches graph prepared = false then .error .payloadSurvivalChanged
    else .ok ()

def canCommit [DecidableEq Origin] (self : PayloadRecoveryRegistry Origin) (graph : DockGraph)
    (ownerRevision : Nat) (prepared : PayloadRecoveryPrepared Origin) : Bool :=
  match self.validateCommit graph ownerRevision prepared with
  | .ok () => true
  | .error _ => false

variable (primarySpace : DockSpaceId)

def commitDisposition (primarySpaceIsLive : Bool)
    (prepared : PayloadRecoveryPrepared Origin) : PayloadRecoveryDisposition :=
  match prepared.evidence with
  | .survived survival =>
    if primarySpaceIsLive && survival.isRehomedInto primarySpace then .alreadyRehomed
    else .visibleRecoveryEntry
  | .unresolved _ => .unresolved

def commitReceipt (primarySpaceIsLive : Bool)
    (prepared : PayloadRecoveryPrepared Origin) : PayloadRecoveryCommitReceipt :=
  ⟨prepared.generation, prepared.authority,
    commitDisposition primarySpace primarySpaceIsLive prepared⟩

def recordOf (receipt : PayloadRecoveryCommitReceipt) (prepared : PayloadRecoveryPrepared Origin) :
    PayloadRecoveryRecord Origin where
  receipt
  baseOwnerRevision := prepared.ownerRevision
  reason := prepared.reason
  payloadIdentity := prepared.payloadIdentity
  evidence := prepared.evidence
  focus := prepared.focus
  presentationOrigin := prepared.presentationOrigin
  entryFocus := none

/-- Removes the first reservation of a generation. -/
def dropReservation (generation : Nat) : PayloadRecoveryRegistry Origin :=
  { self with
    reservations := self.reservations.eraseP fun reservation =>
      reservation.generation == generation }

/-- The reservation becomes a record. -/
def commit [DecidableEq Origin] (self : PayloadRecoveryRegistry Origin) (graph : DockGraph)
    (ownerRevision : Nat) (primarySpace : DockSpaceId) (primarySpaceIsLive : Bool)
    (prepared : PayloadRecoveryPrepared Origin) :
    Except PayloadRecoveryCommitError PayloadRecoveryCommitReceipt ×
      PayloadRecoveryRegistry Origin :=
  if !self.reservations.any fun reservation => reservation.generation == prepared.generation then
    (.error .stalePreparedToken, self)
  else
    match self.validateCommit graph ownerRevision prepared with
    | .error error => (.error error, self.dropReservation prepared.generation)
    | .ok () =>
      let receipt := commitReceipt primarySpace primarySpaceIsLive prepared
      let dropped := self.dropReservation prepared.generation
      (.ok receipt, { dropped with records := dropped.records ++ [recordOf receipt prepared] })

/-- The record a receipt is about. -/
def record (self : PayloadRecoveryRegistry Origin) (receipt : PayloadRecoveryCommitReceipt) :
    Option (PayloadRecoveryRecord Origin) :=
  self.records.find? fun record => record.receipt = receipt

/-- Changes the first record that meets a condition. -/
def updateRecord (condition : PayloadRecoveryRecord Origin → Bool)
    (update : PayloadRecoveryRecord Origin → PayloadRecoveryRecord Origin) :
    List (PayloadRecoveryRecord Origin) → List (PayloadRecoveryRecord Origin)
  | [] => []
  | record :: records =>
    if condition record then update record :: records
    else record :: updateRecord condition update records

def bindVisibleEntryFocus (recovery : PayloadRecoveryCommitReceipt) (focusHandle : FocusHandle) :
    Bool × PayloadRecoveryRegistry Origin :=
  let visible (record : PayloadRecoveryRecord Origin) : Bool :=
    record.receipt = recovery ∧ record.reason = .lostViewportRecovery ∧
      record.receipt.disposition = .visibleRecoveryEntry
  match self.records.find? visible with
  | none => (false, self)
  | some record =>
    if record.entryFocus.isSome then (false, self)
    else
      let pending := record.focus.any (·.requestsEntryFocus)
      (true, { self with
        records := updateRecord visible
          (fun record => { record with entryFocus := some ⟨focusHandle, pending⟩ })
          self.records })

def settleEntryFocus
    (action : PayloadRecoveryRestoreAction) : Bool × PayloadRecoveryRegistry Origin :=
  match self.record action.recovery with
  | none => (false, self)
  | some record =>
    match record.entryFocus with
    | none => (false, self)
    | some entryFocus =>
      if !entryFocus.pending then (false, self)
      else
        let settled := { entryFocus with pending := false }
        (true, { self with
          records := updateRecord (fun record => record.receipt = action.recovery)
            (fun record => { record with entryFocus := some settled }) self.records })

/-- Only a visible entry is restored, and only at the anchor it was lost from. -/
def validateRestoreAction
    (activeAnchor : Option WindowSessionLease) (action : PayloadRecoveryRestoreAction) :
    Except PayloadRecoveryRestoreError (PayloadRecoveryRecord Origin) :=
  match self.record action.recovery with
  | none => .error .staleAction
  | some record =>
    if record.reason ≠ .lostViewportRecovery ∨
        record.receipt.disposition ≠ .visibleRecoveryEntry then .error .staleAction
    else if activeAnchor ≠ some action.anchorLease ∨
        action.recovery.authority.liveIdentity.opening.lease ≠ action.anchorLease then
      .error .anchorUnavailable
    else .ok record

def prepareRestore (ownerRevision : Nat) (primarySpace : DockSpaceId)
    (activeAnchor : Option WindowSessionLease) (action : PayloadRecoveryRestoreAction) :
    Except PayloadRecoveryRestoreError (PayloadRecoveryRestorePrepared Origin) := do
  let record ← self.validateRestoreAction activeAnchor action
  match record.evidence with
  | .unresolved _ => .error .payloadUnresolved
  | .survived _ =>
    let sourceLocation ← resolveUnique graph record.payloadIdentity
    let targetTabs := graph.recoveryTargetTabs primarySpace
    let preferredFocusItem := record.focus.bind (·.item)
    let (projectedGraph, focusItem) ← projectRestoreGraph graph primarySpace targetTabs
      record.payloadIdentity preferredFocusItem
    .ok
      { action
        ownerRevision
        primarySpace
        sourceLocation
        targetTabs
        projectedGraph
        items := record.payloadIdentity.payloadItems
        focusItem
        descendantFocus := record.focus.bind (·.descendant)
        presentationOrigin := record.presentationOrigin }

def committedRestoreReceipt
    (action : PayloadRecoveryRestoreAction) : Option PayloadRecoveryRestoreReceipt :=
  (self.committedRestores.find? fun committed => committed.action = action).map (·.receipt)

/-- The graph is the projected one, or the target and the place of the payload are still
those the projection started from. -/
def restoreStillFits (record : PayloadRecoveryRecord Origin)
    (prepared : PayloadRecoveryRestorePrepared Origin) : Bool :=
  graph.matchesExactly prepared.projectedGraph ||
    (graph.recoveryTargetTabs prepared.primarySpace == prepared.targetTabs &&
      match resolveUnique graph record.payloadIdentity with
      | .ok location => location == prepared.sourceLocation
      | .error _ => false)

def canCommitRestore (ownerRevision : Nat) (activeAnchor : Option WindowSessionLease)
    (prepared : PayloadRecoveryRestorePrepared Origin) : Bool :=
  match self.committedRestoreReceipt prepared.action with
  | some _ => true
  | none =>
    if ownerRevision ≠ prepared.ownerRevision then false
    else
      match self.validateRestoreAction activeAnchor prepared.action with
      | .error _ => false
      | .ok _ =>
        match self.record prepared.action.recovery with
        | none => false
        | some record => restoreStillFits graph record prepared

/-- Consumes the record of the restored recovery; `none` where the source panics because
there is no such record. -/
def commitPreparedRestore (prepared : PayloadRecoveryRestorePrepared Origin) :
    Option (PayloadRecoveryRestoreReceipt × PayloadRecoveryRegistry Origin) :=
  match self.committedRestoreReceipt prepared.action with
  | some receipt => some (receipt, self)
  | none =>
    if !self.records.any fun record => record.receipt = prepared.action.recovery then none
    else
      let receipt : PayloadRecoveryRestoreReceipt :=
        ⟨prepared.action.recovery, prepared.focusItem, prepared.descendantFocus⟩
      some (receipt, { self with
          records := self.records.eraseP fun record =>
            record.receipt = prepared.action.recovery
          committedRestores := self.committedRestores ++ [⟨prepared.action, receipt⟩] })

def retireCommittedRestore
    (action : PayloadRecoveryRestoreAction) (receipt : PayloadRecoveryRestoreReceipt) :
    Bool × PayloadRecoveryRegistry Origin :=
  if !self.committedRestores.contains ⟨action, receipt⟩ then (false, self)
  else
    (true, { self with
      committedRestores := self.committedRestores.erase ⟨action, receipt⟩ })

end PayloadRecoveryRegistry

end OpenGpui.Docking
