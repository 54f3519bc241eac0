/-
Runs of a recovery registry with a log of what happened, and what one operation can do to
the reservations, the records and the restores.
-/
import OpenGpui.Docking.PayloadRecovery
import OpenGpui.Library.EventLog

namespace OpenGpui.Docking

open Option List Bool

variable {Origin : Type}

inductive PayloadRecoveryEvent (Origin : Type) where
  | began (authority : PayloadRecoveryAuthority)
  | prepared (token : PayloadRecoveryPrepared Origin)
  | commitFailed (token : PayloadRecoveryPrepared Origin)
  | committed (token : PayloadRecoveryPrepared Origin) (receipt : PayloadRecoveryCommitReceipt)
  | restored (action : PayloadRecoveryRestoreAction) (receipt : PayloadRecoveryRestoreReceipt)
  | replayed (action : PayloadRecoveryRestoreAction) (receipt : PayloadRecoveryRestoreReceipt)
  | retired (action : PayloadRecoveryRestoreAction) (receipt : PayloadRecoveryRestoreReceipt)

inductive PayloadRecoveryCommand (Origin : Type) where
  | prepare (graph : DockGraph) (ownerRevision : Nat) (authority : PayloadRecoveryAuthority)
      (payloadIdentity : DockLockedPayloadIdentity) (reason : PayloadRecoveryReason)
      (focus : Option PayloadRecoveryFocus) (presentationOrigin : Option Origin)
  | prepareUnresolved (graph : DockGraph) (ownerRevision : Nat)
      (authority : PayloadRecoveryAuthority) (payloadIdentity : DockLockedPayloadIdentity)
      (reason : PayloadRecoveryReason) (unresolved : PayloadRecoveryPrepareError)
      (presentationOrigin : Option Origin)
  | commit (graph : DockGraph) (ownerRevision : Nat) (primarySpace : DockSpaceId)
      (primarySpaceIsLive : Bool) (token : PayloadRecoveryPrepared Origin)
  | bindVisibleEntryFocus (recovery : PayloadRecoveryCommitReceipt) (focusHandle : FocusHandle)
  | settleEntryFocus (action : PayloadRecoveryRestoreAction)
  | prepareRestore (graph : DockGraph) (ownerRevision : Nat) (primarySpace : DockSpaceId)
      (activeAnchor : Option WindowSessionLease) (action : PayloadRecoveryRestoreAction)
  | commitPreparedRestore (graph : DockGraph) (ownerRevision : Nat)
      (activeAnchor : Option WindowSessionLease)
      (prepared : PayloadRecoveryRestorePrepared Origin)
  | retireCommittedRestore (action : PayloadRecoveryRestoreAction)
      (receipt : PayloadRecoveryRestoreReceipt)

namespace PayloadRecoveryRegistry

variable (self : PayloadRecoveryRegistry Origin)

/-- An admitted attempt supersedes the reservations for its live identity. -/
def beginEvents (authority : PayloadRecoveryAuthority)
    (reason : PayloadRecoveryReason) : List (PayloadRecoveryEvent Origin) :=
  match self.beginPreparation authority reason with
  | .ok _ => [.began authority]
  | .error _ => []

def preparedEvents (result : Except PayloadRecoveryPrepareError (PayloadRecoveryPrepared Origin)) :
    List (PayloadRecoveryEvent Origin) :=
  match result with
  | .ok token => [.prepared token]
  | .error _ => []

def commitEvent (token : PayloadRecoveryPrepared Origin)
    (result : Except PayloadRecoveryCommitError PayloadRecoveryCommitReceipt) :
    PayloadRecoveryEvent Origin :=
  match result with
  | .ok receipt => .committed token receipt
  | .error _ => .commitFailed token

def restoreEvent (action : PayloadRecoveryRestoreAction)
    (receipt : PayloadRecoveryRestoreReceipt) : PayloadRecoveryEvent Origin :=
  if (self.committedRestoreReceipt action).isSome then .replayed action receipt
  else .restored action receipt

/-- A restore is committed when the registry says it can be; otherwise its caller lets it
go.  The newest event comes first. -/
def perform [DecidableEq Origin] (self : PayloadRecoveryRegistry Origin) :
    PayloadRecoveryCommand Origin →
      Option (List (PayloadRecoveryEvent Origin) × PayloadRecoveryRegistry Origin)
  | .prepare graph ownerRevision authority payloadIdentity reason focus presentationOrigin =>
    (self.prepareWithFocusAndOrigin graph ownerRevision authority payloadIdentity reason focus
      presentationOrigin).map fun outcome =>
        (preparedEvents outcome.1 ++ self.beginEvents authority reason, outcome.2)
  | .prepareUnresolved graph ownerRevision authority payloadIdentity reason unresolved
      presentationOrigin =>
      (self.prepareUnresolvedWithOrigin graph ownerRevision authority payloadIdentity reason
        unresolved presentationOrigin).map fun outcome =>
          (preparedEvents outcome.1 ++
            (if unresolved ≠ .payloadMissing ∧ unresolved ≠ .payloadAmbiguous then []
              else self.beginEvents authority reason), outcome.2)
  | .commit graph ownerRevision primarySpace primarySpaceIsLive token =>
    let outcome := self.commit graph ownerRevision primarySpace primarySpaceIsLive token
    some ([commitEvent token outcome.1], outcome.2)
  | .bindVisibleEntryFocus recovery focusHandle =>
    some ([], (self.bindVisibleEntryFocus recovery focusHandle).2)
  | .settleEntryFocus action => some ([], (self.settleEntryFocus action).2)
  | .prepareRestore _ _ _ _ _ => some ([], self)
  | .commitPreparedRestore graph ownerRevision activeAnchor prepared =>
    if self.canCommitRestore graph ownerRevision activeAnchor prepared then
      (self.commitPreparedRestore prepared).map fun outcome =>
        ([self.restoreEvent prepared.action outcome.1], outcome.2)
    else some ([], self)
  | .retireCommittedRestore action receipt =>
    let outcome := self.retireCommittedRestore action receipt
    some (if outcome.1 then [.retired action receipt] else [], outcome.2)

end PayloadRecoveryRegistry

/-- What one operation can do to a registry, with the events it logs. -/
inductive PayloadRecoveryStep (before : PayloadRecoveryRegistry Origin) :
    List (PayloadRecoveryEvent Origin) → PayloadRecoveryRegistry Origin → Prop where
  | idle : PayloadRecoveryStep before [] before
  | began {authority : PayloadRecoveryAuthority} {begun : PayloadRecoveryRegistry Origin}
      {reason : PayloadRecoveryReason}
      (hbegun : before.beginPreparation authority reason = .ok begun) :
      PayloadRecoveryStep before [.began authority] begun
  | prepared {token : PayloadRecoveryPrepared Origin} {begun : PayloadRecoveryRegistry Origin}
      {reason : PayloadRecoveryReason}
      (hbegun : before.beginPreparation token.authority reason = .ok begun)
      (hgeneration : token.generation = before.lastGeneration + 1) :
      PayloadRecoveryStep before [.prepared token, .began token.authority] { begun with
          lastGeneration := token.generation
          reservations := begun.reservations ++ [token] }
  | commitFailed (token : PayloadRecoveryPrepared Origin) :
      PayloadRecoveryStep before [.commitFailed token] (before.dropReservation token.generation)
  | committed {token : PayloadRecoveryPrepared Origin} {record : PayloadRecoveryRecord Origin}
      (hmem : token ∈ before.reservations)
      (hgeneration : record.receipt.generation = token.generation)
      (hauthority : record.receipt.authority = token.authority) :
      PayloadRecoveryStep before [.committed token record.receipt]
        { before.dropReservation token.generation with records := before.records ++ [record] }
  | focused {records : List (PayloadRecoveryRecord Origin)}
      (hreceipts : records.map (·.receipt) = before.records.map (·.receipt)) :
      PayloadRecoveryStep before [] { before with records := records }
  | restored {action : PayloadRecoveryRestoreAction} {receipt : PayloadRecoveryRestoreReceipt}
      (hnone : before.committedRestoreReceipt action = none)
      (hmem : action.recovery ∈ before.records.map (·.receipt)) :
      PayloadRecoveryStep before [.restored action receipt] { before with
          records := before.records.eraseP fun record => record.receipt = action.recovery
          committedRestores := before.committedRestores ++ [⟨action, receipt⟩] }
  | replayed {action : PayloadRecoveryRestoreAction} {receipt : PayloadRecoveryRestoreReceipt}
      (hsome : before.committedRestoreReceipt action = some receipt) :
      PayloadRecoveryStep before [.replayed action receipt] before
  | retired {action : PayloadRecoveryRestoreAction} {receipt : PayloadRecoveryRestoreReceipt}
      (hmem : ⟨action, receipt⟩ ∈ before.committedRestores) :
      PayloadRecoveryStep before [.retired action receipt]
        { before with committedRestores := before.committedRestores.erase ⟨action, receipt⟩ }

namespace PayloadRecoveryRegistry

variable {self next begun : PayloadRecoveryRegistry Origin}

variable {authority : PayloadRecoveryAuthority} {reason : PayloadRecoveryReason}

theorem beginPreparation_ok (h : self.beginPreparation authority reason = .ok begun) :
    (∀ record ∈ self.records, record.receipt.authority ≠ authority) ∧ begun = { self with
        reservations := self.reservations.filter fun reservation =>
          reservation.liveIdentity ≠ authority.liveIdentity } := by
  rw [beginPreparation] at h
  by_cases hadmits : authority.admitsReason reason = false
  · rw [if_pos hadmits] at h
    cases h
  rw [if_neg hadmits] at h
  by_cases hany : (self.records.any fun record => record.receipt.authority = authority) = true
  · rw [if_pos hany] at h
    cases h
  rw [if_neg hany] at h
  refine ⟨?_, (Except.ok.inj h).symm⟩
  intro record hmem hauthority
  exact hany (any_eq_true.mpr ⟨record, hmem, decide_eq_true hauthority⟩)

variable {ownerRevision : Nat} {payloadIdentity : DockLockedPayloadIdentity}
    {presentationOrigin : Option Origin} {token : PayloadRecoveryPrepared Origin}

variable {focus : Option PayloadRecoveryFocus} {evidence : PayloadRecoveryEvidence}

theorem reserve_eq_some
    (h : self.reserve ownerRevision authority payloadIdentity evidence reason focus
      presentationOrigin = some (token, next)) :
    token.authority = authority ∧ token.generation = self.lastGeneration + 1 ∧
      next = { self with
        lastGeneration := token.generation
        reservations := self.reservations ++ [token] } := by
  rw [reserve] at h
  cases hnext : checkedNext self.lastGeneration with
  | none =>
    rw [hnext] at h
    cases h
  | some generation =>
    rw [hnext] at h
    obtain ⟨rfl, rfl⟩ := Prod.mk.inj (some.inj h)
    exact ⟨rfl, checkedNext_eq_some hnext, rfl⟩

/-- A preparation that began and reserved a token. -/
theorem prepared_step (hbegun : self.beginPreparation authority reason = .ok begun)
    (h : begun.reserve ownerRevision authority payloadIdentity evidence reason focus
      presentationOrigin = some (token, next)) :
    PayloadRecoveryStep self [.prepared token, .began authority] next := by
  obtain ⟨hauthority, hgeneration, rfl⟩ := reserve_eq_some h
  subst hauthority
  apply PayloadRecoveryStep.prepared hbegun
  rw [hgeneration, (beginPreparation_ok hbegun).2]

variable {graph : DockGraph}

variable {result : Except PayloadRecoveryPrepareError (PayloadRecoveryPrepared Origin)}

theorem prepare_step
    (h : self.prepareWithFocusAndOrigin graph ownerRevision authority payloadIdentity reason focus
      presentationOrigin = some (result, next)) :
    PayloadRecoveryStep self (preparedEvents result ++ self.beginEvents authority reason) next := by
  rw [prepareWithFocusAndOrigin] at h
  cases hbegun : self.beginPreparation authority reason with
  | error error =>
    rw [hbegun] at h
    obtain ⟨rfl, rfl⟩ := Prod.mk.inj (some.inj h)
    rw [beginEvents, hbegun]
    exact .idle
  | ok begun =>
    rw [hbegun] at h
    rw [beginEvents, hbegun]
    cases hresolve : PayloadSurvivalProof.resolve graph payloadIdentity with
    | error error =>
      simp only [hresolve] at h
      obtain ⟨rfl, rfl⟩ := Prod.mk.inj (some.inj h)
      exact .began hbegun
    | ok survival =>
      simp only [hresolve] at h
      obtain ⟨⟨token, after⟩, hreserve, hresult⟩ := bind_eq_some_iff.mp h
      obtain ⟨rfl, rfl⟩ := Prod.mk.inj (some.inj hresult)
      exact prepared_step hbegun hreserve

theorem prepareUnresolved_step {unresolved : PayloadRecoveryPrepareError}
    (h : self.prepareUnresolvedWithOrigin graph ownerRevision authority payloadIdentity reason
      unresolved presentationOrigin = some (result, next)) :
    PayloadRecoveryStep self (preparedEvents result ++
        (if unresolved ≠ .payloadMissing ∧ unresolved ≠ .payloadAmbiguous then []
          else self.beginEvents authority reason)) next := by
  rw [prepareUnresolvedWithOrigin] at h
  by_cases hkind : unresolved ≠ .payloadMissing ∧ unresolved ≠ .payloadAmbiguous
  · rw [if_pos hkind] at h
    obtain ⟨rfl, rfl⟩ := Prod.mk.inj (some.inj h)
    rw [if_pos hkind]
    exact .idle
  rw [if_neg hkind] at h
  rw [if_neg hkind]
  cases hbegun : self.beginPreparation authority reason with
  | error error =>
    rw [hbegun] at h
    obtain ⟨rfl, rfl⟩ := Prod.mk.inj (some.inj h)
    rw [beginEvents, hbegun]
    exact .idle
  | ok begun =>
    rw [hbegun] at h
    rw [beginEvents, hbegun]
    cases hresolve : PayloadSurvivalProof.resolve graph payloadIdentity with
    | ok survival =>
      simp only [hresolve] at h
      obtain ⟨rfl, rfl⟩ := Prod.mk.inj (some.inj h)
      exact .began hbegun
    | error found =>
      simp only [hresolve] at h
      by_cases hsame : found ≠ unresolved
      · rw [if_pos hsame] at h
        obtain ⟨rfl, rfl⟩ := Prod.mk.inj (some.inj h)
        exact .began hbegun
      · rw [if_neg hsame] at h
        obtain ⟨⟨token, after⟩, hreserve, hresult⟩ := bind_eq_some_iff.mp h
        obtain ⟨rfl, rfl⟩ := Prod.mk.inj (some.inj hresult)
        exact prepared_step hbegun hreserve

/-- A token passes only as the reservation of its generation. -/
theorem validateCommit_ok [DecidableEq Origin]
    (h : self.validateCommit graph ownerRevision token = .ok ()) : token ∈ self.reservations := by
  rw [validateCommit] at h
  cases hfind : self.reservations.find? fun reservation =>
      reservation.generation == token.generation with
  | none =>
    rw [hfind] at h
    cases h
  | some reservation =>
    simp only [hfind] at h
    by_cases hsame : reservation ≠ token
    · rw [if_pos hsame] at h
      cases h
    · rw [← not_not.mp hsame]
      exact mem_of_find?_eq_some hfind

theorem canCommit_mem [DecidableEq Origin] (h : self.canCommit graph ownerRevision token = true) :
    token ∈ self.reservations := by
  rw [canCommit] at h
  cases hvalid : self.validateCommit graph ownerRevision token with
  | ok => exact validateCommit_ok hvalid
  | error error => simp [hvalid] at h

theorem dropReservation_of_absent {generation : Nat}
    (h : ∀ reservation ∈ self.reservations, reservation.generation ≠ generation) :
    self.dropReservation generation = self := by
  rw [dropReservation, eraseP_of_forall_not]
  intro reservation hmem hsame
  exact h reservation hmem (eq_of_beq hsame)

theorem commit_step [DecidableEq Origin] (graph : DockGraph) (ownerRevision : Nat)
    (primarySpace : DockSpaceId) (primarySpaceIsLive : Bool) (token :
    PayloadRecoveryPrepared Origin) :
    PayloadRecoveryStep self
      [commitEvent token (self.commit graph ownerRevision primarySpace primarySpaceIsLive token).1]
      (self.commit graph ownerRevision primarySpace primarySpaceIsLive token).2 := by
  rw [commit]
  by_cases hany : (self.reservations.any fun reservation =>
      reservation.generation == token.generation) = true
  · rw [hany]
    cases hvalid : self.validateCommit graph ownerRevision token with
    | error error => exact .commitFailed token
    | ok =>
      exact @PayloadRecoveryStep.committed Origin self token (recordOf (commitReceipt primarySpace
        primarySpaceIsLive token) token) (validateCommit_ok hvalid) rfl rfl
  · rw [not_eq_true] at hany
    rw [hany]
    have habsent : ∀ reservation ∈ self.reservations,
        reservation.generation ≠ token.generation := by
      intro reservation hmem hsame
      have hfalse := any_eq_false.mp hany reservation hmem
      exact hfalse (beq_iff_eq.mpr hsame)
    have hfailed : PayloadRecoveryStep self [.commitFailed token]
        (self.dropReservation token.generation) := .commitFailed token
    rw [dropReservation_of_absent habsent] at hfailed
    exact hfailed

theorem updateRecord_receipts {condition : PayloadRecoveryRecord Origin → Bool}
    {update : PayloadRecoveryRecord Origin → PayloadRecoveryRecord Origin}
    (hupdate : ∀ record, (update record).receipt = record.receipt)
    (records : List (PayloadRecoveryRecord Origin)) :
    (updateRecord condition update records).map (·.receipt) = records.map (·.receipt) := by
  induction records with
  | nil => rfl
  | cons record records ih =>
    rw [updateRecord]
    by_cases hcondition : condition record = true
    · rw [if_pos hcondition, map_cons, map_cons, hupdate]
    · rw [if_neg hcondition, map_cons, map_cons, ih]

theorem bindVisibleEntryFocus_step (recovery : PayloadRecoveryCommitReceipt)
    (focusHandle : FocusHandle) :
    PayloadRecoveryStep self [] (self.bindVisibleEntryFocus recovery focusHandle).2 := by
  unfold bindVisibleEntryFocus
  dsimp only
  split
  · exact .idle
  · split
    · exact .idle
    · apply PayloadRecoveryStep.focused
      apply updateRecord_receipts
      intro record
      rfl

variable (action : PayloadRecoveryRestoreAction)

theorem settleEntryFocus_step : PayloadRecoveryStep self [] (self.settleEntryFocus action).2 := by
  unfold settleEntryFocus
  split
  · exact .idle
  · split
    · exact .idle
    · split
      · exact .idle
      · apply PayloadRecoveryStep.focused
        apply updateRecord_receipts
        intro record
        rfl

theorem commitPreparedRestore_step {prepared : PayloadRecoveryRestorePrepared Origin}
    {receipt : PayloadRecoveryRestoreReceipt}
    (h : self.commitPreparedRestore prepared = some (receipt, next)) :
    PayloadRecoveryStep self [self.restoreEvent prepared.action receipt] next := by
  rw [commitPreparedRestore] at h
  rw [restoreEvent]
  cases hcommitted : self.committedRestoreReceipt prepared.action with
  | some earlier =>
    rw [hcommitted] at h
    obtain ⟨rfl, rfl⟩ := Prod.mk.inj (some.inj h)
    exact .replayed hcommitted
  | none =>
    simp only [hcommitted] at h
    by_cases hany : (self.records.any fun record =>
        record.receipt = prepared.action.recovery) = true
    · rw [hany] at h
      obtain ⟨rfl, rfl⟩ := Prod.mk.inj (some.inj h)
      obtain ⟨record, hmem, hrecord⟩ := any_eq_true.mp hany
      exact .restored hcommitted (mem_map.mpr ⟨record, hmem, of_decide_eq_true hrecord⟩)
    · rw [not_eq_true] at hany
      rw [hany] at h
      cases h

theorem retireCommittedRestore_step (receipt : PayloadRecoveryRestoreReceipt) :
    PayloadRecoveryStep self
      (if (self.retireCommittedRestore action receipt).1 then [.retired action receipt] else [])
      (self.retireCommittedRestore action receipt).2 := by
  rw [retireCommittedRestore]
  by_cases hmem : self.committedRestores.contains ⟨action, receipt⟩ = true
  · rw [hmem]
    exact .retired (contains_iff_mem.mp hmem)
  · rw [not_eq_true] at hmem
    rw [hmem]
    exact .idle

theorem perform_step [DecidableEq Origin] {command : PayloadRecoveryCommand Origin}
    {events : List (PayloadRecoveryEvent Origin)} (h : self.perform command = some (events, next)) :
    PayloadRecoveryStep self events next := by
  cases command with
  | prepare graph ownerRevision authority payloadIdentity reason focus presentationOrigin =>
    obtain ⟨⟨result, after⟩, hprepare, hresult⟩ := map_eq_some_iff.mp h
    obtain ⟨rfl, rfl⟩ := Prod.mk.inj hresult
    exact prepare_step hprepare
  | prepareUnresolved graph ownerRevision authority payloadIdentity reason unresolved
      presentationOrigin =>
      obtain ⟨⟨result, after⟩, hprepare, hresult⟩ := map_eq_some_iff.mp h
      obtain ⟨rfl, rfl⟩ := Prod.mk.inj hresult
      exact prepareUnresolved_step hprepare
  | commit graph ownerRevision primarySpace primarySpaceIsLive token =>
    obtain ⟨rfl, rfl⟩ := Prod.mk.inj (some.inj h)
    exact commit_step graph ownerRevision primarySpace primarySpaceIsLive token
  | bindVisibleEntryFocus recovery focusHandle =>
    obtain ⟨rfl, rfl⟩ := Prod.mk.inj (some.inj h)
    exact bindVisibleEntryFocus_step recovery focusHandle
  | settleEntryFocus action =>
    obtain ⟨rfl, rfl⟩ := Prod.mk.inj (some.inj h)
    exact settleEntryFocus_step action
  | prepareRestore graph ownerRevision primarySpace activeAnchor action =>
    obtain ⟨rfl, rfl⟩ := Prod.mk.inj (some.inj h)
    exact .idle
  | commitPreparedRestore graph ownerRevision activeAnchor prepared =>
    rw [perform] at h
    by_cases hcan : self.canCommitRestore graph ownerRevision activeAnchor prepared = true
    · rw [if_pos hcan] at h
      obtain ⟨⟨receipt, after⟩, hcommit, hresult⟩ := map_eq_some_iff.mp h
      obtain ⟨rfl, rfl⟩ := Prod.mk.inj hresult
      exact commitPreparedRestore_step hcommit
    · rw [if_neg hcan] at h
      obtain ⟨rfl, rfl⟩ := Prod.mk.inj (some.inj h)
      exact .idle
  | retireCommittedRestore action receipt =>
    obtain ⟨rfl, rfl⟩ := Prod.mk.inj (some.inj h)
    exact retireCommittedRestore_step action receipt

end PayloadRecoveryRegistry

end OpenGpui.Docking
