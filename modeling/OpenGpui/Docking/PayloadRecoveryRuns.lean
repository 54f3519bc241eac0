/-
Whole runs of a recovery registry: which tokens can still commit, which records a restore
has consumed, and the authority that commits twice once its record is consumed.
-/
import OpenGpui.Docking.PayloadRecoverySteps

namespace OpenGpui.Docking

open List Machine Option PayloadRecoveryRegistry

variable {Origin : Type}

namespace PayloadRecoveryEvent

def committedAuthority : PayloadRecoveryEvent Origin → Option PayloadRecoveryAuthority
  | committed _ receipt => some receipt.authority
  | _ => none

def restoredRecovery : PayloadRecoveryEvent Origin → Option PayloadRecoveryCommitReceipt
  | restored action _ => some action.recovery
  | _ => none

/-- A commit, failed or not, and a later attempt for the live identity end a token. -/
def Ends (token : PayloadRecoveryPrepared Origin) : PayloadRecoveryEvent Origin → Prop
  | began authority => authority.liveIdentity = token.liveIdentity
  | commitFailed other | committed other _ => other = token
  | _ => False

/-- A restore of the action that consumed its record, and the retirement of one. -/
def ConcernsRestore (action : PayloadRecoveryRestoreAction) : PayloadRecoveryEvent Origin → Prop
  | restored other _ | retired other _ => other = action
  | _ => False

end PayloadRecoveryEvent

open PayloadRecoveryEvent

abbrev PayloadRecoveryLog (Origin : Type) := List (PayloadRecoveryEvent Origin)

namespace PayloadRecoveryLog

variable (log : PayloadRecoveryLog Origin)

def committedAuthorities : List PayloadRecoveryAuthority := log.filterMap committedAuthority

def restoredRecoveries : List PayloadRecoveryCommitReceipt := log.filterMap restoredRecovery

/-- The authorities whose record a restore has consumed. -/
def consumedAuthorities : List PayloadRecoveryAuthority :=
  (restoredRecoveries log).map (·.authority)

/-- After it was prepared, something ended the token. -/
def Ended (token : PayloadRecoveryPrepared Origin) : PayloadRecoveryLog Origin → Prop
  | [] => False
  | event :: earlier => Ended token earlier ∨ (Ends token event ∧ .prepared token ∈ earlier)

theorem Ended.prepared_mem {token : PayloadRecoveryPrepared Origin}
    {log : PayloadRecoveryLog Origin} (h : Ended token log) : .prepared token ∈ log := by
  induction log with
  | nil => exact h.elim
  | cons event earlier ih =>
    rcases h with hearlier | ⟨-, hmem⟩
    · exact mem_cons_of_mem _ (ih hearlier)
    · exact mem_cons_of_mem _ hmem

end PayloadRecoveryLog

open PayloadRecoveryLog

/-- The authority a preparation is made for. -/
def PayloadRecoveryCommand.attempted :
    PayloadRecoveryCommand Origin → Option PayloadRecoveryAuthority
  | prepare _ _ authority _ _ _ _ | prepareUnresolved _ _ authority _ _ _ _ => some authority
  | _ => none

structure PayloadRecoverySession (Origin : Type) where
  registry : PayloadRecoveryRegistry Origin
  log : PayloadRecoveryLog Origin

namespace PayloadRecoverySession

def new : PayloadRecoverySession Origin := ⟨.new, []⟩

def machine [DecidableEq Origin] : Machine (PayloadRecoverySession Origin)
    (PayloadRecoveryCommand Origin) (PayloadRecoveryLog Origin) where
  step session command :=
    (session.registry.perform command).map fun (events, next) =>
      (events, ⟨next, events ++ session.log⟩)

/-- No attempt is made for an authority whose record a restore has consumed. -/
def Unconsumed (session : PayloadRecoverySession Origin)
    (command : PayloadRecoveryCommand Origin) : Prop :=
  ∀ authority ∈ command.attempted, authority ∉ consumedAuthorities session.log

end PayloadRecoverySession

/-- What the log says of the reservations: none is left of a token that ended, or of a
generation that committed. -/
structure Reserved (lastGeneration : Nat) (reservations : List (PayloadRecoveryPrepared Origin))
    (log : PayloadRecoveryLog Origin) : Prop where
  identities : reservations.Pairwise fun first second => first.liveIdentity ≠ second.liveIdentity
  generations : reservations.Pairwise fun first second => first.generation ≠ second.generation
  issued : ∀ token ∈ reservations, .prepared token ∈ log
  issued_le : ∀ token, .prepared token ∈ log → token.generation ≤ lastGeneration
  ended : ∀ token, Ended token log → token ∉ reservations
  committed : ∀ token receipt, .committed token receipt ∈ log →
    receipt.generation ≤ lastGeneration ∧
      ∀ reserved ∈ reservations, reserved.generation ≠ receipt.generation

namespace Reserved

variable {lastGeneration : Nat} {reservations rest : List (PayloadRecoveryPrepared Origin)}
variable {log : PayloadRecoveryLog Origin} {event : PayloadRecoveryEvent Origin}

section

variable (h : Reserved lastGeneration reservations log)

include h

/-- An event that reserves nothing and drops every token it ends. -/
theorem shrink (hsub : rest.Sublist reservations) (hprepared : ∀ token, event ≠ .prepared token)
    (hends : ∀ token, Ends token event → token ∉ rest)
    (hcommitted : ∀ token receipt, event = .committed token receipt →
      receipt.generation ≤ lastGeneration ∧
        ∀ reserved ∈ rest, reserved.generation ≠ receipt.generation) :
    Reserved lastGeneration rest (event :: log) where
  identities := h.identities.sublist hsub
  generations := h.generations.sublist hsub
  issued token hmem := mem_cons_of_mem _ (h.issued token (hsub.subset hmem))
  issued_le token hmem := by
    rcases mem_cons.mp hmem with hevent | hearlier
    · exact absurd hevent.symm (hprepared token)
    · exact h.issued_le token hearlier
  ended token hended hmem := by
    rcases hended with hearlier | ⟨hevent, -⟩
    · exact h.ended token hearlier (hsub.subset hmem)
    · exact hends token hevent hmem
  committed token receipt hmem := by
    rcases mem_cons.mp hmem with hevent | hearlier
    · exact hcommitted token receipt hevent.symm
    · obtain ⟨hle, hne⟩ := h.committed token receipt hearlier
      exact ⟨hle, fun reserved hreserved => hne reserved (hsub.subset hreserved)⟩

theorem eq_of_liveIdentity
    {first second : PayloadRecoveryPrepared Origin} (hfirst : first ∈ reservations)
    (hsecond : second ∈ reservations) (hsame : first.liveIdentity = second.liveIdentity) :
    first = second :=
  inj_on_of_nodup_map (pairwise_map.mpr h.identities) hfirst hsecond hsame

theorem began (authority : PayloadRecoveryAuthority) : Reserved lastGeneration
      (reservations.filter fun reservation => reservation.liveIdentity ≠ authority.liveIdentity)
      (.began authority :: log) := by
  apply h.shrink filter_sublist
  · intro token hevent
    cases hevent
  · intro token hsame hmem
    have hne := of_decide_eq_true (mem_filter.mp hmem).2
    exact hne hsame.symm
  · intro token receipt hevent
    cases hevent

end

variable {token : PayloadRecoveryPrepared Origin} (h : Reserved lastGeneration reservations log)

include h

/-- A new token has a generation no earlier event knows. -/
theorem prepared (hidentity : ∀ reserved ∈ reservations, reserved.liveIdentity ≠ token.liveIdentity)
    (hgeneration : token.generation = lastGeneration + 1) :
    Reserved token.generation (reservations ++ [token]) (.prepared token :: log) where
  identities := by
    rw [pairwise_append]
    refine ⟨h.identities, pairwise_singleton _ _, ?_⟩
    intro reserved hreserved other hother
    rw [mem_singleton.mp hother]
    exact hidentity reserved hreserved
  generations := by
    rw [pairwise_append]
    refine ⟨h.generations, pairwise_singleton _ _, ?_⟩
    intro reserved hreserved other hother
    rw [mem_singleton.mp hother]
    have hle := h.issued_le reserved (h.issued reserved hreserved)
    omega
  issued other hmem := by
    rcases mem_append.mp hmem with hreserved | hnew
    · exact mem_cons_of_mem _ (h.issued other hreserved)
    · rw [mem_singleton.mp hnew]
      exact mem_cons_self
  issued_le other hmem := by
    rcases mem_cons.mp hmem with hnew | hearlier
    · cases hnew
      exact Nat.le_refl _
    · have hle := h.issued_le other hearlier
      omega
  ended other hended hmem := by
    rcases hended with hearlier | ⟨hfalse, -⟩
    · rcases mem_append.mp hmem with hreserved | hnew
      · exact h.ended other hearlier hreserved
      · have hle := h.issued_le other hearlier.prepared_mem
        rw [mem_singleton.mp hnew] at hle
        omega
    · exact hfalse
  committed other receipt hmem := by
    rcases mem_cons.mp hmem with hnew | hearlier
    · cases hnew
    · obtain ⟨hle, hne⟩ := h.committed other receipt hearlier
      refine ⟨by omega, ?_⟩
      intro reserved hreserved
      rcases mem_append.mp hreserved with hold | hnew
      · exact hne reserved hold
      · rw [mem_singleton.mp hnew]
        omega

/-- Dropping the reservation of a generation leaves none of that generation. -/
theorem generation_ne_of_mem_drop {generation : Nat} {reserved : PayloadRecoveryPrepared Origin}
    (hmem : reserved ∈ reservations.eraseP fun reservation =>
      reservation.generation == generation) : reserved.generation ≠ generation := by
  have hgenerations := h.generations
  clear h
  induction reservations with
  | nil => cases hmem
  | cons first others ih =>
    rw [pairwise_cons] at hgenerations
    by_cases hfirst : first.generation = generation
    · rw [eraseP_cons, beq_iff_eq.mpr hfirst] at hmem
      intro hsame
      exact hgenerations.1 reserved hmem (hfirst.trans hsame.symm)
    · rw [eraseP_cons, beq_eq_false_iff_ne.mpr hfirst] at hmem
      rcases mem_cons.mp hmem with rfl | hrest
      · exact hfirst
      · exact ih hrest hgenerations.2

theorem commitFailed (token : PayloadRecoveryPrepared Origin) : Reserved lastGeneration
      (reservations.eraseP fun reservation => reservation.generation == token.generation)
      (.commitFailed token :: log) := by
  apply h.shrink eraseP_sublist
  · intro other hevent
    cases hevent
  · rintro other rfl hmem
    exact h.generation_ne_of_mem_drop hmem rfl
  · intro other receipt hevent
    cases hevent

variable {receipt : PayloadRecoveryCommitReceipt}

theorem commit (hmem : token ∈ reservations) (hgeneration : receipt.generation = token.generation) :
    Reserved lastGeneration
      (reservations.eraseP fun reservation => reservation.generation == token.generation)
      (.committed token receipt :: log) := by
  apply h.shrink eraseP_sublist
  · intro other hevent
    cases hevent
  · rintro other rfl hother
    exact h.generation_ne_of_mem_drop hother rfl
  · rintro other otherReceipt ⟨rfl, rfl⟩
    rw [hgeneration]
    exact ⟨h.issued_le token (h.issued token hmem), fun reserved => h.generation_ne_of_mem_drop⟩

/-- A commit of a reserved token makes a receipt the run has not seen. -/
theorem receipt_fresh {other : PayloadRecoveryPrepared Origin}
    (hmem : token ∈ reservations) (hgeneration : receipt.generation = token.generation) :
    .committed other receipt ∉ log := by
  intro hcommitted
  exact (h.committed other receipt hcommitted).2 token hmem hgeneration.symm

end Reserved

/-- Every receipt of the run is that of a record, or a restore has consumed its record. -/
structure Accounted (receipts : List PayloadRecoveryCommitReceipt)
    (log : PayloadRecoveryLog Origin) : Prop where
  accounted : ∀ token receipt, .committed token receipt ∈ log →
    receipt ∈ receipts ++ restoredRecoveries log
  recorded : ∀ receipt ∈ receipts ++ restoredRecoveries log, ∃ token, .committed token receipt ∈ log
  consumed : (receipts ++ restoredRecoveries log).Nodup

namespace Accounted

variable {receipts : List PayloadRecoveryCommitReceipt} {log : PayloadRecoveryLog Origin}
variable {event : PayloadRecoveryEvent Origin} (h : Accounted receipts log)

include h

theorem quiet (hcommitted : ∀ token receipt, event ≠ .committed token receipt)
    (hrestored : event.restoredRecovery = none) : Accounted receipts (event :: log) := by
  have hsame : restoredRecoveries (event :: log) = restoredRecoveries log :=
    filterMap_cons_none hrestored
  refine ⟨?_, ?_, hsame ▸ h.consumed⟩
  · intro token receipt hmem
    rw [hsame]
    rcases mem_cons.mp hmem with hevent | hearlier
    · exact absurd hevent.symm (hcommitted token receipt)
    · exact h.accounted token receipt hearlier
  · intro receipt hmem
    rw [hsame] at hmem
    obtain ⟨token, hearlier⟩ := h.recorded receipt hmem
    exact ⟨token, mem_cons_of_mem _ hearlier⟩

theorem commit {token : PayloadRecoveryPrepared Origin}
    {receipt : PayloadRecoveryCommitReceipt} (hfresh : ∀ other, .committed other receipt ∉ log) :
    Accounted (receipts ++ [receipt]) (.committed token receipt :: log) := by
  have hsame : restoredRecoveries (.committed token receipt :: log) = restoredRecoveries log :=
    filterMap_cons_none rfl
  have hperm : ((receipts ++ [receipt]) ++ restoredRecoveries log).Perm
      (receipt :: (receipts ++ restoredRecoveries log)) := by
    rw [append_assoc]
    exact perm_middle
  refine ⟨?_, ?_, ?_⟩
  · intro other otherReceipt hmem
    rw [hsame, hperm.mem_iff, mem_cons]
    rcases mem_cons.mp hmem with hevent | hearlier
    · cases hevent
      exact .inl rfl
    · exact .inr (h.accounted other otherReceipt hearlier)
  · intro otherReceipt hmem
    rw [hsame, hperm.mem_iff, mem_cons] at hmem
    rcases hmem with rfl | hearlier
    · exact ⟨token, mem_cons_self⟩
    · obtain ⟨other, hother⟩ := h.recorded otherReceipt hearlier
      exact ⟨other, mem_cons_of_mem _ hother⟩
  · rw [hsame, hperm.nodup_iff, nodup_cons]
    refine ⟨?_, h.consumed⟩
    intro hmem
    obtain ⟨other, hother⟩ := h.recorded receipt hmem
    exact hfresh other hother

theorem restore {action : PayloadRecoveryRestoreAction}
    {receipt : PayloadRecoveryRestoreReceipt} (hmem : action.recovery ∈ receipts) :
    Accounted (receipts.erase action.recovery) (.restored action receipt :: log) := by
  have hnext : restoredRecoveries (.restored action receipt :: log) =
      action.recovery :: restoredRecoveries log :=
    filterMap_cons_some rfl
  have hperm : (receipts.erase action.recovery ++
      action.recovery :: restoredRecoveries log).Perm (receipts ++ restoredRecoveries log) := by
    apply perm_middle.trans
    exact (perm_cons_erase hmem).symm.append_right _
  refine ⟨?_, ?_, ?_⟩
  · intro token otherReceipt hcommitted
    rw [hnext, hperm.mem_iff]
    rcases mem_cons.mp hcommitted with hevent | hearlier
    · cases hevent
    · exact h.accounted token otherReceipt hearlier
  · intro otherReceipt hother
    rw [hnext, hperm.mem_iff] at hother
    obtain ⟨token, hearlier⟩ := h.recorded otherReceipt hother
    exact ⟨token, mem_cons_of_mem _ hearlier⟩
  · rw [hnext, hperm.nodup_iff]
    exact h.consumed

end Accounted

/-- A restore the registry keeps is the last one of its action and is not retired. -/
structure KeptRestores (restores : List PayloadRecoveryCommittedRestore)
    (log : PayloadRecoveryLog Origin) : Prop where
  actions : (restores.map (·.action)).Nodup
  tracks : ∀ action, EventLog.Tracks (ConcernsRestore action) (.restored action) log
    fun receipt => ⟨action, receipt⟩ ∈ restores

theorem restoreReceipt_iff {restores : List PayloadRecoveryCommittedRestore}
    (hactions : (restores.map (·.action)).Nodup) {action : PayloadRecoveryRestoreAction}
    {receipt : PayloadRecoveryRestoreReceipt} :
    (restores.find? fun committed => committed.action = action).map (·.receipt) = some receipt ↔
      ⟨action, receipt⟩ ∈ restores := by
  constructor
  · intro hfind
    obtain ⟨⟨found, kept⟩, hfound, rfl⟩ := map_eq_some_iff.mp hfind
    have haction : found = action := by simpa using find?_some hfound
    rw [← haction]
    exact mem_of_find?_eq_some hfound
  · intro hmem
    have hsome : (restores.find? fun committed => committed.action = action).isSome := by
      rw [find?_isSome]
      exact ⟨_, hmem, by simp⟩
    obtain ⟨found, hfound⟩ := isSome_iff_exists.mp hsome
    have haction : found.action = action := by simpa using find?_some hfound
    have hfoundMem := mem_of_find?_eq_some hfound
    have hsame := inj_on_of_nodup_map hactions hfoundMem hmem haction
    rw [hfound, hsame]
    rfl

namespace KeptRestores

variable {restores : List PayloadRecoveryCommittedRestore} {log : PayloadRecoveryLog Origin}
variable {event : PayloadRecoveryEvent Origin} (h : KeptRestores restores log)

include h

theorem quiet (hevent : ∀ action, ¬ ConcernsRestore action event) :
    KeptRestores restores (event :: log) := by
  refine ⟨h.actions, ?_⟩
  intro action
  apply @EventLog.Tracks.step _ _ _ _ _ _ _ [event] (h.tracks action)
  apply EventLog.Step.quiet
  · intro other hmem
    rw [mem_singleton.mp hmem]
    exact hevent action
  · intro receipt
    rfl

variable {receipt : PayloadRecoveryRestoreReceipt} {action : PayloadRecoveryRestoreAction}

theorem restore (hnone : ∀ other, ⟨action, other⟩ ∉ restores) :
    KeptRestores (restores ++ [⟨action, receipt⟩]) (.restored action receipt :: log) := by
  refine ⟨?_, ?_⟩
  · rw [map_append, nodup_append]
    refine ⟨h.actions, nodup_singleton _, ?_⟩
    intro first hmem other hother hsame
    obtain ⟨⟨restoredAction, kept⟩, hkept, rfl⟩ := mem_map.mp hmem
    rw [map_singleton, mem_singleton] at hother
    obtain rfl : restoredAction = action := hsame.trans hother
    exact hnone kept hkept
  · intro other
    apply @EventLog.Tracks.step _ _ _ _ _ _ _ [.restored action receipt] (h.tracks other)
    by_cases hsame : action = other
    · subst hsame
      refine EventLog.Step.logged (.restored action receipt) rfl rfl ?_
      intro kept
      rw [mem_append, mem_singleton]
      constructor
      · rintro (hold | hnew)
        · exact absurd hold (hnone kept)
        · cases hnew
          rfl
      · rintro ⟨rfl⟩
        exact .inr rfl
    · apply EventLog.Step.quiet
      · intro event hmem
        rw [mem_singleton.mp hmem]
        exact hsame
      · intro kept
        rw [mem_append, mem_singleton]
        constructor
        · rintro (hold | hnew)
          · exact hold
          · cases hnew
            exact absurd rfl hsame
        · exact .inl

theorem retire (hmem : ⟨action, receipt⟩ ∈ restores) :
    KeptRestores (restores.erase ⟨action, receipt⟩) (.retired action receipt :: log) := by
  have hnodup : restores.Nodup := List.Nodup.of_map _ h.actions
  refine ⟨h.actions.sublist (erase_sublist.map _), ?_⟩
  intro other
  apply @EventLog.Tracks.step _ _ _ _ _ _ _ [.retired action receipt] (h.tracks other)
  by_cases hsame : action = other
  · subst hsame
    refine EventLog.Step.logged (.retired action receipt) rfl rfl ?_
    intro kept
    constructor
    · intro hkept
      obtain ⟨hne, hold⟩ := (hnodup.mem_erase_iff).mp hkept
      exact absurd (inj_on_of_nodup_map h.actions hold hmem rfl) hne
    · intro hevent
      cases hevent
  · apply EventLog.Step.quiet
    · intro event hevent
      rw [mem_singleton.mp hevent]
      exact hsame
    · intro kept
      rw [hnodup.mem_erase_iff]
      constructor
      · exact And.right
      · intro hold
        refine ⟨?_, hold⟩
        rintro ⟨rfl, rfl⟩
        exact hsame rfl

end KeptRestores

namespace PayloadRecoverySession

instance (session : PayloadRecoverySession Origin) (command : PayloadRecoveryCommand Origin) :
    Decidable (Unconsumed session command) :=
  inferInstanceAs (Decidable (∀ authority ∈ command.attempted,
    authority ∉ consumedAuthorities session.log))

structure Valid (session : PayloadRecoverySession Origin) : Prop where
  reserved : Reserved session.registry.lastGeneration session.registry.reservations session.log
  accounted : Accounted (session.registry.records.map (·.receipt)) session.log
  restores : KeptRestores session.registry.committedRestores session.log

theorem valid_new : (new : PayloadRecoverySession Origin).Valid where
  reserved := ⟨List.Pairwise.nil, List.Pairwise.nil, by simp [new, PayloadRecoveryRegistry.new],
    by simp [new], by simp [new, Ended], by simp [new]⟩
  accounted := ⟨by simp [new], by simp [new, PayloadRecoveryRegistry.new, restoredRecoveries],
    by simp [new, PayloadRecoveryRegistry.new, restoredRecoveries]⟩
  restores := by
    refine ⟨by simp [new, PayloadRecoveryRegistry.new], ?_⟩
    intro action
    apply EventLog.tracks_nil
    simp [new, PayloadRecoveryRegistry.new]

theorem map_eraseP_receipt (records : List (PayloadRecoveryRecord Origin))
    (recovery : PayloadRecoveryCommitReceipt) :
    (records.eraseP fun record => record.receipt = recovery).map (·.receipt) =
      (records.map (·.receipt)).erase recovery := by
  induction records with
  | nil => rfl
  | cons record records ih =>
    by_cases hsame : record.receipt = recovery
    · simp [hsame]
    · simp [hsame, ih]

variable {session : PayloadRecoverySession Origin} {events : PayloadRecoveryLog Origin}
    {next : PayloadRecoveryRegistry Origin}

theorem Valid.step (h : session.Valid) (hstep : PayloadRecoveryStep session.registry events next) :
    Valid ⟨next, events ++ session.log⟩ := by
  cases hstep with
  | idle => exact h
  | @began authority begun reason hbegun =>
    obtain ⟨-, rfl⟩ := beginPreparation_ok hbegun
    exact ⟨h.reserved.began authority, h.accounted.quiet (by simp) rfl,
      h.restores.quiet fun _ => id⟩
  | @prepared token begun reason hbegun hgeneration =>
    obtain ⟨-, rfl⟩ := beginPreparation_ok hbegun
    refine ⟨(h.reserved.began token.authority).prepared ?_ hgeneration,
      (h.accounted.quiet (by simp) rfl).quiet (by simp) rfl,
      (h.restores.quiet fun _ => id).quiet fun _ => id⟩
    intro reserved hmem
    exact of_decide_eq_true (mem_filter.mp hmem).2
  | commitFailed token =>
    exact ⟨h.reserved.commitFailed token, h.accounted.quiet (by simp) rfl,
      h.restores.quiet fun _ => id⟩
  | @committed token record hmem hgeneration hauthority =>
    refine ⟨h.reserved.commit hmem hgeneration, ?_, h.restores.quiet fun _ => id⟩
    have haccounted := @Accounted.commit _ _ _ h.accounted token record.receipt
      fun other => h.reserved.receipt_fresh hmem hgeneration
    rwa [← map_singleton, ← map_append] at haccounted
  | focused hreceipts =>
    refine ⟨h.reserved, ?_, h.restores⟩
    have haccounted := h.accounted
    rwa [← hreceipts] at haccounted
  | @restored action receipt hnone hmem =>
    refine ⟨?_, ?_, ?_⟩
    · apply h.reserved.shrink (List.Sublist.refl _) <;> simp [Ends]
    · have haccounted := @Accounted.restore _ _ _ h.accounted action receipt hmem
      rwa [← map_eraseP_receipt] at haccounted
    · apply h.restores.restore
      intro other hkept
      rw [committedRestoreReceipt, (restoreReceipt_iff h.restores.actions).mpr hkept] at hnone
      cases hnone
  | replayed =>
    refine ⟨?_, h.accounted.quiet (by simp) rfl, h.restores.quiet fun _ => id⟩
    apply h.reserved.shrink (List.Sublist.refl _) <;> simp [Ends]
  | retired hmem =>
    refine ⟨?_, h.accounted.quiet (by simp) rfl, h.restores.retire hmem⟩
    apply h.reserved.shrink (List.Sublist.refl _) <;> simp [Ends]

/-- No authority that a reservation waits for has committed, and none has twice. -/
structure Unrepeated (session : PayloadRecoverySession Origin) : Prop where
  reserved : ∀ token ∈ session.registry.reservations,
    token.authority ∉ committedAuthorities session.log
  commits : (committedAuthorities session.log).Nodup

theorem unrepeated_new : (new : PayloadRecoverySession Origin).Unrepeated where
  reserved := by simp [new, PayloadRecoveryRegistry.new]
  commits := by simp [new, committedAuthorities]

variable {authority : PayloadRecoveryAuthority}

/-- An authority that has committed shows in a record, or a restore has consumed it. -/
theorem Valid.committed_cases (h : session.Valid) (hmem :
    authority ∈ committedAuthorities session.log) :
    (∃ record ∈ session.registry.records, record.receipt.authority = authority) ∨
      authority ∈ consumedAuthorities session.log := by
  obtain ⟨event, hevent, hauthority⟩ := mem_filterMap.mp hmem
  cases event with
  | committed token receipt =>
    obtain rfl : receipt.authority = authority := some.inj hauthority
    rcases mem_append.mp (h.accounted.accounted token receipt hevent) with
      hrecord | hrestored
    · obtain ⟨record, hmemRecord, rfl⟩ := mem_map.mp hrecord
      exact .inl ⟨record, hmemRecord, rfl⟩
    · exact .inr (mem_map.mpr ⟨receipt, hrestored, rfl⟩)
  | began | prepared | commitFailed | restored | replayed | retired => cases hauthority

/-- An operation that commits nothing and reserves no committed authority. -/
theorem Unrepeated.quiet (h : session.Unrepeated) (hevents : committedAuthorities events = [])
    (hreserved : ∀ token ∈ next.reservations, token ∈ session.registry.reservations ∨
      token.authority ∉ committedAuthorities session.log) :
    Unrepeated ⟨next, events ++ session.log⟩ := by
  have hsame : committedAuthorities (events ++ session.log) = committedAuthorities session.log := by
    rw [committedAuthorities, filterMap_append]
    rw [committedAuthorities] at hevents
    rw [hevents]
    rfl
  refine ⟨?_, hsame ▸ h.commits⟩
  intro token hmem
  rw [hsame]
  rcases hreserved token hmem with hold | hnew
  · exact h.reserved token hold
  · exact hnew

theorem Unrepeated.step (h : session.Unrepeated) (hvalid : session.Valid)
    (hstep : PayloadRecoveryStep session.registry events next)
    (hunconsumed : ∀ token, .prepared token ∈ events →
      token.authority ∉ consumedAuthorities session.log) :
    Unrepeated ⟨next, events ++ session.log⟩ := by
  cases hstep with
  | idle | focused | restored | replayed | retired =>
    exact h.quiet rfl fun token hmem => .inl hmem
  | began hbegun =>
    obtain ⟨-, rfl⟩ := beginPreparation_ok hbegun
    exact h.quiet rfl fun token hmem => .inl (mem_of_mem_filter hmem)
  | @prepared token begun reason hbegun hgeneration =>
    obtain ⟨hrecords, rfl⟩ := beginPreparation_ok hbegun
    apply h.quiet rfl
    intro other hmem
    rcases mem_append.mp hmem with hold | hnew
    · exact .inl (mem_of_mem_filter hold)
    · rw [mem_singleton.mp hnew]
      refine .inr fun hcommitted => ?_
      rcases hvalid.committed_cases hcommitted with ⟨record, hrecord, hauthority⟩ | hconsumed
      · exact hrecords record hrecord hauthority
      · exact hunconsumed token mem_cons_self hconsumed
  | commitFailed token =>
    exact h.quiet rfl fun other hmem => .inl (mem_of_mem_eraseP hmem)
  | @committed token record hmem hgeneration hauthority =>
    have hcommitted : committedAuthorities (.committed token record.receipt :: session.log) =
        token.authority :: committedAuthorities session.log := by
      rw [← hauthority]
      exact filterMap_cons_some rfl
    refine ⟨?_, ?_⟩
    · intro other hother
      change other.authority ∉ committedAuthorities (.committed token record.receipt :: session.log)
      rw [hcommitted, mem_cons, not_or]
      have hold := mem_of_mem_eraseP hother
      refine ⟨?_, h.reserved other hold⟩
      intro hsame
      -- Two reservations are never for one live identity, so not for one authority.
      have htoken : other = token := hvalid.reserved.eq_of_liveIdentity hold hmem
        (congrArg PayloadRecoveryAuthority.liveIdentity hsame)
      exact hvalid.reserved.generation_ne_of_mem_drop hother (congrArg (·.generation) htoken)
    · change (committedAuthorities (.committed token record.receipt :: session.log)).Nodup
      rw [hcommitted, nodup_cons]
      exact ⟨h.reserved token hmem, h.commits⟩

/-- What a run guarantees whatever is attempted in it: one token for each live identity can
commit, a token that ended cannot, and a record is consumed once, by a restore that answers
the same until it is retired. -/
structure RecoversOnce [DecidableEq Origin] (session : PayloadRecoverySession Origin) : Prop where
  one_committable : ∀ first second firstGraph secondGraph firstRevision secondRevision,
    session.registry.canCommit firstGraph firstRevision first = true →
      session.registry.canCommit secondGraph secondRevision second = true →
        first.liveIdentity = second.liveIdentity → first = second
  ended_never_commits : ∀ token, Ended token session.log →
    ∀ graph ownerRevision primarySpace primarySpaceIsLive, ∃ error,
      (session.registry.commit graph ownerRevision primarySpace primarySpaceIsLive token).1 =
        .error error
  consumed_committed : ∀ recovery ∈ restoredRecoveries session.log,
    ∃ token, .committed token recovery ∈ session.log
  consumed_once : (restoredRecoveries session.log).Nodup
  replayed_same : ∀ later action receipt earlier,
    session.log = later ++ .replayed action receipt :: earlier →
      EventLog.Latest (ConcernsRestore action) earlier (.restored action receipt)
  replays_until_retired : ∀ action receipt,
    EventLog.Latest (ConcernsRestore action) session.log (.restored action receipt) →
      ∀ graph ownerRevision activeAnchor, ∀ prepared : PayloadRecoveryRestorePrepared Origin,
        prepared.action = action →
          session.registry.canCommitRestore graph ownerRevision activeAnchor prepared = true ∧
            session.registry.commitPreparedRestore prepared = some (receipt, session.registry)

/-- Each restore that was replayed answered what the one before it did. -/
def ReplayedSame (log : PayloadRecoveryLog Origin) : Prop :=
  ∀ later action receipt earlier, log = later ++ .replayed action receipt :: earlier →
    EventLog.Latest (ConcernsRestore action) earlier (.restored action receipt)

theorem ReplayedSame.cons {log : PayloadRecoveryLog Origin} (h : ReplayedSame log)
    {event : PayloadRecoveryEvent Origin}
    (hevent : ∀ action receipt, event = .replayed action receipt →
      EventLog.Latest (ConcernsRestore action) log (.restored action receipt)) :
    ReplayedSame (event :: log) := by
  intro later action receipt earlier hlog
  cases later with
  | nil =>
    obtain ⟨rfl, rfl⟩ := List.cons.inj hlog
    exact hevent action receipt rfl
  | cons head rest => exact h rest action receipt earlier (List.cons.inj hlog).2

theorem Valid.replayedSame_step (h : session.Valid) (hreplayed : ReplayedSame session.log)
    (hstep : PayloadRecoveryStep session.registry events next) :
    ReplayedSame (events ++ session.log) := by
  cases hstep with
  | idle | focused => exact hreplayed
  | prepared => exact (hreplayed.cons (by simp)).cons (by simp)
  | began | commitFailed | committed | restored | retired => exact hreplayed.cons (by simp)
  | replayed hsome =>
    apply hreplayed.cons
    rintro action receipt ⟨rfl, rfl⟩
    exact (h.restores.tracks _ _).mpr ((restoreReceipt_iff h.restores.actions).mp hsome)

theorem Valid.recoversOnce [DecidableEq Origin]
    (h : session.Valid) (hreplayed : ReplayedSame session.log) : session.RecoversOnce where
  one_committable _ _ _ _ _ _ hfirst hsecond hsame :=
    h.reserved.eq_of_liveIdentity (canCommit_mem hfirst) (canCommit_mem hsecond) hsame
  ended_never_commits token hended graph ownerRevision primarySpace primarySpaceIsLive := by
    have hstep := @commit_step Origin session.registry _ graph
      ownerRevision primarySpace primarySpaceIsLive token
    cases hresult : (session.registry.commit graph ownerRevision primarySpace primarySpaceIsLive
        token).1 with
    | error error => exact ⟨error, rfl⟩
    | ok receipt =>
      rw [hresult] at hstep
      generalize (session.registry.commit graph ownerRevision primarySpace primarySpaceIsLive
        token).2 = next at hstep
      cases hstep with
      | committed hmem => exact absurd hmem (h.reserved.ended token hended)
  consumed_committed recovery hmem := h.accounted.recorded recovery (mem_append_right _ hmem)
  consumed_once := (nodup_append.mp h.accounted.consumed).2.1
  replayed_same := hreplayed
  replays_until_retired action receipt hlatest graph ownerRevision activeAnchor prepared hsame := by
    subst hsame
    have hkept : session.registry.committedRestoreReceipt prepared.action = some receipt :=
      (restoreReceipt_iff h.restores.actions).mpr ((h.restores.tracks _ _).mp hlatest)
    constructor
    · rw [canCommitRestore, hkept]
    · rw [commitPreparedRestore, hkept]

theorem began_not_mem_preparedEvents (authority : PayloadRecoveryAuthority)
    (result : Except PayloadRecoveryPrepareError (PayloadRecoveryPrepared Origin)) :
    .began authority ∉ preparedEvents result := by
  cases result <;> simp [preparedEvents]

variable {registry : PayloadRecoveryRegistry Origin}

theorem began_mem_beginEvents {began : PayloadRecoveryAuthority} {reason : PayloadRecoveryReason}
    (hmem : .began began ∈ registry.beginEvents authority reason) : began = authority := by
  rw [beginEvents] at hmem
  cases hbegun : registry.beginPreparation authority reason with
  | ok begun => simpa [hbegun] using hmem
  | error error => simp [hbegun] at hmem

/-- An attempt for a live identity is one the command makes. -/
theorem attempted_of_began [DecidableEq Origin] {command : PayloadRecoveryCommand Origin}
    (hperform : registry.perform command = some (events, next)) (hmem : .began authority ∈ events) :
    command.attempted = some authority := by
  cases command with
  | prepare graph ownerRevision attempted payloadIdentity reason focus presentationOrigin =>
    obtain ⟨outcome, -, hresult⟩ := map_eq_some_iff.mp hperform
    rw [← (Prod.mk.inj hresult).1] at hmem
    rcases mem_append.mp hmem with hprepared | hbegin
    · exact absurd hprepared (began_not_mem_preparedEvents _ _)
    · rw [began_mem_beginEvents hbegin]
      rfl
  | prepareUnresolved graph ownerRevision attempted payloadIdentity reason unresolved
      presentationOrigin =>
      obtain ⟨outcome, -, hresult⟩ := map_eq_some_iff.mp hperform
      rw [← (Prod.mk.inj hresult).1] at hmem
      rcases mem_append.mp hmem with hprepared | hbegin
      · exact absurd hprepared (began_not_mem_preparedEvents _ _)
      · split at hbegin
        · cases hbegin
        · rw [began_mem_beginEvents hbegin]
          rfl
  | commit graph ownerRevision primarySpace primarySpaceIsLive token =>
    obtain ⟨rfl, -⟩ := Prod.mk.inj (some.inj hperform)
    rw [mem_singleton] at hmem
    unfold commitEvent at hmem
    split at hmem <;> cases hmem
  | commitPreparedRestore graph ownerRevision activeAnchor prepared =>
    rw [perform] at hperform
    split at hperform
    · obtain ⟨outcome, -, hresult⟩ := map_eq_some_iff.mp hperform
      rw [← (Prod.mk.inj hresult).1, mem_singleton, restoreEvent] at hmem
      split at hmem <;> cases hmem
    · obtain ⟨rfl, -⟩ := Prod.mk.inj (some.inj hperform)
      cases hmem
  | retireCommittedRestore action receipt =>
    obtain ⟨rfl, -⟩ := Prod.mk.inj (some.inj hperform)
    split at hmem
    · simp at hmem
    · cases hmem
  | bindVisibleEntryFocus | settleEntryFocus | prepareRestore =>
    obtain ⟨rfl, -⟩ := Prod.mk.inj (some.inj hperform)
    cases hmem

theorem began_of_prepared {before : PayloadRecoveryRegistry Origin} (hstep :
    PayloadRecoveryStep before events next)
    {token : PayloadRecoveryPrepared Origin} (hmem : .prepared token ∈ events) :
    .began token.authority ∈ events := by
  cases hstep with
  | prepared =>
    rcases mem_cons.mp hmem with hsame | hother
    · cases hsame
      exact mem_cons_of_mem _ mem_cons_self
    · simp at hother
  | idle | began | commitFailed | committed | focused | restored | replayed | retired =>
    simp at hmem

variable {commands : List (PayloadRecoveryCommand Origin)} {last : PayloadRecoverySession Origin}

theorem run_keeps [DecidableEq Origin] (hrun : machine.run new commands = some last) :
    last.Valid ∧ ReplayedSame last.log := by
  apply @invariant_of_run _ _ _ machine _
    (fun session : PayloadRecoverySession Origin => session.Valid ∧ ReplayedSame session.log) _
    _ _ ⟨valid_new, _⟩ hrun
  · rintro session command events next ⟨hvalid, hreplayed⟩ hstep
    obtain ⟨⟨logged, registry⟩, hperform, hresult⟩ := map_eq_some_iff.mp hstep
    obtain ⟨rfl, rfl⟩ := Prod.mk.inj hresult
    have hregistry := perform_step hperform
    exact ⟨hvalid.step hregistry, hvalid.replayedSame_step hreplayed hregistry⟩
  · intro later action receipt earlier hlog
    simp [new] at hlog

theorem run_unrepeated [DecidableEq Origin] (halong : machine.Along Unconsumed new commands)
    (hrun : machine.run new commands = some last) : last.Valid ∧ last.Unrepeated := by
  apply @run_induction _ _ _ machine _ Unconsumed
    (fun session : PayloadRecoverySession Origin => session.Valid ∧ session.Unrepeated)
    _ _ _ ⟨valid_new, unrepeated_new⟩ halong hrun
  rintro session command events next ⟨hvalid, hunrepeated⟩ hcondition hstep
  obtain ⟨⟨logged, registry⟩, hperform, hresult⟩ := map_eq_some_iff.mp hstep
  obtain ⟨rfl, rfl⟩ := Prod.mk.inj hresult
  have hregistry := perform_step hperform
  refine ⟨hvalid.step hregistry, hunrepeated.step hvalid hregistry ?_⟩
  intro token hmem
  exact hcondition token.authority (attempted_of_began hperform (began_of_prepared hregistry hmem))

/-- Recovery crosses the durable boundary once: every run recovers once, and no authority
commits twice in a run that attempts none whose record a restore has consumed. -/
theorem recovery_is_durable_once [DecidableEq Origin]
    {commands : List (PayloadRecoveryCommand Origin)} {last : PayloadRecoverySession Origin}
    (hrun : machine.run new commands = some last) :
    last.RecoversOnce ∧
      (machine.Along Unconsumed new commands → (committedAuthorities last.log).Nodup) := by
  obtain ⟨hvalid, hreplayed⟩ := run_keeps hrun
  refine ⟨hvalid.recoversOnce hreplayed, ?_⟩
  intro halong
  exact (run_unrepeated halong hrun).2.commits

def lostLease : WindowSessionLease := ⟨1, 1, 7⟩

def lostAuthority : PayloadRecoveryAuthority :=
  .committedDestination ⟨⟨lostLease, 1⟩, 1⟩ 1 (.sameWindowDesktop 7)

def lostGraph : DockGraph :=
  let inserted := DockGraph.new.insertNode (.tabs ["editor"] (some "editor"))
  inserted.2.setRoot "main" inserted.1

variable (generation : Nat)

def lostToken : PayloadRecoveryPrepared Unit :=
  ⟨generation, 0, lostAuthority, .item "main" 0 "editor", .survived .originalLocation,
    .lostViewportRecovery, none, none⟩

/-- The payload of a lost viewport is prepared and its recovery commits. -/
def recoverLost : List (PayloadRecoveryCommand Unit) :=
  [.prepare lostGraph 0 lostAuthority (.item "main" 0 "editor") .lostViewportRecovery none none,
    .commit lostGraph 0 "main" true (lostToken generation)]

def lostAction : PayloadRecoveryRestoreAction :=
  ⟨⟨1, lostAuthority, .visibleRecoveryEntry⟩, lostLease⟩

/-- The restore that the registry prepares for the committed recovery. -/
def restoreLost : List (PayloadRecoveryCommand Unit) :=
  match machine.run new (recoverLost 1) with
  | none => []
  | some session =>
    match session.registry.prepareRestore lostGraph 0 "main" (some lostLease) lostAction with
    | .error _ => []
    | .ok restore =>
      List.replicate 2 (.commitPreparedRestore lostGraph 0 (some lostLease) restore)

/-- Once its record is consumed, the authority is admitted and commits again. -/
theorem consumed_authority_commits_again : ∃ last : PayloadRecoverySession Unit,
      machine.run new (recoverLost 1 ++ restoreLost ++ recoverLost 2) = some last ∧
        ¬ (committedAuthorities last.log).Nodup :=
  ⟨_, rfl, by decide⟩

/-- The same run without the second attempt. -/
theorem lostViewport_is_durable_once : ∃ last : PayloadRecoverySession Unit,
      machine.run new (recoverLost 1 ++ restoreLost) = some last ∧ last.log.length = 5 ∧
        last.RecoversOnce ∧ (committedAuthorities last.log).Nodup := by
  have halong : machine.Along Unconsumed new (recoverLost 1 ++ restoreLost) := by
    have hholds : machine.holdsAlong
        (fun session command => decide (Unconsumed session command)) new
        (recoverLost 1 ++ restoreLost) = true := by decide
    exact (holdsAlong_iff.mp hholds).mono fun _ _ => of_decide_eq_true
  refine ⟨_, rfl, by decide, ?_⟩
  obtain ⟨honce, hcommits⟩ := @recovery_is_durable_once Unit _ (recoverLost 1 ++ restoreLost) _ rfl
  exact ⟨honce, hcommits halong⟩

end PayloadRecoverySession

end OpenGpui.Docking
