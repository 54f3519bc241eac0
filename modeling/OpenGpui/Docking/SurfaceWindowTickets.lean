/-
The tickets of a shutdown against the log: which windows and dependencies are tracked,
what has last happened to each, and when the runtime was last found empty.
-/
import OpenGpui.Docking.SurfaceWindowSteps

namespace OpenGpui.Docking

open List

section TicketLists

variable {κ τ : Type} [DecidableEq κ] {key : τ → κ}

/-- Where no two tickets have a key in common, the first with a key is all of them. -/
theorem updateTicket_eq_map {target : κ} {update : τ → τ} {tickets : List τ}
    (hnodup : (tickets.map key).Nodup) :
    updateTicket key target update tickets =
      tickets.map fun ticket => if key ticket = target then update ticket else ticket := by
  induction tickets with
  | nil => rfl
  | cons ticket rest ih =>
    rw [map_cons, nodup_cons] at hnodup
    rw [updateTicket, map_cons]
    by_cases hkey : key ticket = target
    · have hrest : (rest.map fun ticket =>
          if key ticket = target then update ticket else ticket) = rest := by
        have hsame : ∀ other ∈ rest,
            (if key other = target then update other else other) = id other := by
          intro other hother
          apply if_neg
          intro hother'
          exact hnodup.1 (mem_map.mpr ⟨other, hother, hother'.trans hkey.symm⟩)
        rw [map_congr_left hsame, map_id]
      rw [if_pos hkey, if_pos hkey, hrest]
    · rw [if_neg hkey, if_neg hkey, ih hnodup.2]

structure Collected (key : τ → κ) (pending : κ → τ) (wanted : κ → Prop) (tickets : List τ) :
    Prop where
  nodup : (tickets.map key).Nodup
  keys : ∀ k, k ∈ tickets.map key ↔ wanted k
  pending : ∀ ticket ∈ tickets, ∃ k, ticket = pending k

theorem collectTickets_collected {pending : κ → τ} (hkey : ∀ k, key (pending k) = k)
    (skip : κ → Bool) (keys : List κ) :
    Collected key pending (fun k => k ∈ keys ∧ skip k = false)
      (collectTickets key pending skip keys) := by
  have hfold : ∀ (tickets : List τ) (wanted : κ → Prop), Collected key pending wanted tickets →
        Collected key pending (fun k => wanted k ∨ (k ∈ keys ∧ skip k = false))
          (keys.foldl (fun tickets next =>
            if skip next || tickets.any (fun ticket => decide (key ticket = next)) then tickets
            else tickets ++ [pending next]) tickets) := by
    induction keys with
    | nil =>
      intro tickets wanted h
      exact ⟨h.nodup, by simpa using h.keys, h.pending⟩
    | cons next rest ih =>
      intro tickets wanted h
      rw [foldl_cons]
      have hknown : tickets.any (fun ticket => decide (key ticket = next)) = true ↔
          wanted next := by
        rw [← h.keys next]
        simp
      by_cases hdropped : (skip next ||
          tickets.any (fun ticket => decide (key ticket = next))) = true
      · rw [if_pos hdropped]
        have hrest := ih tickets wanted h
        refine ⟨hrest.nodup, ?_, hrest.pending⟩
        intro k
        rw [hrest.keys, mem_cons]
        rw [Bool.or_eq_true, hknown] at hdropped
        constructor
        · tauto
        · rintro (hwanted | ⟨rfl | hlater, hskip⟩)
          · exact .inl hwanted
          · rcases hdropped with hskip' | hwanted
            · rw [hskip] at hskip'
              cases hskip'
            · exact .inl hwanted
          · exact .inr ⟨hlater, hskip⟩
      · rw [if_neg hdropped]
        rw [Bool.or_eq_true, not_or, hknown, Bool.not_eq_true] at hdropped
        have hadded : Collected key pending (fun k => wanted k ∨ k = next)
            (tickets ++ [pending next]) := by
          constructor
          · rw [map_append, map_singleton, hkey, nodup_append]
            refine ⟨h.nodup, nodup_cons.mpr ⟨not_mem_nil, nodup_nil⟩, ?_⟩
            rintro k hk _ hk' rfl
            rw [mem_singleton.mp hk', h.keys] at hk
            exact hdropped.2 hk
          · intro k
            rw [map_append, map_singleton, hkey, mem_append, h.keys, mem_singleton]
          · intro ticket hticket
            rcases mem_append.mp hticket with hold | hnew
            · exact h.pending ticket hold
            · exact ⟨next, mem_singleton.mp hnew⟩
        have hrest := ih _ _ hadded
        refine ⟨hrest.nodup, ?_, hrest.pending⟩
        intro k
        rw [hrest.keys, mem_cons]
        constructor
        · rintro ((hwanted | rfl) | hlater)
          · exact .inl hwanted
          · exact .inr ⟨.inl rfl, hdropped.1⟩
          · exact .inr ⟨.inr hlater.1, hlater.2⟩
        · rintro (hwanted | ⟨rfl | hlater, hskip⟩)
          · exact .inl (.inl hwanted)
          · exact .inl (.inr rfl)
          · exact .inr ⟨hlater, hskip⟩
  have hempty : Collected key pending (fun _ => False) [] := ⟨nodup_nil, by simp, by simp⟩
  have hall := hfold [] _ hempty
  refine ⟨hall.nodup, ?_, hall.pending⟩
  intro k
  exact (hall.keys k).trans (iff_of_eq (false_or _))

/-- The ticket of the anchor stays the last. -/
theorem insertBeforeAnchor_eq {anchor : WindowId} {ticket anchorTicket : TerminalTicket}
    {front : List TerminalTicket} (hanchor : anchorTicket.windowId = anchor)
    (hnodup : ((front ++ [anchorTicket]).map TerminalTicket.windowId).Nodup) :
    insertBeforeAnchor anchor ticket (front ++ [anchorTicket]) =
      (front ++ [ticket]) ++ [anchorTicket] := by
  induction front with
  | nil => simp [insertBeforeAnchor, hanchor]
  | cons first rest ih =>
    rw [cons_append, map_cons, nodup_cons] at hnodup
    have hne : first.windowId ≠ anchor := by
      intro hsame
      apply hnodup.1
      rw [map_append, hsame, ← hanchor]
      exact mem_append_right _ mem_cons_self
    have hrest := ih hnodup.2
    rw [insertBeforeAnchor] at hrest ⊢
    simp [findIdx_cons, hne, hrest]

end TicketLists

namespace SurfaceWindowEvent

def lease : SurfaceWindowEvent → Option WindowSessionLease
  | reserved _ => none
  | began lease _ _ | adopted lease _ | window lease _ _ | dependencyEnded lease _
  | emptied lease => some lease

def reservedGeneration : SurfaceWindowEvent → Option Nat
  | reserved generation => some generation
  | _ => none

variable (lease : WindowSessionLease)

/-- The event gives the window a ticket; the anchor gets one when the shutdown begins. -/
def TracksWindow (windowId : WindowId) :
    SurfaceWindowEvent → Prop
  | began other windows _ => other = lease ∧ (windowId ∈ windows ∨ windowId = lease.anchor)
  | adopted other adoptedId => other = lease ∧ adoptedId = windowId
  | _ => False

def TracksDependency (dependency : DependencyId) :
    SurfaceWindowEvent → Prop
  | began other _ dependencies => other = lease ∧ dependency ∈ dependencies
  | _ => False

/-- The event adds tickets to the shutdown. -/
def Adopts : SurfaceWindowEvent → Prop
  | began other _ _ => other = lease
  | adopted other _ => other = lease
  | _ => False

def outcome (lease : WindowSessionLease) (windowId : WindowId) :
    SurfaceWindowEvent → Option WindowOutcome
  | window other otherId outcome =>
    if other = lease ∧ otherId = windowId then some outcome else none
  | _ => none

end SurfaceWindowEvent

open SurfaceWindowEvent

/-- What has happened to a window of a shutdown, the newest first. -/
def windowOutcomes (log : List SurfaceWindowEvent) (lease : WindowSessionLease)
    (windowId : WindowId) : List WindowOutcome :=
  log.filterMap (outcome lease windowId)

/-- A window is claimed at first and after a retry, a claim is retried, and nothing comes
after the end. -/
def WindowOutcome.MayFollow : WindowOutcome → Option WindowOutcome → Prop
  | claimed, none | claimed, some retried => True
  | retried, some claimed => True
  | settled, last => last ≠ some settled
  | _, _ => False

def Legal : List WindowOutcome → Prop
  | [] => True
  | newest :: earlier => newest.MayFollow earlier.head? ∧ Legal earlier

/-- The runtime was found empty after the last window had come. -/
def EmptiedSince (lease : WindowSessionLease) : List SurfaceWindowEvent → Prop
  | [] => True
  | event :: earlier => event = .emptied lease ∨ (¬event.Adopts lease ∧ EmptiedSince lease earlier)

/-- The state of a ticket tells what has last happened to its window. -/
def CloseTicketState.After : CloseTicketState → Option WindowOutcome → Prop
  | pending, last => last = none ∨ last = some .retried
  | dispatching, last | dispatched, last => last = some .claimed
  | terminal, last => last = some .settled

variable {state state' : CloseTicketState} {last : Option WindowOutcome}

theorem CloseTicketState.Moves.after
    {outcome : WindowOutcome} (h : state.Moves (some outcome) state') (hafter : state.After last) :
    outcome.MayFollow last ∧ state'.After (some outcome) := by
  cases h with
  | claim =>
    rcases hafter with rfl | rfl
    · exact ⟨trivial, rfl⟩
    · exact ⟨trivial, rfl⟩
  | retry =>
    obtain rfl : last = some .claimed := hafter
    exact ⟨trivial, .inr rfl⟩
  | settle h =>
    refine ⟨?_, rfl⟩
    rintro rfl
    cases state with
    | terminal => exact h rfl
    | pending => rcases hafter with hlast | hlast <;> cases hlast
    | dispatching | dispatched => cases hafter

theorem CloseTicketState.Moves.after_none
    (h : state.Moves none state') (hafter : state.After last) :
    state'.After last := by
  cases h with
  | dispatch | stay => exact hafter

/-- All the tickets that a shutdown was given have come to their end. -/
structure Done (log : List SurfaceWindowEvent) (lease : WindowSessionLease) : Prop where
  windows : ∀ windowId, (∃ event ∈ log, event.TracksWindow lease windowId) →
    (windowOutcomes log lease windowId).head? = some .settled
  dependencies : ∀ dependency, (∃ event ∈ log, event.TracksDependency lease dependency) →
    .dependencyEnded lease dependency ∈ log
  emptied : EmptiedSince lease log

/-- The tickets of a shutdown that goes on are those the log speaks of. -/
structure Tracks (log : List SurfaceWindowEvent) (shutdown : WindowShutdown) : Prop where
  anchorLast : ∃ front anchorTicket, shutdown.terminalTickets = front ++ [anchorTicket] ∧
    anchorTicket.windowId = shutdown.lease.anchor
  nodup : (shutdown.terminalTickets.map TerminalTicket.windowId).Nodup
  windows : ∀ windowId, (∃ event ∈ log, event.TracksWindow shutdown.lease windowId) ↔
    windowId ∈ shutdown.terminalTickets.map TerminalTicket.windowId
  states : ∀ ticket ∈ shutdown.terminalTickets,
    ticket.state.After (windowOutcomes log shutdown.lease ticket.windowId).head?
  untracked : ∀ windowId ∉ shutdown.terminalTickets.map TerminalTicket.windowId,
    windowOutcomes log shutdown.lease windowId = []
  dependencyNodup : (shutdown.dependencyTickets.map DependencyTicket.id).Nodup
  dependencies : ∀ dependency, (∃ event ∈ log, event.TracksDependency shutdown.lease dependency) ↔
      dependency ∈ shutdown.dependencyTickets.map DependencyTicket.id
  ended : ∀ ticket ∈ shutdown.dependencyTickets, ticket.terminal.isSome = true →
    .dependencyEnded shutdown.lease ticket.id ∈ log
  emptied : shutdown.runtimeEmpty = true → EmptiedSince shutdown.lease log

variable {log : List SurfaceWindowEvent} {event : SurfaceWindowEvent}
  {lease : WindowSessionLease}

theorem windowOutcomes_cons_of_none {windowId : WindowId}
    (h : event.outcome lease windowId = none) :
    windowOutcomes (event :: log) lease windowId = windowOutcomes log lease windowId :=
  filterMap_cons_none h

section

variable (h : event.lease ≠ some lease)

include h

variable (windowId : WindowId)

theorem outcome_of_lease_ne : event.outcome lease windowId = none := by
  cases event with
  | window other otherId result =>
    have hne : other ≠ lease := fun hsame => h (congrArg some hsame)
    simp [SurfaceWindowEvent.outcome, hne]
  | reserved | began | adopted | dependencyEnded | emptied => rfl

theorem not_tracksWindow_of_lease_ne : ¬event.TracksWindow lease windowId := by
  cases event with
  | began other windows dependencies | adopted other adoptedId =>
    exact fun htracks => h (congrArg some htracks.1)
  | reserved | window | dependencyEnded | emptied => exact id

theorem not_tracksDependency_of_lease_ne
    (dependency : DependencyId) : ¬event.TracksDependency lease dependency := by
  cases event with
  | began other windows dependencies => exact fun htracks => h (congrArg some htracks.1)
  | adopted | reserved | window | dependencyEnded | emptied => exact id

theorem not_adopts_of_lease_ne : ¬event.Adopts lease := by
  cases event with
  | began other windows dependencies | adopted other adoptedId =>
    exact fun htracks => h (congrArg some htracks)
  | reserved | window | dependencyEnded | emptied => exact id

end

/-- An event of another lease leaves the end of a shutdown alone. -/
theorem Done.cons (hdone : Done log lease) (h : event.lease ≠ some lease) :
    Done (event :: log) lease where
  windows := by
    rintro windowId ⟨other, hmem, htracks⟩
    rw [windowOutcomes_cons_of_none (outcome_of_lease_ne h windowId)]
    rcases mem_cons.mp hmem with rfl | hold
    · exact absurd htracks (not_tracksWindow_of_lease_ne h windowId)
    · exact hdone.windows windowId ⟨other, hold, htracks⟩
  dependencies := by
    rintro dependency ⟨other, hmem, htracks⟩
    rcases mem_cons.mp hmem with rfl | hold
    · exact absurd htracks (not_tracksDependency_of_lease_ne h dependency)
    · exact mem_cons_of_mem _ (hdone.dependencies dependency ⟨other, hold, htracks⟩)
  emptied := .inr ⟨not_adopts_of_lease_ne h, hdone.emptied⟩

variable (h : ∀ event ∈ log, event.lease ≠ some lease)

include h

/-- Of a lease that no event is about, nothing is left to do. -/
theorem done_of_unlogged : Done log lease := by
  induction log with
  | nil => exact ⟨by simp, by simp, trivial⟩
  | cons event rest ih =>
    rw [forall_mem_cons] at h
    exact (ih h.2).cons h.1

theorem windowOutcomes_of_unlogged
    (windowId : WindowId) : windowOutcomes log lease windowId = [] := by
  rw [windowOutcomes, filterMap_eq_nil_iff]
  exact fun event hmem => outcome_of_lease_ne (h event hmem) windowId

end OpenGpui.Docking
