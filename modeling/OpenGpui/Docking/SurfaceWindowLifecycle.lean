/-
The lifecycle of a surface window session over whole runs: generations grow, a lease that
has ended is never admitted again, the windows are claimed, retried and settled in a legal
order, and the session closes when all its tickets have come to their end.
-/
import OpenGpui.Docking.SurfaceWindowTickets

namespace OpenGpui.Docking

open List Machine SurfaceWindowRun SurfaceWindowSession Nat TerminalTicket

open SurfaceWindowEvent

section Steps

variable {log : List SurfaceWindowEvent} {shutdown : WindowShutdown}

theorem tracks_begin {lease : WindowSessionLease}
    (hunlogged : ∀ event ∈ log, event.lease ≠ some lease) (reason : ShutdownReason)
    (windows : List WindowId) (dependencies : List DependencyId) :
    Tracks (.began lease windows dependencies :: log) ⟨lease, reason, false,
      collectTickets TerminalTicket.windowId pending
        (fun windowId => decide (windowId = lease.anchor)) windows ++ [pending lease.anchor],
      collectTickets DependencyTicket.id DependencyTicket.pending (fun _ => false)
        dependencies⟩ := by
  have hwindows := @collectTickets_collected _ _ _ TerminalTicket.windowId
    pending (fun _ => rfl) (fun windowId => decide (windowId = lease.anchor))
    windows
  have hdependencies := @collectTickets_collected _ _ _ DependencyTicket.id
    DependencyTicket.pending (fun _ => rfl) (fun _ => false) dependencies
  have houtcomes : ∀ windowId,
      windowOutcomes (.began lease windows dependencies :: log) lease windowId = [] := by
    intro windowId
    exact windowOutcomes_of_unlogged hunlogged windowId
  constructor
  · exact ⟨_, _, rfl, rfl⟩
  · rw [map_append, nodup_append]
    refine ⟨hwindows.nodup, by simp, ?_⟩
    rintro windowId hmem _ hanchor rfl
    obtain rfl := mem_singleton.mp hanchor
    have hwanted := (hwindows.keys _).mp hmem
    simp [pending] at hwanted
  · intro windowId
    rw [map_append, mem_append, hwindows.keys]
    constructor
    · rintro ⟨event, hmem, htracks⟩
      rcases mem_cons.mp hmem with rfl | hold
      · by_cases hanchor : windowId = lease.anchor
        · exact .inr (mem_singleton.mpr hanchor)
        · exact .inl ⟨htracks.2.resolve_right hanchor, decide_eq_false hanchor⟩
      · exact absurd htracks (not_tracksWindow_of_lease_ne (hunlogged event hold) windowId)
    · rintro (⟨hwanted, _⟩ | hanchor)
      · exact ⟨_, mem_cons_self, rfl, .inl hwanted⟩
      · exact ⟨_, mem_cons_self, rfl, .inr (mem_singleton.mp hanchor)⟩
  · intro ticket hticket
    rw [houtcomes]
    rcases mem_append.mp hticket with hcollected | hanchor
    · obtain ⟨windowId, rfl⟩ := hwindows.pending ticket hcollected
      exact .inl rfl
    · rw [mem_singleton.mp hanchor]
      exact .inl rfl
  · exact fun windowId _ => houtcomes windowId
  · exact hdependencies.nodup
  · intro dependency
    rw [hdependencies.keys]
    constructor
    · rintro ⟨event, hmem, htracks⟩
      rcases mem_cons.mp hmem with rfl | hold
      · exact ⟨htracks.2, rfl⟩
      · exact absurd htracks (not_tracksDependency_of_lease_ne (hunlogged event hold) dependency)
    · rintro ⟨hwanted, _⟩
      exact ⟨_, mem_cons_self, rfl, hwanted⟩
  · intro ticket hticket hterminal
    obtain ⟨dependency, rfl⟩ := hdependencies.pending ticket hticket
    cases hterminal
  · intro hempty
    cases hempty

variable {windowId : WindowId}

theorem findTicket_eq_none_iff : shutdown.findTicket windowId = none ↔
      windowId ∉ shutdown.terminalTickets.map TerminalTicket.windowId := by
  simp [WindowShutdown.findTicket]

variable {ticket : TerminalTicket}

theorem findTicket_eq_some (h : shutdown.findTicket windowId = some ticket) :
    ticket ∈ shutdown.terminalTickets ∧ ticket.windowId = windowId :=
  ⟨mem_of_find?_eq_some h, by simpa using find?_some h⟩

theorem Tracks.adopt (h : Tracks log shutdown) (hnew : shutdown.findTicket windowId = none) :
    Tracks (.adopted shutdown.lease windowId :: log) { shutdown with
      terminalTickets := insertBeforeAnchor shutdown.lease.anchor (.pending windowId)
        shutdown.terminalTickets
      runtimeEmpty := false } := by
  rw [findTicket_eq_none_iff] at hnew
  obtain ⟨front, anchorTicket, htickets, hanchor⟩ := h.anchorLast
  have hnodup := h.nodup
  rw [htickets] at hnodup
  have hinsert : insertBeforeAnchor shutdown.lease.anchor (.pending windowId)
      shutdown.terminalTickets = (front ++ [pending windowId]) ++ [anchorTicket] := by
    rw [htickets]
    exact insertBeforeAnchor_eq hanchor hnodup
  have hperm : ((front ++ [pending windowId]) ++ [anchorTicket]).Perm
      (pending windowId :: shutdown.terminalTickets) := by
    rw [htickets, append_assoc]
    exact perm_middle
  have hmem : ∀ other, other ∈ ((front ++ [pending windowId]) ++ [anchorTicket]).map
      TerminalTicket.windowId ↔ other = windowId ∨
        other ∈ shutdown.terminalTickets.map TerminalTicket.windowId := by
    intro other
    rw [(hperm.map TerminalTicket.windowId).mem_iff, map_cons, mem_cons]
    rfl
  rw [hinsert]
  constructor
  · exact ⟨_, _, rfl, hanchor⟩
  · rw [(hperm.map TerminalTicket.windowId).nodup_iff, map_cons, nodup_cons]
    exact ⟨hnew, h.nodup⟩
  · intro other
    rw [hmem, ← h.windows]
    constructor
    · rintro ⟨event, hevent, htracks⟩
      rcases mem_cons.mp hevent with rfl | hold
      · exact .inl htracks.2.symm
      · exact .inr ⟨event, hold, htracks⟩
    · rintro (rfl | ⟨event, hold, htracks⟩)
      · exact ⟨_, mem_cons_self, rfl, rfl⟩
      · exact ⟨event, mem_cons_of_mem _ hold, htracks⟩
  · intro ticket hticket
    rcases mem_cons.mp (hperm.subset hticket) with rfl | hold
    · left
      change (windowOutcomes log shutdown.lease windowId).head? = none
      rw [h.untracked windowId hnew]
      rfl
    · exact h.states ticket hold
  · intro other hother
    rw [hmem, not_or] at hother
    exact h.untracked other hother.2
  · exact h.dependencyNodup
  · intro dependency
    rw [← h.dependencies]
    constructor
    · rintro ⟨event, hevent, htracks⟩
      rcases mem_cons.mp hevent with rfl | hold
      · cases htracks
      · exact ⟨event, hold, htracks⟩
    · rintro ⟨event, hold, htracks⟩
      exact ⟨event, mem_cons_of_mem _ hold, htracks⟩
  · exact fun ticket hticket hterminal =>
      mem_cons_of_mem _ (h.ended ticket hticket hterminal)
  · intro hempty
    cases hempty

/-- What an event leaves alone that gives no ticket and speaks of no window. -/
theorem exists_mem_cons_iff {event : SurfaceWindowEvent} {concerns : SurfaceWindowEvent → Prop}
    (h : ¬concerns event) :
    (∃ other ∈ event :: log, concerns other) ↔ ∃ other ∈ log, concerns other := by
  simp [h]

variable (h : Tracks log shutdown)

include h

theorem Tracks.endDependency (dependency : DependencyId)
    (disposition : DependencyTerminalDisposition) :
    Tracks (.dependencyEnded shutdown.lease dependency :: log) { shutdown with
      dependencyTickets := updateTicket DependencyTicket.id dependency
        (fun ticket => { ticket with terminal := some disposition })
        shutdown.dependencyTickets } := by
  rw [updateTicket_eq_map h.dependencyNodup]
  have hids : (shutdown.dependencyTickets.map fun ticket =>
      if ticket.id = dependency then { ticket with terminal := some disposition }
        else ticket).map DependencyTicket.id =
      shutdown.dependencyTickets.map DependencyTicket.id := by
    rw [map_map]
    apply map_congr_left
    intro ticket _
    by_cases hid : ticket.id = dependency
    · simp [hid]
    · simp [hid]
  constructor
  · exact h.anchorLast
  · exact h.nodup
  · intro windowId
    rw [exists_mem_cons_iff id]
    exact h.windows windowId
  · intro ticket hticket
    exact h.states ticket hticket
  · intro windowId hwindow
    exact h.untracked windowId hwindow
  · rw [hids]
    exact h.dependencyNodup
  · intro other
    rw [hids, exists_mem_cons_iff id]
    exact h.dependencies other
  · intro ticket hticket hterminal
    obtain ⟨old, hold, rfl⟩ := mem_map.mp hticket
    by_cases hid : old.id = dependency
    · rw [if_pos hid, ← hid]
      exact mem_cons_self
    · rw [if_neg hid] at hterminal ⊢
      exact mem_cons_of_mem _ (h.ended old hold hterminal)
  · exact fun hempty => .inr ⟨id, h.emptied hempty⟩

theorem Tracks.empty :
    Tracks (.emptied shutdown.lease :: log) { shutdown with runtimeEmpty := true } := by
  constructor
  · exact h.anchorLast
  · exact h.nodup
  · intro windowId
    rw [exists_mem_cons_iff id]
    exact h.windows windowId
  · intro ticket hticket
    exact h.states ticket hticket
  · intro windowId hwindow
    exact h.untracked windowId hwindow
  · exact h.dependencyNodup
  · intro dependency
    rw [exists_mem_cons_iff id]
    exact h.dependencies dependency
  · exact fun ticket hticket hterminal =>
      mem_cons_of_mem _ (h.ended ticket hticket hterminal)
  · exact fun _ => .inl rfl

section

variable {state : CloseTicketState} (hticket : shutdown.findTicket windowId = some ticket)

include hticket

/-- The tickets with one of them moved. -/
theorem Tracks.setTicket {log' : List SurfaceWindowEvent}
    (htracks : ∀ other, (∃ event ∈ log', event.TracksWindow shutdown.lease other) ↔
      ∃ event ∈ log, event.TracksWindow shutdown.lease other) (hdependencies : ∀ dependency,
      (∃ event ∈ log', event.TracksDependency shutdown.lease dependency) ↔
        ∃ event ∈ log, event.TracksDependency shutdown.lease dependency) (hsubset : log ⊆ log')
    (hothers : ∀ other ≠ windowId,
      windowOutcomes log' shutdown.lease other = windowOutcomes log shutdown.lease other)
    (hstate : state.After (windowOutcomes log' shutdown.lease windowId).head?)
    (hemptied : EmptiedSince shutdown.lease log → EmptiedSince shutdown.lease log') :
    Tracks log' (shutdown.setTicket windowId state) := by
  obtain ⟨hmem, hid⟩ := findTicket_eq_some hticket
  have hids : (shutdown.setTicket windowId state).terminalTickets.map
      TerminalTicket.windowId = shutdown.terminalTickets.map TerminalTicket.windowId := by
    rw [WindowShutdown.setTicket, updateTicket_eq_map h.nodup, map_map]
    apply map_congr_left
    intro other _
    by_cases hother : other.windowId = windowId
    · simp [hother]
    · simp [hother]
  have hcases : ∀ other ∈ (shutdown.setTicket windowId state).terminalTickets, other = ⟨windowId,
      state⟩ ∨ (other ∈ shutdown.terminalTickets ∧ other.windowId ≠ windowId) := by
    intro other hother
    rw [WindowShutdown.setTicket, updateTicket_eq_map h.nodup] at hother
    obtain ⟨old, hold, rfl⟩ := mem_map.mp hother
    by_cases hsame : old.windowId = windowId
    · left
      simp [hsame]
    · right
      rw [if_neg hsame]
      exact ⟨hold, hsame⟩
  constructor
  · obtain ⟨front, anchorTicket, htickets, hanchor⟩ := h.anchorLast
    rw [WindowShutdown.setTicket, updateTicket_eq_map h.nodup]
    refine ⟨_, _, by rw [htickets, map_append, map_singleton], ?_⟩
    by_cases hsame : anchorTicket.windowId = windowId
    · rw [if_pos hsame]
      exact hanchor
    · rw [if_neg hsame]
      exact hanchor
  · rw [hids]
    exact h.nodup
  · intro other
    rw [hids]
    exact (htracks other).trans (h.windows other)
  · intro other hother
    rcases hcases other hother with rfl | ⟨hold, hne⟩
    · exact hstate
    · change other.state.After (windowOutcomes log' shutdown.lease other.windowId).head?
      rw [hothers _ hne]
      exact h.states other hold
  · intro other hother
    rw [hids] at hother
    have hne : other ≠ windowId := by
      rintro rfl
      exact hother (mem_map.mpr ⟨ticket, hmem, hid⟩)
    exact (hothers other hne).trans (h.untracked other hother)
  · exact h.dependencyNodup
  · exact fun dependency => (hdependencies dependency).trans (h.dependencies dependency)
  · exact fun other hother hterminal => hsubset (h.ended other hother hterminal)
  · exact fun hempty => hemptied (h.emptied hempty)

theorem Tracks.move {outcome : Option WindowOutcome} (hmoves : ticket.state.Moves outcome state) :
    Tracks ((outcome.map (.window shutdown.lease windowId)).toList ++ log)
      (shutdown.setTicket windowId state) := by
  obtain ⟨hmem, hid⟩ := findTicket_eq_some hticket
  have hafter := h.states ticket hmem
  rw [hid] at hafter
  cases outcome with
  | none =>
    exact h.setTicket hticket (fun _ => Iff.rfl) (fun _ => Iff.rfl) (fun _ => id)
      (fun _ _ => rfl) (hmoves.after_none hafter) id
  | some outcome =>
    have hhead : windowOutcomes (.window shutdown.lease windowId outcome :: log)
        shutdown.lease windowId = outcome :: windowOutcomes log shutdown.lease windowId := by
      simp [windowOutcomes, SurfaceWindowEvent.outcome]
    apply h.setTicket hticket
    · exact fun other => exists_mem_cons_iff id
    · exact fun dependency => exists_mem_cons_iff id
    · exact subset_cons_self _ _
    · intro other hother
      apply windowOutcomes_cons_of_none
      simp [SurfaceWindowEvent.outcome, hother.symm]
    · rw [Option.map_some, Option.toList_some, singleton_append, hhead]
      exact (hmoves.after hafter).2
    · exact fun hemptied => .inr ⟨id, hemptied⟩

end

/-- Nothing is left to do when the runtime is empty and no ticket is pending. -/
theorem Tracks.done (hempty : shutdown.runtimeEmpty = true)
    (hterminal : shutdown.pendingTerminalTickets = 0) : Done log shutdown.lease := by
  rw [WindowShutdown.pendingTerminalTickets, Nat.add_eq_zero_iff, length_eq_zero_iff,
    length_eq_zero_iff, filter_eq_nil_iff, filter_eq_nil_iff] at hterminal
  constructor
  · intro windowId htracks
    obtain ⟨ticket, hmem, rfl⟩ := mem_map.mp ((h.windows windowId).mp htracks)
    have hstate : ticket.state = .terminal := by
      simpa [isTerminal] using hterminal.1 ticket hmem
    have hafter := h.states ticket hmem
    rw [hstate] at hafter
    exact hafter
  · intro dependency htracks
    obtain ⟨ticket, hmem, rfl⟩ := mem_map.mp ((h.dependencies dependency).mp htracks)
    have hended := hterminal.2 ticket hmem
    exact h.ended ticket hmem (by
      simpa [DependencyTicket.isTerminal, Option.isSome_iff_ne_none] using hended)
  · exact h.emptied hempty

end Steps

theorem Tracks.anchorIsLast {log : List SurfaceWindowEvent} {shutdown : WindowShutdown}
    (h : Tracks log shutdown) :
    shutdown.terminalTickets.getLast?.map TerminalTicket.windowId = some shutdown.lease.anchor := by
  obtain ⟨front, anchorTicket, htickets, hanchor⟩ := h.anchorLast
  rw [htickets, getLast?_concat, Option.map_some, hanchor]

namespace SurfaceWindowSession

variable (session : SurfaceWindowSession)

/-- The phase is that of the newest generation. -/
def AtNewest : Prop :=
  match session.state with
  | .opening token => token.generation = session.lastGeneration
  | .active lease => lease.generation = session.lastGeneration
  | .shuttingDown shutdown => shutdown.lease.generation = session.lastGeneration
  | _ => True

/-- The leases that the log may speak of: those of earlier generations, and the one that
shuts down. -/
def MayBeLogged (lease : WindowSessionLease) : Prop :=
  match session.state with
  | .opening _ => lease.generation < session.lastGeneration
  | .active _ => lease.generation < session.lastGeneration
  | .shuttingDown shutdown =>
    lease.generation < session.lastGeneration ∨ lease = shutdown.lease
  | _ => lease.generation ≤ session.lastGeneration

/-- The ticket of the anchor is the last one. -/
def AnchorIsLast : Prop :=
  match session.state with
  | .shuttingDown shutdown =>
    shutdown.terminalTickets.getLast?.map TerminalTicket.windowId = some shutdown.lease.anchor
  | .closed closed =>
    closed.terminalTickets.getLast?.map TerminalTicket.windowId = closed.anchor
  | _ => True

end SurfaceWindowSession

namespace SurfaceWindowRun

structure Valid (run : SurfaceWindowRun) : Prop where
  reserved : (run.log.filterMap reservedGeneration).Pairwise (· > ·)
  reserved_le : ∀ generation ∈ run.log.filterMap reservedGeneration,
    generation ≤ run.session.lastGeneration
  newest : run.session.AtNewest
  logged : ∀ event ∈ run.log, ∀ lease, event.lease = some lease → run.session.MayBeLogged lease
  legal : ∀ lease windowId, Legal (windowOutcomes run.log lease windowId)
  tracks : ∀ shutdown, run.session.state = .shuttingDown shutdown → Tracks run.log shutdown
  done : ∀ lease, (∀ shutdown, run.session.state = .shuttingDown shutdown →
    shutdown.lease ≠ lease) → Done run.log lease
  anchorLast : run.session.AnchorIsLast

theorem start_valid (authority : EntityId) : (start authority).Valid where
  reserved := List.Pairwise.nil
  reserved_le := by simp [start]
  newest := trivial
  logged := by simp [start]
  legal _ _ := trivial
  tracks _ h := by cases h
  done _ _ := done_of_unlogged (by simp [start])
  anchorLast := trivial

variable {run : SurfaceWindowRun}

section

variable (h : run.Valid)

include h

/-- What goes on in a shutdown: the log grows by an event of its lease. -/
theorem Valid.shutdown {shutdown : WindowShutdown}
    (hphase : run.session.state = .shuttingDown shutdown) {next : WindowShutdown}
    {event : Option SurfaceWindowEvent}
    (hevent : ∀ entry ∈ event, entry.lease = some shutdown.lease) (hlegal : ∀ windowId,
      Legal (windowOutcomes (event.toList ++ run.log) shutdown.lease windowId))
    (htracks : Tracks (event.toList ++ run.log) next) (hlease : next.lease = shutdown.lease) :
    Valid ⟨{ run.session with state := .shuttingDown next }, event.toList ++ run.log⟩ := by
  have hothers : ∀ lease ≠ shutdown.lease, ∀ entry ∈ event, entry.lease ≠ some lease := by
    intro lease hne entry hentry hsame
    rw [hevent entry hentry, Option.some.injEq] at hsame
    exact hne hsame.symm
  have hreserved : (event.toList ++ run.log).filterMap reservedGeneration =
      run.log.filterMap reservedGeneration := by
    cases event with
    | none => rfl
    | some entry =>
      have hlogged := hevent entry rfl
      cases entry with
      | reserved generation => cases hlogged
      | began | adopted | window | dependencyEnded | emptied => rfl
  have hnewest := h.newest
  rw [SurfaceWindowSession.AtNewest, hphase] at hnewest
  constructor
  · rw [hreserved]
    exact h.reserved
  · rw [hreserved]
    exact h.reserved_le
  · change next.lease.generation = run.session.lastGeneration
    rw [hlease]
    exact hnewest
  · intro entry hmem lease hentry
    change lease.generation < run.session.lastGeneration ∨ lease = next.lease
    rw [hlease]
    rcases mem_append.mp hmem with hnew | hold
    · rw [hevent entry (Option.mem_toList.mp hnew), Option.some.injEq] at hentry
      exact .inr hentry.symm
    · have hlogged := h.logged entry hold lease hentry
      rw [SurfaceWindowSession.MayBeLogged, hphase] at hlogged
      exact hlogged
  · intro lease windowId
    by_cases hsame : lease = shutdown.lease
    · rw [hsame]
      exact hlegal windowId
    · have hsame' : windowOutcomes (event.toList ++ run.log) lease windowId =
          windowOutcomes run.log lease windowId := by
        cases event with
        | none => rfl
        | some entry =>
          exact windowOutcomes_cons_of_none
            (outcome_of_lease_ne (hothers lease hsame entry rfl) windowId)
      rw [hsame']
      exact h.legal lease windowId
  · rintro other ⟨rfl⟩
    exact htracks
  · intro lease hnot
    have hne : lease ≠ shutdown.lease := fun hsame => hnot next rfl (hlease.trans hsame.symm)
    have hdone : Done run.log lease := by
      apply h.done
      intro other hother
      rw [hphase, WindowSessionState.shuttingDown.injEq] at hother
      exact hother ▸ hne.symm
    cases event with
    | none => exact hdone
    | some entry => exact hdone.cons (hothers lease hne entry rfl)
  · exact htracks.anchorIsLast

theorem Valid.shutdownStep {shutdown : WindowShutdown}
    (hphase : run.session.state = .shuttingDown shutdown) {event : Option SurfaceWindowEvent}
    {state : WindowSessionState} (hstep : ShutdownStep shutdown event state) :
    Valid ⟨{ run.session with state := state }, event.toList ++ run.log⟩ := by
  have htracks := h.tracks shutdown hphase
  have hlegal := fun windowId => h.legal shutdown.lease windowId
  cases hstep with
  | idle => exact @Valid.shutdown _ h _ hphase shutdown none (by simp) hlegal htracks rfl
  | adopt hnew =>
    apply @Valid.shutdown _ h _ hphase _ (some _) (by rintro _ ⟨rfl⟩; rfl) _
      (htracks.adopt hnew) rfl
    intro windowId
    exact hlegal windowId
  | endDependency disposition =>
    apply @Valid.shutdown _ h _ hphase _ (some _) (by rintro _ ⟨rfl⟩; rfl) _
      (htracks.endDependency _ disposition) rfl
    intro windowId
    exact hlegal windowId
  | empty =>
    apply @Valid.shutdown _ h _ hphase _ (some _) (by rintro _ ⟨rfl⟩; rfl) _
      htracks.empty rfl
    intro windowId
    exact hlegal windowId
  | @move windowId ticket outcome state hticket hmoves =>
    apply h.shutdown hphase _ _ (htracks.move hticket hmoves) rfl
    · intro entry hentry
      obtain ⟨_, _, rfl⟩ := Option.map_eq_some_iff.mp hentry
      rfl
    · intro other
      cases outcome with
      | none => exact hlegal other
      | some outcome =>
        rw [Option.map_some, Option.toList_some, singleton_append]
        by_cases hsame : windowId = other
        · subst hsame
          have hhead : windowOutcomes (.window shutdown.lease windowId outcome :: run.log)
              shutdown.lease windowId =
              outcome :: windowOutcomes run.log shutdown.lease windowId := by
            simp [windowOutcomes, SurfaceWindowEvent.outcome]
          obtain ⟨hmem, hid⟩ := findTicket_eq_some hticket
          have hafter := htracks.states ticket hmem
          rw [hid] at hafter
          rw [hhead]
          exact ⟨(hmoves.after hafter).1, hlegal windowId⟩
        · rw [windowOutcomes_cons_of_none (by simp [SurfaceWindowEvent.outcome, hsame])]
          exact hlegal other
  | close hempty hterminal =>
    have hdone := htracks.done hempty hterminal
    constructor
    · exact h.reserved
    · exact h.reserved_le
    · trivial
    · intro entry hmem lease hentry
      have hlogged := h.logged entry hmem lease hentry
      have hnewest := h.newest
      rw [SurfaceWindowSession.MayBeLogged, hphase] at hlogged
      rw [SurfaceWindowSession.AtNewest, hphase] at hnewest
      rcases hlogged with hlt | rfl
      · exact hlt.le
      · exact hnewest.le
    · exact h.legal
    · intro other hother
      cases hother
    · intro lease _
      by_cases hsame : shutdown.lease = lease
      · exact hsame ▸ hdone
      · apply h.done
        intro other hother
        rw [hphase, WindowSessionState.shuttingDown.injEq] at hother
        exact hother ▸ hsame
    · exact htracks.anchorIsLast

/-- Between two shutdowns all of them are done. -/
theorem Valid.allDone (hphase : ∀ shutdown, run.session.state ≠ .shuttingDown shutdown)
    (lease : WindowSessionLease) : Done run.log lease :=
  h.done lease fun shutdown hshutdown => absurd hshutdown (hphase shutdown)

theorem Valid.step {event : Option SurfaceWindowEvent}
    {after : SurfaceWindowSession} (hstep : SessionStep run.session event after) :
    Valid ⟨after, event.toList ++ run.log⟩ := by
  cases hstep with
  | idle => exact h
  | reserve hphase =>
    have hnot : ∀ shutdown, run.session.state ≠ .shuttingDown shutdown := by
      rcases hphase with hvacant | ⟨closed, hclosed⟩
      · simp [hvacant]
      · simp [hclosed]
    constructor
    · change ((run.session.lastGeneration + 1) ::
        run.log.filterMap reservedGeneration).Pairwise (· > ·)
      rw [pairwise_cons]
      exact ⟨fun generation hmem => lt_succ_of_le (h.reserved_le generation hmem), h.reserved⟩
    · change ∀ generation ∈ (run.session.lastGeneration + 1) ::
        run.log.filterMap reservedGeneration, generation ≤ run.session.lastGeneration + 1
      rw [forall_mem_cons]
      exact ⟨le_refl _, fun generation hmem =>
        le_succ_of_le (h.reserved_le generation hmem)⟩
    · rfl
    · intro entry hmem lease hentry
      rcases mem_cons.mp hmem with rfl | hold
      · cases hentry
      · have hlogged := h.logged entry hold lease hentry
        apply lt_succ_of_le
        rcases hphase with hvacant | ⟨closed, hclosed⟩
        · rwa [SurfaceWindowSession.MayBeLogged, hvacant] at hlogged
        · rwa [SurfaceWindowSession.MayBeLogged, hclosed] at hlogged
    · intro lease windowId
      change Legal (windowOutcomes (.reserved _ :: run.log) lease windowId)
      rw [windowOutcomes_cons_of_none rfl]
      exact h.legal lease windowId
    · intro other hother
      cases hother
    · intro lease _
      exact (h.allDone hnot lease).cons (by simp [SurfaceWindowEvent.lease])
    · trivial
  | @activate token anchor hphase =>
    have hnewest := h.newest
    rw [SurfaceWindowSession.AtNewest, hphase] at hnewest
    constructor
    · exact h.reserved
    · exact h.reserved_le
    · exact hnewest
    · intro entry hmem lease hentry
      have hlogged := h.logged entry hmem lease hentry
      rwa [SurfaceWindowSession.MayBeLogged, hphase] at hlogged
    · exact h.legal
    · intro other hother
      cases hother
    · exact fun lease _ => h.allDone (by simp [hphase]) lease
    · trivial
  | rollBack hphase =>
    constructor
    · exact h.reserved
    · exact h.reserved_le
    · trivial
    · intro entry hmem lease hentry
      have hlogged := h.logged entry hmem lease hentry
      rw [SurfaceWindowSession.MayBeLogged, hphase] at hlogged
      exact hlogged.le
    · exact h.legal
    · intro other hother
      cases hother
    · exact fun lease _ => h.allDone (by simp [hphase]) lease
    · rfl
  | @begin lease reason windows dependencies hphase =>
    have hnewest := h.newest
    rw [SurfaceWindowSession.AtNewest, hphase] at hnewest
    have hlogged : ∀ entry ∈ run.log, ∀ other, entry.lease = some other →
        other.generation < run.session.lastGeneration := by
      intro entry hmem other hentry
      have hentryLogged := h.logged entry hmem other hentry
      rwa [SurfaceWindowSession.MayBeLogged, hphase] at hentryLogged
    have hunlogged : ∀ entry ∈ run.log, entry.lease ≠ some lease := by
      intro entry hmem hentry
      have hlt := hlogged entry hmem lease hentry
      omega
    have htracks := tracks_begin hunlogged reason windows dependencies
    constructor
    · exact h.reserved
    · exact h.reserved_le
    · exact hnewest
    · intro entry hmem other hentry
      rcases mem_cons.mp hmem with rfl | hold
      · exact .inr (Option.some.inj hentry).symm
      · exact .inl (hlogged entry hold other hentry)
    · intro other windowId
      exact h.legal other windowId
    · rintro other ⟨rfl⟩
      exact htracks
    · intro other hnot
      have hne : lease ≠ other := hnot _ rfl
      exact (h.allDone (by simp [hphase]) other).cons fun hsame =>
        hne (Option.some.inj hsame)
    · exact htracks.anchorIsLast
  | shutdown hphase hstep => exact h.shutdownStep hphase hstep

theorem step_valid {after : SurfaceWindowRun} {command : SurfaceWindowCommand}
    {output : SurfaceWindowOutput}
    (hstep : run.step command = some (output, after)) : after.Valid := by
  simp only [SurfaceWindowRun.step, Option.map_eq_some_iff, Prod.mk.injEq] at hstep
  obtain ⟨result, hresult, rfl, rfl⟩ := hstep
  exact h.step (perform_answers hresult).1

end

theorem run_valid {authority : EntityId} {commands : List SurfaceWindowCommand}
    (hrun : surfaceWindowMachine.run (start authority) commands = some run) : run.Valid :=
  @invariant_of_run _ _ _ surfaceWindowMachine _ Valid
    (fun _ _ _ _ h hstep => step_valid h hstep) _ _ (start_valid authority) hrun

end SurfaceWindowRun

section Outcomes

variable {later earlier : List WindowOutcome}

theorem Legal.of_append (h : Legal (later ++ earlier)) : Legal earlier := by
  induction later with
  | nil => exact h
  | cons newest rest ih => exact ih h.2

/-- Between two claims stands a retry. -/
theorem Legal.retried {later middle earlier : List WindowOutcome}
    (h : Legal (later ++ .claimed :: (middle ++ .claimed :: earlier))) :
    .retried ∈ middle := by
  have hfollows := h.of_append.1
  cases middle with
  | nil => cases hfollows
  | cons newest rest =>
    cases newest with
    | retried => exact mem_cons_self
    | claimed | settled => cases hfollows

/-- Nothing comes after the end. -/
theorem Legal.settled (h : Legal (later ++ .settled :: earlier)) : later = [] := by
  rcases eq_nil_or_concat later with hnil | ⟨front, next, rfl⟩
  · exact hnil
  · rw [concat_append] at h
    have hfollows := h.of_append.1
    cases next with
    | claimed | retried => cases hfollows
    | settled => exact absurd rfl hfollows

theorem Legal.count_settled {outcomes : List WindowOutcome} (h : Legal outcomes)
    (hsettled : outcomes.head? = some .settled) : outcomes.count .settled = 1 := by
  cases outcomes with
  | nil => cases hsettled
  | cons newest earlier =>
    rw [head?_cons, Option.some.injEq] at hsettled
    subst hsettled
    have hnone : .settled ∉ earlier := by
      intro hmem
      obtain ⟨before, after, rfl⟩ := append_of_mem hmem
      have hnil := @Legal.settled (.settled :: before) after h
      cases hnil
    rw [count_cons_self, count_eq_zero_of_not_mem hnone]

theorem EmptiedSince.emptied_mem {lease : WindowSessionLease}
    {later earlier : List SurfaceWindowEvent} {event : SurfaceWindowEvent}
    (h : EmptiedSince lease (later ++ event :: earlier)) (hadopts : event.Adopts lease) :
    .emptied lease ∈ later := by
  induction later with
  | nil =>
    rcases h with rfl | ⟨hnot, _⟩
    · cases hadopts
    · exact absurd hadopts hnot
  | cons newest rest ih =>
    rcases h with rfl | ⟨_, hrest⟩
    · exact mem_cons_self
    · exact mem_cons_of_mem _ (ih hrest)

end Outcomes

theorem ShutdownStep.not_active {shutdown : WindowShutdown}
    {event : Option SurfaceWindowEvent} {state : WindowSessionState}
    (h : ShutdownStep shutdown event state) :
    (∀ lease, state ≠ .active lease) ∧ ∀ token, state ≠ .opening token := by
  cases h <;> simp

namespace SurfaceWindowSession

/-- A lease of a generation that no opening can activate any more. -/
structure LeaseEnded (session : SurfaceWindowSession) (lease : WindowSessionLease) : Prop where
  generation_le : lease.generation ≤ session.lastGeneration
  not_admitted : session.admits lease = false
  not_opening : ∀ token, session.state = .opening token → token.generation ≠ lease.generation

variable {session : SurfaceWindowSession} {lease : WindowSessionLease}

theorem admits_iff : session.admits lease = true ↔ session.state = .active lease := by
  rw [admits]
  cases session.state <;> simp

theorem isShuttingDown_iff : session.isShuttingDown lease = true ↔
      ∃ shutdown, session.state = .shuttingDown shutdown ∧ shutdown.lease = lease := by
  rw [isShuttingDown]
  cases session.state <;> simp

variable {event : Option SurfaceWindowEvent} {after : SurfaceWindowSession}

theorem LeaseEnded.step (h : session.LeaseEnded lease)
    (hstep : SessionStep session event after) : after.LeaseEnded lease := by
  have hle := h.generation_le
  cases hstep with
  | idle => exact h
  | reserve hphase =>
    refine ⟨le_succ_of_le hle, rfl, ?_⟩
    rintro token ⟨rfl⟩
    exact ne_of_gt (lt_succ_of_le hle)
  | @activate token anchor hphase =>
    refine ⟨hle, ?_, by simp⟩
    rw [Bool.eq_false_iff, ne_eq, admits_iff]
    rintro ⟨rfl⟩
    exact h.not_opening token hphase rfl
  | rollBack hphase | begin hphase => exact ⟨hle, rfl, by simp⟩
  | shutdown hphase hstep =>
    obtain ⟨hactive, hopening⟩ := hstep.not_active
    refine ⟨hle, ?_, fun token htoken => absurd htoken (hopening token)⟩
    rw [Bool.eq_false_iff, ne_eq, admits_iff]
    exact hactive lease

/-- A lease is admitted until it ends. -/
theorem admits_or_ended (hnewest : session.AtNewest) (h : session.admits lease = true)
    (hstep : SessionStep session event after) :
    after.admits lease = true ∨ after.LeaseEnded lease := by
  rw [admits_iff] at h
  rw [AtNewest, h] at hnewest
  cases hstep with
  | idle => exact .inl (admits_iff.mpr h)
  | reserve hphase =>
    rcases hphase with hvacant | ⟨closed, hclosed⟩
    · rw [h] at hvacant
      cases hvacant
    · rw [h] at hclosed
      cases hclosed
  | activate hphase | rollBack hphase | shutdown hphase =>
    rw [h] at hphase
    cases hphase
  | begin hphase => exact .inr ⟨hnewest.le, rfl, by simp⟩

end SurfaceWindowSession

namespace SurfaceWindowRun

variable {run : SurfaceWindowRun}

theorem step_sessionStep {after : SurfaceWindowRun} {command : SurfaceWindowCommand}
    {output : SurfaceWindowOutput} (hstep : run.step command = some (output, after)) :
    SessionStep run.session (command.event output) after.session ∧
      (command.isCurrent run.session = false → after = run) := by
  simp only [SurfaceWindowRun.step, Option.map_eq_some_iff, Prod.mk.injEq] at hstep
  obtain ⟨result, hresult, rfl, rfl⟩ := hstep
  obtain ⟨hsession, hidle⟩ := perform_answers hresult
  refine ⟨hsession, ?_⟩
  intro hcurrent
  obtain ⟨hsame, hnone⟩ := hidle hcurrent
  rw [hsame, hnone]
  rfl

variable {commands : List SurfaceWindowCommand} {lease : WindowSessionLease}

variable {later : SurfaceWindowRun}

theorem run_ended (h : run.session.LeaseEnded lease)
    (hrun : surfaceWindowMachine.run run commands = some later) :
    later.session.LeaseEnded lease :=
  @invariant_of_run _ _ _ surfaceWindowMachine _ (fun run => run.session.LeaseEnded lease)
    (fun _ _ _ _ hended hstep => hended.step (step_sessionStep hstep).1) _ _ h hrun

theorem run_admits_or_ended (hvalid : run.Valid) (h : run.session.admits lease = true)
    (hrun : surfaceWindowMachine.run run commands = some later) :
    later.session.admits lease = true ∨ later.session.LeaseEnded lease := by
  induction commands generalizing run with
  | nil =>
    obtain rfl : run = later := by simpa using hrun
    exact .inl h
  | cons command rest ih =>
    obtain ⟨output, next, hstep, hrest⟩ := run_cons_eq_some.mp hrun
    have hnext := step_valid hvalid hstep
    rcases admits_or_ended hvalid.newest h (step_sessionStep hstep).1 with hadmits | hended
    · exact ih hnext hadmits hrest
    · exact .inr (run_ended hended hrest)

end SurfaceWindowRun

/-- Generations grow, one lease at most is at work and never comes back, a command that is
not current changes nothing, every window is claimed, retried and settled in a legal order,
the anchor is the last, and closing waits for every ticket and an empty runtime. -/
structure SoundLifecycle (authority : EntityId) (commands : List SurfaceWindowCommand)
    (run : SurfaceWindowRun) : Prop where
  generations : (run.log.filterMap reservedGeneration).Pairwise (· > ·)
  single : ∀ lease other, (run.session.admits lease || run.session.isShuttingDown lease) = true →
      (run.session.admits other || run.session.isShuttingDown other) = true → lease = other
  ended : ∀ first second rest lease earlier later, commands = first ++ second ++ rest →
    surfaceWindowMachine.run (.start authority) first = some earlier →
    earlier.session.admits lease = true →
    surfaceWindowMachine.run earlier second = some later →
    later.session.admits lease = false → run.session.admits lease = false
  unchanged : ∀ command output after, command.isCurrent run.session = false →
    run.step command = some (output, after) → after = run
  claims : ∀ lease windowId later middle earlier, windowOutcomes run.log lease windowId =
      later ++ .claimed :: (middle ++ .claimed :: earlier) → .retried ∈ middle
  settles : ∀ lease windowId later earlier,
    windowOutcomes run.log lease windowId = later ++ .settled :: earlier → later = []
  anchorLast : run.session.AnchorIsLast
  closes : (∃ closed, run.session.state = .closed closed) → ∀ lease,
    (∀ windowId, (∃ event ∈ run.log, event.TracksWindow lease windowId) →
      (windowOutcomes run.log lease windowId).count .settled = 1) ∧
    (∀ dependency, (∃ event ∈ run.log, event.TracksDependency lease dependency) →
      .dependencyEnded lease dependency ∈ run.log) ∧
    ∀ later event earlier, run.log = later ++ event :: earlier → event.Adopts lease →
      .emptied lease ∈ later

theorem surfaceWindowSessions_are_sound {authority : EntityId}
    {commands : List SurfaceWindowCommand} {run : SurfaceWindowRun}
    (hrun : surfaceWindowMachine.run (.start authority) commands = some run) :
    SoundLifecycle authority commands run := by
  have hvalid := run_valid hrun
  constructor
  · exact hvalid.reserved
  · intro lease other hlease hother
    rw [Bool.or_eq_true, admits_iff, isShuttingDown_iff] at hlease hother
    cases hphase : run.session.state with
    | vacant | opening | closed => simp [hphase] at hlease
    | active current =>
      simp only [hphase, WindowSessionState.active.injEq, reduceCtorEq, false_and,
        exists_false, or_false] at hlease hother
      exact hlease.symm.trans hother
    | shuttingDown shutdown =>
      simp only [hphase, reduceCtorEq, WindowSessionState.shuttingDown.injEq,
        exists_eq_left', false_or] at hlease hother
      exact hlease.symm.trans hother
  · rintro first second rest lease earlier later rfl hfirst hadmits hsecond hstopped
    rw [append_assoc] at hrun
    obtain ⟨earlier', hearlier, hlast⟩ := run_append_eq_some.mp hrun
    obtain rfl := Option.some.inj (hfirst.symm.trans hearlier)
    obtain ⟨later', hlater, hrest⟩ := run_append_eq_some.mp hlast
    obtain rfl := Option.some.inj (hsecond.symm.trans hlater)
    rcases run_admits_or_ended (run_valid hfirst) hadmits hsecond with hstill | hended
    · rw [hstopped] at hstill
      cases hstill
    · exact (run_ended hended hrest).not_admitted
  · exact fun command output after hcurrent hstep =>
      (step_sessionStep hstep).2 hcurrent
  · intro lease windowId later middle earlier houtcomes
    have hlegal := hvalid.legal lease windowId
    rw [houtcomes] at hlegal
    exact hlegal.retried
  · intro lease windowId later earlier houtcomes
    have hlegal := hvalid.legal lease windowId
    rw [houtcomes] at hlegal
    exact hlegal.settled
  · exact hvalid.anchorLast
  · rintro ⟨closed, hclosed⟩ lease
    have hdone := hvalid.allDone (by simp [hclosed]) lease
    refine ⟨?_, hdone.dependencies, ?_⟩
    · intro windowId htracks
      exact (hvalid.legal lease windowId).count_settled (hdone.windows windowId htracks)
    · intro later event earlier hlog hadopts
      have hemptied := hdone.emptied
      rw [hlog] at hemptied
      exact hemptied.emptied_mem hadopts

/-- The primary window and two others, one of which comes late, close. -/
def closingCommands : List SurfaceWindowCommand :=
  let lease : WindowSessionLease := ⟨7, 1, 1⟩
  [.reserveOpening, .commitOpening ⟨7, 1⟩ 1, .beginShutdown lease .anchorCloseRequested [2, 2] [],
    .claimCloseDispatch lease 2, .retryCloseDispatch lease 2, .claimCloseDispatch lease 2,
    .settleTerminal ⟨7, 0, 1⟩ 2, .settleTerminal lease 2, .adoptShutdownWindow lease 3,
    .settleTerminal lease 3, .settleTerminal lease 1, .markRuntimeEmpty lease,
    .completeShutdown lease]

theorem closingCommands_are_sound :
    ∃ run, surfaceWindowMachine.run (.start 7) closingCommands = some run ∧
      SoundLifecycle 7 closingCommands run :=
  ⟨_, rfl, surfaceWindowSessions_are_sound rfl⟩

end OpenGpui.Docking
