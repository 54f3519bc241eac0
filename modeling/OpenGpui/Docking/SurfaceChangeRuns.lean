/-
Whole runs of a surface owner: the events go out in the order of their revisions, each once, and
none is left behind when no delivery runs.
-/
import OpenGpui.Docking.SurfaceReceipts
import OpenGpui.Library.Machine

namespace OpenGpui.Docking

open List Option Nat

open SurfaceFact

/-- What the log says of a surface, between any two calls. -/
structure SurfaceApp.Sound (app : SurfaceApp) (log : SurfaceLog) : Prop where
  queue : SurfaceQueue app.owner.revision app.owner.lastPublishedRevision
    app.owner.pendingPublications log
  transactions : SurfaceTransactions app.owner.lastTransactionId app.owner.pendingTransaction
    app.receipts log
  handles : SurfaceHandles app.publications log

/-- Without a running delivery, the next event is not ready.  The flag stays behind only after the
last revision there is. -/
structure SurfaceApp.Settled (app : SurfaceApp) : Prop where
  active : app.flush.isSome = true → app.owner.publicationFlushActive = true
  idle : app.flush = none → app.owner.publicationFlushActive = true →
    app.owner.lastPublishedRevision = U64_MAX
  next : app.flush = none → ∀ publication,
    app.owner.pendingPublications (app.owner.lastPublishedRevision + 1) = some publication →
    publication.ready = false

namespace SurfaceApp

variable {app : SurfaceApp} {log : SurfaceLog}

theorem Sound.new : SurfaceApp.new.Sound [] :=
  ⟨SurfaceQueue.new, SurfaceTransactions.new, SurfaceHandles.new⟩

theorem Settled.new : SurfaceApp.new.Settled where
  active hflush := nomatch hflush
  idle _ hactive := nomatch hactive
  next _ _ hslot := nomatch hslot

theorem eq_of_checkedNext_eq_none {counter : Nat} (h : checkedNext counter = none) :
    counter = U64_MAX := by
  rw [checkedNext] at h
  split at h
  · assumption
  · cases h

/-- A running loop emits one event or ends. -/
theorem Sound.flushLoop (h : app.Sound log) (hactive : app.owner.publicationFlushActive = true)
    (firstPanic : Bool) :
    (app.flushLoop firstPanic).next.Sound ((app.flushLoop firstPanic).facts ++ log) ∧
      (app.flushLoop firstPanic).next.Settled := by
  rw [SurfaceApp.flushLoop]
  cases hnext : checkedNext app.owner.lastPublishedRevision with
  | none =>
    have hmax := eq_of_checkedNext_eq_none hnext
    refine ⟨⟨h.queue, h.transactions, h.handles⟩, ⟨?_, fun _ _ => hmax, ?_⟩⟩
    · intro hflush
      cases hflush
    · intro _ publication hslot
      have hslot_le := (h.queue.slot_le _ publication hslot).2
      have hrevision := h.queue.revision_le
      dsimp only at hslot_le
      omega
  | some nextRevision =>
    obtain rfl := checkedNext_eq_some hnext
    dsimp only
    cases hready : (app.owner.pendingPublications (app.owner.lastPublishedRevision + 1)).filter
        (·.ready) with
    | some publication =>
      obtain ⟨hslot, hready⟩ := filter_eq_some_iff.mp hready
      have hqueue := h.queue.emit hslot hready
      refine ⟨⟨hqueue, h.transactions.delivery trivial, ?_⟩, ⟨fun _ => hactive, ?_, ?_⟩⟩
      · exact h.handles.unpublished (by simp)
      · intro hflush
        cases hflush
      · intro hflush
        cases hflush
    | none =>
      refine ⟨⟨h.queue, h.transactions, h.handles⟩, ⟨?_, ?_, ?_⟩⟩
      · intro hflush
        cases hflush
      · intro _ hflag
        cases hflag
      · intro _ publication hslot
        have hnot := filter_eq_none_iff.mp hready publication hslot
        exact Bool.eq_false_of_not_eq_true hnot

theorem flushLoop_facts (app : SurfaceApp) (firstPanic : Bool) :
    ∀ fact ∈ (app.flushLoop firstPanic).facts, fact.IsDelivery := by
  intro fact hmem
  rw [SurfaceApp.flushLoop] at hmem
  split at hmem
  · cases hmem
  · split at hmem
    · cases mem_singleton.mp hmem
      trivial
    · cases hmem

theorem publishCommittedEvent_facts (app : SurfaceApp) (revision : Nat) :
    ∀ fact ∈ (app.publishCommittedEvent revision).facts, fact.IsDelivery := by
  intro fact hmem
  rw [SurfaceApp.publishCommittedEvent] at hmem
  split at hmem
  · cases hmem
  · rcases mem_append.mp hmem with hflush | hpublished
    · rw [flushReadyPublications] at hflush
      split at hflush
      · cases hflush
      · exact flushLoop_facts _ _ fact hflush
    · cases mem_singleton.mp hpublished
      trivial

/-- The slot of a revision becomes ready, and then the loop runs, unless it runs already. -/
theorem Sound.publishCommittedEvent {revision : Nat}
    (hqueue : SurfaceQueue app.owner.revision app.owner.lastPublishedRevision
      app.owner.pendingPublications log)
    (htransactions : SurfaceTransactions app.owner.lastTransactionId app.owner.pendingTransaction
      app.receipts log)
    (hhandles : SurfaceHandles app.publications (.published revision :: log))
    (hsettled : app.Settled) {publication : PendingSurfacePublication}
    (hslot : app.owner.pendingPublications revision = some publication) :
    let outcome := app.publishCommittedEvent revision
    outcome.next.Sound (outcome.facts ++ log) ∧ outcome.next.Settled ∧
      .published revision ∈ outcome.facts := by
  intro outcome
  have hsound : Sound { app with
        owner :=
          { app.owner with
            pendingPublications :=
              Function.update app.owner.pendingPublications revision
                (some { publication with ready := true }) } }
      (.published revision :: log) :=
    ⟨hqueue.publish hslot, htransactions.delivery trivial, hhandles⟩
  have houtcome : outcome = app.publishCommittedEvent revision := rfl
  rw [SurfaceApp.publishCommittedEvent, hslot] at houtcome
  dsimp only at houtcome
  rw [flushReadyPublications] at houtcome
  split at houtcome
  · rename_i hflag
    rw [houtcome]
    refine ⟨hsound, ⟨fun _ => hflag, fun hflush _ => hsettled.idle hflush hflag, ?_⟩, ?_⟩
    · intro hflush other hother
      have hmax := hsettled.idle hflush hflag
      have hle := (hsound.queue.slot_le _ other hother).2
      have hrevision := hqueue.revision_le
      dsimp only at hle
      omega
    · exact mem_singleton_self _
  · have hactive : Sound
        { app with
          owner := { app.owner with
            pendingPublications :=
              Function.update app.owner.pendingPublications revision
                (some { publication with ready := true })
            publicationFlushActive := true } }
        (.published revision :: log) :=
      ⟨hsound.queue, hsound.transactions, hsound.handles⟩
    obtain ⟨hnext, hsettled'⟩ := hactive.flushLoop rfl false
    rw [houtcome]
    rw [append_assoc]
    exact ⟨hnext, hsettled', mem_append_right _ (mem_singleton_self _)⟩

theorem settleReceipt_eq (app : SurfaceApp) (receipt : Option Nat)
    (settle : SurfaceTransactionReceipt → SurfaceTransactionReceipt) :
    app.settleReceipt receipt settle = { app with
        receipts := receipt.elim app.receipts fun index => app.receipts.modify index settle } := by
  cases receipt <;> rfl

section

variable (h : app.Sound log)

include h

variable (hsettled : app.Settled)

include hsettled

theorem Sound.beginRootTransaction (tracked : Bool) :
    let outcome := app.beginRootTransaction tracked
    outcome.next.Sound (outcome.facts ++ log) ∧ outcome.next.Settled := by
  rw [SurfaceApp.beginRootTransaction]
  split
  · exact ⟨h, hsettled⟩
  · split
    · exact ⟨h, hsettled⟩
    · rename_i id hnext
      obtain rfl := checkedNext_eq_some hnext
      refine ⟨⟨?_, ?_, ?_⟩, ⟨hsettled.active, hsettled.idle, hsettled.next⟩⟩
      · exact h.queue.quiet ⟨rfl, rfl, by simp⟩
      · apply h.transactions.began
        · intro index hlt
          cases tracked
          · rfl
          · exact getElem?_append_left hlt
        · intro index hindex
          cases tracked
          · cases hindex
          · obtain rfl := some.inj hindex
            exact ⟨le_refl _, getElem?_concat_length⟩
      · exact h.handles.unpublished (by simp)

theorem Sound.recordChange (transaction : Nat) (category : SurfaceChangeCategory) :
    let outcome := app.recordChange transaction category
    outcome.next.Sound (outcome.facts ++ log) ∧ outcome.next.Settled := by
  rw [SurfaceApp.recordChange, onTransaction]
  split
  · exact ⟨h, hsettled⟩
  · rename_i pending hpending
    split
    · rename_i hid
      subst hid
      have htransactions := h.transactions
      rw [hpending] at htransactions
      refine ⟨⟨?_, htransactions.recorded category, ?_⟩,
        ⟨hsettled.active, hsettled.idle, hsettled.next⟩⟩
      · exact h.queue.quiet ⟨rfl, rfl, by simp⟩
      · exact h.handles.unpublished (by simp)
    · exact ⟨h, hsettled⟩

theorem Sound.recordTransition (transaction : Nat) (transition : SurfaceTransition) :
    let outcome := app.recordTransition transaction transition
    outcome.next.Sound (outcome.facts ++ log) ∧ outcome.next.Settled := by
  rw [SurfaceApp.recordTransition, onTransaction]
  split
  · exact ⟨h, hsettled⟩
  · rename_i pending hpending
    split
    · have htransactions := h.transactions
      rw [hpending] at htransactions
      exact ⟨⟨h.queue, htransactions.update rfl rfl rfl, h.handles⟩,
        ⟨hsettled.active, hsettled.idle, hsettled.next⟩⟩
    · exact ⟨h, hsettled⟩

/-- A commit with changes takes the next revision, whose slot waits for its publication. -/
theorem Sound.commitRootTransaction (transaction : Nat) :
    let commit := app.commitRootTransaction transaction
    commit.next.Sound (commit.facts ++ log) ∧ commit.next.Settled ∧
      commit.next.publications = app.publications ∧
      (∀ event revision, .committed transaction (some event) revision ∈ commit.facts →
        commit.event = some (some event)) ∧
      ∀ event, commit.event = some (some event) → event.revision = app.owner.revision + 1 ∧
        commit.facts = [.committed transaction (some event) event.revision] := by
  rw [SurfaceApp.commitRootTransaction]
  split
  · exact ⟨h, hsettled, rfl, fun _ _ hmem => absurd hmem not_mem_nil, by simp⟩
  · rename_i pending hpending
    have htransactions := h.transactions
    rw [hpending] at htransactions
    split
    · rename_i hid
      subst hid
      split
      · rename_i hempty
        dsimp only
        rw [settleReceipt_eq]
        refine ⟨⟨?_, ?_, ?_⟩, ⟨hsettled.active, hsettled.idle, hsettled.next⟩, rfl, ?_, ?_⟩
        · exact h.queue.quiet ⟨rfl, rfl, by simp⟩
        · apply htransactions.committed
          · exact (isEmpty_iff.mp hempty).symm
          · intro changed heq
            cases heq
        · exact h.handles.unpublished (by simp)
        · intro event revision hmem
          cases mem_singleton.mp hmem
        · intro event heq
          cases heq
      · rename_i hchanged
        dsimp only
        split
        · exact ⟨⟨h.queue, htransactions.drop, h.handles⟩, ⟨hsettled.active, hsettled.idle,
            hsettled.next⟩, rfl, fun _ _ hmem => absurd hmem not_mem_nil, by simp⟩
        · rename_i revision hnext
          have hmax : app.owner.revision ≠ U64_MAX := by
            intro hmax
            rw [checkedNext, if_pos hmax] at hnext
            cases hnext
          obtain rfl := checkedNext_eq_some hnext
          rw [h.queue.slot_next, isSome_none, if_neg Bool.false_ne_true, settleReceipt_eq]
          refine ⟨⟨h.queue.commit hmax _ rfl, ?_, ?_⟩, ⟨hsettled.active, hsettled.idle, ?_⟩, rfl,
            ?_, ?_⟩
          · apply htransactions.committed
            · rfl
            · intro changed heq hnil
              obtain rfl := some.inj heq
              exact hchanged (isEmpty_iff.mpr hnil)
          · exact h.handles.unpublished (by simp)
          · intro hflush publication hslot
            dsimp only at hslot
            rw [Function.update_apply] at hslot
            split at hslot
            · obtain rfl := some.inj hslot
              rfl
            · exact hsettled.next hflush publication hslot
          · intro event revision hmem
            cases mem_singleton.mp hmem
            rfl
          · intro event heq
            cases heq
            exact ⟨rfl, rfl⟩
    · exact ⟨h, hsettled, rfl, fun _ _ hmem => absurd hmem not_mem_nil, by simp⟩

end

variable {index : Nat}

section

variable (h : app.Sound log)

include h

/-- No deferred publication stands for the next revision. -/
theorem Sound.revision_of_standsFor
    {publication : SurfaceDeferredPublication} {event : SurfaceChangeEvent}
    (hstands : StandsFor app.publications index publication event) :
    event.revision ≤ app.owner.revision := by
  obtain ⟨transaction, hmem⟩ := h.handles.committed index publication event hstands
  exact (h.queue.own_mem hmem).2

theorem Sound.not_published_next : .published (app.owner.revision + 1) ∉ log := fun hmem =>
  not_succ_le_self _ (h.queue.published_le _ hmem)

theorem Sound.finishRootTransaction (hsettled : app.Settled) (transaction : Nat) :
    let outcome := app.finishRootTransaction transaction
    outcome.next.Sound (outcome.facts ++ log) ∧ outcome.next.Settled ∧
      ∀ event revision, .committed transaction (some event) revision ∈ outcome.facts →
        .published revision ∈ outcome.facts := by
  have hcommit := h.commitRootTransaction hsettled transaction
  rw [SurfaceApp.finishRootTransaction]
  generalize app.commitRootTransaction transaction = commit at hcommit ⊢
  obtain ⟨hsound, hnext, hpublications, hfacts, hevent⟩ := hcommit
  dsimp only
  split
  · rename_i hnone
    exact ⟨hsound, hnext, fun event revision hmem =>
      nomatch hnone.symm.trans (hfacts event revision hmem)⟩
  · rename_i hnone
    exact ⟨hsound, hnext, fun event revision hmem =>
      nomatch hnone.symm.trans (hfacts event revision hmem)⟩
  · rename_i event hsome
    obtain ⟨hrevision, hcommitted⟩ := hevent event hsome
    have hmem : .committed transaction (some event) event.revision ∈ commit.facts ++ log := by
      rw [hcommitted]
      exact mem_cons_self
    have hnot : .published event.revision ∉ commit.facts ++ log := by
      rw [hcommitted, hrevision, singleton_append, mem_cons, not_or]
      exact ⟨fun heq => (nomatch heq), h.not_published_next⟩
    obtain ⟨publication, hslot⟩ := hsound.queue.slot_of_unpublished hmem hnot
    have hhandles : SurfaceHandles commit.next.publications
        (.published event.revision :: (commit.facts ++ log)) := by
      apply hsound.handles.unpublished
      intro index shared other hstands heq
      rw [hpublications] at hstands
      have hle := h.revision_of_standsFor hstands
      have hsame := SurfaceFact.published.inj heq
      omega
    have hpublish := Sound.publishCommittedEvent hsound.queue hsound.transactions hhandles hnext
      hslot
    obtain ⟨hfinal, hsettled', hpublished⟩ := hpublish
    rw [append_assoc]
    refine ⟨hfinal, hsettled', ?_⟩
    intro other revision hother
    rcases mem_append.mp hother with hdelivery | hown
    · exact (publishCommittedEvent_facts _ _ _ hdelivery).elim
    · rw [hcommitted] at hown
      cases mem_singleton.mp hown
      exact mem_append_left _ hpublished

theorem Sound.commitDeferred (hsettled : app.Settled) (transaction : Nat) :
    let outcome := app.commitDeferred transaction
    outcome.next.Sound (outcome.facts ++ log) ∧ outcome.next.Settled := by
  have hcommit := h.commitRootTransaction hsettled transaction
  rw [SurfaceApp.commitDeferred]
  obtain ⟨hsound, hnext, hpublications, -, hevent⟩ := hcommit
  split
  · exact ⟨hsound, hnext⟩
  · rename_i event hsome
    refine ⟨⟨hsound.queue, hsound.transactions, ?_⟩, ⟨hnext.active, hnext.idle, hnext.next⟩⟩
    apply hsound.handles.handed
    rintro changed rfl
    obtain ⟨hrevision, hcommitted⟩ := hevent changed hsome
    rw [hcommitted, singleton_append, hpublications]
    refine ⟨⟨transaction, mem_cons_self⟩, ?_, ?_⟩
    · rw [mem_cons, not_or, hrevision]
      exact ⟨fun heq => (nomatch heq), h.not_published_next⟩
    · intro index publication other hstands hsame
      have hle := h.revision_of_standsFor hstands
      omega

theorem Sound.abortRootTransaction (hsettled : app.Settled) (transaction : Nat) :
    let outcome := app.abortRootTransaction transaction
    outcome.next.Sound (outcome.facts ++ log) ∧ outcome.next.Settled := by
  rw [SurfaceApp.abortRootTransaction]
  split
  · exact ⟨h, hsettled⟩
  · rename_i pending hpending
    split
    · rename_i hid
      subst hid
      have htransactions := h.transactions
      rw [hpending] at htransactions
      rw [settleReceipt_eq]
      refine ⟨⟨?_, htransactions.aborted, ?_⟩, ⟨hsettled.active, hsettled.idle, hsettled.next⟩⟩
      · exact h.queue.quiet ⟨rfl, rfl, by simp⟩
      · exact h.handles.unpublished (by simp)
    · exact ⟨h, hsettled⟩

end

theorem setState_setState (app : SurfaceApp) (index : Nat)
    (first second : SurfaceDeferredPublicationState) :
    (app.setState index first).setState index second = app.setState index second := by
  simp only [setState, modify_modify_eq]
  rfl

theorem setState_self {publication : SurfaceDeferredPublication}
    (hindex : app.publications[index]? = some publication) :
    app.setState index publication.state = app := by
  have hsame : (app.publications.modify index fun other =>
      { other with state := publication.state }) = app.publications := by
    apply ext_getElem?
    intro other
    by_cases hother : index = other
    · subst hother
      rw [getElem?_modify_eq, hindex]
      rfl
    · rw [getElem?_modify_ne _ _ hother]
  rw [setState, hsame]

variable {outcome : SurfaceOutcome}

theorem Sound.publish (h : app.Sound log) (hsettled : app.Settled) {borrowed : Bool}
    (houtcome : app.publish borrowed index = some outcome) :
    outcome.next.Sound (outcome.facts ++ log) ∧ outcome.next.Settled ∧
      ∀ publication event, StandsFor app.publications index publication event →
        borrowed = false → .published event.revision ∈ outcome.facts ++ log := by
  obtain ⟨publication, hindex, rfl⟩ := map_eq_some_iff.mp houtcome
  dsimp only
  split
  · rename_i hstate
    refine ⟨h, hsettled, ?_⟩
    intro other event hstands _
    obtain rfl := some.inj (hindex.symm.trans hstands.1)
    rcases h.handles.state index publication event hstands with ⟨hpending, -⟩ | ⟨-, hpublished⟩
    · exact absurd hpending hstate
    · exact hpublished
  · rename_i hstate
    rw [not_not] at hstate
    split
    · rename_i hevent
      refine ⟨⟨h.queue, h.transactions, h.handles.settled hindex hevent⟩,
        ⟨hsettled.active, hsettled.idle, hsettled.next⟩, ?_⟩
      intro other event hstands _
      obtain rfl := some.inj (hindex.symm.trans hstands.1)
      exact nomatch hevent.symm.trans hstands.2
    · rename_i event hevent
      have hstands : StandsFor app.publications index publication event := ⟨hindex, hevent⟩
      rw [setState_setState, setState_setState]
      split
      · rename_i hborrowed
        rw [← hstate, setState_self hindex]
        refine ⟨h, hsettled, ?_⟩
        intro _ _ _ hfree
        exact absurd (hborrowed.symm.trans hfree) Bool.false_ne_true.symm
      · have hnot : .published event.revision ∉ log := by
          rcases h.handles.state index publication event hstands with ⟨-, hnot⟩ | ⟨hsettled, -⟩
          · exact hnot
          · rw [hstate] at hsettled
            cases hsettled
        obtain ⟨transaction, hmem⟩ := h.handles.committed index publication event hstands
        obtain ⟨slot, hslot⟩ := h.queue.slot_of_unpublished hmem hnot
        have hkept : (app.setState index .settled).Settled :=
          ⟨hsettled.active, hsettled.idle, hsettled.next⟩
        have hpublish := @Sound.publishCommittedEvent (app.setState index .settled) log _ h.queue
          h.transactions (h.handles.published hstands) hkept _ hslot
        obtain ⟨hsound, hnext, hpublished⟩ := hpublish
        refine ⟨hsound, hnext, ?_⟩
        intro other event' hstands' _
        obtain rfl := some.inj (hindex.symm.trans hstands'.1)
        obtain rfl := some.inj (hevent.symm.trans hstands'.2)
        exact mem_append_left _ hpublished

theorem Sound.perform (h : app.Sound log) (hsettled : app.Settled) {command : SurfaceCommand}
    (houtcome : app.perform command = some outcome) :
    outcome.next.Sound (outcome.facts ++ log) ∧ outcome.next.Settled := by
  cases command with
  | begin tracked =>
    obtain rfl := some.inj houtcome
    exact h.beginRootTransaction hsettled tracked
  | recordChange transaction category =>
    obtain rfl := some.inj houtcome
    exact h.recordChange hsettled transaction category
  | recordTransition transaction transition =>
    obtain rfl := some.inj houtcome
    exact h.recordTransition hsettled transaction transition
  | finish transaction =>
    obtain rfl := some.inj houtcome
    obtain ⟨hsound, hnext, -⟩ := h.finishRootTransaction hsettled transaction
    exact ⟨hsound, hnext⟩
  | commitDeferred transaction =>
    obtain rfl := some.inj houtcome
    exact h.commitDeferred hsettled transaction
  | abort transaction =>
    obtain rfl := some.inj houtcome
    exact h.abortRootTransaction hsettled transaction
  | publish borrowed index =>
    obtain ⟨hsound, hnext, -⟩ := h.publish hsettled houtcome
    exact ⟨hsound, hnext⟩
  | resume panicked =>
    obtain ⟨firstPanic, hflush, rfl⟩ := map_eq_some_iff.mp houtcome
    exact h.flushLoop (hsettled.active (by rw [hflush]; rfl)) _

end SurfaceApp

structure SurfaceSession where
  app : SurfaceApp
  log : SurfaceLog

namespace SurfaceSession

def new : SurfaceSession := ⟨.new, []⟩

def machine : Machine SurfaceSession SurfaceCommand SurfaceLog where
  step session command :=
    (session.app.perform command).map fun outcome =>
      (outcome.facts, ⟨outcome.next, outcome.facts ++ session.log⟩)

/-- The revisions of the emitted events, in the order of their emission. -/
def emittedRevisions (session : SurfaceSession) : List Nat :=
  session.log.reverse.filterMap emittedRevision

/-- Without a running delivery, what was published without a gap was emitted. -/
def Complete (session : SurfaceSession) : Prop :=
  session.app.flush = none → ∀ revision,
    (∀ earlier, 0 < earlier → earlier ≤ revision → .published earlier ∈ session.log) →
    ∀ earlier, 0 < earlier → earlier ≤ revision →
      ∃ event, event.revision = earlier ∧ .emitted event ∈ session.log

/-- The end of a transaction with changes publishes its revision, and so does a deferred
publication, however often it is published. -/
def Publishes (session : SurfaceSession) : Prop :=
  (∀ transaction event revision,
    let outcome := session.app.finishRootTransaction transaction
    .committed transaction (some event) revision ∈ outcome.facts →
      .published revision ∈ outcome.facts) ∧
  ∀ index publication event outcome, StandsFor session.app.publications index publication event →
    session.app.publish false index = some outcome →
      .published event.revision ∈ outcome.facts ++ session.log

def ReceiptsReport (session : SurfaceSession) : Prop :=
  ∀ transaction index, .began transaction (some index) ∈ session.log →
    ∃ receipt, session.app.receipts[index]? = some receipt ∧ receipt.Reports transaction session.log

/-- Each transaction with changes has a revision of its own, which is that of its event. -/
def OwnsRevisions (session : SurfaceSession) : Prop :=
  session.log.reverse.filterMap ownRevision = List.range' 1 session.app.owner.revision ∧
  ∀ transaction event revision, .committed transaction event revision ∈ session.log →
    (∀ changed, event = some changed → changed.revision = revision) ∧
    (event = none ↔ ∀ category, .recorded transaction category ∉ session.log)

/-- An event is that of a commit, and an aborted transaction has none. -/
def EmitsCommits (session : SurfaceSession) : Prop :=
  (∀ event, .emitted event ∈ session.log →
    ∃ transaction, .committed transaction (some event) event.revision ∈ session.log) ∧
  ∀ transaction, .aborted transaction ∈ session.log →
    ∀ event revision, .committed transaction event revision ∉ session.log

section Sound

variable {session : SurfaceSession} (h : session.app.Sound session.log)

include h

theorem emittedRevisions_eq :
    session.emittedRevisions = List.range' 1 session.app.owner.lastPublishedRevision := by
  rw [emittedRevisions, filterMap_reverse, h.queue.emitted, reverse_reverse]

theorem complete (hsettled : session.app.Settled) : session.Complete := by
  intro hflush revision hpublished earlier hpos hle
  have hlast : revision ≤ session.app.owner.lastPublishedRevision := by
    by_contra hlast
    have hnext := hpublished _ (Nat.succ_pos session.app.owner.lastPublishedRevision)
      (Nat.lt_of_not_le hlast)
    have hslot := h.queue.slot_some _ (Nat.lt_succ_self _) (h.queue.published_le _ hnext)
    obtain ⟨publication, hslot⟩ := isSome_iff_exists.mp hslot
    have hready := (h.queue.slot_ready _ publication hslot).mpr hnext
    rw [hsettled.next hflush publication hslot] at hready
    cases hready
  have hmem : earlier ∈ session.log.filterMap emittedRevision := by
    rw [h.queue.emitted, mem_reverse, mem_range'_1]
    omega
  obtain ⟨fact, hfact, hrevision⟩ := mem_filterMap.mp hmem
  cases fact with
  | emitted event => exact ⟨event, some.inj hrevision, hfact⟩
  | began | recorded | committed | aborted | published => cases hrevision

theorem publishes (hsettled : session.app.Settled) : session.Publishes := by
  constructor
  · intro transaction event revision
    exact (h.finishRootTransaction hsettled transaction).2.2 event revision
  · intro index publication event outcome hstands houtcome
    exact (h.publish hsettled houtcome).2.2 publication event hstands rfl

theorem ownsRevisions : session.OwnsRevisions := by
  constructor
  · rw [filterMap_reverse, h.queue.committed, reverse_reverse]
  · intro transaction event revision hmem
    have hrecorded := h.transactions.committed_recorded transaction event revision hmem
    constructor
    · rintro changed rfl
      exact h.queue.event_revision transaction changed revision hmem
    · constructor
      · rintro rfl category hcategory
        exact absurd ((hrecorded category).mpr hcategory) not_mem_nil
      · intro hnone
        cases event with
        | none => rfl
        | some changed =>
          obtain ⟨category, hcategory⟩ := exists_mem_of_ne_nil _
            (h.transactions.event_changed transaction changed revision hmem)
          exact absurd ((hrecorded category).mp hcategory) (hnone category)

end Sound

theorem run_sound {commands : List SurfaceCommand} {session : SurfaceSession}
    (hrun : machine.run new commands = some session) :
    session.app.Sound session.log ∧ session.app.Settled := by
  refine @Machine.invariant_of_run _ _ _ machine _
    (fun session => session.app.Sound session.log ∧ session.app.Settled) ?_ _ _
    ⟨SurfaceApp.Sound.new, SurfaceApp.Settled.new⟩ hrun
  rintro earlier command output next ⟨hsound, hsettled⟩ hstep
  obtain ⟨outcome, houtcome, heq⟩ := map_eq_some_iff.mp hstep
  cases heq
  exact hsound.perform hsettled houtcome

theorem surface_events_in_order {commands : List SurfaceCommand} {session : SurfaceSession}
    (hrun : machine.run new commands = some session) :
    session.emittedRevisions = List.range' 1 session.app.owner.lastPublishedRevision ∧
      session.Complete ∧ session.Publishes ∧ session.ReceiptsReport ∧ session.OwnsRevisions ∧
      session.EmitsCommits := by
  obtain ⟨hsound, hsettled⟩ := run_sound hrun
  exact ⟨emittedRevisions_eq hsound, complete hsound hsettled, publishes hsound hsettled,
    hsound.transactions.reports, ownsRevisions hsound, hsound.queue.emitted_committed,
    hsound.transactions.aborted_uncommitted⟩

/-- A later revision is ready first; while its predecessor is delivered, subscribers abort a
transaction, commit an empty one and panic. -/
def outOfOrder : List SurfaceCommand :=
  [.begin true, .recordChange 1 .layout, .commitDeferred 1,
    .begin true, .recordChange 2 .selection, .finish 2, .publish false 0,
    .begin true, .abort 3, .begin true, .finish 4, .resume true, .resume false,
    .publish false 0]

theorem outOfOrder_in_order :
    ∃ session, machine.run new outOfOrder = some session ∧ session.emittedRevisions = [1, 2] ∧
      session.app.receipts = [⟨some 1, false⟩, ⟨some 2, false⟩, ⟨none, true⟩, ⟨some 2, false⟩] ∧
      session.Complete := by
  refine ⟨_, rfl, ?_, rfl, ?_⟩
  · exact (@surface_events_in_order outOfOrder _ rfl).1
  · exact (@surface_events_in_order outOfOrder _ rfl).2.1

end SurfaceSession

end OpenGpui.Docking
