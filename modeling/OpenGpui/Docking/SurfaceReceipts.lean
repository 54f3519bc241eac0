/-
The transactions of a surface owner: which categories they recorded, how each of them ended, and
what the receipts and the deferred publications say of that.
-/
import OpenGpui.Docking.SurfaceChangeSteps

namespace OpenGpui.Docking

open List Option Nat PendingSurfaceTransaction

namespace PendingSurfaceTransaction

variable {pending : PendingSurfaceTransaction} {category other : SurfaceChangeCategory}

theorem mem_categories :
    category ∈ pending.categories ↔ pending.categoryBits &&& category.bit ≠ 0 := by
  have hall : category ∈ SurfaceChangeCategory.ALL := by cases category <;> decide
  rw [categories, mem_filter, decide_eq_true_eq, and_iff_right hall]

/-- Every category has a bit of its own. -/
theorem bit_and_bit : category.bit &&& other.bit ≠ 0 ↔ other = category := by
  cases category <;> cases other <;> decide

theorem mem_categories_record : other ∈ (pending.record category).categories ↔
      other = category ∨ other ∈ pending.categories := by
  rw [mem_categories, mem_categories, ← bit_and_bit]
  have hsplit : (pending.categoryBits ||| category.bit) &&& other.bit =
      (pending.categoryBits &&& other.bit) ||| (category.bit &&& other.bit) :=
    BitVec.and_or_distrib_right
  change (pending.categoryBits ||| category.bit) &&& other.bit ≠ 0 ↔ _
  rw [hsplit, Ne, BitVec.ofNat_eq_ofNat, BitVec.or_eq_zero_iff, not_and_or, or_comm]

end PendingSurfaceTransaction

namespace SurfaceFact

variable (transaction : Nat)

/-- The end of a transaction. -/
def Settles : SurfaceFact → Prop
  | committed other _ _ | aborted other => other = transaction
  | _ => False

/-- A record of a change is part of the transaction as well. -/
def PartOf (fact : SurfaceFact) : Prop :=
  fact.Settles transaction ∨ ∃ category, fact = .recorded transaction category

/-- Facts about events alone. -/
def IsDelivery : SurfaceFact → Prop
  | published _ | emitted _ => True
  | _ => False

end SurfaceFact

def changedCategories (event : Option SurfaceChangeEvent) : List SurfaceChangeCategory :=
  event.elim [] (·.categories)

def SurfaceTransactionReceipt.Reports (receipt : SurfaceTransactionReceipt) (transaction : Nat)
    (log : SurfaceLog) : Prop :=
  (∀ revision, receipt.committedRevision = some revision ↔
    ∃ event, .committed transaction event revision ∈ log) ∧
  (receipt.aborted = true ↔ .aborted transaction ∈ log)

open SurfaceFact

/-- The end of another transaction does not concern a receipt. -/
theorem SurfaceTransactionReceipt.Reports.of_ne {receipt : SurfaceTransactionReceipt}
    {transaction other : Nat} {log : SurfaceLog} (h : receipt.Reports transaction log)
    {fact : SurfaceFact} (hfact : fact.Settles other) (hne : other ≠ transaction) :
    receipt.Reports transaction (fact :: log) := by
  constructor
  · intro revision
    rw [h.1 revision]
    refine exists_congr fun event => (mem_cons.trans (or_iff_right ?_)).symm
    rintro rfl
    exact hne hfact.symm
  · rw [h.2]
    refine (mem_cons.trans (or_iff_right ?_)).symm
    rintro rfl
    exact hne hfact.symm

structure SurfaceTransactions (lastId : Nat) (pending : Option PendingSurfaceTransaction)
    (receipts : List SurfaceTransactionReceipt) (log : SurfaceLog) : Prop where
  began_le : ∀ transaction receipt, .began transaction receipt ∈ log → transaction ≤ lastId
  part_began : ∀ fact ∈ log, ∀ transaction, PartOf transaction fact →
    ∃ receipt, .began transaction receipt ∈ log
  began_unique : ∀ transaction first second, .began transaction first ∈ log →
    .began transaction second ∈ log → first = second
  receipt_unique : ∀ first second index, .began first (some index) ∈ log →
    .began second (some index) ∈ log → first = second
  reports : ∀ transaction index, .began transaction (some index) ∈ log →
    ∃ receipt, receipts[index]? = some receipt ∧ receipt.Reports transaction log
  pending_began : ∀ active, pending = some active → .began active.id active.receipt ∈ log
  pending_open : ∀ active, pending = some active → ∀ fact ∈ log, ¬ Settles active.id fact
  pending_recorded : ∀ active, pending = some active → ∀ category,
    category ∈ active.categories ↔ .recorded active.id category ∈ log
  aborted_uncommitted : ∀ transaction, .aborted transaction ∈ log →
    ∀ event revision, .committed transaction event revision ∉ log
  committed_recorded : ∀ transaction event revision, .committed transaction event revision ∈ log →
    ∀ category, category ∈ changedCategories event ↔ .recorded transaction category ∈ log
  event_changed : ∀ transaction event revision,
    .committed transaction (some event) revision ∈ log → event.categories ≠ []

namespace SurfaceTransactions

variable {lastId : Nat} {pending : Option PendingSurfaceTransaction}
  {active : PendingSurfaceTransaction} {receipts : List SurfaceTransactionReceipt}
  {log : SurfaceLog}

theorem new : SurfaceTransactions 0 none [] [] := by
  constructor <;> simp

variable {fact : SurfaceFact}

section

variable (h : SurfaceTransactions lastId pending receipts log)

include h

/-- Facts about events leave the transactions alone. -/
theorem delivery
    (hfact : fact.IsDelivery) : SurfaceTransactions lastId pending receipts (fact :: log) := by
  have hbegan : ∀ transaction receipt,
      .began transaction receipt ∈ fact :: log ↔ .began transaction receipt ∈ log := by
    intro transaction receipt
    exact mem_cons.trans (or_iff_right fun heq => by subst heq; exact hfact)
  have hrecorded : ∀ transaction category,
      .recorded transaction category ∈ fact :: log ↔ .recorded transaction category ∈ log := by
    intro transaction category
    exact mem_cons.trans (or_iff_right fun heq => by subst heq; exact hfact)
  have hcommitted : ∀ transaction event revision, .committed transaction event revision ∈ fact ::
      log ↔ .committed transaction event revision ∈ log := by
    intro transaction event revision
    exact mem_cons.trans (or_iff_right fun heq => by subst heq; exact hfact)
  have haborted : ∀ transaction,
      .aborted transaction ∈ fact :: log ↔ .aborted transaction ∈ log := by
    intro transaction
    exact mem_cons.trans (or_iff_right fun heq => by subst heq; exact hfact)
  have hpart : ∀ transaction, ¬ PartOf transaction fact := by
    rintro transaction (hsettles | ⟨category, rfl⟩)
    · cases fact <;> first | exact hfact | exact hsettles
    · exact hfact
  constructor <;>
    simp only [hbegan, hrecorded, hcommitted, haborted, SurfaceTransactionReceipt.Reports,
      forall_mem_cons]
  · exact h.began_le
  · exact ⟨fun transaction hin => absurd hin (hpart transaction), h.part_began⟩
  · exact h.began_unique
  · exact h.receipt_unique
  · exact h.reports
  · exact h.pending_began
  · exact fun active hactive =>
      ⟨fun hsettles => hpart active.id (.inl hsettles), h.pending_open active hactive⟩
  · exact h.pending_recorded
  · exact h.aborted_uncommitted
  · exact h.committed_recorded
  · exact h.event_changed

theorem receipt_lt {transaction index : Nat}
    (hmem : .began transaction (some index) ∈ log) : index < receipts.length := by
  obtain ⟨receipt, hreceipt, -⟩ := h.reports transaction index hmem
  exact (List.getElem?_eq_some_iff.mp hreceipt).1

theorem not_partOf_next (hmem : fact ∈ log) : ¬ PartOf (lastId + 1) fact := by
  intro hpart
  obtain ⟨receipt, hbegan⟩ := h.part_began fact hmem _ hpart
  exact not_succ_le_self lastId (h.began_le _ _ hbegan)

/-- A new transaction, with a new receipt when it is tracked. -/
theorem began {receipt : Option Nat} {grown : List SurfaceTransactionReceipt}
    (hold : ∀ index < receipts.length, grown[index]? = receipts[index]?)
    (hnew : ∀ index, receipt = some index →
      receipts.length ≤ index ∧ grown[index]? = some .pending) :
    SurfaceTransactions (lastId + 1) (some (.new (lastId + 1) receipt)) grown
      (.began (lastId + 1) receipt :: log) := by
  have hfresh : ∀ {fact}, fact ∈ log → ¬ PartOf (lastId + 1) fact := h.not_partOf_next
  constructor
  · intro transaction other hmem
    rcases mem_cons.mp hmem with heq | hmem
    · cases heq
      exact le_refl _
    · exact le_succ_of_le (h.began_le transaction other hmem)
  · intro fact hmem transaction hpart
    rcases mem_cons.mp hmem with rfl | hmem
    · rcases hpart with hsettles | ⟨category, heq⟩
      · exact hsettles.elim
      · cases heq
    · obtain ⟨other, hbegan⟩ := h.part_began fact hmem transaction hpart
      exact ⟨other, mem_cons_of_mem _ hbegan⟩
  · intro transaction first second hfirst hsecond
    have hne : ∀ other, .began (lastId + 1) other ∉ log := fun other hmem =>
      not_succ_le_self lastId (h.began_le _ _ hmem)
    rcases mem_cons.mp hfirst with heq | hfirst <;> rcases mem_cons.mp hsecond with heq' | hsecond
    · cases heq
      cases heq'
      rfl
    · cases heq
      exact absurd hsecond (hne second)
    · cases heq'
      exact absurd hfirst (hne first)
    · exact h.began_unique transaction first second hfirst hsecond
  · intro first second index hfirst hsecond
    have hne : ∀ other, receipt = some index → .began other (some index) ∉ log :=
      fun other heq hmem => not_lt.mpr (hnew index heq).1 (h.receipt_lt hmem)
    rcases mem_cons.mp hfirst with heq | hfirst' <;> rcases mem_cons.mp hsecond with heq' | hsecond'
    · cases heq
      cases heq'
      rfl
    · cases heq
      exact absurd hsecond' (hne second rfl)
    · cases heq'
      exact absurd hfirst' (hne first rfl)
    · exact h.receipt_unique first second index hfirst' hsecond'
  · intro transaction index hmem
    rcases mem_cons.mp hmem with heq | hmem
    · cases heq
      refine ⟨.pending, (hnew index rfl).2, ?_, ?_⟩
      · intro revision
        refine iff_of_false (fun hsome => nomatch hsome) ?_
        rintro ⟨event, hcommitted⟩
        rcases mem_cons.mp hcommitted with heq | hcommitted
        · cases heq
        · exact hfresh hcommitted (.inl rfl)
      · refine iff_of_false Bool.false_ne_true fun haborted => ?_
        rcases mem_cons.mp haborted with heq | haborted
        · cases heq
        · exact hfresh haborted (.inl rfl)
    · obtain ⟨other, hother, hreports⟩ := h.reports transaction index hmem
      refine ⟨other, (hold index (h.receipt_lt hmem)).trans hother, ?_⟩
      simpa [SurfaceTransactionReceipt.Reports] using hreports
  · rintro active heq
    obtain rfl := some.inj heq
    exact mem_cons_self
  · rintro active heq fact hmem
    obtain rfl := some.inj heq
    rcases mem_cons.mp hmem with rfl | hmem
    · exact id
    · exact fun hsettles => hfresh hmem (.inl hsettles)
  · rintro active heq category
    obtain rfl := some.inj heq
    refine iff_of_false ?_ fun hmem => ?_
    · rw [mem_categories, not_not]
      exact BitVec.zero_and
    · rcases mem_cons.mp hmem with heq | hmem
      · cases heq
      · exact hfresh hmem (.inr ⟨category, rfl⟩)
  · intro transaction haborted event revision hcommitted
    exact h.aborted_uncommitted transaction (by simpa using haborted) event revision
      (by simpa using hcommitted)
  · intro transaction event revision hcommitted category
    rw [h.committed_recorded transaction event revision (by simpa using hcommitted)]
    simp
  · intro transaction event revision hcommitted
    exact h.event_changed transaction event revision (by simpa using hcommitted)

end

section

variable (h : SurfaceTransactions lastId (some active) receipts log)

include h

/-- A change is recorded in the active transaction only. -/
theorem recorded (category : SurfaceChangeCategory) :
    SurfaceTransactions lastId (some (active.record category)) receipts
      (.recorded active.id category :: log) := by
  have hopen : ∀ {fact}, fact ∈ log → ¬ Settles active.id fact := h.pending_open active rfl _
  constructor
  · intro transaction receipt hmem
    exact h.began_le transaction receipt (by simpa using hmem)
  · intro fact hmem transaction hpart
    rcases mem_cons.mp hmem with rfl | hmem
    · rcases hpart with hsettles | ⟨other, heq⟩
      · exact hsettles.elim
      · cases heq
        exact ⟨active.receipt, mem_cons_of_mem _ (h.pending_began active rfl)⟩
    · obtain ⟨receipt, hbegan⟩ := h.part_began fact hmem transaction hpart
      exact ⟨receipt, mem_cons_of_mem _ hbegan⟩
  · intro transaction first second hfirst hsecond
    exact h.began_unique transaction first second (by simpa using hfirst) (by simpa using hsecond)
  · intro first second index hfirst hsecond
    exact h.receipt_unique first second index (by simpa using hfirst) (by simpa using hsecond)
  · intro transaction index hmem
    obtain ⟨receipt, hreceipt, hreports⟩ := h.reports transaction index (by simpa using hmem)
    refine ⟨receipt, hreceipt, ?_⟩
    simpa [SurfaceTransactionReceipt.Reports] using hreports
  · intro other heq
    obtain rfl := some.inj heq
    exact mem_cons_of_mem _ (h.pending_began active rfl)
  · intro other heq fact hmem
    obtain rfl := some.inj heq
    rcases mem_cons.mp hmem with rfl | hmem
    · exact id
    · exact hopen hmem
  · intro other heq changed
    obtain rfl := some.inj heq
    rw [mem_categories_record, h.pending_recorded active rfl, mem_cons]
    change changed = category ∨ _ ↔ SurfaceFact.recorded active.id changed = _ ∨ _
    rw [SurfaceFact.recorded.injEq, and_iff_right rfl]
    rfl
  · intro transaction haborted event revision hcommitted
    exact h.aborted_uncommitted transaction (by simpa using haborted) event revision
      (by simpa using hcommitted)
  · intro transaction event revision hcommitted changed
    have hearlier : .committed transaction event revision ∈ log := by simpa using hcommitted
    have hne : transaction ≠ active.id := by
      rintro rfl
      exact hopen hearlier rfl
    rw [h.committed_recorded transaction event revision hearlier, mem_cons]
    exact (or_iff_right fun heq => hne (SurfaceFact.recorded.inj heq).1).symm
  · intro transaction event revision hcommitted
    exact h.event_changed transaction event revision (by simpa using hcommitted)

/-- What a pending transaction holds besides its record does not matter. -/
theorem update {updated : PendingSurfaceTransaction} (hid : updated.id = active.id)
    (hreceipt : updated.receipt = active.receipt)
    (hbits : updated.categoryBits = active.categoryBits) :
    SurfaceTransactions lastId (some updated) receipts log where
  began_le := h.began_le
  part_began := h.part_began
  began_unique := h.began_unique
  receipt_unique := h.receipt_unique
  reports := h.reports
  pending_began other heq := by
    obtain rfl := some.inj heq
    rw [hid, hreceipt]
    exact h.pending_began active rfl
  pending_open other heq := by
    obtain rfl := some.inj heq
    rw [hid]
    exact h.pending_open active rfl
  pending_recorded other heq category := by
    obtain rfl := some.inj heq
    rw [hid, ← h.pending_recorded active rfl, mem_categories, mem_categories, hbits]
  aborted_uncommitted := h.aborted_uncommitted
  committed_recorded := h.committed_recorded
  event_changed := h.event_changed

/-- The active transaction ends, and its receipt with it. -/
theorem settled {settle : SurfaceTransactionReceipt → SurfaceTransactionReceipt}
    (hfact : fact.Settles active.id)
    (hsettle : ∀ receipt : SurfaceTransactionReceipt, receipt.Reports active.id log →
      (settle receipt).Reports active.id (fact :: log))
    (hevent : ∀ transaction event revision, fact = .committed transaction event revision →
      changedCategories event = active.categories ∧
        ∀ changed, event = some changed → changed.categories ≠ []) :
    SurfaceTransactions lastId none
      (active.receipt.elim receipts fun index => receipts.modify index settle) (fact :: log) := by
  have hopen : ∀ {fact}, fact ∈ log → ¬ Settles active.id fact := h.pending_open active rfl _
  have hbegan : ∀ transaction receipt,
      .began transaction receipt ∈ fact :: log ↔ .began transaction receipt ∈ log := by
    intro transaction receipt
    exact mem_cons.trans (or_iff_right fun heq => by subst heq; exact hfact)
  have hrecorded : ∀ transaction category,
      .recorded transaction category ∈ fact :: log ↔ .recorded transaction category ∈ log := by
    intro transaction category
    exact mem_cons.trans (or_iff_right fun heq => by subst heq; exact hfact)
  constructor
  · simp only [hbegan]
    exact h.began_le
  · intro other hmem transaction hpart
    simp only [hbegan]
    rcases mem_cons.mp hmem with rfl | hmem
    · rcases hpart with hsettles | ⟨category, rfl⟩
      · have hsame : active.id = transaction := by
          cases other <;> first | exact hfact.symm.trans hsettles | exact hfact.elim
        exact ⟨active.receipt, hsame ▸ h.pending_began active rfl⟩
      · exact hfact.elim
    · exact h.part_began other hmem transaction hpart
  · simp only [hbegan]
    exact h.began_unique
  · simp only [hbegan]
    exact h.receipt_unique
  · intro transaction index hmem
    rw [hbegan] at hmem
    obtain ⟨receipt, hreceipt, hreports⟩ := h.reports transaction index hmem
    rcases eq_or_ne active.id transaction with rfl | hne
    · have hindex := h.began_unique _ _ _ (h.pending_began active rfl) hmem
      refine ⟨settle receipt, ?_, hsettle receipt hreports⟩
      rw [hindex, elim_some, getElem?_modify_eq, hreceipt]
      rfl
    · refine ⟨receipt, ?_, hreports.of_ne hfact hne⟩
      cases hactive : active.receipt with
      | none => exact hreceipt
      | some other =>
        have hbegan' : .began active.id (some other) ∈ log := hactive ▸ h.pending_began active rfl
        have hother : other ≠ index := by
          rintro rfl
          exact hne (h.receipt_unique _ _ _ hbegan' hmem)
        rw [elim_some, getElem?_modify_ne settle receipts hother, hreceipt]
  · intro other heq
    cases heq
  · intro other heq
    cases heq
  · intro other heq
    cases heq
  · intro transaction haborted event revision hcommitted
    rcases mem_cons.mp haborted with rfl | earlier
    · rcases mem_cons.mp hcommitted with heq | hcommitted
      · cases heq
      · exact hopen hcommitted hfact
    · rcases mem_cons.mp hcommitted with rfl | hcommitted
      · exact hopen earlier hfact
      · exact h.aborted_uncommitted transaction earlier event revision hcommitted
  · intro transaction event revision hcommitted category
    rw [hrecorded]
    rcases mem_cons.mp hcommitted with rfl | hcommitted
    · obtain ⟨hsame, -⟩ := hevent transaction event revision rfl
      have hid : transaction = active.id := hfact
      rw [hsame, hid]
      exact h.pending_recorded active rfl category
    · exact h.committed_recorded transaction event revision hcommitted category
  · intro transaction event revision hcommitted
    rcases mem_cons.mp hcommitted with rfl | hcommitted
    · exact (hevent transaction (some event) revision rfl).2 event rfl
    · exact h.event_changed transaction event revision hcommitted

theorem committed {event : Option SurfaceChangeEvent} (revision : Nat)
    (hcategories : changedCategories event = active.categories)
    (hchanged : ∀ changed, event = some changed → changed.categories ≠ []) :
    SurfaceTransactions lastId none (active.receipt.elim receipts fun index =>
        receipts.modify index fun receipt => receipt.commit revision)
      (.committed active.id event revision :: log) := by
  have hsettles : Settles active.id (.committed active.id event revision) := rfl
  apply h.settled hsettles
  · rintro receipt ⟨-, haborted⟩
    have hopen : ∀ event revision, .committed active.id event revision ∉ log :=
      fun event revision hmem => h.pending_open active rfl _ hmem rfl
    constructor
    · intro other
      constructor
      · rintro ⟨⟩
        exact ⟨event, mem_cons_self⟩
      · rintro ⟨changed, hmem⟩
        rcases mem_cons.mp hmem with heq | hmem
        · cases heq
          rfl
        · exact absurd hmem (hopen changed other)
    · change receipt.aborted = true ↔ _
      rw [haborted]
      simp
  · rintro transaction other own ⟨⟩
    exact ⟨hcategories, hchanged⟩

theorem aborted :
    SurfaceTransactions lastId none (active.receipt.elim receipts fun index =>
        receipts.modify index SurfaceTransactionReceipt.abort)
      (.aborted active.id :: log) := by
  have hsettles : Settles active.id (.aborted active.id) := rfl
  apply h.settled hsettles
  · rintro receipt ⟨hcommitted, -⟩
    constructor
    · intro revision
      change receipt.committedRevision = some revision ↔ _
      rw [hcommitted revision]
      simp
    · exact iff_of_true rfl mem_cons_self
  · intro transaction event revision heq
    cases heq

end

theorem drop (h : SurfaceTransactions lastId pending receipts log) :
    SurfaceTransactions lastId none receipts log where
  began_le := h.began_le
  part_began := h.part_began
  began_unique := h.began_unique
  receipt_unique := h.receipt_unique
  reports := h.reports
  pending_began _ heq := nomatch heq
  pending_open _ heq := nomatch heq
  pending_recorded _ heq := nomatch heq
  aborted_uncommitted := h.aborted_uncommitted
  committed_recorded := h.committed_recorded
  event_changed := h.event_changed

end SurfaceTransactions

/-- The deferred publication at an index stands for an event. -/
def StandsFor (publications : List SurfaceDeferredPublication) (index : Nat)
    (publication : SurfaceDeferredPublication) (event : SurfaceChangeEvent) : Prop :=
  publications[index]? = some publication ∧ publication.event = some event

theorem StandsFor.of_modify {publications : List SurfaceDeferredPublication} {index other : Nat}
    {shared : SurfaceDeferredPublication} {changed : SurfaceChangeEvent}
    (h : StandsFor (publications.modify index fun publication =>
      { publication with state := .settled }) other shared changed) :
    ∃ earlier, StandsFor publications other earlier changed ∧
      if other = index then shared.state = .settled else shared = earlier := by
  obtain ⟨hother, hchanged⟩ := h
  by_cases hsame : other = index
  · subst hsame
    rw [getElem?_modify_eq] at hother
    obtain ⟨earlier, hearlier, rfl⟩ := map_eq_some_iff.mp hother
    exact ⟨earlier, ⟨hearlier, hchanged⟩, by rw [if_pos rfl]⟩
  · rw [getElem?_modify_ne _ _ (Ne.symm hsame)] at hother
    exact ⟨shared, ⟨hother, hchanged⟩, by rw [if_neg hsame]⟩

/-- A deferred publication waits until its revision is published, once. -/
structure SurfaceHandles (publications : List SurfaceDeferredPublication) (log : SurfaceLog) :
    Prop where
  state : ∀ index publication event, StandsFor publications index publication event →
    publication.state = .pending ∧ .published event.revision ∉ log ∨
    publication.state = .settled ∧ .published event.revision ∈ log
  committed : ∀ index publication event, StandsFor publications index publication event →
    ∃ transaction, .committed transaction (some event) event.revision ∈ log
  distinct : ∀ first second publication publication' event event',
    StandsFor publications first publication event →
    StandsFor publications second publication' event' →
    event.revision = event'.revision → first = second

namespace SurfaceHandles

variable {publications : List SurfaceDeferredPublication} {log : SurfaceLog}

theorem new : SurfaceHandles [] [] where
  state _ _ _ hstands := nomatch hstands.1
  committed _ _ _ hstands := nomatch hstands.1
  distinct _ _ _ _ _ _ hstands := nomatch hstands.1

variable (h : SurfaceHandles publications log)

include h

/-- Facts that publish none of the handed out revisions. -/
theorem unpublished {fact : SurfaceFact}
    (hfact : ∀ index publication event, StandsFor publications index publication event →
      fact ≠ .published event.revision) :
    SurfaceHandles publications (fact :: log) where
  state index publication event hstands := by
    have hsame : .published event.revision ∈ fact :: log ↔ .published event.revision ∈ log :=
      mem_cons.trans (or_iff_right fun heq => hfact index publication event hstands heq.symm)
    rw [hsame]
    exact h.state index publication event hstands
  committed index publication event hstands := by
    obtain ⟨transaction, hmem⟩ := h.committed index publication event hstands
    exact ⟨transaction, mem_cons_of_mem _ hmem⟩
  distinct := h.distinct

/-- A publication is handed out for a revision that no other one stands for. -/
theorem handed {event : Option SurfaceChangeEvent} (hevent : ∀ changed, event = some changed →
      (∃ transaction, .committed transaction (some changed) changed.revision ∈ log) ∧
      .published changed.revision ∉ log ∧
      ∀ index publication other, StandsFor publications index publication other →
        other.revision ≠ changed.revision) :
    SurfaceHandles (publications ++ [.new event]) log := by
  have hcases : ∀ index publication changed, StandsFor (publications ++ [.new event]) index
      publication changed → StandsFor publications index publication changed ∨ index =
      publications.length ∧ publication.state = .pending ∧ event = some changed := by
    rintro index publication changed ⟨hindex, hchanged⟩
    rw [getElem?_append] at hindex
    split at hindex
    · exact .inl ⟨hindex, hchanged⟩
    · rw [getElem?_singleton] at hindex
      split at hindex
      · obtain rfl := some.inj hindex
        obtain rfl : event = some changed := hchanged
        exact .inr ⟨by omega, rfl, rfl⟩
      · cases hindex
  constructor
  · intro index publication changed hstands
    rcases hcases index publication changed hstands with hold | ⟨-, hpending, hnew⟩
    · exact h.state index publication changed hold
    · exact .inl ⟨hpending, (hevent changed hnew).2.1⟩
  · intro index publication changed hstands
    rcases hcases index publication changed hstands with hold | ⟨-, -, hnew⟩
    · exact h.committed index publication changed hold
    · exact (hevent changed hnew).1
  · intro first second publication publication' changed changed' hfirst hsecond hsame
    rcases hcases _ _ _ hfirst with hold | ⟨hlast, -, hnew⟩ <;>
      rcases hcases _ _ _ hsecond with hold' | ⟨hlast', -, hnew'⟩
    · exact h.distinct _ _ _ _ _ _ hold hold' hsame
    · exact absurd hsame ((hevent changed' hnew').2.2 first publication changed hold)
    · exact absurd hsame.symm ((hevent changed hnew).2.2 second publication' changed' hold')
    · exact hlast.trans hlast'.symm

variable {publication : SurfaceDeferredPublication}

/-- The publication of a handle settles that handle alone. -/
theorem published {index : Nat} {event : SurfaceChangeEvent}
    (hstands : StandsFor publications index publication event) :
    SurfaceHandles
      (publications.modify index fun publication => { publication with state := .settled })
      (.published event.revision :: log) := by
  constructor
  · intro other shared changed hother
    obtain ⟨earlier, hearlier, hstate⟩ := hother.of_modify
    by_cases hsame : other = index
    · subst hsame
      rw [if_pos rfl] at hstate
      obtain rfl := some.inj (hstands.1.symm.trans hearlier.1)
      obtain rfl := some.inj (hstands.2.symm.trans hearlier.2)
      exact .inr ⟨hstate, mem_cons_self⟩
    · rw [if_neg hsame] at hstate
      subst hstate
      have hne : changed.revision ≠ event.revision := fun heq =>
        hsame (h.distinct _ _ _ _ _ _ hearlier hstands heq)
      rw [mem_cons, SurfaceFact.published.injEq, or_iff_right hne]
      exact h.state other shared changed hearlier
  · intro other shared changed hother
    obtain ⟨earlier, hearlier, -⟩ := hother.of_modify
    obtain ⟨transaction, hmem⟩ := h.committed other earlier changed hearlier
    exact ⟨transaction, mem_cons_of_mem _ hmem⟩
  · intro first second shared shared' changed changed' hfirst hsecond
    obtain ⟨earlier, hearlier, -⟩ := hfirst.of_modify
    obtain ⟨earlier', hearlier', -⟩ := hsecond.of_modify
    exact h.distinct _ _ _ _ _ _ hearlier hearlier'

/-- A publication without an event settles unseen. -/
theorem settled {index : Nat} (hindex : publications[index]? = some publication)
    (hevent : publication.event = none) :
    SurfaceHandles
      (publications.modify index fun publication => { publication with state := .settled })
      log := by
  have hkept : ∀ other shared changed, StandsFor (publications.modify index fun publication =>
        { publication with state := .settled }) other shared changed →
      StandsFor publications other shared changed := by
    intro other shared changed hother
    obtain ⟨earlier, hearlier, hstate⟩ := hother.of_modify
    have hne : other ≠ index := by
      rintro rfl
      obtain rfl := some.inj (hindex.symm.trans hearlier.1)
      exact nomatch hevent.symm.trans hearlier.2
    rw [if_neg hne] at hstate
    exact hstate ▸ hearlier
  constructor
  · exact fun other shared changed hother => h.state _ _ _ (hkept _ _ _ hother)
  · exact fun other shared changed hother => h.committed _ _ _ (hkept _ _ _ hother)
  · intro first second shared shared' changed changed' hfirst hsecond
    exact h.distinct _ _ _ _ _ _ (hkept _ _ _ hfirst) (hkept _ _ _ hsecond)

end SurfaceHandles

end OpenGpui.Docking
