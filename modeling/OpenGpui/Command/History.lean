/-
The in-memory history of command usage, and the ranking of a registry snapshot by it.
Usage and recency are packed into one score; while no score saturates, the ranking is the
lexicographic one.
-/
import OpenGpui.Command.Scopes
import OpenGpui.Library.Primitives
import Mathlib.Data.List.Sigma

namespace OpenGpui.Command

open List Option Nat U64

structure CommandHistoryEntry where
  commandId : String
  query : String
  sequence : Nat

/-- Entries and queries are queues, the oldest first. -/
structure MemoryCommandHistory where
  capacity : Nat
  nextSequence : Nat
  entries : List CommandHistoryEntry
  queries : List String
  queryCursor : Option Nat

namespace MemoryCommandHistory

def new (capacity : Nat) : MemoryCommandHistory := ⟨max capacity 1, 1, [], [], none⟩

variable (self : MemoryCommandHistory)

def recordQuery (query : String) : MemoryCommandHistory :=
  if query = "" then self
  else
    let others := self.queries.erase query
    let kept := if others.length = self.capacity then others.tail else others
    { self with queries := kept ++ [query], queryCursor := none }

def recordUsage (commandId query : String) : MemoryCommandHistory :=
  if commandId = "" then self
  else
    let kept := if self.entries.length = self.capacity then self.entries.tail else self.entries
    let recorded := { self with entries := kept }.recordQuery query
    { recorded with
      entries := recorded.entries ++ [⟨commandId, query, recorded.nextSequence⟩]
      nextSequence := saturatingAdd recorded.nextSequence 1 }

def usageCount (commandId : String) : Nat :=
  self.entries.countP fun entry => entry.commandId == commandId

def lastUsedSequence (commandId : String) : Option Nat :=
  (self.entries.reverse.find? fun entry => entry.commandId == commandId).map
    CommandHistoryEntry.sequence

def score (commandId : String) : Nat :=
  let usage := self.usageCount commandId
  let recency := (self.lastUsedSequence commandId).getD 0
  saturatingAdd (saturatingMul usage 1000000) recency

/-- The comparison of two contributions with their positions in the snapshot. -/
def rankOrder (left right : CommandContribution × Nat) : Ordering :=
  (compare (self.score right.1.descriptor.id) (self.score left.1.descriptor.id)).then
    (compare left.2 right.2)

def rankRegistrySnapshot (snapshot : CommandRegistrySnapshot) : CommandRegistrySnapshot where
  revision := snapshot.revision
  contributions :=
    (snapshot.contributions.zipIdx.mergeSort fun left right =>
      (self.rankOrder left right).isLE).map Prod.fst

/-- A run of `recordUsage` calls, each with a command id and a query. -/
def afterUses (capacity : Nat) (uses : List (String × String)) : MemoryCommandHistory :=
  uses.foldl (fun history use => history.recordUsage use.1 use.2) (new capacity)

/-! What the history holds: the latest uses, numbered by the order of the calls. -/

/-- The entries of a log of uses, the latest first. -/
def entriesOf : List (String × String) → List CommandHistoryEntry
  | [] => []
  | (commandId, query) :: earlier =>
    ⟨commandId, query, min (earlier.length + 1) U64.MAX⟩ :: entriesOf earlier

theorem map_commandId_entriesOf (log : List (String × String)) :
    (entriesOf log).map CommandHistoryEntry.commandId = log.map Prod.fst := by
  induction log with
  | nil => rfl
  | cons use earlier ih => rw [entriesOf, map_cons, ih, map_cons]

/-- The history after a log of uses, the latest first. -/
structure Records (history : MemoryCommandHistory) (capacity : Nat)
    (log : List (String × String)) : Prop where
  capacity_eq : history.capacity = capacity
  entries_eq : history.entries.reverse = (entriesOf log).take capacity
  nextSequence_eq : history.nextSequence = min (log.length + 1) U64.MAX

theorem records_new (capacity : Nat) : (new capacity).Records (max capacity 1) [] where
  capacity_eq := rfl
  entries_eq := by simp [new, entriesOf]
  nextSequence_eq := rfl

variable {capacity : Nat}

/-- A queue that drops its oldest entry when it is full keeps the latest ones. -/
theorem take_cons_of_reverse {α : Type*} {queue log : List α} (hpos : 0 < capacity)
    (h : queue.reverse = log.take capacity) (entry : α) :
    ((if queue.length = capacity then queue.tail else queue) ++ [entry]).reverse =
      (entry :: log).take capacity := by
  obtain ⟨rest, rfl⟩ := exists_eq_add_one.mpr hpos
  rw [reverse_append, reverse_singleton, singleton_append]
  congr 1
  have hlength : queue.length = min (rest + 1) log.length := by
    rw [← length_take, ← h, length_reverse]
  split
  · rename_i hfull
    rw [← dropLast_reverse, h, dropLast_eq_take, length_take, take_take]
    congr 1
    omega
  · have hshort : log.length ≤ rest := by omega
    rw [h, take_of_length_le (le_succ_of_le hshort), take_of_length_le hshort]

variable {history : MemoryCommandHistory} {commandId : String} {log : List (String × String)}

theorem Records.recordUsage (h : history.Records capacity log) (hpos : 0 < capacity)
    (hid : commandId ≠ "") (query : String) :
    (history.recordUsage commandId query).Records capacity ((commandId, query) :: log) := by
  have hentries : (history.recordUsage commandId query).entries =
      (if history.entries.length = history.capacity then history.entries.tail
        else history.entries) ++ [⟨commandId, query, history.nextSequence⟩] := by
    rw [MemoryCommandHistory.recordUsage, if_neg hid]
    dsimp only
    rw [recordQuery]
    split <;> rfl
  have hnext : (history.recordUsage commandId query).nextSequence =
      saturatingAdd history.nextSequence 1 := by
    rw [MemoryCommandHistory.recordUsage, if_neg hid]
    dsimp only
    rw [recordQuery]
    split <;> rfl
  refine ⟨?_, ?_, ?_⟩
  · rw [← h.capacity_eq, MemoryCommandHistory.recordUsage, if_neg hid]
    dsimp only
    rw [recordQuery]
    split <;> rfl
  · rw [hentries, h.capacity_eq, take_cons_of_reverse hpos h.entries_eq, h.nextSequence_eq,
      entriesOf]
  · rw [hnext, h.nextSequence_eq, saturatingAdd, length_cons]
    omega

/-- The uses that are recorded: an empty command id is ignored. -/
def recorded (uses : List (String × String)) : List (String × String) :=
  uses.filter fun use => use.1 ≠ ""

theorem records_foldl (h : history.Records capacity log) (hpos : 0 < capacity)
    (uses : List (String × String)) :
    (uses.foldl (fun history use => history.recordUsage use.1 use.2) history).Records capacity
      ((recorded uses).reverse ++ log) := by
  induction uses generalizing history log with
  | nil => exact h
  | cons use uses ih =>
    rw [foldl_cons, recorded]
    by_cases hid : use.1 = ""
    · rw [filter_cons_of_neg (by simpa using hid), recordUsage, if_pos hid]
      exact ih h
    · rw [filter_cons_of_pos (by simpa using hid), reverse_cons, append_assoc]
      exact ih (h.recordUsage hpos hid use.2)

theorem records_afterUses (capacity : Nat) (uses : List (String × String)) :
    (afterUses capacity uses).Records (max capacity 1) (recorded uses).reverse := by
  have h := records_foldl (records_new capacity) (by omega) uses
  rwa [append_nil] at h

/-- The ids of the uses the history retains, the latest first. -/
def retained (capacity : Nat) (uses : List (String × String)) : List String :=
  ((recorded uses).reverse.map Prod.fst).take (max capacity 1)

theorem usageCount_of_records (h : history.Records capacity log) (commandId : String) :
    history.usageCount commandId = ((log.map Prod.fst).take capacity).count commandId := by
  rw [usageCount, ← countP_reverse, h.entries_eq, ← map_commandId_entriesOf, ← map_take,
    List.count, countP_map]
  rfl

theorem find?_entriesOf (log : List (String × String)) (capacity : Nat) (commandId : String) :
    (((entriesOf log).take capacity).find? fun entry => entry.commandId == commandId).map
        CommandHistoryEntry.sequence =
      if commandId ∈ (log.map Prod.fst).take capacity then
        some (min (log.length - ((log.map Prod.fst).take capacity).idxOf commandId) U64.MAX)
      else none := by
  induction log generalizing capacity with
  | nil => simp [entriesOf]
  | cons use earlier ih =>
    obtain ⟨used, query⟩ := use
    cases capacity with
    | zero => simp
    | succ capacity =>
      rw [entriesOf, take_succ_cons, find?_cons, map_cons, take_succ_cons]
      by_cases heq : used = commandId
      · simp [heq]
      · have hbeq : (used == commandId) = false := beq_eq_false_iff_ne.mpr heq
        simp only [hbeq, ih, mem_cons, Ne.symm heq, false_or, idxOf_cons_ne _ heq,
          length_cons, Nat.succ_eq_add_one, Nat.add_sub_add_right]

theorem lastUsedSequence_of_records (h : history.Records capacity log) (commandId : String) :
    history.lastUsedSequence commandId =
      if commandId ∈ (log.map Prod.fst).take capacity then
        some (min (log.length - ((log.map Prod.fst).take capacity).idxOf commandId) U64.MAX)
      else none := by
  rw [lastUsedSequence, h.entries_eq, find?_entriesOf]

/-! The ranking. -/

/-- More uses first, then the more recent last use, then the earlier position. -/
def Precedes (retained : List String) (left right : CommandContribution × Nat) : Prop :=
  retained.count right.1.id < retained.count left.1.id ∨
    retained.count left.1.id = retained.count right.1.id ∧
      (retained.idxOf left.1.id < retained.idxOf right.1.id ∨
        retained.idxOf left.1.id = retained.idxOf right.1.id ∧ left.2 < right.2)

instance (retained : List String) (left right : CommandContribution × Nat) :
    Decidable (Precedes retained left right) :=
  inferInstanceAs (Decidable (_ ∨ _))

/-- The contributions of the snapshot, reordered by their retained uses. -/
def RankedByUse (retained : List String) (snapshot ranked : CommandRegistrySnapshot) : Prop :=
  ranked.revision = snapshot.revision ∧
    ∃ order : List (CommandContribution × Nat), order.Perm snapshot.contributions.zipIdx ∧
      order.Pairwise (Precedes retained) ∧ ranked.contributions = order.map Prod.fst

theorem length_retained_le (capacity : Nat) (uses : List (String × String)) :
    (retained capacity uses).length ≤ max capacity 1 := by
  rw [retained, length_take]
  exact min_le_left _ _

theorem length_retained_le_recorded (capacity : Nat) (uses : List (String × String)) :
    (retained capacity uses).length ≤ (recorded uses).length := by
  rw [retained, length_take, length_map, length_reverse]
  exact min_le_right _ _

variable {uses : List (String × String)}

/-- A score that does not saturate: a million for each retained use, and the number of the last
one. -/
theorem score_afterUses (hscore : (afterUses capacity uses).usageCount commandId * 1000000 +
      ((afterUses capacity uses).lastUsedSequence commandId).getD 0 ≤ U64.MAX) :
    (afterUses capacity uses).score commandId =
      if commandId ∈ retained capacity uses then
        (retained capacity uses).count commandId * 1000000 +
          ((recorded uses).length - (retained capacity uses).idxOf commandId)
      else 0 := by
  have hrecords := records_afterUses capacity uses
  have hcount := usageCount_of_records hrecords commandId
  have hlast := lastUsedSequence_of_records hrecords commandId
  rw [← retained] at hcount hlast
  have hpacked : (afterUses capacity uses).score commandId = (afterUses capacity uses).usageCount
      commandId * 1000000 + ((afterUses capacity uses).lastUsedSequence commandId).getD 0 := by
    have husage := saturatingMul_of_le (le_of_add_right_le hscore)
    simp only [score, husage, saturatingAdd_of_le hscore]
  rw [hpacked]
  rw [hcount, hlast] at hscore ⊢
  rw [length_reverse] at hscore ⊢
  split
  · rename_i hin
    rw [if_pos hin, getD_some] at hscore
    have hused := count_pos_iff.mpr hin
    rw [getD_some]
    -- the number itself has not saturated, for a million more would not fit
    omega
  · rename_i hunused
    rw [count_eq_zero_of_not_mem hunused]
    rfl

theorem rankOrder_isLE_iff (left right : CommandContribution × Nat) :
    (self.rankOrder left right).isLE = true ↔ self.score right.1.id < self.score left.1.id ∨
        self.score right.1.id = self.score left.1.id ∧ left.2 ≤ right.2 := by
  rw [rankOrder, Ordering.isLE_then_iff_or, Nat.compare_eq_lt, Nat.compare_eq_eq, Nat.isLE_compare]
  exact Iff.rfl

/-- A larger score means more uses, or as many and a more recent one: the last uses are less than
a million apart. -/
theorem precedes_of_score {left right : CommandContribution × Nat} (hcapacity : capacity ≤ 1000000)
    (hleft : (afterUses capacity uses).usageCount left.1.id * 1000000 +
      ((afterUses capacity uses).lastUsedSequence left.1.id).getD 0 ≤ U64.MAX)
    (hright : (afterUses capacity uses).usageCount right.1.id * 1000000 +
      ((afterUses capacity uses).lastUsedSequence right.1.id).getD 0 ≤ U64.MAX)
    (hscores : (afterUses capacity uses).score right.1.id <
    (afterUses capacity uses).score left.1.id ∨
      (afterUses capacity uses).score right.1.id = (afterUses capacity uses).score left.1.id ∧
        left.2 < right.2) :
    Precedes (retained capacity uses) left right := by
  have hlength := length_retained_le capacity uses
  have hrecorded := length_retained_le_recorded capacity uses
  have hidx : ∀ id ∈ retained capacity uses, 0 < (retained capacity uses).count id ∧
        (retained capacity uses).idxOf id < (retained capacity uses).length :=
    fun id hin => ⟨count_pos_iff.mpr hin, idxOf_lt_length_iff.mpr hin⟩
  have hunused : ∀ id ∉ retained capacity uses, (retained capacity uses).count id = 0 ∧
      (retained capacity uses).idxOf id = (retained capacity uses).length :=
    fun id hout => ⟨count_eq_zero_of_not_mem hout, idxOf_eq_length hout⟩
  rw [score_afterUses hleft, score_afterUses hright] at hscores
  rw [Precedes]
  by_cases hl : left.1.id ∈ retained capacity uses
  · have hlused := hidx _ hl
    by_cases hr : right.1.id ∈ retained capacity uses
    · have hrused := hidx _ hr
      rw [if_pos hl, if_pos hr] at hscores
      omega
    · have hrunused := hunused _ hr
      omega
  · have hlunused := hunused _ hl
    by_cases hr : right.1.id ∈ retained capacity uses
    · rw [if_neg hl, if_pos hr] at hscores
      omega
    · have hrunused := hunused _ hr
      rw [if_neg hl] at hscores
      omega

/-- While no score of a command of the snapshot saturates, the ranking is lexicographic: retained
uses, then the last use, then the position in the snapshot. -/
theorem rankRegistrySnapshot_rankedByUse {capacity : Nat} {uses : List (String × String)}
    {snapshot : CommandRegistrySnapshot} (hcapacity : capacity ≤ 1000000)
    (hscores : ∀ contribution ∈ snapshot.contributions,
      (afterUses capacity uses).usageCount contribution.id * 1000000 +
        ((afterUses capacity uses).lastUsedSequence contribution.id).getD 0 ≤ U64.MAX) :
    RankedByUse (retained capacity uses) snapshot
      ((afterUses capacity uses).rankRegistrySnapshot snapshot) := by
  refine ⟨rfl, _, mergeSort_perm _ _, ?_, rfl⟩
  have hsorted := @pairwise_mergeSort _
    (fun left right => ((afterUses capacity uses).rankOrder left right).isLE)
    (by
      intro one two three hfirst hsecond
      rw [rankOrder_isLE_iff] at hfirst hsecond ⊢
      omega)
    (by
      intro one two
      rw [Bool.or_eq_true, rankOrder_isLE_iff, rankOrder_isLE_iff]
      omega)
    snapshot.contributions.zipIdx
  have hdistinct : (snapshot.contributions.zipIdx.mergeSort fun left right =>
      ((afterUses capacity uses).rankOrder left right).isLE).Pairwise
        fun left right => left.2 ≠ right.2 := by
    rw [← pairwise_map]
    exact ((mergeSort_perm _ _).map Prod.snd).nodup_iff.mpr
      (nodup_zipIdx_map_snd snapshot.contributions)
  refine (hsorted.and hdistinct).imp_of_mem ?_
  intro left right hleft hright hordered
  rw [mem_mergeSort] at hleft hright
  apply precedes_of_score hcapacity (hscores _ (fst_mem_of_mem_zipIdx hleft))
    (hscores _ (fst_mem_of_mem_zipIdx hright))
  have hle := (rankOrder_isLE_iff _ _ _).mp hordered.1
  omega

def listed (ids : List String) : CommandRegistrySnapshot :=
  ⟨"", ids.map fun id => ⟨.new id id, none⟩⟩

theorem rankRegistrySnapshot_rankedByUse_three :
    RankedByUse (retained 2 [("save", ""), ("open", ""), ("close", "")])
      (listed ["save", "open", "close"])
      ((afterUses 2 [("save", ""), ("open", ""), ("close", "")]).rankRegistrySnapshot
        (listed ["save", "open", "close"])) :=
  rankRegistrySnapshot_rankedByUse (by decide) (by decide)

/-! When scores saturate: the two last uses of a long run. -/

variable (count : Nat)

def longRun : List (String × String) :=
  List.replicate count ("save", "") ++ [("open", ""), ("close", "")]

theorem recorded_longRun : recorded (longRun count) = longRun count := by
  rw [recorded, filter_eq_self]
  intro use huse
  simp only [longRun, mem_append, mem_replicate, mem_cons, not_mem_nil, or_false] at huse
  rcases huse with ⟨_, rfl⟩ | rfl | rfl
  · rfl
  · rfl
  · rfl

theorem length_longRun : (longRun count).length = count + 2 := by
  rw [longRun, length_append, length_replicate]
  rfl

theorem retained_longRun : retained 2 (longRun count) = ["close", "open"] := by
  rw [retained, recorded_longRun, longRun, reverse_append]
  rfl

theorem score_longRun {count : Nat} (hcount : U64.MAX ≤ count + 1000000)
    (hin : commandId ∈ ["close", "open"]) :
    (afterUses 2 (longRun count)).score commandId = U64.MAX := by
  have hrecords := records_afterUses 2 (longRun count)
  have husage := usageCount_of_records hrecords commandId
  have hlast := lastUsedSequence_of_records hrecords commandId
  rw [← retained, retained_longRun] at husage hlast
  rw [if_pos hin, length_reverse, recorded_longRun, length_longRun] at hlast
  have hused := count_pos_iff.mpr hin
  have hidx := idxOf_lt_length_iff.mpr hin
  simp only [length_cons, length_nil] at hidx
  rw [score, hlast, getD_some, saturatingAdd, saturatingMul]
  omega

/-- Two saturated scores leave the commands in the order of the snapshot, however recent they
are. -/
theorem not_rankedByUse_longRun {count : Nat} (hcount : U64.MAX ≤ count + 1000000) :
    ¬ RankedByUse (retained 2 (longRun count)) (listed ["open", "close"])
      ((afterUses 2 (longRun count)).rankRegistrySnapshot (listed ["open", "close"])) := by
  have hopen : (afterUses 2 (longRun count)).score "open" = U64.MAX :=
    score_longRun hcount (by decide)
  have hclose : (afterUses 2 (longRun count)).score "close" = U64.MAX :=
    score_longRun hcount (by decide)
  have hranked : ((afterUses 2 (longRun count)).rankRegistrySnapshot
      (listed ["open", "close"])).contributions = (listed ["open", "close"]).contributions := by
    rw [rankRegistrySnapshot]
    rw [mergeSort_of_pairwise, zipIdx_map_fst]
    simp only [listed, map_cons, map_nil, zipIdx_cons, zipIdx_nil,
      pairwise_cons, mem_singleton, forall_eq, rankOrder_isLE_iff]
    refine ⟨Or.inr ⟨?_, by omega⟩, by simp⟩
    exact hclose.trans hopen.symm
  rintro ⟨_, order, _, hpairwise, horder⟩
  rw [hranked] at horder
  obtain ⟨first, second, rfl⟩ : ∃ first second, order = [first, second] :=
    length_eq_two.mp (by simpa [listed] using (congrArg List.length horder).symm)
  obtain ⟨hfirst, hsecond⟩ : first.1 = ⟨.new "open" "open", none⟩ ∧
      second.1 = ⟨.new "close" "close", none⟩ := by
    simpa [listed, eq_comm] using horder
  have hprecedes := rel_of_pairwise_cons hpairwise mem_cons_self
  rw [Precedes, retained_longRun, hfirst, hsecond] at hprecedes
  revert hprecedes
  simp [CommandContribution.id, CommandDescriptor.new]

/-- The scores saturate before the sequence numbers do. -/
theorem rankRegistrySnapshot_saturated : (longRun 18446744073709551612).length + 1 ≤ U64.MAX ∧
      ¬ RankedByUse (retained 2 (longRun 18446744073709551612)) (listed ["open", "close"])
        ((afterUses 2 (longRun 18446744073709551612)).rankRegistrySnapshot
          (listed ["open", "close"])) := by
  have hlength := length_longRun 18446744073709551612
  have hmax : U64.MAX = 18446744073709551615 := rfl
  refine ⟨?_, not_rankedByUse_longRun ?_⟩
  · omega
  · omega

end MemoryCommandHistory

end OpenGpui.Command
