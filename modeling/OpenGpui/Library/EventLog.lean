/-
Logs of events, the newest first, and the latest event of a kind in one; tickets numbered
by a counter, and when every number is accepted at most once.
-/
import Mathlib.Tactic.Common

namespace OpenGpui.EventLog

universe u v

variable {Event : Type u} {concerns : Event → Prop} {log : List Event} {event : Event}

/-- The event is of the kind, and nothing of that kind has happened since. -/
def Latest (concerns : Event → Prop) (log : List Event) (event : Event) : Prop :=
  ∃ later earlier, log = later ++ event :: earlier ∧ concerns event ∧
    ∀ other ∈ later, ¬ concerns other

theorem Latest.mem (h : Latest concerns log event) : event ∈ log := by
  obtain ⟨later, earlier, rfl, -, -⟩ := h
  simp

theorem Latest.of_kind (h : Latest concerns log event) : concerns event := by
  obtain ⟨_, _, -, hconcerns, -⟩ := h
  exact hconcerns

@[simp] theorem not_latest_nil : ¬ Latest concerns [] event := by
  intro h
  exact absurd h.mem List.not_mem_nil

variable {newest : Event}

theorem latest_cons_iff : Latest concerns (newest :: log) event ↔
      (concerns newest ∧ event = newest) ∨ (¬ concerns newest ∧ Latest concerns log event) := by
  constructor
  · rintro ⟨later, earlier, hlog, hconcerns, hlater⟩
    cases later with
    | nil =>
      obtain ⟨rfl, rfl⟩ := List.cons.inj hlog
      exact .inl ⟨hconcerns, rfl⟩
    | cons head rest =>
      obtain ⟨rfl, rfl⟩ := List.cons.inj hlog
      refine .inr ⟨hlater _ List.mem_cons_self, rest, earlier, rfl, hconcerns, ?_⟩
      intro other hmem
      exact hlater other (List.mem_cons_of_mem _ hmem)
  · rintro (⟨hconcerns, rfl⟩ | ⟨hnewest, later, earlier, rfl, hconcerns, hlater⟩)
    · exact ⟨[], log, rfl, hconcerns, by simp⟩
    · refine ⟨newest :: later, earlier, rfl, hconcerns, ?_⟩
      intro other hmem
      rcases List.mem_cons.mp hmem with rfl | hrest
      · exact hnewest
      · exact hlater other hrest

theorem latest_cons_of_concerns (hnewest : concerns newest) :
    Latest concerns (newest :: log) event ↔ event = newest := by
  rw [latest_cons_iff]
  simp [hnewest]

theorem latest_cons_of_not (hnewest : ¬ concerns newest) :
    Latest concerns (newest :: log) event ↔ Latest concerns log event := by
  rw [latest_cons_iff]
  simp [hnewest]

variable {other : Event}

theorem exists_latest (hmem : other ∈ log) (hother : concerns other) :
    ∃ event, Latest concerns log event := by
  induction log with
  | nil => exact absurd hmem List.not_mem_nil
  | cons newest rest ih =>
    by_cases hnewest : concerns newest
    · exact ⟨newest, (latest_cons_of_concerns hnewest).mpr rfl⟩
    · rcases List.mem_cons.mp hmem with rfl | hrest
      · exact absurd hother hnewest
      · obtain ⟨event, hlatest⟩ := ih hrest
        exact ⟨event, (latest_cons_of_not hnewest).mpr hlatest⟩

/-- The latest event of a kind came after every other event of the kind. -/
theorem Latest.mem_later {later earlier : List Event}
    (h : Latest concerns (later ++ other :: earlier) event) (hother : concerns other)
    (hne : event ≠ other) : event ∈ later := by
  induction later with
  | nil => exact absurd ((latest_cons_of_concerns hother).mp h) hne
  | cons newest rest ih =>
    rw [List.cons_append, latest_cons_iff] at h
    rcases h with ⟨-, rfl⟩ | ⟨-, hlatest⟩
    · exact List.mem_cons_self
    · exact List.mem_cons_of_mem _ (ih hlatest)

theorem latest_iff_find? [DecidablePred concerns] :
    Latest concerns log event ↔ log.find? (fun event => decide (concerns event)) = some event := by
  induction log with
  | nil => simp
  | cons newest rest ih =>
    rw [latest_cons_iff, ih]
    by_cases hnewest : concerns newest <;> simp [hnewest, eq_comm]

instance [DecidableEq Event] [DecidablePred concerns] : Decidable (Latest concerns log event) :=
  decidable_of_iff _ latest_iff_find?.symm

variable {Ticket : Type v} {issue : Ticket → Event} {before after : Ticket → Prop}

/-- A state shows a ticket exactly when issuing it is the latest event of the kind. -/
def Tracks (concerns : Event → Prop) (issue : Ticket → Event) (log : List Event)
    (shows : Ticket → Prop) : Prop :=
  ∀ ticket, Latest concerns log (issue ticket) ↔ shows ticket

theorem tracks_nil (hshows : ∀ ticket, ¬ before ticket) : Tracks concerns issue [] before := by
  intro ticket
  simp [hshows ticket]

/-- What a step does to the tickets shown: it logs nothing of the kind and shows what was
shown, or it logs one event of the kind and shows the ticket that event issues, if any. -/
inductive Step (concerns : Event → Prop) (issue : Ticket → Event) (events : List Event)
    (before after : Ticket → Prop) : Prop where
  | quiet (hevents : ∀ event ∈ events, ¬ concerns event)
      (hshows : ∀ ticket, after ticket ↔ before ticket)
  | logged (newest : Event) (hevents : events = [newest]) (hnewest : concerns newest)
      (hshows : ∀ ticket, after ticket ↔ issue ticket = newest)

variable {events : List Event}

theorem latest_append_of_not (hevents : ∀ event ∈ events, ¬ concerns event) :
    Latest concerns (events ++ log) event ↔ Latest concerns log event := by
  induction events with
  | nil => rfl
  | cons newest rest ih =>
    rw [List.cons_append, latest_cons_of_not (hevents newest List.mem_cons_self)]
    apply ih
    intro other hmem
    exact hevents other (List.mem_cons_of_mem _ hmem)

theorem Tracks.step (h : Tracks concerns issue log before)
    (hstep : Step concerns issue events before after) :
    Tracks concerns issue (events ++ log) after := by
  intro ticket
  cases hstep with
  | quiet hevents hshows => rw [latest_append_of_not hevents, hshows, h ticket]
  | logged newest hevents hnewest hshows =>
    rw [hevents, List.singleton_append, latest_cons_of_concerns hnewest, hshows]

end OpenGpui.EventLog

namespace OpenGpui

inductive GenerationMark where
  | begun (generation : Nat)
  | accepted (generation : Nat)
deriving DecidableEq

namespace GenerationMark

def IsBegun : GenerationMark → Prop
  | begun _ => True
  | accepted _ => False

def acceptedGeneration : GenerationMark → Option Nat
  | accepted generation => some generation
  | begun _ => none

end GenerationMark

open GenerationMark EventLog List

/-- The counter stands at the newest number, and a number that was accepted was the newest
then and is not accepted again. -/
structure Ledger (current : Nat) (marks : List GenerationMark) : Prop where
  latest : (current = 0 ∧ ∀ generation, .begun generation ∉ marks) ∨
    Latest IsBegun marks (.begun current)
  accepted_le : ∀ generation, .accepted generation ∈ marks → generation ≤ current
  accepted_current : .accepted current ∈ marks → marks.head? = some (.accepted current)
  accepted_once : (marks.filterMap acceptedGeneration).Nodup
  accepted_latest : ∀ later earlier generation, marks = later ++ .accepted generation :: earlier →
    Latest IsBegun earlier (.begun generation)

namespace Ledger

variable {current : Nat} {marks : List GenerationMark}

theorem empty : Ledger 0 [] where
  latest := .inl ⟨rfl, by simp⟩
  accepted_le := by simp
  accepted_current := by simp
  accepted_once := by simp
  accepted_latest := by simp

theorem begin (h : Ledger current marks) :
    Ledger (current + 1) (.begun (current + 1) :: marks) := by
  constructor
  · exact .inr ((latest_cons_of_concerns trivial).mpr rfl)
  · intro generation hmem
    have hle := h.accepted_le generation (by simpa using hmem)
    omega
  · intro hmem
    have hle := h.accepted_le (current + 1) (by simpa using hmem)
    omega
  · show (marks.filterMap acceptedGeneration).Nodup
    exact h.accepted_once
  · intro later earlier generation hmarks
    cases later with
    | nil => simp at hmarks
    | cons newest rest =>
      obtain ⟨-, hrest⟩ := List.cons.inj hmarks
      exact h.accepted_latest rest earlier generation hrest

/-- The newest number is accepted unless its acceptance is the newest mark. -/
theorem accept (h : Ledger current marks) (hbegun : current ≠ 0)
    (hfresh : marks.head? ≠ some (.accepted current)) :
    Ledger current (.accepted current :: marks) := by
  have hlatest : Latest IsBegun marks (.begun current) := by
    rcases h.latest with ⟨hzero, -⟩ | hlatest
    · exact absurd hzero hbegun
    · exact hlatest
  have hnew : .accepted current ∉ marks := fun hmem => hfresh (h.accepted_current hmem)
  constructor
  · exact .inr ((latest_cons_of_not id).mpr hlatest)
  · intro generation hmem
    rcases mem_cons.mp hmem with heq | hmem
    · exact Nat.le_of_eq (GenerationMark.accepted.inj heq)
    · exact h.accepted_le generation hmem
  · intro _
    rfl
  · show (current :: marks.filterMap acceptedGeneration).Nodup
    refine nodup_cons.mpr ⟨?_, h.accepted_once⟩
    intro hmem
    obtain ⟨mark, hmark, heq⟩ := mem_filterMap.mp hmem
    cases mark with
    | begun generation => cases heq
    | accepted generation =>
      obtain rfl : generation = current := Option.some.inj heq
      exact hnew hmark
  · intro later earlier generation hmarks
    cases later with
    | nil =>
      obtain ⟨heq, rfl⟩ := List.cons.inj hmarks
      obtain rfl := GenerationMark.accepted.inj heq
      exact hlatest
    | cons newest rest =>
      obtain ⟨-, hrest⟩ := List.cons.inj hmarks
      exact h.accepted_latest rest earlier generation hrest

end Ledger

end OpenGpui
