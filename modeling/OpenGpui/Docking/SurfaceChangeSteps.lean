/-
What each step of a surface owner keeps: the revisions that were committed and emitted, the
slots between them, and what the receipts report.
-/
import OpenGpui.Docking.SurfaceChanges

namespace OpenGpui.Docking

open List Function Nat Option

namespace SurfaceFact

def emittedRevision : SurfaceFact → Option Nat
  | emitted event => some event.revision
  | _ => none

/-- The revision of a commit with changes. -/
def ownRevision : SurfaceFact → Option Nat
  | committed _ (some _) revision => some revision
  | _ => none

/-- Facts that concern transactions, but neither revisions nor events. -/
def Quiet (fact : SurfaceFact) : Prop :=
  emittedRevision fact = none ∧ ownRevision fact = none ∧ ∀ revision, fact ≠ published revision

end SurfaceFact

open SurfaceFact

abbrev SurfaceLog := List SurfaceFact

/-- The slots are those of the revisions between the emitted and the committed ones, and a slot is
ready when its revision was published. -/
structure SurfaceQueue (revision lastPublished : Nat)
    (slots : Nat → Option PendingSurfacePublication) (log : SurfaceLog) : Prop where
  emitted : log.filterMap emittedRevision = (List.range' 1 lastPublished).reverse
  committed : log.filterMap ownRevision = (List.range' 1 revision).reverse
  revision_le : revision ≤ U64_MAX
  lastPublished_le : lastPublished ≤ revision
  slot_le : ∀ slot publication, slots slot = some publication →
    lastPublished < slot ∧ slot ≤ revision
  slot_event : ∀ slot publication, slots slot = some publication →
    publication.event.revision = slot ∧
      ∃ transaction, .committed transaction (some publication.event) slot ∈ log
  slot_ready : ∀ slot publication, slots slot = some publication →
    (publication.ready = true ↔ .published slot ∈ log)
  slot_some : ∀ slot, lastPublished < slot → slot ≤ revision → (slots slot).isSome = true
  published_le : ∀ published, .published published ∈ log → published ≤ revision
  emitted_published : ∀ emitted, 0 < emitted → emitted ≤ lastPublished → .published emitted ∈ log
  event_revision : ∀ transaction event own, .committed transaction (some event) own ∈ log →
    event.revision = own
  emitted_committed : ∀ event, .emitted event ∈ log →
    ∃ transaction, .committed transaction (some event) event.revision ∈ log

namespace SurfaceQueue

variable {revision lastPublished : Nat} {slots : Nat → Option PendingSurfacePublication}
  {log : SurfaceLog}

theorem new : SurfaceQueue 0 0 (fun _ => none) [] where
  emitted := rfl
  committed := rfl
  revision_le := zero_le _
  lastPublished_le := le_refl _
  slot_le _ _ hslot := nomatch hslot
  slot_event _ _ hslot := nomatch hslot
  slot_ready _ _ hslot := nomatch hslot
  slot_some _ hlow hhigh := absurd (lt_of_lt_of_le hlow hhigh) (lt_irrefl 0)
  published_le _ hmem := absurd hmem not_mem_nil
  emitted_published _ hlow hhigh := absurd (lt_of_lt_of_le hlow hhigh) (lt_irrefl 0)
  event_revision _ _ _ hmem := absurd hmem not_mem_nil
  emitted_committed _ hmem := absurd hmem not_mem_nil

section

variable (h : SurfaceQueue revision lastPublished slots log)

include h

theorem quiet {fact : SurfaceFact}
    (hquiet : fact.Quiet) : SurfaceQueue revision lastPublished slots (fact :: log) where
  emitted := by rw [filterMap_cons_none hquiet.1, h.emitted]
  committed := by rw [filterMap_cons_none hquiet.2.1, h.committed]
  revision_le := h.revision_le
  lastPublished_le := h.lastPublished_le
  slot_le := h.slot_le
  slot_event slot publication hslot := by
    obtain ⟨hrevision, transaction, hmem⟩ := h.slot_event slot publication hslot
    exact ⟨hrevision, transaction, mem_cons_of_mem _ hmem⟩
  slot_ready slot publication hslot := by
    rw [h.slot_ready slot publication hslot, mem_cons]
    exact (or_iff_right (hquiet.2.2 slot).symm).symm
  slot_some := h.slot_some
  published_le published hmem := by
    rcases mem_cons.mp hmem with rfl | hmem
    · exact absurd rfl (hquiet.2.2 published)
    · exact h.published_le published hmem
  emitted_published emitted hlow hhigh := mem_cons_of_mem _ (h.emitted_published emitted hlow hhigh)
  event_revision transaction event own hmem := by
    rcases mem_cons.mp hmem with rfl | hmem
    · exact absurd hquiet.2.1 (by simp [ownRevision])
    · exact h.event_revision transaction event own hmem
  emitted_committed event hmem := by
    rcases mem_cons.mp hmem with rfl | hmem
    · exact absurd hquiet.1 (by simp [emittedRevision])
    · obtain ⟨transaction, hcommitted⟩ := h.emitted_committed event hmem
      exact ⟨transaction, mem_cons_of_mem _ hcommitted⟩

/-- The slot of the next revision is free. -/
theorem slot_next : slots (revision + 1) = none := by
  cases hslot : slots (revision + 1) with
  | none => rfl
  | some publication =>
    exact absurd (h.slot_le _ _ hslot).2 (not_succ_le_self revision)

end

variable {event : SurfaceChangeEvent} (h : SurfaceQueue revision lastPublished slots log)

include h

section

variable {transaction own : Nat} (hmem : .committed transaction (some event) own ∈ log)

include hmem

/-- The revision of a commit with changes is one of those that were given out. -/
theorem own_mem : 0 < own ∧ own ≤ revision := by
  have hown : own ∈ log.filterMap ownRevision := mem_filterMap.mpr ⟨_, hmem, rfl⟩
  rw [h.committed, mem_reverse, mem_range'_1] at hown
  omega

/-- A commit that was not published yet still has its slot. -/
theorem slot_of_unpublished (hnot : .published own ∉ log) :
    ∃ publication, slots own = some publication := by
  obtain ⟨hpos, hle⟩ := h.own_mem hmem
  have hlow : lastPublished < own :=
    Nat.lt_of_not_le fun hhigh => hnot (h.emitted_published own hpos hhigh)
  exact isSome_iff_exists.mp (h.slot_some own hlow hle)

end

theorem commit (hmax : revision ≠ U64_MAX)
    (transaction : Nat) (hevent : event.revision = revision + 1) :
    SurfaceQueue (revision + 1) lastPublished
      (Function.update slots (revision + 1) (some ⟨event, false⟩))
      (.committed transaction (some event) (revision + 1) :: log) where
  emitted := by rw [filterMap_cons_none rfl, h.emitted]
  committed := by
    have hown : ownRevision (.committed transaction (some event) (revision + 1)) =
        some (revision + 1) := rfl
    rw [filterMap_cons_some hown, h.committed, range'_1_concat, reverse_append, add_comm 1 revision]
    rfl
  revision_le := succ_le_of_lt (lt_of_le_of_ne h.revision_le hmax)
  lastPublished_le := le_succ_of_le h.lastPublished_le
  slot_le slot publication hslot := by
    rw [update_apply] at hslot
    split at hslot
    · rename_i heq
      exact ⟨heq ▸ lt_succ_of_le h.lastPublished_le, heq.le⟩
    · obtain ⟨hlow, hhigh⟩ := h.slot_le slot publication hslot
      exact ⟨hlow, le_succ_of_le hhigh⟩
  slot_event slot publication hslot := by
    rw [update_apply] at hslot
    split at hslot
    · rename_i heq
      obtain rfl := some.inj hslot
      rw [heq]
      exact ⟨hevent, transaction, mem_cons_self⟩
    · obtain ⟨hrevision, other, hmem⟩ := h.slot_event slot publication hslot
      exact ⟨hrevision, other, mem_cons_of_mem _ hmem⟩
  slot_ready slot publication hslot := by
    rw [mem_cons, or_iff_right (by simp)]
    rw [update_apply] at hslot
    split at hslot
    · rename_i heq
      obtain rfl := some.inj hslot
      refine iff_of_false Bool.false_ne_true fun hmem => ?_
      exact absurd (h.published_le slot hmem) (heq ▸ not_succ_le_self revision)
    · exact h.slot_ready slot publication hslot
  slot_some slot hlow hhigh := by
    rw [update_apply]
    split
    · rfl
    · rename_i hne
      exact h.slot_some slot hlow (le_of_lt_succ (lt_of_le_of_ne hhigh hne))
  published_le published hmem := by
    rcases mem_cons.mp hmem with heq | hmem
    · cases heq
    · exact le_succ_of_le (h.published_le published hmem)
  emitted_published emitted hlow hhigh := mem_cons_of_mem _ (h.emitted_published emitted hlow hhigh)
  event_revision other event' own hmem := by
    rcases mem_cons.mp hmem with heq | hmem
    · cases heq
      exact hevent
    · exact h.event_revision other event' own hmem
  emitted_committed event' hmem := by
    rcases mem_cons.mp hmem with heq | hmem
    · cases heq
    · obtain ⟨other, hcommitted⟩ := h.emitted_committed event' hmem
      exact ⟨other, mem_cons_of_mem _ hcommitted⟩

variable {publication : PendingSurfacePublication}

theorem publish {slot : Nat} (hslot : slots slot = some publication) :
    SurfaceQueue revision lastPublished
      (Function.update slots slot (some { publication with ready := true }))
      (.published slot :: log) where
  emitted := by rw [filterMap_cons_none rfl, h.emitted]
  committed := by rw [filterMap_cons_none rfl, h.committed]
  revision_le := h.revision_le
  lastPublished_le := h.lastPublished_le
  slot_le other publication' hother := by
    rw [update_apply] at hother
    split at hother
    · rename_i heq
      exact heq ▸ h.slot_le slot publication hslot
    · exact h.slot_le other publication' hother
  slot_event other publication' hother := by
    rw [update_apply] at hother
    split at hother
    · rename_i heq
      obtain rfl := some.inj hother
      obtain ⟨hrevision, transaction, hmem⟩ := h.slot_event slot publication hslot
      subst heq
      exact ⟨hrevision, transaction, mem_cons_of_mem _ hmem⟩
    · obtain ⟨hrevision, transaction, hmem⟩ := h.slot_event other publication' hother
      exact ⟨hrevision, transaction, mem_cons_of_mem _ hmem⟩
  slot_ready other publication' hother := by
    rw [update_apply] at hother
    split at hother
    · rename_i heq
      obtain rfl := some.inj hother
      exact iff_of_true rfl (heq ▸ mem_cons_self)
    · rename_i hne
      rw [h.slot_ready other publication' hother, mem_cons, SurfaceFact.published.injEq,
        or_iff_right hne]
  slot_some other hlow hhigh := by
    rw [update_apply]
    split
    · rfl
    · exact h.slot_some other hlow hhigh
  published_le published hmem := by
    rcases mem_cons.mp hmem with heq | hmem
    · cases heq
      exact (h.slot_le slot publication hslot).2
    · exact h.published_le published hmem
  emitted_published emitted hlow hhigh := mem_cons_of_mem _ (h.emitted_published emitted hlow hhigh)
  event_revision transaction event own hmem := by
    rcases mem_cons.mp hmem with heq | hmem
    · cases heq
    · exact h.event_revision transaction event own hmem
  emitted_committed event hmem := by
    rcases mem_cons.mp hmem with heq | hmem
    · cases heq
    · obtain ⟨transaction, hcommitted⟩ := h.emitted_committed event hmem
      exact ⟨transaction, mem_cons_of_mem _ hcommitted⟩

theorem emit
    (hslot : slots (lastPublished + 1) = some publication) (hready : publication.ready = true) :
    SurfaceQueue revision (lastPublished + 1) (Function.update slots (lastPublished + 1) none)
      (.emitted publication.event :: log) where
  emitted := by
    have hrevision : emittedRevision (.emitted publication.event) = some (lastPublished + 1) :=
      congrArg some (h.slot_event _ _ hslot).1
    rw [filterMap_cons_some hrevision, h.emitted, range'_1_concat,
      reverse_append, add_comm 1 lastPublished]
    rfl
  committed := by rw [filterMap_cons_none rfl, h.committed]
  revision_le := h.revision_le
  lastPublished_le := (h.slot_le _ _ hslot).2
  slot_le slot other hother := by
    rw [update_apply] at hother
    split at hother
    · cases hother
    · rename_i hne
      obtain ⟨hlow, hhigh⟩ := h.slot_le slot other hother
      exact ⟨lt_of_le_of_ne hlow (Ne.symm hne), hhigh⟩
  slot_event slot other hother := by
    rw [update_apply] at hother
    split at hother
    · cases hother
    · obtain ⟨hrevision, transaction, hmem⟩ := h.slot_event slot other hother
      exact ⟨hrevision, transaction, mem_cons_of_mem _ hmem⟩
  slot_ready slot other hother := by
    rw [update_apply] at hother
    split at hother
    · cases hother
    · rw [h.slot_ready slot other hother, mem_cons, or_iff_right (by simp)]
  slot_some slot hlow hhigh := by
    rw [update_apply, if_neg (ne_of_gt hlow)]
    exact h.slot_some slot (lt_of_succ_lt hlow) hhigh
  published_le published hmem := by
    rcases mem_cons.mp hmem with heq | hmem
    · cases heq
    · exact h.published_le published hmem
  emitted_published emitted hlow hhigh := by
    rcases lt_or_eq_of_le hhigh with hlt | rfl
    · exact mem_cons_of_mem _ (h.emitted_published emitted hlow (le_of_lt_succ hlt))
    · exact mem_cons_of_mem _ ((h.slot_ready _ _ hslot).mp hready)
  event_revision transaction event own hmem := by
    rcases mem_cons.mp hmem with heq | hmem
    · cases heq
    · exact h.event_revision transaction event own hmem
  emitted_committed event hmem := by
    rcases mem_cons.mp hmem with heq | hmem
    · cases heq
      obtain ⟨hrevision, transaction, hcommitted⟩ := h.slot_event _ _ hslot
      exact ⟨transaction, mem_cons_of_mem _ (hrevision.symm ▸ hcommitted)⟩
    · obtain ⟨transaction, hcommitted⟩ := h.emitted_committed event hmem
      exact ⟨transaction, mem_cons_of_mem _ hcommitted⟩

end SurfaceQueue

end OpenGpui.Docking
