/-
What the projection of active scopes is: their contributions laid over each other, one for
each command id, with one diagnostic for each contribution that was replaced.
-/
import OpenGpui.Command.Scopes

namespace OpenGpui.Command.ScopedCommandRegistry

open List

open Overlay

variable (self : ScopedCommandRegistry)

def contributionsOf (scopeId : CommandScopeId) :
    List CommandContribution :=
  (self.scopes[scopeId]?.map CommandScope.contributions).getD []

/-- A contribution of a scope, with the id of the scope. -/
abbrev Scoped := CommandScopeId × CommandContribution

def Scoped.commandId (entry : Scoped) : String := entry.2.id

/-- What the active scopes contribute, in the order the projection meets it. -/
def activeContributions (active : List CommandScopeId) :
    List Scoped :=
  active.flatMap fun scopeId => (self.contributionsOf scopeId).map (Prod.mk scopeId)

/-- The diagnostic of a replacement, which the scope of the new contribution introduces. -/
def diagnosticOf (replacement : Scoped × Scoped) : CommandProjectionDiagnostic where
  commandId := replacement.2.commandId
  scopeId := replacement.2.1
  replacedSource := replacement.1.2.source
  activeSource := replacement.2.2.source

/-- Every id of the active scopes once and where it first comes up, from the last active scope
that defines it; and a diagnostic for each replacement. -/
structure LastScopeWins (registry : ScopedCommandRegistry) (active : List CommandScopeId)
    (projection : CommandScopeProjection) : Prop where
  revision : projection.snapshot.revision = registry.revision
  order : projection.snapshot.contributions.map CommandContribution.id =
    ((registry.activeContributions active).map Scoped.commandId).eraseDups
  last : ∀ contribution ∈ projection.snapshot.contributions, ∃ before scopeId after,
    active = before ++ scopeId :: after ∧ contribution ∈ registry.contributionsOf scopeId ∧
      ∀ later ∈ after, contribution.id ∉ (registry.contributionsOf later).map CommandContribution.id
  diagnostics : projection.diagnostics =
    (replaced Scoped.commandId [] (registry.activeContributions active)).map diagnosticOf

/-- The locals after a log of contributions, the latest first. -/
structure Projecting.Tracks (locals : Projecting) (log : List Scoped) : Prop where
  contributions : locals.contributions = (overlay Scoped.commandId log).map Prod.snd
  positions : ∀ (id : String) (position : Nat), locals.positions[id]? = some position ↔
    ((overlay Scoped.commandId log).map Scoped.commandId)[position]? = some id

theorem Projecting.Tracks.start : Projecting.start.Tracks [] where
  contributions := rfl
  positions id position := by simp [Projecting.start, overlay]

variable {locals : Projecting} {log : List Scoped}

section

variable (h : locals.Tracks log)

include h

theorem Projecting.Tracks.get_position {id : String} {position : Nat}
    (hposition : locals.positions[id]? = some position) :
    ∃ old, (overlay Scoped.commandId log)[position]? = some old ∧ old.commandId = id := by
  have hkey := (h.positions id position).mp hposition
  rw [getElem?_map, Option.map_eq_some_iff] at hkey
  exact hkey

theorem Projecting.Tracks.mem_iff (id : String) :
    id ∈ (overlay Scoped.commandId log).map Scoped.commandId ↔
      ∃ position, locals.positions[id]? = some position := by
  simp only [mem_iff_getElem?, h.positions]

/-- One contribution is laid over the others and reports what it replaces. -/
theorem Projecting.Tracks.contribute (scopeId : CommandScopeId)
    (contribution : CommandContribution) :
    ∃ next, locals.contribute scopeId contribution = some next ∧
      next.Tracks ((scopeId, contribution) :: log) ∧
      next.diagnostics = locals.diagnostics ++
        (replaced Scoped.commandId log [(scopeId, contribution)]).map diagnosticOf := by
  have hnodup := keys_nodup Scoped.commandId log
  rw [Projecting.contribute]
  cases hposition : locals.positions[contribution.descriptor.id]? with
  | some position =>
    obtain ⟨old, hold, hsame⟩ := h.get_position hposition
    have hplace : place Scoped.commandId (scopeId, contribution) (overlay Scoped.commandId log) =
        (overlay Scoped.commandId log).set position (scopeId, contribution) :=
      place_eq_set hnodup hold hsame
    have hin : Scoped.commandId (scopeId, contribution) ∈
        (overlay Scoped.commandId log).map Scoped.commandId := by
      have hmem := mem_map_of_mem (f := Scoped.commandId) (mem_of_getElem? hold)
      rwa [hsame] at hmem
    have hget : locals.contributions[position]? = some old.2 := by
      rw [h.contributions, getElem?_map, hold, Option.map_some]
    have hfind : (log.find? fun other => decide (other.commandId =
        Scoped.commandId (scopeId, contribution))) = some old := by
      have hleft := mem_overlay_iff.mp (mem_of_getElem? hold)
      rw [hsame] at hleft
      exact hleft
    simp only [hget, Option.bind_eq_bind, Option.bind_some]
    refine ⟨_, rfl, ⟨?_, ?_⟩, ?_⟩
    · rw [overlay, hplace, map_set, h.contributions]
    · intro id other
      rw [overlay, map_key_place, if_pos hin]
      exact h.positions id other
    · simp only [replaced, hfind]
      rfl
  | none =>
    have hnew : Scoped.commandId (scopeId, contribution) ∉
        (overlay Scoped.commandId log).map Scoped.commandId := by
      intro hin
      obtain ⟨position, hget⟩ := (h.mem_iff _).mp hin
      exact absurd (hget.symm.trans hposition) (by simp)
    have hfind : (log.find? fun other => decide (other.commandId =
        Scoped.commandId (scopeId, contribution))) = none := by
      rw [find?_eq_none]
      intro other hother hsame
      rw [map_key_overlay, mem_eraseDups] at hnew
      exact hnew (of_decide_eq_true hsame ▸ mem_map_of_mem (mem_reverse.mpr hother))
    refine ⟨_, rfl, ⟨?_, ?_⟩, ?_⟩
    · rw [overlay, place_eq_append hnew, map_append, h.contributions]
      rfl
    · intro id other
      rw [overlay, map_key_place, if_neg hnew, getElem?_append_singleton_iff hnew,
        KeyMap.get_insert, h.contributions, length_map, length_map]
      by_cases heq : contribution.descriptor.id = id
      · rw [if_pos heq, if_pos (show Scoped.commandId (scopeId, contribution) = id from heq),
          Option.some.injEq]
      · rw [if_neg heq, if_neg (show ¬ Scoped.commandId (scopeId, contribution) = id from heq)]
        exact h.positions id other
    · simp only [replaced, hfind, Option.map_none, Option.toList_none, append_nil, map_nil]

theorem Projecting.Tracks.contributeAll (scopeId : CommandScopeId)
    (contributions : List CommandContribution) :
    ∃ next, locals.contributeAll scopeId contributions = some next ∧
      next.Tracks ((contributions.map (Prod.mk scopeId)).reverse ++ log) ∧
      next.diagnostics = locals.diagnostics ++
        (replaced Scoped.commandId log (contributions.map (Prod.mk scopeId))).map diagnosticOf := by
  induction contributions generalizing locals log with
  | nil => exact ⟨locals, rfl, h, by simp [replaced]⟩
  | cons contribution rest ih =>
    obtain ⟨middle, hmiddle, htracks, hdiagnostics⟩ := h.contribute scopeId contribution
    obtain ⟨next, hnext, hlast, hall⟩ := ih htracks
    refine ⟨next, ?_, ?_, ?_⟩
    · rw [Projecting.contributeAll, hmiddle, Option.bind_some, hnext]
    · rw [map_cons, reverse_cons, append_assoc]
      exact hlast
    · have happ := replaced_append Scoped.commandId log [(scopeId, contribution)]
        (rest.map (Prod.mk scopeId))
      rw [singleton_append] at happ
      rw [hall, hdiagnostics, map_cons, happ, map_append, append_assoc]
      rfl

end

variable (registry : ScopedCommandRegistry)

theorem Projecting.Tracks.projectScopes (h : locals.Tracks log) (active : List CommandScopeId) :
    ∃ next, registry.projectScopes active locals = some next ∧
      next.Tracks ((registry.activeContributions active).reverse ++ log) ∧
      next.diagnostics = locals.diagnostics ++
        (replaced Scoped.commandId log (registry.activeContributions active)).map diagnosticOf := by
  induction active generalizing locals log with
  | nil => exact ⟨locals, rfl, h, by simp [activeContributions, replaced]⟩
  | cons scopeId rest ih =>
    rw [ScopedCommandRegistry.projectScopes, activeContributions, flatMap_cons]
    cases hget : registry.scopes[scopeId]? with
    | none =>
      rw [contributionsOf, hget]
      exact ih h
    | some scope =>
      obtain ⟨middle, hmiddle, htracks, hdiagnostics⟩ := h.contributeAll scopeId scope.contributions
      obtain ⟨next, hnext, hlast, hall⟩ := ih htracks
      have hscope : registry.contributionsOf scopeId = scope.contributions := by
        rw [contributionsOf, hget]
        rfl
      refine ⟨next, ?_, ?_, ?_⟩
      · show (locals.contributeAll scopeId scope.contributions).bind _ = _
        rw [hmiddle, Option.bind_some, hnext]
      · rw [hscope, reverse_append, append_assoc]
        exact hlast
      · rw [hall, hdiagnostics, hscope, replaced_append Scoped.commandId, map_append, append_assoc]
        rfl

/-- A piece of a concatenation that starts at an entry ends the part of some scope, and the
parts of the scopes behind that one follow the entry. -/
theorem exists_part_of_flatMap {α β : Type*} {part : α → List β} {parts : List α}
    {front back : List β} {entry : β} (h : parts.flatMap part = front ++ entry :: back) :
    ∃ before owner after, parts = before ++ owner :: after ∧ entry ∈ part owner ∧
      after.flatMap part ⊆ back := by
  induction parts generalizing front with
  | nil => simp at h
  | cons owner rest ih =>
    rcases append_eq_append_iff.mp h with ⟨middle, _, hrest⟩ | ⟨middle, howner, hback⟩
    · obtain ⟨before, last, after, rfl, hentry, hafter⟩ := ih hrest
      exact ⟨owner :: before, last, after, rfl, hentry, hafter⟩
    · cases middle with
      | nil =>
        have hrest : rest.flatMap part = [] ++ entry :: back := hback.symm
        obtain ⟨before, last, after, rfl, hentry, hafter⟩ := ih hrest
        exact ⟨owner :: before, last, after, rfl, hentry, hafter⟩
      | cons head tail =>
        obtain ⟨rfl, rfl⟩ := hback
        exact ⟨[], owner, rest, rfl, howner ▸ mem_append_right _ mem_cons_self,
          subset_append_right _ _⟩

theorem exists_last_scope {active : List CommandScopeId} {entry : Scoped}
    (h : entry ∈ overlay Scoped.commandId (registry.activeContributions active).reverse) :
    ∃ before scopeId after, active = before ++ scopeId :: after ∧
      entry.2 ∈ registry.contributionsOf scopeId ∧
      ∀ later ∈ after, entry.2.id ∉
        (registry.contributionsOf later).map CommandContribution.id := by
  obtain ⟨_, newer, older, hsplit, hnewer⟩ := find?_eq_some_iff_append.mp (mem_overlay_iff.mp h)
  have hactive : registry.activeContributions active = older.reverse ++ entry :: newer.reverse := by
    rw [← reverse_reverse (registry.activeContributions active), hsplit, reverse_append,
      reverse_cons, append_assoc, singleton_append]
  obtain ⟨before, scopeId, after, hparts, hentry, hafter⟩ := exists_part_of_flatMap hactive
  refine ⟨before, scopeId, after, hparts, ?_, ?_⟩
  · obtain ⟨contribution, hcontribution, rfl⟩ := mem_map.mp hentry
    exact hcontribution
  · intro later hlater hin
    obtain ⟨contribution, hcontribution, hsame⟩ := mem_map.mp hin
    have hmem : (later, contribution) ∈ newer := by
      apply mem_reverse.mp
      apply hafter
      exact mem_flatMap.mpr ⟨later, hlater, mem_map_of_mem hcontribution⟩
    have hne := hnewer _ hmem
    simp only [Bool.not_eq_true', decide_eq_false_iff_not] at hne
    exact hne hsame

theorem projectActiveScopes_eq_some (active : List CommandScopeId) :
    ∃ projection, registry.projectActiveScopes active = some projection ∧
      registry.LastScopeWins active projection := by
  obtain ⟨last, hlast, htracks, hdiagnostics⟩ :=
    Projecting.Tracks.start.projectScopes registry active
  rw [append_nil] at htracks
  refine ⟨_, by rw [projectActiveScopes, hlast, Option.map_some], rfl, ?_, ?_, hdiagnostics⟩
  · have hkeys := map_key_overlay Scoped.commandId (registry.activeContributions active).reverse
    rw [reverse_reverse] at hkeys
    rw [← hkeys, htracks.contributions, map_map]
    rfl
  · intro contribution hin
    rw [htracks.contributions] at hin
    obtain ⟨entry, hentry, rfl⟩ := mem_map.mp hin
    exact exists_last_scope registry hentry

/-- Whatever calls built the registry: it is consistent, a registration that fails leaves it as
it is, and every list of active scopes is projected with the last scope winning. -/
theorem afterCalls_lastScopeWins (revision : String) (calls : List RegistryCall) :
    ((new revision).afterCalls calls).Consistent ∧
      (∀ call error, (((new revision).afterCalls calls).handle call).1 =
        .registered (.error error) →
        (((new revision).afterCalls calls).handle call).2 = (new revision).afterCalls calls) ∧
      ∀ active, ∃ projection,
        ((new revision).afterCalls calls).projectActiveScopes active = some projection ∧
          ((new revision).afterCalls calls).LastScopeWins active projection :=
  ⟨(Consistent.new revision).afterCalls calls, fun _ _ hfailed => handle_of_error hfailed,
    projectActiveScopes_eq_some _⟩

end OpenGpui.Command.ScopedCommandRegistry
