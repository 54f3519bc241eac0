/-
Command metadata, and commands registered in scopes: the active scopes are laid over each
other in the order the caller gives, and the last one that defines a command wins.
-/
import OpenGpui.Collections
import OpenGpui.Library.Overlay
import Mathlib.Algebra.GroupWithZero.Nat

namespace OpenGpui.Command

abbrev CommandSourceId := String

structure CommandIconDescriptor where
  name : String
  fallbackLabel : Option String

structure CommandDescriptor where
  id : String
  label : String
  icon : Option CommandIconDescriptor
  group : Option String
  keywords : List String
  shortcut : Option String
  disabled : Bool
  disabledReason : Option String
  tooltip : Option String
  accessibilityDescription : Option String
  when : Option String
  menuPath : List String

def CommandDescriptor.new (id label : String) : CommandDescriptor where
  id := id
  label := label
  icon := none
  group := none
  keywords := []
  shortcut := none
  disabled := false
  disabledReason := none
  tooltip := none
  accessibilityDescription := none
  when := none
  menuPath := []

structure CommandContribution where
  descriptor : CommandDescriptor
  source : Option CommandSourceId

/-- The id a contribution is registered under. -/
def CommandContribution.id (contribution : CommandContribution) : String :=
  contribution.descriptor.id

structure CommandRegistrySnapshot where
  revision : String
  contributions : List CommandContribution

def CommandRegistrySnapshot.descriptors (snapshot : CommandRegistrySnapshot) :
    List CommandDescriptor :=
  snapshot.contributions.map CommandContribution.descriptor

/-- The registration of an id that is taken. -/
structure CommandRegistryError where
  id : String

open Overlay List KeyMap Option

abbrev CommandScopeId := String

structure CommandScope where
  contributions : List CommandContribution
  ids : Std.ExtTreeSet String

/-- The scope `or_default` creates. -/
def CommandScope.default : CommandScope := ⟨[], ∅⟩

/-- Keeps the contributions of other sources and collects their ids anew. -/
def CommandScope.withoutSource (scope : CommandScope) (sourceId : CommandSourceId) : CommandScope :=
  let kept := scope.contributions.filter fun contribution => contribution.source != some sourceId
  { contributions := kept
    ids := kept.foldl (fun nextIds contribution => nextIds.insert contribution.descriptor.id) ∅ }

/-- A later active scope replaced an earlier contribution with the same command id. -/
structure CommandProjectionDiagnostic where
  commandId : String
  scopeId : CommandScopeId
  replacedSource : Option CommandSourceId
  activeSource : Option CommandSourceId

structure CommandScopeProjection where
  snapshot : CommandRegistrySnapshot
  diagnostics : List CommandProjectionDiagnostic

structure ScopedCommandRegistry where
  revision : String
  scopeOrder : List CommandScopeId
  scopes : KeyMap CommandScopeId CommandScope

namespace ScopedCommandRegistry

def new (revision : String) : ScopedCommandRegistry := ⟨revision, [], ∅⟩

variable (self : ScopedCommandRegistry) (scopeId : CommandScopeId)

/-- The scope's entry, which is created at the end of the order when there is none. -/
def orDefault : CommandScope × ScopedCommandRegistry :=
  match self.scopes[scopeId]? with
  | some scope => (scope, self)
  | none =>
    (.default, { self with
      scopeOrder := self.scopeOrder ++ [scopeId]
      scopes := self.scopes.insert scopeId .default })

def setScope (scope : CommandScope) : ScopedCommandRegistry :=
  { self with scopes := self.scopes.insert scopeId scope }

variable (contribution : CommandContribution)

/-- The order and the entry are made before the id is checked. -/
def registerInScope :
    Except CommandRegistryError Unit × ScopedCommandRegistry :=
  if scopeId = "" then (.ok (), self)
  else
    let entered := self.orDefault scopeId
    let commandId := contribution.descriptor.id
    if commandId ∈ entered.1.ids then (.error ⟨commandId⟩, entered.2)
    else
      (.ok (), entered.2.setScope scopeId {
        contributions := entered.1.contributions ++ [contribution]
        ids := entered.1.ids.insert commandId })

/-- The ids with those of a batch, or the first id that is taken. -/
def insertIds : Std.ExtTreeSet String → List CommandContribution →
    Except CommandRegistryError (Std.ExtTreeSet String)
  | ids, [] => .ok ids
  | ids, contribution :: rest =>
    if contribution.descriptor.id ∈ ids then .error ⟨contribution.descriptor.id⟩
    else insertIds (ids.insert contribution.descriptor.id) rest

def registerAllInScope (contributions : List CommandContribution) :
    Except CommandRegistryError Unit × ScopedCommandRegistry :=
  if scopeId = "" then (.ok (), self)
  else
    match insertIds ((self.scopes[scopeId]?.map CommandScope.ids).getD ∅) contributions with
    | .error error => (.error error, self)
    | .ok nextIds =>
      let entered := self.orDefault scopeId
      (.ok (), entered.2.setScope scopeId {
        contributions := entered.1.contributions ++ contributions
        ids := nextIds })

def unregisterScope : Bool × ScopedCommandRegistry :=
  if scopeId ∈ self.scopes then
    (true, { self with
      scopes := self.scopes.erase scopeId
      scopeOrder := self.scopeOrder.filter fun candidate => candidate != scopeId })
  else (false, self)

/-- A scope that has lost all its contributions stays. -/
def unregisterSource (sourceId : CommandSourceId) : Nat × ScopedCommandRegistry :=
  let removed := (self.scopes.toList.map fun entry =>
    entry.2.contributions.countP fun contribution => contribution.source == some sourceId).sum
  (removed, { self with scopes := self.scopes.map fun _ scope => scope.withoutSource sourceId })

/-! The projection of active scopes. -/

/-- The projection's locals: the contributions, the position of each id in them, and the
diagnostics. -/
structure Projecting where
  contributions : List CommandContribution
  positions : KeyMap String Nat
  diagnostics : List CommandProjectionDiagnostic

def Projecting.start : Projecting := ⟨[], ∅, []⟩

/-- One contribution of an active scope; `none` is the panic of an index that is out of
range. -/
def Projecting.contribute (locals : Projecting) : Option Projecting :=
  let commandId := contribution.descriptor.id
  match locals.positions[commandId]? with
  | some position => do
      let replaced ← locals.contributions[position]?
      some { locals with
        diagnostics := locals.diagnostics ++
          [⟨commandId, scopeId, replaced.source, contribution.source⟩]
        contributions := locals.contributions.set position contribution }
  | none =>
    some { locals with
      positions := locals.positions.insert commandId locals.contributions.length
      contributions := locals.contributions ++ [contribution] }

def Projecting.contributeAll (scopeId : CommandScopeId) :
    List CommandContribution → Projecting → Option Projecting
  | [], locals => some locals
  | contribution :: rest, locals =>
    (locals.contribute scopeId contribution).bind (contributeAll scopeId rest)

def projectScopes (self : ScopedCommandRegistry) :
    List CommandScopeId → Projecting → Option Projecting
  | [], locals => some locals
  | scopeId :: rest, locals =>
    match self.scopes[scopeId]? with
    | none => self.projectScopes rest locals
    | some scope =>
      (locals.contributeAll scopeId scope.contributions).bind (self.projectScopes rest)

/-- Later active scopes replace earlier contributions with the same command id and emit
duplicate diagnostics. -/
def projectActiveScopes (activeScopeIds : List CommandScopeId) : Option CommandScopeProjection :=
  (self.projectScopes activeScopeIds .start).map fun locals =>
    ⟨⟨self.revision, locals.contributions⟩, locals.diagnostics⟩

/-! Runs of the registering and unregistering calls. -/

inductive RegistryCall where
  | registerInScope (scopeId : CommandScopeId) (contribution : CommandContribution)
  | registerAllInScope (scopeId : CommandScopeId) (contributions : List CommandContribution)
  | unregisterScope (scopeId : CommandScopeId)
  | unregisterSource (sourceId : CommandSourceId)

inductive RegistryReply where
  | registered (result : Except CommandRegistryError Unit)
  | scopeRemoved (removed : Bool)
  | contributionsRemoved (removed : Nat)

def handle : RegistryCall → RegistryReply × ScopedCommandRegistry
  | .registerInScope scopeId contribution =>
    (self.registerInScope scopeId contribution).map .registered id
  | .registerAllInScope scopeId contributions =>
    (self.registerAllInScope scopeId contributions).map .registered id
  | .unregisterScope scopeId => (self.unregisterScope scopeId).map .scopeRemoved id
  | .unregisterSource sourceId => (self.unregisterSource sourceId).map .contributionsRemoved id

def afterCalls (calls : List RegistryCall) : ScopedCommandRegistry :=
  calls.foldl (fun registry call => (registry.handle call).2) self

end ScopedCommandRegistry

/-- The ids are those of the contributions, and no two contributions share one. -/
structure CommandScope.Consistent (scope : CommandScope) : Prop where
  mem_ids : ∀ id, id ∈ scope.ids ↔ id ∈ scope.contributions.map CommandContribution.id
  distinct : (scope.contributions.map CommandContribution.id).Nodup

namespace CommandScope.Consistent

theorem default : CommandScope.default.Consistent where
  mem_ids id := by simp [CommandScope.default]
  distinct := nodup_nil

variable {scope : CommandScope}

theorem extend (h : scope.Consistent)
    {added : List CommandContribution} {nextIds : Std.ExtTreeSet String}
    (hids : ∀ id, id ∈ nextIds ↔ id ∈ scope.ids ∨ id ∈ added.map CommandContribution.id)
    (hdistinct : (added.map CommandContribution.id).Nodup)
    (hnew : ∀ id ∈ added.map CommandContribution.id, id ∉ scope.ids) :
    CommandScope.Consistent ⟨scope.contributions ++ added, nextIds⟩ where
  mem_ids id := by
    rw [hids, h.mem_ids, map_append, mem_append]
  distinct := by
    rw [map_append]
    refine h.distinct.append hdistinct ?_
    intro id hold hadded
    exact hnew id hadded ((h.mem_ids id).mpr hold)

theorem mem_foldl_insert {contributions : List CommandContribution}
    {ids : Std.ExtTreeSet String} {id : String} :
    id ∈ contributions.foldl
        (fun nextIds contribution => nextIds.insert contribution.descriptor.id) ids ↔
      id ∈ ids ∨ id ∈ contributions.map CommandContribution.id := by
  induction contributions generalizing ids with
  | nil => simp
  | cons contribution rest ih =>
    rw [foldl_cons, ih, Std.ExtTreeSet.mem_insert, Std.LawfulEqCmp.compare_eq_iff_eq,
      map_cons, mem_cons, CommandContribution.id]
    tauto

theorem withoutSource (h : scope.Consistent) (sourceId : CommandSourceId) :
    (scope.withoutSource sourceId).Consistent where
  mem_ids id := by
    simp only [CommandScope.withoutSource, mem_foldl_insert, Std.ExtTreeSet.not_mem_empty, false_or]
  distinct := h.distinct.sublist (filter_sublist.map _)

end CommandScope.Consistent

namespace ScopedCommandRegistry

/-- The order lists the registered scopes once each, and the scopes are consistent. -/
structure Consistent (registry : ScopedCommandRegistry) : Prop where
  order_nodup : registry.scopeOrder.Nodup
  mem_order : ∀ scopeId, scopeId ∈ registry.scopeOrder ↔ scopeId ∈ registry.scopes
  scopes : ∀ (scopeId : CommandScopeId) (scope : CommandScope),
    registry.scopes[scopeId]? = some scope → scope.Consistent

variable {self : ScopedCommandRegistry} {scopeId : CommandScopeId}

theorem Consistent.new (revision : String) : (new revision).Consistent where
  order_nodup := nodup_nil
  mem_order scopeId := by simp [ScopedCommandRegistry.new]
  scopes scopeId scope h := by simp [ScopedCommandRegistry.new] at h

theorem get_orDefault (self : ScopedCommandRegistry) (scopeId : CommandScopeId) :
    (self.orDefault scopeId).2.scopes[scopeId]? = some (self.orDefault scopeId).1 := by
  rw [orDefault]
  cases hget : self.scopes[scopeId]? with
  | some scope => exact hget
  | none => rw [get_insert, if_pos rfl]

theorem Consistent.orDefault (h : self.Consistent) (scopeId : CommandScopeId) :
    (self.orDefault scopeId).2.Consistent := by
  rw [ScopedCommandRegistry.orDefault]
  cases hget : self.scopes[scopeId]? with
  | some scope => exact h
  | none =>
    have habsent : scopeId ∉ self.scopes := by
      rw [KeyMap.mem_iff_get, hget]
      simp
    refine ⟨?_, ?_, ?_⟩
    · rw [← concat_eq_append]
      exact h.order_nodup.concat fun hin => habsent ((h.mem_order scopeId).mp hin)
    · intro other
      rw [mem_append, mem_singleton, h.mem_order, Std.ExtTreeMap.mem_insert,
        Std.LawfulEqCmp.compare_eq_iff_eq, or_comm, eq_comm]
    · intro other scope hscope
      rw [KeyMap.get_insert] at hscope
      split at hscope
      · obtain rfl := some.inj hscope
        exact .default
      · exact h.scopes other scope hscope

theorem Consistent.setScope (h : self.Consistent) (hin : scopeId ∈ self.scopes)
    {scope : CommandScope} (hscope : scope.Consistent) :
    (self.setScope scopeId scope).Consistent where
  order_nodup := h.order_nodup
  mem_order other := by
    rw [ScopedCommandRegistry.setScope, h.mem_order, Std.ExtTreeMap.mem_insert,
      Std.LawfulEqCmp.compare_eq_iff_eq]
    constructor
    · exact .inr
    · rintro (rfl | hother)
      · exact hin
      · exact hother
  scopes other stored hstored := by
    rw [ScopedCommandRegistry.setScope, get_insert] at hstored
    split at hstored
    · obtain rfl := some.inj hstored
      exact hscope
    · exact h.scopes other stored hstored

/-- The ids of the scope that a registration would extend. -/
theorem ids_orDefault (self : ScopedCommandRegistry) (scopeId : CommandScopeId) :
    (self.scopes[scopeId]?.map CommandScope.ids).getD ∅ = (self.orDefault scopeId).1.ids := by
  rw [orDefault]
  cases self.scopes[scopeId]? with
  | some scope => rfl
  | none => rfl

theorem Consistent.extendScope (h : self.Consistent) (scopeId : CommandScopeId)
    {added : List CommandContribution} {nextIds : Std.ExtTreeSet String}
    (hids : ∀ id, id ∈ nextIds ↔
      id ∈ (self.orDefault scopeId).1.ids ∨ id ∈ added.map CommandContribution.id)
    (hdistinct : (added.map CommandContribution.id).Nodup)
    (hnew : ∀ id ∈ added.map CommandContribution.id, id ∉ (self.orDefault scopeId).1.ids) :
    ((self.orDefault scopeId).2.setScope scopeId
      ⟨(self.orDefault scopeId).1.contributions ++ added, nextIds⟩).Consistent := by
  have hentered := h.orDefault scopeId
  have hget := get_orDefault self scopeId
  apply hentered.setScope ((mem_iff_get _ _).mpr ⟨_, hget⟩)
  exact (hentered.scopes scopeId _ hget).extend hids hdistinct hnew

theorem Consistent.registerInScope (h : self.Consistent) (scopeId : CommandScopeId)
    (contribution : CommandContribution) :
    (self.registerInScope scopeId contribution).2.Consistent := by
  rw [ScopedCommandRegistry.registerInScope]
  split
  · exact h
  · dsimp only
    split
    · exact h.orDefault scopeId
    · rename_i hfresh
      apply h.extendScope scopeId
      · intro id
        rw [Std.ExtTreeSet.mem_insert, Std.LawfulEqCmp.compare_eq_iff_eq, map_singleton,
          mem_singleton, CommandContribution.id, or_comm, eq_comm]
      · exact nodup_singleton _
      · intro id hid
        rw [map_singleton, mem_singleton] at hid
        exact hid ▸ hfresh

theorem insertIds_eq_ok {contributions : List CommandContribution}
    {ids nextIds : Std.ExtTreeSet String} (h : insertIds ids contributions = .ok nextIds) :
    (∀ id, id ∈ nextIds ↔ id ∈ ids ∨ id ∈ contributions.map CommandContribution.id) ∧
      (contributions.map CommandContribution.id).Nodup ∧
      ∀ id ∈ contributions.map CommandContribution.id, id ∉ ids := by
  induction contributions generalizing ids with
  | nil =>
    obtain rfl := Except.ok.inj h
    simp
  | cons contribution rest ih =>
    rw [insertIds] at h
    split at h
    · cases h
    · rename_i hfresh
      obtain ⟨hids, hdistinct, hnew⟩ := ih h
      simp only [Std.ExtTreeSet.mem_insert, Std.LawfulEqCmp.compare_eq_iff_eq, not_or] at hids hnew
      rw [map_cons]
      refine ⟨?_, ?_, ?_⟩
      · intro id
        rw [hids, mem_cons]
        tauto
      · exact nodup_cons.mpr ⟨fun hin => (hnew _ hin).1 rfl, hdistinct⟩
      · intro id hid
        rcases mem_cons.mp hid with rfl | hrest
        · exact hfresh
        · exact (hnew id hrest).2

section

variable (h : self.Consistent)

include h

theorem Consistent.registerAllInScope (scopeId : CommandScopeId)
    (contributions : List CommandContribution) :
    (self.registerAllInScope scopeId contributions).2.Consistent := by
  rw [ScopedCommandRegistry.registerAllInScope, ids_orDefault]
  split
  · exact h
  · cases hinsert : insertIds (self.orDefault scopeId).1.ids contributions with
    | error error => exact h
    | ok nextIds =>
      obtain ⟨hids, hdistinct, hnew⟩ := insertIds_eq_ok hinsert
      exact h.extendScope scopeId hids hdistinct hnew

theorem Consistent.unregisterScope (scopeId : CommandScopeId) :
    (self.unregisterScope scopeId).2.Consistent := by
  rw [ScopedCommandRegistry.unregisterScope]
  split
  · refine ⟨h.order_nodup.filter _, ?_, ?_⟩
    · intro other
      rw [mem_filter, h.mem_order, Std.ExtTreeMap.mem_erase, bne_iff_ne, ne_eq, ne_eq,
        Std.LawfulEqCmp.compare_eq_iff_eq, and_comm, eq_comm]
    · intro other scope hscope
      rw [get_erase] at hscope
      split at hscope
      · cases hscope
      · exact h.scopes other scope hscope
  · exact h

theorem Consistent.unregisterSource (sourceId : CommandSourceId) :
    (self.unregisterSource sourceId).2.Consistent where
  order_nodup := h.order_nodup
  mem_order other := by
    rw [ScopedCommandRegistry.unregisterSource, h.mem_order, Std.ExtTreeMap.mem_map]
  scopes other scope hscope := by
    rw [ScopedCommandRegistry.unregisterSource, Std.ExtTreeMap.getElem?_map,
      map_eq_some_iff] at hscope
    obtain ⟨before, hbefore, rfl⟩ := hscope
    exact (h.scopes other before hbefore).withoutSource sourceId

theorem Consistent.handle (call : RegistryCall) : (self.handle call).2.Consistent := by
  cases call with
  | registerInScope scopeId contribution => exact h.registerInScope scopeId contribution
  | registerAllInScope scopeId contributions => exact h.registerAllInScope scopeId contributions
  | unregisterScope scopeId => exact h.unregisterScope scopeId
  | unregisterSource sourceId => exact h.unregisterSource sourceId

theorem Consistent.afterCalls (calls : List RegistryCall) : (self.afterCalls calls).Consistent := by
  induction calls generalizing self with
  | nil => exact h
  | cons call calls ih => exact ih (h.handle call)

end

/-- A scope that holds an id was there before. -/
theorem orDefault_of_mem {id : String} (hid : id ∈ (self.orDefault scopeId).1.ids) :
    (self.orDefault scopeId).2 = self := by
  rw [orDefault] at hid ⊢
  cases hget : self.scopes[scopeId]? with
  | some scope => rfl
  | none =>
    rw [hget] at hid
    exact absurd hid Std.ExtTreeSet.not_mem_empty

theorem handle_of_error {call : RegistryCall} {error : CommandRegistryError}
    (h : (self.handle call).1 = .registered (.error error)) : (self.handle call).2 = self := by
  cases call with
  | registerInScope scopeId contribution =>
    simp only [handle, Prod.map, registerInScope, id] at h ⊢
    split
    · rfl
    · split
      · rename_i _ htaken
        exact orDefault_of_mem htaken
      · rename_i hnonempty hfresh
        simp [hnonempty, hfresh] at h
  | registerAllInScope scopeId contributions =>
    simp only [handle, Prod.map, registerAllInScope, id] at h ⊢
    split
    · rfl
    · rename_i hnonempty
      rw [if_neg hnonempty] at h
      cases hinsert : insertIds ((self.scopes[scopeId]?.map CommandScope.ids).getD ∅)
          contributions with
      | error error => rfl
      | ok nextIds => simp [hinsert] at h
  | unregisterScope scopeId => cases h
  | unregisterSource sourceId => cases h

end ScopedCommandRegistry

end OpenGpui.Command
