/-
What the operations of the viewport registry change: bindings stay, go away or come
under a generation that was not given before, and every change of the bindings and every
reservation moves the mutation generation.
-/
import OpenGpui.Docking.ViewportRegistry

namespace OpenGpui.Docking.DockViewportRegistry

open KeyMap Option List Nat

variable {Lineage Facts : Type}

/-- The two maps are the inverse of each other. -/
def Inverse (registry : DockViewportRegistry Lineage Facts) : Prop :=
  ∀ space windowId, registry.windows[windowId]? = some space ↔
    ∃ snapshot : DockViewportSnapshot Lineage Facts,
      registry.viewports[space]? = some snapshot ∧ snapshot.window.id = windowId

/-- A vacant space bound to a vacant window. -/
theorem Inverse.of_bound {registry after : DockViewportRegistry Lineage Facts}
    (h : registry.Inverse) {space : DockSpaceId} {snapshot : DockViewportSnapshot Lineage Facts}
    (hspace : registry.viewports[space]? = none)
    (hwindow : registry.windows[snapshot.window.id]? = none)
    (hviewports : ∀ other : DockSpaceId, after.viewports[other]? =
      if space = other then some snapshot else registry.viewports[other]?)
    (hwindows : ∀ windowId : WindowId, after.windows[windowId]? =
      if snapshot.window.id = windowId then some space else registry.windows[windowId]?) :
    after.Inverse := by
  intro other windowId
  rw [hviewports, hwindows]
  by_cases hsame : space = other
  · subst hsame
    by_cases hid : snapshot.window.id = windowId
    · simp [hid]
    · have hnone : registry.windows[windowId]? ≠ some space := by
        rw [ne_eq, h, hspace]
        simp
      simp [hid, hnone]
  · by_cases hid : snapshot.window.id = windowId
    · subst hid
      have hnone := (not_congr (h other snapshot.window.id)).mp (by simp [hwindow])
      simp only [if_pos, some.injEq, hsame, false_iff]
      exact hnone
    · rw [if_neg hsame, if_neg hid]
      exact h other windowId

/-- What an operation changes, when the registrations it may commit have these spaces and
generations. -/
structure Change (origin : DockSpaceId → Nat → Prop)
    (registry after : DockViewportRegistry Lineage Facts) : Prop where
  inverse : after.Inverse
  grows : registry.mutationGeneration ≤ after.mutationGeneration
  same : after.mutationGeneration = registry.mutationGeneration →
    after.viewports = registry.viewports ∧ after.windows = registry.windows
  last : ∀ (space : DockSpaceId) (last : Nat),
    registry.lastRegistrationGenerationBySpace[space]? = some last →
    ∃ last' : Nat, after.lastRegistrationGenerationBySpace[space]? = some last' ∧ last ≤ last'
  bound : ∀ (space : DockSpaceId) (snapshot : DockViewportSnapshot Lineage Facts),
    after.viewports[space]? = some snapshot →
    registry.viewports[space]? = some snapshot ∨
      (registry.mutationGeneration < after.mutationGeneration ∧
        after.lastRegistrationGenerationBySpace[space]? = some snapshot.registrationGeneration ∧
        (origin space snapshot.registrationGeneration ∨
          ∀ last : Nat, registry.lastRegistrationGenerationBySpace[space]? = some last →
            last < snapshot.registrationGeneration))

variable {registry after : DockViewportRegistry Lineage Facts}
  {origin : DockSpaceId → Nat → Prop}

theorem advanceMutationGeneration_spec (h : registry.advanceMutationGeneration = some after) :
    after = { registry with mutationGeneration := registry.mutationGeneration + 1 } := by
  rw [advanceMutationGeneration, map_eq_some_iff] at h
  obtain ⟨generation, hgeneration, rfl⟩ := h
  rw [(U64.checkedAdd_eq_some_iff.mp hgeneration).1]

theorem Change.refl (h : registry.Inverse) : Change origin registry registry where
  inverse := h
  grows := le_refl _
  same _ := ⟨rfl, rfl⟩
  last _ last hlast := ⟨last, hlast, le_refl _⟩
  bound _ _ hsnapshot := .inl hsnapshot

theorem Change.mono {origin' : DockSpaceId → Nat → Prop} (h : Change origin registry after)
    (himp : ∀ space generation, origin space generation → origin' space generation) :
    Change origin' registry after where
  inverse := h.inverse
  grows := h.grows
  same := h.same
  last := h.last
  bound space snapshot hsnapshot :=
    (h.bound space snapshot hsnapshot).imp_right fun hnew =>
      ⟨hnew.1, hnew.2.1, hnew.2.2.imp_left (himp _ _)⟩

/-- Only bindings go away. -/
theorem Change.of_removed (hinverse : after.Inverse)
    (hmutation : after.mutationGeneration = registry.mutationGeneration + 1)
    (hlast : after.lastRegistrationGenerationBySpace = registry.lastRegistrationGenerationBySpace)
    (hviewports : ∀ (space : DockSpaceId) (snapshot : DockViewportSnapshot Lineage Facts),
      after.viewports[space]? = some snapshot →
      registry.viewports[space]? = some snapshot) : Change origin registry after where
  inverse := hinverse
  grows := by omega
  same := by omega
  last _ last h := ⟨last, by rw [hlast, h], le_refl _⟩
  bound space snapshot h := .inl (hviewports space snapshot h)

theorem nextRegistrationGeneration_spec {space : DockSpaceId} {generation : Nat}
    (h : registry.nextRegistrationGeneration space = some generation) {last : Nat}
    (hlast : registry.lastRegistrationGenerationBySpace[space]? = some last) :
    last < generation := by
  rw [nextRegistrationGeneration, U64.checkedAdd_eq_some_iff, hlast] at h
  simp only [getD_some] at h
  omega

/-- The last generations grow when a space gets its next one. -/
theorem last_insert {space other : DockSpaceId} {generation last : Nat}
    (h : registry.nextRegistrationGeneration space = some generation)
    (hlast : registry.lastRegistrationGenerationBySpace[other]? = some last) :
    ∃ last' : Nat, (registry.lastRegistrationGenerationBySpace.insert space generation)[other]? =
      some last' ∧ last ≤ last' := by
  rw [get_insert]
  by_cases hsame : space = other
  · subst hsame
    exact ⟨generation, if_pos rfl, (nextRegistrationGeneration_spec h hlast).le⟩
  · exact ⟨last, by rw [if_neg hsame, hlast], le_refl _⟩

theorem unregisterSpace_change (hinverse : registry.Inverse) {space : DockSpaceId}
    {output : Option (DockViewportSnapshot Lineage Facts)}
    (h : registry.unregisterSpace space = some (output, after)) :
    Change origin registry after := by
  rw [unregisterSpace] at h
  cases hsnapshot : registry.viewports[space]? with
  | none =>
    simp only [hsnapshot] at h
    cases h
    exact .refl hinverse
  | some snapshot =>
    simp only [hsnapshot, map_eq_some_iff, Prod.mk.injEq] at h
    obtain ⟨advanced, hadvanced, _, rfl⟩ := h
    rw [advanceMutationGeneration_spec hadvanced]
    apply Change.of_removed
    · intro other windowId
      have hother := hinverse other windowId
      have hthis := hinverse space snapshot.window.id
      grind
    · rfl
    · rfl
    · intro other otherSnapshot hother
      rw [get_erase] at hother
      split at hother
      · cases hother
      · exact hother

theorem unregisterWindowId_change (hinverse : registry.Inverse) {windowId : WindowId}
    {output : Option (DockSpaceId × DockViewportSnapshot Lineage Facts)}
    (h : registry.unregisterWindowId windowId = some (output, after)) :
    Change origin registry after := by
  rw [unregisterWindowId] at h
  cases hspace : registry.windows[windowId]? with
  | none =>
    simp only [hspace] at h
    cases h
    exact .refl hinverse
  | some space =>
    obtain ⟨snapshot, hsnapshot, hwindow⟩ := (hinverse space windowId).mp hspace
    simp only [hspace, hsnapshot, if_pos hwindow, map_eq_some_iff, Prod.mk.injEq] at h
    obtain ⟨advanced, hadvanced, _, rfl⟩ := h
    rw [advanceMutationGeneration_spec hadvanced]
    apply Change.of_removed
    · intro other otherWindow
      simp only [get_erase]
      have hother := hinverse other otherWindow
      grind
    · rfl
    · rfl
    · intro other otherSnapshot hother
      rw [get_erase] at hother
      split at hother
      · cases hother
      · exact hother

/-- What a new prepared registration stands for. -/
structure Reserved (registry after : DockViewportRegistry Lineage Facts)
    (prepared : DockViewportPreparedVacantRegistration Lineage) : Prop where
  grows : registry.mutationGeneration < after.mutationGeneration
  stamp : prepared.registryMutationGeneration = after.mutationGeneration
  last : after.lastRegistrationGenerationBySpace[prepared.registration.space]? =
    some prepared.registration.generation
  fresh : ∀ last : Nat,
    registry.lastRegistrationGenerationBySpace[prepared.registration.space]? = some last →
      last < prepared.registration.generation
  vacant : after.viewports[prepared.registration.space]? = none

theorem prepareVacantRegistration_change (hinverse : registry.Inverse) {space : DockSpaceId}
    {window : AnyWindowHandle} {lineage : Lineage}
    {output : Option (DockViewportPreparedVacantRegistration Lineage)}
    (h : registry.prepareVacantRegistration space window lineage = some (output, after)) :
    Change origin registry after ∧ ∀ prepared ∈ output, Reserved registry after prepared := by
  rw [prepareVacantRegistration] at h
  by_cases hbound : space ∈ registry.viewports ∨ window.id ∈ registry.windows
  · rw [if_pos hbound, some.injEq, Prod.mk.injEq] at h
    rw [← h.1, ← h.2]
    exact ⟨.refl hinverse, by simp⟩
  · rw [if_neg hbound] at h
    have hvacant : registry.viewports[space]? = none :=
      Std.ExtTreeMap.getElem?_eq_none fun hmem => hbound (.inl hmem)
    cases hgeneration : registry.nextRegistrationGeneration space with
    | none =>
      simp only [hgeneration, some.injEq, Prod.mk.injEq] at h
      rw [← h.1, ← h.2]
      exact ⟨.refl hinverse, by simp⟩
    | some generation =>
      simp only [hgeneration, map_eq_some_iff, Prod.mk.injEq] at h
      obtain ⟨advanced, hadvanced, rfl, rfl⟩ := h
      rw [advanceMutationGeneration_spec hadvanced]
      constructor
      · constructor
        · exact hinverse
        · exact le_succ _
        · exact fun hsame => absurd hsame (succ_ne_self _)
        · exact fun other last hlast => last_insert hgeneration hlast
        · exact fun other snapshot hsnapshot => .inl hsnapshot
      · rintro prepared ⟨rfl⟩
        constructor
        · exact lt_succ_self _
        · rfl
        · rw [get_insert, if_pos rfl]
        · exact fun last hlast => nextRegistrationGeneration_spec hgeneration hlast
        · exact hvacant

variable {prepared : DockViewportPreparedVacantRegistration Lineage}

theorem canCommitVacantRegistration_iff : registry.canCommitVacantRegistration prepared = true ↔
      registry.mutationGeneration = prepared.registryMutationGeneration ∧
        registry.lastRegistrationGenerationBySpace[prepared.registration.space]? =
          some prepared.registration.generation ∧
        registry.viewports[prepared.registration.space]? = none ∧
        registry.windows[prepared.registration.windowId]? = none ∧
        prepared.window.id = prepared.registration.windowId := by
  simp [canCommitVacantRegistration, and_assoc]

theorem commitVacantRegistration_change [Inhabited Facts] (hinverse : registry.Inverse)
    {registration : DockViewportRegistrationKey Lineage}
    (h : registry.commitVacantRegistration prepared = some (registration, after)) :
    registry.canCommitVacantRegistration prepared = true ∧
      Change (fun space generation => space = prepared.registration.space ∧
        generation = prepared.registration.generation) registry after := by
  rw [commitVacantRegistration] at h
  by_cases hcan : registry.canCommitVacantRegistration prepared = true
  · simp only [if_pos hcan, map_eq_some_iff, Prod.mk.injEq] at h
    obtain ⟨advanced, hadvanced, _, rfl⟩ := h
    rw [advanceMutationGeneration_spec hadvanced]
    obtain ⟨_, hlast, hspace, hwindow, hid⟩ := canCommitVacantRegistration_iff.mp hcan
    refine ⟨hcan, ?_, le_succ _, fun hsame => absurd hsame (succ_ne_self _),
      fun space last h => ⟨last, h, le_refl _⟩, ?_⟩
    · have hwindow' : registry.windows[prepared.window.id]? = none := by rw [hid, hwindow]
      apply @Inverse.of_bound _ _ _ _ hinverse _ ⟨prepared.window,
        prepared.registration.generation, prepared.registration.lineage, default⟩ hspace hwindow'
      · exact fun other => get_insert _ _ _ _
      · intro windowId
        rw [hid]
        exact get_insert _ _ _ _
    · intro other snapshot hsnapshot
      simp only [get_insert] at hsnapshot
      by_cases hsame : prepared.registration.space = other
      · subst hsame
        rw [if_pos rfl, some.injEq] at hsnapshot
        subst hsnapshot
        exact .inr ⟨lt_succ_self _, hlast, .inl ⟨rfl, rfl⟩⟩
      · rw [if_neg hsame] at hsnapshot
        exact .inl hsnapshot
  · rw [if_neg hcan] at h
    cases h

section Replacing

theorem displaceSpace_spec (registry : DockViewportRegistry Lineage Facts) (space : DockSpaceId) :
    (∀ other : DockSpaceId, (registry.displaceSpace space).2.viewports[other]? =
      if space = other then none else registry.viewports[other]?) ∧
    (∀ windowId : WindowId, (registry.displaceSpace space).2.windows[windowId]? =
      if registry.viewports[space]?.any (fun snapshot => decide (snapshot.window.id = windowId))
        then none else registry.windows[windowId]?) ∧
    (∀ entry, entry ∈ (registry.displaceSpace space).1 ↔
      entry.1 = space ∧ registry.viewports[space]? = some entry.2) ∧
    (registry.displaceSpace space).2.lastRegistrationGenerationBySpace =
      registry.lastRegistrationGenerationBySpace ∧
    (registry.displaceSpace space).2.mutationGeneration = registry.mutationGeneration := by
  rw [displaceSpace]
  cases hsnapshot : registry.viewports[space]? with
  | none =>
    refine ⟨?_, ?_, ?_, rfl, rfl⟩
    · intro other
      by_cases hsame : space = other
      · rw [if_pos hsame, ← hsame, hsnapshot]
      · rw [if_neg hsame]
    · intro windowId
      rfl
    · intro entry
      simp
  | some previous =>
    refine ⟨?_, ?_, ?_, rfl, rfl⟩
    · intro other
      exact get_erase _ _ _
    · intro windowId
      simp only [any_some, decide_eq_true_eq]
      exact get_erase _ _ _
    · rintro ⟨other, snapshot⟩
      simp [eq_comm]

theorem displaceWindow_spec (registry : DockViewportRegistry Lineage Facts)
    (space : DockSpaceId) (windowId : WindowId) :
    (∀ other : DockSpaceId, (registry.displaceWindow space windowId).2.viewports[other]? =
      if registry.windows[windowId]? = some other ∧ other ≠ space then none
        else registry.viewports[other]?) ∧
    (∀ otherWindow : WindowId, (registry.displaceWindow space windowId).2.windows[otherWindow]? =
        if windowId = otherWindow then none else registry.windows[otherWindow]?) ∧
    (∀ entry, entry ∈ (registry.displaceWindow space windowId).1 ↔
      (registry.windows[windowId]? = some entry.1 ∧ entry.1 ≠ space) ∧
        registry.viewports[entry.1]? = some entry.2) ∧
    (registry.displaceWindow space windowId).2.lastRegistrationGenerationBySpace =
      registry.lastRegistrationGenerationBySpace ∧
    (registry.displaceWindow space windowId).2.mutationGeneration =
      registry.mutationGeneration := by
  rw [displaceWindow]
  cases hprevious : registry.windows[windowId]? with
  | none =>
    refine ⟨?_, ?_, ?_, rfl, rfl⟩
    · intro other
      simp
    · intro otherWindow
      by_cases hsame : windowId = otherWindow
      · rw [if_pos hsame, ← hsame, hprevious]
      · rw [if_neg hsame]
    · intro entry
      simp
  | some previousSpace =>
    by_cases hspace : previousSpace = space
    · simp only [hspace, ne_eq, not_true_eq_false, if_false, some.injEq]
      refine ⟨?_, fun _ => get_erase _ _ _, ?_, trivial, trivial⟩
      · intro other
        rw [if_neg (by tauto)]
      · rintro ⟨other, snapshot⟩
        simp only [not_mem_nil, false_iff]
        tauto
    · simp only [ne_eq, hspace, not_false_eq_true, if_true, some.injEq]
      cases hsnapshot : registry.viewports[previousSpace]? with
      | none =>
        refine ⟨?_, fun _ => get_erase _ _ _, ?_, rfl, rfl⟩
        · intro other
          by_cases hsame : previousSpace = other ∧ ¬other = space
          · rw [if_pos hsame, ← hsame.1, hsnapshot]
          · rw [if_neg hsame]
        · rintro ⟨other, snapshot⟩
          simp only [not_mem_nil, false_iff]
          rintro ⟨⟨rfl, _⟩, hother⟩
          rw [hsnapshot] at hother
          cases hother
      | some previous =>
        refine ⟨?_, fun _ => get_erase _ _ _, ?_, rfl, rfl⟩
        · intro other
          rw [get_erase]
          by_cases hsame : previousSpace = other
          · rw [if_pos hsame, if_pos ⟨hsame, hsame ▸ hspace⟩]
          · rw [if_neg hsame, if_neg fun h => hsame h.1]
        · rintro ⟨other, snapshot⟩
          rw [mem_singleton, Prod.mk.injEq]
          constructor
          · rintro ⟨rfl, rfl⟩
            exact ⟨⟨rfl, hspace⟩, hsnapshot⟩
          · rintro ⟨⟨rfl, _⟩, hother⟩
            rw [hsnapshot, some.injEq] at hother
            exact ⟨rfl, hother.symm⟩

/-- The registry in which the space and the window are vacant, and the bindings they had. -/
def displace (registry : DockViewportRegistry Lineage Facts) (space : DockSpaceId)
    (windowId : WindowId) :
    DockViewportBindings Lineage Facts × DockViewportRegistry Lineage Facts :=
  let bySpace := registry.displaceSpace space
  let byWindow := bySpace.2.displaceWindow space windowId
  (bySpace.1 ++ byWindow.1, byWindow.2)

theorem any_window_iff (hinverse : registry.Inverse) {space : DockSpaceId} {windowId : WindowId} :
    registry.viewports[space]?.any (fun snapshot => decide (snapshot.window.id = windowId)) =
      true ↔ registry.windows[windowId]? = some space := by
  rw [hinverse]
  cases registry.viewports[space]? with
  | none => simp
  | some snapshot => simp

theorem displace_windows (hinverse : registry.Inverse) (space : DockSpaceId)
    (windowId otherWindow : WindowId) :
    (registry.displace space windowId).2.windows[otherWindow]? =
      if windowId = otherWindow ∨ registry.windows[otherWindow]? = some space then none
        else registry.windows[otherWindow]? := by
  rw [displace, (displaceWindow_spec _ _ _).2.1, (displaceSpace_spec _ _).2.1]
  simp only [any_window_iff hinverse]
  by_cases hid : windowId = otherWindow
  · rw [if_pos hid, if_pos (.inl hid)]
  · rw [if_neg hid]
    simp only [hid, false_or]

theorem displace_viewports (hinverse : registry.Inverse) (space : DockSpaceId)
    (windowId : WindowId) (other : DockSpaceId) :
    (registry.displace space windowId).2.viewports[other]? =
      if space = other ∨ registry.windows[windowId]? = some other then none
        else registry.viewports[other]? := by
  rw [displace, (displaceWindow_spec _ _ _).1, (displaceSpace_spec _ _).1,
    (displaceSpace_spec _ _).2.1]
  simp only [any_window_iff hinverse]
  grind

theorem mem_displace (hinverse : registry.Inverse) (space : DockSpaceId) (windowId : WindowId)
    (entry : DockSpaceId × DockViewportSnapshot Lineage Facts) :
    entry ∈ (registry.displace space windowId).1 ↔ registry.viewports[entry.1]? = some entry.2 ∧
        (entry.1 = space ∨ registry.windows[windowId]? = some entry.1) := by
  rw [displace, mem_append, (displaceSpace_spec _ _).2.2.1,
    (displaceWindow_spec _ _ _).2.2.1, (displaceSpace_spec _ _).1, (displaceSpace_spec _ _).2.1]
  simp only [any_window_iff hinverse]
  grind

theorem displace_nodup (registry : DockViewportRegistry Lineage Facts) (space : DockSpaceId)
    (windowId : WindowId) : (registry.displace space windowId).1.Nodup := by
  have hspace : ∀ other : DockViewportRegistry Lineage Facts,
      (other.displaceSpace space).1.Nodup := by
    intro other
    rw [displaceSpace]
    split <;> simp
  have hwindow : ∀ other : DockViewportRegistry Lineage Facts,
      (other.displaceWindow space windowId).1.Nodup := by
    intro other
    rw [displaceWindow]
    split
    · simp
    · dsimp only
      split
      · split <;> simp
      · simp
  rw [displace, nodup_append]
  refine ⟨hspace _, hwindow _, ?_⟩
  rintro entry hbySpace _ hbyWindow rfl
  exact ((displaceWindow_spec _ _ _).2.2.1 entry |>.mp hbyWindow).1.2
    ((displaceSpace_spec _ _).2.2.1 entry |>.mp hbySpace).1

theorem displace_inverse (hinverse : registry.Inverse) (space : DockSpaceId)
    (windowId : WindowId) : (registry.displace space windowId).2.Inverse := by
  intro other otherWindow
  rw [displace_windows hinverse, displace_viewports hinverse]
  have hother := hinverse other otherWindow
  have hother' := hinverse other windowId
  by_cases hbound : registry.windows[otherWindow]? = some other
  · obtain ⟨snapshot, hsnapshot, hid⟩ := hother.mp hbound
    have hwindow : registry.windows[windowId]? = some other ↔ windowId = otherWindow := by
      rw [hother', hsnapshot, ← hid]
      simp [eq_comm]
    simp only [hbound, hsnapshot, hwindow]
    by_cases hsame : space = other
    · simp [hsame]
    · by_cases hid' : windowId = otherWindow
      · simp [hid']
      · have hne : other ≠ space := Ne.symm hsame
        simp [hsame, hid', hne, hid]
  · have hnone := (not_congr hother).mp hbound
    constructor
    · intro h
      split at h
      · cases h
      · exact absurd h hbound
    · rintro ⟨snapshot, hsnapshot, hid⟩
      split at hsnapshot
      · cases hsnapshot
      · exact absurd ⟨snapshot, hsnapshot, hid⟩ hnone

end Replacing

/-- Every binding is of a generation that its space was given. -/
def Bounded (registry : DockViewportRegistry Lineage Facts) : Prop :=
  ∀ (space : DockSpaceId) (snapshot : DockViewportSnapshot Lineage Facts),
    registry.viewports[space]? = some snapshot →
      ∃ last : Nat, registry.lastRegistrationGenerationBySpace[space]? = some last ∧
        snapshot.registrationGeneration ≤ last

/-- A registration reports the bindings it has taken away, and one that fails has changed
nothing. -/
def Reports (registry after : DockViewportRegistry Lineage Facts) :
    Except (DockViewportRegistrationConflict Lineage) (DockViewportBindings Lineage Facts) → Prop
  | .error _ => after = registry
  | .ok replaced =>
    replaced.Nodup ∧ ∀ (space : DockSpaceId) (snapshot : DockViewportSnapshot Lineage Facts),
        (space, snapshot) ∈ replaced ↔ registry.viewports[space]? = some snapshot ∧
            after.viewports[space]? ≠ some snapshot

variable [Inhabited Facts] {space : DockSpaceId} {window : AnyWindowHandle} {lineage : Lineage}

theorem bind_spec (h : registry.bind space window lineage = some after) :
    ∃ generation, registry.nextRegistrationGeneration space = some generation ∧
      after = ⟨registry.viewports.insert space ⟨window, generation, lineage, default⟩,
        registry.windows.insert window.id space,
        registry.lastRegistrationGenerationBySpace.insert space generation,
        registry.mutationGeneration + 1⟩ := by
  rw [bind] at h
  cases hgeneration : registry.nextRegistrationGeneration space with
  | none =>
    simp only [hgeneration] at h
    cases h
  | some generation =>
    simp only [hgeneration] at h
    exact ⟨generation, rfl, advanceMutationGeneration_spec h⟩

/-- The way of a registration that takes bindings away. -/
theorem bind_displaced_change (hinverse : registry.Inverse) (hbounded : registry.Bounded)
    (h : (registry.displace space window.id).2.bind space window lineage = some after) :
    Change origin registry after ∧
      Reports registry after (.ok (registry.displace space window.id).1) := by
  obtain ⟨generation, hgeneration, rfl⟩ := bind_spec h
  have hlastSame : (registry.displace space window.id).2.lastRegistrationGenerationBySpace =
      registry.lastRegistrationGenerationBySpace :=
    (displaceWindow_spec _ _ _).2.2.2.1.trans (displaceSpace_spec _ _).2.2.2.1
  have hmutationSame : (registry.displace space window.id).2.mutationGeneration =
      registry.mutationGeneration :=
    (displaceWindow_spec _ _ _).2.2.2.2.trans (displaceSpace_spec _ _).2.2.2.2
  have hfresh : ∀ last : Nat, registry.lastRegistrationGenerationBySpace[space]? = some last →
      last < generation := by
    intro last hlast
    exact nextRegistrationGeneration_spec hgeneration (by rw [hlastSame, hlast])
  have hviewports : ∀ other : DockSpaceId, ((registry.displace space window.id).2.viewports.insert
      space ⟨window, generation, lineage, default⟩)[other]? =
        if space = other then some ⟨window, generation, lineage, default⟩
          else if registry.windows[window.id]? = some other then none
            else registry.viewports[other]? := by
    intro other
    rw [get_insert, displace_viewports hinverse]
    by_cases hsame : space = other
    · rw [if_pos hsame, if_pos hsame]
    · rw [if_neg hsame, if_neg hsame]
      simp only [hsame, false_or]
  constructor
  · constructor
    · apply @Inverse.of_bound _ _ _ _ (displace_inverse hinverse space window.id) space
        ⟨window, generation, lineage, default⟩
      · rw [displace_viewports hinverse, if_pos (.inl rfl)]
      · rw [displace_windows hinverse, if_pos (.inl rfl)]
      · exact fun other => get_insert _ _ _ _
      · exact fun otherWindow => get_insert _ _ _ _
    · rw [hmutationSame]
      exact le_succ _
    · rw [hmutationSame]
      exact fun hsame => absurd hsame (succ_ne_self _)
    · intro other last hlast
      exact last_insert hgeneration (by rw [hlastSame, hlast])
    · intro other snapshot hsnapshot
      rw [hviewports] at hsnapshot
      by_cases hsame : space = other
      · subst hsame
        rw [if_pos rfl, some.injEq] at hsnapshot
        subst hsnapshot
        refine .inr ⟨?_, ?_, .inr hfresh⟩
        · rw [hmutationSame]
          exact lt_succ_self _
        · rw [get_insert, if_pos rfl]
      · rw [if_neg hsame] at hsnapshot
        split at hsnapshot
        · cases hsnapshot
        · exact .inl hsnapshot
  · refine ⟨displace_nodup registry space window.id, ?_⟩
    intro other snapshot
    rw [mem_displace hinverse, hviewports]
    constructor
    · rintro ⟨hsnapshot, hdisplaced⟩
      refine ⟨hsnapshot, ?_⟩
      by_cases hsame : space = other
      · subst hsame
        obtain ⟨last, hlast, hle⟩ := hbounded space snapshot hsnapshot
        rw [if_pos rfl]
        intro hnew
        rw [some.injEq] at hnew
        rw [← hnew] at hle
        exact absurd (hfresh last hlast) (not_lt.mpr hle)
      · rcases hdisplaced with heq | hwindow
        · exact absurd heq.symm hsame
        · rw [if_neg hsame, if_pos hwindow]
          simp
    · rintro ⟨hsnapshot, hgone⟩
      refine ⟨hsnapshot, ?_⟩
      by_cases hsame : space = other
      · exact .inl hsame.symm
      · rw [if_neg hsame] at hgone
        by_cases hwindow : registry.windows[window.id]? = some other
        · exact .inr hwindow
        · rw [if_neg hwindow] at hgone
          exact absurd hsnapshot hgone

theorem registerWithReplacements_change [DecidableEq Lineage] (hinverse : registry.Inverse)
    (hbounded : registry.Bounded) {result : Except (DockViewportRegistrationConflict Lineage)
    (DockViewportBindings Lineage Facts)}
    (h : registry.registerWithReplacements space window lineage = some (result, after)) :
    Change origin registry after ∧ Reports registry after result := by
  have hnothing : Reports registry registry (.ok []) := by
    refine ⟨nodup_nil, ?_⟩
    intro other snapshot
    simp
  rw [registerWithReplacements] at h
  cases hspaceConflict : registry.lineageConflict space lineage with
  | some conflict =>
    simp only [hspaceConflict, some.injEq, Prod.mk.injEq] at h
    rw [← h.1, ← h.2]
    exact ⟨.refl hinverse, rfl⟩
  | none =>
    cases hwindowConflict :
        registry.windows[window.id]?.bind (registry.lineageConflict · lineage) with
    | some conflict =>
      simp only [hspaceConflict, hwindowConflict, some.injEq, Prod.mk.injEq] at h
      rw [← h.1, ← h.2]
      exact ⟨.refl hinverse, rfl⟩
    | none =>
      simp only [hspaceConflict, hwindowConflict] at h
      by_cases hregistered : registry.isRegistered space window.id lineage = true
      · -- the window is in the index already, which is written again
        rw [if_pos hregistered] at h
        have hwindow : registry.windows[window.id]? = some space := by
          rw [isRegistered] at hregistered
          cases hsnapshot : registry.viewports[space]? with
          | none => simp [hsnapshot] at hregistered
          | some snapshot =>
            simp only [hsnapshot, any_some, Bool.and_eq_true, decide_eq_true_eq] at hregistered
            exact (hinverse space window.id).mpr ⟨snapshot, hsnapshot, hregistered.1.1⟩
        rw [if_neg (not_not.mpr hwindow), insert_get_self hwindow, some.injEq, Prod.mk.injEq] at h
        rw [← h.1, ← h.2]
        exact ⟨.refl hinverse, hnothing⟩
      · rw [if_neg hregistered] at h
        simp only [map_eq_some_iff, Prod.mk.injEq] at h
        obtain ⟨bound, hbound, rfl, rfl⟩ := h
        exact bind_displaced_change hinverse hbounded hbound

end OpenGpui.Docking.DockViewportRegistry
