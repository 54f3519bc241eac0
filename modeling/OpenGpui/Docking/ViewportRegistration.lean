/-
Runs of the viewport registry: its two maps stay the inverse of each other, a reserved
registration is committed only if nothing has changed since, and a registration that has
come to its end is never current again.
-/
import OpenGpui.Docking.ViewportChanges

namespace OpenGpui.Docking

open DockViewportRegistry Machine Option ViewportSession List Bool

namespace ViewportSession

variable {Lineage Facts : Type}

/-- What holds in every run: bindings have generations that were given, and a prepared
registration whose generation is that of a binding is behind the changes. -/
structure Valid (session : ViewportSession Lineage Facts) : Prop where
  inverse : session.registry.Inverse
  bounded : session.registry.Bounded
  stamped : ∀ prepared ∈ session.prepared,
    prepared.registryMutationGeneration ≤ session.registry.mutationGeneration
  given : ∀ prepared ∈ session.prepared, ∃ last : Nat,
    session.registry.lastRegistrationGenerationBySpace[prepared.registration.space]? =
      some last ∧ prepared.registration.generation ≤ last
  spent : ∀ prepared ∈ session.prepared, ∀ snapshot : DockViewportSnapshot Lineage Facts,
      session.registry.viewports[prepared.registration.space]? = some snapshot →
        snapshot.registrationGeneration = prepared.registration.generation →
          prepared.registryMutationGeneration < session.registry.mutationGeneration

/-- What one step does to a session. -/
structure Stepped (session after : ViewportSession Lineage Facts) : Prop where
  change : Change (fun space generation => ∃ prepared ∈ session.prepared,
      prepared.registration.space = space ∧ prepared.registration.generation = generation ∧
        prepared.registryMutationGeneration = session.registry.mutationGeneration)
    session.registry after.registry
  prepared : ∃ reserved, after.prepared = session.prepared ++ reserved ∧
    ∀ prepared ∈ reserved, Reserved session.registry after.registry prepared

variable {session : ViewportSession Lineage Facts} {registry : DockViewportRegistry Lineage Facts}

theorem Stepped.of_change
    (h : Change (fun space generation => ∃ prepared ∈ session.prepared,
        prepared.registration.space = space ∧ prepared.registration.generation = generation ∧
          prepared.registryMutationGeneration = session.registry.mutationGeneration)
      session.registry registry) : Stepped session { session with registry := registry } :=
  ⟨h, [], (append_nil _).symm, by simp⟩

theorem start_valid : (start : ViewportSession Lineage Facts).Valid where
  inverse := by
    intro space windowId
    simp [start, DockViewportRegistry.new]
  bounded := by
    intro space snapshot hsnapshot
    simp [start, DockViewportRegistry.new] at hsnapshot
  stamped := by simp [start]
  given := by simp [start]
  spent := by simp [start]

variable {after : ViewportSession Lineage Facts}

theorem Stepped.valid (hstepped : Stepped session after) (h : session.Valid) : after.Valid := by
  obtain ⟨reserved, hprepared, hreserved⟩ := hstepped.prepared
  constructor
  · exact hstepped.change.inverse
  · intro space snapshot hsnapshot
    rcases hstepped.change.bound space snapshot hsnapshot with hold | ⟨_, hlast, _⟩
    · obtain ⟨last, hlast, hle⟩ := h.bounded space snapshot hold
      obtain ⟨last', hlast', hle'⟩ := hstepped.change.last space last hlast
      exact ⟨last', hlast', hle.trans hle'⟩
    · exact ⟨_, hlast, le_refl _⟩
  · intro prepared hmem
    rw [hprepared, mem_append] at hmem
    rcases hmem with hold | hnew
    · exact (h.stamped prepared hold).trans hstepped.change.grows
    · exact (hreserved prepared hnew).stamp.le
  · intro prepared hmem
    rw [hprepared, mem_append] at hmem
    rcases hmem with hold | hnew
    · obtain ⟨last, hlast, hle⟩ := h.given prepared hold
      obtain ⟨last', hlast', hle'⟩ := hstepped.change.last _ last hlast
      exact ⟨last', hlast', hle.trans hle'⟩
    · exact ⟨_, (hreserved prepared hnew).last, le_refl _⟩
  · intro prepared hmem snapshot hsnapshot hgeneration
    rw [hprepared, mem_append] at hmem
    rcases hmem with hold | hnew
    · rcases hstepped.change.bound _ snapshot hsnapshot with hbefore | ⟨hgrows, _⟩
      · exact (h.spent prepared hold snapshot hbefore hgeneration).trans_le hstepped.change.grows
      · exact (h.stamped prepared hold).trans_lt hgrows
    · rw [(hreserved prepared hnew).vacant] at hsnapshot
      cases hsnapshot

theorem Stepped.quiet (hstepped : Stepped session after)
    (hsame : after.registry.mutationGeneration = session.registry.mutationGeneration) :
    after.registry.viewports = session.registry.viewports ∧
      after.registry.windows = session.registry.windows ∧ after.prepared = session.prepared := by
  obtain ⟨reserved, hprepared, hreserved⟩ := hstepped.prepared
  have hnone : reserved = [] := by
    cases reserved with
    | nil => rfl
    | cons first rest =>
      have hgrows := (hreserved first mem_cons_self).grows
      omega
  rw [hnone, append_nil] at hprepared
  exact ⟨(hstepped.change.same hsame).1, (hstepped.change.same hsame).2, hprepared⟩

/-- A key whose generation no binding of its space has, and none can be given. -/
structure Ended (session : ViewportSession Lineage Facts)
    (key : DockViewportRegistrationKey Lineage) : Prop where
  given : ∃ last : Nat, session.registry.lastRegistrationGenerationBySpace[key.space]? = some last ∧
      key.generation ≤ last
  unbound : ∀ snapshot : DockViewportSnapshot Lineage Facts,
    session.registry.viewports[key.space]? = some snapshot →
      snapshot.registrationGeneration ≠ key.generation
  spent : ∀ prepared ∈ session.prepared, prepared.registration.space = key.space →
    prepared.registration.generation = key.generation →
      prepared.registryMutationGeneration < session.registry.mutationGeneration

variable {key : DockViewportRegistrationKey Lineage}

theorem Stepped.ended (hstepped : Stepped session after) (hgiven : ∃ last : Nat,
      session.registry.lastRegistrationGenerationBySpace[key.space]? = some last ∧
        key.generation ≤ last) (hunbound : ∀ snapshot : DockViewportSnapshot Lineage Facts,
      session.registry.viewports[key.space]? = some snapshot →
        after.registry.viewports[key.space]? = some snapshot →
          snapshot.registrationGeneration ≠ key.generation)
    (hspent : ∀ prepared ∈ session.prepared, prepared.registration.space = key.space →
      prepared.registration.generation = key.generation →
        prepared.registryMutationGeneration < session.registry.mutationGeneration) :
    after.Ended key := by
  obtain ⟨last, hlast, hle⟩ := hgiven
  obtain ⟨reserved, hprepared, hreserved⟩ := hstepped.prepared
  constructor
  · obtain ⟨last', hlast', hle'⟩ := hstepped.change.last _ last hlast
    exact ⟨last', hlast', hle.trans hle'⟩
  · intro snapshot hsnapshot
    rcases hstepped.change.bound _ snapshot hsnapshot with hold | ⟨_, _, hcommitted | hfresh⟩
    · exact hunbound snapshot hold hsnapshot
    · obtain ⟨prepared, hmem, hspace, hgeneration, hstamp⟩ := hcommitted
      intro heq
      have hlt := hspent prepared hmem hspace (hgeneration.trans heq)
      omega
    · have hlt := hfresh last hlast
      omega
  · intro prepared hmem hspace hgeneration
    rw [hprepared, mem_append] at hmem
    rcases hmem with hold | hnew
    · exact (hspent prepared hold hspace hgeneration).trans_le hstepped.change.grows
    · have hlt := (hreserved prepared hnew).fresh last (by rw [hspace, hlast])
      omega

theorem Stepped.ended_of_ended (hstepped : Stepped session after)
    (hended : session.Ended key) : after.Ended key :=
  hstepped.ended hended.given (fun snapshot hsnapshot _ => hended.unbound snapshot hsnapshot)
    hended.spent

variable [DecidableEq Lineage]

theorem isCurrentRegistration_iff (hinverse : registry.Inverse) :
    registry.isCurrentRegistration key = true ↔ ∃ snapshot : DockViewportSnapshot Lineage Facts,
        registry.viewports[key.space]? = some snapshot ∧
          snapshot.registrationGeneration = key.generation ∧
            snapshot.window.id = key.windowId ∧ snapshot.lineage = key.lineage := by
  rw [isCurrentRegistration, and_eq_true]
  constructor
  · rintro ⟨hviewport, _⟩
    cases hsnapshot : registry.viewports[key.space]? with
    | none =>
      rw [hsnapshot] at hviewport
      cases hviewport
    | some snapshot =>
      simp only [hsnapshot, any_some, and_eq_true, decide_eq_true_eq] at hviewport
      exact ⟨snapshot, rfl, hviewport.1.1, hviewport.1.2, hviewport.2⟩
  · rintro ⟨snapshot, hsnapshot, hgeneration, hwindow, hlineage⟩
    have hindex := (hinverse key.space key.windowId).mpr ⟨snapshot, hsnapshot, hwindow⟩
    simp [hsnapshot, hindex, hgeneration, hwindow, hlineage]

theorem Ended.not_current (h : session.Valid)
    (hended : session.Ended key) : session.registry.isCurrentRegistration key = false := by
  rw [eq_false_iff]
  intro hcurrent
  obtain ⟨snapshot, hsnapshot, hgeneration, _⟩ := (isCurrentRegistration_iff h.inverse).mp hcurrent
  exact hended.unbound snapshot hsnapshot hgeneration

/-- A current key stays current or ends. -/
theorem Stepped.current_or_ended (hstepped : Stepped session after) (h : session.Valid)
    (hkey : session.registry.isCurrentRegistration key = true ∨ session.Ended key) :
    after.registry.isCurrentRegistration key = true ∨ after.Ended key := by
  rcases hkey with hcurrent | hended
  · obtain ⟨snapshot, hsnapshot, hgeneration, hwindow, hlineage⟩ :=
      (isCurrentRegistration_iff h.inverse).mp hcurrent
    by_cases hstays : after.registry.viewports[key.space]? = some snapshot
    · left
      rw [isCurrentRegistration_iff hstepped.change.inverse]
      exact ⟨snapshot, hstays, hgeneration, hwindow, hlineage⟩
    · right
      apply hstepped.ended
      · rw [← hgeneration]
        exact h.bounded key.space snapshot hsnapshot
      · intro other hother hafter
        rw [hsnapshot, some.injEq] at hother
        exact absurd (hother ▸ hafter) hstays
      · intro prepared hmem hspace hsame
        apply h.spent prepared hmem snapshot
        · rw [hspace, hsnapshot]
        · rw [hgeneration, hsame]
  · exact .inr (hstepped.ended_of_ended hended)

variable [Inhabited Facts]

theorem step_stepped {command : ViewportCommand Lineage} {output : ViewportOutput Lineage Facts}
    (h : session.Valid) (hstep : session.step command = some (output, after)) :
    Stepped session after := by
  cases command with
  | prepare space window lineage =>
    simp only [step, map_eq_some_iff, Prod.mk.injEq] at hstep
    obtain ⟨result, hresult, _, rfl⟩ := hstep
    have hchange := @prepareVacantRegistration_change _ _ _ _
      (fun space generation => ∃ prepared ∈ session.prepared, prepared.registration.space = space ∧
          prepared.registration.generation = generation ∧
            prepared.registryMutationGeneration = session.registry.mutationGeneration)
      h.inverse space window lineage result.1 hresult
    refine ⟨hchange.1, result.1.toList, rfl, ?_⟩
    intro prepared hprepared
    exact hchange.2 prepared (mem_toList.mp hprepared)
  | commit held =>
    simp only [step, bind_eq_some_iff, map_eq_some_iff, Prod.mk.injEq] at hstep
    obtain ⟨prepared, hheld, result, hresult, _, rfl⟩ := hstep
    obtain ⟨hcan, hchange⟩ := commitVacantRegistration_change h.inverse hresult
    apply Stepped.of_change
    apply hchange.mono
    rintro space generation ⟨rfl, rfl⟩
    exact ⟨prepared, mem_of_getElem? hheld, rfl, rfl,
      (canCommitVacantRegistration_iff.mp hcan).1.symm⟩
  | register space window lineage =>
    simp only [step, map_eq_some_iff, Prod.mk.injEq] at hstep
    obtain ⟨result, hresult, _, rfl⟩ := hstep
    exact .of_change (registerWithReplacements_change h.inverse h.bounded hresult).1
  | unregisterSpace space =>
    simp only [step, map_eq_some_iff, Prod.mk.injEq] at hstep
    obtain ⟨result, hresult, _, rfl⟩ := hstep
    exact .of_change (unregisterSpace_change h.inverse hresult)
  | unregisterWindowId windowId =>
    simp only [step, map_eq_some_iff, Prod.mk.injEq] at hstep
    obtain ⟨result, hresult, _, rfl⟩ := hstep
    exact .of_change (unregisterWindowId_change h.inverse hresult)

variable {commands : List (ViewportCommand Lineage)} {later : ViewportSession Lineage Facts}

theorem run_valid (hrun : (viewportMachine Lineage Facts).run .start commands = some session) :
    session.Valid :=
  @invariant_of_run _ _ _ (viewportMachine Lineage Facts) _ Valid
    (fun _ _ _ _ h hstep => (step_stepped h hstep).valid h) _ _ start_valid hrun

/-- The step changes no binding and reserves nothing. -/
def Quiet (session : ViewportSession Lineage Facts) (command : ViewportCommand Lineage) : Prop :=
  ∀ output after, session.step command = some (output, after) →
    after.registry.viewports = session.registry.viewports ∧
      after.registry.windows = session.registry.windows ∧ after.prepared = session.prepared

theorem run_grows (h : session.Valid)
    (hrun : (viewportMachine Lineage Facts).run session commands = some later) :
    session.registry.mutationGeneration ≤ later.registry.mutationGeneration := by
  induction commands generalizing session with
  | nil =>
    obtain rfl : session = later := by simpa using hrun
    exact le_refl _
  | cons command rest ih =>
    obtain ⟨output, next, hstep, hrest⟩ := run_cons_eq_some.mp hrun
    have hstepped := step_stepped h hstep
    exact hstepped.change.grows.trans (ih (hstepped.valid h) hrest)

/-- Where the mutation generation has not moved, nothing has happened. -/
theorem run_quiet (h : session.Valid)
    (hrun : (viewportMachine Lineage Facts).run session commands = some later)
    (hsame : later.registry.mutationGeneration = session.registry.mutationGeneration) :
    (viewportMachine Lineage Facts).Along Quiet session commands := by
  induction commands generalizing session with
  | nil => trivial
  | cons command rest ih =>
    obtain ⟨output, next, hstep, hrest⟩ := run_cons_eq_some.mp hrun
    have hstepped := step_stepped h hstep
    have hgrows := hstepped.change.grows
    have hgrows' := run_grows (hstepped.valid h) hrest
    constructor
    · intro output' after hstep'
      obtain ⟨-, rfl⟩ := Prod.mk.inj (some.inj (hstep.symm.trans hstep'))
      exact hstepped.quiet (by omega)
    · intro output' after hstep'
      obtain ⟨-, rfl⟩ := Prod.mk.inj (some.inj (hstep.symm.trans hstep'))
      exact ih (hstepped.valid h) hrest (by omega)

theorem run_current_or_ended (h : session.Valid)
    (hkey : session.registry.isCurrentRegistration key = true ∨ session.Ended key)
    (hrun : (viewportMachine Lineage Facts).run session commands = some later) :
    later.Valid ∧ (later.registry.isCurrentRegistration key = true ∨ later.Ended key) :=
  @invariant_of_run _ _ _ (viewportMachine Lineage Facts) _ (fun session => session.Valid ∧
      (session.registry.isCurrentRegistration key = true ∨ session.Ended key))
    (fun _ _ _ _ hinv hstep =>
      have hstepped := step_stepped hinv.1 hstep
      ⟨hstepped.valid hinv.1, hstepped.current_or_ended hinv.1 hinv.2⟩)
    _ _ ⟨h, hkey⟩ hrun

theorem run_ended (h : session.Valid) (hended : session.Ended key)
    (hrun : (viewportMachine Lineage Facts).run session commands = some later) :
    later.Valid ∧ later.Ended key :=
  @invariant_of_run _ _ _ (viewportMachine Lineage Facts) _
    (fun session => session.Valid ∧ session.Ended key)
    (fun _ _ _ _ hinv hstep =>
      have hstepped := step_stepped hinv.1 hstep
      ⟨hstepped.valid hinv.1, hstepped.ended_of_ended hinv.2⟩)
    _ _ ⟨h, hended⟩ hrun

end ViewportSession

/-- The maps are the inverse of each other, a registration reports what it has taken away,
a prepared registration is committed only if nothing has changed since, and a key that
has stopped being current is never current again. -/
structure RegistersBijectively {Lineage Facts : Type} [DecidableEq Lineage] [Inhabited Facts]
    (commands : List (ViewportCommand Lineage)) (session : ViewportSession Lineage Facts) :
    Prop where
  inverse : ∀ (space : DockSpaceId) (windowId : WindowId),
    session.registry.windows[windowId]? = some space ↔
      ∃ snapshot : DockViewportSnapshot Lineage Facts,
        session.registry.viewports[space]? = some snapshot ∧ snapshot.window.id = windowId
  reports : ∀ space window lineage result after,
    session.registry.registerWithReplacements space window lineage = some (result, after) →
      Reports session.registry after result
  unchanged : ∀ first second space window lineage prepared before reserved,
    commands = first ++ .prepare space window lineage :: second →
    (viewportMachine Lineage Facts).run .start first = some before →
    (viewportMachine Lineage Facts).step before (.prepare space window lineage) =
      some (.prepared (some prepared), reserved) →
    session.registry.canCommitVacantRegistration prepared = true →
    (viewportMachine Lineage Facts).Along ViewportSession.Quiet reserved second
  ended : ∀ first second rest key earlier later, commands = first ++ second ++ rest →
    (viewportMachine Lineage Facts).run .start first = some earlier →
    earlier.registry.isCurrentRegistration key = true →
    (viewportMachine Lineage Facts).run earlier second = some later →
    later.registry.isCurrentRegistration key = false →
    session.registry.isCurrentRegistration key = false

theorem viewports_register_bijectively {Lineage Facts : Type} [DecidableEq Lineage]
    [Inhabited Facts] {commands : List (ViewportCommand Lineage)}
    {session : ViewportSession Lineage Facts}
    (hrun : (viewportMachine Lineage Facts).run .start commands = some session) :
    RegistersBijectively commands session := by
  have hvalid := run_valid hrun
  constructor
  · exact hvalid.inverse
  · intro space window lineage result after hregister
    exact (@registerWithReplacements_change _ _ _ _ (fun _ _ => False) _ _ _ _ _ hvalid.inverse
      hvalid.bounded _ hregister).2
  · rintro first second space window lineage prepared before reserved rfl hfirst hstep hcan
    obtain ⟨before', hbefore, hrest⟩ := run_append_eq_some.mp hrun
    obtain rfl := Option.some.inj (hfirst.symm.trans hbefore)
    rw [run_cons_of_step hstep] at hrest
    have hbeforeValid := run_valid hfirst
    have hstep' : before.step (.prepare space window lineage) =
        some (.prepared (some prepared), reserved) := hstep
    have hstepped := step_stepped hbeforeValid hstep'
    apply run_quiet (hstepped.valid hbeforeValid) hrest
    have hstamp := (canCommitVacantRegistration_iff.mp hcan).1
    simp only [viewportMachine, ViewportSession.step, map_eq_some_iff, Prod.mk.injEq,
      ViewportOutput.prepared.injEq] at hstep
    obtain ⟨⟨output, registry⟩, hprepare, rfl, rfl⟩ := hstep
    have hreserved := (@prepareVacantRegistration_change _ _ _ _ (fun _ _ => False)
      hbeforeValid.inverse _ _ _ _ hprepare).2 prepared rfl
    exact hstamp.trans hreserved.stamp
  · rintro first second rest key earlier later rfl hfirst hcurrent hsecond hstopped
    rw [List.append_assoc] at hrun
    obtain ⟨earlier', hearlier, hrest⟩ := run_append_eq_some.mp hrun
    obtain rfl := Option.some.inj (hfirst.symm.trans hearlier)
    obtain ⟨later', hlater, hlast⟩ := run_append_eq_some.mp hrest
    obtain rfl := Option.some.inj (hsecond.symm.trans hlater)
    have hearlierValid := run_valid hfirst
    obtain ⟨hlaterValid, hcurrent' | hended⟩ :=
      run_current_or_ended hearlierValid (Or.inl hcurrent) hsecond
    · rw [hstopped] at hcurrent'
      cases hcurrent'
    · obtain ⟨hsessionValid, hsessionEnded⟩ :=
        run_ended hlaterValid hended hlast
      exact hsessionEnded.not_current hsessionValid

/-- One space is reserved, bound, bound again to another window, and given back. -/
def rebindingCommands : List (ViewportCommand Unit) :=
  [.prepare "main" ⟨1, 0⟩ (), .commit 0, .register "main" ⟨2, 0⟩ (), .unregisterSpace "main",
    .register "main" ⟨1, 0⟩ ()]

theorem rebindingCommands_register_bijectively :
    ∃ session, (viewportMachine Unit Unit).run .start rebindingCommands = some session ∧
      RegistersBijectively rebindingCommands session :=
  ⟨_, rfl, viewports_register_bijectively rfl⟩

end OpenGpui.Docking
