/-
The one-to-one mapping between dock spaces and windows: reserved and replacing
registrations, a generation for every binding of a space, and a generation that counts
the changes of the mapping.
-/
import OpenGpui.Docking.Graph
import OpenGpui.Library.Machine
import OpenGpui.Library.Primitives

namespace OpenGpui.Docking

abbrev WindowId := Nat

structure AnyWindowHandle where
  id : WindowId
  stateType : Nat
deriving DecidableEq

/-- Names one exact registration of a space to a window. -/
structure DockViewportRegistrationKey (Lineage : Type) where
  space : DockSpaceId
  windowId : WindowId
  generation : Nat
  lineage : Lineage

structure DockViewportPreparedVacantRegistration (Lineage : Type) where
  registration : DockViewportRegistrationKey Lineage
  window : AnyWindowHandle
  registryMutationGeneration : Nat

/-- A binding with the facts that rendering publishes about it, which start out as the
default ones. -/
structure DockViewportSnapshot (Lineage Facts : Type) where
  window : AnyWindowHandle
  registrationGeneration : Nat
  lineage : Lineage
  facts : Facts
deriving DecidableEq

structure DockViewportRegistrationConflict (Lineage : Type) where
  incumbent : Lineage
  requested : Lineage

structure DockViewportRegistry (Lineage Facts : Type) where
  viewports : KeyMap DockSpaceId (DockViewportSnapshot Lineage Facts)
  windows : KeyMap WindowId DockSpaceId
  lastRegistrationGenerationBySpace : KeyMap DockSpaceId Nat
  mutationGeneration : Nat

/-- The bindings that a step takes away, with their spaces. -/
abbrev DockViewportBindings (Lineage Facts : Type) :=
  List (DockSpaceId × DockViewportSnapshot Lineage Facts)

namespace DockViewportRegistry

variable {Lineage Facts : Type} [DecidableEq Lineage] [Inhabited Facts]

def new : DockViewportRegistry Lineage Facts := ⟨∅, ∅, ∅, 0⟩

variable (registry : DockViewportRegistry Lineage Facts)

/-- The registry with the next mutation generation; running out of them is a panic. -/
def advanceMutationGeneration : Option (DockViewportRegistry Lineage Facts) :=
  (U64.checkedAdd registry.mutationGeneration 1).map fun generation =>
    { registry with mutationGeneration := generation }

variable (space : DockSpaceId)

def nextRegistrationGeneration : Option Nat :=
  U64.checkedAdd (registry.lastRegistrationGenerationBySpace[space]?.getD 0) 1

variable (window : AnyWindowHandle) (lineage : Lineage)

/-- A vacant space and a vacant window are reserved under a new generation. -/
def prepareVacantRegistration :
    Option (Option (DockViewportPreparedVacantRegistration Lineage) ×
      DockViewportRegistry Lineage Facts) :=
  if space ∈ registry.viewports ∨ window.id ∈ registry.windows then some (none, registry)
  else match registry.nextRegistrationGeneration space with
    | none => some (none, registry)
    | some generation =>
      let reserved := { registry with
        lastRegistrationGenerationBySpace :=
          registry.lastRegistrationGenerationBySpace.insert space generation }
      reserved.advanceMutationGeneration.map fun after =>
        (some
          { registration := ⟨space, window.id, generation, lineage⟩
            window
            registryMutationGeneration := after.mutationGeneration },
          after)

variable (prepared : DockViewportPreparedVacantRegistration Lineage)

def canCommitVacantRegistration :
    Bool :=
  decide (registry.mutationGeneration = prepared.registryMutationGeneration) &&
    decide (registry.lastRegistrationGenerationBySpace[prepared.registration.space]? =
      some prepared.registration.generation) &&
    decide (prepared.registration.space ∉ registry.viewports) &&
    decide (prepared.registration.windowId ∉ registry.windows) &&
    decide (prepared.window.id = prepared.registration.windowId)

/-- Committing what cannot be committed is a panic. -/
def commitVacantRegistration :
    Option (DockViewportRegistrationKey Lineage × DockViewportRegistry Lineage Facts) :=
  if registry.canCommitVacantRegistration prepared then
    let registration := prepared.registration
    let bound := { registry with
      windows := registry.windows.insert registration.windowId registration.space
      viewports := registry.viewports.insert registration.space
        ⟨prepared.window, registration.generation, registration.lineage, default⟩ }
    bound.advanceMutationGeneration.map fun after => (registration, after)
  else none

/-- The conflict with the binding of a space that another lineage made. -/
def lineageConflict : Option (DockViewportRegistrationConflict Lineage) :=
  match registry.viewports[space]? with
  | some snapshot =>
    if snapshot.lineage ≠ lineage then some ⟨snapshot.lineage, lineage⟩ else none
  | none => none

variable (windowId : WindowId)

/-- The space has this window already, and the window no other space. -/
def isRegistered (lineage : Lineage) : Bool :=
  (registry.viewports[space]?.any fun snapshot =>
    decide (snapshot.window.id = windowId) && decide (snapshot.lineage = lineage)) &&
  (registry.windows[windowId]?.all fun registered => decide (registered = space))

/-- Takes the binding of the space away. -/
def displaceSpace : DockViewportBindings Lineage Facts × DockViewportRegistry Lineage Facts :=
  match registry.viewports[space]? with
  | none => ([], registry)
  | some previous =>
    ([(space, previous)], { registry with
      viewports := registry.viewports.erase space
      windows := registry.windows.erase previous.window.id })

/-- Takes the binding of the window away, when it is to another space. -/
def displaceWindow : DockViewportBindings Lineage Facts × DockViewportRegistry Lineage Facts :=
  match registry.windows[windowId]? with
  | none => ([], registry)
  | some previousSpace =>
    let freed := { registry with windows := registry.windows.erase windowId }
    if previousSpace ≠ space then
      match registry.viewports[previousSpace]? with
      | none => ([], freed)
      | some previous =>
        ([(previousSpace, previous)],
          { freed with viewports := registry.viewports.erase previousSpace })
    else ([], freed)

/-- Binds the space to the window under a new generation. -/
def bind : Option (DockViewportRegistry Lineage Facts) :=
  match registry.nextRegistrationGeneration space with
  | none => none
  | some generation =>
    let bound := { registry with
      windows := registry.windows.insert window.id space
      lastRegistrationGenerationBySpace :=
        registry.lastRegistrationGenerationBySpace.insert space generation
      viewports := registry.viewports.insert space ⟨window, generation, lineage, default⟩ }
    bound.advanceMutationGeneration

/-- Registers, and takes away the bindings that the space and the window had. -/
def registerWithReplacements :
    Option (Except (DockViewportRegistrationConflict Lineage)
      (DockViewportBindings Lineage Facts) × DockViewportRegistry Lineage Facts) :=
  match registry.lineageConflict space lineage with
  | some conflict => some (.error conflict, registry)
  | none =>
    match registry.windows[window.id]?.bind (registry.lineageConflict · lineage) with
    | some conflict => some (.error conflict, registry)
    | none =>
      if registry.isRegistered space window.id lineage then
        let indexed := { registry with windows := registry.windows.insert window.id space }
        if registry.windows[window.id]? ≠ some space then
          indexed.advanceMutationGeneration.map fun after => (.ok [], after)
        else some (.ok [], indexed)
      else
        let bySpace := registry.displaceSpace space
        let byWindow := bySpace.2.displaceWindow space window.id
        (byWindow.2.bind space window lineage).map fun after =>
          (.ok (bySpace.1 ++ byWindow.1), after)

def unregisterSpace :
    Option (Option (DockViewportSnapshot Lineage Facts) × DockViewportRegistry Lineage Facts) :=
  match registry.viewports[space]? with
  | none => some (none, registry)
  | some snapshot =>
    let removed := { registry with
      viewports := registry.viewports.erase space
      windows := registry.windows.erase snapshot.window.id }
    removed.advanceMutationGeneration.map fun after => (some snapshot, after)

def unregisterWindowId :
    Option (Option (DockSpaceId × DockViewportSnapshot Lineage Facts) ×
      DockViewportRegistry Lineage Facts) :=
  match registry.windows[windowId]? with
  | none => some (none, registry)
  | some space =>
    let freed := { registry with windows := registry.windows.erase windowId }
    freed.advanceMutationGeneration.map fun after =>
      match registry.viewports[space]? with
      | none => (none, after)
      | some snapshot =>
        if snapshot.window.id = windowId then
          (some (space, snapshot), { after with viewports := registry.viewports.erase space })
        else (none, after)

def isCurrentRegistration (key : DockViewportRegistrationKey Lineage) : Bool :=
  (registry.viewports[key.space]?.any fun snapshot =>
    decide (snapshot.registrationGeneration = key.generation) &&
      decide (snapshot.window.id = key.windowId) && decide (snapshot.lineage = key.lineage)) &&
  (registry.windows[key.windowId]?.any fun space => decide (space = key.space))

end DockViewportRegistry

/-- A registry with the prepared registrations it has handed out, which their holders may
copy. -/
structure ViewportSession (Lineage Facts : Type) where
  registry : DockViewportRegistry Lineage Facts
  prepared : List (DockViewportPreparedVacantRegistration Lineage)

inductive ViewportCommand (Lineage : Type) where
  | prepare (space : DockSpaceId) (window : AnyWindowHandle) (lineage : Lineage)
  | commit (held : Nat)
  | register (space : DockSpaceId) (window : AnyWindowHandle) (lineage : Lineage)
  | unregisterSpace (space : DockSpaceId)
  | unregisterWindowId (windowId : WindowId)

inductive ViewportOutput (Lineage Facts : Type) where
  | prepared (prepared : Option (DockViewportPreparedVacantRegistration Lineage))
  | committed (registration : DockViewportRegistrationKey Lineage)
  | registered (result : Except (DockViewportRegistrationConflict Lineage)
      (DockViewportBindings Lineage Facts))
  | unregistered (removed : Option (DockSpaceId × DockViewportSnapshot Lineage Facts))

namespace ViewportSession

variable {Lineage Facts : Type} [DecidableEq Lineage] [Inhabited Facts]

def start : ViewportSession Lineage Facts := ⟨.new, []⟩

def step (session : ViewportSession Lineage Facts) (command : ViewportCommand Lineage) :
    Option (ViewportOutput Lineage Facts × ViewportSession Lineage Facts) :=
  match command with
  | .prepare space window lineage =>
    (session.registry.prepareVacantRegistration space window lineage).map fun result =>
      (.prepared result.1, ⟨result.2, session.prepared ++ result.1.toList⟩)
  | .commit held =>
    session.prepared[held]?.bind fun prepared =>
      (session.registry.commitVacantRegistration prepared).map fun result =>
        (.committed result.1, { session with registry := result.2 })
  | .register space window lineage =>
    (session.registry.registerWithReplacements space window lineage).map fun result =>
      (.registered result.1, { session with registry := result.2 })
  | .unregisterSpace space =>
    (session.registry.unregisterSpace space).map fun result =>
      (.unregistered (result.1.map (space, ·)), { session with registry := result.2 })
  | .unregisterWindowId windowId =>
    (session.registry.unregisterWindowId windowId).map fun result =>
      (.unregistered result.1, { session with registry := result.2 })

end ViewportSession

def viewportMachine (Lineage Facts : Type) [DecidableEq Lineage] [Inhabited Facts] :
    Machine (ViewportSession Lineage Facts) (ViewportCommand Lineage)
      (ViewportOutput Lineage Facts) :=
  ⟨ViewportSession.step⟩

end OpenGpui.Docking
