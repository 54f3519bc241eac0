/-
The geometry cache of a virtualizer and its sessions.  The one entry is reused when its key
matches or when the state was seeded from the measurements that the entry itself produced; a
storage keeps its contents as long as anything holds it, so its address stands for them.
-/
import OpenGpui.Library.Machine
import OpenGpui.UiCore.Virtualizer

namespace OpenGpui.UiCore

inductive VirtualizerGeometryKind where
  | knownSize
  | measured
deriving DecidableEq

/-- What a cached geometry was built for. -/
structure VirtualizerGeometryCacheKey where
  kind : VirtualizerGeometryKind
  revision : Nat
  count : Nat
  estimatedSize : UiPx
  gap : UiPx
  scrollMargin : UiPx
  measurementAuthority : Option SharedMeasurements

def sharedMeasurementsMatch (left right : SharedMeasurements) : Bool :=
  (left.items.isEmpty && right.items.isEmpty) || left.address == right.address

def optionalMeasurementAuthoritiesMatch :
    Option SharedMeasurements → Option SharedMeasurements → Bool
  | none, none => true
  | some left, some right => sharedMeasurementsMatch left right
  | none, some measurements => measurements.items.isEmpty
  | some measurements, none => measurements.items.isEmpty

def optionalAuthorityMatchesMeasurements (authority : Option SharedMeasurements)
    (measurements : SharedMeasurements) : Bool :=
  match authority with
  | some authority => sharedMeasurementsMatch authority measurements
  | none => measurements.items.isEmpty

namespace VirtualizerGeometryCacheKey

variable (key other : VirtualizerGeometryCacheKey)

def matchesGeometryInputs : Bool :=
  key.kind == other.kind && key.revision == other.revision && key.count == other.count &&
    key.estimatedSize == other.estimatedSize && key.gap == other.gap &&
    key.scrollMargin == other.scrollMargin

def «matches» : Bool :=
  key.matchesGeometryInputs other &&
    optionalMeasurementAuthoritiesMatch key.measurementAuthority other.measurementAuthority

end VirtualizerGeometryCacheKey

inductive VirtualizerGeometryCacheValue where
  | knownSize (geometry : VirtualizerGeometryIndex)
  | measured (measured : VirtualizerMeasuredGeometry)

structure VirtualizerGeometryCacheEntry where
  key : VirtualizerGeometryCacheKey
  value : VirtualizerGeometryCacheValue

/-- The geometry that was built last. -/
structure VirtualizerGeometryCache where
  entry : Option VirtualizerGeometryCacheEntry

namespace VirtualizerGeometryCache

def clear (_ : VirtualizerGeometryCache) : VirtualizerGeometryCache := ⟨none⟩

variable (cache : VirtualizerGeometryCache) (key : VirtualizerGeometryCacheKey)

def knownSizeHit : Option VirtualizerGeometryIndex :=
  match cache.entry with
  | some ⟨entryKey, .knownSize geometry⟩ =>
    if entryKey.matches key then some geometry else none
  | _ => none

def resolveKnownSize (build : VirtualizerGeometryIndex) :
    VirtualizerGeometryIndex × VirtualizerGeometryCache :=
  match cache.knownSizeHit key with
  | some geometry => (geometry, cache)
  | none => (build, ⟨some ⟨key, .knownSize build⟩⟩)

/-- The cached geometry, when its key matches. -/
def measuredHit : Option VirtualizerMeasuredGeometry :=
  match cache.entry with
  | some ⟨entryKey, .measured measured⟩ =>
    if entryKey.matchesGeometryInputs key &&
        (entryKey.matches key || optionalAuthorityMatchesMeasurements
          key.measurementAuthority measured.snapshotMeasurements) then some measured
    else none
  | _ => none

def resolveMeasured (build : VirtualizerMeasuredGeometry) :
    VirtualizerMeasuredGeometry × VirtualizerGeometryCache :=
  match cache.measuredHit key with
  | some measured => (measured, cache)
  | none => (build, ⟨some ⟨key, .measured build⟩⟩)

end VirtualizerGeometryCache

namespace VirtualizerState

variable (state : VirtualizerState)

/-- The key of the state's geometry; known sizes do not depend on an authority. -/
def geometryCacheKey (kind : VirtualizerGeometryKind)
    (revision : Nat) : VirtualizerGeometryCacheKey where
  kind := kind
  revision := revision
  count := state.count
  estimatedSize := nonnegativePx state.estimatedSize
  gap := nonnegativePx state.gap
  scrollMargin := nonnegativePx state.scrollMargin
  measurementAuthority :=
    match kind with
    | .knownSize => none
    | .measured => state.measurementAuthority

variable (address : Nat)

def resolveKnownSizeWindowByCached
    (geometryCache : VirtualizerGeometryCache) (geometryRevision : Nat)
    (sizeForIndex : Nat → UiPx) (keyForIndex : Nat → VirtualizerItemKey) :
    VirtualizerResolvedState × VirtualizerGeometryCache :=
  let (geometry, next) := geometryCache.resolveKnownSize
    (state.geometryCacheKey .knownSize geometryRevision)
    (sizeDrivenGeometry state.count (nonnegativePx state.gap)
      (nonnegativePx state.scrollMargin) sizeForIndex)
  (state.resolveKnownSizeWindowFromGeometry address geometry keyForIndex, next)

def resolveMeasuredWindowByCached
    (geometryCache : VirtualizerGeometryCache) (geometryRevision : Nat)
    (itemForIndex : Nat → VirtualizerItemKey × Option UiPx) :
    VirtualizerResolvedState × VirtualizerGeometryCache :=
  let (measured, next) := geometryCache.resolveMeasured
    (state.geometryCacheKey .measured geometryRevision)
    (state.measuredGeometry address itemForIndex)
  (state.resolveMeasuredWindowFromGeometry measured, next)

def resolveMeasuredWindowCached (geometryCache : VirtualizerGeometryCache) (geometryRevision : Nat)
    (keyForIndex : Nat → VirtualizerItemKey) :
    VirtualizerResolvedState × VirtualizerGeometryCache :=
  state.resolveMeasuredWindowByCached address geometryCache geometryRevision fun index =>
    let key := keyForIndex index
    (key, state.measuredSize key)

end VirtualizerState

/-- One call of a state's builder; a snapshot is named by its place among those taken. -/
inductive VirtualizerStateStep where
  | viewportExtent (viewportExtent : UiPx)
  | scrollOffset (scrollOffset : UiPx)
  | overscan (overscan : Nat)
  | gap (gap : UiPx)
  | scrollMargin (scrollMargin : UiPx)
  | itemKeys (itemKeys : List VirtualizerItemKey)
  | measurement (key : VirtualizerItemKey) (size : UiPx)
  | snapshot (handle : Nat)

def VirtualizerState.buildStep (snapshots : List VirtualizerSnapshot)
    (state : VirtualizerState) : VirtualizerStateStep → Option VirtualizerState
  | .viewportExtent viewportExtent => some (state.withViewportExtent viewportExtent)
  | .scrollOffset scrollOffset => some (state.withScrollOffset scrollOffset)
  | .overscan overscan => some (state.withOverscan overscan)
  | .gap gap => some (state.withGap gap)
  | .scrollMargin scrollMargin => some (state.withScrollMargin scrollMargin)
  | .itemKeys itemKeys => some (state.withItemKeys itemKeys)
  | .measurement key size => some (state.withMeasurement key size)
  | .snapshot handle => snapshots[handle]?.map state.withSnapshot

/-- The callbacks of the three cached resolvers. -/
inductive VirtualizerCallback where
  | knownSize (sizeForIndex : Nat → UiPx) (keyForIndex : Nat → VirtualizerItemKey)
  | measuredBy (itemForIndex : Nat → VirtualizerItemKey × Option UiPx)
  | measured (keyForIndex : Nat → VirtualizerItemKey)

/-- A state and how it is resolved. -/
structure VirtualizerRequest where
  revision : Nat
  count : Nat
  estimatedSize : UiPx
  steps : List VirtualizerStateStep
  callback : VirtualizerCallback

namespace VirtualizerRequest

variable (request : VirtualizerRequest)

def build (snapshots : List VirtualizerSnapshot) : Option VirtualizerState :=
  request.steps.foldlM (VirtualizerState.buildStep snapshots)
    (.new request.count request.estimatedSize)

variable (state : VirtualizerState)

def resolveCached (address : Nat)
    (cache : VirtualizerGeometryCache) :
    VirtualizerResolvedState × VirtualizerGeometryCache :=
  match request.callback with
  | .knownSize sizeForIndex keyForIndex =>
    state.resolveKnownSizeWindowByCached address cache request.revision sizeForIndex keyForIndex
  | .measuredBy itemForIndex =>
    state.resolveMeasuredWindowByCached address cache request.revision itemForIndex
  | .measured keyForIndex =>
    state.resolveMeasuredWindowCached address cache request.revision keyForIndex

/-- The same resolution with its geometry built for it alone. -/
def resolveUncached (address : Nat) : VirtualizerResolvedState :=
  match request.callback with
  | .knownSize sizeForIndex keyForIndex =>
    state.resolveKnownSizeWindowBy address sizeForIndex keyForIndex
  | .measuredBy itemForIndex =>
    state.resolveMeasuredWindowFromGeometry (state.measuredGeometry address itemForIndex)
  | .measured keyForIndex => state.resolveMeasuredWindow address keyForIndex

end VirtualizerRequest

/-- What comparing the results of the source compares: measurements by contents. -/
def VirtualizerResolvedState.withoutAddress (resolved : VirtualizerResolvedState) :
    VirtualizerResolvedState :=
  { resolved with
    snapshot := { resolved.snapshot with
      measurements := { resolved.snapshot.measurements with address := 0 } } }

inductive VirtualizerCacheOperation where
  | newSnapshot (scrollOffset : UiPx) (measurements : List VirtualizerSnapshotItem)
  | clear
  | resolve (request : VirtualizerRequest)

/-- `memory` is the contents of every storage so far, by address; `answers` pairs what the
cached resolvers answered, the newest first, with the uncached resolution. -/
structure VirtualizerCacheSession where
  cache : VirtualizerGeometryCache
  memory : List (List VirtualizerSnapshotItem)
  snapshots : List VirtualizerSnapshot
  answers : List (VirtualizerResolvedState × VirtualizerResolvedState)

namespace VirtualizerCacheSession

def start : VirtualizerCacheSession := ⟨⟨none⟩, [], [], []⟩

variable (session : VirtualizerCacheSession)

def resolve (request : VirtualizerRequest) (state : VirtualizerState) : VirtualizerCacheSession :=
  let address := session.memory.length
  let (resolved, cache) := request.resolveCached state address session.cache
  { cache
    memory := session.memory ++ [resolved.snapshot.measurements.items]
    snapshots := session.snapshots ++ [resolved.snapshot]
    answers := (resolved, request.resolveUncached state address) :: session.answers }

def perform :
    VirtualizerCacheOperation → Option VirtualizerCacheSession
  | .newSnapshot scrollOffset measurements => some
      { session with
        memory := session.memory ++ [measurements]
        snapshots := session.snapshots ++ [.new session.memory.length scrollOffset measurements] }
  | .clear => some { session with cache := session.cache.clear }
  | .resolve request => (request.build session.snapshots).map (session.resolve request)

def machine : Machine VirtualizerCacheSession VirtualizerCacheOperation Unit where
  step session operation := (session.perform operation).map fun next => ((), next)

/-- Every answer is what the resolution without a cache gives. -/
def Transparent : Prop :=
  ∀ answer ∈ session.answers, answer.1.withoutAddress = answer.2.withoutAddress

end VirtualizerCacheSession

/-- What the callbacks of the measured resolvers answer at one revision: items with their
sizes, or keys whose sizes are those the state has. -/
inductive MeasuredAnswers where
  | items (itemForIndex : Nat → VirtualizerItemKey × Option UiPx)
  | keys (keyForIndex : Nat → VirtualizerItemKey)

structure RevisionAnswers where
  sizeForIndex : Nat → UiPx
  measured : MeasuredAnswers

def VirtualizerStateStep.ownedMeasurement :
    VirtualizerStateStep → Option VirtualizerSnapshotItem
  | .measurement key size => some { key, size }
  | _ => none

/-- A key with the size that the state has for it. -/
def VirtualizerState.itemOfKey (state : VirtualizerState) (key : VirtualizerItemKey) :
    VirtualizerItemKey × Option UiPx :=
  (key, state.measuredSize key)

/-- The callback answers as the revision does.  An item callback and a key callback may
share a revision: they agree when their items are the same. -/
def VirtualizerRequest.Honours (request : VirtualizerRequest) (answers : RevisionAnswers)
    (state : VirtualizerState) : Prop :=
  match request.callback, answers.measured with
  | .knownSize sizeForIndex _, _ =>
    ∀ index < request.count, sizeForIndex index = answers.sizeForIndex index
  | .measuredBy itemForIndex, .items answered =>
    ∀ index < request.count, itemForIndex index = answered index
  | .measuredBy itemForIndex, .keys answered =>
    ∀ index < request.count, itemForIndex index = state.itemOfKey (answered index)
  | .measured keyForIndex, .keys answered =>
    ∀ index < request.count, keyForIndex index = answered index
  | .measured keyForIndex, .items answered =>
    ∀ index < request.count, state.itemOfKey (keyForIndex index) = answered index

/-- The caller changes the revision whenever a callback could answer differently. -/
def VirtualizerCacheSession.Honours (answers : Nat → RevisionAnswers)
    (session : VirtualizerCacheSession) : VirtualizerCacheOperation → Prop
  | .newSnapshot _ _ => True
  | .clear => True
  | .resolve request => ∀ state, request.build session.snapshots = some state →
      request.Honours (answers request.revision) state

/-- The sizes of a state by key: its own measurements made after it was seeded, then those
of its authority, then its own made before. -/
structure OwnedMeasurements where
  before : KeyMap VirtualizerItemKey MeasuredPx
  after : KeyMap VirtualizerItemKey MeasuredPx

def measurementsOf (items : List VirtualizerSnapshotItem) : KeyMap VirtualizerItemKey MeasuredPx :=
  items.foldl (fun byKey item => byKey.insert item.key (measuredPx item.size)) ∅

def authorityMeasurements (authority : Option SharedMeasurements) :
    KeyMap VirtualizerItemKey MeasuredPx :=
  match authority with
  | some authority => measurementsOf authority.items
  | none => ∅

namespace OwnedMeasurements

def measuredSize (owned : OwnedMeasurements) (authority : Option SharedMeasurements)
    (key : VirtualizerItemKey) : Option MeasuredPx :=
  owned.after[key]?.or ((authorityMeasurements authority)[key]?.or owned.before[key]?)

end OwnedMeasurements

/-- The authority of the state stands for everything it was seeded with. -/
def VirtualizerState.SeededOnce (state : VirtualizerState) (owned : OwnedMeasurements) : Prop :=
  ∀ key : VirtualizerItemKey,
    state.measurementsByKey[key]? = owned.measuredSize state.measurementAuthority key

/-- The states measured at a revision that is answered by key have no seed but their
authority, and the same measurements of their own. -/
def VirtualizerCacheSession.SeedsOnce (answers : Nat → RevisionAnswers)
    (owned : Nat → OwnedMeasurements) (session : VirtualizerCacheSession) :
    VirtualizerCacheOperation → Prop
  | .resolve request =>
    match request.callback, (answers request.revision).measured with
    | .measuredBy _, .keys _ | .measured _, .keys _ =>
      ∀ state, request.build session.snapshots = some state →
        state.SeededOnce (owned request.revision)
    | _, _ => True
  | _ => True

end OpenGpui.UiCore
