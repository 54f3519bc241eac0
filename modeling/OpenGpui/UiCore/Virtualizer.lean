/-
One-dimensional virtualizers: the ranges and geometry that the full, the fixed-size, the
known-size and the measured-window resolvers report, in pixels that are exact numbers.  Which
storage holds a snapshot's measurements matters to the geometry cache, so a storage carries
its address and every resolver takes the address its own snapshot is stored at.
-/
import Mathlib.Data.Rat.Floor
import OpenGpui.Collections
import OpenGpui.Library.ItemStack
import OpenGpui.UiCore.SplitFractions

namespace OpenGpui.UiCore

universe u

abbrev UiPx := Scalar

variable (value : UiPx)

def nonnegativePx : UiPx := if value < 0 then 0 else value

theorem nonnegativePx_nonneg : 0 ≤ nonnegativePx value := by
  unfold nonnegativePx
  split
  next => exact le_refl 0
  next h => exact not_lt.mp h

@[simp] theorem nonnegativePx_of_nonneg {value : UiPx} (h : 0 ≤ value) :
    nonnegativePx value = value := if_neg (not_lt.mpr h)

abbrev VirtualizerItemKey := String

/-- A range of indices; `stop` is exclusive. -/
structure VirtualizerRange where
  start : Nat
  stop : Nat
  start_le_stop : start ≤ stop
deriving DecidableEq

namespace VirtualizerRange

def new (start stop : Nat) : VirtualizerRange where
  start := start
  stop := if stop < start then start else stop
  start_le_stop := by split <;> omega

def empty : VirtualizerRange := ⟨0, 0, le_refl 0⟩

variable (range : VirtualizerRange)

def isEmpty : Bool := range.start == range.stop

def contains (index : Nat) : Bool := decide (range.start ≤ index) && decide (index < range.stop)

def indices : List Nat := List.range' range.start (range.stop - range.start)

/-- The entries at the indices of the range; the source would panic on a range that
ends beyond the slice. -/
def slice {α : Type u} (range : VirtualizerRange) (entries : List α) : List α :=
  (entries.take range.stop).drop range.start

end VirtualizerRange

/-- `end` is `start + size` in both constructors of the source. -/
structure VirtualizerItemMeasurement where
  index : Nat
  key : VirtualizerItemKey
  start : UiPx
  size : UiPx
  measured : Bool
deriving DecidableEq

def VirtualizerItemMeasurement.stop (item : VirtualizerItemMeasurement) : UiPx :=
  item.start + item.size

/-- Where an item lies. -/
structure VirtualizerItemGeometry where
  start : UiPx
  size : UiPx

variable (count : Nat)

/-- The source's casts to `usize` saturate at its maximum; each result is capped at an
item count right after, so the saturation is never seen. -/
def fixedVisibleRange (scrollOffset viewportExtent estimatedSize gap scrollMargin : UiPx) :
    VirtualizerRange :=
  if count = 0 ∨ viewportExtent ≤ 0 then .empty
  else if estimatedSize ≤ 0 then .empty
  else
    let stride := estimatedSize + gap
    if stride ≤ 0 then .empty
    else
      let viewportEnd := scrollOffset + viewportExtent
      let firstItemEnd := scrollMargin + estimatedSize
      let start := min (if scrollOffset < firstItemEnd then 0
        else ⌊(scrollOffset - firstItemEnd) / stride⌋₊ + 1) count
      let stop := if viewportEnd ≤ scrollMargin then 0
        else min ⌈(viewportEnd - scrollMargin) / stride⌉₊ count
      .new start (max stop start)

def fixedTotalSize (estimatedSize gap scrollMargin : UiPx) : UiPx :=
  if count = 0 then 0
  else count * estimatedSize + (count - 1) * gap + scrollMargin * 2

def fixedItems (range : VirtualizerRange) (estimatedSize gap scrollMargin : UiPx)
    (keyForIndex : Nat → VirtualizerItemKey) : List VirtualizerItemMeasurement :=
  let stride := estimatedSize + gap
  range.indices.map fun index =>
    { index, key := keyForIndex index, start := scrollMargin + index * stride,
      size := estimatedSize, measured := false }

/-- Items of one size, or each measured. -/
inductive VirtualizerGeometryIndex where
  | fixedIndex (count : Nat) (size gap scrollMargin : UiPx)
  | variableIndex (ends : List UiPx) (gap scrollMargin : UiPx)
deriving DecidableEq

namespace VirtualizerGeometryIndex

def fixed (size gap scrollMargin : UiPx) : VirtualizerGeometryIndex :=
  .fixedIndex count (nonnegativePx size) (nonnegativePx gap) (nonnegativePx scrollMargin)

variable (ends : List UiPx)

/-- Where an item starts, told by where the one before it ends. -/
def startFromEnds (gap scrollMargin : UiPx) (index : Nat) : UiPx :=
  if index = 0 then scrollMargin else ends.getD (index - 1) 0 + gap

/-- Items of one size need no list of their ends. -/
def fromEnds (gap scrollMargin : UiPx) : VirtualizerGeometryIndex :=
  let gap := nonnegativePx gap
  let scrollMargin := nonnegativePx scrollMargin
  let firstSize := (ends.head?.map fun stop => nonnegativePx (stop - scrollMargin)).getD 0
  let uniform := ends.zipIdx.all fun (stop, index) =>
    nonnegativePx (stop - startFromEnds ends gap scrollMargin index) == firstSize
  if uniform then fixed ends.length firstSize gap scrollMargin
  else .variableIndex ends gap scrollMargin

def fromMeasurements (measurements : List VirtualizerItemMeasurement)
    (gap scrollMargin : UiPx) : VirtualizerGeometryIndex :=
  fromEnds (measurements.map VirtualizerItemMeasurement.stop) gap scrollMargin

variable (geometry : VirtualizerGeometryIndex)

def item (index : Nat) : Option VirtualizerItemGeometry :=
  match geometry with
  | .fixedIndex count size gap scrollMargin =>
    if count ≤ index then none
    else some { start := scrollMargin + (size + gap) * index, size }
  | .variableIndex ends gap scrollMargin =>
    ends[index]?.map fun stop =>
      let start := startFromEnds ends gap scrollMargin index
      { start, size := nonnegativePx (stop - start) }

def totalSize : VirtualizerGeometryIndex → UiPx
  | .fixedIndex count size gap scrollMargin => fixedTotalSize count size gap scrollMargin
  | .variableIndex ends _ scrollMargin =>
    (ends.getLast?.map fun stop => stop + scrollMargin).getD 0

def visibleRange (scrollOffset viewportExtent : UiPx) : VirtualizerRange :=
  if viewportExtent ≤ 0 then .empty
  else
    match geometry with
    | .fixedIndex count size gap scrollMargin =>
      fixedVisibleRange count scrollOffset viewportExtent size gap scrollMargin
    | .variableIndex ends gap scrollMargin =>
      let viewportEnd := scrollOffset + viewportExtent
      let start := partitionPoint (fun stop => decide (stop ≤ scrollOffset)) ends
      if start = ends.length then .empty
      else
        let stop :=
          if scrollMargin < viewportEnd then
            1 + partitionPoint (fun stop => decide (stop + gap < viewportEnd))
              (ends.take (ends.length - 1))
          else 0
        .new start (max stop start)

end VirtualizerGeometryIndex

structure VirtualizerSnapshotItem where
  key : VirtualizerItemKey
  size : UiPx
deriving DecidableEq

/-- Reference-counted measurements; two of them are one storage if their addresses agree. -/
structure SharedMeasurements where
  address : Nat
  items : List VirtualizerSnapshotItem
deriving DecidableEq

/-- Measured sizes that outlive a state. -/
structure VirtualizerSnapshot where
  scrollOffset : UiPx
  measurements : SharedMeasurements
deriving DecidableEq

namespace VirtualizerSnapshot

def new (address : Nat) (scrollOffset : UiPx)
    (measurements : List VirtualizerSnapshotItem) : VirtualizerSnapshot where
  scrollOffset := nonnegativePx scrollOffset
  measurements := ⟨address, measurements⟩

def fromSharedMeasurements (scrollOffset : UiPx) (measurements : SharedMeasurements) :
    VirtualizerSnapshot where
  scrollOffset := nonnegativePx scrollOffset
  measurements := measurements

end VirtualizerSnapshot

/-- A size as the state keeps it: negative ones are stored as zero. -/
abbrev MeasuredPx := { size : UiPx // 0 ≤ size }

def measuredPx : MeasuredPx := ⟨nonnegativePx value, nonnegativePx_nonneg value⟩

/-- What a window is resolved from. -/
structure VirtualizerState where
  count : Nat
  viewportExtent : UiPx
  scrollOffset : UiPx
  estimatedSize : UiPx
  overscan : Nat
  gap : UiPx
  scrollMargin : UiPx
  itemKeys : List VirtualizerItemKey
  measurementsByKey : KeyMap VirtualizerItemKey MeasuredPx
  measurementAuthority : Option SharedMeasurements

/-- A window and what lies in it. -/
structure VirtualizerResolvedState where
  count : Nat
  viewportExtent : UiPx
  scrollOffset : UiPx
  estimatedSize : UiPx
  overscan : Nat
  gap : UiPx
  scrollMargin : UiPx
  totalSize : UiPx
  visibleRange : VirtualizerRange
  overscanRange : VirtualizerRange
  geometry : VirtualizerGeometryIndex
  measurements : List VirtualizerItemMeasurement
  visibleItems : List VirtualizerItemMeasurement
  items : List VirtualizerItemMeasurement
  snapshot : VirtualizerSnapshot
deriving DecidableEq

def VirtualizerResolvedState.itemGeometry (resolved : VirtualizerResolvedState)
    (index : Nat) : Option VirtualizerItemGeometry :=
  resolved.geometry.item index

structure VirtualizerMeasuredItemMetadata where
  key : VirtualizerItemKey
  measured : Bool

structure VirtualizerMeasuredGeometry where
  geometry : VirtualizerGeometryIndex
  itemMetadata : List VirtualizerMeasuredItemMetadata
  snapshotMeasurements : SharedMeasurements

def visibleRange (measurements : List VirtualizerItemMeasurement)
    (scrollOffset viewportExtent : UiPx) : VirtualizerRange :=
  if measurements.isEmpty = true ∨ viewportExtent ≤ 0 then .empty
  else
    let viewportEnd := scrollOffset + viewportExtent
    let start := measurements.findIdx fun item => decide (scrollOffset < item.stop)
    let stop := ((rposition (fun item : VirtualizerItemMeasurement =>
      decide (item.start < viewportEnd)) measurements).map (· + 1)).getD start
    .new start (max stop start)

/-- The budget one side cannot use goes to the other. -/
def overscanRange (visible : VirtualizerRange) (count overscanBudget : Nat) : VirtualizerRange :=
  if visible.isEmpty then visible
  else
    let beforeBudget := overscanBudget / 2
    let afterBudget := overscanBudget - beforeBudget
    let before := min beforeBudget visible.start
    let after := min afterBudget (count - visible.stop)
    let unusedBefore := beforeBudget - before
    let unusedAfter := afterBudget - after
    let start := visible.start - (before + min unusedAfter (visible.start - before))
    let stop := min (visible.stop + after + unusedBefore) count
    .new start stop

def sizeDrivenGeometry (gap scrollMargin : UiPx)
    (sizeForIndex : Nat → UiPx) : VirtualizerGeometryIndex :=
  if count = 0 then .fixed 0 0 gap scrollMargin
  else
    let size := fun index => nonnegativePx (sizeForIndex index)
    let ends := ItemStack.place gap size (fun index start => start + size index) count scrollMargin
    .fromEnds ends gap scrollMargin

/-- The measurements of the current keys, the last index of a key deciding for it. -/
def snapshotByKey (itemForIndex : Nat → VirtualizerItemKey × Option UiPx) :
    KeyMap VirtualizerItemKey UiPx :=
  (List.range count).foldl (fun byKey index =>
    match itemForIndex index with
    | (key, some size) => byKey.insert key (nonnegativePx size)
    | (key, none) => byKey.erase key) ∅

def snapshotItems (byKey : KeyMap VirtualizerItemKey UiPx) : List VirtualizerSnapshotItem :=
  byKey.toList.map fun entry => { key := entry.1, size := entry.2 }

/-- A preferred storage with the same contents is kept. -/
def retainMeasurements (address : Nat) (preferred : Option SharedMeasurements)
    (items : List VirtualizerSnapshotItem) : SharedMeasurements :=
  match preferred with
  | some authority => if authority.items = items then authority else ⟨address, items⟩
  | none => ⟨address, items⟩

theorem retainMeasurements_items (address : Nat) (preferred : Option SharedMeasurements)
    (items : List VirtualizerSnapshotItem) :
    (retainMeasurements address preferred items).items = items := by
  unfold retainMeasurements
  split
  next authority =>
    by_cases hsame : authority.items = items
    · rw [if_pos hsame, hsame]
    · rw [if_neg hsame]
  next => rfl

def buildMeasuredGeometry (address count : Nat) (estimatedSize gap scrollMargin : UiPx)
    (preferredSnapshotAuthority : Option SharedMeasurements)
    (itemForIndex : Nat → VirtualizerItemKey × Option UiPx) :
    VirtualizerMeasuredGeometry :=
  let size := fun index =>
    ((itemForIndex index).2.map nonnegativePx).getD estimatedSize
  let ends := ItemStack.place gap size (fun index start => start + size index) count scrollMargin
  let measurements := snapshotItems (snapshotByKey count itemForIndex)
  { geometry :=
      if count = 0 then .fixed 0 0 gap scrollMargin else .fromEnds ends gap scrollMargin
    itemMetadata := (List.range count).map fun index =>
      { key := (itemForIndex index).1, measured := (itemForIndex index).2.isSome }
    snapshotMeasurements := retainMeasurements address preferredSnapshotAuthority measurements }

def windowMeasurements (range : VirtualizerRange) (geometry : VirtualizerGeometryIndex)
    (metadataForIndex : Nat → VirtualizerItemKey × Bool) :
    List VirtualizerItemMeasurement :=
  range.indices.filterMap fun index =>
    (geometry.item index).map fun itemGeometry =>
      { index, key := (metadataForIndex index).1, start := itemGeometry.start,
        size := itemGeometry.size, measured := (metadataForIndex index).2 }

namespace VirtualizerState

def new (estimatedSize : UiPx) : VirtualizerState where
  count := count
  viewportExtent := 0
  scrollOffset := 0
  estimatedSize := nonnegativePx estimatedSize
  overscan := 0
  gap := 0
  scrollMargin := 0
  itemKeys := []
  measurementsByKey := ∅
  measurementAuthority := none

variable (state : VirtualizerState)

def withViewportExtent (viewportExtent : UiPx) :
    VirtualizerState := { state with viewportExtent }

def withScrollOffset (scrollOffset : UiPx) :
    VirtualizerState := { state with scrollOffset }

def withOverscan (overscan : Nat) : VirtualizerState := { state with overscan }

def withGap (gap : UiPx) : VirtualizerState := { state with gap }

def withScrollMargin (scrollMargin : UiPx) :
    VirtualizerState := { state with scrollMargin }

def withItemKeys (itemKeys : List VirtualizerItemKey) :
    VirtualizerState := { state with itemKeys }

variable (key : VirtualizerItemKey)

def withMeasurement (size : UiPx) : VirtualizerState :=
  { state with measurementsByKey := state.measurementsByKey.insert key (measuredPx size) }

def withSnapshot (snapshot : VirtualizerSnapshot) : VirtualizerState :=
  { state with
    scrollOffset := snapshot.scrollOffset
    measurementAuthority :=
      if snapshot.measurements.items.isEmpty then none else some snapshot.measurements
    measurementsByKey := snapshot.measurements.items.foldl (fun byKey item =>
      byKey.insert item.key (measuredPx item.size)) state.measurementsByKey }

def keyForIndex (index : Nat) : VirtualizerItemKey := state.itemKeys.getD index (toString index)

/-- The measured size of a key. -/
def measuredSize : Option UiPx := state.measurementsByKey[key]?.map Subtype.val

/-- Items one after another, with their measured or estimated sizes. -/
def resolveMeasurements (estimatedSize gap scrollMargin : UiPx) : List VirtualizerItemMeasurement :=
  let size := fun index =>
    (state.measuredSize (state.keyForIndex index)).getD estimatedSize
  ItemStack.place gap size (fun index cursor =>
    { index, key := state.keyForIndex index, start := cursor, size := size index,
      measured := (state.measuredSize (state.keyForIndex index)).isSome })
    state.count scrollMargin

variable (address : Nat)

def snapshotForCurrentKeys (scrollOffset : UiPx) (keyForIndex : Nat → VirtualizerItemKey) :
    VirtualizerSnapshot :=
  if state.measurementsByKey.isEmpty then .new address scrollOffset []
  else
    let currentKeys := (List.range state.count).map keyForIndex
    .new address scrollOffset
      ((state.measurementsByKey.toList.filter fun entry => currentKeys.contains entry.1).map
        fun (key, size) => { key, size := size.val })

def resolve : VirtualizerResolvedState :=
  let viewportExtent := nonnegativePx state.viewportExtent
  let scrollOffset := nonnegativePx state.scrollOffset
  let estimatedSize := nonnegativePx state.estimatedSize
  let gap := nonnegativePx state.gap
  let scrollMargin := nonnegativePx state.scrollMargin
  let measurements := state.resolveMeasurements estimatedSize gap scrollMargin
  let visible := visibleRange measurements scrollOffset viewportExtent
  let overscan := overscanRange visible state.count state.overscan
  { count := state.count, viewportExtent, scrollOffset, estimatedSize
    overscan := state.overscan, gap, scrollMargin
    totalSize :=
      if state.count = 0 then 0
      else (measurements.getLast?.map fun item => item.stop + scrollMargin).getD 0
    visibleRange := visible
    overscanRange := overscan
    geometry := .fromMeasurements measurements gap scrollMargin
    measurements
    visibleItems := visible.slice measurements
    items := overscan.slice measurements
    snapshot := state.snapshotForCurrentKeys address scrollOffset state.keyForIndex }

variable (keyForIndex : Nat → VirtualizerItemKey)

/-- With measurements present this is the full resolver over the given keys. -/
def resolveFixedWindow : VirtualizerResolvedState :=
  if !state.measurementsByKey.isEmpty then
    { state with itemKeys := (List.range state.count).map keyForIndex }.resolve address
  else
    let viewportExtent := nonnegativePx state.viewportExtent
    let scrollOffset := nonnegativePx state.scrollOffset
    let estimatedSize := nonnegativePx state.estimatedSize
    let gap := nonnegativePx state.gap
    let scrollMargin := nonnegativePx state.scrollMargin
    let visible := fixedVisibleRange state.count scrollOffset viewportExtent estimatedSize
      gap scrollMargin
    let overscan := overscanRange visible state.count state.overscan
    let items := fixedItems overscan estimatedSize gap scrollMargin keyForIndex
    { count := state.count, viewportExtent, scrollOffset, estimatedSize
      overscan := state.overscan, gap, scrollMargin
      totalSize := fixedTotalSize state.count estimatedSize gap scrollMargin
      visibleRange := visible
      overscanRange := overscan
      geometry := .fixed state.count estimatedSize gap scrollMargin
      measurements := items
      visibleItems := fixedItems visible estimatedSize gap scrollMargin keyForIndex
      items
      snapshot := .new address scrollOffset [] }

/-- The window of a geometry: only the items in the overscan range are materialized. -/
def resolveWindowFromGeometry (geometry : VirtualizerGeometryIndex)
    (metadataForIndex : Nat → VirtualizerItemKey × Bool)
    (measurements : SharedMeasurements) : VirtualizerResolvedState :=
  let viewportExtent := nonnegativePx state.viewportExtent
  let scrollOffset := nonnegativePx state.scrollOffset
  let visible := geometry.visibleRange scrollOffset viewportExtent
  let overscan := overscanRange visible state.count state.overscan
  let items := windowMeasurements overscan geometry metadataForIndex
  { count := state.count, viewportExtent, scrollOffset
    estimatedSize := nonnegativePx state.estimatedSize
    overscan := state.overscan
    gap := nonnegativePx state.gap
    scrollMargin := nonnegativePx state.scrollMargin
    totalSize := geometry.totalSize
    visibleRange := visible
    overscanRange := overscan
    geometry
    measurements := items
    visibleItems :=
      if visible.isEmpty then [] else items.filter fun item => visible.contains item.index
    items
    snapshot := .fromSharedMeasurements scrollOffset measurements }

def resolveKnownSizeWindowFromGeometry
    (geometry : VirtualizerGeometryIndex) (keyForIndex : Nat → VirtualizerItemKey) :
    VirtualizerResolvedState :=
  state.resolveWindowFromGeometry geometry (fun index => (keyForIndex index, false)) ⟨address, []⟩

def resolveKnownSizeWindowBy (sizeForIndex : Nat → UiPx) (keyForIndex : Nat → VirtualizerItemKey) :
    VirtualizerResolvedState :=
  let geometry := sizeDrivenGeometry state.count (nonnegativePx state.gap)
    (nonnegativePx state.scrollMargin) sizeForIndex
  state.resolveKnownSizeWindowFromGeometry address geometry keyForIndex

def resolveKnownSizeWindow
    (itemForIndex : Nat → VirtualizerItemKey × UiPx) : VirtualizerResolvedState :=
  state.resolveKnownSizeWindowBy address (fun index => (itemForIndex index).2)
    fun index => (itemForIndex index).1

def resolveMeasuredWindowFromGeometry
    (measured : VirtualizerMeasuredGeometry) : VirtualizerResolvedState :=
  state.resolveWindowFromGeometry measured.geometry
    (fun index => match measured.itemMetadata[index]? with
      | some metadata => (metadata.key, metadata.measured)
      -- the source indexes, and panics here
      | none => ("", false))
    measured.snapshotMeasurements

/-- The method of the source that passes the state's own parameters on. -/
def measuredGeometry (itemForIndex : Nat → VirtualizerItemKey × Option UiPx) :
    VirtualizerMeasuredGeometry :=
  buildMeasuredGeometry address state.count (nonnegativePx state.estimatedSize)
    (nonnegativePx state.gap) (nonnegativePx state.scrollMargin)
    state.measurementAuthority itemForIndex

def resolveMeasuredWindow : VirtualizerResolvedState :=
  state.resolveMeasuredWindowFromGeometry <| state.measuredGeometry address fun index =>
    let key := keyForIndex index
    (key, state.measuredSize key)

end VirtualizerState

end OpenGpui.UiCore
