/-
The resolvers against the layout they are to report.  They agree on every layout
but those whose items all have size zero: a geometry of one size answers with
`fixedVisibleRange`, which shows no item of size zero, while the scan over
measurements shows those inside the viewport.
-/
import OpenGpui.UiCore.VirtualizerGeometry

namespace OpenGpui.UiCore

open Option VirtualizerRange VirtualizerState VirtualizerGeometryIndex ItemStack

universe u

namespace VirtualizerRange

theorem mem_slice {α : Type u} {range : VirtualizerRange} {entries : List α} {entry : α} :
    entry ∈ range.slice entries ↔ ∃ index ∈ range, entries[index]? = some entry := by
  rw [slice, List.mem_iff_getElem?]
  constructor
  · rintro ⟨offset, hget⟩
    rw [List.getElem?_drop, List.getElem?_take] at hget
    by_cases hstop : range.start + offset < range.stop
    · rw [if_pos hstop] at hget
      exact ⟨range.start + offset, ⟨Nat.le_add_right _ _, hstop⟩, hget⟩
    · rw [if_neg hstop] at hget
      cases hget
  · rintro ⟨index, ⟨hstart, hstop⟩, hget⟩
    have hsum : range.start + (index - range.start) = index := Nat.add_sub_cancel' hstart
    refine ⟨index - range.start, ?_⟩
    rw [List.getElem?_drop, List.getElem?_take, hsum, if_pos hstop]
    exact hget

end VirtualizerRange

/-- Overscan adds indices; it takes none from the visible range. -/
theorem mem_overscanRange {visible : VirtualizerRange} {count index : Nat}
    (hmem : index ∈ visible) (hindex : index < count) (overscanBudget : Nat) :
    index ∈ overscanRange visible count overscanBudget := by
  obtain ⟨hstart, hstop⟩ := hmem
  have hne : ¬ visible.isEmpty = true := fun hempty =>
    not_mem_of_isEmpty hempty index ⟨hstart, hstop⟩
  rw [overscanRange, if_neg hne]
  simp only [mem_iff, VirtualizerRange.new]
  split <;> omega

/-- `overscan_range` over words up to `usizeMax`.  Of its sums only the one of the end can
pass that bound: it wraps around, or panics where sums are checked. -/
def overscanRangeIn (usizeMax : Nat) (checked : Bool) (visible : VirtualizerRange)
    (count overscanBudget : Nat) : Option VirtualizerRange :=
  if visible.isEmpty then some visible
  else
    let beforeBudget := overscanBudget / 2
    let afterBudget := overscanBudget - beforeBudget
    let before := min beforeBudget visible.start
    let after := min afterBudget (count - visible.stop)
    let unusedBefore := beforeBudget - before
    let unusedAfter := afterBudget - after
    let start := visible.start - (before + min unusedAfter (visible.start - before))
    let stop := visible.stop + after + unusedBefore
    if checked = true ∧ usizeMax < stop then none
    else some (.new start (min (stop % (usizeMax + 1)) count))

/-- The visible range with `budget` more items around it, or all items where there are fewer. -/
structure OverscanExact (visible : VirtualizerRange) (count budget : Nat)
    (range : VirtualizerRange) : Prop where
  start_le : range.start ≤ visible.start
  le_stop : visible.stop ≤ range.stop
  stop_le : range.stop ≤ count
  length : range.stop - range.start = min count (visible.stop - visible.start + budget)

theorem overscanRange_exact {visible : VirtualizerRange} {count : Nat}
    (hvisible : visible.start < visible.stop) (hcount : visible.stop ≤ count) (budget : Nat) :
    OverscanExact visible count budget (overscanRange visible count budget) := by
  have hne : ¬ visible.isEmpty = true := by
    rw [isEmpty, beq_iff_eq]
    omega
  rw [overscanRange, if_neg hne]
  constructor <;> simp only [VirtualizerRange.new]
  case start_le => omega
  all_goals split <;> omega

variable {usizeMax : Nat} {visible : VirtualizerRange} {count budget : Nat}

/-- The end is summed before it is capped at the count, so what must fit is the sum. -/
theorem overscanRangeIn_exact_iff (hvisible : visible.start < visible.stop)
    (hcount : visible.stop ≤ count) (hfits : count ≤ usizeMax) (hbudget : budget ≤ usizeMax)
    (checked : Bool) :
    (∃ range, overscanRangeIn usizeMax checked visible count budget = some range ∧
      OverscanExact visible count budget range) ↔
      visible.stop - visible.start + budget ≤ usizeMax ∨
        count + budget / 2 ≤ usizeMax + visible.start := by
  have hne : ¬ visible.isEmpty = true := by
    rw [isEmpty, beq_iff_eq]
    omega
  have hexact := overscanRange_exact hvisible hcount budget
  rw [overscanRange, if_neg hne] at hexact
  rw [overscanRangeIn, if_neg hne]
  dsimp only at hexact ⊢
  generalize hend : visible.stop + min (budget - budget / 2) (count - visible.stop) +
    (budget / 2 - min (budget / 2) visible.start) = stop at hexact ⊢
  constructor
  · rintro ⟨range, hrange, hlike⟩
    by_contra hover
    have hwrap : stop % (usizeMax + 1) = stop - (usizeMax + 1) := by
      rw [Nat.mod_eq_sub_mod (by omega), Nat.mod_eq_of_lt (by omega)]
    split at hrange
    · cases hrange
    · cases hrange
      -- the wrapped end is short of the count, which the items asked for reach
      have hle := hlike.le_stop
      have hlength := hlike.length
      rw [hwrap] at hle hlength
      simp only [VirtualizerRange.new] at hle hlength
      split at hle <;> omega
  · intro hbound
    have hsum : stop ≤ usizeMax := by omega
    rw [if_neg (fun hover => absurd hsum (Nat.not_le.mpr hover.2)),
      Nat.mod_eq_of_lt (Nat.lt_succ_of_le hsum)]
    exact ⟨_, rfl, hexact⟩

theorem overscanRangeIn_exact_last_item :
    (∃ range, overscanRangeIn (2 ^ 64 - 1) false (.new 5 6) 6 3 = some range ∧
      OverscanExact (.new 5 6) 6 3 range) ↔
      1 + 3 ≤ 2 ^ 64 - 1 ∨ 6 + 3 / 2 ≤ 2 ^ 64 - 1 + 5 :=
  overscanRangeIn_exact_iff (by decide) (by decide) (by decide) (by decide) false

/-- More than half as many items as there are words, all of them to be rendered. -/
theorem overscanRangeIn_loses_items :
    (¬∃ range, overscanRangeIn (2 ^ 64 - 1) false (.new 0 1) (2 ^ 63 + 1) (2 ^ 64 - 1) =
      some range ∧ OverscanExact (.new 0 1) (2 ^ 63 + 1) (2 ^ 64 - 1) range) ∧
    overscanRangeIn (2 ^ 64 - 1) true (.new 0 1) (2 ^ 63 + 1) (2 ^ 64 - 1) = none := by
  refine ⟨?_, by decide⟩
  rintro ⟨range, hrange, hexact⟩
  obtain rfl : VirtualizerRange.new 0 0 = range := Option.some.inj (by rw [← hrange]; decide)
  exact absurd hexact.le_stop (by decide)

theorem mem_windowMeasurements {range : VirtualizerRange} {geometry : VirtualizerGeometryIndex}
    {metadataForIndex : Nat → VirtualizerItemKey × Bool} {item : VirtualizerItemMeasurement} :
    item ∈ windowMeasurements range geometry metadataForIndex ↔ item.index ∈ range ∧
        geometry.item item.index = some { start := item.start, size := item.size } ∧
        item.key = (metadataForIndex item.index).1 ∧
        item.measured = (metadataForIndex item.index).2 := by
  rw [windowMeasurements, List.mem_filterMap]
  constructor
  · rintro ⟨index, hmem, hitem⟩
    obtain ⟨itemGeometry, hgeometry, rfl⟩ := map_eq_some_iff.mp hitem
    exact ⟨mem_indices.mp hmem, hgeometry, rfl, rfl⟩
  · rintro ⟨hmem, hgeometry, hkey, hmeasured⟩
    refine ⟨item.index, mem_indices.mpr hmem, ?_⟩
    rw [hgeometry, map_some, ← hkey, ← hmeasured]

namespace ViewportLayout

variable {layout : ViewportLayout} {state : VirtualizerState}

/-- The geometry index answers as the layout does. -/
structure Tells (layout : ViewportLayout) (geometry : VirtualizerGeometryIndex) : Prop where
  totalSize : geometry.totalSize = layout.totalSize
  item : ∀ index, geometry.item index = layout.item index
  visibleRange : ∀ index, index ∈ geometry.visibleRange layout.scrollOffset layout.viewportExtent ↔
      layout.Visible index

/-- Every item has size zero, and some of them lie inside the viewport. -/
def OnlyEmptyItemsInView (layout : ViewportLayout) : Prop :=
  (∀ index < layout.count, layout.size index = 0) ∧
    ∃ index < layout.count, layout.scrollOffset < layout.origin + index * layout.gap ∧
      layout.origin + index * layout.gap < layout.scrollOffset + layout.viewportExtent

theorem visible_of_empty_items (hzero : ∀ index < layout.count, layout.size index = 0)
    {index : Nat} (hindex : index < layout.count) :
    layout.Visible index ↔ layout.scrollOffset < layout.origin + index * layout.gap ∧
      layout.origin + index * layout.gap < layout.scrollOffset + layout.viewportExtent := by
  rw [Visible, ItemStack.Meets, ItemStack.stop, layout.start_of_uniform_size hzero hindex,
    hzero index hindex, zero_add, add_zero]
  tauto

/-- Items of one size are found by floors and ceilings, unless their size is zero. -/
theorem mem_fixedVisibleRange_of_view (hview : ¬ layout.OnlyEmptyItemsInView) {size : UiPx}
    (hsize : 0 ≤ size) (huniform : ∀ index < layout.count, layout.size index = size) (index : Nat) :
    index ∈ fixedVisibleRange layout.count layout.scrollOffset layout.viewportExtent size
      layout.gap layout.origin ↔ layout.Visible index := by
  rcases hsize.eq_or_lt with rfl | hpos
  · rw [fixedVisibleRange_of_zero]
    simp only [not_mem_empty, false_iff]
    intro hvisible
    exact hview ⟨huniform, index, hvisible.1,
      (visible_of_empty_items huniform hvisible.1).mp hvisible⟩
  · exact mem_fixedVisibleRange hpos huniform index

theorem tells_fromEnds (hview : ¬ layout.OnlyEmptyItemsInView) :
    layout.Tells (.fromEnds layout.ends layout.gap layout.origin) where
  totalSize := totalSize_fromEnds
  item := item_fromEnds
  visibleRange index := by
    have hextent : ¬ layout.viewportExtent ≤ 0 := not_le.mpr layout.viewportExtent_pos
    by_cases huniform : ∀ index < layout.count, layout.size index = layout.firstSize
    · rw [fromEnds_of_uniform huniform, VirtualizerGeometryIndex.visibleRange, if_neg hextent]
      exact mem_fixedVisibleRange_of_view hview firstSize_nonneg huniform index
    · rw [fromEnds_of_not_uniform huniform]
      exact mem_visibleRange_variableIndex index

/-- Items of size zero never show in a geometry of one size. -/
theorem not_mem_visibleRange_of_empty_items
    (hzero : ∀ index < layout.count, layout.size index = 0) (index : Nat) :
    index ∉ (fromEnds layout.ends layout.gap
      layout.origin).visibleRange layout.scrollOffset layout.viewportExtent := by
  have hextent : ¬ layout.viewportExtent ≤ 0 := not_le.mpr layout.viewportExtent_pos
  have hfirst : layout.firstSize = 0 := by
    unfold firstSize
    split
    next => rfl
    next hcount => exact hzero 0 (Nat.pos_of_ne_zero hcount)
  have huniform : ∀ index < layout.count, layout.size index = layout.firstSize := by
    intro index hindex
    rw [hzero index hindex, hfirst]
  rw [fromEnds_of_uniform huniform, VirtualizerGeometryIndex.visibleRange, if_neg hextent, hfirst]
  simp only [fixedVisibleRange_of_zero]
  exact not_mem_empty index

namespace Shown

variable (h : layout.Shown state)
include h

theorem nonnegativePx_gap : nonnegativePx state.gap = layout.gap := by
  rw [h.gap, nonnegativePx_of_nonneg layout.gap_nonneg]

theorem nonnegativePx_scrollMargin : nonnegativePx state.scrollMargin = layout.origin := by
  rw [h.scrollMargin, nonnegativePx_of_nonneg layout.origin_nonneg]

theorem nonnegativePx_scrollOffset : nonnegativePx state.scrollOffset = layout.scrollOffset := by
  rw [h.scrollOffset, nonnegativePx_of_nonneg layout.scrollOffset_nonneg]

theorem nonnegativePx_viewportExtent :
    nonnegativePx state.viewportExtent = layout.viewportExtent := by
  rw [h.viewportExtent, nonnegativePx_of_nonneg layout.viewportExtent_pos.le]

end Shown

theorem reports_windowFromGeometry (hshown : layout.Shown state)
    {geometry : VirtualizerGeometryIndex} (htells : layout.Tells geometry)
    (metadataForIndex : Nat → VirtualizerItemKey × Bool) (measurements : SharedMeasurements) :
    layout.Reports (state.resolveWindowFromGeometry geometry metadataForIndex measurements) := by
  have hrange : ∀ index, index ∈ geometry.visibleRange (nonnegativePx state.scrollOffset)
      (nonnegativePx state.viewportExtent) ↔ layout.Visible index := by
    rw [hshown.nonnegativePx_scrollOffset, hshown.nonnegativePx_viewportExtent]
    exact htells.visibleRange
  have hitems : ∀ item, item ∈ (state.resolveWindowFromGeometry geometry metadataForIndex
      measurements).visibleItems ↔ layout.Visible item.index ∧
        layout.item item.index = some { start := item.start, size := item.size } ∧
        item.key = (metadataForIndex item.index).1 ∧
        item.measured = (metadataForIndex item.index).2 := by
    intro item
    simp only [resolveWindowFromGeometry]
    by_cases hempty : (geometry.visibleRange (nonnegativePx state.scrollOffset)
        (nonnegativePx state.viewportExtent)).isEmpty = true
    · have hnone : ¬ layout.Visible item.index := by
        rw [← hrange]
        exact not_mem_of_isEmpty hempty item.index
      simp [hempty, hnone]
    · rw [if_neg hempty, List.mem_filter, contains_iff, hrange, mem_windowMeasurements, htells.item]
      constructor
      · rintro ⟨⟨_, hrest⟩, hvisible⟩
        exact ⟨hvisible, hrest⟩
      · rintro ⟨hvisible, hrest⟩
        have hcount : item.index < state.count := hshown.count ▸ hvisible.1
        exact ⟨⟨mem_overscanRange ((hrange _).mpr hvisible) hcount _, hrest⟩, hvisible⟩
  refine ⟨htells.totalSize, htells.item, hrange, ?_, ?_⟩
  · intro index
    constructor
    · rintro ⟨item, hmem, rfl⟩
      exact ((hitems item).mp hmem).1
    · intro hvisible
      let item : VirtualizerItemMeasurement :=
        { index, key := (metadataForIndex index).1, start := layout.start index,
          size := layout.size index, measured := (metadataForIndex index).2 }
      have hitem : layout.item index = some { start := item.start, size := item.size } :=
        if_pos hvisible.1
      exact ⟨item, (hitems item).mpr ⟨hvisible, hitem, rfl, rfl⟩, rfl⟩
  · intro item hmem
    exact ((hitems item).mp hmem).2.1

section Full

/-- The size a state gives to the item of a key. -/
def sizeForKey (state : VirtualizerState) (key : VirtualizerItemKey) : UiPx :=
  (state.measuredSize key).getD (nonnegativePx state.estimatedSize)

theorem measures_resolveMeasurements (hcount : state.count = layout.count)
    (hsizes : ∀ index < layout.count,
      sizeForKey state (state.keyForIndex index) = layout.size index) :
    layout.Measures (state.resolveMeasurements (nonnegativePx state.estimatedSize)
      layout.gap layout.origin) := by
  let emit : Nat → UiPx → VirtualizerItemMeasurement := fun index cursor =>
    { index, key := state.keyForIndex index, start := cursor, size := layout.size index
      measured := (state.measuredSize (state.keyForIndex index)).isSome }
  have hsame : state.resolveMeasurements (nonnegativePx state.estimatedSize) layout.gap
      layout.origin = place layout.gap layout.size emit layout.count layout.origin := by
    rw [resolveMeasurements, hcount]
    apply place_congr layout.origin hsizes
    intro index hindex cursor
    have hsize := hsizes index hindex
    unfold sizeForKey at hsize
    simp only [hsize, emit]
  rw [hsame, layout.place_eq]
  constructor
  · simp
  · simp [emit]
  · simp [emit]
  · simp [emit]

variable {measurements : List VirtualizerItemMeasurement}

theorem Measures.getElem?_eq_some
    (h : layout.Measures measurements) {index : Nat} {item : VirtualizerItemMeasurement}
    (hget : measurements[index]? = some item) :
    item.index = index ∧ layout.item index = some { start := item.start, size := item.size } := by
  obtain ⟨hlength, rfl⟩ := List.getElem?_eq_some_iff.mp hget
  refine ⟨h.index index hlength, ?_⟩
  rw [ViewportLayout.item, if_pos (h.length ▸ hlength), h.start index hlength, h.size index hlength]

theorem Measures.getLast?_stop (h : layout.Measures measurements) :
    (measurements.getLast?.map fun item => item.stop + layout.origin).getD 0 =
      layout.totalSize := by
  rw [← getLast?_ends, ← h.map_stop, List.getLast?_map, map_map]
  rfl

theorem reports_resolve (hshown : layout.Shown state) (hsizes : ∀ index < layout.count,
      sizeForKey state (state.keyForIndex index) = layout.size index) (address : Nat) :
    layout.Reports (state.resolve address) := by
  have hmeasures := measures_resolveMeasurements hshown.count hsizes
  have hvisible := mem_visibleRange hmeasures
  have hslice : ∀ item, item ∈ (state.resolve address).visibleItems ↔
      ∃ index, layout.Visible index ∧ (state.resolveMeasurements
        (nonnegativePx state.estimatedSize) layout.gap layout.origin)[index]? = some item := by
    intro item
    simp only [resolve, hshown.nonnegativePx_gap,
      hshown.nonnegativePx_scrollMargin, hshown.nonnegativePx_scrollOffset,
      hshown.nonnegativePx_viewportExtent, mem_slice, hvisible]
  constructor
  · simp only [resolve, hshown.nonnegativePx_gap,
      hshown.nonnegativePx_scrollMargin, hmeasures.getLast?_stop]
    by_cases hcount : layout.count = 0
    · rw [if_pos (hshown.count.trans hcount), totalSize, if_pos hcount]
    · rw [if_neg fun hzero => hcount (hshown.count.symm.trans hzero)]
  · intro index
    simp only [resolve, hshown.nonnegativePx_gap,
      hshown.nonnegativePx_scrollMargin, VirtualizerResolvedState.itemGeometry,
      fromMeasurements, hmeasures.map_stop]
    exact item_fromEnds index
  · intro index
    simp only [resolve, hshown.nonnegativePx_gap,
      hshown.nonnegativePx_scrollMargin, hshown.nonnegativePx_scrollOffset,
      hshown.nonnegativePx_viewportExtent]
    exact hvisible index
  · intro index
    constructor
    · rintro ⟨item, hmem, rfl⟩
      obtain ⟨position, hposition, hget⟩ := (hslice item).mp hmem
      rw [(hmeasures.getElem?_eq_some hget).1]
      exact hposition
    · intro hindex
      have hlength := hmeasures.length.symm ▸ hindex.1
      have hget := List.getElem?_eq_getElem hlength
      exact ⟨_, (hslice _).mpr ⟨index, hindex, hget⟩, hmeasures.index index hlength⟩
  · intro item hmem
    obtain ⟨position, _, hget⟩ := (hslice item).mp hmem
    obtain ⟨hindex, hitem⟩ := hmeasures.getElem?_eq_some hget
    rw [hindex, hitem]

end Full

variable {keyForIndex : Nat → VirtualizerItemKey}

theorem mem_fixedItems {range : VirtualizerRange} {size gap scrollMargin : UiPx} {item :
    VirtualizerItemMeasurement} :
    item ∈ fixedItems range size gap scrollMargin keyForIndex ↔ item.index ∈ range ∧ item =
        { index := item.index, key := keyForIndex item.index
          start := scrollMargin + item.index * (size + gap), size, measured := false } := by
  rw [fixedItems, List.mem_map]
  constructor
  · rintro ⟨index, hmem, rfl⟩
    exact ⟨mem_indices.mp hmem, rfl⟩
  · rintro ⟨hmem, hitem⟩
    exact ⟨item.index, mem_indices.mpr hmem, hitem.symm⟩

/-- The sizes of the layout are those of the state under the given keys. -/
def SizedByKeys (layout : ViewportLayout) (state : VirtualizerState)
    (keyForIndex : Nat → VirtualizerItemKey) : Prop :=
  ∀ index < layout.count, sizeForKey state (keyForIndex index) = layout.size index

theorem reports_fixedWindow (hview : ¬ layout.OnlyEmptyItemsInView) (hshown : layout.Shown state)
    (hsizes : layout.SizedByKeys state keyForIndex) (address : Nat) :
    layout.Reports (state.resolveFixedWindow address keyForIndex) := by
  by_cases hmeasured : state.measurementsByKey.isEmpty = true
  · have huniform : ∀ index < layout.count,
        layout.size index = nonnegativePx state.estimatedSize := by
      intro index hindex
      rw [← hsizes index hindex, sizeForKey, measuredSize, Std.ExtTreeMap.isEmpty_iff.mp hmeasured]
      rfl
    have hrange := mem_fixedVisibleRange_of_view hview
      (nonnegativePx_nonneg state.estimatedSize) huniform
    rw [resolveFixedWindow, if_neg (by simp [hmeasured])]
    simp only [hshown.nonnegativePx_gap, hshown.nonnegativePx_scrollMargin,
      hshown.nonnegativePx_scrollOffset, hshown.nonnegativePx_viewportExtent, hshown.count]
    refine ⟨fixedTotalSize_eq huniform, ?_, hrange, ?_, ?_⟩
    · intro index
      rw [fixed, nonnegativePx_of_nonneg (nonnegativePx_nonneg _),
        nonnegativePx_of_nonneg layout.gap_nonneg, nonnegativePx_of_nonneg layout.origin_nonneg]
      exact item_fixedIndex huniform index
    · intro index
      rw [← hrange index]
      constructor
      · rintro ⟨item, hmem, rfl⟩
        exact (mem_fixedItems.mp hmem).1
      · intro hindex
        let item : VirtualizerItemMeasurement :=
          { index, key := keyForIndex index, size := nonnegativePx state.estimatedSize
            start := layout.origin + index * (nonnegativePx state.estimatedSize + layout.gap)
            measured := false }
        exact ⟨item, mem_fixedItems.mpr ⟨hindex, rfl⟩, rfl⟩
    · intro item hmem
      obtain ⟨hindex, hitem⟩ := mem_fixedItems.mp hmem
      have hcount := ((hrange item.index).mp hindex).1
      rw [ViewportLayout.item, if_pos hcount, huniform _ hcount,
        layout.start_of_uniform_size huniform hcount, hitem]
  · rw [resolveFixedWindow, if_pos (by simpa using hmeasured)]
    apply reports_resolve
    · exact ⟨hshown.count, hshown.gap, hshown.scrollMargin, hshown.scrollOffset,
        hshown.viewportExtent⟩
    · intro index hindex
      have hkey : ({ state with itemKeys := (List.range state.count).map keyForIndex }
          : VirtualizerState).keyForIndex index = keyForIndex index := by
        rw [← hshown.count] at hindex
        simp [VirtualizerState.keyForIndex, hindex]
      rw [hkey]
      exact hsizes index hindex

variable {size : Nat → UiPx}

/-- The ends that a window resolver computes, and its geometry. -/
theorem place_ends (hsizes : ∀ index < layout.count, size index = layout.size index) :
    place layout.gap size (fun index start => start + size index) layout.count
      layout.origin = layout.ends := by
  have hsame : place layout.gap size (fun index start => start + size index)
      layout.count layout.origin = place layout.gap layout.size
        (fun index start => start + layout.size index) layout.count layout.origin := by
    apply place_congr layout.origin hsizes
    intro index hindex start
    rw [hsizes index hindex]
  rw [hsame, layout.place_eq]
  rfl

theorem fixed_zero_eq_fromEnds (hcount : layout.count = 0) :
    fixed 0 0 layout.gap layout.origin = .fromEnds layout.ends layout.gap layout.origin := by
  have hends : layout.ends = [] := by
    simp [ends, hcount]
  rw [hends]
  simp [fromEnds, fixed, layout.gap_nonneg, layout.origin_nonneg]

theorem sizeDrivenGeometry_eq (hsizes : ∀ index < layout.count, size index = layout.size index) :
    sizeDrivenGeometry layout.count layout.gap layout.origin size =
      .fromEnds layout.ends layout.gap layout.origin := by
  have hclamped : ∀ index < layout.count, nonnegativePx (size index) = layout.size index := by
    intro index hindex
    rw [hsizes index hindex, nonnegativePx_of_nonneg (layout.size_nonneg index)]
  rw [sizeDrivenGeometry]
  by_cases hcount : layout.count = 0
  · rw [if_pos hcount, fixed_zero_eq_fromEnds hcount]
  · rw [if_neg hcount]
    simp only [place_ends hclamped]

theorem measuredGeometry_eq {estimatedSize : UiPx} {address : Nat}
    {preferredSnapshotAuthority : Option SharedMeasurements}
    {itemForIndex : Nat → VirtualizerItemKey × Option UiPx} (hsizes : ∀ index < layout.count,
      ((itemForIndex index).2.map nonnegativePx).getD estimatedSize = layout.size index) :
    (buildMeasuredGeometry address layout.count estimatedSize layout.gap layout.origin
      preferredSnapshotAuthority itemForIndex).geometry =
        .fromEnds layout.ends layout.gap layout.origin := by
  simp only [buildMeasuredGeometry]
  by_cases hcount : layout.count = 0
  · rw [if_pos hcount, fixed_zero_eq_fromEnds hcount]
  · rw [if_neg hcount, place_ends hsizes]

theorem reports_knownSizeWindow (hview : ¬ layout.OnlyEmptyItemsInView)
    (hshown : layout.Shown state) {sizeForIndex : Nat → UiPx}
    (hsizes : ∀ index < layout.count, sizeForIndex index = layout.size index)
    (address : Nat) (keyForIndex : Nat → VirtualizerItemKey) :
    layout.Reports (state.resolveKnownSizeWindowBy address sizeForIndex keyForIndex) := by
  rw [resolveKnownSizeWindowBy, hshown.count, hshown.nonnegativePx_gap,
    hshown.nonnegativePx_scrollMargin, sizeDrivenGeometry_eq hsizes]
  exact reports_windowFromGeometry hshown (tells_fromEnds hview) _ _

theorem nonnegativePx_measuredSize (key : VirtualizerItemKey) :
    (state.measuredSize key).map nonnegativePx = state.measuredSize key := by
  rw [measuredSize, map_map]
  congr 1
  funext size
  exact nonnegativePx_of_nonneg size.property

theorem reports_measuredWindow (hview : ¬ layout.OnlyEmptyItemsInView) (hshown : layout.Shown state)
    (hsizes : layout.SizedByKeys state keyForIndex) (address : Nat) :
    layout.Reports (state.resolveMeasuredWindow address keyForIndex) := by
  have hmeasured : ∀ index < layout.count, ((state.measuredSize (keyForIndex index)).map
      nonnegativePx).getD (nonnegativePx state.estimatedSize) = layout.size index := by
    intro index hindex
    rw [nonnegativePx_measuredSize]
    exact hsizes index hindex
  have hgeometry : (state.measuredGeometry address fun index =>
      (keyForIndex index, state.measuredSize (keyForIndex index))).geometry =
        .fromEnds layout.ends layout.gap layout.origin := by
    rw [measuredGeometry, hshown.count, hshown.nonnegativePx_gap, hshown.nonnegativePx_scrollMargin]
    exact measuredGeometry_eq hmeasured
  rw [resolveMeasuredWindow, resolveMeasuredWindowFromGeometry, hgeometry]
  exact reports_windowFromGeometry hshown (tells_fromEnds hview) _ _

/-- Every resolver, given the sizes of the layout, reports the layout. -/
structure ResolversAgree (layout : ViewportLayout) : Prop where
  full : ∀ state address, layout.Shown state →
    layout.SizedByKeys state state.keyForIndex → layout.Reports (state.resolve address)
  fixedSize : ∀ state address keyForIndex, layout.Shown state →
    layout.SizedByKeys state keyForIndex →
      layout.Reports (state.resolveFixedWindow address keyForIndex)
  knownSize : ∀ state address sizeForIndex keyForIndex, layout.Shown state →
    (∀ index < layout.count, sizeForIndex index = layout.size index) →
      layout.Reports (state.resolveKnownSizeWindowBy address sizeForIndex keyForIndex)
  measured : ∀ state address keyForIndex, layout.Shown state →
    layout.SizedByKeys state keyForIndex →
      layout.Reports (state.resolveMeasuredWindow address keyForIndex)

theorem not_knownSize_of_onlyEmptyItemsInView (hempty : layout.OnlyEmptyItemsInView) :
    ¬ layout.Reports (layout.state.resolveKnownSizeWindowBy 0 layout.size toString) := by
  obtain ⟨hzero, index, hindex, hinside⟩ := hempty
  intro hreports
  have hshown := layout.shown_state
  have hvisible := (visible_of_empty_items hzero hindex).mpr hinside
  have hmem := (hreports.visibleRange index).mpr hvisible
  rw [resolveKnownSizeWindowBy, hshown.count, hshown.nonnegativePx_gap,
    hshown.nonnegativePx_scrollMargin, sizeDrivenGeometry_eq fun _ _ => rfl,
    resolveKnownSizeWindowFromGeometry,
    resolveWindowFromGeometry] at hmem
  simp only [hshown.nonnegativePx_scrollOffset, hshown.nonnegativePx_viewportExtent] at hmem
  exact not_mem_visibleRange_of_empty_items hzero index hmem

theorem resolvers_agree_iff (layout : ViewportLayout) :
    layout.ResolversAgree ↔ ¬ layout.OnlyEmptyItemsInView := by
  constructor
  · intro hagree hempty
    exact not_knownSize_of_onlyEmptyItemsInView hempty
      (hagree.knownSize layout.state 0 layout.size toString layout.shown_state fun _ _ => rfl)
  · intro hview
    constructor
    · intro state address hshown hsizes
      exact reports_resolve hshown hsizes address
    · intro state address keyForIndex hshown hsizes
      exact reports_fixedWindow hview hshown hsizes address
    · intro state address sizeForIndex keyForIndex hshown hsizes
      exact reports_knownSizeWindow hview hshown hsizes address keyForIndex
    · intro state address keyForIndex hshown hsizes
      exact reports_measuredWindow hview hshown hsizes address

/-- One item of size zero, ten pixels into a viewport of a hundred. -/
def emptyItem : ViewportLayout where
  origin := 10
  gap := 0
  size _ := 0
  gap_nonneg := le_refl 0
  size_nonneg _ := le_refl 0
  count := 1
  scrollOffset := 0
  viewportExtent := 100
  origin_nonneg := by norm_num
  scrollOffset_nonneg := le_refl 0
  viewportExtent_pos := by norm_num

theorem emptyItem_resolvers_disagree : ¬ emptyItem.ResolversAgree := by
  intro hagree
  have hshown := emptyItem.shown_state
  have hsizes : emptyItem.SizedByKeys emptyItem.state emptyItem.state.keyForIndex := by
    unfold SizedByKeys
    decide
  have hfull := hagree.full emptyItem.state 0 hshown hsizes
  have hknown := hagree.knownSize emptyItem.state 0 emptyItem.size toString hshown fun _ _ => rfl
  have hsame := (hfull.visibleRange 0).trans (hknown.visibleRange 0).symm
  revert hsame
  decide +kernel

end ViewportLayout

end OpenGpui.UiCore
