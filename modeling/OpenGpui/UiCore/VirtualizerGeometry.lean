/-
What a virtualizer is to report: the items of a stack that an open viewport meets, the
geometry of every item, and the size of it all with a margin at both ends; and the three ways
a visible range is found: a scan over measurements, floors and ceilings over a stride, and
searches over ends.
-/
import OpenGpui.UiCore.Virtualizer

namespace OpenGpui.UiCore

open Nat VirtualizerGeometryIndex List VirtualizerRange

/-- Items along the scroll axis, seen through a viewport.  The origin of the stack is
the scroll margin. -/
structure ViewportLayout extends ItemStack UiPx where
  count : Nat
  scrollOffset : UiPx
  viewportExtent : UiPx
  origin_nonneg : 0 ≤ origin
  scrollOffset_nonneg : 0 ≤ scrollOffset
  viewportExtent_pos : 0 < viewportExtent

namespace VirtualizerRange

instance : Membership Nat VirtualizerRange where
  mem range index := range.start ≤ index ∧ index < range.stop

instance (range : VirtualizerRange) (index : Nat) : Decidable (index ∈ range) :=
  inferInstanceAs (Decidable (range.start ≤ index ∧ index < range.stop))

variable {range : VirtualizerRange} {index : Nat}

theorem mem_iff : index ∈ range ↔ range.start ≤ index ∧ index < range.stop := Iff.rfl

@[simp] theorem not_mem_empty (index : Nat) : index ∉ empty := fun h => not_lt_zero index h.2

theorem mem_new_max {start stop : Nat} :
    index ∈ new start (max stop start) ↔ start ≤ index ∧ index < stop := by
  simp only [mem_iff, new]
  split <;> omega

theorem mem_indices : index ∈ range.indices ↔ index ∈ range := by
  rw [indices, mem_range'_1, mem_iff]
  omega

theorem contains_iff : range.contains index = true ↔ index ∈ range := by
  simp [contains, mem_iff]

theorem not_mem_of_isEmpty (h : range.isEmpty = true) (index : Nat) : index ∉ range := by
  have heq : range.start = range.stop := by simpa [isEmpty] using h
  rw [mem_iff]
  omega

end VirtualizerRange

namespace ViewportLayout

variable (layout : ViewportLayout)

def Visible (index : Nat) : Prop :=
  index < layout.count ∧
    layout.Meets layout.scrollOffset (layout.scrollOffset + layout.viewportExtent) index

def totalSize : UiPx :=
  if layout.count = 0 then 0 else layout.stop (layout.count - 1) + layout.origin

def item (index : Nat) : Option VirtualizerItemGeometry :=
  if index < layout.count then
    some { start := layout.start index, size := layout.size index }
  else none

/-- The resolved state tells the geometry of the layout and exactly its visible items. -/
structure Reports (layout : ViewportLayout) (resolved : VirtualizerResolvedState) :
    Prop where
  totalSize : resolved.totalSize = layout.totalSize
  geometry : ∀ index, resolved.itemGeometry index = layout.item index
  visibleRange : ∀ index, index ∈ resolved.visibleRange ↔ layout.Visible index
  visibleItems : ∀ index,
    (∃ item ∈ resolved.visibleItems, item.index = index) ↔ layout.Visible index
  visibleGeometry : ∀ item ∈ resolved.visibleItems,
    layout.item item.index = some { start := item.start, size := item.size }

/-- The state has the item count, the spacing and the viewport of the layout. -/
structure Shown (layout : ViewportLayout) (state : VirtualizerState) : Prop where
  count : state.count = layout.count
  gap : state.gap = layout.gap
  scrollMargin : state.scrollMargin = layout.origin
  scrollOffset : state.scrollOffset = layout.scrollOffset
  viewportExtent : state.viewportExtent = layout.viewportExtent

/-- A state that shows the layout, its sizes left to a callback. -/
def state : VirtualizerState :=
  ((((VirtualizerState.new layout.count 0).withGap layout.gap).withScrollMargin
    layout.origin).withScrollOffset layout.scrollOffset).withViewportExtent
    layout.viewportExtent

theorem shown_state : layout.Shown layout.state := ⟨rfl, rfl, rfl, rfl, rfl⟩

def ends : List UiPx := (range layout.count).map layout.stop

@[simp] theorem length_ends : layout.ends.length = layout.count := by
  simp [ends]

variable {index : Nat}

theorem ends_getElem (h : index < layout.ends.length) : layout.ends[index] = layout.stop index := by
  simp [ends]

theorem ends_getElem? (h : index < layout.count) :
    layout.ends[index]? = some (layout.stop index) := by
  simp [ends, h]

theorem origin_le_start (index : Nat) : layout.origin ≤ layout.start index :=
  layout.start_mono (zero_le index)

theorem start_of_uniform_size {size : UiPx}
    (huniform : ∀ index < layout.count, layout.size index = size) (hindex : index < layout.count) :
    layout.start index = layout.origin + index * (size + layout.gap) := by
  have hbefore : ∀ earlier < index, layout.size earlier = size :=
    fun earlier hearlier => huniform earlier (hearlier.trans hindex)
  have hstart := layout.start_of_uniform hbefore
  rw [hstart, nsmul_eq_mul]

section Scan

variable {layout : ViewportLayout} {measurements : List VirtualizerItemMeasurement}

/-- The measurements are those of the items of the layout. -/
structure Measures (layout : ViewportLayout)
    (measurements : List VirtualizerItemMeasurement) : Prop where
  length : measurements.length = layout.count
  index : ∀ position (h : position < measurements.length), measurements[position].index = position
  start : ∀ position (h : position < measurements.length),
    measurements[position].start = layout.start position
  size : ∀ position (h : position < measurements.length),
    measurements[position].size = layout.size position

namespace Measures

variable (h : layout.Measures measurements)

include h

theorem stop (position : Nat) (hposition : position < measurements.length) :
    measurements[position].stop = layout.stop position := by
  rw [VirtualizerItemMeasurement.stop, h.start position hposition,
    h.size position hposition, ItemStack.stop]

theorem map_stop : measurements.map VirtualizerItemMeasurement.stop = layout.ends := by
  apply ext_getElem
  · simp [h.length]
  · intro position hleft hright
    rw [getElem_map, h.stop, layout.ends_getElem]

theorem findIdx_le_iff {index : Nat} (hindex : index < layout.count) (offset : UiPx) :
    (measurements.findIdx fun item => decide (offset < item.stop)) ≤ index ↔
      offset < layout.stop index := by
  have hup : measurements.Pairwise fun earlier later =>
      decide (offset < earlier.stop) = true → decide (offset < later.stop) = true := by
    rw [pairwise_iff_getElem]
    intro earlier later hearlier hlater hlt hstop
    rw [decide_eq_true_iff, h.stop] at hstop ⊢
    exact hstop.trans_le (layout.stop_mono hlt.le)
  have hlength : index < measurements.length := h.length ▸ hindex
  rw [OpenGpui.findIdx_le_iff hup hlength, decide_eq_true_iff, h.stop]

theorem lt_rposition_iff {index : Nat} (hindex : index < layout.count) (viewportEnd : UiPx) :
    index < ((rposition (fun item : VirtualizerItemMeasurement =>
      decide (item.start < viewportEnd)) measurements).map (· + 1)).getD 0 ↔
      layout.start index < viewportEnd := by
  have hdown : measurements.Pairwise fun earlier later =>
      decide (later.start < viewportEnd) = true → decide (earlier.start < viewportEnd) = true := by
    rw [pairwise_iff_getElem]
    intro earlier later hearlier hlater hlt hstart
    rw [decide_eq_true_iff, h.start] at hstart ⊢
    exact (layout.start_mono hlt.le).trans_lt hstart
  have hlength : index < measurements.length := h.length ▸ hindex
  rw [OpenGpui.lt_rposition_iff hdown hlength, decide_eq_true_iff, h.start]

end Measures

theorem mem_visibleRange (h : layout.Measures measurements) (index : Nat) :
    index ∈ visibleRange measurements layout.scrollOffset layout.viewportExtent ↔
      layout.Visible index := by
  have hextent : ¬ layout.viewportExtent ≤ 0 := not_le.mpr layout.viewportExtent_pos
  by_cases hempty : measurements.isEmpty = true
  · have hcount : layout.count = 0 := by
      rw [← h.length, length_eq_zero_iff]
      exact isEmpty_iff.mp hempty
    rw [visibleRange, if_pos (Or.inl hempty)]
    simp [Visible, hcount]
  · rw [visibleRange, if_neg (by tauto), mem_new_max]
    -- no item starts before the viewport ends: the range is empty, not `0..`
    cases hlast : rposition (fun item : VirtualizerItemMeasurement =>
        decide (item.start < layout.scrollOffset + layout.viewportExtent)) measurements with
    | none =>
      have hnone : ¬ layout.Visible index := by
        intro hvisible
        have hlt := (h.lt_rposition_iff hvisible.1 _).mpr hvisible.2.2
        rw [hlast] at hlt
        exact Nat.not_lt_zero index hlt
      simp only [hnone, iff_false, Option.map_none, Option.getD_none]
      omega
    | some last =>
      have hinside : index < last + 1 → index < layout.count := by
        have hlength := rposition_lt hlast
        rw [h.length] at hlength
        omega
      constructor
      · rintro ⟨hstart, hstop⟩
        have hcount := hinside hstop
        refine ⟨hcount, (h.findIdx_le_iff hcount _).mp hstart, ?_⟩
        apply (h.lt_rposition_iff hcount _).mp
        rw [hlast]
        exact hstop
      · intro hvisible
        refine ⟨(h.findIdx_le_iff hvisible.1 _).mpr hvisible.2.1, ?_⟩
        have hlt := (h.lt_rposition_iff hvisible.1 _).mpr hvisible.2.2
        rw [hlast] at hlt
        exact hlt

end Scan

section Uniform

variable {layout : ViewportLayout} {size : UiPx}

theorem floor_lt_iff_stop (hsize : 0 < size)
    (huniform : ∀ index < layout.count, layout.size index = size) {index : Nat}
    (hindex : index < layout.count) :
    (if layout.scrollOffset < layout.origin + size then 0
      else ⌊(layout.scrollOffset - (layout.origin + size)) / (size + layout.gap)⌋₊ + 1)
        ≤ index ↔ layout.scrollOffset < layout.stop index := by
  have hstride : 0 < size + layout.gap := add_pos_of_pos_of_nonneg hsize layout.gap_nonneg
  have hstop : layout.stop index = layout.origin + size + index * (size + layout.gap) := by
    rw [ItemStack.stop, layout.start_of_uniform_size huniform hindex, huniform index hindex]
    ring
  by_cases hfirst : layout.scrollOffset < layout.origin + size
  · have hmul : 0 ≤ (index : UiPx) * (size + layout.gap) :=
      mul_nonneg (Nat.cast_nonneg index) hstride.le
    rw [if_pos hfirst]
    constructor
    · intro _
      linarith
    · intro _
      exact Nat.zero_le index
  · have hquot : 0 ≤ (layout.scrollOffset - (layout.origin + size)) / (size + layout.gap) :=
      div_nonneg (by linarith) hstride.le
    rw [if_neg hfirst, Nat.succ_le_iff, Nat.floor_lt hquot, div_lt_iff₀ hstride]
    constructor <;> intro h <;> linarith

theorem lt_ceil_iff_start (hsize : 0 < size)
    (huniform : ∀ index < layout.count, layout.size index = size) {index : Nat}
    (hindex : index < layout.count) (viewportEnd : UiPx) :
    index < ⌈(viewportEnd - layout.origin) / (size + layout.gap)⌉₊ ↔
      layout.start index < viewportEnd := by
  have hstride : 0 < size + layout.gap := add_pos_of_pos_of_nonneg hsize layout.gap_nonneg
  rw [Nat.lt_ceil, lt_div_iff₀ hstride, layout.start_of_uniform_size huniform hindex]
  constructor <;> intro h <;> linarith

theorem mem_fixedVisibleRange (hsize : 0 < size)
    (huniform : ∀ index < layout.count, layout.size index = size) (index : Nat) :
    index ∈ fixedVisibleRange layout.count layout.scrollOffset layout.viewportExtent size
      layout.gap layout.origin ↔ layout.Visible index := by
  have hextent : ¬ layout.viewportExtent ≤ 0 := not_le.mpr layout.viewportExtent_pos
  have hstride : ¬ size + layout.gap ≤ 0 :=
    not_le.mpr (add_pos_of_pos_of_nonneg hsize layout.gap_nonneg)
  by_cases hcount : layout.count = 0
  · simp [fixedVisibleRange, hcount, Visible]
  · rw [fixedVisibleRange, if_neg (by tauto), if_neg (not_le.mpr hsize)]
    simp only [if_neg hstride, mem_new_max]
    by_cases hindex : index < layout.count
    · have hstart := floor_lt_iff_stop hsize huniform hindex
      have hstop := lt_ceil_iff_start hsize huniform hindex
        (layout.scrollOffset + layout.viewportExtent)
      have hmin : (min (if layout.scrollOffset < layout.origin + size then 0
          else ⌊(layout.scrollOffset - (layout.origin + size)) / (size + layout.gap)⌋₊ + 1)
            layout.count ≤ index) ↔ layout.scrollOffset < layout.stop index := by
        rw [← hstart, min_le_iff]
        omega
      rw [hmin, Visible, ItemStack.Meets]
      by_cases hbefore : layout.scrollOffset + layout.viewportExtent ≤ layout.origin
      · have hnot : ¬ layout.start index < layout.scrollOffset + layout.viewportExtent :=
          not_lt.mpr (hbefore.trans (layout.origin_le_start index))
        simp [hbefore, hnot]
      · rw [if_neg hbefore, lt_min_iff]
        tauto
    · have hnot : ¬ layout.Visible index := fun hvisible => hindex hvisible.1
      simp only [hnot, iff_false]
      rintro ⟨_, hlt⟩
      by_cases hbefore : layout.scrollOffset + layout.viewportExtent ≤ layout.origin
      · rw [if_pos hbefore] at hlt
        omega
      · rw [if_neg hbefore] at hlt
        omega

theorem fixedVisibleRange_of_zero (count : Nat)
    (scrollOffset viewportExtent gap scrollMargin : UiPx) :
    fixedVisibleRange count scrollOffset viewportExtent 0 gap scrollMargin = .empty := by
  simp [fixedVisibleRange]

end Uniform

variable {layout : ViewportLayout} {index : Nat}

theorem startFromEnds_ends (hindex : index < layout.count) :
    startFromEnds layout.ends layout.gap layout.origin index = layout.start index := by
  cases index with
  | zero => rfl
  | succ index =>
    have hprev := layout.ends_getElem? (Nat.lt_of_succ_lt hindex)
    rw [startFromEnds, Nat.add_sub_cancel, getD_eq_getElem?_getD, hprev]
    rfl

theorem nonnegativePx_stop_sub :
    nonnegativePx (layout.stop index - layout.start index) = layout.size index := by
  rw [layout.stop_sub_start, nonnegativePx_of_nonneg (layout.size_nonneg index)]

/-- The size the index takes for all the items, if they share one. -/
def firstSize (layout : ViewportLayout) : UiPx := if layout.count = 0 then 0 else layout.size 0

theorem firstSize_nonneg : 0 ≤ layout.firstSize := by
  unfold firstSize
  split
  next => exact le_refl 0
  next => exact layout.size_nonneg 0

theorem head?_ends : (layout.ends.head?.map fun stop =>
    nonnegativePx (stop - layout.origin)).getD 0 = layout.firstSize := by
  rw [head?_eq_getElem?, firstSize]
  by_cases hcount : layout.count = 0
  · simp [ends, hcount]
  · rw [layout.ends_getElem? (pos_of_ne_zero hcount), if_neg hcount]
    exact @nonnegativePx_stop_sub layout 0

theorem uniform_ends_iff :
    (layout.ends.zipIdx.all fun (stop, index) =>
      nonnegativePx (stop - startFromEnds layout.ends layout.gap
        layout.origin index) == layout.firstSize) = true ↔
      ∀ index < layout.count, layout.size index = layout.firstSize := by
  rw [all_eq_true]
  constructor
  · intro hall index hindex
    have hmem : (layout.stop index, index) ∈ layout.ends.zipIdx :=
      mem_zipIdx_iff_getElem?.mpr (layout.ends_getElem? hindex)
    have hsize := hall _ hmem
    simp only [startFromEnds_ends hindex, nonnegativePx_stop_sub] at hsize
    exact beq_iff_eq.mp hsize
  · rintro hsame ⟨stop, index⟩ hmem
    have hget := mk_mem_zipIdx_iff_getElem?.mp hmem
    have hindex : index < layout.count := by
      rw [← layout.length_ends]
      exact (List.getElem?_eq_some_iff.mp hget).1
    rw [layout.ends_getElem? hindex, Option.some_inj] at hget
    simp only [startFromEnds_ends hindex, ← hget, nonnegativePx_stop_sub, beq_iff_eq]
    exact hsame index hindex

theorem fromEnds_of_uniform
    (huniform : ∀ index < layout.count, layout.size index = layout.firstSize) :
    fromEnds layout.ends layout.gap layout.origin =
      .fixedIndex layout.count layout.firstSize layout.gap layout.origin := by
  simp only [fromEnds, fixed,
    nonnegativePx_of_nonneg layout.gap_nonneg, nonnegativePx_of_nonneg layout.origin_nonneg,
    head?_ends, nonnegativePx_of_nonneg firstSize_nonneg, length_ends]
  exact if_pos (uniform_ends_iff.mpr huniform)

theorem fromEnds_of_not_uniform
    (hvaried : ¬ ∀ index < layout.count, layout.size index = layout.firstSize) :
    fromEnds layout.ends layout.gap layout.origin =
      .variableIndex layout.ends layout.gap layout.origin := by
  simp only [fromEnds, fixed,
    nonnegativePx_of_nonneg layout.gap_nonneg, nonnegativePx_of_nonneg layout.origin_nonneg,
    head?_ends]
  exact if_neg (uniform_ends_iff.not.mpr hvaried)

theorem item_fixedIndex {size : UiPx}
    (huniform : ∀ index < layout.count, layout.size index = size) (index : Nat) :
    (fixedIndex layout.count size layout.gap layout.origin).item index = layout.item index := by
  rw [VirtualizerGeometryIndex.item, item]
  by_cases hindex : index < layout.count
  · rw [if_neg (not_le.mpr hindex), if_pos hindex, huniform index hindex,
      layout.start_of_uniform_size huniform hindex, mul_comm]
  · rw [if_pos (not_lt.mp hindex), if_neg hindex]

theorem item_fromEnds (index : Nat) :
    (fromEnds layout.ends layout.gap layout.origin).item index = layout.item index := by
  by_cases huniform : ∀ index < layout.count, layout.size index = layout.firstSize
  · rw [fromEnds_of_uniform huniform, item_fixedIndex huniform]
  · rw [fromEnds_of_not_uniform huniform, VirtualizerGeometryIndex.item, item]
    by_cases hindex : index < layout.count
    · rw [layout.ends_getElem? hindex, if_pos hindex]
      simp only [Option.map_some, startFromEnds_ends hindex, nonnegativePx_stop_sub]
    · have hnone : layout.ends[index]? = none := by
        rw [getElem?_eq_none_iff, length_ends]
        exact not_lt.mp hindex
      rw [hnone, if_neg hindex, Option.map_none]

theorem fixedTotalSize_eq {size : UiPx}
    (huniform : ∀ index < layout.count, layout.size index = size) :
    fixedTotalSize layout.count size layout.gap layout.origin = layout.totalSize := by
  rw [fixedTotalSize, totalSize]
  by_cases hcount : layout.count = 0
  · rw [if_pos hcount, if_pos hcount]
  · have hlast : layout.count - 1 < layout.count := by omega
    have hcast : ((layout.count - 1 : Nat) : UiPx) = layout.count - 1 := by
      rw [Nat.cast_sub (Nat.pos_of_ne_zero hcount), Nat.cast_one]
    rw [if_neg hcount, if_neg hcount, ItemStack.stop,
      layout.start_of_uniform_size huniform hlast, huniform _ hlast, hcast]
    ring

theorem getLast?_ends : (layout.ends.getLast?.map fun stop => stop + layout.origin).getD 0 =
    layout.totalSize := by
  rw [getLast?_eq_getElem?, length_ends, totalSize]
  by_cases hcount : layout.count = 0
  · simp [ends, hcount]
  · rw [layout.ends_getElem? (by omega), if_neg hcount]
    rfl

theorem totalSize_fromEnds :
    (fromEnds layout.ends layout.gap layout.origin).totalSize = layout.totalSize := by
  by_cases huniform : ∀ index < layout.count, layout.size index = layout.firstSize
  · rw [fromEnds_of_uniform huniform]
    exact fixedTotalSize_eq huniform
  · rw [fromEnds_of_not_uniform huniform]
    exact getLast?_ends

theorem partitionPoint_ends_le_iff (hindex : index < layout.count) (offset : UiPx) :
    partitionPoint (fun stop => decide (stop ≤ offset)) layout.ends ≤ index ↔
      offset < layout.stop index := by
  have hdown : layout.ends.Pairwise fun earlier later =>
      decide (later ≤ offset) = true → decide (earlier ≤ offset) = true := by
    rw [pairwise_iff_getElem]
    intro earlier later hearlier hlater hlt hstop
    rw [decide_eq_true_iff, ends_getElem] at hstop ⊢
    exact (layout.stop_mono hlt.le).trans hstop
  have hlt := lt_partitionPoint_iff hdown (layout.length_ends.symm ▸ hindex)
  rw [ends_getElem, decide_eq_true_iff] at hlt
  rw [← not_lt, hlt, not_le]

/-- The ends before the last, moved by the gap, are where the later items start. -/
theorem lt_partitionPoint_starts_iff (hindex : index + 1 < layout.count) (viewportEnd : UiPx) :
    index < partitionPoint (fun stop => decide (stop + layout.gap < viewportEnd))
      (layout.ends.take (layout.ends.length - 1)) ↔
      layout.start (index + 1) < viewportEnd := by
  have hdown : (layout.ends.take (layout.ends.length - 1)).Pairwise fun earlier later =>
      decide (later + layout.gap < viewportEnd) = true →
        decide (earlier + layout.gap < viewportEnd) = true := by
    rw [pairwise_iff_getElem]
    intro earlier later hearlier hlater hlt hstart
    rw [decide_eq_true_iff, getElem_take, ends_getElem] at hstart ⊢
    have hmono := layout.stop_mono hlt.le
    linarith
  have hlength : index < (layout.ends.take (layout.ends.length - 1)).length := by
    rw [length_take, length_ends]
    omega
  rw [lt_partitionPoint_iff hdown hlength, decide_eq_true_iff, getElem_take,
    ends_getElem, ItemStack.start_succ]

/-- The end of the searched range counts the items that start before the viewport ends. -/
theorem lt_searchedEnd_iff (hcount : layout.count ≠ 0) (viewportEnd : UiPx) (index : Nat) :
    index < (if layout.origin < viewportEnd then
      1 + partitionPoint (fun stop => decide (stop + layout.gap < viewportEnd))
        (layout.ends.take (layout.ends.length - 1))
      else 0) ↔ index < layout.count ∧ layout.start index < viewportEnd := by
  by_cases hbefore : layout.origin < viewportEnd
  · rw [if_pos hbefore]
    have hle := partitionPoint_le (fun stop => decide (stop + layout.gap < viewportEnd))
      (layout.ends.take (layout.ends.length - 1))
    rw [length_take, length_ends] at hle
    cases index with
    | zero =>
      constructor
      · intro _
        exact ⟨pos_of_ne_zero hcount, hbefore⟩
      · intro _
        omega
    | succ index =>
      by_cases hindex : index + 1 < layout.count
      · have hstart := lt_partitionPoint_starts_iff hindex viewportEnd
        constructor
        · intro hlt
          exact ⟨hindex, hstart.mp (by omega)⟩
        · intro hlt
          have hfound := hstart.mpr hlt.2
          omega
      · rw [length_ends]
        constructor <;> intro h <;> omega
  · have hnot : ¬ layout.start index < viewportEnd :=
      not_lt.mpr ((not_lt.mp hbefore).trans (layout.origin_le_start index))
    simp [hbefore, hnot]

theorem mem_visibleRange_variableIndex (index : Nat) : index ∈ (variableIndex layout.ends layout.gap
      layout.origin).visibleRange layout.scrollOffset layout.viewportExtent ↔
      layout.Visible index := by
  have hextent : ¬ layout.viewportExtent ≤ 0 := not_le.mpr layout.viewportExtent_pos
  simp only [VirtualizerGeometryIndex.visibleRange, if_neg hextent]
  by_cases hpast : partitionPoint (fun stop => decide (stop ≤ layout.scrollOffset))
      layout.ends = layout.ends.length
  · rw [if_pos hpast]
    simp only [not_mem_empty, false_iff]
    intro hvisible
    have hle := (partitionPoint_ends_le_iff hvisible.1 layout.scrollOffset).mpr hvisible.2.1
    rw [hpast, length_ends] at hle
    exact absurd hvisible.1 (not_lt.mpr hle)
  · rw [if_neg hpast, mem_new_max]
    have hcount : layout.count ≠ 0 := by
      intro hzero
      have hle := partitionPoint_le (fun stop => decide (stop ≤ layout.scrollOffset)) layout.ends
      rw [length_ends, hzero] at hle
      rw [length_ends, hzero] at hpast
      exact hpast (Nat.le_zero.mp hle)
    rw [lt_searchedEnd_iff hcount]
    constructor
    · rintro ⟨hstart, hindex, hbefore⟩
      exact ⟨hindex, (partitionPoint_ends_le_iff hindex _).mp hstart, hbefore⟩
    · rintro ⟨hindex, hafter, hbefore⟩
      exact ⟨(partitionPoint_ends_le_iff hindex _).mpr hafter, hindex, hbefore⟩

end ViewportLayout

end OpenGpui.UiCore
