/-
The geometry cache answers as no cache would.  An entry is sound when it is what its key
stands for at its revision; a hit by key reads that back, and a hit by the measurements the
entry produced seeds every current key with the size it had.
-/
import OpenGpui.Library.KeyedList
import OpenGpui.UiCore.VirtualizerCache

namespace OpenGpui.UiCore

open KeyMap Option VirtualizerGeometryCacheKey ItemStack OwnedMeasurements
open VirtualizerMeasuredItemMetadata

section Lookups

variable (items : List VirtualizerSnapshotItem) (byKey : KeyMap VirtualizerItemKey MeasuredPx)

theorem get_foldl_insert (key : VirtualizerItemKey) :
    (items.foldl (fun byKey item => byKey.insert item.key (measuredPx item.size))
      byKey)[key]? = ((items.reverse.find? fun item => decide (item.key = key)).map
        fun item => measuredPx item.size).or byKey[key]? := by
  induction items generalizing byKey with
  | nil => simp
  | cons item rest ih =>
    rw [List.foldl_cons, ih, get_insert, List.reverse_cons, List.find?_append]
    cases hfound : rest.reverse.find? fun item => decide (item.key = key) with
    | some found => simp
    | none =>
      by_cases hkey : item.key = key
      · simp [hkey]
      · simp [hkey]

/-- The last item of a key decides. -/
theorem get_measurementsOf (key : VirtualizerItemKey) :
    (measurementsOf items)[key]? = (items.reverse.find? fun item => decide (item.key = key)).map
        fun item => measuredPx item.size := by
  rw [measurementsOf, get_foldl_insert, Std.ExtTreeMap.getElem?_empty, or_none]

theorem get_seeded (key : VirtualizerItemKey) :
    (items.foldl (fun byKey item => byKey.insert item.key (measuredPx item.size))
      byKey)[key]? = (measurementsOf items)[key]?.or byKey[key]? := by
  rw [get_foldl_insert, get_measurementsOf]

variable (byKey : KeyMap VirtualizerItemKey UiPx)

theorem keys_snapshotItems :
    (snapshotItems byKey).map VirtualizerSnapshotItem.key = byKey.keys := by
  rw [snapshotItems, List.map_map, ← Std.ExtTreeMap.map_fst_toList_eq_keys]
  rfl

theorem mem_snapshotItems {byKey : KeyMap VirtualizerItemKey UiPx}
    {item : VirtualizerSnapshotItem} :
    item ∈ snapshotItems byKey ↔ byKey[item.key]? = some item.size := by
  rw [snapshotItems, List.mem_map, ← mem_toList_iff_get]
  constructor
  · rintro ⟨entry, hmem, rfl⟩
    exact hmem
  · intro hmem
    exact ⟨(item.key, item.size), hmem, rfl⟩

/-- Measurements listed from a map are found under their keys again. -/
theorem get_measurementsOf_snapshotItems (key : VirtualizerItemKey) :
    (measurementsOf (snapshotItems byKey))[key]? = byKey[key]?.map measuredPx := by
  have hselects : KeyedList.Selects VirtualizerSnapshotItem.key
      (fun item => decide (item.key = key)) key := fun item => decide_eq_true_iff
  have hkeys : ((snapshotItems byKey).reverse.map VirtualizerSnapshotItem.key).Nodup := by
    rw [List.map_reverse, List.nodup_reverse, keys_snapshotItems]
    exact keys_nodup byKey
  rw [get_measurementsOf]
  cases hsize : byKey[key]? with
  | some size =>
    have hmem : (⟨key, size⟩ : VirtualizerSnapshotItem) ∈ (snapshotItems byKey).reverse :=
      List.mem_reverse.mpr (mem_snapshotItems.mpr hsize)
    have hfind := (KeyedList.find?_eq_some_iff hkeys hselects).mpr ⟨hmem, rfl⟩
    rw [hfind]
    rfl
  | none =>
    have hfind : (snapshotItems byKey).reverse.find? (fun item => decide (item.key = key)) =
        none := by
      rw [KeyedList.find?_eq_none_iff hselects]
      intro item hmem hkey
      have hget := mem_snapshotItems.mp (List.mem_reverse.mp hmem)
      rw [hkey, hsize] at hget
      cases hget
    rw [hfind]
    rfl

/-- When the size of an item depends on its key only, the current keys have their sizes. -/
theorem get_snapshotByKey (count : Nat) (keyForIndex : Nat → VirtualizerItemKey)
    (size : VirtualizerItemKey → Option MeasuredPx) {index : Nat} (hindex : index < count) :
    (snapshotByKey count fun index =>
      (keyForIndex index, (size (keyForIndex index)).map Subtype.val))[keyForIndex index]? =
        (size (keyForIndex index)).map Subtype.val := by
  induction count with
  | zero => exact absurd hindex (Nat.not_lt_zero index)
  | succ count ih =>
    rw [snapshotByKey] at ih ⊢
    rw [List.range_succ, List.foldl_append, List.foldl_cons, List.foldl_nil]
    by_cases hsame : keyForIndex count = keyForIndex index
    · rw [← hsame]
      cases hsize : size (keyForIndex count) with
      | some found => simp [nonnegativePx_of_nonneg found.property]
      | none => simp
    · have hearlier : index < count := by
        rcases Nat.lt_succ_iff_lt_or_eq.mp hindex with hlt | rfl
        · exact hlt
        · exact absurd rfl hsame
      have hprev := ih hearlier
      cases hsize : size (keyForIndex count) with
      | some found =>
        simp only [map_some]
        rw [get_insert, if_neg hsame]
        exact hprev
      | none =>
        simp only [map_none]
        rw [get_erase, if_neg hsame]
        exact hprev

theorem snapshotByKey_congr {count : Nat} {first second : Nat → VirtualizerItemKey × Option UiPx}
    (h : ∀ index < count, first index = second index) :
    snapshotByKey count first = snapshotByKey count second := by
  apply List.foldl_ext
  intro byKey index hmem
  rw [h index (List.mem_range.mp hmem)]

end Lookups

/-- Seeded with the measurements of the current keys, a state has their sizes again. -/
theorem measuredSize_of_snapshot (owned : OwnedMeasurements)
    {authority seeded : Option SharedMeasurements} {count : Nat}
    {keyForIndex : Nat → VirtualizerItemKey}
    (hseeded : ∀ key : VirtualizerItemKey, (authorityMeasurements seeded)[key]? =
      (measurementsOf (snapshotItems (snapshotByKey count fun index =>
        (keyForIndex index, (owned.measuredSize authority (keyForIndex index)).map
          Subtype.val))))[key]?) {index : Nat} (hindex : index < count) :
    owned.measuredSize seeded (keyForIndex index) =
      owned.measuredSize authority (keyForIndex index) := by
  have hsize : (authorityMeasurements seeded)[keyForIndex index]? =
      owned.measuredSize authority (keyForIndex index) := by
    rw [hseeded, get_measurementsOf_snapshotItems, get_snapshotByKey count keyForIndex
      (owned.measuredSize authority) hindex, map_map]
    have hid : measuredPx ∘ Subtype.val = (id : MeasuredPx → MeasuredPx) := by
      funext size
      exact Subtype.ext (nonnegativePx_of_nonneg size.property)
    rw [hid, map_id]
    rfl
  rw [measuredSize, hsize, measuredSize]
  cases hafter : owned.after[keyForIndex index]? with
  | some size => simp
  | none =>
    cases hauthority : (authorityMeasurements authority)[keyForIndex index]? with
    | some size => simp
    | none =>
      cases hbefore : owned.before[keyForIndex index]? <;> simp

section Building

variable {snapshots : List VirtualizerSnapshot} {state next : VirtualizerState}

variable {step : VirtualizerStateStep}

theorem buildStep_count
    (h : state.buildStep snapshots step = some next) : next.count = state.count := by
  cases step with
  | snapshot handle =>
    obtain ⟨snapshot, _, rfl⟩ := map_eq_some_iff.mp h
    rfl
  | _ =>
    obtain rfl := some_inj.mp h
    rfl

/-- The authority of a state is the storage of a snapshot. -/
def AuthorityAmong (snapshots : List VirtualizerSnapshot) (state : VirtualizerState) : Prop :=
  ∀ authority, state.measurementAuthority = some authority →
    ∃ snapshot ∈ snapshots, snapshot.measurements = authority

theorem buildStep_authority (hstate : AuthorityAmong snapshots state)
    (h : state.buildStep snapshots step = some next) : AuthorityAmong snapshots next := by
  cases step with
  | snapshot handle =>
    obtain ⟨snapshot, hget, rfl⟩ := map_eq_some_iff.mp h
    intro authority hauthority
    rw [VirtualizerState.withSnapshot] at hauthority
    split at hauthority
    next => cases hauthority
    next =>
      obtain rfl := some_inj.mp hauthority
      exact ⟨snapshot, List.mem_of_getElem? hget, rfl⟩
  | _ =>
    obtain rfl := some_inj.mp h
    exact hstate

theorem build_invariant {invariant : VirtualizerState → Prop}
    (hstep : ∀ state next step, invariant state →
      VirtualizerState.buildStep snapshots state step = some next → invariant next)
    {request : VirtualizerRequest} (hstart : invariant (.new request.count request.estimatedSize))
    (h : request.build snapshots = some state) : invariant state := by
  have hsteps : ∀ (steps : List VirtualizerStateStep) (first last : VirtualizerState),
      invariant first → steps.foldlM (VirtualizerState.buildStep snapshots) first = some last →
        invariant last := by
    intro steps
    induction steps with
    | nil =>
      intro first last hfirst hfold
      obtain rfl := some_inj.mp hfold
      exact hfirst
    | cons step steps ih =>
      intro first last hfirst hfold
      obtain ⟨middle, hmiddle, hrest⟩ := bind_eq_some_iff.mp hfold
      exact ih middle last (hstep first middle step hfirst hmiddle) hrest
  exact hsteps request.steps _ state hstart h

theorem build_count {request : VirtualizerRequest}
    (h : request.build snapshots = some state) : state.count = request.count :=
  @build_invariant _ _ (fun state => state.count = request.count)
    (fun _ _ _ hcount hstep => (buildStep_count hstep).trans hcount) request rfl h

theorem build_authority {request : VirtualizerRequest}
    (h : request.build snapshots = some state) : AuthorityAmong snapshots state :=
  build_invariant (fun _ _ _ hstate hstep => buildStep_authority hstate hstep)
    (fun _ hnone => by cases hnone) h

end Building

def VirtualizerMeasuredGeometry.withoutAddress (measured : VirtualizerMeasuredGeometry) :
    VirtualizerMeasuredGeometry :=
  { measured with
    snapshotMeasurements := { measured.snapshotMeasurements with address := 0 } }

/-- Addresses and authorities do not show in the contents of a measured geometry. -/
theorem withoutAddress_buildMeasuredGeometry (address count : Nat)
    (estimatedSize gap scrollMargin : UiPx) (authority : Option SharedMeasurements)
    (itemForIndex : Nat → VirtualizerItemKey × Option UiPx) :
    (buildMeasuredGeometry address count estimatedSize gap scrollMargin authority
      itemForIndex).withoutAddress =
        buildMeasuredGeometry 0 count estimatedSize gap scrollMargin none itemForIndex := by
  simp only [VirtualizerMeasuredGeometry.withoutAddress, buildMeasuredGeometry,
    retainMeasurements_items]
  rfl

theorem buildMeasuredGeometry_congr {count : Nat} (address : Nat)
    (estimatedSize gap scrollMargin : UiPx) (authority : Option SharedMeasurements)
    {first second : Nat → VirtualizerItemKey × Option UiPx}
    (h : ∀ index < count, first index = second index) :
    buildMeasuredGeometry address count estimatedSize gap scrollMargin authority first =
      buildMeasuredGeometry address count estimatedSize gap scrollMargin authority second := by
  have hsize : ∀ index < count, ((first index).2.map nonnegativePx).getD estimatedSize =
      ((second index).2.map nonnegativePx).getD estimatedSize := by
    intro index hindex
    rw [h index hindex]
  have hends : place gap
      (fun index => ((first index).2.map nonnegativePx).getD estimatedSize)
      (fun index start => start + ((first index).2.map nonnegativePx).getD estimatedSize)
        count scrollMargin = place gap
      (fun index => ((second index).2.map nonnegativePx).getD estimatedSize)
      (fun index start => start + ((second index).2.map nonnegativePx).getD estimatedSize)
        count scrollMargin := by
    apply place_congr scrollMargin hsize
    intro index hindex start
    rw [hsize index hindex]
  have hmetadata : (List.range count).map (fun index =>
      mk (first index).1 (first index).2.isSome) =
        (List.range count).map fun index =>
          mk (second index).1 (second index).2.isSome := by
    apply List.map_congr_left
    intro index hmem
    rw [h index (List.mem_range.mp hmem)]
  simp only [buildMeasuredGeometry, snapshotByKey_congr h, hends, hmetadata]

theorem sizeDrivenGeometry_congr {count : Nat} (gap scrollMargin : UiPx)
    {first second : Nat → UiPx} (h : ∀ index < count, first index = second index) :
    sizeDrivenGeometry count gap scrollMargin first =
      sizeDrivenGeometry count gap scrollMargin second := by
  have hends : place gap (fun index => nonnegativePx (first index))
      (fun index start => start + nonnegativePx (first index)) count scrollMargin =
        place gap (fun index => nonnegativePx (second index))
          (fun index start => start + nonnegativePx (second index)) count scrollMargin := by
    apply place_congr scrollMargin
    · intro index hindex
      rw [h index hindex]
    · intro index hindex start
      rw [h index hindex]
  rw [sizeDrivenGeometry, sizeDrivenGeometry]
  simp only [hends]

/-- A resolution shows no more of a measured geometry than its contents. -/
theorem withoutAddress_resolveMeasured (state : VirtualizerState)
    {first second : VirtualizerMeasuredGeometry}
    (h : first.withoutAddress = second.withoutAddress) :
    (state.resolveMeasuredWindowFromGeometry first).withoutAddress =
      (state.resolveMeasuredWindowFromGeometry second).withoutAddress := by
  obtain ⟨firstGeometry, firstMetadata, firstAddress, firstItems⟩ := first
  obtain ⟨rfl, rfl, rfl⟩ := h
  rfl

/-- The storage holds what the memory has at its address. -/
def SharedMeasurements.StoredIn (memory : List (List VirtualizerSnapshotItem))
    (measurements : SharedMeasurements) : Prop :=
  memory[measurements.address]? = some measurements.items

variable {memory : List (List VirtualizerSnapshotItem)} {measurements : SharedMeasurements}

theorem SharedMeasurements.StoredIn.append (h : measurements.StoredIn memory)
    (items : List VirtualizerSnapshotItem) :
    measurements.StoredIn (memory ++ [items]) := by
  obtain ⟨hlt, hget⟩ := List.getElem?_eq_some_iff.mp h
  rw [SharedMeasurements.StoredIn, List.getElem?_append_left hlt]
  exact h

theorem items_eq_of_sharedMeasurementsMatch
    {left right : SharedMeasurements} (hleft : left.StoredIn memory)
    (hright : right.StoredIn memory) (h : sharedMeasurementsMatch left right = true) :
    left.items = right.items := by
  rw [sharedMeasurementsMatch, Bool.or_eq_true, Bool.and_eq_true] at h
  rcases h with ⟨hleftEmpty, hrightEmpty⟩ | haddress
  · rw [List.isEmpty_iff.mp hleftEmpty, List.isEmpty_iff.mp hrightEmpty]
  · rw [SharedMeasurements.StoredIn, beq_iff_eq.mp haddress, hright] at hleft
    exact (some_inj.mp hleft).symm

variable {left right : Option SharedMeasurements}

theorem authorityMeasurements_of_match
    (hleft : ∀ authority, left = some authority → authority.StoredIn memory)
    (hright : ∀ authority, right = some authority → authority.StoredIn memory)
    (h : optionalMeasurementAuthoritiesMatch left right = true) :
    authorityMeasurements left = authorityMeasurements right := by
  cases left with
  | none =>
    cases right with
    | none => rfl
    | some right => simp [authorityMeasurements, measurementsOf, List.isEmpty_iff.mp h]
  | some left =>
    cases right with
    | none => simp [authorityMeasurements, measurementsOf, List.isEmpty_iff.mp h]
    | some right =>
      have hitems := items_eq_of_sharedMeasurementsMatch (hleft left rfl) (hright right rfl) h
      rw [authorityMeasurements, authorityMeasurements, hitems]

theorem authorityMeasurements_of_produced {authority : Option SharedMeasurements}
    (hauthority : ∀ held, authority = some held → held.StoredIn memory)
    (hmeasurements : measurements.StoredIn memory)
    (h : optionalAuthorityMatchesMeasurements authority measurements = true) :
    authorityMeasurements authority = measurementsOf measurements.items := by
  cases authority with
  | none => simp [authorityMeasurements, measurementsOf, List.isEmpty_iff.mp h]
  | some held =>
    have hitems := items_eq_of_sharedMeasurementsMatch (hauthority held rfl) hmeasurements h
    rw [authorityMeasurements, hitems]

variable (answers : Nat → RevisionAnswers) (owned : Nat → OwnedMeasurements)

/-- The item a measured resolution reads at a revision, under an authority. -/
def answeredItem (revision : Nat) (authority : Option SharedMeasurements) :
    Nat → VirtualizerItemKey × Option UiPx :=
  match (answers revision).measured with
  | .items itemForIndex => itemForIndex
  | .keys keyForIndex => fun index =>
    (keyForIndex index,
      ((owned revision).measuredSize authority (keyForIndex index)).map Subtype.val)

/-- The geometry a key stands for. -/
def VirtualizerGeometryCacheKey.answered (key : VirtualizerGeometryCacheKey) :
    VirtualizerMeasuredGeometry :=
  buildMeasuredGeometry 0 key.count key.estimatedSize key.gap key.scrollMargin none
    (answeredItem answers owned key.revision key.measurementAuthority)

def VirtualizerGeometryCacheEntry.Sound (entry : VirtualizerGeometryCacheEntry) : Prop :=
  match entry.value with
  | .knownSize geometry =>
    geometry = sizeDrivenGeometry entry.key.count entry.key.gap entry.key.scrollMargin
      (answers entry.key.revision).sizeForIndex
  | .measured measured => measured.withoutAddress = entry.key.answered answers owned

variable {answers owned}

theorem answeredItem_congr {revision : Nat}
    (h : authorityMeasurements left = authorityMeasurements right) :
    answeredItem answers owned revision left = answeredItem answers owned revision right := by
  unfold answeredItem measuredSize
  rw [h]

/-- Seeding with what a geometry produced leaves the items of the geometry as they are. -/
theorem answeredItem_of_produced {revision count : Nat} {estimatedSize gap scrollMargin : UiPx}
    {authority seeded : Option SharedMeasurements} (h : authorityMeasurements seeded =
      measurementsOf (buildMeasuredGeometry 0 count estimatedSize gap scrollMargin none
        (answeredItem answers owned revision authority)).snapshotMeasurements.items)
    {index : Nat} (hindex : index < count) :
    answeredItem answers owned revision seeded index =
      answeredItem answers owned revision authority index := by
  unfold answeredItem at h ⊢
  cases hmeasured : (answers revision).measured with
  | items itemForIndex => rfl
  | keys keyForIndex =>
    rw [hmeasured] at h
    have hsize : (owned revision).measuredSize seeded (keyForIndex index) =
        (owned revision).measuredSize authority (keyForIndex index) :=
      measuredSize_of_snapshot (owned revision) (fun key => congrArg (·[key]?) h) hindex
    simp only [hsize]

namespace VirtualizerGeometryCache

variable {cache : VirtualizerGeometryCache} {key : VirtualizerGeometryCacheKey}
variable {memory : List (List VirtualizerSnapshotItem)}

theorem matchesGeometryInputs_iff {other : VirtualizerGeometryCacheKey} :
    key.matchesGeometryInputs other = true ↔
      key.kind = other.kind ∧ key.revision = other.revision ∧ key.count = other.count ∧
        key.estimatedSize = other.estimatedSize ∧ key.gap = other.gap ∧
          key.scrollMargin = other.scrollMargin := by
  simp only [matchesGeometryInputs, Bool.and_eq_true, beq_iff_eq, and_assoc]

/-- Everything the entry holds is in the memory. -/
structure EntryStored (memory : List (List VirtualizerSnapshotItem))
    (entry : VirtualizerGeometryCacheEntry) : Prop where
  authority : ∀ authority, entry.key.measurementAuthority = some authority →
    authority.StoredIn memory
  produced : ∀ measured, entry.value = .measured measured →
    measured.snapshotMeasurements.StoredIn memory

/-- The entry of the cache, if there is one, is sound and in the memory. -/
def Sound (answers : Nat → RevisionAnswers) (owned : Nat → OwnedMeasurements)
    (memory : List (List VirtualizerSnapshotItem)) (cache : VirtualizerGeometryCache) :
    Prop :=
  ∀ entry, cache.entry = some entry → entry.Sound answers owned ∧ EntryStored memory entry

variable (hcache : cache.Sound answers owned memory)

include hcache

theorem knownSizeHit_sound
    {geometry : VirtualizerGeometryIndex} (hhit : cache.knownSizeHit key = some geometry) :
    geometry = sizeDrivenGeometry key.count key.gap key.scrollMargin
      (answers key.revision).sizeForIndex := by
  rw [knownSizeHit] at hhit
  split at hhit
  next entryKey found hentry =>
    split at hhit
    next hmatches =>
      obtain rfl := some_inj.mp hhit
      rw [VirtualizerGeometryCacheKey.matches, Bool.and_eq_true,
        matchesGeometryInputs_iff] at hmatches
      obtain ⟨⟨_, hrevision, hcount, _, hgap, hmargin⟩, _⟩ := hmatches
      have hsound : found = sizeDrivenGeometry entryKey.count entryKey.gap
          entryKey.scrollMargin (answers entryKey.revision).sizeForIndex :=
        (hcache _ hentry).1
      rw [hsound, hrevision, hcount, hgap, hmargin]
    next => cases hhit
  next => cases hhit

/-- A hit, by either rule, is what the key stands for. -/
theorem measuredHit_sound
    (hkey : ∀ authority, key.measurementAuthority = some authority → authority.StoredIn memory)
    {measured : VirtualizerMeasuredGeometry} (hhit : cache.measuredHit key = some measured) :
    measured.withoutAddress = key.answered answers owned ∧
      measured.snapshotMeasurements.StoredIn memory := by
  rw [measuredHit] at hhit
  split at hhit
  next entryKey found hentry =>
    split at hhit
    next hmatches =>
      obtain rfl := some_inj.mp hhit
      obtain ⟨hentrySound, hstored⟩ := hcache _ hentry
      have hsound : found.withoutAddress = entryKey.answered answers owned := hentrySound
      rw [Bool.and_eq_true, Bool.or_eq_true, matchesGeometryInputs_iff] at hmatches
      obtain ⟨⟨_, hrevision, hcount, hestimate, hgap, hmargin⟩, hrule⟩ := hmatches
      refine ⟨?_, hstored.produced found rfl⟩
      rw [hsound, answered, answered, hrevision, hcount, hestimate, hgap, hmargin]
      rcases hrule with hsame | hproduced
      · rw [VirtualizerGeometryCacheKey.matches, Bool.and_eq_true] at hsame
        rw [answeredItem_congr (authorityMeasurements_of_match hstored.authority hkey hsame.2)]
      · have hitems : found.snapshotMeasurements.items =
            (entryKey.answered answers owned).snapshotMeasurements.items := by
          rw [← hsound]
          rfl
        have hseeded := authorityMeasurements_of_produced hkey
          (hstored.produced found rfl) hproduced
        rw [hitems, answered, hrevision, hcount] at hseeded
        apply buildMeasuredGeometry_congr
        intro index hindex
        exact (answeredItem_of_produced hseeded hindex).symm
    next => cases hhit
  next => cases hhit

theorem Sound.append (items : List VirtualizerSnapshotItem) :
    cache.Sound answers owned (memory ++ [items]) := by
  intro entry hentry
  obtain ⟨hsound, hstored⟩ := hcache entry hentry
  refine ⟨hsound, ?_, ?_⟩
  · intro authority hauthority
    exact (hstored.authority authority hauthority).append items
  · intro measured hmeasured
    exact (hstored.produced measured hmeasured).append items

end VirtualizerGeometryCache

end OpenGpui.UiCore
