/-
What each operation of an ordered map makes of its entries, and of the finite map that they
stand for.
-/
import OpenGpui.SumTree.LookupAgreement
import OpenGpui.SumTree.TreeMap

namespace OpenGpui.SumTrees

open Cursor MapEntry MapKey Option Ordering Nat MapSeekTarget

universe u v w x

open SumTree

section Retain

variable {K : Type u} {V : Type v} {σ : Type x}

/-- The state behind the entries, and the entries the predicate keeps. -/
def TreeMap.kept (predicate : σ → K → V → Bool × σ) :
    σ → List (MapEntry K V) → σ × List (MapEntry K V)
  | state, [] => (state, [])
  | state, entry :: entries =>
    let verdict := predicate state entry.key entry.value
    let rest := kept predicate verdict.2 entries
    (rest.1, if verdict.1 then entry :: rest.2 else rest.2)

theorem TreeMap.kept_sublist (predicate : σ → K → V → Bool × σ) (state : σ)
    (entries : List (MapEntry K V)) : (kept predicate state entries).2.Sublist entries := by
  induction entries generalizing state with
  | nil => exact .refl _
  | cons entry entries ih =>
    rw [kept]
    cases (predicate state entry.key entry.value).1 with
    | true => exact (ih _).cons_cons entry
    | false => exact (ih _).cons entry

theorem TreeMap.retainLoop_spec {tree : SumTree (MapEntry K V) (MapKey K)} (htree : Valid tree)
    (predicate : σ → K → V → Bool × σ) {fuel : Nat} {state : σ}
    {cursor : Cursor (MapEntry K V) (MapKey K) (MapKeyRef K)}
    {newMap : SumTree (MapEntry K V) (MapKey K)} {front rest : List (MapEntry K V)}
    (hparts : cursor.Parts tree front rest) (hmap : Valid newMap) (hfuel : rest.length < fuel) :
    ∃ result, retainLoop predicate fuel state cursor newMap =
        some ((kept predicate state rest).1, result) ∧ Valid result ∧
      result.toList = newMap.toList ++ (kept predicate state rest).2 := by
  induction rest generalizing fuel state cursor newMap front with
  | nil =>
    obtain ⟨fuel, rfl⟩ := exists_eq_add_one.mpr hfuel
    refine ⟨newMap, ?_, hmap, (List.append_nil _).symm⟩
    rw [retainLoop, hparts.item_eq]
    rfl
  | cons entry rest ih =>
    obtain ⟨fuel, rfl⟩ := exists_eq_add_one.mpr (zero_lt_of_lt hfuel)
    obtain ⟨next, hnext, hnextParts⟩ := hparts.next htree
    rw [retainLoop, hparts.item_eq]
    simp only [List.head?_cons, bind_some, kept]
    cases hverdict : (predicate state entry.key entry.value).1 with
    | true =>
      obtain ⟨pushed, hpush, hpushed, hitems⟩ := push_spec hmap entry
      obtain ⟨result, hrun, hresult, hresultItems⟩ :=
        @ih fuel (predicate state entry.key entry.value).2 next pushed _ hnextParts hpushed
          (lt_of_succ_lt_succ hfuel)
      refine ⟨result, ?_, hresult, ?_⟩
      · simp only [if_true, hpush, bind_some, hnext, hrun]
      · rw [hresultItems, hitems, List.append_assoc]
        rfl
    | false =>
      obtain ⟨result, hrun, hresult, hresultItems⟩ :=
        @ih fuel (predicate state entry.key entry.value).2 next newMap _ hnextParts hmap
          (lt_of_succ_lt_succ hfuel)
      refine ⟨result, ?_, hresult, ?_⟩
      · simp only [Bool.false_eq_true, if_false, bind_some, hnext, hrun]
      · rw [hresultItems, if_neg Bool.false_ne_true]

end Retain

/-- The key of an entry is never missing. -/
theorem MapEntry.key_eq_some {K : Type u} {V : Type v} (entry : MapEntry K V) (key : K) :
    KeyedItem.key entry = (⟨some key⟩ : MapKey K) ↔ entry.key = key := by
  rw [KeyedItem.key, keyedItem, MapKey.mk.injEq, some.injEq]

variable {K : Type u} {V : Type v} [LinearOrder K]

theorem MapKey.some_lt_some {one two : K} :
    (⟨some one⟩ : MapKey K) < ⟨some two⟩ ↔ one < two := WithBot.coe_lt_coe

theorem MapKey.none_lt_some (key : K) : (⟨none⟩ : MapKey K) < ⟨some key⟩ := WithBot.bot_lt_coe key

namespace MapEntry

theorem lastKey : LastKey (MapEntry K V) (MapKey K) (MapKey K) :=
  ⟨fun _ _ => rfl, fun entry => none_lt_some entry.key⟩

theorem key_lt_iff (one two : MapEntry K V) :
    KeyedItem.key one < KeyedItem.key two ↔ one.key < two.key := some_lt_some

variable (entry : MapEntry K V)

theorem key_lt_some (key : K) :
    KeyedItem.key entry < (⟨some key⟩ : MapKey K) ↔ entry.key < key := some_lt_some

theorem some_lt_key (key : K) :
    (⟨some key⟩ : MapKey K) < KeyedItem.key entry ↔ key < entry.key := some_lt_some

theorem increasing_iff {entries : List (MapEntry K V)} :
    Increasing KeyedItem.key entries ↔ Increasing MapEntry.key entries :=
  ⟨List.Pairwise.imp fun hlt => (key_lt_iff _ _).mp hlt,
    List.Pairwise.imp fun hlt => (key_lt_iff _ _).mpr hlt⟩

end MapEntry

namespace TreeMap

/-- The tree is well formed, and its entries are those of the finite map. -/
structure Represents (treeMap : TreeMap K V) (map : K → Option V) : Prop where
  valid : Valid treeMap.tree
  entries : OpenGpui.Represents MapEntry.key MapEntry.value treeMap.tree.toList map

variable {R : Type w} {σ : Type x} {self : TreeMap K V} {map : K → Option V}

theorem represents_empty : (empty : TreeMap K V).Represents fun _ => none := ⟨valid_new, .nil⟩

theorem Represents.increasing (h : self.Represents map) :
    Increasing KeyedItem.key self.tree.toList := increasing_iff.mpr h.entries.increasing

theorem Represents.descending (h : self.Represents map) (key : MapKeyRef K) :
    Descending (compare key) self.tree.toList :=
  MapEntry.lastKey.descending (aligned_compare key) h.increasing

theorem forward_some (key : K) : compare (⟨some key⟩ : MapKeyRef K) ⟨none⟩ ≠ .lt :=
  forward_compare (none_lt_some key).le

/-- The entries with smaller keys, which a seek to the key passes. -/
theorem Represents.skipped_eq (h : self.Represents map) (key : K) (position : MapKeyRef K) :
    skipped (compare ⟨some key⟩) .left position self.tree.toList =
      self.tree.toList.filter fun entry => decide (entry.key < key) := by
  rw [MapEntry.lastKey.skipped_compare h.increasing]
  simp only [key_lt_some]

/-- A slice to a key, its own entry, and the rest behind it. -/
theorem Represents.slice_take (h : self.Represents map) (key : K) : ∃ sliced left cursor last right,
      (Cursor.new self.tree).slice (compare (⟨some key⟩ : MapKeyRef K)) .left =
          some (sliced, left) ∧
        takeEntry ⟨some key⟩ sliced =
          some (self.tree.toList.find? fun entry => decide (entry.key = key), cursor) ∧
        cursor.suffix = some (last, right) ∧ Valid left ∧ Valid right ∧
        left.toList = self.tree.toList.filter (fun entry => decide (entry.key < key)) ∧
        right.toList = self.tree.toList.filter fun entry => decide (key < entry.key) := by
  obtain ⟨sliced, left, hslice, hleft, hleftItems, hparts⟩ :=
    new_slice h.valid (h.descending ⟨some key⟩) (forward_some key)
      (h.skipped_eq key _) (h.entries.increasing.split_at key)
  have htake : ∃ cursor,
      takeEntry ⟨some key⟩ sliced =
        some (self.tree.toList.find? fun entry => decide (entry.key = key), cursor) ∧
      cursor.Parts self.tree
        (self.tree.toList.filter (fun entry => decide (entry.key < key)) ++
          (self.tree.toList.find? fun entry => decide (entry.key = key)).toList)
        (self.tree.toList.filter fun entry => decide (key < entry.key)) := by
    obtain ⟨cursor, hpass, hpassed⟩ := hparts.pass h.valid
    rw [takeEntry, hparts.endPosition_eq h.valid, bind_some, hparts.item_eq]
    cases hfind : self.tree.toList.find? fun entry => decide (entry.key = key) with
    | some entry =>
      have hkey : entry.key = key := by simpa using List.find?_some hfind
      rw [hfind] at hpass hpassed
      refine ⟨cursor, ?_, hpassed⟩
      simp only [toList_some, List.cons_append, List.head?_cons, bind_some,
        MapEntry.lastKey.positionOf_append]
      rw [if_pos (compare_eq_iff_eq.mpr ((key_eq_some entry key).mpr hkey).symm)]
      simp only [isSome_some, if_true] at hpass
      rw [hpass]
      rfl
    | none =>
      rw [hfind] at hparts
      refine ⟨sliced, ?_, by simpa using hparts⟩
      rw [toList_none, List.nil_append, if_neg]
      intro heq
      have hend := compare_eq_iff_eq.mp heq
      cases hright : (self.tree.toList.filter fun entry => decide (key < entry.key)).head? with
      | none =>
        simp only [hright] at hend
        have hfront : ∀ entry ∈ self.tree.toList.filter fun entry => decide (entry.key < key),
            KeyedItem.key entry < (⟨some key⟩ : MapKey K) := fun entry hentry =>
          (key_lt_some entry key).mpr (of_decide_eq_true (List.mem_filter.mp hentry).2)
        exact absurd hend (MapEntry.lastKey.positionOf_lt (none_lt_some key) hfront).ne'
      | some entry =>
        simp only [hright, MapEntry.lastKey.positionOf_append] at hend
        have hmore := (List.mem_filter.mp (List.mem_of_mem_head? hright)).2
        exact absurd ((key_eq_some entry key).mp hend.symm) (of_decide_eq_true hmore).ne'
  obtain ⟨cursor, htaken, hpassed⟩ := htake
  obtain ⟨last, right, hsuffix, hright, hrightItems⟩ := hpassed.suffix h.valid
  exact ⟨sliced, left, cursor, last, right, hslice, htaken, hsuffix, hleft, hright, hleftItems,
    hrightItems⟩

theorem find_key_eq (entries : List (MapEntry K V)) (key : K) :
    (entries.find? fun entry => decide (KeyedItem.key entry = (⟨some key⟩ : MapKey K))) =
      entries.find? fun entry => decide (entry.key = key) := by
  simp only [key_eq_some]

theorem overwrite_key_eq (entries old : List (MapEntry K V)) :
    overwrite KeyedItem.key entries old = overwrite MapEntry.key entries old :=
  overwrite_congr key_lt_iff entries old

theorem insertOrReplace_represents (h : self.Represents map) (key : K) (value : V) :
    ∃ next, self.insertOrReplace key value = some (map key, next) ∧
      next.Represents (Function.update map key (some value)) := by
  obtain ⟨tree, hrun, hvalid, hitems⟩ :=
    insertOrReplace_spec MapEntry.lastKey h.valid h.increasing ⟨key, value⟩
  refine ⟨⟨tree⟩, ?_, hvalid, ?_⟩
  · have hold := h.entries.find_eq key
    rw [← find_key_eq] at hold
    rw [insertOrReplace, hrun, ← hold]
    rfl
  · rw [hitems, overwrite_key_eq]
    exact h.entries.insert ⟨key, value⟩

theorem insert_eq (self : TreeMap K V) (key : K) (value : V) :
    self.insert key value = (self.insertOrReplace key value).map Prod.snd := by
  rw [insertOrReplace, map_map]
  rfl

section Edits

variable (sort : SliceSort (Edit (MapEntry K V) (MapKey K)))

section

variable (h : self.Represents map)

include h

/-- A batch of pairs with different keys, whatever map they stand for. -/
theorem edit_represents {pairs : List (K × V)} {added : K → Option V}
    (hdistinct : (pairs.map Prod.fst).Nodup)
    (hadded : ∀ key value, added key = some value ↔ (key, value) ∈ pairs) :
    ∃ removed tree, self.tree.edit sort
        (pairs.map fun pair => Edit.insert ⟨pair.1, pair.2⟩) = some (removed, tree) ∧
      (TreeMap.mk tree).Represents fun key => (added key).or (map key) := by
  have hkeys : ((pairs.map fun pair => (⟨pair.1, pair.2⟩ : MapEntry K V)).map
      KeyedItem.key).Nodup := by
    rw [List.map_map]
    have hinjective : Function.Injective fun key : K => (⟨some key⟩ : MapKey K) :=
      fun one two heq => by simpa using heq
    have hmap := (List.nodup_map_iff hinjective).mpr hdistinct
    rwa [List.map_map] at hmap
  obtain ⟨removed, tree, news, hrun, hvalid, hperm, hincreasing, hitems⟩ :=
    edit_spec MapEntry.lastKey h.valid h.increasing sort _ hkeys
  rw [List.map_map] at hrun
  refine ⟨removed, tree, hrun, hvalid, ?_⟩
  have hnews : OpenGpui.Represents MapEntry.key MapEntry.value news added := by
    refine ⟨increasing_iff.mp hincreasing, fun key value => ?_⟩
    rw [hadded]
    constructor
    · intro hmem
      exact ⟨⟨key, value⟩, hperm.mem_iff.mpr (List.mem_map.mpr ⟨_, hmem, rfl⟩), rfl, rfl⟩
    · rintro ⟨entry, hmem, rfl, rfl⟩
      obtain ⟨pair, hpair, rfl⟩ := List.mem_map.mp (hperm.mem_iff.mp hmem)
      exact hpair
  rw [hitems, overwrite_key_eq]
  exact hnews.overwrite h.entries

/-- Extension inserts each pair in turn. -/
theorem extend_represents {pairs : List (K × V)} (hdistinct : (pairs.map Prod.fst).Nodup) :
    ∃ next, self.extend sort pairs = some next ∧ next.Represents (insertPairs map pairs) := by
  have hadded : ∀ key value,
      insertPairs (fun _ => none) pairs key = some value ↔ (key, value) ∈ pairs := by
    intro key value
    rw [insertPairs_eq_some_iff hdistinct]
    simp
  obtain ⟨removed, tree, hrun, hrepresents⟩ := edit_represents sort h hdistinct hadded
  refine ⟨⟨tree⟩, by rw [extend]; simp only [hrun, map_some], ?_⟩
  have hsame : insertPairs map pairs =
      fun key => (insertPairs (fun _ => none) pairs key).or (map key) := by
    funext key
    refine Option.ext fun value => ?_
    rw [or_eq_some_iff, insertPairs_eq_some_iff hdistinct, hadded]
    refine or_congr_right (and_congr_left fun _ => ?_)
    rw [eq_none_iff_forall_not_mem]
    constructor
    · exact fun hother value hmem => hother _ ((hadded key value).mp hmem) rfl
    · rintro hnone ⟨key', value⟩ hmem rfl
      exact hnone value ((hadded _ value).mpr hmem)
  rwa [hsame]

theorem iter_eq : self.iter = some (self.tree.toList.map MapEntry.pair) := by
  rw [iter, SumTrees.iter_eq h.valid, map_some]

theorem Represents.pairs :
    OpenGpui.Represents Prod.fst Prod.snd (self.tree.toList.map MapEntry.pair) map :=
  h.entries.view MapEntry.pair (fun _ => rfl) fun _ => rfl

end

theorem mem_pairs {pairs : List (K × V)} (h : OpenGpui.Represents Prod.fst Prod.snd pairs map)
    (key : K) (value : V) : map key = some value ↔ (key, value) ∈ pairs := by
  rw [h.lookup]
  constructor
  · rintro ⟨pair, hmem, rfl, rfl⟩
    exact hmem
  · exact fun hmem => ⟨_, hmem, rfl, rfl⟩

/-- The entries of the other tree win. -/
theorem insertTree_represents (h : self.Represents map) {other : TreeMap K V}
    {otherMap : K → Option V} (hother : other.Represents otherMap) :
    ∃ next, self.insertTree sort other = some next ∧
      next.Represents fun key => (otherMap key).or (map key) := by
  have hpairs := hother.pairs
  have hdistinct : ((other.tree.toList.map MapEntry.pair).map Prod.fst).Nodup :=
    List.pairwise_map.mpr (hpairs.increasing.imp fun hlt => hlt.ne)
  obtain ⟨removed, tree, hrun, hrepresents⟩ := edit_represents sort h hdistinct (mem_pairs hpairs)
  refine ⟨⟨tree⟩, ?_, hrepresents⟩
  rw [insertTree, iter_eq hother]
  simp only [bind_some, hrun, map_some]

end Edits

theorem remove_represents (h : self.Represents map) (key : K) :
    ∃ next, self.remove key = some (map key, next) ∧
      next.Represents (Function.update map key none) := by
  obtain ⟨sliced, left, cursor, last, right, hslice, htake, hsuffix, hleft, hright, hleftItems,
    hrightItems⟩ := h.slice_take key
  obtain ⟨tree, happend, htree, hitems⟩ := append_spec hleft hright
  refine ⟨⟨tree⟩, ?_, htree, ?_⟩
  · rw [remove]
    simp only [hslice, bind_some, htake, hsuffix, happend, map_some, h.entries.find_eq]
  · rw [hitems, hleftItems, hrightItems, ← h.entries.increasing.filter_ne]
    exact h.entries.erase key

theorem update_represents (h : self.Represents map) (key : K) (f : V → R × V) :
    ∃ next, self.update key f = some ((map key).map fun value => (f value).1, next) ∧
      next.Represents (Function.update map key ((map key).map fun value => (f value).2)) := by
  obtain ⟨sliced, left, cursor, last, right, hslice, htake, hsuffix, hleft, hright, hleftItems,
    hrightItems⟩ := h.slice_take key
  have hold := h.entries.find_eq key
  cases hfind : self.tree.toList.find? fun entry => decide (entry.key = key) with
  | some entry =>
    have hkey : entry.key = key := by simpa using List.find?_some hfind
    rw [hfind] at hold htake
    obtain ⟨pushed, hpush, hpushed, hpushedItems⟩ := push_spec hleft ⟨entry.key, (f entry.value).2⟩
    obtain ⟨tree, happend, htree, hitems⟩ := append_spec hpushed hright
    refine ⟨⟨tree⟩, ?_, htree, ?_⟩
    · rw [update, ← hold]
      simp only [hslice, bind_some, htake, pushUpdated, hpush, hsuffix, happend, map_some]
    · rw [hitems, hpushedItems, hleftItems, hrightItems, ← hold, hkey, List.append_assoc]
      exact h.entries.insert ⟨key, (f entry.value).2⟩
  | none =>
    rw [hfind] at hold htake
    obtain ⟨tree, happend, htree, hitems⟩ := append_spec hleft hright
    refine ⟨⟨tree⟩, ?_, htree, ?_⟩
    · rw [update, ← hold]
      simp only [hslice, bind_some, htake, pushUpdated, hsuffix, happend, map_some, map_none]
    · rw [hitems, hleftItems, hrightItems, ← h.entries.increasing.filter_ne, ← hold]
      exact h.entries.erase key

section Range

variable (target : MapSeekTarget K)

theorem aligned_adaptor : Aligned target.adaptor := by
  rintro ⟨small⟩ ⟨large⟩ hle
  cases small with
  | none => exact ⟨fun hlt => absurd hlt noConfusion, fun _ => rfl⟩
  | some small =>
    cases large with
    | none => exact absurd hle (none_lt_some small).not_ge
    | some large =>
      have hle : small ≤ large := not_lt.mp fun hlt =>
        hle.not_gt (some_lt_some.mpr hlt)
      exact ⟨target.less small large hle, target.greater small large hle⟩

theorem isPast_adaptor (entry : MapEntry K V) :
    isPast target.adaptor .left (KeyedItem.key entry) = !target.atMost entry.key := by
  rw [Bool.eq_iff_iff, isPast_iff, atMost]
  simp [adaptor, KeyedItem.key]

theorem atMost_of_lt (one two : MapEntry K V) (hless : one.key < two.key)
    (htwo : (!target.atMost two.key) = true) : (!target.atMost one.key) = true := by
  rw [atMost, Bool.not_eq_true', decide_eq_false_iff_not, not_not] at htwo ⊢
  exact target.greater one.key two.key hless.le htwo

variable (h : self.Represents map)

include h

/-- The entries in front of a target, and those it is at most the key of. -/
theorem Represents.split_target :
    skipped target.adaptor .left (⟨none⟩ : MapKeyRef K) self.tree.toList =
        self.tree.toList.filter (fun entry => !target.atMost entry.key) ∧
      self.tree.toList = self.tree.toList.filter (fun entry => !target.atMost entry.key) ++
        self.tree.toList.filter fun entry => target.atMost entry.key := by
  have hfront := h.entries.increasing.takeWhile_eq_filter (atMost_of_lt target)
  have hback := h.entries.increasing.dropWhile_eq_filter (atMost_of_lt target)
  simp only [Bool.not_not] at hback
  constructor
  · rw [MapEntry.lastKey.skipped_eq]
    simp only [isPast_adaptor, hfront]
  · rw [← hfront, ← hback, List.takeWhile_append_dropWhile]

theorem removeRange_spec (start stop : MapSeekTarget K) :
    ∃ tree, self.removeRange start stop = some ⟨tree⟩ ∧ Valid tree ∧
      tree.toList = self.tree.toList.filter (fun entry => !start.atMost entry.key) ++
        self.tree.toList.filter fun entry => stop.atMost entry.key := by
  have hdescending : ∀ target : MapSeekTarget K, Descending target.adaptor self.tree.toList :=
    fun target => MapEntry.lastKey.descending (aligned_adaptor target) h.increasing
  obtain ⟨hstart, hstartItems⟩ := h.split_target start
  obtain ⟨hstop, hstopItems⟩ := h.split_target stop
  obtain ⟨sliced, left, hslice, hleft, hleftItems, hparts⟩ := new_slice h.valid
    (hdescending start) noConfusion hstart hstartItems
  obtain ⟨sought, found, hseek, hsought⟩ := seek_parts h.valid hparts.standing.tree_eq
    (hdescending stop) noConfusion hstop hstopItems
  obtain ⟨last, right, hsuffix, hright, hrightItems⟩ := hsought.suffix h.valid
  obtain ⟨tree, happend, htree, hitems⟩ := append_spec hleft hright
  refine ⟨tree, ?_, htree, by rw [hitems, hleftItems, hrightItems]⟩
  rw [removeRange]
  simp only [hslice, bind_some, hseek, hsuffix, happend, map_some]

/-- The keys in the range are gone, and no others. -/
theorem removeRange_represents {start stop : MapSeekTarget K}
    (hordered : ∀ entry ∈ self.tree.toList,
      start.atMost entry.key = true ∨ stop.atMost entry.key = false) :
    ∃ next, self.removeRange start stop = some next ∧
      next.Represents fun key =>
        (map key).filter fun _ => !start.atMost key || stop.atMost key := by
  obtain ⟨tree, hrun, htree, hitems⟩ := removeRange_spec h start stop
  refine ⟨⟨tree⟩, hrun, htree, ?_⟩
  rw [hitems, h.entries.increasing.filter_append_filter (atMost_of_lt start)
    fun entry hentry hboth => ?_]
  · exact h.entries.filter fun _ _ => rfl
  · rcases hordered entry hentry with hstart | hstop
    · simp [hstart] at hboth
    · simp [hstop] at hboth

end Range

theorem retain_represents (h : self.Represents map) (predicate : σ → K → V → Bool × σ) (state : σ) :
    ∃ next map', self.retain predicate state =
        some ((kept predicate state self.tree.toList).1, next) ∧
      OpenGpui.Represents MapEntry.key MapEntry.value
        (kept predicate state self.tree.toList).2 map' ∧ next.Represents map' := by
  obtain ⟨cursor, hnext, hparts⟩ := @new_next _ _ (MapKeyRef K) _ _ _ self.tree h.valid
  obtain ⟨tree, hrun, htree, hitems⟩ := @retainLoop_spec K V σ self.tree h.valid predicate
    (self.tree.toList.length + 1) state cursor .new [] self.tree.toList hparts valid_new
    (lt_succ_self _)
  have hkept : Increasing MapEntry.key (kept predicate state self.tree.toList).2 :=
    h.entries.increasing.sublist (kept_sublist predicate state self.tree.toList)
  refine ⟨⟨tree⟩, _, ?_, .of_increasing hkept, htree, ?_⟩
  · rw [retain, hnext, bind_some, hrun]
    rfl
  · rw [hitems]
    exact .of_increasing hkept

/-! Queries. -/

theorem get_eq (h : self.Represents map) (key : K) : self.get key = map key := by
  have hskip := h.skipped_eq key ⟨none⟩
  have hsplit := h.entries.increasing.split_at key
  have hfind := h.entries.find_eq key
  have hhead := @head_filter_eq_find _ _ _ MapEntry.key self.tree.toList key
  rw [get, ← hfind, ← hhead]
  generalize hright : (self.tree.toList.find? fun entry => decide (entry.key = key)).toList ++
    self.tree.toList.filter (fun entry => decide (key < entry.key)) = right at hsplit
  cases right with
  | nil =>
    rw [List.append_nil] at hsplit
    rw [(lookup_none h.valid (hskip.trans hsplit.symm)).1]
    rfl
  | cons entry back =>
    rw [(lookup_some h.valid (h.descending ⟨some key⟩) hskip hsplit).1]
    simp only [List.head?_cons]
    by_cases hkey : entry.key = key
    · rw [if_pos ((key_eq_some entry key).mpr hkey).symm]
      simp [hkey]
    · rw [if_neg fun heq => hkey ((key_eq_some entry key).mp heq.symm)]
      simp [hkey]

theorem isPast_right (entry : MapEntry K V) (key : K) :
    isPast (compare (⟨some key⟩ : MapKeyRef K)) .right (KeyedItem.key entry) =
      decide (entry.key ≤ key) := by
  have hle : entry.key ≤ key ↔ KeyedItem.key entry ≤ (⟨some key⟩ : MapKeyRef K) := by
    rw [← not_lt, ← not_lt, MapEntry.some_lt_key]
  rw [Bool.eq_iff_iff, isPast_iff, decide_eq_true_iff, hle, le_iff_lt_or_eq]
  constructor
  · rintro (hgt | ⟨heq, _⟩)
    · exact .inl (compare_gt_iff_gt.mp hgt)
    · exact .inr (compare_eq_iff_eq.mp heq).symm
  · rintro (hlt | heq)
    · exact .inl (compare_gt_iff_gt.mpr hlt)
    · exact .inr ⟨compare_eq_iff_eq.mpr heq.symm, rfl⟩

/-- The entry of the greatest key that is not above. -/
theorem closest_spec (h : self.Represents map) (key : K) :
    ∃ answer, self.closest key = some answer ∧ IsClosest map key answer := by
  have hless : ∀ one two : MapEntry K V, one.key < two.key →
      decide (two.key ≤ key) = true → decide (one.key ≤ key) = true :=
    fun one two hlt hpass => decide_eq_true (hlt.le.trans (of_decide_eq_true hpass))
  have hfront := h.entries.increasing.takeWhile_eq_filter hless
  have hskip : skipped (compare (⟨some key⟩ : MapKeyRef K)) .right ⟨none⟩
      self.tree.toList = self.tree.toList.filter fun entry => decide (entry.key ≤ key) := by
    rw [MapEntry.lastKey.skipped_eq]
    simp only [isPast_right, hfront]
  obtain ⟨sought, found, hseek, hparts⟩ := @seek_parts _ _ (MapKeyRef K) _ _ _ self.tree
    (.new self.tree) _ _ _ .right h.valid rfl (h.descending ⟨some key⟩) (forward_some key) hskip
    (by rw [← hfront]; exact List.takeWhile_append_dropWhile.symm)
  refine ⟨_, ?_, h.entries.closest key⟩
  rw [closest, hseek, bind_some, hparts.prev_item h.valid]
  rfl

theorem iterFrom_spec (h : self.Represents map) (key : K) :
    self.iterFrom key = some ((self.tree.toList.filter fun entry => !decide (entry.key < key)).map
        MapEntry.pair) := by
  have hincreasing := h.entries.increasing
  obtain ⟨sought, found, hseek, hparts⟩ := @seek_parts _ _ (MapKeyRef K) _ _ _ self.tree
    (.new self.tree) _ _ _ .left h.valid rfl (h.descending ⟨some key⟩) (forward_some key)
    (h.skipped_eq key _) (hincreasing.split_at key)
  rw [← hincreasing.filter_not_lt] at hparts
  have hlength := List.length_filter_le (fun entry => !decide (entry.key < key)) self.tree.toList
  rw [iterFrom, hseek, bind_some, hparts.collect h.valid (lt_succ_of_le hlength)]
  rfl

end TreeMap

end OpenGpui.SumTrees
