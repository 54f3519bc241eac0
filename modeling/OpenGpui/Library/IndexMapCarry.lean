/-
Carrying a map over to another one: what the target lacks is dropped and what is new or not
equal to the value before is stored.  Values that compare equal stay, and a value need not be
equal to itself, so maps agree up to values that are the same or compare equal.
-/
import OpenGpui.Library.IndexMap
import Mathlib.Data.List.Perm.Subperm

namespace OpenGpui.IndexMap

open Option List

universe u v

variable {κ : Type u} {ν : Type v}

theorem retain_retain (m : IndexMap κ ν) (first second : κ → ν → Bool) :
    (m.retain first).retain second =
      m.retain fun key value => first key value && second key value := by
  apply ext_entries
  change (m.entries.filter _).filter _ = m.entries.filter _
  rw [List.filter_filter]
  congr 1
  funext entry
  exact Bool.and_comm _ _

variable [DecidableEq κ]

/-- Stores entries one after another. -/
def insertAll (m : IndexMap κ ν) (entries : List (κ × ν)) : IndexMap κ ν :=
  entries.foldl (fun m entry => m.insert entry.1 entry.2) m

variable {entries : List (κ × ν)}

theorem get_insertAll (hnodup : (entries.map Prod.fst).Nodup) (m : IndexMap κ ν) (key : κ) :
    (m.insertAll entries).get key = (lookup key entries).or (m.get key) := by
  induction entries generalizing m with
  | nil => rfl
  | cons entry rest ih =>
    rw [map_cons, nodup_cons] at hnodup
    have hnext := ih hnodup.2 (m.insert entry.1 entry.2)
    rw [insertAll, foldl_cons, ← insertAll, hnext, get_insert, lookup]
    by_cases heq : entry.1 = key
    · have habsent : lookup key rest = none :=
        (lookup_eq_none_iff key rest).mpr (heq ▸ hnodup.1)
      rw [if_pos heq, if_pos heq, habsent]
      rfl
    · rw [if_neg heq, if_neg heq]

theorem upsert_of_not_mem {key : κ} {value : ν} (habsent : key ∉ entries.map Prod.fst) :
    upsert key value entries = entries ++ [(key, value)] := by
  induction entries with
  | nil => rfl
  | cons entry rest ih =>
    rw [map_cons, mem_cons, not_or] at habsent
    rw [upsert, if_neg (Ne.symm habsent.1), ih habsent.2, cons_append]

variable {m : IndexMap κ ν}

/-- New entries are appended in their order. -/
theorem insertAll_entries (hnodup : ((m.entries ++ entries).map Prod.fst).Nodup) :
    (m.insertAll entries).entries = m.entries ++ entries := by
  induction entries generalizing m with
  | nil => exact (append_nil _).symm
  | cons entry rest ih =>
    have habsent : entry.1 ∉ m.entries.map Prod.fst := by
      intro hmem
      rw [map_append] at hnodup
      exact (disjoint_of_nodup_append hnodup) hmem mem_cons_self
    have hinsert : (m.insert entry.1 entry.2).entries = m.entries ++ [entry] :=
      upsert_of_not_mem habsent
    have hnext := @ih (m.insert entry.1 entry.2) (by
      rw [hinsert, append_assoc]
      exact hnodup)
    rw [insertAll, foldl_cons, ← insertAll, hnext, hinsert, append_assoc]
    rfl

theorem insertAll_empty (m : IndexMap κ ν) : empty.insertAll m.entries = m :=
  ext_entries (insertAll_entries m.nodup)

theorem insertAll_eq_foldl_name {name : ν → κ}
    (hentries : ∀ entry ∈ entries, name entry.2 = entry.1) :
    entries.foldl (fun m entry => m.insert (name entry.2) entry.2) m = m.insertAll entries := by
  apply foldl_ext
  intro store entry hentry
  rw [hentries entry hentry]

/-- Drops keys one after another. -/
def eraseAll (m : IndexMap κ ν) (keys : List κ) : IndexMap κ ν := keys.foldl erase m

theorem get_eraseAll_eq_some_iff {keys : List κ} {key : κ} {value : ν} :
    (m.eraseAll keys).get key = some value ↔ m.get key = some value ∧ key ∉ keys := by
  induction keys generalizing m with
  | nil => simp [eraseAll]
  | cons dropped rest ih =>
    have hnext := @ih (m.erase dropped)
    rw [eraseAll, foldl_cons, ← eraseAll, hnext, get_erase_eq_some_iff, mem_cons, not_or, and_assoc]

/-- Maps are equal when they have the same keys and equal values. -/
theorem beq_iff [BEq ν] {n : IndexMap κ ν} :
    (m == n) = true ↔ (∀ key, m.containsKey key = n.containsKey key) ∧
      ∀ key left right, m.get key = some left → n.get key = some right →
        (left == right) = true := by
  have hunfold : (m == n) = true ↔ m.len = n.len ∧
      ∀ entry ∈ m.entries, ∃ right, n.get entry.1 = some right ∧ (entry.2 == right) = true := by
    change matchesMap m n = true ↔ _
    rw [matchesMap, Bool.and_eq_true, beq_iff_eq, List.all_eq_true]
    simp only [any_eq_true_iff_get, isSome_iff_exists]
    constructor
    · rintro ⟨hlen, hall⟩
      refine ⟨hlen, fun entry hentry => ?_⟩
      obtain ⟨⟨right, hright⟩, heq⟩ := hall entry hentry
      simp only [hright, get_some] at heq
      exact ⟨right, hright, heq⟩
    · rintro ⟨hlen, hall⟩
      refine ⟨hlen, fun entry hentry => ?_⟩
      obtain ⟨right, hright, heq⟩ := hall entry hentry
      simp only [hright, get_some]
      exact ⟨⟨right, rfl⟩, heq⟩
  have hlen : ∀ map : IndexMap κ ν, map.len = map.keys.length := fun map => by
    rw [len, keys, List.length_map]
  have hnodup : ∀ map : IndexMap κ ν, map.keys.Nodup := fun map => map.nodup
  rw [hunfold]
  constructor
  · rintro ⟨hcount, hall⟩
    have hsubset : m.keys ⊆ n.keys := by
      intro key hkey
      rw [mem_keys_iff, containsKey_iff] at hkey ⊢
      obtain ⟨value, hvalue⟩ := hkey
      obtain ⟨right, hright, _⟩ := hall (key, value) (get_eq_some_iff.mp hvalue)
      exact ⟨right, hright⟩
    have hperm : m.keys.Perm n.keys := by
      apply (List.subperm_of_subset (hnodup m) hsubset).perm_of_length_le
      rw [← hlen, ← hlen]
      exact Nat.le_of_eq hcount.symm
    refine ⟨fun key => ?_, ?_⟩
    · rw [Bool.eq_iff_iff, ← mem_keys_iff, ← mem_keys_iff]
      exact hperm.mem_iff
    · intro key left right hleft hright
      obtain ⟨other, hother, heq⟩ := hall (key, left) (get_eq_some_iff.mp hleft)
      rw [hright, some.injEq] at hother
      exact hother ▸ heq
  · rintro ⟨hkeys, hvalues⟩
    constructor
    · have hperm : m.keys.Perm n.keys := by
        refine (List.perm_ext_iff_of_nodup (hnodup m) (hnodup n)).mpr fun key => ?_
        rw [mem_keys_iff, mem_keys_iff, hkeys]
      rw [hlen, hlen]
      exact hperm.length_eq
    · rintro ⟨key, left⟩ hentry
      have hleft : m.get key = some left := get_eq_some_iff.mpr hentry
      obtain ⟨right, hright⟩ : ∃ right, n.get key = some right := by
        rw [← containsKey_iff, ← hkeys, containsKey_iff]
        exact ⟨left, hleft⟩
      exact ⟨right, hright, hvalues key left right hleft hright⟩

variable [BEq ν]

/-- The entries of the target that are new or not equal to the ones before. -/
def changes (previous target : IndexMap κ ν) : IndexMap κ ν :=
  target.retain fun key value => (previous.get key).all (· != value)

/-- Drops the keys the target lacks and stores its changes. -/
def carryOver (previous target : IndexMap κ ν) : IndexMap κ ν :=
  (previous.retain fun key _ => target.containsKey key).insertAll (previous.changes target).entries

variable {previous target : IndexMap κ ν} {key : κ} {value : ν}

theorem get_changes_eq_some_iff : (previous.changes target).get key = some value ↔
    target.get key = some value ∧ ∀ old, previous.get key = some old → (old == value) = false := by
  rw [changes, get_retain_eq_some_iff]
  cases previous.get key <;> simp [bne]

theorem get_carryOver (previous target : IndexMap κ ν) (key : κ) :
    (previous.carryOver target).get key = ((previous.changes target).get key).or
      ((previous.retain fun key _ => target.containsKey key).get key) :=
  get_insertAll (previous.changes target).nodup _ key

/-- A carried value is a change, or a value that stayed. -/
theorem get_carryOver_eq_some_iff : (previous.carryOver target).get key = some value ↔
    (previous.changes target).get key = some value ∨
      previous.get key = some value ∧ ∃ next, target.get key = some next ∧
        (value == next) = true := by
  rw [get_carryOver]
  cases hchange : (previous.changes target).get key with
  | some next =>
    constructor
    · exact .inl
    · rintro (heq | ⟨hold, other, hother, heq⟩)
      · exact heq
      · obtain ⟨hnext, hdiffers⟩ := get_changes_eq_some_iff.mp hchange
        rw [hother, some.injEq] at hnext
        subst hnext
        rw [hdiffers value hold] at heq
        exact absurd heq Bool.false_ne_true
  | none =>
    rw [none_or, get_retain_eq_some_iff, containsKey_iff]
    constructor
    · rintro ⟨hold, next, hnext⟩
      refine .inr ⟨hold, next, hnext, ?_⟩
      by_contra hne
      have hchanged : (previous.changes target).get key = some next := by
        refine get_changes_eq_some_iff.mpr ⟨hnext, fun old hstored => ?_⟩
        rw [hold] at hstored
        cases hstored
        exact Bool.eq_false_iff.mpr hne
      rw [hchange] at hchanged
      exact absurd hchanged (by simp)
    · rintro (heq | ⟨hold, next, hnext, _⟩)
      · exact absurd heq (by simp)
      · exact ⟨hold, next, hnext⟩

/-- What the target stores under a key, and what is carried there. -/
theorem exists_carryOver (previous : IndexMap κ ν) {next : ν} (hnext : target.get key = some next) :
    ∃ carried, (previous.carryOver target).get key = some carried ∧
      (carried = next ∨ previous.get key = some carried ∧ (carried == next) = true) := by
  cases hchange : (previous.changes target).get key with
  | some other =>
    have hother := (get_changes_eq_some_iff.mp hchange).1
    rw [hnext, some.injEq] at hother
    exact ⟨other, get_carryOver_eq_some_iff.mpr (.inl hchange), .inl hother.symm⟩
  | none =>
    obtain ⟨old, hold, heq⟩ : ∃ old, previous.get key = some old ∧ (old == next) = true := by
      by_contra hnot
      have hchanged : (previous.changes target).get key = some next := by
        refine get_changes_eq_some_iff.mpr ⟨hnext, fun old hold => ?_⟩
        by_contra heq
        exact hnot ⟨old, hold, (Bool.not_eq_false _).mp heq⟩
      rw [hchange] at hchanged
      exact absurd hchanged (by simp)
    exact ⟨old, get_carryOver_eq_some_iff.mpr (.inr ⟨hold, next, hnext, heq⟩), .inr ⟨hold, heq⟩⟩

theorem containsKey_carryOver (previous target : IndexMap κ ν) (key : κ) :
    (previous.carryOver target).containsKey key = target.containsKey key := by
  rw [Bool.eq_iff_iff, containsKey_iff, containsKey_iff]
  constructor
  · rintro ⟨value, hvalue⟩
    rcases get_carryOver_eq_some_iff.mp hvalue with hchange | ⟨_, next, hnext, _⟩
    · exact ⟨value, (get_changes_eq_some_iff.mp hchange).1⟩
    · exact ⟨next, hnext⟩
  · rintro ⟨next, hnext⟩
    obtain ⟨carried, hcarried, _⟩ := exists_carryOver previous hnext
    exact ⟨carried, hcarried⟩

/-- Carrying over leads to the target when each change is equal to itself. -/
theorem carryOver_beq_iff {carried : IndexMap κ ν}
    (hcarried : ∀ key, carried.get key = (previous.carryOver target).get key) :
    (carried == target) = true ↔
      ∀ key value, (previous.changes target).get key = some value → (value == value) = true := by
  rw [beq_iff]
  constructor
  · rintro ⟨_, hvalues⟩ key value hchange
    refine hvalues key value value ?_ (get_changes_eq_some_iff.mp hchange).1
    rw [hcarried, get_carryOver_eq_some_iff]
    exact .inl hchange
  · intro hself
    constructor
    · intro key
      rw [containsKey, hcarried, ← containsKey, containsKey_carryOver]
    · intro key left right hleft hright
      rw [hcarried, get_carryOver_eq_some_iff] at hleft
      rcases hleft with hchange | ⟨_, next, hnext, heq⟩
      · have hnext := (get_changes_eq_some_iff.mp hchange).1
        rw [hright, some.injEq] at hnext
        exact hnext ▸ hself key left hchange
      · rw [hright, some.injEq] at hnext
        exact hnext ▸ heq

end OpenGpui.IndexMap

namespace OpenGpui

universe u v

/-- The same value, or one that compares equal. -/
def Alike {ν : Type v} [BEq ν] (first second : ν) : Prop :=
  first = second ∨ (first == second) = true

namespace Alike

variable {ν : Type v} [BEq ν] {first second third : ν}

theorem refl (value : ν) : Alike value value := .inl rfl

theorem symm [PartialEquivBEq ν] (h : Alike first second) : Alike second first := by
  rcases h with rfl | heq
  · exact refl _
  · exact .inr (PartialEquivBEq.symm heq)

theorem trans [PartialEquivBEq ν] (h : Alike first second) (hnext : Alike second third) :
    Alike first third := by
  rcases h with rfl | heq
  · exact hnext
  · rcases hnext with rfl | hother
    · exact .inr heq
    · exact .inr (PartialEquivBEq.trans heq hother)

/-- A value that is like one that is equal to itself is equal to it. -/
theorem beq (h : Alike first second) (hself : (second == second) = true) :
    (first == second) = true := by
  rcases h with rfl | heq
  · exact hself
  · exact heq

end Alike

/-- A type whose equality is that of its image is as well behaved. -/
theorem partialEquivBEq_of_map {α : Type u} {β : Type v} [BEq α] [BEq β] [PartialEquivBEq β]
    (f : α → β) (heq : ∀ first second : α, (first == second) = (f first == f second)) :
    PartialEquivBEq α where
  symm h := by
    rw [heq] at h ⊢
    exact PartialEquivBEq.symm h
  trans h hnext := by
    rw [heq] at h hnext ⊢
    exact PartialEquivBEq.trans h hnext

instance partialEquivBEqList {α : Type u} [BEq α] [PartialEquivBEq α] :
    PartialEquivBEq (List α) where
  symm := by
    intro first second h
    induction first generalizing second with
    | nil =>
      cases second with
      | nil => rfl
      | cons head tail => exact absurd h (by simp)
    | cons item rest ih =>
      cases second with
      | nil => exact absurd h (by simp)
      | cons head tail =>
        rw [List.cons_beq_cons, Bool.and_eq_true] at h ⊢
        exact ⟨PartialEquivBEq.symm h.1, ih h.2⟩
  trans := by
    intro first second third h hnext
    induction first generalizing second third with
    | nil =>
      cases second with
      | nil => exact hnext
      | cons head tail => exact absurd h (by simp)
    | cons item rest ih =>
      cases second with
      | nil => exact absurd h (by simp)
      | cons head tail =>
        cases third with
        | nil => exact absurd hnext (by simp)
        | cons last others =>
          rw [List.cons_beq_cons, Bool.and_eq_true] at h hnext ⊢
          exact ⟨PartialEquivBEq.trans h.1 hnext.1, ih h.2 hnext.2⟩

instance partialEquivBEqProd {α : Type u} {β : Type v} [BEq α] [BEq β] [PartialEquivBEq α]
    [PartialEquivBEq β] : PartialEquivBEq (α × β) where
  symm := by
    rintro ⟨first, second⟩ ⟨other, another⟩ h
    have hboth : (first == other && second == another) = true := h
    have hgoal : (other == first && another == second) = true := by
      rw [Bool.and_eq_true] at hboth ⊢
      exact ⟨PartialEquivBEq.symm hboth.1, PartialEquivBEq.symm hboth.2⟩
    exact hgoal
  trans := by
    rintro ⟨first, second⟩ ⟨other, another⟩ ⟨last, final⟩ h hnext
    have hboth : (first == other && second == another) = true := h
    have hlater : (other == last && another == final) = true := hnext
    have hgoal : (first == last && second == final) = true := by
      rw [Bool.and_eq_true] at hboth hlater ⊢
      exact ⟨PartialEquivBEq.trans hboth.1 hlater.1, PartialEquivBEq.trans hboth.2 hlater.2⟩
    exact hgoal

namespace IndexMap

variable {κ : Type u} {ν : Type v} [DecidableEq κ] [BEq ν]

instance [PartialEquivBEq ν] : PartialEquivBEq (IndexMap κ ν) where
  symm := by
    intro m n h
    rw [beq_iff] at h ⊢
    refine ⟨fun key => (h.1 key).symm, fun key left right hleft hright => ?_⟩
    exact PartialEquivBEq.symm (h.2 key right left hright hleft)
  trans := by
    intro m n o h hnext
    rw [beq_iff] at h hnext ⊢
    refine ⟨fun key => (h.1 key).trans (hnext.1 key), fun key left right hleft hright => ?_⟩
    obtain ⟨middle, hmiddle⟩ : ∃ middle, n.get key = some middle := by
      rw [← containsKey_iff, ← h.1, containsKey_iff]
      exact ⟨left, hleft⟩
    exact PartialEquivBEq.trans (h.2 key left middle hleft hmiddle)
      (hnext.2 key middle right hmiddle hright)

/-- The maps have the same keys and like values. -/
def AlikeMaps (m n : IndexMap κ ν) : Prop :=
  (∀ key, m.containsKey key = n.containsKey key) ∧
    ∀ key left right, m.get key = some left → n.get key = some right → Alike left right

namespace AlikeMaps

variable {m n o : IndexMap κ ν}

theorem of_get (hsame : ∀ key, m.get key = n.get key) : AlikeMaps m n := by
  refine ⟨fun key => by rw [containsKey, containsKey, hsame], ?_⟩
  intro key left right hleft hright
  rw [hsame, hright, Option.some.injEq] at hleft
  exact .inl hleft.symm

theorem refl (m : IndexMap κ ν) : AlikeMaps m m := of_get fun _ => rfl

section

variable (h : AlikeMaps m n)

include h

theorem exists_right {key : κ} {left : ν} (hleft : m.get key = some left) :
    ∃ right, n.get key = some right ∧ Alike left right := by
  obtain ⟨right, hright⟩ : ∃ right, n.get key = some right := by
    rw [← containsKey_iff, ← h.1, containsKey_iff]
    exact ⟨left, hleft⟩
  exact ⟨right, hright, h.2 key left right hleft hright⟩

theorem get_none {key : κ} (hnone : m.get key = none) : n.get key = none := by
  rw [← containsKey_eq_false_iff] at hnone ⊢
  exact (h.1 key).symm.trans hnone

theorem symm [PartialEquivBEq ν] : AlikeMaps n m :=
  ⟨fun key => (h.1 key).symm,
    fun key left right hleft hright => (h.2 key right left hright hleft).symm⟩

theorem trans [PartialEquivBEq ν] (hnext : AlikeMaps n o) : AlikeMaps m o := by
  refine ⟨fun key => (h.1 key).trans (hnext.1 key), fun key left right hleft hright => ?_⟩
  obtain ⟨middle, hmiddle, hfirst⟩ := h.exists_right hleft
  exact hfirst.trans (hnext.2 key middle right hmiddle hright)

theorem insert (key : κ) (value : ν) : AlikeMaps (m.insert key value) (n.insert key value) := by
  constructor
  · intro other
    rw [containsKey, containsKey, get_insert, get_insert]
    by_cases heq : key = other
    · rw [if_pos heq, if_pos heq]
    · rw [if_neg heq, if_neg heq]
      exact h.1 other
  · intro other left right hleft hright
    rw [get_insert] at hleft hright
    by_cases heq : key = other
    · rw [if_pos heq, Option.some.injEq] at hleft hright
      exact .inl (hleft.symm.trans hright)
    · rw [if_neg heq] at hleft hright
      exact h.2 other left right hleft hright

/-- Entries are kept alike when the test does not tell like values apart. -/
theorem retain {keep : κ → ν → Bool}
    (hkeep : ∀ key left right, Alike left right → keep key left = keep key right) :
    AlikeMaps (m.retain keep) (n.retain keep) := by
  constructor
  · intro key
    rw [Bool.eq_iff_iff, containsKey_iff, containsKey_iff]
    constructor
    · rintro ⟨left, hleft⟩
      obtain ⟨hget, hkept⟩ := get_retain_eq_some_iff.mp hleft
      obtain ⟨right, hright, halike⟩ := h.exists_right hget
      rw [hkeep key left right halike] at hkept
      exact ⟨right, get_retain_eq_some_iff.mpr ⟨hright, hkept⟩⟩
    · rintro ⟨right, hright⟩
      obtain ⟨hget, hkept⟩ := get_retain_eq_some_iff.mp hright
      obtain ⟨left, hleft⟩ : ∃ left, m.get key = some left := by
        rw [← containsKey_iff, h.1, containsKey_iff]
        exact ⟨right, hget⟩
      rw [← hkeep key left right (h.2 key left right hleft hget)] at hkept
      exact ⟨left, get_retain_eq_some_iff.mpr ⟨hleft, hkept⟩⟩
  · intro key left right hleft hright
    exact h.2 key left right (get_retain_eq_some_iff.mp hleft).1
      (get_retain_eq_some_iff.mp hright).1

theorem erase (key : κ) : AlikeMaps (m.erase key) (n.erase key) := h.retain fun _ _ _ _ => rfl

theorem beq (hself : (n == n) = true) : (m == n) = true := by
  rw [beq_iff] at hself ⊢
  refine ⟨h.1, fun key left right hleft hright => ?_⟩
  exact (h.2 key left right hleft hright).beq (hself.2 key right right hright hright)

end

/-- What is carried over is like the target. -/
theorem carryOver {carried previous target : IndexMap κ ν}
    (hcarried : ∀ key, carried.get key = (previous.carryOver target).get key) :
    AlikeMaps carried target := by
  constructor
  · intro key
    rw [containsKey, hcarried, ← containsKey, containsKey_carryOver]
  · intro key left right hleft hright
    rw [hcarried, get_carryOver_eq_some_iff] at hleft
    rcases hleft with hchange | ⟨_, next, hnext, heq⟩
    · have hnext := (get_changes_eq_some_iff.mp hchange).1
      rw [hright, Option.some.injEq] at hnext
      exact .inl hnext.symm
    · rw [hright, Option.some.injEq] at hnext
      exact .inr (hnext ▸ heq)

end AlikeMaps

end IndexMap

end OpenGpui
