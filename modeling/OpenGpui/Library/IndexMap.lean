/-
Maps that remember insertion order.  A stored key keeps its place when its value
is replaced, a new key goes to the end, and removing a key shifts the later
entries down.
-/
import Mathlib.Data.List.Nodup

namespace OpenGpui

open Option List

universe u v

/-- Distinct keys in insertion order, each with its value. -/
structure IndexMap (κ : Type u) (ν : Type v) where
  entries : List (κ × ν)
  nodup : (entries.map Prod.fst).Nodup

namespace IndexMap

variable {κ : Type u} {ν : Type v}

def empty : IndexMap κ ν := ⟨[], List.nodup_nil⟩

instance : Inhabited (IndexMap κ ν) := ⟨empty⟩

def keys (m : IndexMap κ ν) : List κ := m.entries.map Prod.fst

def values (m : IndexMap κ ν) : List ν := m.entries.map Prod.snd

def len (m : IndexMap κ ν) : Nat := m.entries.length

variable {m : IndexMap κ ν}

theorem ext_entries {n : IndexMap κ ν} (h : m.entries = n.entries) : m = n := by
  cases m
  cases n
  cases h
  rfl

theorem entries_nodup (m : IndexMap κ ν) : m.entries.Nodup := m.nodup.of_map

/-- Keeps the entries the predicate accepts, in their order. -/
def retain (m : IndexMap κ ν) (keep : κ → ν → Bool) : IndexMap κ ν :=
  ⟨m.entries.filter fun entry => keep entry.1 entry.2,
    (List.filter_sublist.map Prod.fst).nodup m.nodup⟩

variable [DecidableEq κ]

/-- The value of the first entry with the key. -/
def lookup (key : κ) : List (κ × ν) → Option ν
  | [] => none
  | entry :: rest => if entry.1 = key then some entry.2 else lookup key rest

/-- Replaces the value of the first entry with the key, or appends one. -/
def upsert (key : κ) (value : ν) : List (κ × ν) → List (κ × ν)
  | [] => [(key, value)]
  | entry :: rest =>
    if entry.1 = key then (key, value) :: rest else entry :: upsert key value rest

theorem mem_keys_upsert (key other : κ) (value : ν) (entries : List (κ × ν)) :
    other ∈ (upsert key value entries).map Prod.fst ↔
      other = key ∨ other ∈ entries.map Prod.fst := by
  induction entries with
  | nil => simp [upsert]
  | cons entry rest ih =>
    by_cases heq : entry.1 = key
    · simp [upsert, heq]
    · rw [upsert, if_neg heq, map_cons, mem_cons, map_cons, mem_cons]
      tauto

theorem nodup_upsert (key : κ) (value : ν) (entries : List (κ × ν))
    (hnodup : (entries.map Prod.fst).Nodup) :
    ((upsert key value entries).map Prod.fst).Nodup := by
  induction entries with
  | nil => simp [upsert]
  | cons entry rest ih =>
    rw [map_cons, nodup_cons] at hnodup
    by_cases heq : entry.1 = key
    · rw [upsert, if_pos heq, map_cons, nodup_cons]
      exact ⟨heq ▸ hnodup.1, hnodup.2⟩
    · rw [upsert, if_neg heq, map_cons, nodup_cons]
      refine ⟨?_, ih hnodup.2⟩
      intro hmem
      rcases (mem_keys_upsert _ _ _ _).mp hmem with hkey | hrest
      · exact heq hkey
      · exact hnodup.1 hrest

def get (m : IndexMap κ ν) (key : κ) : Option ν := lookup key m.entries

def containsKey (m : IndexMap κ ν) (key : κ) : Bool := (m.get key).isSome

def insert (m : IndexMap κ ν) (key : κ) (value : ν) : IndexMap κ ν :=
  ⟨upsert key value m.entries, nodup_upsert key value m.entries m.nodup⟩

/-- Drops a key; the entries after it move down by one. -/
def erase (m : IndexMap κ ν) (key : κ) : IndexMap κ ν :=
  m.retain fun other _ => decide (other ≠ key)

/-- The removed value with the map that is left. -/
def shiftRemove (m : IndexMap κ ν) (key : κ) : Option (ν × IndexMap κ ν) :=
  (m.get key).map fun value => (value, m.erase key)

/-- Changes every value in place. -/
def mapValues (m : IndexMap κ ν) (f : ν → ν) : IndexMap κ ν :=
  ⟨m.entries.map fun entry => (entry.1, f entry.2), by
    rw [List.map_map]
    exact m.nodup⟩

/-- Equality of maps, which ignores the order of the entries. -/
def matchesMap [BEq ν] (m n : IndexMap κ ν) : Bool :=
  m.len == n.len && m.entries.all fun entry => (n.get entry.1).any (entry.2 == ·)

instance [BEq ν] : BEq (IndexMap κ ν) := ⟨matchesMap⟩

theorem lookup_eq_none_iff (key : κ) (entries : List (κ × ν)) :
    lookup key entries = none ↔ key ∉ entries.map Prod.fst := by
  induction entries with
  | nil => simp [lookup]
  | cons entry rest ih =>
    by_cases heq : entry.1 = key
    · simp [lookup, heq]
    · rw [lookup, if_neg heq, ih, map_cons, mem_cons, not_or]
      exact ⟨fun h => ⟨Ne.symm heq, h⟩, fun h => h.2⟩

variable {key : κ} {value : ν} {entries : List (κ × ν)}

theorem lookup_eq_some_iff (hnodup : (entries.map Prod.fst).Nodup) :
    lookup key entries = some value ↔ (key, value) ∈ entries := by
  induction entries with
  | nil => simp [lookup]
  | cons entry rest ih =>
    rw [map_cons, nodup_cons] at hnodup
    by_cases heq : entry.1 = key
    · rw [lookup, if_pos heq, mem_cons]
      constructor
      · intro hvalue
        exact .inl (by rw [← heq, ← some.inj hvalue])
      · rintro (hhead | hrest)
        · rw [← hhead]
        · exact absurd (mem_map_of_mem (f := Prod.fst) hrest) (heq ▸ hnodup.1)
    · rw [lookup, if_neg heq, ih hnodup.2, mem_cons]
      constructor
      · exact .inr
      · rintro (hhead | hrest)
        · exact absurd (congrArg Prod.fst hhead).symm heq
        · exact hrest

/-- A key is stored with a value exactly when the pair is an entry. -/
theorem get_eq_some_iff : m.get key = some value ↔ (key, value) ∈ m.entries :=
  lookup_eq_some_iff m.nodup

theorem containsKey_iff : m.containsKey key = true ↔ ∃ value, m.get key = some value := by
  simp [containsKey, isSome_iff_exists]

theorem containsKey_eq_false_iff : m.containsKey key = false ↔ m.get key = none := by
  simp [containsKey]

theorem mem_keys_iff : key ∈ m.keys ↔ m.containsKey key = true := by
  rw [containsKey_iff]
  constructor
  · intro hmem
    obtain ⟨entry, hentry, rfl⟩ := mem_map.mp hmem
    exact ⟨entry.2, get_eq_some_iff.mpr hentry⟩
  · rintro ⟨value, hget⟩
    exact mem_map.mpr ⟨(key, value), get_eq_some_iff.mp hget, rfl⟩

theorem mem_values_iff : value ∈ m.values ↔ ∃ key, m.get key = some value := by
  constructor
  · intro hmem
    obtain ⟨entry, hentry, rfl⟩ := mem_map.mp hmem
    exact ⟨entry.1, get_eq_some_iff.mpr hentry⟩
  · rintro ⟨key, hget⟩
    exact mem_map.mpr ⟨(key, value), get_eq_some_iff.mp hget, rfl⟩

@[simp] theorem get_empty (key : κ) : (empty : IndexMap κ ν).get key = none := rfl

theorem lookup_upsert (key other : κ) (value : ν) (entries : List (κ × ν)) :
    lookup other (upsert key value entries) =
      if key = other then some value else lookup other entries := by
  induction entries with
  | nil => simp [upsert, lookup]
  | cons entry rest ih =>
    by_cases heq : entry.1 = key
    · rw [upsert, if_pos heq]
      by_cases hother : key = other
      · simp [lookup, hother]
      · have hentry : entry.1 ≠ other := heq ▸ hother
        simp [lookup, hother, hentry]
    · rw [upsert, if_neg heq]
      by_cases hentry : entry.1 = other
      · have hother : key ≠ other := fun h => heq (hentry.trans h.symm)
        simp [lookup, hentry, hother]
      · rw [lookup, if_neg hentry, ih, lookup, if_neg hentry]

@[simp] theorem get_insert (m : IndexMap κ ν) (key other : κ) (value : ν) :
    (m.insert key value).get other = if key = other then some value else m.get other :=
  lookup_upsert key other value m.entries

/-- Writing back what is stored changes nothing. -/
theorem insert_get_self (hget : m.get key = some value) : m.insert key value = m := by
  have hupsert : ∀ entries : List (κ × ν), lookup key entries = some value →
      upsert key value entries = entries := by
    intro entries hlookup
    induction entries with
    | nil => cases hlookup
    | cons entry rest ih =>
      by_cases hentry : entry.1 = key
      · rw [lookup, if_pos hentry] at hlookup
        rw [upsert, if_pos hentry, ← hentry, ← some.inj hlookup]
      · rw [lookup, if_neg hentry] at hlookup
        rw [upsert, if_neg hentry, ih hlookup]
  exact ext_entries (hupsert m.entries hget)

theorem get_retain_eq_some_iff {keep : κ → ν → Bool} :
    (m.retain keep).get key = some value ↔ m.get key = some value ∧ keep key value = true := by
  rw [get_eq_some_iff, get_eq_some_iff]
  exact mem_filter

theorem get_erase_eq_some_iff {other : κ} :
    (m.erase key).get other = some value ↔ m.get other = some value ∧ other ≠ key := by
  rw [erase, get_retain_eq_some_iff, decide_eq_true_iff]

theorem get_retain (m : IndexMap κ ν) (keep : κ → ν → Bool) (key : κ) :
    (m.retain keep).get key = (m.get key).filter (keep key) := by
  ext value
  rw [get_retain_eq_some_iff, filter_eq_some_iff]

theorem get_erase (m : IndexMap κ ν) (key other : κ) :
    (m.erase key).get other = if key = other then none else m.get other := by
  ext value
  rw [get_erase_eq_some_iff]
  by_cases heq : key = other
  · simp [heq]
  · simp [heq, Ne.symm heq]

@[simp] theorem get_mapValues (m : IndexMap κ ν) (f : ν → ν) (key : κ) :
    (m.mapValues f).get key = (m.get key).map f := by
  ext value
  rw [get_eq_some_iff, map_eq_some_iff, mapValues, List.mem_map]
  constructor
  · rintro ⟨entry, hentry, heq⟩
    cases heq
    exact ⟨entry.2, get_eq_some_iff.mpr hentry, rfl⟩
  · rintro ⟨stored, hget, rfl⟩
    exact ⟨(key, stored), get_eq_some_iff.mp hget, rfl⟩

/-- Every value is stored under the key it names. -/
def NamedBy (m : IndexMap κ ν) (name : ν → κ) : Prop :=
  ∀ key value, m.get key = some value → name value = key

variable {name : ν → κ}

theorem NamedBy.get_of_mem_values (hnamed : m.NamedBy name) {value : ν} (hmem : value ∈ m.values) :
    m.get (name value) = some value := by
  obtain ⟨key, hget⟩ := mem_values_iff.mp hmem
  rwa [hnamed key value hget]

theorem NamedBy.insert (hnamed : m.NamedBy name) (value : ν) :
    (m.insert (name value) value).NamedBy name := by
  intro key stored hget
  rw [get_insert] at hget
  by_cases heq : name value = key
  · rw [if_pos heq] at hget
    rw [← some.inj hget, heq]
  · rw [if_neg heq] at hget
    exact hnamed key stored hget

theorem NamedBy.retain (hnamed : m.NamedBy name)
    (keep : κ → ν → Bool) : (m.retain keep).NamedBy name :=
  fun key value hget => hnamed key value (get_retain_eq_some_iff.mp hget).1

section Undo

variable {m n : IndexMap κ ν} {key : κ} {value : ν}

/-- Erasing a key takes back its insertion. -/
theorem get_erase_insert (habsent : m.get key = none)
    (hsame : ∀ other, n.get other = (m.insert key value).get other) (other : κ) :
    (n.erase key).get other = m.get other := by
  rw [get_erase, hsame, get_insert]
  by_cases heq : key = other
  · rw [if_pos heq, ← heq, habsent]
  · rw [if_neg heq, if_neg heq]

/-- Storing the old value takes back its replacement. -/
theorem get_insert_insert {old : ν} (hold : m.get key = some old)
    (hsame : ∀ other, n.get other = (m.insert key value).get other) (other : κ) :
    (n.insert key old).get other = m.get other := by
  rw [get_insert, hsame, get_insert]
  by_cases heq : key = other
  · rw [if_pos heq, ← heq, hold]
  · rw [if_neg heq, if_neg heq]

/-- Storing the old value takes back its removal. -/
theorem get_insert_erase {old : ν} (hold : m.get key = some old)
    (hsame : ∀ other, n.get other = (m.erase key).get other) (other : κ) :
    (n.insert key old).get other = m.get other := by
  rw [get_insert, hsame, get_erase]
  by_cases heq : key = other
  · rw [if_pos heq, ← heq, hold]
  · rw [if_neg heq, if_neg heq]

end Undo

variable {m : IndexMap κ ν} {n : IndexMap κ ν}

section

variable (hsame : ∀ key, m.get key = n.get key)

include hsame

/-- Maps with the same lookups hold the same entries. -/
theorem entries_perm_of_get : m.entries.Perm n.entries := by
  rw [perm_ext_iff_of_nodup (entries_nodup m) (entries_nodup n)]
  intro entry
  rw [← get_eq_some_iff, ← get_eq_some_iff, hsame]

theorem len_eq_of_get : m.len = n.len := (entries_perm_of_get hsame).length_eq

/-- Maps with the same lookups are equal when one of them is equal to itself. -/
theorem beq_of_get [BEq ν] (hself : (n == n) = true) : (m == n) = true := by
  change matchesMap n n = true at hself
  change matchesMap m n = true
  rw [matchesMap, Bool.and_eq_true, List.all_eq_true] at hself ⊢
  refine ⟨beq_iff_eq.mpr (len_eq_of_get hsame), ?_⟩
  intro entry hentry
  exact hself.2 entry ((entries_perm_of_get hsame).mem_iff.mp hentry)

end

variable {f g : ν → ν}

theorem upsert_map {key : κ} {old : ν}
    (hold : lookup key entries = some old) (hnodup : (entries.map Prod.fst).Nodup)
    (hothers : ∀ entry ∈ entries, entry.1 ≠ key → f entry.2 = g entry.2) :
    upsert key (g old) (entries.map fun entry => (entry.1, f entry.2)) =
      entries.map fun entry => (entry.1, g entry.2) := by
  induction entries with
  | nil => cases hold
  | cons entry rest ih =>
    rw [map_cons, nodup_cons] at hnodup
    obtain ⟨hentry, hrest⟩ := forall_mem_cons.mp hothers
    rw [map_cons, map_cons, upsert]
    by_cases heq : entry.1 = key
    · rw [lookup, if_pos heq, some.injEq] at hold
      rw [if_pos heq, ← hold, heq]
      congr 1
      refine map_congr_left fun other hmem => ?_
      have hne : other.1 ≠ key := fun hsame =>
        hnodup.1 (mem_map.mpr ⟨other, hmem, hsame.trans heq.symm⟩)
      rw [hrest other hmem hne]
    · rw [lookup, if_neg heq] at hold
      rw [if_neg heq, hentry heq, ih hold hnodup.2 hrest]

/-- Writing under one key what a map of all values would put there. -/
theorem insert_mapValues {key : κ} {old : ν} (hold : m.get key = some old)
    (hothers : ∀ other value, m.get other = some value → other ≠ key → f value = g value) :
    (m.mapValues f).insert key (g old) = m.mapValues g :=
  ext_entries (upsert_map hold m.nodup fun entry hmem =>
    hothers entry.1 entry.2 (get_eq_some_iff.mpr hmem))

end IndexMap

end OpenGpui
