/-
Finite maps and slot maps.  `KeyMap` is the standard extensional ordered map,
so equality of maps is equality of their lookups and iteration follows the key
order; `SlotMap` adds the allocation discipline of a generational arena: a key
that has been handed out is never handed out again.
-/
import Mathlib.Data.List.Perm.Subperm

namespace OpenGpui

open Option List

universe u v

section Lists

variable {α : Type u} {β : Type v} {entries : List α} {f : α → List β}

theorem flatMap_length_le {entry : α}
    (h : entry ∈ entries) : (f entry).length ≤ (entries.flatMap f).length := by
  induction entries with
  | nil => cases h
  | cons head tail ih =>
    rw [flatMap_cons, length_append]
    rcases mem_cons.mp h with rfl | htail
    · omega
    · have hle := ih htail
      omega

/-- Parts of a list without repetition have no element in common. -/
theorem eq_of_mem_flatMap_nodup
    (hnodup : (entries.flatMap f).Nodup) {first second : α} (hfirst : first ∈ entries)
    (hsecond : second ∈ entries) {value : β} (hvalue : value ∈ f first)
    (hvalue' : value ∈ f second) : first = second := by
  obtain ⟨before, after, rfl⟩ := append_of_mem hfirst
  rw [flatMap_append, flatMap_cons, nodup_append, nodup_append] at hnodup
  obtain ⟨_, ⟨_, _, hafter⟩, hbefore⟩ := hnodup
  rcases mem_append.mp hsecond with hin | hin
  · exact (hbefore value (mem_flatMap.mpr ⟨second, hin, hvalue'⟩) value
      (mem_append_left _ hvalue) rfl).elim
  · rcases mem_cons.mp hin with rfl | hin
    · rfl
    · exact (hafter value hvalue value (mem_flatMap.mpr ⟨second, hin, hvalue'⟩) rfl).elim

theorem exists_two_of_length (h : 2 ≤ entries.length) :
    ∃ first second rest, entries = first :: second :: rest := by
  cases entries with
  | nil => simp at h
  | cons first tail =>
    cases tail with
    | nil => simp at h
    | cons second rest => exact ⟨first, second, rest, rfl⟩

variable {R : α → β → Prop} {outs : List β}

theorem exists_right_of_forall₂
    (h : List.Forall₂ R entries outs) {entry : α} (hentry : entry ∈ entries) :
    ∃ out ∈ outs, R entry out := by
  induction h with
  | nil => cases hentry
  | cons hfirst _ ih =>
    rcases mem_cons.mp hentry with rfl | hrest
    · exact ⟨_, mem_cons_self, hfirst⟩
    · obtain ⟨out, hout, hrelated⟩ := ih hrest
      exact ⟨out, mem_cons_of_mem _ hout, hrelated⟩

theorem exists_left_of_forall₂ (h : List.Forall₂ R entries outs) {out : β} (hout : out ∈ outs) :
    ∃ entry ∈ entries, R entry out :=
  exists_right_of_forall₂ h.flip hout

theorem map_eq_of_forall₂ {f : β → α} (hf : ∀ {entry out}, R entry out →
    f out = entry) (h : List.Forall₂ R entries outs) :
    outs.map f = entries := by
  induction h with
  | nil => rfl
  | cons hfirst _ ih => rw [map_cons, hf hfirst, ih]

/-- Parts without repetition that only entries of one key share, over distinct keys. -/
theorem nodup_flatMap_of_keys {γ κ : Type*} {key : α → κ} {part : α → List γ} (hkeys :
    (entries.map key).Nodup) (hparts : ∀ entry ∈ entries, (part entry).Nodup)
    (hapart : ∀ first ∈ entries, ∀ second ∈ entries, ∀ value ∈ part first,
      value ∈ part second → key first = key second) :
    (entries.flatMap part).Nodup := by
  induction entries with
  | nil => exact nodup_nil
  | cons first rest ih =>
    rw [map_cons, nodup_cons] at hkeys
    rw [flatMap_cons, nodup_append]
    refine ⟨hparts first mem_cons_self, ?_, ?_⟩
    · exact ih hkeys.2 (fun entry hentry => hparts entry (mem_cons_of_mem _ hentry))
        fun one hone two htwo => hapart one (mem_cons_of_mem _ hone) two (mem_cons_of_mem _ htwo)
    · rintro value hvalue other hother rfl
      obtain ⟨second, hsecond, hin⟩ := mem_flatMap.mp hother
      have hsame := hapart first mem_cons_self second (mem_cons_of_mem _ hsecond) value hvalue hin
      exact hkeys.1 (hsame ▸ mem_map_of_mem hsecond)

end Lists

/-- A finite map with extensional equality and key-ordered iteration. -/
abbrev KeyMap (κ : Type u) (ν : Type v) [Ord κ] := Std.ExtTreeMap κ ν compare

namespace KeyMap

variable {κ : Type u} {ν : Type v} [Ord κ] [Std.TransOrd κ] (m : KeyMap κ ν) (k : κ)

theorem mem_iff_get : k ∈ m ↔ ∃ v, m[k]? = some v := by
  rw [Std.ExtTreeMap.mem_iff_isSome_getElem?, isSome_iff_exists]

variable [Std.LawfulEqOrd κ]

theorem mem_keys_iff_get : k ∈ m.keys ↔ ∃ v, m[k]? = some v := by
  rw [Std.ExtTreeMap.mem_keys, mem_iff_get]

theorem mem_toList_iff_get (v : ν) : (k, v) ∈ m.toList ↔ m[k]? = some v :=
  Std.ExtTreeMap.mem_toList_iff_getElem?_eq_some

theorem keys_nodup : m.keys.Nodup := by
  have hordered : m.keys.Pairwise fun a b => compare a b = .lt := Std.ExtTreeMap.ordered_keys
  apply hordered.imp
  intro a b hlt heq
  subst heq
  simp at hlt

theorem ext_get {m n : KeyMap κ ν} (h : ∀ k : κ, m[k]? = n[k]?) : m = n :=
  Std.ExtTreeMap.ext_getElem? h

theorem get_filter (p : κ → ν → Bool) (a : κ) : (m.filter p)[a]? = m[a]?.filter (p a) := by
  simp only [Std.ExtTreeMap.getElem?_filter, Std.ExtTreeMap.getKey_eq, pfilter_eq_filter]

variable [DecidableEq κ] (k a : κ)

theorem get_insert (v : ν) : (m.insert k v)[a]? = if k = a then some v else m[a]? := by
  simp [Std.ExtTreeMap.getElem?_insert]

theorem get_erase : (m.erase k)[a]? = if k = a then none else m[a]? := by
  simp [Std.ExtTreeMap.getElem?_erase]

theorem get_modify (f : ν → ν) : (m.modify k f)[a]? = if k = a then m[a]?.map f else m[a]? := by
  simp only [Std.ExtTreeMap.getElem?_modify, Std.LawfulEqCmp.compare_eq_iff_eq]
  split <;> simp_all

theorem insert_get_self {m : KeyMap κ ν} {k : κ} {v : ν} (h : m[k]? = some v) :
    m.insert k v = m := by
  apply ext_get
  intro a
  rw [get_insert]
  split
  · next heq => rw [← heq, h]
  · rfl

/-- The map holding exactly the entries that the list assigns last. -/
def ofPairs (pairs : List (κ × ν)) : KeyMap κ ν :=
  pairs.foldl (fun m pair => m.insert pair.1 pair.2) ∅

end KeyMap

/-- A generational arena.  Keys are handed out in order and never reused, which
is what the field `fresh` records. -/
structure SlotMap (ν : Type v) where
  entries : KeyMap Nat ν
  next : Nat
  fresh : ∀ key ∈ entries, key < next

namespace SlotMap

variable {ν : Type v}

def empty : SlotMap ν := ⟨∅, 0, fun key hkey => by simp at hkey⟩

instance : Inhabited (SlotMap ν) := ⟨empty⟩

def get (m : SlotMap ν) (key : Nat) : Option ν := m.entries[key]?

def keys (m : SlotMap ν) : List Nat := m.entries.keys

def len (m : SlotMap ν) : Nat := m.entries.size

def toList (m : SlotMap ν) : List (Nat × ν) := m.entries.toList

def contains (m : SlotMap ν) (key : Nat) : Bool := (m.get key).isSome

/-- Stores a value under a key that no earlier value of this arena had. -/
def insert (m : SlotMap ν) (value : ν) : Nat × SlotMap ν :=
  (m.next, ⟨m.entries.insert m.next value, m.next + 1, by
    intro key hkey
    rw [Std.ExtTreeMap.mem_insert] at hkey
    rcases hkey with heq | hold
    · rw [Std.LawfulEqCmp.compare_eq_iff_eq] at heq
      omega
    · exact Nat.lt_succ_of_lt (m.fresh key hold)⟩)

/-- Overwrites the value of a stored key; an absent key stays absent. -/
def set (m : SlotMap ν) (key : Nat) (value : ν) : SlotMap ν :=
  ⟨m.entries.modify key (fun _ => value), m.next, by
    intro other hother
    rw [Std.ExtTreeMap.mem_modify] at hother
    exact m.fresh other hother⟩

/-- Drops every key the predicate rejects. -/
def retain (m : SlotMap ν) (keep : Nat → Bool) : SlotMap ν :=
  ⟨m.entries.filter (fun key _ => keep key), m.next, by
    intro key hkey
    exact m.fresh key (Std.ExtTreeMap.mem_of_mem_filter hkey)⟩

variable {m : SlotMap ν} {key : Nat}

theorem get_lt_next {value : ν} (h : m.get key = some value) : key < m.next :=
  m.fresh key ((KeyMap.mem_iff_get _ _).mpr ⟨value, h⟩)

theorem get_next (m : SlotMap ν) : m.get m.next = none := by
  cases hget : m.get m.next with
  | none => rfl
  | some value => exact absurd (get_lt_next hget) (Nat.lt_irrefl _)

@[simp] theorem insert_fst (m : SlotMap ν) (value : ν) : (m.insert value).1 = m.next := rfl

theorem get_insert (m : SlotMap ν) (value : ν) (key : Nat) :
    (m.insert value).2.get key = if m.next = key then some value else m.get key :=
  KeyMap.get_insert _ _ _ _

theorem get_set (m : SlotMap ν) (key other : Nat) (value : ν) : (m.set key value).get other =
      if key = other then (m.get other).map (fun _ => value) else m.get other :=
  KeyMap.get_modify _ _ _ _

theorem get_retain (m : SlotMap ν) (keep : Nat → Bool) (key : Nat) :
    (m.retain keep).get key = if keep key then m.get key else none := by
  simp only [get, retain]
  rw [KeyMap.get_filter]
  cases hget : m.entries[key]? with
  | none => simp
  | some value => cases keep key <;> simp [Option.filter]

theorem get_insert_of_stored {old : ν} (value : ν)
    (h : m.get key = some old) : (m.insert value).2.get key = some old := by
  rw [get_insert, if_neg, h]
  have hlt := get_lt_next h
  omega

theorem get_set_self {old : ν} (value : ν)
    (h : m.get key = some old) : (m.set key value).get key = some value := by
  simp [get_set, h]

theorem get_set_ne (m : SlotMap ν) {other : Nat} (value : ν) (h : key ≠ other) :
    (m.set key value).get other = m.get other := by
  simp [get_set, h]

theorem set_get_self {value : ν} (h : m.get key = some value) : m.set key value = m := by
  obtain ⟨entries, next, fresh⟩ := m
  have hentries : entries.modify key (fun _ => value) = entries := by
    apply KeyMap.ext_get
    intro other
    rw [KeyMap.get_modify]
    split
    · next heq =>
      subst heq
      have hget : entries[key]? = some value := h
      rw [hget, map_some]
    · rfl
  simp only [set, hentries]

theorem mem_keys_iff (m : SlotMap ν) (key : Nat) : key ∈ m.keys ↔ ∃ value, m.get key = some value :=
  KeyMap.mem_keys_iff_get _ _

theorem contains_iff (m : SlotMap ν) (key : Nat) :
    m.contains key = true ↔ ∃ value, m.get key = some value := by
  simp [contains, isSome_iff_exists]

theorem mem_toList_iff (m : SlotMap ν) (key : Nat) (value : ν) :
    (key, value) ∈ m.toList ↔ m.get key = some value :=
  KeyMap.mem_toList_iff_get _ _ _

variable {n : SlotMap ν}

/-- Two arenas with the same lookups hold the same entries. -/
theorem entries_eq_of_get (h : ∀ key, m.get key = n.get key) : m.entries = n.entries :=
  KeyMap.ext_get h

/-- As many entries, and each of them in the other arena: the entries agree. -/
theorem entries_eq_of_forall_mem (hlen : m.len = n.len)
    (hsub : ∀ key value, m.get key = some value → n.get key = some value) :
    m.entries = n.entries := by
  apply KeyMap.ext_get
  intro key
  cases hother : n.entries[key]? with
  | some value =>
    have hsubset : m.entries.keys ⊆ n.entries.keys := by
      intro k hk
      obtain ⟨v, hv⟩ := (KeyMap.mem_keys_iff_get _ _).mp hk
      exact (KeyMap.mem_keys_iff_get _ _).mpr ⟨v, hsub k v hv⟩
    have hperm : List.Perm m.entries.keys n.entries.keys := by
      apply (subperm_of_subset (KeyMap.keys_nodup _) hsubset).perm_of_length_le
      simpa [len] using Nat.le_of_eq hlen.symm
    have hkey : key ∈ m.entries.keys :=
      hperm.mem_iff.mpr ((KeyMap.mem_keys_iff_get _ _).mpr ⟨value, hother⟩)
    obtain ⟨own, hown⟩ := (KeyMap.mem_keys_iff_get _ _).mp hkey
    have heq : n.entries[key]? = some own := hsub key own hown
    rw [hown, ← heq, hother]
  | none =>
    cases hown : m.entries[key]? with
    | none => rfl
    | some value =>
      have heq : n.entries[key]? = some value := hsub key value hown
      rw [hother] at heq
      exact absurd heq (by simp)

/-- Distinct stored keys are at most as many as the arena holds. -/
theorem length_le_len (m : SlotMap ν) {keys : List Nat} (hnodup : keys.Nodup)
    (hstored : ∀ key ∈ keys, ∃ value, m.get key = some value) :
    keys.length ≤ m.len := by
  have hsub : keys ⊆ m.entries.keys := by
    intro key hkey
    exact (mem_keys_iff m key).mpr (hstored key hkey)
  have hle := (subperm_of_subset hnodup hsub).length_le
  simpa [len] using hle

end SlotMap

end OpenGpui
