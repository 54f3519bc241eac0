/-
Lists whose items have distinct keys: finding, replacing and erasing the item of a key, told
by which items are in the list afterwards, and collecting entries into buckets by key, in the
order the keys are first seen.
-/
import Mathlib.Data.List.Nodup
import Mathlib.Data.List.Perm.Basic

namespace OpenGpui.Buckets

open List

universe u v w

variable {α : Type u} {ν : Type v} {κ : Type w} [DecidableEq κ] (key : ν → κ)

def add (buckets : List (ν × List α)) (label : ν) (entry : α) : List (ν × List α) :=
  if buckets.any fun bucket => key bucket.1 == key label then
    buckets.map fun bucket =>
      if key bucket.1 = key label then (bucket.1, bucket.2 ++ [entry]) else bucket
  else buckets ++ [(label, [entry])]

variable (label : α → ν) (entries : List α)

def collect : List (ν × List α) :=
  entries.foldl (fun buckets entry => add key buckets (label entry) entry) []

variable {key} {buckets : List (ν × List α)}

theorem keys_add {label : ν} {entry : α} (hkeys : (buckets.map fun bucket => key bucket.1).Nodup) :
    ((add key buckets label entry).map fun bucket => key bucket.1).Nodup := by
  rw [add]
  by_cases hfound : (buckets.any fun bucket => key bucket.1 == key label) = true
  · have hsame : ((fun bucket : ν × List α => key bucket.1) ∘ fun bucket =>
        if key bucket.1 = key label then (bucket.1, bucket.2 ++ [entry]) else bucket) =
          fun bucket => key bucket.1 := by
      funext bucket
      simp only [Function.comp_apply]
      split <;> rfl
    rw [if_pos hfound, map_map, hsame]
    exact hkeys
  · rw [if_neg hfound, map_append, nodup_append]
    refine ⟨hkeys, nodup_singleton _, ?_⟩
    intro first hfirst second hsecond heq
    obtain ⟨bucket, hbucket, rfl⟩ := mem_map.mp hfirst
    apply hfound
    rw [any_eq_true]
    refine ⟨bucket, hbucket, ?_⟩
    rw [beq_iff_eq, heq]
    exact mem_singleton.mp hsecond

/-- No two buckets have one key. -/
theorem keys_collect : ((collect key label entries).map fun bucket => key bucket.1).Nodup := by
  have hfold : ∀ buckets : List (ν × List α), (buckets.map fun bucket => key bucket.1).Nodup →
        ((entries.foldl (fun buckets entry => add key buckets (label entry) entry)
          buckets).map fun bucket => key bucket.1).Nodup := by
    induction entries with
    | nil => intro buckets hkeys; exact hkeys
    | cons entry rest ih =>
      intro buckets hkeys
      exact ih _ (keys_add hkeys)
  exact hfold [] nodup_nil

/-- Adding to the one bucket of a key adds one entry. -/
theorem entries_map_perm {label : ν} (entry : α)
    (hkeys : (buckets.map fun bucket => key bucket.1).Nodup)
    (hfound : ∃ bucket ∈ buckets, key bucket.1 = key label) :
    ((buckets.map fun bucket => if key bucket.1 = key label then
      (bucket.1, bucket.2 ++ [entry]) else bucket).flatMap Prod.snd).Perm
        (buckets.flatMap Prod.snd ++ [entry]) := by
  induction buckets with
  | nil => simp at hfound
  | cons first rest ih =>
    rw [map_cons, nodup_cons] at hkeys
    rw [map_cons, flatMap_cons, flatMap_cons]
    by_cases hfirst : key first.1 = key label
    · have hrest : (rest.map fun bucket => if key bucket.1 = key label then
          (bucket.1, bucket.2 ++ [entry]) else bucket) = rest := by
        nth_rewrite 2 [← map_id rest]
        apply map_congr_left
        intro bucket hbucket
        apply if_neg
        intro hkey
        exact hkeys.1 (mem_map.mpr ⟨bucket, hbucket, hkey.trans hfirst.symm⟩)
      rw [if_pos hfirst, hrest, append_assoc, append_assoc]
      exact perm_append_comm.append_left first.2
    · have hlater : ∃ bucket ∈ rest, key bucket.1 = key label := by
        obtain ⟨bucket, hbucket, hkey⟩ := hfound
        rcases mem_cons.mp hbucket with rfl | hrest
        · exact absurd hkey hfirst
        · exact ⟨bucket, hrest, hkey⟩
      rw [if_neg hfirst, append_assoc]
      exact (ih hkeys.2 hlater).append_left first.2

theorem entries_add_perm (label : ν) (entry : α)
    (hkeys : (buckets.map fun bucket => key bucket.1).Nodup) :
    ((add key buckets label entry).flatMap Prod.snd).Perm
      (buckets.flatMap Prod.snd ++ [entry]) := by
  rw [add]
  by_cases hfound : (buckets.any fun bucket => key bucket.1 == key label) = true
  · rw [if_pos hfound]
    apply entries_map_perm entry hkeys
    simpa using hfound
  · rw [if_neg hfound]
    simp

/-- The buckets hold every entry, and nothing twice. -/
theorem entries_collect_perm : ((collect key label entries).flatMap Prod.snd).Perm entries := by
  have hfold : ∀ buckets : List (ν × List α), (buckets.map fun bucket => key bucket.1).Nodup →
        ((entries.foldl (fun buckets entry => add key buckets (label entry) entry)
          buckets).flatMap Prod.snd).Perm (buckets.flatMap Prod.snd ++ entries) := by
    induction entries with
    | nil => intro buckets _; simp
    | cons entry rest ih =>
      intro buckets hkeys
      have hstep := (entries_add_perm (label entry) entry hkeys).append_right rest
      rw [append_assoc] at hstep
      exact (ih _ (keys_add hkeys)).trans hstep
  exact hfold [] nodup_nil

end OpenGpui.Buckets

namespace OpenGpui.KeyedList

open List

universe u v

variable {α : Type u} {κ : Type v} {key : α → κ} {items : List α} {accepts : α → Bool} {wanted : κ}

/-- The predicate accepts exactly the items with the key. -/
def Selects (key : α → κ) (accepts : α → Bool) (wanted : κ) : Prop :=
  ∀ item, accepts item = true ↔ key item = wanted

theorem eq_of_key (hnodup : (items.map key).Nodup) {first second : α} (hfirst : first ∈ items)
    (hsecond : second ∈ items) (hkey : key first = key second) : first = second :=
  inj_on_of_nodup_map hnodup hfirst hsecond hkey

variable {item : α}

theorem find?_eq_some_iff (hnodup : (items.map key).Nodup) (hselects : Selects key accepts wanted) :
    items.find? accepts = some item ↔ item ∈ items ∧ key item = wanted := by
  constructor
  · intro hfind
    exact ⟨mem_of_find?_eq_some hfind, (hselects item).mp (find?_some hfind)⟩
  · rintro ⟨hmem, hkey⟩
    cases hfind : items.find? accepts with
    | none => exact absurd ((hselects item).mpr hkey) (find?_eq_none.mp hfind item hmem)
    | some found =>
      have hfound := (hselects found).mp (find?_some hfind)
      rw [eq_of_key hnodup (mem_of_find?_eq_some hfind) hmem (hfound.trans hkey.symm)]

theorem find?_eq_none_iff (hselects : Selects key accepts wanted) :
    items.find? accepts = none ↔ ∀ item ∈ items, key item ≠ wanted := by
  rw [find?_eq_none]
  constructor
  · intro h item hmem hkey
    exact h item hmem ((hselects item).mpr hkey)
  · intro h item hmem haccepts
    exact h item hmem ((hselects item).mp haccepts)

theorem any_iff (hselects : Selects key accepts wanted) :
    items.any accepts = true ↔ ∃ item ∈ items, key item = wanted := by
  rw [any_eq_true]
  constructor
  · rintro ⟨item, hmem, haccepts⟩
    exact ⟨item, hmem, (hselects item).mp haccepts⟩
  · rintro ⟨item, hmem, hkey⟩
    exact ⟨item, hmem, (hselects item).mpr hkey⟩

theorem mem_eraseP_iff (hnodup : (items.map key).Nodup)
    (hselects : Selects key accepts wanted) (item : α) :
    item ∈ items.eraseP accepts ↔ item ∈ items ∧ key item ≠ wanted := by
  induction items with
  | nil => simp
  | cons head rest ih =>
    rw [map_cons, nodup_cons] at hnodup
    by_cases hhead : accepts head = true
    · have hkey := (hselects head).mp hhead
      rw [eraseP_cons_of_pos hhead, mem_cons]
      constructor
      · intro hmem
        exact ⟨.inr hmem, fun heq =>
          hnodup.1 (hkey ▸ heq ▸ mem_map_of_mem (f := key) hmem)⟩
      · rintro ⟨rfl | hmem, hne⟩
        · exact absurd hkey hne
        · exact hmem
    · have hkey : key head ≠ wanted := fun heq => hhead ((hselects head).mpr heq)
      rw [eraseP_cons_of_neg hhead, mem_cons, ih hnodup.2, mem_cons]
      constructor
      · rintro (rfl | hrest)
        · exact ⟨.inl rfl, hkey⟩
        · exact ⟨.inr hrest.1, hrest.2⟩
      · rintro ⟨rfl | hmem, hne⟩
        · exact .inl rfl
        · exact .inr ⟨hmem, hne⟩

theorem nodup_eraseP (hnodup : (items.map key).Nodup) : ((items.eraseP accepts).map key).Nodup :=
  (eraseP_sublist.map key).nodup hnodup

/-- Replaces the first accepted item. -/
def replace (accepts : α → Bool) (item : α) (items : List α) : List α :=
  items.replaceF fun old => if accepts old then some item else none

theorem map_replace (hselects : Selects key accepts wanted) (hkey : key item = wanted) :
    (replace accepts item items).map key = items.map key := by
  induction items with
  | nil => rfl
  | cons head rest ih =>
    by_cases hhead : accepts head = true
    · simp [replace, hhead, hkey, (hselects head).mp hhead]
    · rw [replace, replaceF_cons_of_none _ (by simp [hhead]), map_cons, map_cons]
      rw [replace] at ih
      rw [ih]

theorem mem_replace_iff (hnodup : (items.map key).Nodup) (hselects : Selects key accepts wanted)
    (hany : items.any accepts = true) {other : α} :
    other ∈ replace accepts item items ↔ other = item ∨ other ∈ items ∧ key other ≠ wanted := by
  induction items with
  | nil => simp at hany
  | cons head rest ih =>
    rw [map_cons, nodup_cons] at hnodup
    by_cases hhead : accepts head = true
    · have hwanted := (hselects head).mp hhead
      rw [replace,
        replaceF_cons_of_some _ (show (if accepts head then some item else none) = some item by
          simp [hhead]), mem_cons,
        mem_cons]
      constructor
      · rintro (heq | hmem)
        · exact .inl heq
        · exact .inr ⟨.inr hmem, fun heq =>
            hnodup.1 (hwanted ▸ heq ▸ mem_map_of_mem (f := key) hmem)⟩
      · rintro (heq | ⟨rfl | hmem, hne⟩)
        · exact .inl heq
        · exact absurd hwanted hne
        · exact .inr hmem
    · have hwanted : key head ≠ wanted := fun heq => hhead ((hselects head).mpr heq)
      have hrest : rest.any accepts = true := by simpa [hhead] using hany
      rw [replace] at ih ⊢
      rw [replaceF_cons_of_none _ (by simp [hhead]), mem_cons, ih hnodup.2 hrest, mem_cons]
      constructor
      · rintro (rfl | heq | hmem)
        · exact .inr ⟨.inl rfl, hwanted⟩
        · exact .inl heq
        · exact .inr ⟨.inr hmem.1, hmem.2⟩
      · rintro (heq | ⟨rfl | hmem, hne⟩)
        · exact .inr (.inl heq)
        · exact .inl rfl
        · exact .inr (.inr ⟨hmem, hne⟩)

/-- Replaces the item of the key, or appends one. -/
def put (accepts : α → Bool) (item : α) (items : List α) : List α :=
  if items.any accepts then replace accepts item items else items ++ [item]

theorem mem_put_iff (hnodup : (items.map key).Nodup) (hselects : Selects key accepts wanted)
    (item other : α) :
    other ∈ put accepts item items ↔ other = item ∨ other ∈ items ∧ key other ≠ wanted := by
  rw [put]
  by_cases hany : items.any accepts = true
  · rw [if_pos hany, mem_replace_iff hnodup hselects hany]
  · have hne : ∀ other ∈ items, key other ≠ wanted := by
      intro other hmem heq
      exact hany ((any_iff hselects).mpr ⟨other, hmem, heq⟩)
    rw [if_neg hany, mem_append, mem_singleton, or_comm]
    constructor
    · rintro (heq | hmem)
      · exact .inl heq
      · exact .inr ⟨hmem, hne other hmem⟩
    · rintro (heq | hmem)
      · exact .inl heq
      · exact .inr hmem.1

theorem nodup_put (hnodup : (items.map key).Nodup) (hselects : Selects key accepts wanted)
    (hkey : key item = wanted) : ((put accepts item items).map key).Nodup := by
  rw [put]
  by_cases hany : items.any accepts = true
  · rw [if_pos hany, map_replace hselects hkey]
    exact hnodup
  · rw [if_neg hany, map_append, nodup_append]
    refine ⟨hnodup, nodup_singleton _, ?_⟩
    intro first hfirst second hsecond heq
    obtain ⟨other, hmem, rfl⟩ := mem_map.mp hfirst
    rw [mem_singleton.mp hsecond, hkey] at heq
    exact hany ((any_iff hselects).mpr ⟨other, hmem, heq⟩)

end OpenGpui.KeyedList
