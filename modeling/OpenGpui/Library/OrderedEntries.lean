/-
Lists of entries with increasing keys, and the finite maps they stand for.
-/
import Mathlib.Data.List.Basic
import Mathlib.Order.Lattice

namespace OpenGpui

open List Function Option

universe u v w x

section Increasing

variable {α : Type u} {K : Type v} [LinearOrder K] {key : α → K}

/-- Every key once, in increasing order. -/
def Increasing (key : α → K) (entries : List α) : Prop :=
  entries.Pairwise fun earlier later => key earlier < key later

variable {entries : List α}

theorem Increasing.filter (h : Increasing key entries) (p : α → Bool) :
    Increasing key (entries.filter p) := List.Pairwise.filter p h

theorem Increasing.eq_of_key_eq (h : Increasing key entries) {one two : α}
    (hone : one ∈ entries) (htwo : two ∈ entries) (hkey : key one = key two) : one = two := by
  induction entries with
  | nil => exact absurd hone not_mem_nil
  | cons head rest ih =>
    obtain ⟨hhead, hrest⟩ := pairwise_cons.mp h
    rcases mem_cons.mp hone with hone | hone <;> rcases mem_cons.mp htwo with htwo | htwo
    · rw [hone, htwo]
    · rw [hone] at hkey
      exact absurd hkey (ne_of_lt (hhead two htwo))
    · rw [htwo] at hkey
      exact absurd hkey.symm (ne_of_lt (hhead one hone))
    · exact ih hrest hone htwo

variable {p : α → Bool}

section

variable (h : Increasing key entries)

include h

section

variable (hp : ∀ one two, key one < key two → p two = true → p one = true)

include hp

/-- A test that only the smaller keys pass selects a front part. -/
theorem Increasing.takeWhile_eq_filter : entries.takeWhile p = entries.filter p := by
  induction entries with
  | nil => rfl
  | cons head rest ih =>
    obtain ⟨hhead, hrest⟩ := pairwise_cons.mp h
    cases hpass : p head with
    | true => rw [takeWhile_cons_of_pos hpass, filter_cons_of_pos hpass, ih hrest]
    | false =>
      have hnone : rest.filter p = [] := by
        refine filter_eq_nil_iff.mpr fun entry hentry hpass' => ?_
        rw [hp head entry (hhead entry hentry) hpass'] at hpass
        exact Bool.noConfusion hpass
      rw [takeWhile_cons_of_neg (by simp [hpass]), filter_cons_of_neg (by simp [hpass]), hnone]

theorem Increasing.dropWhile_eq_filter :
    entries.dropWhile p = entries.filter fun entry => !p entry := by
  induction entries with
  | nil => rfl
  | cons head rest ih =>
    obtain ⟨hhead, hrest⟩ := pairwise_cons.mp h
    cases hpass : p head with
    | true =>
      rw [dropWhile_cons_of_pos hpass, filter_cons_of_neg (by simp [hpass]), ih hrest]
    | false =>
      have hall : (head :: rest).filter (fun entry => !p entry) = head :: rest := by
        refine filter_eq_self.mpr fun entry hentry => ?_
        rcases mem_cons.mp hentry with rfl | hentry
        · rw [hpass]
          rfl
        · cases hpass' : p entry with
          | false => rfl
          | true =>
            rw [hp head entry (hhead entry hentry) hpass'] at hpass
            exact Bool.noConfusion hpass
      rw [dropWhile_cons_of_neg (by simp [hpass]), hall]

end

/-- Behind the smaller keys comes the key's own entry, if there is one, and then the larger
keys. -/
theorem Increasing.filter_not_lt (k : K) : entries.filter (fun entry => !decide (key entry < k)) =
      (entries.find? fun entry => decide (key entry = k)).toList ++
        entries.filter fun entry => decide (k < key entry) := by
  induction entries with
  | nil => rfl
  | cons head rest ih =>
    obtain ⟨hhead, hrest⟩ := pairwise_cons.mp h
    rcases lt_trichotomy (key head) k with hless | heq | hmore
    · rw [filter_cons_of_neg (by simp [hless]), find?_cons_of_neg (by simp [hless.ne]),
        filter_cons_of_neg (by simp [hless.le]), ih hrest]
    · have hall : ∀ entry ∈ rest, k < key entry := fun entry hentry => heq ▸ hhead entry hentry
      rw [filter_cons_of_pos (by simp [heq]), find?_cons_of_pos (by simp [heq]),
        filter_cons_of_neg (by simp [heq]),
        filter_eq_self.mpr fun entry hentry => by simp [(hall entry hentry).le],
        filter_eq_self.mpr fun entry hentry => by simp [hall entry hentry]]
      rfl
    · have hall : ∀ entry ∈ rest, k < key entry :=
        fun entry hentry => hmore.trans (hhead entry hentry)
      rw [filter_cons_of_pos (by simp [hmore.le]),
        find?_eq_none.mpr fun entry hentry => by
          rcases mem_cons.mp hentry with rfl | hentry
          · simp [hmore.ne']
          · simp [(hall entry hentry).ne'],
        filter_cons_of_pos (by simp [hmore]),
        filter_eq_self.mpr fun entry hentry => by simp [(hall entry hentry).le],
        filter_eq_self.mpr fun entry hentry => by simp [hall entry hentry]]
      rfl

/-- The smaller keys, the key's own entry and the larger keys. -/
theorem Increasing.split_at (k : K) :
    entries = entries.filter (fun entry => decide (key entry < k)) ++
      ((entries.find? fun entry => decide (key entry = k)).toList ++
        entries.filter fun entry => decide (k < key entry)) := by
  have hless : ∀ one two, key one < key two →
      decide (key two < k) = true → decide (key one < k) = true :=
    fun one two hlt hpass => decide_eq_true (hlt.trans (of_decide_eq_true hpass))
  rw [← h.filter_not_lt k, ← h.takeWhile_eq_filter hless, ← h.dropWhile_eq_filter hless,
    takeWhile_append_dropWhile]

end

theorem head_filter_eq_find (entries : List α) (k : K) :
    (((entries.find? fun entry => decide (key entry = k)).toList ++
      entries.filter fun entry => decide (k < key entry)).head?.filter
        fun entry => decide (key entry = k)) =
      entries.find? fun entry => decide (key entry = k) := by
  cases hfind : entries.find? fun entry => decide (key entry = k) with
  | some entry =>
    have hkey : key entry = k := by simpa using find?_some hfind
    simp [hkey]
  | none =>
    rw [filter_eq_none_iff]
    intro entry hentry hkey
    have hmore := (mem_filter.mp (mem_of_mem_head? hentry)).2
    exact (of_decide_eq_true hmore).ne' (of_decide_eq_true hkey)

theorem Increasing.filter_ne (h : Increasing key entries) (k : K) :
    entries.filter (fun entry => !decide (key entry = k)) =
      entries.filter (fun entry => decide (key entry < k)) ++
        entries.filter fun entry => decide (k < key entry) := by
  induction entries with
  | nil => rfl
  | cons head rest ih =>
    obtain ⟨hhead, hrest⟩ := pairwise_cons.mp h
    rcases lt_trichotomy (key head) k with hless | heq | hmore
    · simp [hless, hless.ne, hless.le, ih hrest]
    · simp [heq, ih hrest]
    · have hnone : rest.filter (fun entry => decide (key entry < k)) = [] :=
        filter_eq_nil_iff.mpr fun entry hentry => by
          simp [(hmore.trans (hhead entry hentry)).le]
      have hboth := ih hrest
      simp [hmore, hmore.ne', hmore.le, hnone, hboth]

/-- A front part and a back part without a common entry are what passes one of the tests. -/
theorem Increasing.filter_append_filter (h : Increasing key entries)
    {q : α → Bool} (hp : ∀ one two, key one < key two → p two = true → p one = true)
    (hnone : ∀ entry ∈ entries, ¬(p entry = true ∧ q entry = true)) :
    entries.filter p ++ entries.filter q = entries.filter fun entry => p entry || q entry := by
  induction entries with
  | nil => rfl
  | cons head rest ih =>
    obtain ⟨hhead, hrest⟩ := pairwise_cons.mp h
    have hboth := ih hrest fun entry hentry => hnone entry (mem_cons_of_mem head hentry)
    cases hpass : p head with
    | true =>
      have hother : q head ≠ true := fun hq => hnone head mem_cons_self ⟨hpass, hq⟩
      rw [filter_cons_of_pos hpass, filter_cons_of_neg hother,
        filter_cons_of_pos (by simp [hpass]), cons_append, hboth]
    | false =>
      have hrestNone : rest.filter p = [] := by
        refine filter_eq_nil_iff.mpr fun entry hentry hpass' => ?_
        rw [hp head entry (hhead entry hentry) hpass'] at hpass
        exact Bool.noConfusion hpass
      rw [hrestNone, nil_append] at hboth
      rw [filter_cons_of_neg (by simp [hpass]), hrestNone, nil_append]
      cases hpass' : q head with
      | true =>
        rw [filter_cons_of_pos hpass', filter_cons_of_pos (by simp [hpass']), hboth]
      | false =>
        rw [filter_cons_of_neg (by simp [hpass']),
          filter_cons_of_neg (by simp [hpass, hpass']), hboth]

/-- New entries laid over old ones, each in its key's place. -/
def overwrite (key : α → K) : List α → List α → List α
  | [], old => old
  | entry :: entries, old =>
    old.filter (fun other => decide (key other < key entry)) ++
      entry :: overwrite key entries (old.filter fun other => decide (key entry < key other))

variable {old : List α}

theorem mem_overwrite (h : Increasing key entries) {entry : α} : entry ∈ overwrite key entries old ↔
      entry ∈ entries ∨ (entry ∈ old ∧ ∀ other ∈ entries, key other ≠ key entry) := by
  induction entries generalizing old with
  | nil => simp [overwrite]
  | cons head rest ih =>
    obtain ⟨hhead, hrest⟩ := pairwise_cons.mp h
    rw [overwrite, mem_append, mem_cons, ih hrest, mem_filter, mem_filter,
      mem_cons, decide_eq_true_iff, decide_eq_true_iff]
    constructor
    · rintro (⟨hold, hless⟩ | rfl | hmem | ⟨⟨hold, hmore⟩, hother⟩)
      · refine .inr ⟨hold, fun other hmem => ?_⟩
        rcases mem_cons.mp hmem with rfl | hmem
        · exact ne_of_gt hless
        · exact ne_of_gt (hless.trans (hhead other hmem))
      · exact .inl (.inl rfl)
      · exact .inl (.inr hmem)
      · refine .inr ⟨hold, fun other hmem => ?_⟩
        rcases mem_cons.mp hmem with rfl | hmem
        · exact ne_of_lt hmore
        · exact hother other hmem
    · rintro ((rfl | hmem) | ⟨hold, hother⟩)
      · exact .inr (.inl rfl)
      · exact .inr (.inr (.inl hmem))
      · rcases lt_trichotomy (key entry) (key head) with hless | heq | hmore
        · exact .inl ⟨hold, hless⟩
        · exact absurd heq.symm (hother head mem_cons_self)
        · exact .inr (.inr (.inr ⟨⟨hold, hmore⟩, fun other hmem =>
            hother other (mem_cons_of_mem head hmem)⟩))

/-- Only the order of the keys matters. -/
theorem overwrite_congr {K' : Type w} [LinearOrder K'] {key' : α → K'}
    (h : ∀ one two, key one < key two ↔ key' one < key' two) (entries old : List α) :
    overwrite key entries old = overwrite key' entries old := by
  induction entries generalizing old with
  | nil => rfl
  | cons entry entries ih => simp only [overwrite, h, ih]

theorem Increasing.overwrite (h : Increasing key entries)
    (hold : Increasing key old) : Increasing key (overwrite key entries old) := by
  induction entries generalizing old with
  | nil => exact hold
  | cons head rest ih =>
    obtain ⟨hhead, hrest⟩ := pairwise_cons.mp h
    have hbehind : ∀ entry ∈ OpenGpui.overwrite key rest
        (old.filter fun other => decide (key head < key other)), key head < key entry := by
      intro entry hentry
      rcases (mem_overwrite hrest).mp hentry with hmem | ⟨hmem, _⟩
      · exact hhead entry hmem
      · exact of_decide_eq_true (mem_filter.mp hmem).2
    refine pairwise_append.mpr
      ⟨hold.filter _, pairwise_cons.mpr ⟨hbehind, ih hrest (hold.filter _)⟩, ?_⟩
    intro entry hentry other hother
    have hless : key entry < key head := of_decide_eq_true (mem_filter.mp hentry).2
    rcases mem_cons.mp hother with rfl | hother
    · exact hless
    · exact hless.trans (hbehind other hother)

end Increasing

variable {α : Type u} {K : Type v} {V : Type w} [LinearOrder K] {key : α → K} {value : α → V}
variable {entries : List α} {map : K → Option V}

/-- The entries are those of the finite map, in the order of their keys. -/
structure Represents (key : α → K) (value : α → V) (entries : List α) (map : K → Option V) :
    Prop where
  increasing : Increasing key entries
  lookup : ∀ k v, map k = some v ↔ ∃ entry ∈ entries, key entry = k ∧ value entry = v

/-- The pair with the greatest key that is not above the given one, if there is any. -/
def IsClosest (map : K → Option V) (k : K) : Option (K × V) → Prop
  | none => ∀ other ≤ k, map other = none
  | some (found, v) => found ≤ k ∧ map found = some v ∧
      ∀ other, found < other → other ≤ k → map other = none

namespace Represents

theorem nil : Represents key value [] fun _ => none := ⟨List.Pairwise.nil, by simp⟩

section

variable (h : Represents key value entries map)

include h

theorem eq_some {entry : α} (hmem : entry ∈ entries) :
    map (key entry) = some (value entry) := (h.lookup _ _).mpr ⟨entry, hmem, rfl, rfl⟩

theorem eq_none_iff {k : K} : map k = none ↔ ∀ entry ∈ entries, key entry ≠ k := by
  constructor
  · rintro hnone entry hmem rfl
    rw [h.eq_some hmem] at hnone
    exact absurd hnone (by simp)
  · intro hother
    refine eq_none_iff_forall_not_mem.mpr fun v hv => ?_
    obtain ⟨entry, hmem, hkey, _⟩ := (h.lookup k v).mp hv
    exact hother entry hmem hkey

theorem find_eq (k : K) :
    (entries.find? fun entry => decide (key entry = k)).map value = map k := by
  cases hfind : entries.find? fun entry => decide (key entry = k) with
  | none =>
    refine (h.eq_none_iff.mpr fun entry hmem hkey => ?_).symm
    exact find?_eq_none.mp hfind entry hmem (decide_eq_true hkey)
  | some entry =>
    have hfound := @find?_some α (fun entry => decide (key entry = k)) entry entries hfind
    have hkey : key entry = k := of_decide_eq_true hfound
    rw [map_some, ← h.eq_some (mem_of_find?_eq_some hfind), hkey]

end

/-- Increasing entries are those of some map. -/
theorem of_increasing (h : Increasing key entries) :
    Represents key value entries fun k =>
      (entries.find? fun entry => decide (key entry = k)).map value := by
  refine ⟨h, fun k v => ?_⟩
  rw [map_eq_some_iff]
  constructor
  · rintro ⟨entry, hfind, rfl⟩
    have hkey : key entry = k := by simpa using find?_some hfind
    exact ⟨entry, mem_of_find?_eq_some hfind, hkey, rfl⟩
  · rintro ⟨entry, hmem, rfl, rfl⟩
    cases hfind : entries.find? fun other => decide (key other = key entry) with
    | none => exact absurd (decide_eq_true rfl) (find?_eq_none.mp hfind entry hmem)
    | some other =>
      have hkey : key other = key entry := by simpa using find?_some hfind
      exact ⟨other, rfl, by rw [h.eq_of_key_eq (mem_of_find?_eq_some hfind) hmem hkey]⟩

theorem singleton (entry : α) :
    Represents key value [entry] (Function.update (fun _ => none) (key entry) (value entry)) := by
  refine ⟨pairwise_singleton _ _, fun k v => ?_⟩
  rw [update_apply]
  split
  · rename_i hkey
    simp [hkey]
  · rename_i hkey
    simp [Ne.symm hkey]

variable (h : Represents key value entries map)

include h

/-- The entries through another view of them. -/
theorem view {β : Type x} {key' : β → K} {value' : β → V}
    (f : α → β) (hkey : ∀ entry, key' (f entry) = key entry)
    (hvalue : ∀ entry, value' (f entry) = value entry) :
    Represents key' value' (entries.map f) map := by
  refine ⟨pairwise_map.mpr ?_, fun k v => ?_⟩
  · simp only [hkey]
    exact h.increasing
  · simp [h.lookup, hkey, hvalue]

/-- The last entry that is not above a key. -/
theorem closest (k : K) :
    IsClosest map k ((entries.filter fun entry => decide (key entry ≤ k)).getLast?.map
      fun entry => (key entry, value entry)) := by
  have hincreasing := h.increasing.filter fun entry => decide (key entry ≤ k)
  have hmem : ∀ entry, entry ∈ entries.filter (fun entry => decide (key entry ≤ k)) ↔
      entry ∈ entries ∧ key entry ≤ k := fun entry => by
    rw [mem_filter, decide_eq_true_iff]
  generalize entries.filter (fun entry => decide (key entry ≤ k)) = below at hincreasing hmem
  rcases eq_nil_or_concat below with rfl | ⟨front, last, rfl⟩
  · intro other hother
    refine h.eq_none_iff.mpr fun entry hentry hkey => ?_
    exact absurd ((hmem entry).mpr ⟨hentry, hkey ▸ hother⟩) not_mem_nil
  · rw [concat_eq_append] at hincreasing hmem ⊢
    obtain ⟨hlast, hle⟩ := (hmem last).mp (by simp)
    rw [getLast?_append_of_ne_nil _ (by simp)]
    refine ⟨hle, h.eq_some hlast, fun other hmore hother => ?_⟩
    refine h.eq_none_iff.mpr fun entry hentry hkey => ?_
    rcases mem_append.mp ((hmem entry).mpr ⟨hentry, hkey ▸ hother⟩) with hfront | hsame
    · have hbefore := (pairwise_append.mp hincreasing).2.2 entry hfront last (by simp)
      exact absurd hmore (hkey ▸ hbefore).not_gt
    · rw [mem_singleton.mp hsame] at hkey
      exact absurd hkey hmore.ne

theorem filter {p : α → Bool} {q : K → V → Bool}
    (hp : ∀ entry ∈ entries, p entry = q (key entry) (value entry)) :
    Represents key value (entries.filter p) fun k => (map k).filter (q k) := by
  refine ⟨h.increasing.filter p, fun k v => ?_⟩
  rw [filter_eq_some_iff, h.lookup]
  constructor
  · rintro ⟨⟨entry, hmem, rfl, rfl⟩, hpass⟩
    exact ⟨entry, mem_filter.mpr ⟨hmem, (hp entry hmem).trans hpass⟩, rfl, rfl⟩
  · rintro ⟨entry, hmem, rfl, rfl⟩
    obtain ⟨hmem, hpass⟩ := mem_filter.mp hmem
    exact ⟨⟨entry, hmem, rfl, rfl⟩, (hp entry hmem).symm.trans hpass⟩

theorem erase (k : K) : Represents key value (entries.filter fun entry => !decide (key entry = k))
      (Function.update map k none) := by
  refine ⟨h.increasing.filter _, fun other v => ?_⟩
  rw [update_apply]
  split
  · rename_i hother
    refine iff_of_false (by simp) ?_
    rintro ⟨entry, hmem, hkey, _⟩
    have hkept := (mem_filter.mp hmem).2
    simp [hkey, hother] at hkept
  · rename_i hother
    rw [h.lookup]
    constructor
    · rintro ⟨entry, hmem, rfl, rfl⟩
      exact ⟨entry, mem_filter.mpr ⟨hmem, by simp [hother]⟩, rfl, rfl⟩
    · rintro ⟨entry, hmem, hkey, hvalue⟩
      exact ⟨entry, (mem_filter.mp hmem).1, hkey, hvalue⟩

theorem overwrite {old : List α} {before : K → Option V} (hold : Represents key value old before) :
    Represents key value (overwrite key entries old) fun k => (map k).or (before k) := by
  refine ⟨h.increasing.overwrite hold.increasing, fun k v => ?_⟩
  rw [or_eq_some_iff, h.lookup, hold.lookup, h.eq_none_iff]
  constructor
  · rintro (⟨entry, hmem, rfl, rfl⟩ | ⟨hother, entry, hmem, rfl, rfl⟩)
    · exact ⟨entry, (mem_overwrite h.increasing).mpr (.inl hmem), rfl, rfl⟩
    · exact ⟨entry, (mem_overwrite h.increasing).mpr (.inr ⟨hmem, hother⟩), rfl, rfl⟩
  · rintro ⟨entry, hmem, rfl, rfl⟩
    rcases (mem_overwrite h.increasing).mp hmem with hmem | ⟨hmem, hother⟩
    · exact .inl ⟨entry, hmem, rfl, rfl⟩
    · exact .inr ⟨hother, entry, hmem, rfl, rfl⟩

theorem insert (entry : α) : Represents key value (OpenGpui.overwrite key [entry] entries)
      (Function.update map (key entry) (some (value entry))) := by
  have hover := (@singleton α K V _ key value entry).overwrite h
  convert hover using 2 with k
  rw [update_apply, update_apply]
  split <;> rfl

end Represents

/-- Pairs inserted into a map one after another. -/
def insertPairs (map : K → Option V) (pairs : List (K × V)) : K → Option V :=
  pairs.foldl (fun map pair => Function.update map pair.1 (some pair.2)) map

theorem insertPairs_eq_some_iff {pairs : List (K × V)} (hdistinct : (pairs.map Prod.fst).Nodup)
    {k : K} {v : V} :
    insertPairs map pairs k = some v ↔
      (k, v) ∈ pairs ∨ ((∀ pair ∈ pairs, pair.1 ≠ k) ∧ map k = some v) := by
  induction pairs generalizing map with
  | nil => simp [insertPairs]
  | cons pair pairs ih =>
    obtain ⟨hnot, hdistinct⟩ := nodup_cons.mp hdistinct
    have hstep : insertPairs map (pair :: pairs) =
      insertPairs (Function.update map pair.1 (some pair.2)) pairs := rfl
    rw [hstep, ih hdistinct, update_apply, mem_cons]
    by_cases hkey : k = pair.1
    · have hothers : ∀ other ∈ pairs, other.1 ≠ k := by
        rintro other hother rfl
        exact hnot (hkey ▸ mem_map_of_mem hother)
      have hmem : (k, v) ∉ pairs := fun hmem => hothers _ hmem rfl
      rw [if_pos hkey]
      constructor
      · rintro (hmem' | ⟨_, hv⟩)
        · exact absurd hmem' hmem
        · exact .inl (.inl (by rw [hkey, ← some.inj hv]))
      · rintro ((hpair | hmem') | ⟨hother, _⟩)
        · exact .inr ⟨hothers, by rw [← hpair]⟩
        · exact absurd hmem' hmem
        · exact absurd hkey.symm (hother pair mem_cons_self)
    · rw [if_neg hkey]
      constructor
      · rintro (hmem | ⟨hother, hv⟩)
        · exact .inl (.inr hmem)
        · exact .inr ⟨forall_mem_cons.mpr ⟨Ne.symm hkey, hother⟩, hv⟩
      · rintro ((hpair | hmem) | ⟨hother, hv⟩)
        · exact absurd (congrArg Prod.fst hpair) hkey
        · exact .inl hmem
        · exact .inr ⟨fun other hmem => hother other (mem_cons_of_mem pair hmem), hv⟩

end OpenGpui
