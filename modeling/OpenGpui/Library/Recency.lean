/-
Keys in the order of their last use, the latest first, and the stamps that stand for
that order in a map.
-/
import OpenGpui.Collections
import Mathlib.Data.List.Pairwise

namespace OpenGpui.Recency

open List KeyMap Nat List.Nodup

universe u

variable {κ : Type u}

section Lists

variable [DecidableEq κ]

/-- A key that is used again moves to the front. -/
def touch (key : κ) (recent : List κ) : List κ := key :: recent.erase key

def forget (key : κ) (recent : List κ) : List κ := recent.erase key

variable {key : κ} {recent : List κ}

theorem mem_touch_iff {other : κ} : other ∈ touch key recent ↔ other = key ∨ other ∈ recent := by
  rw [touch]
  by_cases heq : other = key
  · simp [heq]
  · simp [heq, mem_erase_of_ne heq]

theorem nodup_touch (h : recent.Nodup) (key : κ) : (touch key recent).Nodup := by
  rw [touch, nodup_cons]
  exact ⟨fun hin => ((h.mem_erase_iff).mp hin).1 rfl, h.erase key⟩

/-- The keys a log of uses mentions, the latest use first. -/
def ofLog : List κ → List κ
  | [] => []
  | key :: uses => touch key (ofLog uses)

theorem nodup_ofLog (uses : List κ) : (ofLog uses).Nodup := by
  induction uses with
  | nil => exact nodup_nil
  | cons key uses ih => exact nodup_touch ih key

theorem ofLog_of_nodup {uses : List κ} (h : uses.Nodup) : ofLog uses = uses := by
  induction uses with
  | nil => rfl
  | cons key uses ih =>
    rw [nodup_cons] at h
    rw [ofLog, ih h.2, touch, erase_of_not_mem h.1]

theorem find?_erase_of_neg {p : κ → Bool} (hkey : p key = false) (recent : List κ) :
    (recent.erase key).find? p = recent.find? p := by
  induction recent with
  | nil => rfl
  | cons other rest ih =>
    by_cases heq : other = key
    · simp [heq, hkey]
    · simp [heq, ih, find?_cons]

/-- The first key of a kind is the key of the latest use of the kind. -/
theorem find?_ofLog (p : κ → Bool) (uses : List κ) : (ofLog uses).find? p = uses.find? p := by
  induction uses with
  | nil => rfl
  | cons key uses ih =>
    rw [ofLog, touch, find?_cons, find?_cons]
    cases hkey : p key with
    | true => rfl
    | false => exact (find?_erase_of_neg hkey _).trans ih

variable {p p' : κ → Bool}

/-- Using a key that the filter keeps from now on. -/
theorem filter_touch (recent : List κ) (hkey : p' key = true)
    (hother : ∀ other, other ≠ key → p' other = p other) (hnodup : recent.Nodup) :
    (touch key recent).filter p' = touch key (recent.filter p) := by
  rw [touch, touch, filter_cons_of_pos hkey, erase_eq_filter (hnodup.filter p),
    erase_eq_filter hnodup, filter_filter, filter_filter]
  congr 1
  apply filter_congr
  intro other _
  by_cases heq : other = key
  · simp [heq]
  · rw [hother other heq, Bool.and_comm]

/-- Dropping a key from what the filter keeps. -/
theorem filter_forget (recent : List κ) (hkey : p' key = false)
    (hother : ∀ other, other ≠ key → p' other = p other) (hnodup : recent.Nodup) :
    recent.filter p' = forget key (recent.filter p) := by
  rw [forget, erase_eq_filter (hnodup.filter p), filter_filter]
  apply filter_congr
  intro other _
  by_cases heq : other = key
  · simp [heq, hkey]
  · simp [heq, hother other heq]

end Lists

variable [Ord κ] [Std.TransOrd κ]

/-- The stamps order the keys as the list does, and new stamps are above all others. -/
structure Represents (stamps : KeyMap κ Nat) (next : Nat) (recent : List κ) : Prop where
  mem_iff : ∀ key : κ, key ∈ recent ↔ ∃ stamp, stamps[key]? = some stamp
  ordered : recent.Pairwise fun newer older => ∀ stamp stamp' : Nat,
    stamps[newer]? = some stamp → stamps[older]? = some stamp' → stamp' < stamp
  below : ∀ (key : κ) (stamp : Nat), stamps[key]? = some stamp → stamp < next

namespace Represents

variable {stamps : KeyMap κ Nat} {next : Nat} {recent : List κ}

theorem empty (next : Nat) : Represents (∅ : KeyMap κ Nat) next [] where
  mem_iff key := by simp
  ordered := List.Pairwise.nil
  below key stamp h := by simp at h

section

variable (h : Represents stamps next recent)

include h

/-- Without stamps the next one may be any. -/
theorem renew (hempty : ∀ key : κ, stamps[key]? = none)
    (next' : Nat) : Represents (∅ : KeyMap κ Nat) next' recent := by
  have hnil : recent = [] := by
    apply eq_nil_iff_forall_not_mem.mpr
    intro key hkey
    obtain ⟨stamp, hstamp⟩ := (h.mem_iff key).mp hkey
    rw [hempty key] at hstamp
    cases hstamp
  rw [hnil]
  exact empty next'

theorem nodup : recent.Nodup := by
  have hpairs := h.ordered
  refine hpairs.imp_of_mem ?_
  rintro newer older hnewer - hlt rfl
  obtain ⟨stamp, hstamp⟩ := (h.mem_iff newer).mp hnewer
  exact Nat.lt_irrefl _ (hlt stamp stamp hstamp hstamp)

/-- No two keys share a stamp. -/
theorem injective {first second : κ} {stamp : Nat}
    (hfirst : stamps[first]? = some stamp) (hsecond : stamps[second]? = some stamp) :
    first = second := by
  by_contra hne
  have hin := (h.mem_iff first).mpr ⟨stamp, hfirst⟩
  have hin' := (h.mem_iff second).mpr ⟨stamp, hsecond⟩
  let Apart : κ → κ → Prop := fun a b => stamps[a]? = some stamp → stamps[b]? = some stamp → False
  have hsymm : Std.Symm Apart := ⟨fun a b hab hb ha => hab ha hb⟩
  have hapart : recent.Pairwise Apart :=
    h.ordered.imp fun hlt ha hb => Nat.lt_irrefl _ (hlt stamp stamp ha hb)
  exact hapart.forall hin hin' hne hfirst hsecond

end

/-- Without a key the others keep their order, as long as they keep their stamps. -/
theorem ordered_erase [DecidableEq κ] (h : Represents stamps next recent) {key : κ} {stamps' : KeyMap κ Nat}
    (hkept : ∀ other, key ≠ other → stamps'[other]? = stamps[other]?) :
    (recent.erase key).Pairwise fun newer older => ∀ stamp stamp' : Nat,
      stamps'[newer]? = some stamp → stamps'[older]? = some stamp' → stamp' < stamp := by
  refine (h.ordered.sublist erase_sublist).imp_of_mem fun {newer older} hnewer holder hlt => ?_
  rw [hkept newer ((mem_erase_iff h.nodup).mp hnewer).1.symm,
    hkept older ((mem_erase_iff h.nodup).mp holder).1.symm]
  exact hlt

section Steps

variable [Std.LawfulEqOrd κ] [DecidableEq κ]

theorem touch (h : Represents stamps next recent) (key : κ) :
    Represents (stamps.insert key next) (next + 1) (Recency.touch key recent) where
  mem_iff other := by
    rw [mem_touch_iff, get_insert, h.mem_iff]
    by_cases heq : key = other
    · simp [heq]
    · simp [heq, Ne.symm heq]
  ordered := by
    constructor
    · intro older holder stamp stamp' hstamp hstamp'
      have hne : key ≠ older := by
        rintro rfl
        exact (mem_erase_iff h.nodup).mp holder |>.1 rfl
      rw [get_insert, if_pos rfl] at hstamp
      rw [get_insert, if_neg hne] at hstamp'
      cases hstamp
      exact h.below older stamp' hstamp'
    · exact h.ordered_erase fun other hne => by rw [get_insert, if_neg hne]
  below other stamp hstamp := by
    rw [get_insert] at hstamp
    split at hstamp
    · cases hstamp
      exact lt_succ_self _
    · exact lt_succ_of_lt (h.below other stamp hstamp)

theorem forget (h : Represents stamps next recent) (key : κ) :
    Represents (stamps.erase key) next (Recency.forget key recent) where
  mem_iff other := by
    rw [Recency.forget, h.nodup.mem_erase_iff, get_erase, h.mem_iff]
    by_cases heq : key = other
    · simp [heq]
    · simp [heq, Ne.symm heq]
  ordered := h.ordered_erase fun other hne => by rw [get_erase, if_neg hne]
  below other stamp hstamp := by
    rw [get_erase] at hstamp
    split at hstamp
    · cases hstamp
    · exact h.below other stamp hstamp

end Steps

variable {p : κ → Bool}

/-- The first key of a kind is the one whose stamp is above those of all others of the kind. -/
theorem find?_latest (h : Represents stamps next recent) {key : κ}
    (hfind : recent.find? p = some key) :
    ∃ stamp, stamps[key]? = some stamp ∧ p key = true ∧
      ∀ (other : κ) (stamp' : Nat), stamps[other]? = some stamp' → p other = true →
        other ≠ key → stamp' < stamp := by
  obtain ⟨hkey, front, back, hsplit, hfront⟩ := find?_eq_some_iff_append.mp hfind
  obtain ⟨stamp, hstamp⟩ := (h.mem_iff key).mp (by rw [hsplit]; simp)
  refine ⟨stamp, hstamp, hkey, fun other stamp' hstamp' hother hne => ?_⟩
  have hin := (h.mem_iff other).mpr ⟨stamp', hstamp'⟩
  rw [hsplit, mem_append, mem_cons] at hin
  rcases hin with hin | rfl | hin
  · have hnot := hfront other hin
    simp [hother] at hnot
  · exact absurd rfl hne
  · have hordered := h.ordered
    rw [hsplit, pairwise_append] at hordered
    exact (pairwise_cons.mp hordered.2.1).1 other hin stamp stamp' hstamp hstamp'

theorem find?_none (h : Represents stamps next recent)
    (hfind : recent.find? p = none) {key : κ} {stamp : Nat} (hstamp : stamps[key]? = some stamp) :
    p key = false := by
  simpa using find?_eq_none.mp hfind key ((h.mem_iff key).mpr ⟨stamp, hstamp⟩)

end Represents

/-- The keys of a map by their stamps, the greatest first. -/
def byStamp (stamps : KeyMap κ Nat) : List κ :=
  (stamps.toList.mergeSort fun newer older => decide (older.2 ≤ newer.2)).map Prod.fst

variable [Std.LawfulEqOrd κ] {stamps : KeyMap κ Nat}

theorem mem_byStamp_iff {key : κ} : key ∈ byStamp stamps ↔ ∃ stamp, stamps[key]? = some stamp := by
  simp only [byStamp, mem_map, mem_mergeSort, Prod.exists, mem_toList_iff_get]
  constructor
  · rintro ⟨other, stamp, hstamp, rfl⟩
    exact ⟨stamp, hstamp⟩
  · rintro ⟨stamp, hstamp⟩
    exact ⟨key, stamp, hstamp, rfl⟩

theorem nodup_byStamp : (byStamp stamps).Nodup := by
  have hkeys : (stamps.toList.map Prod.fst).Nodup := by
    rw [Std.ExtTreeMap.map_fst_toList_eq_keys]
    exact keys_nodup stamps
  exact (((mergeSort_perm _ _).map Prod.fst).nodup_iff).mpr hkeys

theorem byStamp_empty : byStamp (∅ : KeyMap κ Nat) = [] := by
  apply eq_nil_iff_forall_not_mem.mpr
  intro key hkey
  obtain ⟨stamp, hstamp⟩ := mem_byStamp_iff.mp hkey
  simp at hstamp

/-- Distinct stamps below the next one stand for the keys in their order. -/
theorem represents_byStamp {next : Nat}
    (hdistinct : ∀ (first second : κ) (stamp : Nat), stamps[first]? = some stamp →
      stamps[second]? = some stamp → first = second)
    (hbelow : ∀ (key : κ) (stamp : Nat), stamps[key]? = some stamp → stamp < next) :
    Represents stamps next (byStamp stamps) where
  mem_iff key := mem_byStamp_iff
  ordered := by
    have hsorted := @pairwise_mergeSort _ (fun (newer older : κ × Nat) =>
      decide (older.2 ≤ newer.2)) (by simp only [decide_eq_true_eq]; intros; omega)
      (by simp only [Bool.or_eq_true, decide_eq_true_eq]; intros; omega) stamps.toList
    have hapart : (byStamp stamps).Nodup := nodup_byStamp
    rw [byStamp, List.Nodup, pairwise_map] at hapart
    rw [byStamp, pairwise_map]
    refine (hsorted.and hapart).imp_of_mem ?_
    rintro ⟨newer, high⟩ ⟨older, low⟩ hnewer holder ⟨hle, hne⟩ stamp stamp' hstamp hstamp'
    rw [mem_mergeSort, mem_toList_iff_get] at hnewer holder
    rw [hnewer, Option.some.injEq] at hstamp
    rw [holder, Option.some.injEq] at hstamp'
    subst hstamp hstamp'
    refine Nat.lt_of_le_of_ne (by simpa using hle) fun heq => hne ?_
    exact hdistinct newer older high hnewer (heq ▸ holder)
  below := hbelow

end OpenGpui.Recency
