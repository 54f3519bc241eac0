/-
Text as `str` sees it, and unsigned counters as natural numbers up to the maximum.
-/
import Mathlib.Algebra.Group.Nat.Defs
import Mathlib.Tactic.Common

namespace OpenGpui

open List

variable (c : Char)

/-- The characters `str::trim` removes. -/
def isWhitespace : Bool :=
  decide (9 ≤ c.toNat ∧ c.toNat ≤ 13) || c.toNat == 0x20 || c.toNat == 0x85 ||
  c.toNat == 0xA0 || c.toNat == 0x1680 || decide (0x2000 ≤ c.toNat ∧ c.toNat ≤ 0x200A) ||
  c.toNat == 0x2028 || c.toNat == 0x2029 || c.toNat == 0x202F || c.toNat == 0x205F ||
  c.toNat == 0x3000

/-- `text.trim().is_empty()`. -/
def trimIsEmpty (text : String) : Bool := text.toList.all isWhitespace

variable (text : List Char)

/-- `str::trim` on the characters of a text. -/
def trim : List Char := ((text.dropWhile isWhitespace).reverse.dropWhile isWhitespace).reverse

/-- A text whose ends are no white space is its own trim. -/
theorem trim_eq_self {text : List Char} (hfirst : ∀ c ∈ text.head?, isWhitespace c = false)
    (hlast : ∀ c ∈ text.getLast?, isWhitespace c = false) : trim text = text := by
  have hdrop : ∀ chars : List Char, (∀ c ∈ chars.head?, isWhitespace c = false) →
      chars.dropWhile isWhitespace = chars := by
    intro chars h
    cases chars with
    | nil => rfl
    | cons c rest => rw [dropWhile_cons_of_neg (by simpa using h c rfl)]
  rw [trim, hdrop text hfirst, hdrop text.reverse (by rwa [head?_reverse]), reverse_reverse]

theorem head?_dropWhile_not {p : Char → Bool} (text : List Char) :
    ∀ c ∈ (text.dropWhile p).head?, p c = false := by
  intro c hc
  have h := List.head?_dropWhile_not p text
  rw [Option.mem_def.mp hc] at h
  exact h

theorem getLast?_trim : ∀ c ∈ (trim text).getLast?, isWhitespace c = false := by
  rw [trim, getLast?_reverse]
  exact head?_dropWhile_not _

theorem head?_trim : ∀ c ∈ (trim text).head?, isWhitespace c = false := by
  intro c hc
  have hstart : trim text <+: text.dropWhile isWhitespace := by
    rw [← reverse_suffix, trim, reverse_reverse]
    exact dropWhile_suffix _
  apply head?_dropWhile_not text
  obtain ⟨rest, hrest⟩ := hstart
  rw [← hrest]
  cases htrim : trim text with
  | nil => simp [htrim] at hc
  | cons first others => simpa [htrim] using hc

theorem toNat_toLower :
    c.toLower.toNat = if 65 ≤ c.toNat ∧ c.toNat ≤ 90 then c.toNat + 32 else c.toNat := by
  delta Char.toLower
  split
  · rename_i h
    have hupper : 65 ≤ c.toNat ∧ c.toNat ≤ 90 := h
    have hle : c.val.toNat ≤ 90 := hupper.2
    have hadd : (c.val + 32).toNat = (c.val.toNat + 32) % 2 ^ 32 := UInt32.toNat_add _ _
    rw [if_pos hupper]
    exact hadd.trans (Nat.mod_eq_of_lt (by omega))
  · rename_i h
    exact (if_neg fun hupper => h hupper).symm

theorem toLower_toLower : c.toLower.toLower = c.toLower := by
  apply Char.ext
  apply UInt32.toNat_inj.mp
  show c.toLower.toLower.toNat = c.toLower.toNat
  have honce := toNat_toLower c
  rw [toNat_toLower c.toLower, if_neg]
  rw [honce]
  split <;> omega

theorem isWhitespace_of_letter {c : Char} (hlow : 33 ≤ c.toNat) (hhigh : c.toNat ≤ 127) :
    isWhitespace c = false := by
  simp only [isWhitespace, Bool.or_eq_false_iff, decide_eq_false_iff_not, beq_eq_false_iff_ne]
  omega

theorem isWhitespace_toLower : isWhitespace c.toLower = isWhitespace c := by
  have hlower := toNat_toLower c
  by_cases hupper : 65 ≤ c.toNat ∧ c.toNat ≤ 90
  · rw [if_pos hupper] at hlower
    rw [isWhitespace_of_letter (by omega) (by omega), isWhitespace_of_letter (by omega) (by omega)]
  · rw [if_neg hupper] at hlower
    rw [isWhitespace, isWhitespace, hlower]

end OpenGpui

namespace OpenGpui.U64

def MAX : Nat := 2 ^ 64 - 1

def saturatingAdd (left right : Nat) : Nat := min (left + right) MAX

def saturatingMul (left right : Nat) : Nat := min (left * right) MAX

def checkedAdd (left right : Nat) : Option Nat :=
  if left + right ≤ MAX then some (left + right) else none

variable {left right : Nat}

theorem checkedAdd_eq_some_iff {sum : Nat} :
    checkedAdd left right = some sum ↔ sum = left + right ∧ left + right ≤ MAX := by
  by_cases h : left + right ≤ MAX
  · simp [checkedAdd, h, eq_comm]
  · simp [checkedAdd, h]

theorem saturatingAdd_of_le (h : left + right ≤ MAX) :
    saturatingAdd left right = left + right := Nat.min_eq_left h

theorem saturatingMul_of_le (h : left * right ≤ MAX) :
    saturatingMul left right = left * right := Nat.min_eq_left h

end OpenGpui.U64

namespace OpenGpui.U16

def MAX : Nat := 2 ^ 16 - 1

variable (left right : Nat)

def saturatingAdd : Nat := min (left + right) MAX

def checkedAdd : Option Nat := if left + right ≤ MAX then some (left + right) else none

theorem checkedAdd_of_le {left right : Nat} (h : left + right ≤ MAX) :
    checkedAdd left right = some (left + right) := if_pos h

theorem eq_of_checkedAdd {left right sum : Nat} (h : checkedAdd left right = some sum) :
    sum = left + right := by
  rw [checkedAdd] at h
  split at h
  · exact (Option.some.inj h).symm
  · cases h

end OpenGpui.U16
