/-
Codes that tell where they end: what follows the code of a value never changes which
value is read.  Numerals in front of a delimiter, texts behind their length, and
sequences of such codes are of this kind, and they are injective.
-/
import Mathlib.Tactic.Common

namespace OpenGpui

open String List Nat

universe u

/-- From the code of a value and what follows it, both can be told. -/
def SelfDelimiting {α : Type u} (code : α → List Char) : Prop :=
  ∀ ⦃one two : α⦄ ⦃rest other : List Char⦄, code one ++ rest = code two ++ other →
    one = two ∧ rest = other

namespace SelfDelimiting

variable {α : Type u} {code : α → List Char}

theorem injective (h : SelfDelimiting code) : Function.Injective code := by
  intro one two hsame
  have happ : code one ++ [] = code two ++ [] := by rw [hsame]
  exact (h happ).1

variable {rest other : List Char}

/-- Equally many codes in a row. -/
theorem flatMap (h : SelfDelimiting code) {ones twos : List α} (hlength : ones.length = twos.length)
    (hsame : ones.flatMap code ++ rest = twos.flatMap code ++ other) :
    ones = twos ∧ rest = other := by
  induction ones generalizing twos with
  | nil =>
    obtain rfl := eq_nil_of_length_eq_zero hlength.symm
    exact ⟨rfl, hsame⟩
  | cons one ones ih =>
    cases twos with
    | nil => cases hlength
    | cons two twos =>
      rw [List.flatMap_cons, List.flatMap_cons, List.append_assoc, List.append_assoc] at hsame
      obtain ⟨rfl, htail⟩ := h hsame
      obtain ⟨rfl, hrest⟩ := ih (Nat.succ.inj hlength) htail
      exact ⟨rfl, hrest⟩

/-! Numerals. -/

variable {base : Nat}

theorem digits_of_toDigits (hbase : 1 < base) (n : Nat) :
    ∀ ch ∈ Nat.toDigits base n, ∃ digit < base, ch = Nat.digitChar digit := by
  induction n using Nat.strongRecOn with
  | ind n ih =>
    rw [toDigits_eq_if hbase]
    split
    · rename_i hlt
      intro ch hch
      exact ⟨n, hlt, mem_singleton.mp hch⟩
    · intro ch hch
      rcases mem_append.mp hch with hch | hch
      · exact ih (n / base) (div_lt_self (by omega) hbase) ch hch
      · exact ⟨n % base, mod_lt n (by omega), mem_singleton.mp hch⟩

/-- The number a digit up to `f` stands for. -/
def digitValue (ch : Char) : Nat := if ch.toNat < 97 then ch.toNat - 48 else ch.toNat - 87

theorem digitValue_digitChar {digit : Nat} (h : digit < 16) :
    digitValue (Nat.digitChar digit) = digit := by
  revert digit
  decide

def numeralValue (base : Nat) (digits : List Char) : Nat :=
  digits.foldl (fun value ch => base * value + digitValue ch) 0

theorem numeralValue_toDigits (hbase : 1 < base) (hsmall : base ≤ 16) (n : Nat) :
    numeralValue base (Nat.toDigits base n) = n := by
  induction n using Nat.strongRecOn with
  | ind n ih =>
    rw [toDigits_eq_if hbase]
    split
    · rw [numeralValue, foldl_cons, foldl_nil, digitValue_digitChar (by omega)]
      omega
    · have hdigit := mod_lt n (show 0 < base by omega)
      have hfront := ih (n / base) (div_lt_self (by omega) hbase)
      rw [numeralValue] at hfront ⊢
      rw [foldl_append, hfront, foldl_cons, foldl_nil, digitValue_digitChar (by omega), div_add_mod]

/-- Zeros in front of a numeral do not count. -/
theorem numeralValue_leftpad (base width : Nat) (digits : List Char) :
    numeralValue base (digits.leftpad width '0') = numeralValue base digits := by
  rw [List.leftpad, numeralValue, foldl_append]
  congr 1
  induction width - digits.length with
  | zero => rfl
  | succ count ih => rw [replicate_succ', foldl_append, ih]; rfl

variable {delimiter : Char}

/-- A numeral with at least so many digits, in front of a character that is no digit. -/
theorem numeral (hbase : 1 < base) (hsmall : base ≤ 16) (width : Nat) (hdelimiter :
    ∀ digit < 16, Nat.digitChar digit ≠ delimiter) :
    SelfDelimiting fun n : Nat => (Nat.toDigits base n).leftpad width '0' ++ [delimiter] := by
  have hdigits : ∀ n, ∀ ch ∈ (Nat.toDigits base n).leftpad width '0', ch ≠ delimiter := by
    intro n ch hch
    rcases mem_append.mp hch with hzero | hch
    · rw [(mem_replicate.mp hzero).2]
      exact hdelimiter 0 (by omega)
    · obtain ⟨digit, hdigit, rfl⟩ := digits_of_toDigits hbase n ch hch
      exact hdelimiter digit (by omega)
  have hsplit : ∀ {ones twos rest other : List Char}, (∀ ch ∈ ones, ch ≠ delimiter) →
      (∀ ch ∈ twos, ch ≠ delimiter) → ones ++ delimiter :: rest = twos ++ delimiter :: other →
        ones = twos ∧ rest = other := by
    intro ones twos rest other hones htwos h
    induction ones generalizing twos with
    | nil =>
      cases twos with
      | nil => exact ⟨rfl, (cons.inj h).2⟩
      | cons two twos => exact absurd (cons.inj h).1.symm (htwos two mem_cons_self)
    | cons one ones ih =>
      cases twos with
      | nil => exact absurd (cons.inj h).1 (hones one mem_cons_self)
      | cons two twos =>
        obtain ⟨rfl, htail⟩ := cons.inj h
        obtain ⟨rfl, hrest⟩ := ih (fun ch hch => hones ch (mem_cons_of_mem _ hch))
          (fun ch hch => htwos ch (mem_cons_of_mem _ hch)) htail
        exact ⟨rfl, hrest⟩
  intro one two rest other h
  simp only [List.append_assoc, List.singleton_append] at h
  obtain ⟨hsame, hrest⟩ := hsplit (hdigits one) (hdigits two) h
  have hvalue := congrArg (numeralValue base) hsame
  rw [numeralValue_leftpad, numeralValue_leftpad, numeralValue_toDigits hbase hsmall,
    numeralValue_toDigits hbase hsmall] at hvalue
  exact ⟨hvalue, hrest⟩

theorem decimal (hdelimiter : ∀ digit < 16, Nat.digitChar digit ≠ delimiter) :
    SelfDelimiting fun n : Nat => Nat.toDigits 10 n ++ [delimiter] := by
  have hpadded : SelfDelimiting fun n : Nat =>
      (Nat.toDigits 10 n).leftpad 0 '0' ++ [delimiter] :=
    numeral (by omega) (by omega) 0 hdelimiter
  simpa only [List.leftpad, Nat.zero_sub, replicate_zero, nil_append] using hpadded

/-! Texts behind their length in bytes. -/

/-- Of two texts with as many bytes, none goes on where the other ends. -/
theorem eq_of_utf8ByteSize {one two : String} (hsize : one.utf8ByteSize = two.utf8ByteSize)
    (h : one.toList ++ rest = two.toList ++ other) : one = two ∧ rest = other := by
  have hlonger : ∀ {short long : String} {more : List Char},
      short.utf8ByteSize = long.utf8ByteSize → long.toList = short.toList ++ more → more = [] := by
    intro short long more hsize hlong
    have happ : long = short ++ String.ofList more := by
      rw [← toList_inj, toList_append, toList_ofList, hlong]
    have hbytes := congrArg utf8ByteSize happ
    rw [utf8ByteSize_append] at hbytes
    have hempty := utf8ByteSize_eq_zero_iff.mp (show (String.ofList more).utf8ByteSize = 0 by omega)
    rw [← @toList_ofList more, hempty]
    rfl
  rcases append_eq_append_iff.mp h with ⟨more, hmore, hrest⟩ | ⟨more, hmore, hrest⟩
  · obtain rfl := hlonger hsize hmore
    rw [append_nil] at hmore
    exact ⟨(toList_inj.mp hmore).symm, hrest⟩
  · obtain rfl := hlonger hsize.symm hmore
    rw [append_nil] at hmore
    exact ⟨toList_inj.mp hmore, hrest.symm⟩

theorem text (hdelimiter : ∀ digit < 16, Nat.digitChar digit ≠ delimiter) :
    SelfDelimiting fun value : String =>
      Nat.toDigits 10 value.utf8ByteSize ++ delimiter :: value.toList := by
  intro one two rest other h
  have hboth : Nat.toDigits 10 one.utf8ByteSize ++ [delimiter] ++ (one.toList ++ rest) =
      Nat.toDigits 10 two.utf8ByteSize ++ [delimiter] ++ (two.toList ++ other) := by
    simpa using h
  obtain ⟨hsize, htail⟩ := decimal hdelimiter hboth
  exact eq_of_utf8ByteSize hsize htail

end SelfDelimiting

end OpenGpui
