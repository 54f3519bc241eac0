/-
The encoded keys of row identities: tags, decimal and hexadecimal numbers in front of
their delimiter and texts behind their length in bytes, so that no two identities share
a key.
-/
import OpenGpui.Library.SelfDelimiting
import OpenGpui.UiCore.TableCells

namespace OpenGpui.UiCore

open List SelfDelimiting

/-- A text is preceded by its length. -/
def pushIdentityText (encoded value : String) : String :=
  encoded ++ toString value.utf8ByteSize ++ ":" ++ value

/-- The format `{:016x}`. -/
def hexText (bits : Nat) : String := String.ofList ((Nat.toDigits 16 bits).leftpad 16 '0')

variable (encoded : String)

def pushGroupValueIdentity : TableGroupValueIdentity → String
  | .empty => encoded ++ "e"
  | .text value => pushIdentityText (encoded ++ "t") value
  | .number bits => encoded ++ "n" ++ hexText bits ++ ";"
  | .bool value => encoded ++ "b" ++ if value then "1" else "0"

def pushSourceInstance : TableSourceInstanceIdentity → String
  | .unique => encoded ++ "u"
  | .explicit instanceId => pushIdentityText (encoded ++ "e") instanceId
  | .occurrence sourceSnapshot occurrence =>
    encoded ++ "o" ++ toString sourceSnapshot ++ ";" ++ toString occurrence ++ ";"

variable (segment : TableGroupRowSegment)

def pushGroupSegment : String :=
  pushGroupValueIdentity (pushIdentityText encoded segment.columnId) segment.value

def encodeTableRowIdentity : TableRowIdentity → String
  | .source source =>
    pushSourceInstance (pushIdentityText ("tr2" ++ "s") source.rowId) source.instanceIdentity
  | .group segments =>
    segments.foldl pushGroupSegment ("tr2" ++ "g" ++ toString segments.length ++ ";")

/-! What each push appends. -/

def numberCode (n : Nat) : List Char := Nat.toDigits 10 n ++ [';']

/-- What is pushed for a text. -/
def textCode (value : String) : List Char :=
  Nat.toDigits 10 value.utf8ByteSize ++ ':' :: value.toList

/-- What is pushed for the value of a group. -/
def groupValueCode : TableGroupValueIdentity → List Char
  | .empty => ['e']
  | .text value => 't' :: textCode value
  | .number bits => 'n' :: ((Nat.toDigits 16 bits).leftpad 16 '0' ++ [';'])
  | .bool value => ['b', if value then '1' else '0']

def sourceInstanceCode : TableSourceInstanceIdentity → List Char
  | .unique => ['u']
  | .explicit instanceId => 'e' :: textCode instanceId
  | .occurrence sourceSnapshot occurrence =>
    'o' :: (numberCode sourceSnapshot ++ numberCode occurrence)

def groupSegmentCode : List Char := textCode segment.columnId ++ groupValueCode segment.value

theorem toList_toString (n : Nat) : (toString n).toList = Nat.toDigits 10 n := by
  rw [Nat.toString_eq_repr, Nat.toList_repr]

theorem toList_pushIdentityText (encoded value : String) :
    (pushIdentityText encoded value).toList = encoded.toList ++ textCode value := by
  simp [pushIdentityText, textCode]

theorem toList_pushGroupValueIdentity (value : TableGroupValueIdentity) :
    (pushGroupValueIdentity encoded value).toList = encoded.toList ++ groupValueCode value := by
  cases value with
  | empty => simp [pushGroupValueIdentity, groupValueCode]
  | text value => simp [pushGroupValueIdentity, groupValueCode, toList_pushIdentityText]
  | number bits => simp [pushGroupValueIdentity, groupValueCode, hexText]
  | bool value => cases value <;> simp [pushGroupValueIdentity, groupValueCode]

theorem toList_pushSourceInstance (identity : TableSourceInstanceIdentity) :
    (pushSourceInstance encoded identity).toList =
      encoded.toList ++ sourceInstanceCode identity := by
  cases identity with
  | unique => simp [pushSourceInstance, sourceInstanceCode]
  | explicit instanceId => simp [pushSourceInstance, sourceInstanceCode, toList_pushIdentityText]
  | occurrence sourceSnapshot occurrence =>
    simp [pushSourceInstance, sourceInstanceCode, numberCode]

theorem toList_foldl_pushGroupSegment (segments : List TableGroupRowSegment) (encoded : String) :
    (segments.foldl pushGroupSegment encoded).toList =
      encoded.toList ++ segments.flatMap groupSegmentCode := by
  induction segments generalizing encoded with
  | nil => simp
  | cons segment rest ih =>
    rw [foldl_cons, ih, pushGroupSegment, toList_pushGroupValueIdentity,
      toList_pushIdentityText, flatMap_cons, groupSegmentCode]
    simp only [append_assoc]

/-! Each of them is read in one way. -/

theorem digitChar_ne_delimiter :
    (∀ digit < 16, Nat.digitChar digit ≠ ';') ∧ ∀ digit < 16, Nat.digitChar digit ≠ ':' := by
  decide

theorem selfDelimiting_numberCode : SelfDelimiting numberCode := decimal digitChar_ne_delimiter.1

theorem selfDelimiting_textCode : SelfDelimiting textCode := text digitChar_ne_delimiter.2

theorem selfDelimiting_groupValueCode : SelfDelimiting groupValueCode := by
  intro one two rest other h
  cases one with
  | empty =>
    cases two with
    | empty => exact ⟨rfl, (cons.inj h).2⟩
    | _ => simp [groupValueCode] at h
  | text one =>
    cases two with
    | text two =>
      obtain ⟨rfl, hrest⟩ := selfDelimiting_textCode (cons.inj h).2
      exact ⟨rfl, hrest⟩
    | _ => simp [groupValueCode] at h
  | number one =>
    cases two with
    | number two =>
      obtain ⟨rfl, hrest⟩ := numeral (by omega) (by omega) 16
        digitChar_ne_delimiter.1 (cons.inj h).2
      exact ⟨rfl, hrest⟩
    | _ => simp [groupValueCode] at h
  | bool one =>
    cases two with
    | bool two =>
      cases one <;> cases two <;> simp_all [groupValueCode]
    | _ => simp [groupValueCode] at h

theorem selfDelimiting_sourceInstanceCode : SelfDelimiting sourceInstanceCode := by
  intro one two rest other h
  cases one with
  | unique =>
    cases two with
    | unique => exact ⟨rfl, (cons.inj h).2⟩
    | _ => simp [sourceInstanceCode] at h
  | explicit one =>
    cases two with
    | explicit two =>
      obtain ⟨rfl, hrest⟩ := selfDelimiting_textCode (cons.inj h).2
      exact ⟨rfl, hrest⟩
    | _ => simp [sourceInstanceCode] at h
  | occurrence snapshot occurrence =>
    cases two with
    | occurrence snapshot' occurrence' =>
      have htail : numberCode snapshot ++ numberCode occurrence ++ rest =
          numberCode snapshot' ++ numberCode occurrence' ++ other := (cons.inj h).2
      rw [append_assoc, append_assoc] at htail
      obtain ⟨hsnapshot, hnext⟩ := selfDelimiting_numberCode htail
      obtain ⟨hoccurrence, hrest⟩ := selfDelimiting_numberCode hnext
      subst hsnapshot hoccurrence
      exact ⟨rfl, hrest⟩
    | _ => simp [sourceInstanceCode] at h

theorem selfDelimiting_groupSegmentCode : SelfDelimiting groupSegmentCode := by
  intro one two rest other h
  rw [groupSegmentCode, groupSegmentCode, append_assoc, append_assoc] at h
  obtain ⟨hcolumn, htail⟩ := selfDelimiting_textCode h
  obtain ⟨hvalue, hrest⟩ := selfDelimiting_groupValueCode htail
  cases one
  cases two
  subst hcolumn hvalue
  exact ⟨rfl, hrest⟩

/-- Equal keys are the keys of one identity. -/
theorem encodeTableRowIdentity_injective : Function.Injective encodeTableRowIdentity := by
  intro one two h
  have hchars := congrArg String.toList h
  cases one with
  | source one =>
    cases two with
    | source two =>
      simp only [encodeTableRowIdentity, toList_pushSourceInstance, toList_pushIdentityText,
        append_assoc, append_cancel_left_eq] at hchars
      obtain ⟨hid, htail⟩ := selfDelimiting_textCode hchars
      have hinstance := selfDelimiting_sourceInstanceCode.injective htail
      cases one
      cases two
      subst hid hinstance
      rfl
    | group two =>
      simp [encodeTableRowIdentity, toList_pushSourceInstance, toList_pushIdentityText,
        toList_foldl_pushGroupSegment] at hchars
  | group one =>
    cases two with
    | source two =>
      simp [encodeTableRowIdentity, toList_pushSourceInstance, toList_pushIdentityText,
        toList_foldl_pushGroupSegment] at hchars
    | group two =>
      simp only [encodeTableRowIdentity, toList_foldl_pushGroupSegment, String.toList_append,
        toList_toString, append_assoc, append_cancel_left_eq] at hchars
      have hcodes : numberCode one.length ++ one.flatMap groupSegmentCode =
          numberCode two.length ++ two.flatMap groupSegmentCode := by
        simpa [numberCode] using hchars
      obtain ⟨hlength, htail⟩ := selfDelimiting_numberCode hcodes
      have hends : one.flatMap groupSegmentCode ++ [] = two.flatMap groupSegmentCode ++ [] := by
        rw [htail]
      rw [(selfDelimiting_groupSegmentCode.flatMap hlength hends).1]

end OpenGpui.UiCore
