import SlotCompiler.Proofs.Scanning.Places

/-!
# Classes of bytes

The vocabulary is ASCII, so its classes of characters are classes of bytes: a byte of a character is
in the class exactly if the character is, because no byte of a character outside ASCII is ASCII
(`Agree`).  So what stands at a place in a text can be told from the byte there.
-/

set_option autoImplicit false

namespace SlotCompiler

/-- A space, a tab, a newline, a form feed or a carriage return. -/
def isBlankByte (byte : UInt8) : Bool :=
  byte = 0x20 || byte = 0x09 || byte = 0x0A || byte = 0x0C || byte = 0x0D

/-- A decimal digit. -/
def isDigitByte (byte : UInt8) : Bool := 0x30 ≤ byte && byte ≤ 0x39

/-- A letter of ASCII or the underscore. -/
def isWordStartByte (byte : UInt8) : Bool :=
  (0x41 ≤ byte && byte ≤ 0x5A) || (0x61 ≤ byte && byte ≤ 0x7A) || byte = 0x5F

/-- A letter of ASCII, the underscore or a decimal digit. -/
def isWordByte (byte : UInt8) : Bool := isWordStartByte byte || isDigitByte byte

/-- A class of bytes is a class of characters: every byte of a character is in the first one exactly
if the character is in the second one. -/
def Agree (ofByte : UInt8 → Bool) (ofCharacter : Char → Bool) : Prop :=
  ∀ character, ∀ byte ∈ String.utf8EncodeChar character, ofByte byte = ofCharacter character

/-- Classes within ASCII agree if they do there. -/
theorem agree_of_ascii {ofByte : UInt8 → Bool} {ofCharacter : Char → Bool}
    (ascii : ∀ {character}, ofCharacter character = true → IsAscii character)
    (same : ∀ number < 0x100, ofByte (UInt8.ofNat number) =
      (decide (number < 0x80) && ofCharacter (Char.ofNat number))) : Agree ofByte ofCharacter := by
  intro character byte member
  have there := same byte.toNat byte.toNat_lt
  rw [UInt8.ofNat_toNat] at there
  rw [there]
  by_cases inside : IsAscii character
  · have small : character.val.toNat < 0x80 := inside
    rw [inside.utf8EncodeChar_eq, List.mem_singleton] at member
    have number : byte.toNat = character.toNat := by
      rw [member, UInt8.toNat_ofNat', Nat.mod_eq_of_lt (Nat.lt_trans small (by decide))]
      rfl
    have low : character.toNat < 0x80 := inside
    rw [number, decide_eq_true low, Bool.true_and, Char.ofNat_toNat]
  · have high : ¬ byte.toNat < 0x80 :=
      Nat.not_lt_of_le (le_of_mem_utf8EncodeChar inside byte member)
    rw [decide_eq_false high, Bool.false_and]
    exact (Bool.eq_false_iff.mpr fun holds => inside (ascii holds)).symm

theorem agree_isBlank : Agree isBlankByte isBlank :=
  agree_of_ascii isAscii_of_isBlank (by decide +kernel)

theorem agree_isDigit : Agree isDigitByte Char.isDigit :=
  agree_of_ascii isAscii_of_isDigit (by decide +kernel)

theorem agree_isWordStart : Agree isWordStartByte isWordStart :=
  agree_of_ascii isAscii_of_isWordStart (by decide +kernel)

theorem agree_isWordPart : Agree isWordByte isWordPart :=
  agree_of_ascii isAscii_of_isWordPart (by decide +kernel)

theorem utf8EncodeChar_ne_nil (character : Char) : String.utf8EncodeChar character ≠ [] := by
  have positive := character.utf8Size_pos
  rw [← String.length_utf8EncodeChar] at positive
  exact List.length_pos_iff.mp positive

namespace Agree

variable {ofByte : UInt8 → Bool} {ofCharacter : Char → Bool}

/-- All bytes of a text are in a class exactly if its characters are, and so for none. -/
theorem forall_mem (agree : Agree ofByte ofCharacter) (text : List Char) (value : Bool) :
    (∀ byte ∈ Utf8.encode text, ofByte byte = value) ↔
      ∀ character ∈ text, ofCharacter character = value := by
  constructor
  · intro bytes character member
    obtain ⟨byte, inside⟩ := List.exists_mem_of_ne_nil _ (utf8EncodeChar_ne_nil character)
    rw [← agree character byte inside]
    exact bytes byte (List.mem_flatMap.mpr ⟨character, member, inside⟩)
  · intro characters byte member
    obtain ⟨character, inside, part⟩ := List.mem_flatMap.mp member
    rw [agree character byte part]
    exact characters character inside

/-- The first byte of a text is in a class exactly if its first character is. -/
theorem forall_head (agree : Agree ofByte ofCharacter) (text : List Char) (value : Bool) :
    (∀ byte ∈ (Utf8.encode text).head?, ofByte byte = value) ↔
      ∀ character ∈ text.head?, ofCharacter character = value := by
  cases text with
  | nil => exact ⟨fun _ => nofun, fun _ => nofun⟩
  | cons character text =>
      obtain ⟨byte, bytes, spelled⟩ := List.exists_cons_of_ne_nil (utf8EncodeChar_ne_nil character)
      have inside : byte ∈ String.utf8EncodeChar character := spelled ▸ List.mem_cons_self
      have same := agree character byte inside
      rw [Utf8.encode_cons, spelled, List.cons_append, List.head?_cons, List.head?_cons]
      simp only [Option.mem_some_iff, forall_eq', same]

end Agree

/-! ## Bytes at places -/

/-- Every byte of a text is one of those of a character of the text. -/
theorem exists_character_of_byte {text : List Char} {offset : Nat} {byte : UInt8}
    (there : (Utf8.encode text)[offset]? = some byte) :
    ∃ before character behind, text = before ++ character :: behind ∧
      Utf8.size before ≤ offset ∧ offset < Utf8.size (before ++ [character]) ∧
      byte ∈ String.utf8EncodeChar character := by
  induction text generalizing offset with
  | nil => cases there
  | cons character text ih =>
      rw [Utf8.encode_cons] at there
      by_cases inside : offset < (String.utf8EncodeChar character).length
      · rw [List.getElem?_append_left inside] at there
        rw [String.length_utf8EncodeChar] at inside
        exact ⟨[], character, text, rfl, Nat.zero_le _, inside, List.mem_of_getElem? there⟩
      · rw [List.getElem?_append_right (Nat.le_of_not_lt inside)] at there
        rw [String.length_utf8EncodeChar] at inside there
        obtain ⟨before, other, behind, rfl, start, stop, member⟩ := ih there
        refine ⟨character :: before, other, behind, rfl, ?_, ?_, member⟩
        · rw [Utf8.size_cons]
          omega
        · rw [List.cons_append, Utf8.size_cons]
          omega

end SlotCompiler
