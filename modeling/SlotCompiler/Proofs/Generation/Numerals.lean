import Mathlib.Data.Nat.Digits.Defs
import SlotCompiler.Generation.Integer

/-!
# Numbers that texts denote

A text denotes a number in decimal notation, whatever its size and however many zeros stand in
front (`IntegerLiteral.Denotes`).  An integer is read as a word exactly when it denotes a number
that is one, and then as that number (`IntegerLiteral.read?_eq_some_iff`).
-/

set_option autoImplicit false

namespace SlotCompiler.IntegerLiteral

/-- A text is decimal notation for a number: digits, and perhaps a plus sign in front of them. -/
def Denotes (text : String) (number : Nat) : Prop :=
  ∃ sign digits : List Char, text.toList = sign ++ digits ∧ (sign = [] ∨ sign = ['+']) ∧
    digits ≠ [] ∧ (∀ digit ∈ digits, digit.isDigit = true) ∧
    number = Nat.ofDigits 10 (digits.reverse.map fun digit => digit.toNat - '0'.toNat)

theorem value_eq_ofDigits (digits : List Char) :
    value digits =
      Nat.ofDigits 10 (digits.reverse.map fun digit => digit.toNat - '0'.toNat) := by
  rw [Nat.ofDigits_eq_foldr, List.foldr_map, List.foldr_reverse, value]
  simp only [Nat.cast_id, Nat.add_comm]

/-- A sign is no digit, so the digits of a text are what stands behind the sign. -/
theorem unsigned_of_digits {digits : List Char} (all : ∀ digit ∈ digits, digit.isDigit = true) :
    unsigned digits = digits := by
  unfold unsigned
  split
  · exact absurd (all '+' List.mem_cons_self) (by decide)
  · rfl

theorem exists_sign (text : List Char) :
    ∃ sign, text = sign ++ unsigned text ∧ (sign = [] ∨ sign = ['+']) := by
  unfold unsigned
  split
  · exact ⟨['+'], rfl, .inr rfl⟩
  · exact ⟨[], rfl, .inl rfl⟩

theorem denotes_iff {text : String} {number : Nat} :
    Denotes text number ↔ unsigned text.toList ≠ [] ∧
      (unsigned text.toList).all Char.isDigit = true ∧ value (unsigned text.toList) = number := by
  constructor
  · rintro ⟨sign, digits, spelled, signed, some, all, rfl⟩
    have same : unsigned text.toList = digits := by
      rcases signed with rfl | rfl
      · rw [spelled, List.nil_append, unsigned_of_digits all]
      · rw [spelled]
        rfl
    rw [same, List.all_eq_true]
    exact ⟨some, all, value_eq_ofDigits digits⟩
  · rintro ⟨some, all, rfl⟩
    obtain ⟨sign, spelled, signed⟩ := exists_sign text.toList
    exact ⟨sign, _, spelled, signed, some, List.all_eq_true.mp all, value_eq_ofDigits _⟩

/-- **A text is read as the word it denotes.** -/
theorem read?_eq_some_iff {text : String} {word : UInt64} :
    read? text = some word ↔ Denotes text word.toNat := by
  rw [denotes_iff, read?]
  split
  · rename_i read
    rw [Option.some_inj]
    constructor
    · rintro rfl
      exact ⟨read.1, read.2.1, (UInt64.toNat_ofNat_of_lt' read.2.2).symm⟩
    · rintro ⟨-, -, same⟩
      rw [same, UInt64.ofNat_toNat]
  · rename_i unread
    constructor
    · exact nofun
    · rintro ⟨some, all, same⟩
      exact absurd ⟨some, all, same ▸ word.toNat_lt_size⟩ unread

/-- Of a text that denotes a number, the number is read, if it is a word. -/
theorem Denotes.read?_eq {text : String} {number : Nat} (denotes : Denotes text number) :
    read? text = if number < UInt64.size then some (.ofNat number) else none := by
  obtain ⟨some, all, rfl⟩ := denotes_iff.mp denotes
  simp only [read?, some, all, ne_eq, not_false_eq_true, true_and]

/-- A text is not read when it denotes no number or one that is not a word. -/
theorem read?_eq_none_iff {text : String} :
    read? text = none ↔ ¬ ∃ number, Denotes text number ∧ number < UInt64.size := by
  rw [Option.eq_none_iff_forall_ne_some]
  constructor
  · rintro unread ⟨number, denotes, small⟩
    refine unread (.ofNat number) (read?_eq_some_iff.mpr ?_)
    rwa [UInt64.toNat_ofNat_of_lt' small]
  · intro never word read
    exact never ⟨word.toNat, read?_eq_some_iff.mp read, word.toNat_lt_size⟩

end SlotCompiler.IntegerLiteral
