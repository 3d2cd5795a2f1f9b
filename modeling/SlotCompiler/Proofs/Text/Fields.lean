import SlotCompiler.Text.Padding

/-!
# Fields of a listing

A listing puts fields one behind the other, and a field can be read back if it shows where it ends.
That may be the first character of some sort (`append_inj_of_stops`), such as a blank behind a name.
A decimal number ends where no digit follows, and zeros in front of it do not change what it says
(`Padding.zeros_append_inj`), however many there are.
-/

set_option autoImplicit false

namespace SlotCompiler

section TakeWhile

variable {part : Char → Bool} {text behind : List Char}

/-- What is taken of a text that ends where nothing more is taken is the whole text. -/
theorem takeWhile_append_of_stops (taken : ∀ character ∈ text, part character = true)
    (stops : ∀ character ∈ behind.head?, part character = false) :
    (text ++ behind).takeWhile part = text ∧ (text ++ behind).dropWhile part = behind := by
  have left : behind.dropWhile part = behind := by
    cases behind with
    | nil => rfl
    | cons character behind =>
        rw [List.dropWhile_cons, stops character rfl, if_neg Bool.false_ne_true]
  have none : behind.takeWhile part = [] := by
    have whole := @List.takeWhile_append_dropWhile _ part behind
    rwa [left, List.append_left_eq_self] at whole
  rw [List.takeWhile_append_of_pos taken, List.dropWhile_append_of_pos taken, none, left,
    List.append_nil]
  exact ⟨rfl, rfl⟩

theorem stops_dropWhile (part : Char → Bool) (text : List Char) :
    ∀ character ∈ (text.dropWhile part).head?, part character = false := by
  intro character first
  have stops := text.head?_dropWhile_not part
  rw [Option.mem_def.mp first] at stops
  exact stops

theorem stops_cons {character : Char} (mark : part character = false) (rest : List Char) :
    ∀ first ∈ (character :: rest).head?, part first = false := by
  rintro _ ⟨⟩
  exact mark

theorem stops_blanks {character : Char} (count : Nat) (blank : part ' ' = false)
    (mark : part character = false) (rest : List Char) :
    ∀ first ∈ (List.replicate count ' ' ++ character :: rest).head?, part first = false := by
  cases count with
  | zero => exact stops_cons mark rest
  | succ count => exact stops_cons blank _

end TakeWhile

/-- **Fields that end alike are told apart** from what stands behind them. -/
theorem append_inj_of_stops (part : Char → Bool) {first second front back : List Char}
    (one : ∀ character ∈ first, part character = true)
    (other : ∀ character ∈ second, part character = true)
    (ends : ∀ character ∈ front.head?, part character = false)
    (stops : ∀ character ∈ back.head?, part character = false)
    (same : first ++ front = second ++ back) : first = second ∧ front = back := by
  obtain ⟨taken, left⟩ := takeWhile_append_of_stops one ends
  obtain ⟨taken', left'⟩ := takeWhile_append_of_stops other stops
  rw [same] at taken left
  exact ⟨taken.symm.trans taken', left.symm.trans left'⟩

namespace Padding

theorem toList_right (width : Nat) (text : String) :
    (right width text).toList = text.toList ++ List.replicate (width - text.length) ' ' := by
  rw [right, String.toList_append, String.toList_ofList]

theorem toList_zeros (width number : Nat) : (zeros width number).toList =
    List.replicate (width - (toString number).length) '0' ++ Nat.toDigits 10 number := by
  rw [zeros, String.toList_append, String.toList_ofList, Nat.toString_eq_repr, Nat.toList_repr]

theorem zeros_zero (number : Nat) : zeros 0 number = toString number := by
  rw [zeros, Nat.zero_sub, List.replicate_zero]
  exact String.empty_append

theorem isDigit_of_mem_zeros (width number : Nat) :
    ∀ character ∈ (zeros width number).toList, character.isDigit = true := by
  rw [toList_zeros, List.forall_mem_append]
  refine ⟨fun character member => ?_, fun character member =>
    Nat.isDigit_of_mem_toDigits (by decide) (by decide) member⟩
  rw [List.eq_of_mem_replicate member]
  rfl

/-- Zeros in front of a number do not change it. -/
theorem ofDigitChars_zeros (width number : Nat) :
    Nat.ofDigitChars 10 (zeros width number).toList 0 = number := by
  rw [toList_zeros, Nat.ofDigitChars_append, Nat.ofDigitChars_replicate_zero, Nat.mul_zero,
    Nat.ofDigitChars_ten_toDigits]

/-- **A number can be read back** where no digit follows, whatever its width. -/
theorem zeros_append_inj {width other first second : Nat} {front back : List Char}
    (ends : ∀ character ∈ front.head?, character.isDigit = false)
    (stops : ∀ character ∈ back.head?, character.isDigit = false)
    (same : (zeros width first).toList ++ front = (zeros other second).toList ++ back) :
    first = second ∧ front = back := by
  obtain ⟨digits, rest⟩ := append_inj_of_stops Char.isDigit (isDigit_of_mem_zeros width first)
    (isDigit_of_mem_zeros other second) ends stops same
  refine ⟨?_, rest⟩
  rw [← ofDigitChars_zeros width first, digits, ofDigitChars_zeros]

end Padding

theorem toString_append_inj {first second : Nat} {front back : List Char}
    (ends : ∀ character ∈ front.head?, character.isDigit = false)
    (stops : ∀ character ∈ back.head?, character.isDigit = false)
    (same : (toString first).toList ++ front = (toString second).toList ++ back) :
    first = second ∧ front = back := by
  rw [← Padding.zeros_zero, ← Padding.zeros_zero] at same
  exact Padding.zeros_append_inj ends stops same

end SlotCompiler
