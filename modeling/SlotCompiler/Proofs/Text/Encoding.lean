import Mathlib.Data.List.Basic
import SlotCompiler.Proofs.Scanning.Tokens

/-!
# Reading what was written

The bytes of a text are read as that text, whatever bytes stand behind them
(`Utf8.decode_encode_append`), and no bytes are read as a longer text (`Utf8.length_decode_le`).
-/

set_option autoImplicit false

namespace SlotCompiler

namespace Utf8

/-! ## Bytes of a character -/

/-- A byte between the bounds goes on with a character. -/
theorem piecesFrom_some_cons {pending : Pending} {number : Nat} (bytes : List UInt8)
    (low : pending.low.toNat ≤ number % 64 + 128)
    (high : number % 64 + 128 ≤ pending.high.toNat) :
    piecesFrom (some pending) (UInt8.ofNat (number % 64 + 128) :: bytes) =
      match pending.further with
      | 0 => .scalar (Char.ofNat (pending.value * 64 + number % 64)) :: piecesFrom none bytes
      | further + 1 =>
        piecesFrom (some ⟨pending.seen ++ [UInt8.ofNat (number % 64 + 128)],
          pending.value * 64 + number % 64, 0x80, 0xBF, further⟩) bytes := by
  have byte : (UInt8.ofNat (number % 64 + 128)).toNat = number % 64 + 128 := by
    rw [UInt8.toNat_ofNat']
    omega
  have bits : (UInt8.ofNat (number % 64 + 128)).toNat - 0x80 = number % 64 := by omega
  have inside : pending.low ≤ UInt8.ofNat (number % 64 + 128) ∧
      UInt8.ofNat (number % 64 + 128) ≤ pending.high := by
    rw [UInt8.le_iff_toNat_le, UInt8.le_iff_toNat_le, byte]
    exact ⟨low, high⟩
  rw [piecesFrom, step, if_pos inside]
  simp only [bits]
  cases pending.further <;> rfl

/-- Two bytes at the end of a character. -/
theorem piecesFrom_two {pending : Pending} {value : Nat} (bytes : List UInt8)
    (bits : pending.value = value / 4096) (further : pending.further = 1)
    (low : pending.low.toNat ≤ value / 64 % 64 + 128)
    (high : value / 64 % 64 + 128 ≤ pending.high.toNat) :
    piecesFrom (some pending) (UInt8.ofNat (value / 64 % 64 + 128) ::
        UInt8.ofNat (value % 64 + 128) :: bytes) =
      .scalar (Char.ofNat value) :: piecesFrom none bytes := by
  have point : (value / 4096 * 64 + value / 64 % 64) * 64 + value % 64 = value := by omega
  rw [piecesFrom_some_cons _ low high]
  simp only [further, bits]
  rw [piecesFrom_some_cons _ (by show 128 ≤ _; omega) (by show _ ≤ 191; omega)]
  simp only [point]

/-- What a byte between characters means, by its number. -/
theorem first_eq (byte : UInt8) : first byte =
    if byte.toNat < 0x80 then ([.scalar (Char.ofNat byte.toNat)], none)
    else if byte.toNat < 0xC2 then ([.illFormed [byte]], none)
    else if byte.toNat < 0xE0 then ([], some ⟨[byte], byte.toNat - 0xC0, 0x80, 0xBF, 0⟩)
    else if byte.toNat = 0xE0 then ([], some ⟨[byte], 0x0, 0xA0, 0xBF, 1⟩)
    else if byte.toNat = 0xED then ([], some ⟨[byte], 0xD, 0x80, 0x9F, 1⟩)
    else if byte.toNat < 0xF0 then ([], some ⟨[byte], byte.toNat - 0xE0, 0x80, 0xBF, 1⟩)
    else if byte.toNat = 0xF0 then ([], some ⟨[byte], 0x0, 0x90, 0xBF, 2⟩)
    else if byte.toNat < 0xF4 then ([], some ⟨[byte], byte.toNat - 0xF0, 0x80, 0xBF, 2⟩)
    else if byte.toNat = 0xF4 then ([], some ⟨[byte], 0x4, 0x80, 0x8F, 2⟩)
    else ([.illFormed [byte]], none) := by
  simp only [first, UInt8.lt_iff_toNat_lt, ← UInt8.toNat_inj]
  rfl

/-- The state behind the first byte of a character of three bytes: it knows the bits of the code
point, and its bounds admit the second byte of every character. -/
theorem first_of_three {value : Nat} (large : 0x800 ≤ value)
    (valid : value < 0xD800 ∨ 0xDFFF < value ∧ value < 0x10000) :
    ∃ pending : Pending, first (UInt8.ofNat (value / 4096 % 16 + 224)) = ([], some pending) ∧
      pending.value = value / 4096 ∧ pending.further = 1 ∧
      pending.low.toNat ≤ value / 64 % 64 + 128 ∧ value / 64 % 64 + 128 ≤ pending.high.toNat := by
  have byte : (UInt8.ofNat (value / 4096 % 16 + 224)).toNat = value / 4096 + 224 := by
    rw [UInt8.toNat_ofNat']
    omega
  rw [first_eq, byte, if_neg (by omega), if_neg (by omega), if_neg (by omega)]
  split
  · exact ⟨_, rfl, by dsimp only; omega, rfl, by show 160 ≤ _; omega, by show _ ≤ 191; omega⟩
  · split
    · exact ⟨_, rfl, by dsimp only; omega, rfl, by show 128 ≤ _; omega, by show _ ≤ 159; omega⟩
    · rw [if_pos (by omega)]
      exact ⟨_, rfl, by dsimp only; omega, rfl, by show 128 ≤ _; omega, by show _ ≤ 191; omega⟩

/-- The same for a character of four bytes. -/
theorem first_of_four {value : Nat} (large : 0x10000 ≤ value) (valid : value < 0x110000) :
    ∃ pending : Pending, first (UInt8.ofNat (value / 262144 % 8 + 240)) = ([], some pending) ∧
      pending.value = value / 262144 ∧ pending.further = 2 ∧
      pending.low.toNat ≤ value / 4096 % 64 + 128 ∧
      value / 4096 % 64 + 128 ≤ pending.high.toNat := by
  have byte : (UInt8.ofNat (value / 262144 % 8 + 240)).toNat = value / 262144 + 240 := by
    rw [UInt8.toNat_ofNat']
    omega
  rw [first_eq, byte, if_neg (by omega), if_neg (by omega), if_neg (by omega), if_neg (by omega),
    if_neg (by omega), if_neg (by omega)]
  split
  · exact ⟨_, rfl, by dsimp only; omega, rfl, by show 144 ≤ _; omega, by show _ ≤ 191; omega⟩
  · split
    · exact ⟨_, rfl, by dsimp only; omega, rfl, by show 128 ≤ _; omega, by show _ ≤ 191; omega⟩
    · rw [if_pos (by omega)]
      exact ⟨_, rfl, by dsimp only; omega, rfl, by show 128 ≤ _; omega, by show _ ≤ 143; omega⟩

/-- Reading goes on behind the first byte of a character. -/
theorem piecesFrom_none_cons {byte : UInt8} {pending : Pending}
    (begins : first byte = ([], some pending)) (bytes : List UInt8) :
    piecesFrom none (byte :: bytes) = piecesFrom (some pending) bytes := by
  rw [piecesFrom, step, begins]
  rfl

/-- **A character is read off its bytes.** -/
theorem piecesFrom_utf8EncodeChar (character : Char) (bytes : List UInt8) :
    piecesFrom none (String.utf8EncodeChar character ++ bytes) =
      .scalar character :: piecesFrom none bytes := by
  have valid : character.val.toNat < 0xD800 ∨
      0xDFFF < character.val.toNat ∧ character.val.toNat < 0x110000 := character.valid
  have whole : Char.ofNat character.val.toNat = character := Char.ofNat_toNat character
  unfold String.utf8EncodeChar
  generalize character.val.toNat = value at valid whole
  dsimp only
  split
  · have byte : (UInt8.ofNat value).toNat = value := by
      rw [UInt8.toNat_ofNat']
      omega
    rw [List.singleton_append, piecesFrom, step, first_eq, byte, if_pos (by omega), whole]
    rfl
  · split
    · have byte : (UInt8.ofNat (value / 64 % 32 + 192)).toNat = value / 64 + 192 := by
        rw [UInt8.toNat_ofNat']
        omega
      have begins := first_eq (UInt8.ofNat (value / 64 % 32 + 192))
      rw [byte, if_neg (by omega), if_neg (by omega), if_pos (by omega)] at begins
      have point : (value / 64 + 192 - 0xC0) * 64 + value % 64 = value := by omega
      rw [List.cons_append, List.cons_append, List.nil_append, piecesFrom_none_cons begins,
        piecesFrom_some_cons _ (by show 128 ≤ _; omega) (by show _ ≤ 191; omega)]
      simp only [point, whole]
    · split
      · obtain ⟨pending, begins, bits, further, low, high⟩ :=
          @first_of_three value (by omega) (by omega)
        simp only [List.cons_append, List.nil_append]
        rw [piecesFrom_none_cons begins, piecesFrom_two bytes bits further low high, whole]
      · obtain ⟨pending, begins, bits, further, low, high⟩ :=
          @first_of_four value (by omega) (by omega)
        have inner : value / 262144 * 64 + value / 4096 % 64 = value / 4096 := by omega
        simp only [List.cons_append, List.nil_append]
        rw [piecesFrom_none_cons begins, piecesFrom_some_cons _ low high]
        simp only [further, bits, inner]
        rw [piecesFrom_two bytes rfl rfl (by show 128 ≤ _; omega) (by show _ ≤ 191; omega), whole]

/-! ## Texts -/

@[simp] theorem encode_append (first second : List Char) :
    encode (first ++ second) = encode first ++ encode second := List.flatMap_append

theorem encode_cons (character : Char) (text : List Char) :
    encode (character :: text) = String.utf8EncodeChar character ++ encode text :=
  List.flatMap_cons

@[simp] theorem length_encode (text : List Char) : (encode text).length = size text := by
  induction text with
  | nil => rfl
  | cons character text ih =>
      rw [encode_cons, List.length_append, String.length_utf8EncodeChar, ih, size_cons]

/-- **A text is read off its bytes**, and then what stands behind it. -/
theorem decode_encode_append (text : List Char) (bytes : List UInt8) :
    decode (encode text ++ bytes) = text ++ decode bytes := by
  induction text with
  | nil => rfl
  | cons character text ih =>
      have here : decode (encode (character :: text) ++ bytes) =
          character :: decode (encode text ++ bytes) := by
        rw [encode_cons, List.append_assoc, decode, pieces, piecesFrom_utf8EncodeChar]
        rfl
      rw [here, ih, List.cons_append]

/-! ## Lengths -/

theorem length_first (byte : UInt8) :
    (first byte).1.length + (first byte).2.toList.length = 1 := by
  unfold first
  repeat' split
  all_goals rfl

/-- A byte makes one piece more, where a character that has begun counts as one. -/
theorem length_step_le (state : Option Pending) (byte : UInt8) :
    (step state byte).1.length + (step state byte).2.toList.length ≤ state.toList.length + 1 := by
  cases state with
  | none => exact Nat.le_of_eq (length_first byte)
  | some pending =>
      unfold step
      dsimp only
      split
      · cases pending.further with
        | zero => exact Nat.le_succ 1
        | succ further => exact Nat.le_succ 1
      · have afresh := length_first byte
        rw [List.length_cons, Nat.add_right_comm, afresh]
        exact Nat.le_refl 2

theorem length_piecesFrom_le (state : Option Pending) (bytes : List UInt8) :
    (piecesFrom state bytes).length ≤ state.toList.length + bytes.length := by
  induction bytes generalizing state with
  | nil => cases state <;> exact Nat.le_refl _
  | cons byte bytes ih =>
      have here := length_step_le state byte
      have behind := ih (step state byte).2
      rw [piecesFrom, List.length_append, List.length_cons]
      omega

/-- **A text has no more characters than it is read from bytes.** -/
theorem length_decode_le (bytes : List UInt8) : (decode bytes).length ≤ bytes.length := by
  have pieces_le := length_piecesFrom_le none bytes
  rw [decode, List.length_map, pieces]
  rwa [Option.toList_none, List.length_nil, Nat.zero_add] at pieces_le

end Utf8

/-! ## ASCII -/

/-- Whether a character is one byte in UTF-8. -/
def IsAscii (character : Char) : Prop := character.toNat < 0x80

instance (character : Char) : Decidable (IsAscii character) :=
  inferInstanceAs (Decidable (_ < _))

section IsAscii

variable {character : Char} {text : List Char}

theorem IsAscii.utf8EncodeChar_eq (ascii : IsAscii character) :
    String.utf8EncodeChar character = [UInt8.ofNat character.val.toNat] :=
  if_pos (Nat.le_of_lt_succ ascii)

theorem IsAscii.utf8Size_eq (ascii : IsAscii character) : character.utf8Size = 1 := by
  rw [← String.length_utf8EncodeChar, ascii.utf8EncodeChar_eq]
  rfl

/-- All bytes of a character that is not ASCII are large. -/
theorem le_of_mem_utf8EncodeChar (foreign : ¬ IsAscii character) :
    ∀ byte ∈ String.utf8EncodeChar character, 0x80 ≤ byte.toNat := by
  have large : ∀ {number : Nat}, 0x80 ≤ number → number < 0x100 →
      0x80 ≤ (UInt8.ofNat number).toNat := by
    intro number low high
    rw [UInt8.toNat_ofNat']
    omega
  have beyond : ¬ character.val.toNat ≤ 0x7F := fun small => foreign (Nat.lt_succ_of_le small)
  unfold String.utf8EncodeChar
  dsimp only
  rw [if_neg beyond]
  split
  · simp only [List.forall_mem_cons]
    exact ⟨large (by omega) (by omega), large (by omega) (by omega), List.forall_mem_nil _⟩
  · split
    · simp only [List.forall_mem_cons]
      exact ⟨large (by omega) (by omega), large (by omega) (by omega),
        large (by omega) (by omega), List.forall_mem_nil _⟩
    · simp only [List.forall_mem_cons]
      exact ⟨large (by omega) (by omega), large (by omega) (by omega),
        large (by omega) (by omega), large (by omega) (by omega), List.forall_mem_nil _⟩

/-- A character with a byte of ASCII is that byte. -/
theorem eq_of_mem_utf8EncodeChar {byte : UInt8} (member : byte ∈ String.utf8EncodeChar character)
    (small : byte.toNat < 0x80) : character = Char.ofNat byte.toNat := by
  have ascii : IsAscii character := by
    by_contra foreign
    exact Nat.not_lt_of_le (le_of_mem_utf8EncodeChar foreign byte member) small
  have number : character.val.toNat < 2 ^ 8 := Nat.lt_trans ascii (by decide)
  rw [ascii.utf8EncodeChar_eq, List.mem_singleton] at member
  rw [member, UInt8.toNat_ofNat', Nat.mod_eq_of_lt number]
  exact (Char.ofNat_toNat character).symm

/-- A text of ASCII has as many bytes as characters. -/
theorem Utf8.size_of_ascii (ascii : ∀ character ∈ text, IsAscii character) :
    size text = text.length := by
  induction text with
  | nil => rfl
  | cons character text ih =>
      rw [List.forall_mem_cons] at ascii
      rw [size_cons, ascii.1.utf8Size_eq, ih ascii.2, List.length_cons, Nat.add_comm]

/-- All bytes of a text of ASCII are small. -/
theorem Utf8.lt_of_mem_encode (ascii : ∀ character ∈ text, IsAscii character) :
    ∀ byte ∈ encode text, byte < 0x80 := by
  intro byte member
  obtain ⟨character, inside, among⟩ := List.mem_flatMap.mp member
  rw [(ascii character inside).utf8EncodeChar_eq, List.mem_singleton] at among
  have small : character.val.toNat < 0x80 := ascii character inside
  rw [among, UInt8.lt_iff_toNat_lt, UInt8.toNat_ofNat']
  show character.val.toNat % 256 < 128
  omega

end IsAscii

end SlotCompiler
