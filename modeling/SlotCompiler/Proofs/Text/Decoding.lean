import Mathlib.Data.List.Infix
import SlotCompiler.Proofs.Text.Encoding

/-!
# What bytes are read as

A byte string is its pieces, one behind the other, and each of them can be cut off the front
(`Utf8.Cut`): a character with exactly its bytes, or a run of bytes that spells none.  So bytes are
well-formed exactly if they are those of a text (`Utf8.isWellFormed_iff`), and every place in the
text that is read is a place between bytes (`Utf8.exists_parts_of_decode`).  A newline goes on with
no character, so it ends whatever has begun in front of it: the lines of the text are the lines of
the bytes (`Utf8.splitOn_decode`).
-/

set_option autoImplicit false

namespace SlotCompiler.Utf8

/-- The byte of a newline. -/
abbrev newline : UInt8 := 0x0A

/-- The bytes of a piece. -/
def Piece.bytes : Piece → List UInt8
  | .scalar character => String.utf8EncodeChar character
  | .illFormed bytes => bytes

/-! ## Characters of several bytes -/

theorem toNat_ofNat_of_valid {value : Nat} (valid : value.isValidChar) :
    (Char.ofNat value).val.toNat = value := by
  rw [Char.ofNat, dif_pos valid]
  rfl

section Characters

variable {first second third fourth : UInt8}

theorem utf8EncodeChar_two (lead : 0xC2 ≤ first.toNat) (short : first.toNat < 0xE0)
    (low : 0x80 ≤ second.toNat) (high : second.toNat ≤ 0xBF) :
    String.utf8EncodeChar (Char.ofNat ((first.toNat - 0xC0) * 64 + (second.toNat - 0x80))) =
      [first, second] := by
  have valid : ((first.toNat - 0xC0) * 64 + (second.toNat - 0x80)).isValidChar :=
    .inl (by omega)
  unfold String.utf8EncodeChar
  dsimp only
  rw [toNat_ofNat_of_valid valid, if_neg (by omega), if_pos (by omega)]
  simp only [List.cons.injEq, ← UInt8.toNat_inj, UInt8.toNat_ofNat', and_true]
  omega

theorem utf8EncodeChar_three {value : Nat} (bits : value = first.toNat - 0xE0)
    (lead : 0xE0 ≤ first.toNat) (short : first.toNat < 0xF0)
    (low : 0x80 ≤ second.toNat) (high : second.toNat ≤ 0xBF)
    (long : 0x20 ≤ value * 64 + (second.toNat - 0x80))
    (noSurrogate : value * 64 + (second.toNat - 0x80) < 0x360 ∨
      0x380 ≤ value * 64 + (second.toNat - 0x80))
    (lowThird : 0x80 ≤ third.toNat) (highThird : third.toNat ≤ 0xBF) :
    String.utf8EncodeChar (Char.ofNat
        ((value * 64 + (second.toNat - 0x80)) * 64 + (third.toNat - 0x80))) =
      [first, second, third] := by
  have valid : ((value * 64 + (second.toNat - 0x80)) * 64 + (third.toNat - 0x80)).isValidChar := by
    unfold Nat.isValidChar
    omega
  unfold String.utf8EncodeChar
  dsimp only
  rw [toNat_ofNat_of_valid valid, if_neg (by omega), if_neg (by omega), if_pos (by omega)]
  simp only [List.cons.injEq, ← UInt8.toNat_inj, UInt8.toNat_ofNat', and_true]
  omega

theorem utf8EncodeChar_four {value : Nat} (bits : value = first.toNat - 0xF0)
    (lead : 0xF0 ≤ first.toNat) (short : first.toNat ≤ 0xF4)
    (low : 0x80 ≤ second.toNat) (high : second.toNat ≤ 0xBF)
    (long : 0x10 ≤ value * 64 + (second.toNat - 0x80))
    (valid : value * 64 + (second.toNat - 0x80) < 0x110)
    (lowThird : 0x80 ≤ third.toNat) (highThird : third.toNat ≤ 0xBF)
    (lowFourth : 0x80 ≤ fourth.toNat) (highFourth : fourth.toNat ≤ 0xBF) :
    String.utf8EncodeChar (Char.ofNat (((value * 64 + (second.toNat - 0x80)) * 64 +
        (third.toNat - 0x80)) * 64 + (fourth.toNat - 0x80))) =
      [first, second, third, fourth] := by
  have isValid : (((value * 64 + (second.toNat - 0x80)) * 64 + (third.toNat - 0x80)) * 64 +
      (fourth.toNat - 0x80)).isValidChar := by
    unfold Nat.isValidChar
    omega
  unfold String.utf8EncodeChar
  dsimp only
  rw [toNat_ofNat_of_valid isValid, if_neg (by omega), if_neg (by omega), if_neg (by omega)]
  simp only [List.cons.injEq, ← UInt8.toNat_inj, UInt8.toNat_ofNat', and_true]
  omega

end Characters

/-- Any bytes between the bounds go on with the beginning of a character, and the last of them ends
it: then the bytes seen are those of the character.  No byte of ASCII is between the bounds. -/
inductive Pending.Begun : Pending → Prop where
  | last {seen : List UInt8} {value : Nat} {low high : UInt8} (margin : 0x80 ≤ low.toNat)
      (ends : ∀ byte, low ≤ byte → byte ≤ high →
        String.utf8EncodeChar (Char.ofNat (value * 64 + (byte.toNat - 0x80))) = seen ++ [byte]) :
      Begun ⟨seen, value, low, high, 0⟩
  | more {seen : List UInt8} {value further : Nat} {low high : UInt8} (margin : 0x80 ≤ low.toNat)
      (goesOn : ∀ byte, low ≤ byte → byte ≤ high →
        Begun ⟨seen ++ [byte], value * 64 + (byte.toNat - 0x80), 0x80, 0xBF, further⟩) :
      Begun ⟨seen, value, low, high, further + 1⟩

namespace Pending

theorem Begun.margin {pending : Pending} (begun : pending.Begun) : 0x80 ≤ pending.low.toNat := by
  cases begun with
  | last margin => exact margin
  | more margin => exact margin

/-- The first byte of a character of three bytes. -/
theorem begun_of_three {first low high : UInt8} {value : Nat} (bits : value = first.toNat - 0xE0)
    (lead : 0xE0 ≤ first.toNat) (short : first.toNat < 0xF0) (margin : 0x80 ≤ low.toNat)
    (bound : high.toNat ≤ 0xBF) (long : 0x20 ≤ value * 64 + (low.toNat - 0x80))
    (noSurrogate : value * 64 + (high.toNat - 0x80) < 0x360 ∨
      0x380 ≤ value * 64 + (low.toNat - 0x80)) :
    Begun ⟨[first], value, low, high, 1⟩ := by
  refine .more margin fun second above below => .last (Nat.le_refl _) fun third aboveThird
    belowThird => ?_
  rw [UInt8.le_iff_toNat_le] at above below aboveThird belowThird
  have lowThird : 0x80 ≤ third.toNat := aboveThird
  have highThird : third.toNat ≤ 0xBF := belowThird
  exact utf8EncodeChar_three bits lead short (by omega) (by omega) (by omega) (by omega) lowThird
    highThird

/-- The first byte of a character of four bytes. -/
theorem begun_of_four {first low high : UInt8} {value : Nat} (bits : value = first.toNat - 0xF0)
    (lead : 0xF0 ≤ first.toNat) (short : first.toNat ≤ 0xF4) (margin : 0x80 ≤ low.toNat)
    (bound : high.toNat ≤ 0xBF) (long : 0x10 ≤ value * 64 + (low.toNat - 0x80))
    (valid : value * 64 + (high.toNat - 0x80) < 0x110) :
    Begun ⟨[first], value, low, high, 2⟩ := by
  refine .more margin fun second above below => .more (Nat.le_refl _) fun third aboveThird
    belowThird => .last (Nat.le_refl _) fun fourth aboveFourth belowFourth => ?_
  rw [UInt8.le_iff_toNat_le] at above below aboveThird belowThird aboveFourth belowFourth
  have lowThird : 0x80 ≤ third.toNat := aboveThird
  have highThird : third.toNat ≤ 0xBF := belowThird
  have lowFourth : 0x80 ≤ fourth.toNat := aboveFourth
  have highFourth : fourth.toNat ≤ 0xBF := belowFourth
  exact utf8EncodeChar_four bits lead short (by omega) (by omega) (by omega) (by omega) lowThird
    highThird lowFourth highFourth

end Pending

/-- What is read of a byte between characters: a piece of its own, or the beginning of one. -/
inductive Opens (byte : UInt8) : List Piece × Option Pending → Prop where
  | alone {piece : Piece} (single : piece.bytes = [byte]) : Opens byte ([piece], none)
  | begins {pending : Pending} (seen : pending.seen = [byte]) (begun : pending.Begun) :
      Opens byte ([], some pending)

/-- **A byte between characters** is a piece of its own, or it begins a character. -/
theorem opens_first (byte : UInt8) : Opens byte (first byte) := by
  have top := byte.toNat_lt
  rw [first_eq]
  split
  · rename_i ascii
    have valid : byte.toNat.isValidChar := .inl (by omega)
    refine .alone ?_
    rw [Piece.bytes, String.utf8EncodeChar, toNat_ofNat_of_valid valid, if_pos (by omega),
      UInt8.ofNat_toNat]
  split
  · exact .alone rfl
  split
  · refine .begins rfl (.last (Nat.le_refl _) fun second above below => ?_)
    rw [UInt8.le_iff_toNat_le] at above below
    have low : 0x80 ≤ second.toNat := above
    have high : second.toNat ≤ 0xBF := below
    exact utf8EncodeChar_two (by omega) (by omega) low high
  split
  · exact .begins rfl (Pending.begun_of_three (by omega) (by omega) (by omega) (by decide)
      (by decide) (by decide) (.inl (by decide)))
  split
  · exact .begins rfl (Pending.begun_of_three (by omega) (by omega) (by omega) (by decide)
      (by decide) (by decide) (.inl (by decide)))
  split
  · have low : (0x80 : UInt8).toNat = 0x80 := rfl
    have high : (0xBF : UInt8).toNat = 0xBF := rfl
    exact .begins rfl (Pending.begun_of_three rfl (by omega) (by omega) (by decide)
      (by decide) (by omega) (by omega))
  split
  · exact .begins rfl (Pending.begun_of_four (by omega) (by omega) (by omega) (by decide)
      (by decide) (by decide) (by decide))
  split
  · have low : (0x80 : UInt8).toNat = 0x80 := rfl
    have high : (0xBF : UInt8).toNat = 0xBF := rfl
    exact .begins rfl (Pending.begun_of_four rfl (by omega) (by omega) (by decide)
      (by decide) (by omega) (by omega))
  split
  · exact .begins rfl (Pending.begun_of_four (by omega) (by omega) (by omega) (by decide)
      (by decide) (by decide) (by decide))
  · exact .alone rfl

/-! ## Cutting pieces off the front -/

/-- Bytes that are nothing, or begin as others do, or begin with a newline. -/
def BeginsAlike (bytes other : List UInt8) : Prop :=
  ∀ byte ∈ bytes.head?, byte = newline ∨ other.head? = some byte

theorem beginsAlike_of_isPrefix {bytes other : List UInt8} (isPrefix : bytes <+: other) :
    BeginsAlike bytes other := by
  obtain ⟨more, rfl⟩ := isPrefix
  intro byte first
  obtain ⟨rest, rfl⟩ := List.head?_eq_some_iff.mp first
  exact .inr rfl

theorem beginsAlike_newline (bytes more : List UInt8) :
    BeginsAlike (bytes ++ newline :: more) bytes := by
  cases bytes with
  | nil =>
      rintro byte ⟨⟩
      exact .inl rfl
  | cons first bytes =>
      rintro byte ⟨⟩
      exact .inr rfl

/-- A piece is read off the front of some bytes, and then the rest is read.  It is the same piece
in front of anything that begins like the rest or with a newline. -/
structure Cut (bytes : List UInt8) (piece : Piece) (rest : List UInt8) : Prop where
  whole : bytes = piece.bytes ++ rest
  some : piece.bytes ≠ []
  pieces_append : ∀ part, BeginsAlike part rest →
    pieces (piece.bytes ++ part) = piece :: pieces part

/-- A byte out of bounds ends a character that has begun, and is read afresh. -/
theorem piecesFrom_cons_of_stops {pending : Pending} {byte : UInt8}
    (outside : ¬ (pending.low ≤ byte ∧ byte ≤ pending.high)) (bytes : List UInt8) :
    piecesFrom (some pending) (byte :: bytes) =
      .illFormed pending.seen :: piecesFrom none (byte :: bytes) := by
  rw [piecesFrom, step, if_neg outside]
  rfl

/-- No character goes on with a newline. -/
theorem Pending.Begun.stops_newline {pending : Pending} (begun : pending.Begun) :
    ¬ (pending.low ≤ newline ∧ newline ≤ pending.high) := by
  intro inBounds
  have low : pending.low.toNat ≤ 0x0A := UInt8.le_iff_toNat_le.mp inBounds.1
  have margin := begun.margin
  omega

/-- What has begun ends where the bytes do not go on with it, and in front of anything that begins
like them. -/
theorem Pending.Begun.piecesFrom_of_stops {pending : Pending} (begun : pending.Begun)
    {rest : List UInt8}
    (stops : ∀ byte ∈ rest.head?, ¬ (pending.low ≤ byte ∧ byte ≤ pending.high))
    {part : List UInt8} (alike : BeginsAlike part rest) :
    piecesFrom (some pending) part = .illFormed pending.seen :: piecesFrom none part := by
  cases part with
  | nil => rfl
  | cons byte part =>
      refine piecesFrom_cons_of_stops ?_ part
      rcases alike byte rfl with rfl | same
      · exact begun.stops_newline
      · exact stops byte same

/-- The beginning of a character goes on up to its end, or up to where it is not continued. -/
theorem Pending.Begun.exists_cut {pending : Pending} (begun : pending.Begun)
    (bytes : List UInt8) :
    ∃ piece inside rest, bytes = inside ++ rest ∧ pending.seen ++ inside = piece.bytes ∧
      ∀ part, BeginsAlike part rest →
        piecesFrom (some pending) (inside ++ part) = piece :: piecesFrom none part := by
  induction bytes generalizing pending with
  | nil =>
      refine ⟨.illFormed pending.seen, [], [], rfl, List.append_nil _, fun part alike => ?_⟩
      refine begun.piecesFrom_of_stops ?_ alike
      rintro _ ⟨⟩
  | cons byte bytes ih =>
      by_cases inBounds : pending.low ≤ byte ∧ byte ≤ pending.high
      · cases begun with
        | @last seen value low high _ ends =>
            have spelled := ends byte inBounds.1 inBounds.2
            generalize character_eq : Char.ofNat (value * 64 + (byte.toNat - 0x80)) = character
              at spelled
            refine ⟨.scalar character, [byte], bytes, rfl, spelled.symm, fun part _ => ?_⟩
            rw [List.singleton_append, piecesFrom, step, if_pos inBounds, ← character_eq]
            rfl
        | more _ goesOn =>
            have begun := goesOn byte inBounds.1 inBounds.2
            obtain ⟨piece, inside, rest, rfl, seen, cut⟩ := ih begun
            refine ⟨piece, byte :: inside, rest, rfl, ?_, fun part alike => ?_⟩
            · rw [← seen, List.append_assoc, List.singleton_append]
            · rw [List.cons_append, piecesFrom, step, if_pos inBounds]
              exact cut part alike
      · refine ⟨.illFormed pending.seen, [], byte :: bytes, rfl, List.append_nil _, ?_⟩
        intro part alike
        refine begun.piecesFrom_of_stops ?_ alike
        rintro _ ⟨⟩
        exact inBounds

/-- **A piece can be cut off the front of any bytes.** -/
theorem exists_cut {bytes : List UInt8} (more : bytes ≠ []) :
    ∃ piece rest, Cut bytes piece rest := by
  obtain ⟨byte, bytes, rfl⟩ := List.exists_cons_of_ne_nil more
  generalize read : first byte = opened
  cases read ▸ opens_first byte with
  | @alone piece single =>
      refine ⟨piece, bytes, ?_, ?_, fun part _ => ?_⟩
      · rw [single, List.singleton_append]
      · rw [single]
        exact List.cons_ne_nil _ _
      · rw [single, pieces, List.singleton_append, piecesFrom, step, read]
        rfl
  | begins seen begun =>
      obtain ⟨piece, inside, rest, rfl, spelled, cut⟩ := begun.exists_cut bytes
      rw [seen, List.singleton_append] at spelled
      refine ⟨piece, rest, ?_, ?_, fun part alike => ?_⟩
      · rw [← spelled, List.cons_append]
      · rw [← spelled]
        exact List.cons_ne_nil _ _
      · rw [← spelled, pieces, List.cons_append, piecesFrom_none_cons read]
        exact cut part alike

namespace Cut

variable {bytes rest part : List UInt8} {piece : Piece}

theorem pieces_eq (cut : Cut bytes piece rest) : pieces bytes = piece :: pieces rest := by
  rw [cut.whole]
  exact cut.pieces_append rest (beginsAlike_of_isPrefix (List.prefix_refl rest))

theorem decode_append (cut : Cut bytes piece rest) (alike : BeginsAlike part rest) :
    decode (piece.bytes ++ part) = piece.character :: decode part := by
  rw [decode, cut.pieces_append part alike]
  rfl

theorem decode_eq (cut : Cut bytes piece rest) :
    decode bytes = piece.character :: decode rest := by
  rw [decode, cut.pieces_eq]
  rfl

theorem length_lt (cut : Cut bytes piece rest) : rest.length < bytes.length := by
  have positive := List.length_pos_iff.mpr cut.some
  rw [cut.whole, List.length_append]
  omega

end Cut

/-- What holds of no bytes, and of bytes in front of which a piece is cut off if it holds of the
rest, holds of all bytes. -/
theorem cut_induction {motive : List UInt8 → Prop} (none : motive [])
    (next : ∀ bytes piece rest, Cut bytes piece rest → motive rest → motive bytes)
    (bytes : List UInt8) : motive bytes := by
  induction length : bytes.length using Nat.strongRecOn generalizing bytes with
  | ind total ih =>
      by_cases more : bytes = []
      · rw [more]
        exact none
      · obtain ⟨piece, rest, cut⟩ := exists_cut more
        exact next bytes piece rest cut (ih _ (length ▸ cut.length_lt) rest rfl)

/-! ## What is read -/

/-- **Bytes are their pieces**, one behind the other. -/
theorem flatMap_pieces (bytes : List UInt8) : (pieces bytes).flatMap Piece.bytes = bytes := by
  induction bytes using cut_induction with
  | none => rfl
  | next bytes piece rest cut ih => rw [cut.pieces_eq, List.flatMap_cons, ih, ← cut.whole]

theorem pieces_encode (text : List Char) : pieces (encode text) = text.map .scalar := by
  induction text with
  | nil => rfl
  | cons character text ih =>
      rw [encode_cons, pieces, piecesFrom_utf8EncodeChar, ← pieces, ih, List.map_cons]

/-- **Well-formed bytes are the bytes of a text.** -/
theorem isWellFormed_iff {bytes : List UInt8} :
    isWellFormed bytes = true ↔ ∃ text, encode text = bytes := by
  constructor
  · intro wellFormed
    rw [isWellFormed, List.all_eq_true] at wellFormed
    refine ⟨decode bytes, ?_⟩
    have spelled : ∀ piece ∈ pieces bytes,
        String.utf8EncodeChar piece.character = piece.bytes := by
      intro piece member
      cases piece with
      | scalar character => rfl
      | illFormed bad => cases wellFormed _ member
    rw [encode, decode, List.flatMap_map, List.flatMap_congr spelled, flatMap_pieces]
  · rintro ⟨text, rfl⟩
    simp [isWellFormed, pieces_encode, Piece.isIllFormed]

/-- Bytes that are not well-formed are read as a text with a replacement character. -/
theorem replacement_mem_decode {bytes : List UInt8}
    (illFormed : ¬ ∃ text, encode text = bytes) : '\uFFFD' ∈ decode bytes := by
  rw [← isWellFormed_iff, isWellFormed, List.all_eq_true] at illFormed
  push Not at illFormed
  obtain ⟨piece, member, bad⟩ := illFormed
  cases piece with
  | scalar character => exact absurd rfl bad
  | illFormed bytes => exact List.mem_map_of_mem member

/-- **A place in the text is a place between the bytes** that it is read from. -/
theorem exists_parts_of_decode {bytes : List UInt8} {front back : List Char}
    (whole : decode bytes = front ++ back) :
    ∃ before behind, bytes = before ++ behind ∧ decode before = front ∧ decode behind = back := by
  induction bytes using cut_induction generalizing front with
  | none =>
      obtain ⟨rfl, rfl⟩ := List.append_eq_nil_iff.mp whole.symm
      exact ⟨[], [], rfl, rfl, rfl⟩
  | next bytes piece rest cut ih =>
      cases front with
      | nil => exact ⟨[], bytes, rfl, rfl, whole⟩
      | cons character front =>
          rw [cut.decode_eq, List.cons_append, List.cons.injEq] at whole
          obtain ⟨before, behind, rfl, front_eq, back_eq⟩ := ih whole.2
          refine ⟨piece.bytes ++ before, behind, ?_, ?_, back_eq⟩
          · rw [cut.whole, List.append_assoc]
          · rw [cut.decode_append (beginsAlike_of_isPrefix (List.prefix_append _ _)), whole.1,
              front_eq]

/-! ## Lines -/

/-- A newline is read as a newline, whatever stands in front of it. -/
theorem decode_append_newline (front back : List UInt8) :
    decode (front ++ newline :: back) = decode front ++ '\n' :: decode back := by
  induction front using cut_induction with
  | none => rfl
  | next front piece rest cut ih =>
      rw [cut.decode_eq, List.cons_append, ← ih, cut.whole, List.append_assoc]
      exact cut.decode_append (beginsAlike_newline rest back)

/-- A character that is read, other than a replacement, has its bytes there. -/
theorem mem_of_decode {bytes : List UInt8} {character : Char} (member : character ∈ decode bytes)
    (genuine : character ≠ '\uFFFD') : ∀ byte ∈ String.utf8EncodeChar character, byte ∈ bytes := by
  intro byte part
  obtain ⟨piece, inside, same⟩ := List.mem_map.mp member
  cases piece with
  | illFormed bad => exact absurd same.symm genuine
  | scalar other =>
      obtain rfl : other = character := same
      rw [← flatMap_pieces bytes]
      exact List.mem_flatMap.mpr ⟨_, inside, part⟩

/-- Nothing else is read as a newline. -/
theorem newline_mem_of_decode {bytes : List UInt8} (member : '\n' ∈ decode bytes) :
    newline ∈ bytes :=
  mem_of_decode member (by decide) newline (List.mem_singleton_self newline)

/-- What holds of bytes without a newline, and of bytes on both sides of a newline together if it
holds of both, holds of all bytes. -/
theorem lines_induction {motive : List UInt8 → Prop}
    (single : ∀ bytes, newline ∉ bytes → motive bytes)
    (next : ∀ front back, motive front → motive back → motive (front ++ newline :: back))
    (bytes : List UInt8) : motive bytes := by
  induction length : bytes.length using Nat.strongRecOn generalizing bytes with
  | ind total ih =>
      by_cases more : newline ∈ bytes
      · obtain ⟨front, back, rfl⟩ := List.append_of_mem more
        rw [List.length_append, List.length_cons] at length
        exact next front back (ih _ (by omega) front rfl) (ih _ (by omega) back rfl)
      · exact single bytes more

theorem newline_not_mem_decode {bytes : List UInt8} (single : newline ∉ bytes) :
    '\n' ∉ decode bytes :=
  fun member => single (newline_mem_of_decode member)

/-- **The lines of the text are the lines of the bytes.** -/
theorem splitOn_decode (bytes : List UInt8) :
    (decode bytes).splitOn '\n' = (bytes.splitOn newline).map decode := by
  induction bytes using lines_induction with
  | single bytes single =>
      rw [List.splitOn_eq_singleton (newline_not_mem_decode single),
        List.splitOn_eq_singleton single]
      rfl
  | next front back front_ih back_ih =>
      simp only [List.splitOn_eq_splitOnP] at front_ih back_ih ⊢
      rw [decode_append_newline, List.splitOnP_append_cons _ _ (by decide), front_ih, back_ih,
        List.splitOnP_append_cons _ _ (by decide), List.map_append]

/-- The newlines are counted alike in the text and in the bytes. -/
theorem count_decode (bytes : List UInt8) :
    (decode bytes).count '\n' = bytes.count newline := by
  induction bytes using lines_induction with
  | single bytes single =>
      rw [List.count_eq_zero_of_not_mem (newline_not_mem_decode single),
        List.count_eq_zero_of_not_mem single]
  | next front back front_ih back_ih =>
      rw [decode_append_newline, List.count_append, List.count_append, List.count_cons_self,
        List.count_cons_self, front_ih, back_ih]

end SlotCompiler.Utf8
