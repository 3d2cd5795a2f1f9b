/-!
# Reading bytes as text

A byte string is read as a sequence of pieces: the characters it spells in UTF-8, and between
them the runs of bytes that spell none.  An ill-formed run is always as long as possible
without reaching past a byte that could start a character: it is one byte that begins no
character, or the beginning of a character that the next byte (or the end) does not continue.

The reader is a machine with two kinds of state.  Between characters it holds nothing.
Inside a character it holds the bytes seen, the code point so far, the bounds of the next
byte, and how many bytes are still to come after that one.  The bounds exclude overlong
forms, surrogates and code points above U+10FFFF at the second byte, where they first show.

`decode` replaces every ill-formed run by U+FFFD; `encode` writes characters back as bytes.
-/

set_option autoImplicit false

namespace SlotCompiler.Utf8

/-- A piece of a byte string: a character, or a run of bytes that belongs to none. -/
inductive Piece where
  | scalar (character : Char)
  | illFormed (bytes : List UInt8)
  deriving DecidableEq, Repr

/-- The beginning of a character of several bytes. -/
structure Pending where
  /-- The bytes read so far, first byte first. -/
  seen : List UInt8
  /-- The bits of the code point that they hold. -/
  value : Nat
  /-- The least byte that may come next. -/
  low : UInt8
  /-- The greatest byte that may come next. -/
  high : UInt8
  /-- How many bytes the character needs after the next one. -/
  further : Nat
  deriving DecidableEq, Repr

/-- Reads a byte between characters. -/
def first (byte : UInt8) : List Piece × Option Pending :=
  if byte < 0x80 then ([.scalar (Char.ofNat byte.toNat)], none)
  else if byte < 0xC2 then ([.illFormed [byte]], none)
  else if byte < 0xE0 then ([], some ⟨[byte], byte.toNat - 0xC0, 0x80, 0xBF, 0⟩)
  else if byte = 0xE0 then ([], some ⟨[byte], 0x0, 0xA0, 0xBF, 1⟩)
  else if byte = 0xED then ([], some ⟨[byte], 0xD, 0x80, 0x9F, 1⟩)
  else if byte < 0xF0 then ([], some ⟨[byte], byte.toNat - 0xE0, 0x80, 0xBF, 1⟩)
  else if byte = 0xF0 then ([], some ⟨[byte], 0x0, 0x90, 0xBF, 2⟩)
  else if byte < 0xF4 then ([], some ⟨[byte], byte.toNat - 0xF0, 0x80, 0xBF, 2⟩)
  else if byte = 0xF4 then ([], some ⟨[byte], 0x4, 0x80, 0x8F, 2⟩)
  else ([.illFormed [byte]], none)

/-- Reads one byte.  A byte that does not continue the pending character ends it as ill-formed
and is read afresh. -/
def step : Option Pending → UInt8 → List Piece × Option Pending
  | none, byte => first byte
  | some pending, byte =>
    if pending.low ≤ byte ∧ byte ≤ pending.high then
      let value := pending.value * 64 + (byte.toNat - 0x80)
      match pending.further with
      | 0 => ([.scalar (Char.ofNat value)], none)
      | further + 1 => ([], some ⟨pending.seen ++ [byte], value, 0x80, 0xBF, further⟩)
    else
      let (pieces, state) := first byte
      (.illFormed pending.seen :: pieces, state)

/-- What the end of the bytes makes of a state. -/
def finish : Option Pending → List Piece
  | none => []
  | some pending => [.illFormed pending.seen]

/-- The pieces of a byte string read from a state. -/
def piecesFrom : Option Pending → List UInt8 → List Piece
  | state, [] => finish state
  | state, byte :: bytes =>
    let (pieces, next) := step state byte
    pieces ++ piecesFrom next bytes

/-- The pieces of a byte string, in order. -/
def pieces (bytes : List UInt8) : List Piece := piecesFrom none bytes

namespace Piece

/-- The character that stands for a piece in decoded text. -/
def character : Piece → Char
  | .scalar character => character
  | .illFormed _ => '\uFFFD'

/-- Whether a piece spells no character. -/
def isIllFormed : Piece → Bool
  | .scalar _ => false
  | .illFormed _ => true

end Piece

/-- Reads bytes as text, with one U+FFFD for each ill-formed run. -/
def decode (bytes : List UInt8) : List Char := (pieces bytes).map Piece.character

/-- Whether the bytes are UTF-8 throughout. -/
def isWellFormed (bytes : List UInt8) : Bool := (pieces bytes).all fun piece => !piece.isIllFormed

/-- The bytes of a text. -/
def encode (text : List Char) : List UInt8 := text.flatMap String.utf8EncodeChar

/-- How many bytes a text takes. -/
def size : List Char → Nat
  | [] => 0
  | character :: text => character.utf8Size + size text

end SlotCompiler.Utf8
