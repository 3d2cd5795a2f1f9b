/-!
# Numbers in the wire form

Two forms of numbers.  A word has a fixed number of bytes, the least significant first.  A
varint holds seven bits in each byte, the least significant first, and the top bit of a byte
says that another one follows.

A varint is written in as few bytes as possible.  It is read in any number of bytes up to ten,
so superfluous groups of zeros are allowed; the tenth byte may only hold the last bit of a
64-bit number.

A reader takes a value off the front of some bytes and leaves the rest.
-/

set_option autoImplicit false

namespace SlotCompiler.Wire

/-- Why bytes are not a wire form. -/
inductive DecodeError where
  | endOfBuffer
  | badVarint
  | unknownOpcode (id : UInt8)
  deriving DecidableEq, Repr

/-- The message about bytes that are not a wire form. -/
def DecodeError.message : DecodeError → String
  | .endOfBuffer => "Hit the end of buffer, expected more data"
  | .badVarint =>
    "Found a varint that didn't terminate. Is the usize too big for this platform?"
  | .unknownOpcode _ => "Serde Deserialization Error"

/-- Takes a value off the front of some bytes. -/
abbrev Reader (α : Type) := StateT (List UInt8) (Except DecodeError) α

/-- Takes one byte. -/
def readByte : Reader UInt8
  | [] => .error .endOfBuffer
  | byte :: bytes => .ok (byte, bytes)

/-! ## Words -/

/-- A number in a fixed number of bytes. -/
def writeFixed : (width : Nat) → Nat → List UInt8
  | 0, _ => []
  | width + 1, value => .ofNat (value % 256) :: writeFixed width (value / 256)

/-- Takes a number in a fixed number of bytes. -/
def readFixed : (width : Nat) → Reader Nat
  | 0 => return 0
  | width + 1 => do
    let byte ← readByte
    let high ← readFixed width
    return byte.toNat + 256 * high

/-- A word in eight bytes. -/
def writeWord (word : UInt64) : List UInt8 := writeFixed 8 word.toNat

/-- Takes a word of eight bytes. -/
def readWord : Reader UInt64 := do return .ofNat (← readFixed 8)

/-! ## Varints -/

/-- A number in as many groups of seven bits as it needs. -/
def writeVarint (value : Nat) : List UInt8 :=
  if value < 128 then [.ofNat value]
  else .ofNat (value % 128 + 128) :: writeVarint (value / 128)

/-- Takes a varint that has at most a number of bytes behind the next one. -/
def readVarintWithin : (further : Nat) → Reader Nat
  | 0 => do
    let byte ← readByte
    if byte ≤ 1 then return byte.toNat else throw .badVarint
  | further + 1 => do
    let byte ← readByte
    if byte < 128 then return byte.toNat
    else
      let high ← readVarintWithin further
      return byte.toNat - 128 + 128 * high

/-- Takes a varint of at most ten bytes. -/
def readVarint : Reader Nat := readVarintWithin 9

/-! ## Sequences -/

/-- Takes a number of values. -/
def readMany {α : Type} (reader : Reader α) : (count : Nat) → Reader (List α)
  | 0 => return []
  | count + 1 => do
    let value ← reader
    let values ← readMany reader count
    return value :: values

/-- Takes a count and then as many values. -/
def readCounted {α : Type} (reader : Reader α) : Reader (List α) := do
  readMany reader (← readVarint)

/-- Values behind their count. -/
def writeCounted {α : Type} (write : α → List UInt8) (values : List α) : List UInt8 :=
  writeVarint values.length ++ values.flatMap write

end SlotCompiler.Wire
