import SlotCompiler.Bytecode.Unit
import SlotCompiler.Wire.Instruction

/-!
# Units in the wire form

A unit file begins with the letters `CNDR` and the version of the format, in four bytes each.
Then come the functions behind their count; a function is the word of its slot count and its
instructions behind theirs.  Nothing may follow the last function.
-/

set_option autoImplicit false

namespace SlotCompiler

namespace Wire

/-- The first four bytes of a unit file, as a number. -/
def magic : Nat := 0x52444E43

/-- The version of the format. -/
def version : Nat := 1

/-- The bytes in front of every unit. -/
def header : List UInt8 := writeFixed 4 magic ++ writeFixed 4 version

/-- The bytes of a function. -/
def writeFunction (function : Routine) : List UInt8 :=
  writeWord function.slotCount ++ writeCounted writeInstruction function.code

/-- Takes a function. -/
def readFunction : Reader Routine := do
  let slotCount ← readWord
  let code ← readCounted readInstruction
  return ⟨slotCount, code⟩

/-- The bytes of the functions of a unit. -/
def writeBody (unit : CodeUnit) : List UInt8 := writeCounted writeFunction unit.functions

/-- Takes the functions of a unit. -/
def readBody : Reader CodeUnit := do return ⟨← readCounted readFunction⟩

end Wire

/-- Why bytes are not a unit file. -/
inductive LoadFailure where
  | wrongMagic (found : Nat)
  | otherVersion (found : Nat)
  | malformed (cause : Wire.DecodeError)
  | leftover (count : Nat)
  deriving DecidableEq, Repr

namespace LoadFailure

/-- A number in at least eight hexadecimal digits. -/
def hexadecimal (number : Nat) : String :=
  let digits := Nat.toDigits 16 number
  String.ofList (List.replicate (8 - digits.length) '0' ++ digits)

/-- The message about bytes that are not a unit file. -/
def message : LoadFailure → String
  | .wrongMagic found => "not a unit file (magic 0x" ++ hexadecimal found ++ ")"
  | .otherVersion found =>
    "unsupported unit version " ++ toString found ++ ", expected " ++ toString Wire.version
  | .malformed cause => "malformed unit: " ++ cause.message
  | .leftover count => toString count ++ " trailing byte(s) after unit"

end LoadFailure

namespace CodeUnit

/-- The bytes of a unit file. -/
def encode (unit : CodeUnit) : List UInt8 := Wire.header ++ Wire.writeBody unit

/-- The unit behind a header that has been read. -/
def loadBody (bytes : List UInt8) : Except LoadFailure CodeUnit :=
  match Wire.readBody bytes with
  | .error cause => .error (.malformed cause)
  | .ok (unit, []) => .ok unit
  | .ok (_, rest) => .error (.leftover rest.length)

/-- The unit of a file. -/
def load (bytes : List UInt8) : Except LoadFailure CodeUnit :=
  let header : Wire.Reader (Nat × Nat) := do
    let magic ← Wire.readFixed 4
    let version ← Wire.readFixed 4
    return (magic, version)
  match header bytes with
  | .error cause => .error (.malformed cause)
  | .ok ((magic, version), body) =>
    if magic ≠ Wire.magic then .error (.wrongMagic magic)
    else if version ≠ Wire.version then .error (.otherVersion version)
    else loadBody body

end CodeUnit

end SlotCompiler
