import SlotCompiler.Bytecode.Instruction
import SlotCompiler.Wire.Primitive

/-!
# Instructions in the wire form

An instruction is the byte of its opcode and then its words.  The opcode says how many words
follow, so nothing marks the end of an instruction.
-/

set_option autoImplicit false

namespace SlotCompiler

namespace Wire

/-- The bytes of an instruction. -/
def writeInstruction (instruction : Instruction) : List UInt8 :=
  instruction.opcode.id :: instruction.arguments.flatMap writeWord

/-- Takes the word of an instruction of one argument. -/
def readUnary (build : UInt64 → Instruction) : Reader Instruction := do
  return build (← readWord)

/-- Takes the words of an instruction of two arguments. -/
def readBinary (build : UInt64 → UInt64 → Instruction) : Reader Instruction := do
  let first ← readWord
  let second ← readWord
  return build first second

/-- Takes what follows an opcode. -/
def readArguments : Opcode → Reader Instruction
  | .nothing => return .nothing
  | .return => readUnary .return
  | .allocate => readUnary .allocate
  | .deallocate => readUnary .deallocate
  | .setFromConstant => readBinary .setFromConstant
  | .setNull => readUnary .setNull
  | .setFunction => readBinary .setFunction
  | .copy => readBinary .copy
  | .add => readBinary .add
  | .mul => readBinary .mul
  | .div => readBinary .div
  | .negate => readUnary .negate
  | .not => readUnary .not
  | .and => readBinary .and
  | .or => readBinary .or
  | .xor => readBinary .xor
  | .equal => readBinary .equal
  | .less => readBinary .less
  | .greater => readBinary .greater
  | .call => readBinary .call

/-- Takes an instruction. -/
def readInstruction : Reader Instruction := do
  let id ← readByte
  match Opcode.ofId? id with
  | some opcode => readArguments opcode
  | none => throw (.unknownOpcode id)

end Wire

end SlotCompiler
