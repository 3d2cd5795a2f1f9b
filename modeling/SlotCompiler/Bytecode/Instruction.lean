import SlotCompiler.Bytecode.Opcode

/-!
# Instructions

An instruction is an opcode with as many words as the opcode takes; there is no value of the
type with any other number.  `opcode` and `arguments` are its two parts, and `ofParts` puts an
instruction together from parts of any length, or says how many were wrong.
-/

set_option autoImplicit false

namespace SlotCompiler

/-- An instruction of the slot machine. -/
inductive Instruction where
  | nothing
  | return (slot : UInt64)
  | allocate (count : UInt64)
  | deallocate (count : UInt64)
  | setFromConstant (target value : UInt64)
  | setNull (target : UInt64)
  | setFunction (target index : UInt64)
  | copy (target source : UInt64)
  | add (target operand : UInt64)
  | mul (target operand : UInt64)
  | div (target operand : UInt64)
  | negate (target : UInt64)
  | not (target : UInt64)
  | and (target operand : UInt64)
  | or (target operand : UInt64)
  | xor (target operand : UInt64)
  | equal (target operand : UInt64)
  | less (target operand : UInt64)
  | greater (target operand : UInt64)
  | call (base count : UInt64)
  deriving DecidableEq, Repr

/-- A wrong number of arguments. -/
structure ArityMismatch where
  opcode : Opcode
  actual : Nat
  deriving DecidableEq, Repr

namespace ArityMismatch

/-- The message about a wrong number of arguments. -/
def message (error : ArityMismatch) : String :=
  "opcode '" ++ error.opcode.name ++ "' takes " ++ toString error.opcode.arity ++
    " argument(s), got " ++ toString error.actual

end ArityMismatch

namespace Instruction

/-- The operation of an instruction. -/
def opcode : Instruction → Opcode
  | .nothing => .nothing
  | .return _ => .return
  | .allocate _ => .allocate
  | .deallocate _ => .deallocate
  | .setFromConstant _ _ => .setFromConstant
  | .setNull _ => .setNull
  | .setFunction _ _ => .setFunction
  | .copy _ _ => .copy
  | .add _ _ => .add
  | .mul _ _ => .mul
  | .div _ _ => .div
  | .negate _ => .negate
  | .not _ => .not
  | .and _ _ => .and
  | .or _ _ => .or
  | .xor _ _ => .xor
  | .equal _ _ => .equal
  | .less _ _ => .less
  | .greater _ _ => .greater
  | .call _ _ => .call

/-- The words of an instruction, in order. -/
def arguments : Instruction → List UInt64
  | .nothing => []
  | .return slot => [slot]
  | .allocate count => [count]
  | .deallocate count => [count]
  | .setFromConstant target value => [target, value]
  | .setNull target => [target]
  | .setFunction target index => [target, index]
  | .copy target source => [target, source]
  | .add target operand => [target, operand]
  | .mul target operand => [target, operand]
  | .div target operand => [target, operand]
  | .negate target => [target]
  | .not target => [target]
  | .and target operand => [target, operand]
  | .or target operand => [target, operand]
  | .xor target operand => [target, operand]
  | .equal target operand => [target, operand]
  | .less target operand => [target, operand]
  | .greater target operand => [target, operand]
  | .call base count => [base, count]

/-- The instruction with an opcode and arguments, if their number is right. -/
def ofParts (opcode : Opcode) (arguments : List UInt64) : Except ArityMismatch Instruction :=
  match opcode, arguments with
  | .nothing, [] => .ok .nothing
  | .return, [slot] => .ok (.return slot)
  | .allocate, [count] => .ok (.allocate count)
  | .deallocate, [count] => .ok (.deallocate count)
  | .setFromConstant, [target, value] => .ok (.setFromConstant target value)
  | .setNull, [target] => .ok (.setNull target)
  | .setFunction, [target, index] => .ok (.setFunction target index)
  | .copy, [target, source] => .ok (.copy target source)
  | .add, [target, operand] => .ok (.add target operand)
  | .mul, [target, operand] => .ok (.mul target operand)
  | .div, [target, operand] => .ok (.div target operand)
  | .negate, [target] => .ok (.negate target)
  | .not, [target] => .ok (.not target)
  | .and, [target, operand] => .ok (.and target operand)
  | .or, [target, operand] => .ok (.or target operand)
  | .xor, [target, operand] => .ok (.xor target operand)
  | .equal, [target, operand] => .ok (.equal target operand)
  | .less, [target, operand] => .ok (.less target operand)
  | .greater, [target, operand] => .ok (.greater target operand)
  | .call, [base, count] => .ok (.call base count)
  | opcode, arguments => .error ⟨opcode, arguments.length⟩

/-- An instruction holds as many words as its opcode takes. -/
theorem length_arguments (instruction : Instruction) :
    instruction.arguments.length = instruction.opcode.arity := by
  cases instruction <;> rfl

/-- An instruction is made of its parts. -/
theorem ofParts_parts (instruction : Instruction) :
    ofParts instruction.opcode instruction.arguments = .ok instruction := by
  cases instruction <;> rfl

/-- An instruction on one line: its name and its words. -/
def text (instruction : Instruction) : String :=
  " ".intercalate (instruction.opcode.name :: instruction.arguments.map toString)

end Instruction

end SlotCompiler
