/-!
# Opcodes

The operations of the slot machine.  Operands are slots of the running function's frame unless
something else is said.  Operations on two operands leave their result in the first:
`add d s` leaves `d + s` in `d`.
-/

set_option autoImplicit false

namespace SlotCompiler

/-- The operations of the slot machine. -/
inductive Opcode where
  /-- `nothing`: no effect. -/
  | nothing
  /-- `return s`: leave the function with the value of slot `s`. -/
  | return
  /-- `allocate n`: take `n` slots. -/
  | allocate
  /-- `deallocate n`: give `n` slots back. -/
  | deallocate
  /-- `set_from_constant d w`: put the word `w` into `d`. -/
  | setFromConstant
  /-- `set_null d`: put null into `d`. -/
  | setNull
  /-- `set_function d i`: put the unit's function with index `i` into `d`. -/
  | setFunction
  /-- `copy d s`: put the value of `s` into `d`. -/
  | copy
  | add
  | mul
  | div
  /-- `negate d`, and likewise `not d`: one operand, changed in place. -/
  | negate
  | not
  | and
  | or
  | xor
  | equal
  | less
  | greater
  /-- `call f n`: call the function in `f` with the arguments in the `n` slots behind `f`, and
  put its result into `f`. -/
  | call
  deriving DecidableEq, Repr

namespace Opcode

/-- Every opcode, in the order of the identifiers. -/
def all : List Opcode :=
  [.nothing, .return, .allocate, .deallocate, .setFromConstant, .setNull, .setFunction, .copy,
    .add, .mul, .div, .negate, .not, .and, .or, .xor, .equal, .less, .greater, .call]

/-- The byte that identifies an opcode in the wire form. -/
def id : Opcode → UInt8
  | .nothing => 0
  | .return => 1
  | .allocate => 2
  | .deallocate => 3
  | .setFromConstant => 4
  | .setNull => 5
  | .setFunction => 6
  | .copy => 7
  | .add => 8
  | .mul => 9
  | .div => 10
  | .negate => 11
  | .not => 12
  | .and => 13
  | .or => 14
  | .xor => 15
  | .equal => 16
  | .less => 17
  | .greater => 18
  | .call => 19

/-- The name of an opcode in listings. -/
def name : Opcode → String
  | .nothing => "nothing"
  | .return => "return"
  | .allocate => "allocate"
  | .deallocate => "deallocate"
  | .setFromConstant => "set_from_constant"
  | .setNull => "set_null"
  | .setFunction => "set_function"
  | .copy => "copy"
  | .add => "add"
  | .mul => "mul"
  | .div => "div"
  | .negate => "negate"
  | .not => "not"
  | .and => "and"
  | .or => "or"
  | .xor => "xor"
  | .equal => "equal"
  | .less => "less"
  | .greater => "greater"
  | .call => "call"

/-- How many arguments an opcode takes. -/
def arity : Opcode → Nat
  | .nothing => 0
  | .return | .allocate | .deallocate | .setNull | .negate | .not => 1
  | .setFromConstant | .setFunction | .copy | .add | .mul | .div | .and | .or | .xor | .equal
  | .less | .greater | .call => 2

/-- The opcode with an identifier. -/
def ofId? (id : UInt8) : Option Opcode := all[id.toNat]?

/-- The opcode with a name. -/
def ofName? (name : String) : Option Opcode := all.find? fun opcode => opcode.name == name

theorem ofId?_id (opcode : Opcode) : ofId? opcode.id = some opcode := by
  cases opcode <;> rfl

end Opcode

end SlotCompiler
