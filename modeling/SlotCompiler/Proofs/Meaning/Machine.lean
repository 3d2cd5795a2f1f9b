import Mathlib.Logic.Function.Basic
import SlotCompiler.Bytecode.Unit
import SlotCompiler.Proofs.Meaning.Domain

/-!
# The slot machine

The machine runs the code of one function on the slots of its frame.  A slot can be read only
if it is among the slots that the function has allocated and something was put into it; a
machine that is asked for anything else is stuck.  At the beginning the parameters are in the
first slots and nothing is allocated.

A call reads the slot of the callee and the slots of the arguments behind it, and changes
nothing but the slot of the callee.
-/

set_option autoImplicit false

namespace SlotCompiler

universe u

variable {Value : Type u}

/-- The state of a function that runs. -/
structure Machine (Value : Type u) where
  /-- What was put into the slots. -/
  slots : Nat → Option Value
  /-- The number of slots that can be used. -/
  allocated : Nat := 0
  /-- The calls made so far, in order. -/
  calls : List (Call Value) := []

namespace Machine

/-- A function with arguments that is about to run. -/
def entry (arguments : List Value) : Machine Value where
  slots slot := arguments[slot]?

/-- The value in a slot. -/
def read (machine : Machine Value) (slot : Nat) : Option Value :=
  if slot < machine.allocated then machine.slots slot else none

/-- The values in consecutive slots. -/
def readBlock (machine : Machine Value) (start : Nat) : Nat → Option (List Value)
  | 0 => some []
  | count + 1 => do
    let value ← machine.read start
    let values ← machine.readBlock (start + 1) count
    return value :: values

/-- The machine behind a value that is put into a slot. -/
def write (machine : Machine Value) (slot : Nat) (value : Value) : Option (Machine Value) :=
  if slot < machine.allocated then
    some { machine with slots := Function.update machine.slots slot (some value) }
  else none

/-- The machine behind an operation on one slot. -/
def modify (machine : Machine Value) (operation : Value → Value) (slot : UInt64) :
    Option (Machine Value) := do
  machine.write slot.toNat (operation (← machine.read slot.toNat))

/-- The machine behind an operation on two slots, the first of which takes the result. -/
def combine (machine : Machine Value) (operation : Value → Value → Value)
    (target operand : UInt64) : Option (Machine Value) := do
  machine.write target.toNat
    (operation (← machine.read target.toNat) (← machine.read operand.toNat))

/-- The machine behind a call. -/
def call (domain : Domain Value) (machine : Machine Value) (base count : UInt64) :
    Option (Machine Value) := do
  let callee ← machine.read base.toNat
  let arguments ← machine.readBlock (base.toNat + 1) count.toNat
  let call : Call Value := ⟨callee, arguments⟩
  let machine ← machine.write base.toNat (domain.answer machine.calls call)
  return { machine with calls := machine.calls ++ [call] }

end Machine

/-- The machine behind an instruction that does not leave the function. -/
def Instruction.step (domain : Domain Value) (machine : Machine Value) :
    Instruction → Option (Machine Value)
  | .nothing => some machine
  | .return _ => none
  | .allocate count => some { machine with allocated := machine.allocated + count.toNat }
  | .deallocate count =>
    if count.toNat ≤ machine.allocated then
      some { machine with allocated := machine.allocated - count.toNat }
    else none
  | .setFromConstant target value => machine.write target.toNat (domain.constant value)
  | .setNull target => machine.write target.toNat domain.null
  | .setFunction target index => machine.write target.toNat (domain.function index)
  | .copy target source => do machine.write target.toNat (← machine.read source.toNat)
  | .add target operand => machine.combine domain.add target operand
  | .mul target operand => machine.combine domain.mul target operand
  | .div target operand => machine.combine domain.div target operand
  | .negate target => machine.modify domain.negate target
  | .not target => machine.modify domain.not target
  | .and target operand => machine.combine domain.and target operand
  | .or target operand => machine.combine domain.or target operand
  | .xor target operand => machine.combine domain.xor target operand
  | .equal target operand => machine.combine domain.equal target operand
  | .less target operand => machine.combine domain.less target operand
  | .greater target operand => machine.combine domain.greater target operand
  | .call base count => machine.call domain base count

/-- Runs instructions one after the other, up to a return or the end. -/
def Machine.run (domain : Domain Value) (machine : Machine Value) :
    List Instruction → Option (Behaviour Value)
  | [] => some ⟨machine.calls, none⟩
  | .return slot :: _ => do return ⟨machine.calls, some (← machine.read slot.toNat)⟩
  | instruction :: code => do (← instruction.step domain machine).run domain code

/-- What a function does with some arguments. -/
def Routine.run (domain : Domain Value) (routine : Routine) (arguments : List Value) :
    Option (Behaviour Value) :=
  (Machine.entry arguments).run domain routine.code

end SlotCompiler
