import SlotCompiler.Bytecode.Instruction

/-!
# Units

A unit is what a source compiles to: its functions, the whole source first and then the
function literals in the order in which the source opens them.
-/

set_option autoImplicit false

namespace SlotCompiler

/-- A function of a unit: the number of slots of its frame, and its code. -/
structure Routine where
  slotCount : UInt64
  code : List Instruction
  deriving DecidableEq, Repr

/-- A compiled source. -/
structure CodeUnit where
  functions : List Routine
  deriving DecidableEq, Repr

end SlotCompiler
