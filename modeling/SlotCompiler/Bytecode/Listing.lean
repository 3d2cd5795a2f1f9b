import SlotCompiler.Bytecode.Unit
import SlotCompiler.Text.Padding

/-!
# Unit listings

The listing of a unit shows every function under a ruled heading, one instruction to a line
behind its index.  A call shows the registers that it uses, and a function reference the
function that it means, as a comment at a fixed column.
-/

set_option autoImplicit false

namespace SlotCompiler.UnitListing

/-- The sum of two words, or the greatest word where the sum does not fit. -/
def saturatingAdd (first second : UInt64) : UInt64 :=
  .ofNat (min (first.toNat + second.toNat) (UInt64.size - 1))

/-- The name of a slot in a comment. -/
def register (slot : UInt64) : String := "r" ++ toString slot

/-- The comment on an instruction. -/
def comment? : Instruction → Option String
  | .call base count =>
    let arguments :=
      if count = 0 then ""
      else register (saturatingAdd base 1) ++ "..=" ++ register (saturatingAdd base count)
    some (register base ++ " = " ++ register base ++ "(" ++ arguments ++ ")")
  | .setFunction _ index => some ("-> function[" ++ toString index ++ "]")
  | _ => none

/-- An instruction in columns: its name, its words, its comment. -/
def instruction (instruction : Instruction) : String :=
  let words := " ".intercalate (instruction.arguments.map toString)
  let text :=
    if words.isEmpty then instruction.opcode.name
    else Padding.right 18 instruction.opcode.name ++ words
  match comment? instruction with
  | none => text
  | some comment => Padding.right 30 text ++ "; " ++ comment

/-- The lines of some instructions, the first of which has a given index. -/
def code (index : Nat) : List Instruction → String
  | [] => ""
  | first :: rest =>
    Padding.zeros 4 index ++ "  " ++ instruction first ++ "\n" ++ code (index + 1) rest

/-- The rule above and below a heading. -/
def rule : String := String.ofList (List.replicate 40 '═')

/-- The listing of the function with a given index. -/
def function (index : Nat) (function : Routine) : String :=
  let mark := if index = 0 then " (main)" else ""
  rule ++ "\n function[" ++ toString index ++ "]" ++ mark ++ "\n " ++
    toString function.slotCount ++ " slots, " ++ toString function.code.length ++
    " instructions\n" ++ rule ++ "\n" ++ code 0 function.code ++ "\n"

/-- The listings of some functions, the first of which has a given index. -/
def functions (index : Nat) : List Routine → String
  | [] => ""
  | first :: rest => function index first ++ functions (index + 1) rest

/-- The listing of a unit. -/
def render (unit : CodeUnit) : String := functions 0 unit.functions

end SlotCompiler.UnitListing
