import SlotCompiler.Bytecode.Unit
import SlotCompiler.Diagnostic.Basic
import SlotCompiler.Generation.Frame
import SlotCompiler.Generation.Integer

/-!
# From trees to code

Every function becomes `allocate n`, the code of its statements and `deallocate n`, where `n`
is the number of slots its frame hands out.  Code for an expression leaves its value in a slot
chosen by whoever wants the value; everything else it needs goes into fresh slots.

* A call takes a block of fresh slots: the callee's, then one for each argument.
* The left operand of an operator is computed in the wanted slot and the right one in a fresh
  slot.  Subtraction adds the negated right operand, and `~` is `xor` with a word of ones.
* A declared name stands for its slot only behind its initializer, and an assigned value goes
  through a fresh slot.

Functions are numbered in the order in which the source opens them, so the functions inside a
literal follow it.  Code generation gives up at the first problem.
-/

set_option autoImplicit false

namespace SlotCompiler

/-- The outcome of lowering a piece of a tree. -/
structure Fragment where
  /-- The frame behind the piece. -/
  frame : Frame
  code : List Instruction
  /-- The function literals in the piece. -/
  functions : List Routine
  deriving DecidableEq, Repr

namespace Fragment

/-- Two fragments, the second of which starts from the frame of the first. -/
def append (first second : Fragment) : Fragment :=
  ⟨second.frame, first.code ++ second.code, first.functions ++ second.functions⟩

/-- A fragment and some more instructions. -/
def emit (fragment : Fragment) (code : List Instruction) : Fragment :=
  { fragment with code := fragment.code ++ code }

/-- The function whose body is a fragment, and behind it the literals of the body. -/
def close (body : Fragment) : List Routine :=
  let count := UInt64.ofNat body.frame.size
  ⟨count, .allocate count :: body.code ++ [.deallocate count]⟩ :: body.functions

end Fragment

/-- The diagnostic about a name that stands for nothing. -/
def Diagnostic.unknownIdentifier (source : Source) (span : Span) : Diagnostic :=
  ⟨.unknownIdentifier (source.extract span), span⟩

/-- The diagnostic about a target that cannot be assigned to. -/
def Diagnostic.notAssignable (source : Source) : Expression → Diagnostic
  | .name span => .unknownIdentifier source span
  | target => ⟨.notAssignable, target.location⟩

/-- An operand in a slot, and then a unary operator applied to that slot in place. -/
def UnaryOperator.lower (operator : UnaryOperator) (slot : Nat) (operand : Fragment) : Fragment :=
  match operator with
  | .negate => operand.emit [.negate (.ofNat slot)]
  | .not => operand.emit [.not (.ofNat slot)]
  | .invert =>
    let (mask, frame) := operand.frame.fresh
    { operand with frame := frame }.emit
      [.setFromConstant (.ofNat mask) (.ofNat (UInt64.size - 1)), .xor (.ofNat slot) (.ofNat mask)]

/-- The instructions of a binary operator on two slots, the left of which gives way to the
result. -/
def BinaryOperator.code (operator : BinaryOperator) (left right : Nat) : List Instruction :=
  match operator with
  | .add => [.add (.ofNat left) (.ofNat right)]
  | .subtract => [.negate (.ofNat right), .add (.ofNat left) (.ofNat right)]
  | .multiply => [.mul (.ofNat left) (.ofNat right)]
  | .divide => [.div (.ofNat left) (.ofNat right)]

mutual

/-- Code that leaves the value of an expression in a slot.  The first function literal in the
expression has the index `index`. -/
def Expression.lower (source : Source) (index : Nat) (frame : Frame) (slot : Nat) :
    Expression → Except Diagnostic Fragment
  | .name span =>
    match frame.slotOf? (source.extract span) with
    | some known => .ok ⟨frame, [.copy (.ofNat slot) (.ofNat known)], []⟩
    | none => .error (.unknownIdentifier source span)
  | .integer span =>
    match IntegerLiteral.read? (source.extract span) with
    | some value => .ok ⟨frame, [.setFromConstant (.ofNat slot) value], []⟩
    | none => .error ⟨.integerOutOfRange, span⟩
  | .null _ => .ok ⟨frame, [.setNull (.ofNat slot)], []⟩
  | .call callee arguments => do
    let (base, frame) := frame.freshBlock (1 + arguments.length)
    let called ← callee.lower source index frame base
    let passed ← lowerArguments source (index + called.functions.length) called.frame (base + 1)
      arguments
    return (called.append passed).emit
      [.call (.ofNat base) (.ofNat arguments.length), .copy (.ofNat slot) (.ofNat base)]
  | .unary operator operand _ => do
    return operator.lower slot (← operand.lower source index frame slot)
  | .binary operator left right _ => do
    let first ← left.lower source index frame slot
    let (operand, frame) := first.frame.fresh
    let second ← right.lower source (index + first.functions.length) frame operand
    return (first.append second).emit (operator.code slot operand)
  | .function parameters body _ => do
    let body ← lowerStatements source (index + 1) (.ofParameters parameters) body
    return ⟨frame, [.setFunction (.ofNat slot) (.ofNat index)], body.close⟩

/-- Code that leaves the values of some expressions in consecutive slots. -/
def lowerArguments (source : Source) (index : Nat) (frame : Frame) (slot : Nat) :
    List Expression → Except Diagnostic Fragment
  | [] => .ok ⟨frame, [], []⟩
  | argument :: arguments => do
    let first ← argument.lower source index frame slot
    let rest ← lowerArguments source (index + first.functions.length) first.frame (slot + 1)
      arguments
    return first.append rest

/-- The code of a statement. -/
def Statement.lower (source : Source) (index : Nat) (frame : Frame) :
    Statement → Except Diagnostic Fragment
  | .declare name initializer => do
    let (slot, frame) := frame.fresh
    let value ← initializer.lower source index frame slot
    return { value with frame := value.frame.bind name slot }
  | .return value => do
    let (slot, frame) := frame.fresh
    let value ← value.lower source index frame slot
    return value.emit [.return (.ofNat slot)]
  | .assign target value =>
    match frame.targetOf? source target with
    | none => .error (.notAssignable source target)
    | some known => do
      let (slot, frame) := frame.fresh
      let value ← value.lower source index frame slot
      return value.emit [.copy (.ofNat known) (.ofNat slot)]
  | .evaluate value => do
    let (slot, frame) := frame.fresh
    value.lower source index frame slot

/-- The code of some statements, one behind the other. -/
def lowerStatements (source : Source) (index : Nat) (frame : Frame) :
    List Statement → Except Diagnostic Fragment
  | [] => .ok ⟨frame, [], []⟩
  | statement :: statements => do
    let first ← statement.lower source index frame
    let rest ← lowerStatements source (index + first.functions.length) first.frame statements
    return first.append rest

end

namespace FunctionSource

/-- The unit of a function and the literals in it. -/
def lower (source : Source) (function : FunctionSource) : Except Diagnostic CodeUnit := do
  let body ← lowerStatements source 1 (.ofParameters function.parameters) function.body
  return ⟨body.close⟩

end FunctionSource

end SlotCompiler
