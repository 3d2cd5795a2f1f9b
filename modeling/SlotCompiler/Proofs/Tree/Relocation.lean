import SlotCompiler.Tree.Basic

/-!
# Relocation

The same tokens elsewhere in a text, or in another text, are read as the same tree with other spans.
A relocation says where spans go and what becomes of the names that are kept as texts; a tree is
relocated by relocating every span and every such name in it.
-/

set_option autoImplicit false

namespace SlotCompiler

/-- Where spans go, and what becomes of names. -/
structure Relocation where
  place : Span → Span
  rename : String → String := id

/-- The span that lies a number of bytes further. -/
def Span.shift (distance : Nat) (span : Span) : Span :=
  ⟨distance + span.start, distance + span.stop⟩

/-- Everything goes a number of bytes further, and names stay. -/
def Relocation.shift (distance : Nat) : Relocation where
  place := Span.shift distance

mutual

def Expression.relocate (move : Relocation) : Expression → Expression
  | .name span => .name (move.place span)
  | .integer span => .integer (move.place span)
  | .null span => .null (move.place span)
  | .call callee arguments => .call (callee.relocate move) (relocateArguments move arguments)
  | .unary operator operand mark => .unary operator (operand.relocate move) (move.place mark)
  | .binary operator left right mark =>
    .binary operator (left.relocate move) (right.relocate move) (move.place mark)
  | .function parameters body mark =>
    .function (parameters.map move.rename) (relocateBody move body) (move.place mark)

def relocateArguments (move : Relocation) : List Expression → List Expression
  | [] => []
  | argument :: arguments => argument.relocate move :: relocateArguments move arguments

def Statement.relocate (move : Relocation) : Statement → Statement
  | .declare name initializer => .declare (move.rename name) (initializer.relocate move)
  | .return value => .return (value.relocate move)
  | .assign target value => .assign (target.relocate move) (value.relocate move)
  | .evaluate value => .evaluate (value.relocate move)

def relocateBody (move : Relocation) : List Statement → List Statement
  | [] => []
  | statement :: body => statement.relocate move :: relocateBody move body

end

/-- A function, relocated. -/
def FunctionSource.relocate (move : Relocation) (function : FunctionSource) : FunctionSource where
  parameters := function.parameters.map move.rename
  body := relocateBody move function.body

variable (move : Relocation)

theorem relocateArguments_eq_map (arguments : List Expression) :
    relocateArguments move arguments = arguments.map (Expression.relocate move) := by
  induction arguments with
  | nil => rw [relocateArguments, List.map_nil]
  | cons argument arguments ih => rw [relocateArguments, ih, List.map_cons]

theorem relocateBody_eq_map (body : List Statement) :
    relocateBody move body = body.map (Statement.relocate move) := by
  induction body with
  | nil => rw [relocateBody, List.map_nil]
  | cons statement body ih => rw [relocateBody, ih, List.map_cons]

end SlotCompiler
