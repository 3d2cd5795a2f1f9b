import SlotCompiler.Proofs.Generation.Numerals
import SlotCompiler.Proofs.Tree.Literals
import SlotCompiler.Source

/-!
# What a tree has to fulfil

A tree is checked against its source without any code: names have to be in scope, targets have to
be names in scope, and integers have to be words.  `FunctionSource.obligations` lists everything
that has to hold, in the order of evaluation.

* A scope is a list of names.  It begins with the parameters of a function, and a declaration adds
  its name behind its initializer.  A function literal sees nothing of the scope around it.
* The target of an assignment comes before the value, and nothing inside the target is looked at.
* The body of a function literal stands where the literal stands.

The constants that a function calls for, those of literals inside it apart, are listed in the same
order by `FunctionSource.constants`.
-/

set_option autoImplicit false

namespace SlotCompiler

/-! ## Obligations -/

/-- Something that has to hold at a place of a tree. -/
inductive Obligation where
  /-- A span selects a name of a scope. -/
  | bound (scope : List String) (span : Span)
  /-- A span selects an integer that is a word. -/
  | word (span : Span)
  /-- An expression is a name of a scope. -/
  | assignable (scope : List String) (target : Expression)
  deriving Repr

namespace Obligation

variable (source : Source)

/-- Whether an obligation holds. -/
def Met : Obligation → Prop
  | .bound scope span => source.extract span ∈ scope
  | .word span =>
    ∃ number, IntegerLiteral.Denotes (source.extract span) number ∧ number < UInt64.size
  | .assignable scope target => ∃ span, target = .name span ∧ source.extract span ∈ scope

/-- The message about an obligation that does not hold. -/
def message : Obligation → String
  | .bound _ span => "Unknown identifier '" ++ source.extract span ++ "'"
  | .word _ => "Integer literal out of range"
  | .assignable _ (.name span) => "Unknown identifier '" ++ source.extract span ++ "'"
  | .assignable _ _ => "Expression is not assignable"

/-- Where the message about an obligation points. -/
def location : Obligation → Span
  | .bound _ span => span
  | .word span => span
  | .assignable _ target => target.location

end Obligation

/-- The names in scope behind a statement. -/
def Statement.scopeBehind (scope : List String) : Statement → List String
  | .declare name _ => name :: scope
  | .return _ => scope
  | .assign _ _ => scope
  | .evaluate _ => scope

mutual

/-- What has to hold for an expression, in the order of evaluation. -/
def Expression.obligations (scope : List String) : Expression → List Obligation
  | .name span => [.bound scope span]
  | .integer span => [.word span]
  | .null _ => []
  | .call callee arguments => callee.obligations scope ++ argumentObligations scope arguments
  | .unary _ operand _ => operand.obligations scope
  | .binary _ left right _ => left.obligations scope ++ right.obligations scope
  | .function parameters body _ => bodyObligations parameters body

/-- What has to hold for some expressions. -/
def argumentObligations (scope : List String) : List Expression → List Obligation
  | [] => []
  | argument :: arguments => argument.obligations scope ++ argumentObligations scope arguments

/-- What has to hold for a statement. -/
def Statement.obligations (scope : List String) : Statement → List Obligation
  | .declare _ initializer => initializer.obligations scope
  | .return value => value.obligations scope
  | .assign target value => .assignable scope target :: value.obligations scope
  | .evaluate value => value.obligations scope

/-- What has to hold for some statements. -/
def bodyObligations (scope : List String) : List Statement → List Obligation
  | [] => []
  | statement :: body =>
    statement.obligations scope ++ bodyObligations (statement.scopeBehind scope) body

end

/-- What has to hold for a function and all the literals inside it. -/
def FunctionSource.obligations (function : FunctionSource) : List Obligation :=
  bodyObligations function.parameters function.body

/-! ## Constants -/

/-- A constant that a tree calls for. -/
inductive Constant where
  /-- The number that a span denotes. -/
  | literal (span : Span)
  /-- The greatest word, which inverts by `xor`. -/
  | greatest
  deriving DecidableEq, Repr

/-- Whether a word is the constant. -/
def Constant.Denotes (source : Source) : Constant → UInt64 → Prop
  | .literal span, word => IntegerLiteral.Denotes (source.extract span) word.toNat
  | .greatest, word => word.toNat = UInt64.size - 1

mutual

/-- The constants that an expression calls for, those of function literals inside it apart. -/
def Expression.constants : Expression → List Constant
  | .name _ => []
  | .integer span => [.literal span]
  | .null _ => []
  | .call callee arguments => callee.constants ++ argumentConstants arguments
  | .unary operator operand _ =>
    operand.constants ++ if operator = .invert then [.greatest] else []
  | .binary _ left right _ => left.constants ++ right.constants
  | .function _ _ _ => []

/-- The constants that some expressions call for. -/
def argumentConstants : List Expression → List Constant
  | [] => []
  | argument :: arguments => argument.constants ++ argumentConstants arguments

end

/-- The constants that a statement calls for. -/
def Statement.constants : Statement → List Constant
  | .declare _ initializer => initializer.constants
  | .return value => value.constants
  | .assign _ value => value.constants
  | .evaluate value => value.constants

/-- The constants that a function calls for. -/
def FunctionSource.constants (function : FunctionSource) : List Constant :=
  function.body.flatMap Statement.constants

end SlotCompiler
