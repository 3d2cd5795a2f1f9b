import SlotCompiler.Tree.Basic

/-!
# Function literals and slots of a tree

Two measures of a tree that say what its code will look like before there is any code.
`functions` lists a function and the literals inside it, at any depth, in the order in which
the source opens them; a function has the index of its place in that list.  `demand` is the
number of slots that a piece of a tree takes besides the slot its value is wanted in.

The target of an assignment is read and not computed, so it takes no slots.
-/

set_option autoImplicit false

namespace SlotCompiler

/-! ## Function literals -/

mutual

/-- The function literals in an expression, in the order in which they begin. -/
def Expression.literals : Expression → List FunctionSource
  | .name _ => []
  | .integer _ => []
  | .null _ => []
  | .call callee arguments => callee.literals ++ argumentLiterals arguments
  | .unary _ operand _ => operand.literals
  | .binary _ left right _ => left.literals ++ right.literals
  | .function parameters body _ => ⟨parameters, body⟩ :: bodyLiterals body

/-- The function literals in some expressions. -/
def argumentLiterals : List Expression → List FunctionSource
  | [] => []
  | argument :: arguments => argument.literals ++ argumentLiterals arguments

/-- The function literals in a statement. -/
def Statement.literals : Statement → List FunctionSource
  | .declare _ initializer => initializer.literals
  | .return value => value.literals
  | .assign target value => target.literals ++ value.literals
  | .evaluate value => value.literals

/-- The function literals in some statements. -/
def bodyLiterals : List Statement → List FunctionSource
  | [] => []
  | statement :: statements => statement.literals ++ bodyLiterals statements

end

/-- A function and all the literals inside it, by index. -/
def FunctionSource.functions (function : FunctionSource) : List FunctionSource :=
  function :: bodyLiterals function.body

/-! ## Slots -/

mutual

/-- The slots that an expression takes besides the one its value is wanted in. -/
def Expression.demand : Expression → Nat
  | .name _ => 0
  | .integer _ => 0
  | .null _ => 0
  | .call callee arguments =>
    1 + arguments.length + callee.demand + argumentDemand arguments
  | .unary operator operand _ => operand.demand + if operator = .invert then 1 else 0
  | .binary _ left right _ => left.demand + 1 + right.demand
  | .function _ _ _ => 0

/-- The slots that some expressions take besides those their values are wanted in. -/
def argumentDemand : List Expression → Nat
  | [] => 0
  | argument :: arguments => argument.demand + argumentDemand arguments

end

/-- The slots that a statement takes. -/
def Statement.demand : Statement → Nat
  | .declare _ initializer => 1 + initializer.demand
  | .return value => 1 + value.demand
  | .assign _ value => 1 + value.demand
  | .evaluate value => 1 + value.demand

/-- The slots that some statements take. -/
def bodyDemand : List Statement → Nat
  | [] => 0
  | statement :: statements => statement.demand + bodyDemand statements

/-- The slots that a function takes, those of its parameters included. -/
def FunctionSource.demand (function : FunctionSource) : Nat :=
  function.parameters.length + bodyDemand function.body

end SlotCompiler
