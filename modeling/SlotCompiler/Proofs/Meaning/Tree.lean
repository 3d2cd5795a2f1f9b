import Mathlib.Logic.Function.Basic
import SlotCompiler.Generation.Integer
import SlotCompiler.Proofs.Meaning.Domain
import SlotCompiler.Proofs.Tree.Literals
import SlotCompiler.Source

/-!
# The meaning of a tree

A function is evaluated as it is read, from left to right, with an environment that gives the
names in scope their values.  Evaluation knows nothing of slots or instructions.

* A name has the value that was last bound to it; a name that stands for nothing has none, and
  then there is no evaluation.
* A call evaluates what is called and then the arguments, and asks the domain for the answer.
* `x - y` is the sum of `x` and the negated `y`, and `~x` is `x` xor the greatest word.
* A function literal is the reference to its index; the first literal of a piece of a tree has
  the index that is passed along.
* A declaration binds its name behind its initializer, an assignment changes the value of a
  name that is bound already, and `return` ends the function.
-/

set_option autoImplicit false

namespace SlotCompiler

universe u

variable {Value : Type u}

/-- The values of the names in scope. -/
abbrev Environment (Value : Type u) := String → Option Value

/-- The environment with a name bound to a value. -/
def Environment.bind (environment : Environment Value) (name : String) (value : Value) :
    Environment Value :=
  Function.update environment name (some value)

/-- The environment in which the parameters of a function are its arguments. -/
def Environment.ofArguments (parameters : List String) (arguments : List Value) :
    Environment Value :=
  (parameters.zip arguments).foldl (fun environment pair => environment.bind pair.1 pair.2)
    fun _ => none

/-- What an operator makes of its operand. -/
def UnaryOperator.apply (domain : Domain Value) : UnaryOperator → Value → Value
  | .negate, value => domain.negate value
  | .not, value => domain.not value
  | .invert, value => domain.xor value (domain.constant (.ofNat (UInt64.size - 1)))

/-- What an operator makes of its operands. -/
def BinaryOperator.apply (domain : Domain Value) : BinaryOperator → Value → Value → Value
  | .add, left, right => domain.add left right
  | .subtract, left, right => domain.add left (domain.negate right)
  | .multiply, left, right => domain.mul left right
  | .divide, left, right => domain.div left right

section Evaluation

variable (domain : Domain Value) (source : Source)

mutual

/-- The value of an expression, and the calls made up to then. -/
def Expression.evaluate (environment : Environment Value) (index : Nat)
    (calls : List (Call Value)) : Expression → Option (Value × List (Call Value))
  | .name span => (environment (source.extract span)).map (·, calls)
  | .integer span =>
    (IntegerLiteral.read? (source.extract span)).map fun word => (domain.constant word, calls)
  | .null _ => some (domain.null, calls)
  | .call callee arguments => do
    let (called, calls) ← callee.evaluate environment index calls
    let (values, calls) ←
      evaluateArguments environment (index + callee.literals.length) calls arguments
    let call : Call Value := ⟨called, values⟩
    return (domain.answer calls call, calls ++ [call])
  | .unary operator operand _ => do
    let (value, calls) ← operand.evaluate environment index calls
    return (operator.apply domain value, calls)
  | .binary operator left right _ => do
    let (first, calls) ← left.evaluate environment index calls
    let (second, calls) ← right.evaluate environment (index + left.literals.length) calls
    return (operator.apply domain first second, calls)
  | .function _ _ _ => some (domain.function (.ofNat index), calls)

/-- The values of some expressions, and the calls made up to then. -/
def evaluateArguments (environment : Environment Value) (index : Nat)
    (calls : List (Call Value)) :
    List Expression → Option (List Value × List (Call Value))
  | [] => some ([], calls)
  | argument :: arguments => do
    let (value, calls) ← argument.evaluate environment index calls
    let (values, calls) ←
      evaluateArguments environment (index + argument.literals.length) calls arguments
    return (value :: values, calls)

end

/-- The name that an assignment to an expression changes, if it is in scope. -/
def Expression.assigned? (environment : Environment Value) : Expression → Option String
  | .name span =>
    if (environment (source.extract span)).isSome then some (source.extract span) else none
  | _ => none

/-- The behaviour of some statements behind some calls. -/
def evaluateBody (environment : Environment Value) (index : Nat) (calls : List (Call Value)) :
    List Statement → Option (Behaviour Value)
  | [] => some ⟨calls, none⟩
  | .declare name initializer :: body => do
    let (value, calls) ← initializer.evaluate domain source environment index calls
    evaluateBody (environment.bind name value) (index + initializer.literals.length) calls body
  | .return value :: _ => do
    let (result, calls) ← value.evaluate domain source environment index calls
    return ⟨calls, some result⟩
  | .assign target value :: body =>
    match target.assigned? source environment with
    | none => none
    | some name => do
      let (result, calls) ← value.evaluate domain source environment index calls
      evaluateBody (environment.bind name result) (index + value.literals.length) calls body
  | .evaluate value :: body => do
    let (_, calls) ← value.evaluate domain source environment index calls
    evaluateBody environment (index + value.literals.length) calls body

/-- What the function with an index does with some arguments. -/
def FunctionSource.evaluate (function : FunctionSource) (index : Nat) (arguments : List Value) :
    Option (Behaviour Value) :=
  evaluateBody domain source (.ofArguments function.parameters arguments) (index + 1) []
    function.body

end Evaluation

end SlotCompiler
