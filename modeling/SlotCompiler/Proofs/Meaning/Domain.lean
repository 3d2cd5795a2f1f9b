/-!
# Value domains

What a program computes with is left open.  A domain gives a meaning to the words in the code,
to null, to references to functions and to every operation, and it answers the calls that a
program makes.  The answer to a call may depend on all the calls before it, so a domain can
stand for functions with effects, for other functions of the same unit, or for the outside.

What shows of a run of a function is its behaviour: the calls it makes, in order, and the value
it returns, if it returns one.
-/

set_option autoImplicit false

namespace SlotCompiler

universe u

/-- A call: what is called, and with which arguments. -/
structure Call (Value : Type u) where
  callee : Value
  arguments : List Value
  deriving DecidableEq, Repr

/-- A meaning for everything that code refers to. -/
structure Domain (Value : Type u) where
  constant : UInt64 → Value
  null : Value
  /-- The reference to the function with an index. -/
  function : UInt64 → Value
  add : Value → Value → Value
  mul : Value → Value → Value
  div : Value → Value → Value
  negate : Value → Value
  not : Value → Value
  and : Value → Value → Value
  or : Value → Value → Value
  xor : Value → Value → Value
  equal : Value → Value → Value
  less : Value → Value → Value
  greater : Value → Value → Value
  /-- The answer to a call behind some earlier calls. -/
  answer : List (Call Value) → Call Value → Value

/-- What shows of a run: the calls that were made, and the value that was returned, if the run
did not go off the end. -/
structure Behaviour (Value : Type u) where
  calls : List (Call Value)
  result : Option Value
  deriving DecidableEq, Repr

end SlotCompiler
