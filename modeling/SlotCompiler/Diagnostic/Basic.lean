import SlotCompiler.Text.Span

/-!
# Problems and diagnostics

A problem is a reason to refuse a source; a diagnostic is a problem at a place.  Whoever runs
the compiler receives every diagnostic through a listener, which may keep a state of its own
and answers whether to go on.
-/

set_option autoImplicit false

namespace SlotCompiler

/-- What can be wrong with a source. -/
inductive Problem where
  | invalidCharacter
  | expressionExpected
  | declaredNameExpected
  | equalsExpected
  | controlFlow
  | leftParenthesisExpected
  | rightParenthesisExpected
  | commaExpected
  | parameterExpected
  | leftBraceExpected
  | rightBraceExpected
  | unknownIdentifier (name : String)
  | notAssignable
  | integerOutOfRange
  deriving DecidableEq, Repr

namespace Problem

/-- The message about a problem. -/
def message : Problem → String
  | .invalidCharacter => "Invalid character"
  | .expressionExpected => "Expression expected"
  | .declaredNameExpected => "Name of declared variable expected"
  | .equalsExpected => "Assignment operator '=' expected"
  | .controlFlow => "Control flow statements are not supported yet"
  | .leftParenthesisExpected => "Opening parenthesis '(' expected"
  | .rightParenthesisExpected => "Closing parenthesis ')' expected"
  | .commaExpected => "Comma or closing parenthesis expected"
  | .parameterExpected => "Parameter name expected"
  | .leftBraceExpected => "Opening brace '\x7b' expected"
  | .rightBraceExpected => "Closing brace '\x7d' expected"
  | .unknownIdentifier name => "Unknown identifier '" ++ name ++ "'"
  | .notAssignable => "Expression is not assignable"
  | .integerOutOfRange => "Integer literal out of range"

end Problem

/-- A problem and the span of the source that shows it. -/
structure Diagnostic where
  problem : Problem
  span : Span
  deriving DecidableEq, Repr

namespace Diagnostic

/-- The message of a diagnostic. -/
def message (diagnostic : Diagnostic) : String := diagnostic.problem.message

end Diagnostic

/-- What to do about a diagnostic. -/
inductive Answer where
  /-- Look for the next statement and go on. -/
  | resume
  /-- Give up. -/
  | stop
  deriving DecidableEq, Repr

/-- States that receive diagnostics, one at a time, and answer each. -/
class Listener (σ : Type) where
  tell : σ → Diagnostic → Answer × σ

end SlotCompiler
