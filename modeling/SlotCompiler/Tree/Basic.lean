import SlotCompiler.Text.Span

/-!
# Syntax trees

The tree of a source holds spans and not texts: a name or an integer is read off the source
when it is needed.  Only names that a construct introduces (a declared variable, a parameter)
are kept as texts.

An operator or a function literal is marked by the span of its operator or keyword, and a
call by nothing of its own: it is located where its callee is.
-/

set_option autoImplicit false

namespace SlotCompiler

/-- The operators in front of an operand. -/
inductive UnaryOperator where
  | negate | not | invert
  deriving DecidableEq, Repr

/-- The operators between two operands. -/
inductive BinaryOperator where
  | add | subtract | multiply | divide
  deriving DecidableEq, Repr

mutual

/-- An expression. -/
inductive Expression where
  | name (span : Span)
  /-- An integer, its digits unread. -/
  | integer (span : Span)
  | null (span : Span)
  | call (callee : Expression) (arguments : List Expression)
  | unary (operator : UnaryOperator) (operand : Expression) (mark : Span)
  | binary (operator : BinaryOperator) (left right : Expression) (mark : Span)
  /-- A function literal. -/
  | function (parameters : List String) (body : List Statement) (mark : Span)
  deriving Repr

/-- A statement. -/
inductive Statement where
  | declare (name : String) (initializer : Expression)
  | return (value : Expression)
  | assign (target value : Expression)
  /-- An expression for its effect. -/
  | evaluate (value : Expression)
  deriving Repr

end

/-- The source form of a function.  A whole source is one without parameters. -/
structure FunctionSource where
  parameters : List String
  body : List Statement
  deriving Repr

/-- Where messages about an expression point. -/
def Expression.location : Expression → Span
  | .name span => span
  | .integer span => span
  | .null span => span
  | .call callee _ => callee.location
  | .unary _ _ mark => mark
  | .binary _ _ _ mark => mark
  | .function _ _ mark => mark

end SlotCompiler
