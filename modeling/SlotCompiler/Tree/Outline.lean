import SlotCompiler.Tree.Basic

/-!
# Outlines of trees

An outline shows a tree as nested records and lists, one entry to a line, each level indented
by four blanks.  `Outline` is the form that can be laid out; the rest of the module says which
records a tree consists of.

Names are quoted as they are: they are words of the language, so no character of theirs needs
an escape.
-/

set_option autoImplicit false

namespace SlotCompiler

/-- A text laid out over lines. -/
inductive Outline where
  /-- A text on one line. -/
  | atom (text : String)
  /-- An entry with its label. -/
  | labelled (label : String) (entry : Outline)
  /-- Entries between two delimiters, or both delimiters on one line when there is no entry. -/
  | block (opening : String) (entries : List Outline) (closing : String)
  deriving Repr

namespace Outline

/-- The blanks in front of a line at a depth. -/
def indent (depth : Nat) : String := String.ofList (List.replicate (4 * depth) ' ')

mutual

/-- The text of an outline whose last line is at a depth. -/
def render (depth : Nat) : Outline → String
  | .atom text => text
  | .labelled label entry => label ++ ": " ++ entry.render depth
  | .block opening [] closing => opening ++ closing
  | .block opening (entry :: entries) closing =>
    opening ++ "\n" ++ indent (depth + 1) ++ entry.render (depth + 1) ++ ",\n" ++
      renderEntries (depth + 1) entries ++ indent depth ++ closing

/-- The lines of some entries at a depth, each behind a comma. -/
def renderEntries (depth : Nat) : List Outline → String
  | [] => ""
  | entry :: entries =>
    indent depth ++ entry.render depth ++ ",\n" ++ renderEntries depth entries

end

/-- A record with a name and labelled fields. -/
def record (name : String) (fields : List (String × Outline)) : Outline :=
  .block (name ++ " \x7b") (fields.map fun (label, entry) => .labelled label entry) "\x7d"

/-- A list of entries. -/
def list (entries : List Outline) : Outline := .block "[" entries "]"

/-- A name in quotes. -/
def quoted (name : String) : Outline := .atom ("\"" ++ name ++ "\"")

end Outline

namespace Span

/-- The outline of a span. -/
def outline (span : Span) : Outline :=
  .record "SourceRange"
    [("begin", .atom (toString span.start)), ("end", .atom (toString span.stop))]

end Span

/-- The outline of an operator. -/
def UnaryOperator.outline : UnaryOperator → Outline
  | .negate => .atom "Negate"
  | .not => .atom "Not"
  | .invert => .atom "Invert"

/-- The outline of an operator. -/
def BinaryOperator.outline : BinaryOperator → Outline
  | .add => .atom "Add"
  | .subtract => .atom "Subtract"
  | .multiply => .atom "Multiply"
  | .divide => .atom "Divide"

/-- The outline of a function whose statements are already outlined. -/
def Outline.function (parameters : List String) (body : List Outline) : Outline :=
  .record "FunctionTree"
    [("parameters", .list (parameters.map .quoted)), ("body", .list body)]

mutual

/-- The outline of an expression. -/
def Expression.outline : Expression → Outline
  | .name span => .record "Name" [("range", span.outline)]
  | .integer span => .record "IntegerLiteral" [("digits", span.outline)]
  | .null span => .record "Null" [("range", span.outline)]
  | .call callee arguments =>
    .record "Call" [("callee", callee.outline), ("arguments", .list (outlines arguments))]
  | .unary operator operand mark =>
    .record "Unary"
      [("operator", operator.outline), ("operand", operand.outline), ("location", mark.outline)]
  | .binary operator left right mark =>
    .record "Binary"
      [("operator", operator.outline), ("left", left.outline), ("right", right.outline),
        ("location", mark.outline)]
  | .function parameters body mark =>
    .record "Function"
      [("function", .function parameters (statementOutlines body)), ("location", mark.outline)]

/-- The outlines of some expressions. -/
def outlines : List Expression → List Outline
  | [] => []
  | expression :: expressions => expression.outline :: outlines expressions

/-- The outline of a statement. -/
def Statement.outline : Statement → Outline
  | .declare name initializer =>
    .record "Declaration" [("name", .quoted name), ("initializer", initializer.outline)]
  | .return value => .record "Return" [("value", value.outline)]
  | .assign target value =>
    .record "Assignment" [("target", target.outline), ("value", value.outline)]
  | .evaluate value => .record "Expression" [("value", value.outline)]

/-- The outlines of some statements. -/
def statementOutlines : List Statement → List Outline
  | [] => []
  | statement :: statements => statement.outline :: statementOutlines statements

end

namespace FunctionSource

/-- The outline of a function. -/
def outline (function : FunctionSource) : Outline :=
  .function function.parameters (statementOutlines function.body)

/-- The outline of a function as a text. -/
def render (function : FunctionSource) : String := function.outline.render 0

end FunctionSource

end SlotCompiler
