import Mathlib.Data.List.Forall2
import SlotCompiler.Proofs.Scanning.Spacing
import SlotCompiler.Tree.Basic

/-!
# Trees in words

A tree, together with the source that its ranges select from, can be written down as a row of words
(`Expression.words`).  Only those parentheses are written that precedence and the grouping to the
left call for, and those that keep a statement from beginning with a minus sign, which would be
read as going on with the statement before.

Two trees are `Alike`, each over a source of its own, when they differ only in their ranges and
every range of the second one selects the text that belongs to its place.
-/

set_option autoImplicit false

namespace SlotCompiler

namespace UnaryOperator

/-- The symbol of an operator. -/
def symbol : UnaryOperator → Symbol
  | .negate => .minus
  | .not => .exclamation
  | .invert => .tilde

end UnaryOperator

namespace BinaryOperator

/-- The symbol of an operator. -/
def symbol : BinaryOperator → Symbol
  | .add => .plus
  | .subtract => .minus
  | .multiply => .star
  | .divide => .slash

/-- Whether an operator stands between products. -/
def isAdditive : BinaryOperator → Bool
  | .add | .subtract => true
  | .multiply | .divide => false

end BinaryOperator

namespace Expression

/-- Whether an expression is an operator with two operands. -/
def isBinary : Expression → Bool
  | .binary _ _ _ _ => true
  | _ => false

/-- Whether an expression is a sum or a difference. -/
def isAdditive : Expression → Bool
  | .binary operator _ _ _ => operator.isAdditive
  | _ => false

end Expression

/-! ## Writing a tree down -/

namespace Words

/-- Words in parentheses, if a condition holds. -/
def parenthesize (condition : Bool) (words : List String) : List String :=
  if condition then Symbol.leftParenthesis.text :: (words ++ [Symbol.rightParenthesis.text])
  else words

/-- Items with commas between them. -/
def separate : List (List String) → List String
  | [] => []
  | item :: items => item ++ items.flatMap (Symbol.comma.text :: ·)

/-- The words of an expression that begins a statement. -/
def lead (words : List String) : List String :=
  parenthesize (words.head? == some Symbol.minus.text) words

end Words

open Words

mutual

/-- The words of an expression. -/
def Expression.words (source : Source) : Expression → List String
  | .name span => [source.extract span]
  | .integer span => [source.extract span]
  | .null _ => [Keyword.null.text]
  | .call callee arguments =>
    Keyword.call.text :: (callee.words source ++ Symbol.leftParenthesis.text ::
      (separate (argumentWords source arguments) ++ [Symbol.rightParenthesis.text]))
  | .unary operator operand _ =>
    operator.symbol.text :: parenthesize operand.isBinary (operand.words source)
  | .binary operator left right _ =>
    let leftParenthesized := !operator.isAdditive && left.isAdditive
    let rightParenthesized := if operator.isAdditive then right.isAdditive else right.isBinary
    parenthesize leftParenthesized (left.words source) ++
      operator.symbol.text :: parenthesize rightParenthesized (right.words source)
  | .function parameters body _ =>
    Keyword.function.text :: Symbol.leftParenthesis.text ::
      (separate (parameters.map fun name => [name]) ++
        Symbol.rightParenthesis.text :: Symbol.leftBrace.text ::
          ((bodyWords source body).flatten ++ [Symbol.rightBrace.text]))

/-- The words of each of some arguments. -/
def argumentWords (source : Source) : List Expression → List (List String)
  | [] => []
  | argument :: arguments => argument.words source :: argumentWords source arguments

/-- The words of a statement. -/
def Statement.words (source : Source) : Statement → List String
  | .declare name initializer =>
    Keyword.var.text :: name :: Symbol.equals.text :: initializer.words source
  | .return value => Keyword.return.text :: value.words source
  | .assign target value =>
    lead (target.words source) ++ Symbol.equals.text :: value.words source
  | .evaluate value => lead (value.words source)

/-- The words of each statement of a body. -/
def bodyWords (source : Source) : List Statement → List (List String)
  | [] => []
  | statement :: body => statement.words source :: bodyWords source body

end

/-- The words of a whole source. -/
def FunctionSource.words (source : Source) (function : FunctionSource) : List String :=
  (bodyWords source function.body).flatten

/-! ## Trees that can be written down -/

mutual

/-- Whether the names in an expression are names and its integers are digits. -/
def Expression.Worded (source : Source) : Expression → Prop
  | .name span => IsName (source.extract span)
  | .integer span => IsNumeral (source.extract span)
  | .null _ => True
  | .call callee arguments => callee.Worded source ∧ ArgumentsWorded source arguments
  | .unary _ operand _ => operand.Worded source
  | .binary _ left right _ => left.Worded source ∧ right.Worded source
  | .function parameters body _ => (∀ name ∈ parameters, IsName name) ∧ BodyWorded source body

/-- Whether the names in some arguments are names and their integers are digits. -/
def ArgumentsWorded (source : Source) : List Expression → Prop
  | [] => True
  | argument :: arguments => argument.Worded source ∧ ArgumentsWorded source arguments

/-- Whether the names in a statement are names and its integers are digits. -/
def Statement.Worded (source : Source) : Statement → Prop
  | .declare name initializer => IsName name ∧ initializer.Worded source
  | .return value => value.Worded source
  | .assign target value => target.Worded source ∧ value.Worded source
  | .evaluate value => value.Worded source

/-- Whether the names in a body are names and its integers are digits. -/
def BodyWorded (source : Source) : List Statement → Prop
  | [] => True
  | statement :: body => statement.Worded source ∧ BodyWorded source body

end

/-- Whether the names in a source are names and its integers are digits. -/
def FunctionSource.Worded (source : Source) (function : FunctionSource) : Prop :=
  (∀ name ∈ function.parameters, IsName name) ∧ BodyWorded source function.body

namespace Words

variable {words : List String}

theorem isToken_parenthesize {condition : Bool} (tokens : ∀ word ∈ words, IsToken word) :
    ∀ word ∈ parenthesize condition words, IsToken word := by
  unfold parenthesize
  split
  · rw [List.forall_mem_cons, List.forall_mem_append, List.forall_mem_singleton]
    exact ⟨isToken_symbol _, tokens, isToken_symbol _⟩
  · exact tokens

theorem isToken_separate {items : List (List String)}
    (tokens : ∀ item ∈ items, ∀ word ∈ item, IsToken word) :
    ∀ word ∈ separate items, IsToken word := by
  cases items with
  | nil => exact List.forall_mem_nil _
  | cons item items =>
      rw [List.forall_mem_cons] at tokens
      rw [separate, List.forall_mem_append]
      refine ⟨tokens.1, fun word member => ?_⟩
      obtain ⟨other, among, inside⟩ := List.mem_flatMap.mp member
      rcases List.mem_cons.mp inside with rfl | inside
      · exact isToken_symbol _
      · exact tokens.2 other among word inside

end Words

mutual

/-- The words of an expression are tokens. -/
theorem Expression.isToken_words {source : Source} :
    ∀ {expression : Expression}, expression.Worded source →
      ∀ word ∈ expression.words source, IsToken word
  | .name span, worded => by
      rw [Expression.words, List.forall_mem_singleton]
      exact IsName.isToken worded
  | .integer span, worded => by
      rw [Expression.words, List.forall_mem_singleton]
      exact IsNumeral.isToken worded
  | .null span, _ => by
      rw [Expression.words, List.forall_mem_singleton]
      exact isToken_keyword _
  | .call callee arguments, worded => by
      rw [Expression.words, List.forall_mem_cons, List.forall_mem_append, List.forall_mem_cons,
        List.forall_mem_append, List.forall_mem_singleton]
      refine ⟨isToken_keyword _, Expression.isToken_words worded.1, isToken_symbol _, ?_,
        isToken_symbol _⟩
      exact isToken_separate (isToken_argumentWords worded.2)
  | .unary operator operand mark, worded => by
      rw [Expression.words, List.forall_mem_cons]
      exact ⟨isToken_symbol _, isToken_parenthesize (Expression.isToken_words worded)⟩
  | .binary operator left right mark, worded => by
      rw [Expression.words, List.forall_mem_append, List.forall_mem_cons]
      exact ⟨isToken_parenthesize (Expression.isToken_words worded.1), isToken_symbol _,
        isToken_parenthesize (Expression.isToken_words worded.2)⟩
  | .function parameters body mark, worded => by
      rw [Expression.words, List.forall_mem_cons, List.forall_mem_cons, List.forall_mem_append,
        List.forall_mem_cons, List.forall_mem_cons, List.forall_mem_append,
        List.forall_mem_singleton]
      refine ⟨isToken_keyword _, isToken_symbol _, ?_, isToken_symbol _, isToken_symbol _, ?_,
        isToken_symbol _⟩
      · refine isToken_separate fun item member => ?_
        obtain ⟨name, among, rfl⟩ := List.mem_map.mp member
        rw [List.forall_mem_singleton]
        exact (worded.1 name among).isToken
      · intro word member
        obtain ⟨item, among, inside⟩ := List.mem_flatten.mp member
        exact isToken_bodyWords worded.2 item among word inside

theorem isToken_argumentWords {source : Source} :
    ∀ {arguments : List Expression}, ArgumentsWorded source arguments →
      ∀ item ∈ argumentWords source arguments, ∀ word ∈ item, IsToken word
  | [], _ => List.forall_mem_nil _
  | argument :: arguments, worded => by
      rw [argumentWords, List.forall_mem_cons]
      exact ⟨Expression.isToken_words worded.1, isToken_argumentWords worded.2⟩

/-- The words of a statement are tokens. -/
theorem Statement.isToken_words {source : Source} :
    ∀ {statement : Statement}, statement.Worded source →
      ∀ word ∈ statement.words source, IsToken word
  | .declare name initializer, worded => by
      rw [Statement.words, List.forall_mem_cons, List.forall_mem_cons, List.forall_mem_cons]
      exact ⟨isToken_keyword _, worded.1.isToken, isToken_symbol _,
        Expression.isToken_words worded.2⟩
  | .return value, worded => by
      rw [Statement.words, List.forall_mem_cons]
      exact ⟨isToken_keyword _, Expression.isToken_words worded⟩
  | .assign target value, worded => by
      rw [Statement.words, List.forall_mem_append, List.forall_mem_cons]
      exact ⟨isToken_parenthesize (Expression.isToken_words worded.1), isToken_symbol _,
        Expression.isToken_words worded.2⟩
  | .evaluate value, worded => isToken_parenthesize (Expression.isToken_words worded)

theorem isToken_bodyWords {source : Source} :
    ∀ {body : List Statement}, BodyWorded source body →
      ∀ item ∈ bodyWords source body, ∀ word ∈ item, IsToken word
  | [], _ => List.forall_mem_nil _
  | statement :: body, worded => by
      rw [bodyWords, List.forall_mem_cons]
      exact ⟨Statement.isToken_words worded.1, isToken_bodyWords worded.2⟩

end

/-- The words of a whole source are tokens. -/
theorem FunctionSource.isToken_words {source : Source} {function : FunctionSource}
    (worded : function.Worded source) : ∀ word ∈ function.words source, IsToken word := by
  intro word member
  obtain ⟨item, among, inside⟩ := List.mem_flatten.mp member
  exact isToken_bodyWords worded.2 item among word inside

/-! ## Trees that differ in their ranges -/

mutual

/-- An expression over one source that is like an expression over another source. -/
inductive Expression.Alike (origin source : Source) : Expression → Expression → Prop where
  | name {span other : Span} (same : source.extract other = origin.extract span) :
      Expression.Alike origin source (.name span) (.name other)
  | integer {span other : Span} (same : source.extract other = origin.extract span) :
      Expression.Alike origin source (.integer span) (.integer other)
  | null {span other : Span} (selects : source.extract other = Keyword.null.text) :
      Expression.Alike origin source (.null span) (.null other)
  | call {callee callee' : Expression} {arguments arguments' : List Expression}
      (called : Expression.Alike origin source callee callee')
      (passed : List.Forall₂ (Expression.Alike origin source) arguments arguments') :
      Expression.Alike origin source (.call callee arguments) (.call callee' arguments')
  | unary {operator : UnaryOperator} {operand operand' : Expression} {mark other : Span}
      (inner : Expression.Alike origin source operand operand')
      (selects : source.extract other = operator.symbol.text) :
      Expression.Alike origin source (.unary operator operand mark) (.unary operator operand' other)
  | binary {operator : BinaryOperator} {left left' right right' : Expression} {mark other : Span}
      (first : Expression.Alike origin source left left')
      (second : Expression.Alike origin source right right')
      (selects : source.extract other = operator.symbol.text) :
      Expression.Alike origin source (.binary operator left right mark)
        (.binary operator left' right' other)
  | function {parameters : List String} {body body' : List Statement} {mark other : Span}
      (inner : List.Forall₂ (Statement.Alike origin source) body body')
      (selects : source.extract other = Keyword.function.text) :
      Expression.Alike origin source (.function parameters body mark)
        (.function parameters body' other)

/-- A statement over one source that is like a statement over another source. -/
inductive Statement.Alike (origin source : Source) : Statement → Statement → Prop where
  | declare {name : String} {initializer initializer' : Expression}
      (value : Expression.Alike origin source initializer initializer') :
      Statement.Alike origin source (.declare name initializer) (.declare name initializer')
  | return {value value' : Expression} (result : Expression.Alike origin source value value') :
      Statement.Alike origin source (.return value) (.return value')
  | assign {target target' value value' : Expression}
      (assigned : Expression.Alike origin source target target')
      (result : Expression.Alike origin source value value') :
      Statement.Alike origin source (.assign target value) (.assign target' value')
  | evaluate {value value' : Expression} (only : Expression.Alike origin source value value') :
      Statement.Alike origin source (.evaluate value) (.evaluate value')

end

/-- A whole source that is like another one. -/
structure FunctionSource.Alike (origin source : Source) (function other : FunctionSource) :
    Prop where
  parameters : function.parameters = other.parameters
  body : List.Forall₂ (Statement.Alike origin source) function.body other.body

end SlotCompiler
