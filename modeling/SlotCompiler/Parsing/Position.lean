import SlotCompiler.Diagnostic.Basic
import SlotCompiler.Token.Basic
import SlotCompiler.Tree.Basic

/-!
# Positions in a source

The grammar of the language:

    statement := "var" name "=" sum | "return" sum | sum "=" sum | sum
    sum       := product (("+" | "-") product)*
    product   := unary (("*" | "/") unary)*
    unary     := ("-" | "!" | "~") unary | primary
    primary   := name | integer | "null" | "(" sum ")"
               | "call" sum "(" [sum ("," sum)*] ")"
               | "function" "(" [name ("," name)*] ")" "{" statement* "}"

One token decides every choice, so a source is read token by token.  A `Position` is all that
has been read of a statement so far: every construct that is still open, with its finished
parts.  The open constructs form a path outwards, through sites where an expression is wanted
(`ExpressionSite`) and sites where a statement is wanted (`StatementSite`), up to the goal:
an expression on its own or a statement on its own.

Three functions describe a position.  `accept?` is the position behind a token, if the token
fits.  `halt` is what the position amounts to at a token that does not fit: the goal, when
what was read is complete, or else a refusal.  `openBodies` counts the function bodies that
the position lies in.
-/

set_option autoImplicit false

namespace SlotCompiler

/-- What is to be read. -/
inductive Goal where
  | expression
  | statement
  deriving DecidableEq, Repr

/-- What reading towards a goal yields. -/
@[reducible] def Goal.Result : Goal → Type
  | .expression => Expression
  | .statement => Statement

/-! ## Operators that wait for an operand -/

/-- A left operand and the operator behind it, with the operator's span. -/
structure LeftOperand where
  value : Expression
  operator : BinaryOperator
  mark : Span
  deriving Repr

/-- The operators in front of an operand, in the order in which the grammar nests them: at
most one sum, in it at most one product, and in that any number of signs. -/
structure Pending where
  sum : Option LeftOperand := none
  product : Option LeftOperand := none
  /-- The operators directly in front of the operand, the nearest first. -/
  signs : List (UnaryOperator × Span) := []
  deriving Repr

/-- A left operand, if there is one, joined with its right operand. -/
def LeftOperand.join (left : Option LeftOperand) (right : Expression) : Expression :=
  match left with
  | none => right
  | some left => .binary left.operator left.value right left.mark

namespace Pending

/-- An operand under the signs in front of it. -/
def signed (pending : Pending) (operand : Expression) : Expression :=
  pending.signs.foldl (fun value (operator, mark) => .unary operator value mark) operand

/-- The product that an operand ends. -/
def productWith (pending : Pending) (operand : Expression) : Expression :=
  LeftOperand.join pending.product (pending.signed operand)

/-- The sum that an operand ends. -/
def sumWith (pending : Pending) (operand : Expression) : Expression :=
  LeftOperand.join pending.sum (pending.productWith operand)

/-- One more sign. -/
def sign (pending : Pending) (operator : UnaryOperator) (mark : Span) : Pending :=
  { pending with signs := (operator, mark) :: pending.signs }

/-- An operand and then a product operator. -/
def multiply (pending : Pending) (operand : Expression) (operator : BinaryOperator)
    (mark : Span) : Pending where
  sum := pending.sum
  product := some ⟨pending.productWith operand, operator, mark⟩

/-- An operand and then a sum operator. -/
def add (pending : Pending) (operand : Expression) (operator : BinaryOperator)
    (mark : Span) : Pending where
  sum := some ⟨pending.sumWith operand, operator, mark⟩

end Pending

/-! ## Open constructs -/

mutual

/-- Where a whole expression is wanted. -/
inductive ExpressionSite : Goal → Type where
  /-- The expression is the goal. -/
  | goal : ExpressionSite .expression
  /-- Between parentheses. -/
  | parenthesis {goal : Goal} (pending : Pending) (outer : ExpressionSite goal) :
      ExpressionSite goal
  /-- Between `call` and the arguments. -/
  | callee {goal : Goal} (pending : Pending) (outer : ExpressionSite goal) :
      ExpressionSite goal
  /-- Among the arguments of a call, behind some of them. -/
  | argument {goal : Goal} (called : Expression) (earlier : List Expression)
      (pending : Pending) (outer : ExpressionSite goal) : ExpressionSite goal
  /-- Behind `var`, a name and `=`. -/
  | initializer {goal : Goal} (name : String) (outer : StatementSite goal) :
      ExpressionSite goal
  /-- Behind `return`. -/
  | returned {goal : Goal} (outer : StatementSite goal) : ExpressionSite goal
  /-- At the beginning of a statement that has no keyword. -/
  | leading {goal : Goal} (outer : StatementSite goal) : ExpressionSite goal
  /-- Behind a target and `=`. -/
  | assigned {goal : Goal} (target : Expression) (outer : StatementSite goal) :
      ExpressionSite goal

/-- Where a whole statement is wanted. -/
inductive StatementSite : Goal → Type where
  /-- The statement is the goal. -/
  | goal : StatementSite .statement
  /-- In the body of a function literal, behind some of its statements. -/
  | body {goal : Goal} (parameters : List String) (earlier : List Statement) (mark : Span)
      (pending : Pending) (outer : ExpressionSite goal) : StatementSite goal

end

mutual

/-- The number of function bodies around an expression. -/
def ExpressionSite.openBodies {goal : Goal} : ExpressionSite goal → Nat
  | .goal => 0
  | .parenthesis _ outer => outer.openBodies
  | .callee _ outer => outer.openBodies
  | .argument _ _ _ outer => outer.openBodies
  | .initializer _ outer => outer.openBodies
  | .returned outer => outer.openBodies
  | .leading outer => outer.openBodies
  | .assigned _ outer => outer.openBodies

/-- The number of function bodies around a statement. -/
def StatementSite.openBodies {goal : Goal} : StatementSite goal → Nat
  | .goal => 0
  | .body _ _ _ _ outer => outer.openBodies + 1

end

/-- A place between two tokens, with everything that has been read and is not complete. -/
inductive Position (goal : Goal) where
  /-- In front of a statement, or of the end of the body that wants it. -/
  | statement (site : StatementSite goal)
  /-- In front of an operand. -/
  | operand (pending : Pending) (site : ExpressionSite goal)
  /-- Behind an operand. -/
  | operator (value : Expression) (pending : Pending) (site : ExpressionSite goal)
  /-- Behind `var`. -/
  | declaredName (site : StatementSite goal)
  /-- Behind `var` and a name. -/
  | declaredEquals (name : String) (site : StatementSite goal)
  /-- Behind a callee and `(`. -/
  | firstArgument (called : Expression) (pending : Pending) (site : ExpressionSite goal)
  /-- Behind `function`. -/
  | parameterList (mark : Span) (pending : Pending) (site : ExpressionSite goal)
  /-- Behind `function` and `(`. -/
  | firstParameter (mark : Span) (pending : Pending) (site : ExpressionSite goal)
  /-- Behind some parameters and a comma. -/
  | parameter (earlier : List String) (mark : Span) (pending : Pending)
      (site : ExpressionSite goal)
  /-- Behind a parameter. -/
  | parameterEnd (earlier : List String) (mark : Span) (pending : Pending)
      (site : ExpressionSite goal)
  /-- Behind the parameters and `)`. -/
  | bodyStart (parameters : List String) (mark : Span) (pending : Pending)
      (site : ExpressionSite goal)

/-! ## The position behind a token -/

namespace Position

variable {goal : Goal}

/-- Accepts the first token of an operand. -/
def acceptOperand? (pending : Pending) (site : ExpressionSite goal) (token : Token) :
    Option (Position goal) :=
  match token.kind with
  | .identifier => some (.operator (.name token.span) pending site)
  | .integer => some (.operator (.integer token.span) pending site)
  | .keyword .null => some (.operator (.null token.span) pending site)
  | .keyword .call => some (.operand {} (.callee pending site))
  | .keyword .function => some (.parameterList token.span pending site)
  | .symbol .leftParenthesis => some (.operand {} (.parenthesis pending site))
  | .symbol .minus => some (.operand (pending.sign .negate token.span) site)
  | .symbol .exclamation => some (.operand (pending.sign .not token.span) site)
  | .symbol .tilde => some (.operand (pending.sign .invert token.span) site)
  | _ => none

/-- Accepts the first token of a statement. -/
def acceptStatement? (site : StatementSite goal) (token : Token) : Option (Position goal) :=
  match token.kind with
  | .keyword .var => some (.declaredName site)
  | .keyword .return => some (.operand {} (.returned site))
  | _ => acceptOperand? {} (.leading site) token

end Position

namespace StatementSite

variable {goal : Goal}

/-- Accepts a token in front of a statement: its first token, or the end of the body. -/
def accept? (token : Token) : StatementSite goal → Option (Position goal)
  | .goal => Position.acceptStatement? .goal token
  | .body parameters earlier mark pending outer =>
    if token.kind = .symbol .rightBrace then
      some (.operator (.function parameters earlier mark) pending outer)
    else Position.acceptStatement? (.body parameters earlier mark pending outer) token

/-- Accepts a token behind a statement, which it must not belong to. -/
def acceptAfter? (statement : Statement) (token : Token) :
    StatementSite goal → Option (Position goal)
  | .goal => none
  | .body parameters earlier mark pending outer =>
    (body parameters (earlier ++ [statement]) mark pending outer).accept? token

end StatementSite

namespace ExpressionSite

variable {goal : Goal}

/-- Accepts a token behind a whole expression. -/
def acceptAfter? (value : Expression) (token : Token) :
    ExpressionSite goal → Option (Position goal)
  | .goal => none
  | .parenthesis pending outer =>
    if token.kind = .symbol .rightParenthesis then some (.operator value pending outer) else none
  | .callee pending outer =>
    if token.kind = .symbol .leftParenthesis then some (.firstArgument value pending outer)
    else none
  | .argument called earlier pending outer =>
    if token.kind = .symbol .comma then
      some (.operand {} (.argument called (earlier ++ [value]) pending outer))
    else if token.kind = .symbol .rightParenthesis then
      some (.operator (.call called (earlier ++ [value])) pending outer)
    else none
  | .initializer name outer => outer.acceptAfter? (.declare name value) token
  | .returned outer => outer.acceptAfter? (.return value) token
  | .leading outer =>
    if token.kind = .symbol .equals then some (.operand {} (.assigned value outer))
    else outer.acceptAfter? (.evaluate value) token
  | .assigned target outer => outer.acceptAfter? (.assign target value) token

end ExpressionSite

namespace Position

variable {goal : Goal}

/-- Accepts a token behind an operand: a further operator, or what follows the whole
expression. -/
def acceptOperator? (operand : Expression) (pending : Pending) (site : ExpressionSite goal)
    (token : Token) : Option (Position goal) :=
  match token.kind with
  | .symbol .star => some (.operand (pending.multiply operand .multiply token.span) site)
  | .symbol .slash => some (.operand (pending.multiply operand .divide token.span) site)
  | .symbol .plus => some (.operand (pending.add operand .add token.span) site)
  | .symbol .minus => some (.operand (pending.add operand .subtract token.span) site)
  | _ => site.acceptAfter? (pending.sumWith operand) token

/-- The position behind a token, if the token fits. -/
def accept? (token : Token) : Position goal → Option (Position goal)
  | .statement site => site.accept? token
  | .operand pending site => acceptOperand? pending site token
  | .operator value pending site => acceptOperator? value pending site token
  | .declaredName site =>
    if token.kind = .identifier then some (.declaredEquals token.text site) else none
  | .declaredEquals name site =>
    if token.kind = .symbol .equals then some (.operand {} (.initializer name site)) else none
  | .firstArgument called pending site =>
    if token.kind = .symbol .rightParenthesis then
      some (.operator (.call called []) pending site)
    else acceptOperand? {} (.argument called [] pending site) token
  | .parameterList mark pending site =>
    if token.kind = .symbol .leftParenthesis then some (.firstParameter mark pending site)
    else none
  | .firstParameter mark pending site =>
    if token.kind = .symbol .rightParenthesis then some (.bodyStart [] mark pending site)
    else if token.kind = .identifier then some (.parameterEnd [token.text] mark pending site)
    else none
  | .parameter earlier mark pending site =>
    if token.kind = .identifier then
      some (.parameterEnd (earlier ++ [token.text]) mark pending site)
    else none
  | .parameterEnd earlier mark pending site =>
    if token.kind = .symbol .comma then some (.parameter earlier mark pending site)
    else if token.kind = .symbol .rightParenthesis then
      some (.bodyStart earlier mark pending site)
    else none
  | .bodyStart parameters mark pending site =>
    if token.kind = .symbol .leftBrace then
      some (.statement (.body parameters [] mark pending site))
    else none

end Position

/-! ## What a position amounts to at a token that does not fit -/

/-- Why a token does not fit, and whether it is used up in finding out. -/
structure Refusal where
  problem : Problem
  consumed : Bool
  deriving DecidableEq, Repr

namespace Refusal

/-- Refuses a token that is used up.  A character outside the vocabulary is a problem of its
own. -/
def consume (problem : Problem) (token : Token) : Refusal :=
  ⟨if token.kind = .invalid then .invalidCharacter else problem, true⟩

/-- Refuses a token that stays. -/
def leave (problem : Problem) : Refusal := ⟨problem, false⟩

end Refusal

namespace StatementSite

variable {goal : Goal}

/-- Refuses a token that begins no statement. -/
def refuse (token : Token) : StatementSite goal → Refusal
  | .goal =>
    .consume (if token.kind.isReserved then .controlFlow else .expressionExpected) token
  | .body _ _ _ _ _ =>
    if token.kind = .endOfFile then .leave .rightBraceExpected
    else .consume (if token.kind.isReserved then .controlFlow else .expressionExpected) token

/-- Halts behind a statement. -/
def haltAfter (statement : Statement) (token : Token) :
    StatementSite goal → Except Refusal goal.Result
  | .goal => .ok statement
  | .body parameters earlier mark pending outer =>
    .error ((body parameters (earlier ++ [statement]) mark pending outer).refuse token)

end StatementSite

/-- Halts behind a whole expression. -/
def ExpressionSite.haltAfter {goal : Goal} (value : Expression) (token : Token) :
    ExpressionSite goal → Except Refusal goal.Result
  | .goal => .ok value
  | .parenthesis _ _ => .error (.consume .rightParenthesisExpected token)
  | .callee _ _ => .error (.consume .leftParenthesisExpected token)
  | .argument _ _ _ _ => .error (.leave .commaExpected)
  | .initializer name outer => outer.haltAfter (.declare name value) token
  | .returned outer => outer.haltAfter (.return value) token
  | .leading outer => outer.haltAfter (.evaluate value) token
  | .assigned target outer => outer.haltAfter (.assign target value) token

namespace Position

variable {goal : Goal}

/-- What a position amounts to at a token that does not fit: the goal, or a refusal. -/
def halt (token : Token) : Position goal → Except Refusal goal.Result
  | .statement site => .error (site.refuse token)
  | .operand _ _ => .error (.consume .expressionExpected token)
  | .operator value pending site => site.haltAfter (pending.sumWith value) token
  | .declaredName _ => .error (.consume .declaredNameExpected token)
  | .declaredEquals _ _ => .error (.consume .equalsExpected token)
  | .firstArgument _ _ _ => .error (.consume .expressionExpected token)
  | .parameterList _ _ _ => .error (.consume .leftParenthesisExpected token)
  | .firstParameter _ _ _ => .error (.consume .parameterExpected token)
  | .parameter _ _ _ _ => .error (.consume .parameterExpected token)
  | .parameterEnd _ _ _ _ => .error (.leave .commaExpected)
  | .bodyStart _ _ _ _ => .error (.consume .leftBraceExpected token)

/-- The number of function bodies around a position. -/
def openBodies : Position goal → Nat
  | .statement site => site.openBodies
  | .operand _ site => site.openBodies
  | .operator _ _ site => site.openBodies
  | .declaredName site => site.openBodies
  | .declaredEquals _ site => site.openBodies
  | .firstArgument _ _ site => site.openBodies
  | .parameterList _ _ site => site.openBodies
  | .firstParameter _ _ site => site.openBodies
  | .parameter _ _ _ site => site.openBodies
  | .parameterEnd _ _ _ site => site.openBodies
  | .bodyStart _ _ _ site => site.openBodies

end Position

end SlotCompiler
