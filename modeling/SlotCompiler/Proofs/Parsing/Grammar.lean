import SlotCompiler.Token.Basic
import SlotCompiler.Tree.Basic

/-!
# The grammar as derivations

Each rule of the grammar is a way to derive a piece of a tree from a list of tokens; nothing is
said here about how the tokens are read.

    statement := "var" name "=" sum | "return" sum | sum "=" sum | sum
    sum       := product (("+" | "-") product)*
    product   := unary (("*" | "/") unary)*
    unary     := ("-" | "!" | "~") unary | primary
    primary   := name | integer | "null" | "(" sum ")"
               | "call" sum "(" [sum ("," sum)*] ")"
               | "function" "(" [name ("," name)*] ")" "{" statement* "}"

A repetition is written with the last item apart, so that operators of one level associate to the
left.  A name, an integer and null are marked by the span of their token, an operator and a
function literal by the span of the operator or keyword; parentheses leave nothing behind.
-/

set_option autoImplicit false

namespace SlotCompiler

namespace Token.Kind

/-- The operator that a token stands for between two products. -/
def sumOperator? : Token.Kind → Option BinaryOperator
  | .symbol .plus => some .add
  | .symbol .minus => some .subtract
  | _ => none

/-- The operator that a token stands for between two factors. -/
def productOperator? : Token.Kind → Option BinaryOperator
  | .symbol .star => some .multiply
  | .symbol .slash => some .divide
  | _ => none

/-- The operator that a token stands for in front of an operand. -/
def sign? : Token.Kind → Option UnaryOperator
  | .symbol .minus => some .negate
  | .symbol .exclamation => some .not
  | .symbol .tilde => some .invert
  | _ => none

end Token.Kind

namespace Grammar

/-- Names with commas between them, at least one. -/
inductive ParameterList : List Token → List String → Prop where
  | first {name : Token} (identifier : name.kind = .identifier) : ParameterList [name] [name.text]
  | next {tokens : List Token} {names : List String} {comma name : Token}
      (earlier : ParameterList tokens names) (separator : comma.kind = .symbol .comma)
      (identifier : name.kind = .identifier) :
      ParameterList (tokens ++ [comma, name]) (names ++ [name.text])

/-- The names between the parentheses of a function literal. -/
inductive Parameters : List Token → List String → Prop where
  | none : Parameters [] []
  | some {tokens : List Token} {names : List String} (list : ParameterList tokens names) :
      Parameters tokens names

mutual

/-- Products with `+` or `-` between them. -/
inductive Sum : List Token → Expression → Prop where
  | product {tokens : List Token} {value : Expression} (only : Product tokens value) :
      Sum tokens value
  | join {left right : List Token} {token : Token} {first second : Expression}
      {operator : BinaryOperator} (earlier : Sum left first)
      (mark : token.kind.sumOperator? = some operator) (last : Product right second) :
      Sum (left ++ token :: right) (.binary operator first second token.span)

/-- Operands with `*` or `/` between them. -/
inductive Product : List Token → Expression → Prop where
  | unary {tokens : List Token} {value : Expression} (only : Unary tokens value) :
      Product tokens value
  | join {left right : List Token} {token : Token} {first second : Expression}
      {operator : BinaryOperator} (earlier : Product left first)
      (mark : token.kind.productOperator? = some operator) (last : Unary right second) :
      Product (left ++ token :: right) (.binary operator first second token.span)

/-- An operand with operators in front of it. -/
inductive Unary : List Token → Expression → Prop where
  | primary {tokens : List Token} {value : Expression} (bare : Primary tokens value) :
      Unary tokens value
  | sign {tokens : List Token} {token : Token} {value : Expression} {operator : UnaryOperator}
      (mark : token.kind.sign? = some operator) (operand : Unary tokens value) :
      Unary (token :: tokens) (.unary operator value token.span)

/-- An operand. -/
inductive Primary : List Token → Expression → Prop where
  | name {token : Token} (identifier : token.kind = .identifier) :
      Primary [token] (.name token.span)
  | integer {token : Token} (digits : token.kind = .integer) :
      Primary [token] (.integer token.span)
  | null {token : Token} (word : token.kind = .keyword .null) : Primary [token] (.null token.span)
  | parentheses {opening closing : Token} {tokens : List Token} {value : Expression}
      (opens : opening.kind = .symbol .leftParenthesis) (inner : Sum tokens value)
      (closes : closing.kind = .symbol .rightParenthesis) :
      Primary (opening :: (tokens ++ [closing])) value
  | call {word opening closing : Token} {tokens passed : List Token} {callee : Expression}
      {arguments : List Expression} (begins : word.kind = .keyword .call)
      (called : Sum tokens callee) (opens : opening.kind = .symbol .leftParenthesis)
      (list : Arguments passed arguments) (closes : closing.kind = .symbol .rightParenthesis) :
      Primary (word :: (tokens ++ opening :: (passed ++ [closing]))) (.call callee arguments)
  | function {word opening closing leftBrace rightBrace : Token} {names tokens : List Token}
      {parameters : List String} {body : List Statement}
      (begins : word.kind = .keyword .function)
      (opens : opening.kind = .symbol .leftParenthesis) (list : Parameters names parameters)
      (closes : closing.kind = .symbol .rightParenthesis)
      (bodyOpens : leftBrace.kind = .symbol .leftBrace) (inner : Body tokens body)
      (bodyCloses : rightBrace.kind = .symbol .rightBrace) :
      Primary (word :: opening :: (names ++ closing :: leftBrace :: (tokens ++ [rightBrace])))
        (.function parameters body word.span)

/-- What stands between the parentheses of a call. -/
inductive Arguments : List Token → List Expression → Prop where
  | none : Arguments [] []
  | some {tokens : List Token} {values : List Expression} (list : ArgumentList tokens values) :
      Arguments tokens values

/-- Sums with commas between them, at least one. -/
inductive ArgumentList : List Token → List Expression → Prop where
  | first {tokens : List Token} {value : Expression} (only : Sum tokens value) :
      ArgumentList tokens [value]
  | next {tokens last : List Token} {values : List Expression} {comma : Token}
      {value : Expression} (earlier : ArgumentList tokens values)
      (separator : comma.kind = .symbol .comma) (argument : Sum last value) :
      ArgumentList (tokens ++ comma :: last) (values ++ [value])

/-- A statement. -/
inductive Sentence : List Token → Statement → Prop where
  | declare {word name equals : Token} {tokens : List Token} {value : Expression}
      (begins : word.kind = .keyword .var) (identifier : name.kind = .identifier)
      (assigns : equals.kind = .symbol .equals) (initializer : Sum tokens value) :
      Sentence (word :: name :: equals :: tokens) (.declare name.text value)
  | return {word : Token} {tokens : List Token} {value : Expression}
      (begins : word.kind = .keyword .return) (result : Sum tokens value) :
      Sentence (word :: tokens) (.return value)
  | assign {left right : List Token} {equals : Token} {target value : Expression}
      (assigned : Sum left target) (assigns : equals.kind = .symbol .equals)
      (result : Sum right value) : Sentence (left ++ equals :: right) (.assign target value)
  | evaluate {tokens : List Token} {value : Expression} (only : Sum tokens value) :
      Sentence tokens (.evaluate value)

/-- Statements, one behind the other. -/
inductive Body : List Token → List Statement → Prop where
  | none : Body [] []
  | next {tokens last : List Token} {body : List Statement} {statement : Statement}
      (earlier : Body tokens body)
      (final : Sentence last statement) : Body (tokens ++ last) (body ++ [statement])

end

/-- A whole source: a function without parameters. -/
inductive Unit : List Token → FunctionSource → Prop where
  | body {tokens : List Token} {statements : List Statement}
      (derived : Body tokens statements) : Unit tokens ⟨[], statements⟩

end Grammar

end SlotCompiler
