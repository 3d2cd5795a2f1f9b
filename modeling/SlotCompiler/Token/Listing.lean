import SlotCompiler.Text.Padding
import SlotCompiler.Token.Cursor

/-!
# Token listings

One line for each token of a source, the end-of-file token included: where the token starts,
the column name of its kind, and its text in quotes.  In a coloured listing the name and the
text stand between two terminal colour codes.
-/

set_option autoImplicit false

namespace SlotCompiler.TokenListing

/-- The terminal colours of a listing. -/
inductive Colour where
  | plain | dim | red | yellow | magenta | cyan
  deriving DecidableEq, Repr

/-- The code that switches a terminal to a colour. -/
def Colour.code : Colour → String
  | .plain => "\x1b[0m"
  | .dim => "\x1b[2m"
  | .red => "\x1b[31m"
  | .yellow => "\x1b[33m"
  | .magenta => "\x1b[35m"
  | .cyan => "\x1b[36m"

/-- The column name of a kind of token. -/
def label : Token.Kind → String
  | .endOfFile => "EOF"
  | .invalid => "INVALID"
  | .integer => "INT"
  | .identifier => "IDENT"
  | .keyword _ => "KEYWORD"
  | .symbol symbol =>
    match symbol with
    | .leftParenthesis | .rightParenthesis => "PAREN"
    | .leftBracket | .rightBracket => "BRACKET"
    | .leftBrace | .rightBrace => "BRACE"
    | .equals | .comma | .plus | .minus | .star | .slash | .dot | .exclamation | .tilde => "OP"

/-- The colour of a kind of token. -/
def colour : Token.Kind → Colour
  | .endOfFile => .dim
  | .invalid => .red
  | .integer | .keyword .null => .cyan
  | .identifier => .yellow
  | .keyword _ => .plain
  | .symbol symbol =>
    match symbol with
    | .leftParenthesis | .rightParenthesis | .leftBracket | .rightBracket | .leftBrace
    | .rightBrace => .plain
    | .equals | .comma | .plus | .minus | .star | .slash | .dot | .exclamation | .tilde =>
      .magenta

/-- The line of one token. -/
def line (coloured : Bool) (source : Source) (token : Token) : String :=
  let (line, column) := source.coordinates token.span.start
  let before := if coloured then (colour token.kind).code else ""
  let after := if coloured then Colour.plain.code else ""
  "[" ++ Padding.zeros 2 line ++ ":" ++ Padding.zeros 2 column ++ "] " ++ before ++
    Padding.right 8 (label token.kind) ++ " '" ++ token.text ++ "'" ++ after ++ "\n"

/-- The listing of a source. -/
def render (coloured : Bool) (source : Source) : String :=
  String.join ((source.tokens ++ [source.endToken]).map (line coloured source))

end SlotCompiler.TokenListing
