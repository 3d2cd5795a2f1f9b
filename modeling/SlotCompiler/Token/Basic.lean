import SlotCompiler.Text.Span

/-!
# Tokens

The vocabulary of the language: words that are names or keywords, integers, and symbols of one
character.  A character outside the vocabulary is a token of its own, of kind `invalid`, and
the end of the text is a token without characters.

A token carries its text, the span of its bytes, and the index of the line it stands on.  No
token contains a newline, so a newline separates two tokens exactly when their lines differ.
-/

set_option autoImplicit false

namespace SlotCompiler

/-- The words that are not names. -/
inductive Keyword where
  | var | function | return | null | if | else | while | break | continue | call
  deriving DecidableEq, Repr

namespace Keyword

/-- Every keyword. -/
def all : List Keyword :=
  [.var, .function, .return, .null, .if, .else, .while, .break, .continue, .call]

/-- How a keyword is written. -/
def text : Keyword → String
  | .var => "var"
  | .function => "function"
  | .return => "return"
  | .null => "null"
  | .if => "if"
  | .else => "else"
  | .while => "while"
  | .break => "break"
  | .continue => "continue"
  | .call => "call"

/-- The keyword that a word is, if it is one. -/
def ofText? (word : String) : Option Keyword := all.find? fun keyword => keyword.text == word

/-- Whether a keyword is reserved for control flow, which no statement uses yet. -/
def isReserved : Keyword → Bool
  | .if | .else | .while | .break | .continue => true
  | .var | .function | .return | .null | .call => false

end Keyword

/-- The tokens of one fixed character. -/
inductive Symbol where
  | leftParenthesis | rightParenthesis
  | leftBrace | rightBrace
  | leftBracket | rightBracket
  | equals | comma | plus | minus | star | slash | dot | exclamation | tilde
  deriving DecidableEq, Repr

namespace Symbol

/-- Every symbol. -/
def all : List Symbol :=
  [.leftParenthesis, .rightParenthesis, .leftBrace, .rightBrace, .leftBracket, .rightBracket,
    .equals, .comma, .plus, .minus, .star, .slash, .dot, .exclamation, .tilde]

/-- How a symbol is written. -/
def character : Symbol → Char
  | .leftParenthesis => '('
  | .rightParenthesis => ')'
  | .leftBrace => '\x7b'
  | .rightBrace => '\x7d'
  | .leftBracket => '['
  | .rightBracket => ']'
  | .equals => '='
  | .comma => ','
  | .plus => '+'
  | .minus => '-'
  | .star => '*'
  | .slash => '/'
  | .dot => '.'
  | .exclamation => '!'
  | .tilde => '~'

/-- The symbol that a character is, if it is one. -/
def ofCharacter? (character : Char) : Option Symbol :=
  all.find? fun symbol => symbol.character == character

end Symbol

/-- The classes of tokens that the grammar tells apart. -/
inductive Token.Kind where
  | identifier
  | keyword (word : Keyword)
  | integer
  | symbol (mark : Symbol)
  /-- A character outside the vocabulary. -/
  | invalid
  | endOfFile
  deriving DecidableEq, Repr

namespace Token.Kind

/-- The kind of a word: a keyword, or else a name. -/
def ofWord (word : String) : Token.Kind :=
  match Keyword.ofText? word with
  | some word => .keyword word
  | none => .identifier

/-- The name of a kind in messages. -/
def description : Token.Kind → String
  | .identifier => "identifier"
  | .keyword word => word.text
  | .integer => "integer"
  | .symbol mark => String.singleton mark.character
  | .invalid => "invalid character"
  | .endOfFile => "EOF"

/-- Whether the kind is a keyword reserved for control flow. -/
def isReserved : Token.Kind → Bool
  | .keyword word => word.isReserved
  | _ => false

/-- Whether a statement may begin with the kind.  Control flow counts: such a statement is
recognised and then refused. -/
def opensStatement : Token.Kind → Bool
  | .identifier | .integer | .keyword _ => true
  | .symbol mark =>
    match mark with
    | .leftParenthesis | .minus | .exclamation | .tilde => true
    | _ => false
  | .invalid | .endOfFile => false

end Token.Kind

/-- A token of a text. -/
structure Token where
  kind : Token.Kind
  /-- The characters of the token. -/
  text : String
  /-- The bytes of the token. -/
  span : Span
  /-- The index of the line the token stands on. -/
  line : Nat
  deriving DecidableEq, Repr

end SlotCompiler
