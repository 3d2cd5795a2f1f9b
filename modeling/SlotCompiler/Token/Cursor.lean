import SlotCompiler.Source
import SlotCompiler.Token.Basic

/-!
# Scanning

A cursor stands at a place in a text: it holds what is left of the text, the offset of that
place and the index of its line.  `next` passes over blanks and takes the longest token that
follows, so scanning never fails; at the end it gives the end-of-file token again and again.
`dropLine` passes over the rest of a line.

`Source.tokens` are all tokens of a text before the end, and `Source.endToken` is the token
behind them.
-/

set_option autoImplicit false

namespace SlotCompiler

/-- Whether a character only separates tokens. -/
def isBlank (character : Char) : Bool :=
  character = ' ' || character = '\t' || character = '\n' || character = '\x0c' ||
    character = '\r'

/-- Whether a word may begin with a character. -/
def isWordStart (character : Char) : Bool := character.isAlpha || character = '_'

/-- Whether a word may go on with a character. -/
def isWordPart (character : Char) : Bool := character.isAlphanum || character = '_'

/-- A token cut off the front of a text: its kind, its characters and what follows it. -/
structure Lexeme where
  kind : Token.Kind
  text : List Char
  rest : List Char
  deriving DecidableEq, Repr

namespace Lexeme

/-- The longest token that begins with a character and goes on into the text behind it. -/
def read (character : Char) (text : List Char) : Lexeme :=
  if isWordStart character then
    let word := character :: text.takeWhile isWordPart
    ⟨.ofWord (String.ofList word), word, text.dropWhile isWordPart⟩
  else if character.isDigit then
    ⟨.integer, character :: text.takeWhile Char.isDigit, text.dropWhile Char.isDigit⟩
  else
    match Symbol.ofCharacter? character with
    | some symbol => ⟨.symbol symbol, [character], text⟩
    | none => ⟨.invalid, [character], text⟩

/-- A lexeme leaves no more than the text behind its first character. -/
theorem length_rest_read_le (character : Char) (text : List Char) :
    (read character text).rest.length ≤ text.length := by
  unfold read
  split
  · exact (List.dropWhile_suffix isWordPart).length_le
  · split
    · exact (List.dropWhile_suffix Char.isDigit).length_le
    · split <;> exact Nat.le_refl _

end Lexeme

/-- A place in a text. -/
structure Cursor where
  /-- The text from this place on. -/
  rest : List Char
  /-- The offset of this place. -/
  offset : Nat
  /-- The index of the line of this place. -/
  line : Nat
  deriving DecidableEq, Repr

namespace Cursor

/-- The beginning of a text. -/
def start (text : List Char) : Cursor := ⟨text, 0, 0⟩

/-- The place behind one character. -/
def advance (offset line : Nat) (character : Char) : Nat × Nat :=
  (offset + character.utf8Size, if character = '\n' then line + 1 else line)

/-- The first place at or behind a given one where no blank follows. -/
def skipBlanks (offset line : Nat) : List Char → Cursor
  | [] => ⟨[], offset, line⟩
  | character :: text =>
    if isBlank character then
      let (offset, line) := advance offset line character
      skipBlanks offset line text
    else ⟨character :: text, offset, line⟩

/-- The next token and the place behind it. -/
def next (cursor : Cursor) : Token × Cursor :=
  let place := skipBlanks cursor.offset cursor.line cursor.rest
  match place.rest with
  | [] => (⟨.endOfFile, "", .point place.offset, place.line⟩, place)
  | character :: text =>
    let lexeme := Lexeme.read character text
    let stop := place.offset + Utf8.size lexeme.text
    (⟨lexeme.kind, String.ofList lexeme.text, ⟨place.offset, stop⟩, place.line⟩,
      ⟨lexeme.rest, stop, place.line⟩)

/-- The place behind the next newline, or the end when there is none. -/
def dropLineFrom (offset line : Nat) : List Char → Cursor
  | [] => ⟨[], offset, line⟩
  | character :: text =>
    let (offset, line) := advance offset line character
    if character = '\n' then ⟨text, offset, line⟩ else dropLineFrom offset line text

/-- Passes over the rest of the line, its newline included. -/
def dropLine (cursor : Cursor) : Cursor :=
  dropLineFrom cursor.offset cursor.line cursor.rest

theorem length_rest_skipBlanks_le (offset line : Nat) (text : List Char) :
    (skipBlanks offset line text).rest.length ≤ text.length := by
  induction text generalizing offset line with
  | nil => exact Nat.le_refl _
  | cons character text ih =>
    unfold skipBlanks
    split
    · exact Nat.le_succ_of_le (ih _ _)
    · exact Nat.le_refl _

/-- Every token but the last one shortens the text. -/
theorem length_rest_next_lt {cursor : Cursor}
    (found : cursor.next.1.kind ≠ .endOfFile) :
    cursor.next.2.rest.length < cursor.rest.length := by
  have bound := length_rest_skipBlanks_le cursor.offset cursor.line cursor.rest
  unfold next at found ⊢
  dsimp only at found ⊢
  generalize skipBlanks cursor.offset cursor.line cursor.rest = place at bound found ⊢
  match h : place.rest with
  | [] => rw [h] at found; simp at found
  | character :: text =>
    rw [h] at bound
    exact Nat.lt_of_le_of_lt (Lexeme.length_rest_read_le character text) bound

/-- The tokens from a place on, up to and without the end-of-file token, and that token. -/
def scan (cursor : Cursor) : List Token × Token :=
  if cursor.next.1.kind = .endOfFile then ([], cursor.next.1)
  else
    let (tokens, final) := scan cursor.next.2
    (cursor.next.1 :: tokens, final)
termination_by cursor.rest.length
decreasing_by exact length_rest_next_lt ‹_›

/-- Scanning ends at an end-of-file token. -/
theorem kind_scan_final (cursor : Cursor) : cursor.scan.2.kind = .endOfFile := by
  fun_induction scan cursor with
  | case1 cursor found => exact found
  | case2 cursor _ tokens final same ih => rw [same] at ih; exact ih

end Cursor

namespace Source

/-- The tokens of a source before its end. -/
def tokens (source : Source) : List Token := (Cursor.start source.text).scan.1

/-- The token behind all others. -/
def endToken (source : Source) : Token := (Cursor.start source.text).scan.2

theorem kind_endToken (source : Source) : source.endToken.kind = .endOfFile :=
  Cursor.kind_scan_final _

end Source

end SlotCompiler
