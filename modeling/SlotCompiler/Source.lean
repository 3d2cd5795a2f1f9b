import SlotCompiler.Text.Span
import SlotCompiler.Text.Utf8

/-!
# Source texts and their lines

A source is a text together with a table of the offsets at which its physical lines start.
Offsets count bytes; an offset beyond the end is read as the end.  A newline belongs to the
line that it ends.

The table is built once (`lineStartsFrom`) and every question about lines is answered from it:
the line of an offset is the last one that starts at or before it.
-/

set_option autoImplicit false

namespace SlotCompiler

/-- The offsets just behind the newlines of a text that stands at an offset. -/
def lineStartsFrom (offset : Nat) : List Char → List Nat
  | [] => []
  | character :: text =>
    let next := offset + character.utf8Size
    if character = '\n' then next :: lineStartsFrom next text else lineStartsFrom next text

/-- A text with its length and the starts of its lines. -/
structure Source where
  text : List Char
  /-- The length in bytes. -/
  size : Nat
  /-- The offset of every line's first byte, in order. -/
  lineStarts : List Nat
  size_eq : size = Utf8.size text := by rfl
  lineStarts_eq : lineStarts = 0 :: lineStartsFrom 0 text := by rfl

namespace Source

/-- The source of a text. -/
def ofText (text : List Char) : Source where
  text := text
  size := Utf8.size text
  lineStarts := 0 :: lineStartsFrom 0 text

/-- The source of a string. -/
def ofString (text : String) : Source := ofText text.toList

/-- The source that file contents spell. -/
def ofBytes (bytes : List UInt8) : Source := ofText (Utf8.decode bytes)

/-- The bytes of a source. -/
def bytes (source : Source) : List UInt8 := Utf8.encode source.text

/-- The text behind a number of bytes; none when that is inside a character or beyond the
end. -/
def dropBytes? : Nat → List Char → Option (List Char)
  | 0, text => some text
  | _ + 1, [] => none
  | count + 1, character :: text =>
    if character.utf8Size ≤ count + 1 then dropBytes? (count + 1 - character.utf8Size) text
    else none

/-- The text in a number of bytes at the front; none when they end inside a character or beyond
the end. -/
def takeBytes? : Nat → List Char → Option (List Char)
  | 0, _ => some []
  | _ + 1, [] => none
  | count + 1, character :: text =>
    if character.utf8Size ≤ count + 1 then
      (takeBytes? (count + 1 - character.utf8Size) text).map (character :: ·)
    else none

/-- The characters of a span, if it selects whole characters of the source. -/
def select? (source : Source) (span : Span) : Option (List Char) :=
  if span.start ≤ span.stop then
    (dropBytes? span.start source.text).bind (takeBytes? (span.stop - span.start))
  else none

/-- The text of a span, or the empty text when the span does not select whole characters. -/
def extract (source : Source) (span : Span) : String :=
  String.ofList ((source.select? span).getD [])

/-- The index of the line that holds an offset, counted from 0. -/
def lineAt (source : Source) (offset : Nat) : Nat :=
  (source.lineStarts.takeWhile (· ≤ offset)).length - 1

/-- The bytes of the line that holds an offset, without its newline. -/
def lineSpan (source : Source) (offset : Nat) : Span :=
  let index := source.lineAt offset
  ⟨source.lineStarts.getD index 0,
    match source.lineStarts[index + 1]? with
    | some next => next - 1
    | none => source.size⟩

/-- The line and the column of an offset, both counted from 1; columns count bytes. -/
def coordinates (source : Source) (offset : Nat) : Nat × Nat :=
  let offset := min offset source.size
  (source.lineAt offset + 1, offset - (source.lineSpan offset).start + 1)

/-- Whether a newline stands at or behind one offset and in front of another. -/
def newlineWithin (source : Source) (start stop : Nat) : Bool :=
  ((source.bytes.drop start).take (stop - start)).contains '\n'.toUInt8

end Source

end SlotCompiler
