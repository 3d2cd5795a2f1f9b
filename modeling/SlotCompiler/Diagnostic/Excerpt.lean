import SlotCompiler.Source

/-!
# Excerpts

The excerpt of a position is the part of its line that a diagnostic shows: 37 bytes to either
side of the position, but nothing beyond the line.  Bytes are shown as text; pieces of
characters at the ends appear as U+FFFD.  Tabs and carriage returns are shown as blanks, so
that the caret below the excerpt stands where it should.
-/

set_option autoImplicit false

namespace SlotCompiler

/-- What a diagnostic shows of a source. -/
structure Excerpt where
  /-- The number of the line, counted from 1. -/
  lineNumber : Nat
  /-- The part of the line. -/
  text : List Char
  /-- The number of blanks in front of the caret. -/
  indent : Nat
  deriving DecidableEq, Repr

namespace Excerpt

/-- How many bytes are shown to either side of a position. -/
def reach : Nat := 37

/-- A byte as it is shown. -/
def shown (byte : UInt8) : UInt8 :=
  if byte = '\r'.toUInt8 ∨ byte = '\t'.toUInt8 then ' '.toUInt8 else byte

/-- The excerpt of an offset, which beyond the end is read as the end. -/
def ofOffset (source : Source) (offset : Nat) : Excerpt :=
  let position := min offset source.size
  let line := source.lineSpan position
  let start := max (position - reach) line.start
  let stop := min (position + reach) line.stop
  { lineNumber := source.lineAt position + 1
    text := Utf8.decode (((source.bytes.drop start).take (stop - start)).map shown)
    indent := position - start }

/-- A message about an excerpt: the line number and the message, the excerpt, the caret. -/
def render (excerpt : Excerpt) (message : String) : String :=
  toString excerpt.lineNumber ++ ": " ++ message ++ "\n" ++ String.ofList excerpt.text ++ "\n" ++
    String.ofList (List.replicate excerpt.indent ' ') ++ "^\n"

end Excerpt

end SlotCompiler
