import SlotCompiler.Proofs.Diagnostic.Log
import SlotCompiler.Proofs.Text.LineTable

/-!
# Windows on a line

The excerpt of an offset is a window on its line: 37 bytes to either side of the offset, without
what lies outside the line (`Excerpt.ofOffset_eq`).  The window has the offset in it and is part of
the source (`Source.window_bounds`), so a window that is cut never takes bytes that are not there.
Its bytes are no newlines, since it is part of a line, and none is shown as a tab or a carriage
return; no such character is read of other bytes (`Excerpt.not_mem_text`).  So what is written with
a message on one line are three lines (`Excerpt.splitOn_render`).  A diagnostic is written with the
excerpt of the offset where it is located (`Diagnostic.render_eq`).
-/

set_option autoImplicit false

namespace SlotCompiler

open Utf8 (newline)

/-- A part of a part of some elements. -/
theorem take_drop_subset {α : Type} {elements : List α} {start first last stop : Nat}
    (behind : start ≤ first) (inFront : last ≤ stop) :
    (elements.drop first).take (last - first) ⊆ (elements.drop start).take (stop - start) := by
  intro element member
  obtain ⟨index, there⟩ := List.mem_iff_getElem?.mp member
  rw [List.getElem?_take] at there
  split at there
  · rw [List.getElem?_drop] at there
    refine List.mem_iff_getElem?.mpr ⟨first - start + index, ?_⟩
    rw [List.getElem?_take_of_lt (by omega), List.getElem?_drop, ← there]
    congr 1
    omega
  · cases there

/-! ## Windows -/

namespace Source

/-- The bytes that are shown of a source around an offset. -/
def window (source : Source) (offset : Nat) : Span :=
  let position := min offset source.size
  let line := source.lineSpan offset
  ⟨max line.start (position - 37), min line.stop (position + 37)⟩

variable (source : Source) (offset : Nat)

/-- **A window has its offset in it**, and is a part of a line and of the source. -/
theorem window_bounds :
    let position := min offset source.size
    let line := source.lineSpan offset
    let window := source.window offset
    (line.start ≤ window.start ∧ window.start ≤ position) ∧
      (position ≤ window.stop ∧ window.stop ≤ line.stop) ∧ window.stop ≤ source.bytes.length ∧
      window.stop - window.start ≤ 74 := by
  intro position line window
  obtain ⟨start, stop, inside, -⟩ := source.isLine_lineSpan offset
  simp only [position, line, window, Source.window, length_bytes]
  omega

/-- A window shows one line. -/
theorem newline_not_mem_window : newline ∉ (source.bytes.drop (source.window offset).start).take
    ((source.window offset).stop - (source.window offset).start) := by
  obtain ⟨⟨start, -⟩, ⟨-, stop⟩, -⟩ := source.window_bounds offset
  intro member
  exact (source.isLine_lineSpan offset).single (take_drop_subset start stop member)

end Source

namespace Excerpt

variable (source : Source) (offset : Nat)

/-- **An excerpt is a window**, as it is shown. -/
theorem ofOffset_eq :
    let window := source.window offset
    ofOffset source offset =
      { lineNumber := source.lineAt offset + 1
        text := Utf8.decode
          (((source.bytes.drop window.start).take (window.stop - window.start)).map shown)
        indent := min offset source.size - window.start } := by
  intro window
  have line := Source.lineSpan_congr (source.lineAt_min offset)
  simp only [ofOffset, window, Source.window, source.lineAt_min, line, reach,
    Nat.max_comm, Nat.min_comm]

/-- No byte is shown as a tab or a carriage return. -/
theorem shown_ne (byte : UInt8) : shown byte ≠ '\r'.toUInt8 ∧ shown byte ≠ '\t'.toUInt8 := by
  rw [shown]
  split
  · decide
  · rename_i other
    exact not_or.mp other

/-- Nothing else is shown as a newline. -/
theorem shown_eq_newline {byte : UInt8} (same : shown byte = newline) : byte = newline := by
  rw [shown] at same
  split at same
  · cases same
  · exact same

/-- **An excerpt is on one line**, without tabs and carriage returns. -/
theorem not_mem_text :
    ∀ character ∈ ['\n', '\r', '\t'], character ∉ (ofOffset source offset).text := by
  have bytes : ∀ byte ∈ ['\n'.toUInt8, '\r'.toUInt8, '\t'.toUInt8], byte ∉
      ((source.bytes.drop (source.window offset).start).take
        ((source.window offset).stop - (source.window offset).start)).map shown := by
    intro byte which member
    obtain ⟨plain, inside, rfl⟩ := List.mem_map.mp member
    simp only [List.mem_cons, List.not_mem_nil, or_false] at which
    rcases which with ends | carriage | tab
    · exact source.newline_not_mem_window offset (shown_eq_newline ends ▸ inside)
    · exact (shown_ne plain).1 carriage
    · exact (shown_ne plain).2 tab
  rw [ofOffset_eq]
  intro character which member
  simp only [List.mem_cons, List.not_mem_nil, or_false] at which
  rcases which with rfl | rfl | rfl
  all_goals
    refine bytes _ ?_ (Utf8.mem_of_decode member (by decide) _ (List.mem_singleton_self _))
    decide

/-! ## What is written -/

/-- Numbers are written on one line. -/
theorem newline_not_mem_toString (number : Nat) : '\n' ∉ (toString number).toList := by
  rw [Nat.toString_eq_repr, Nat.toList_repr]
  intro member
  cases Nat.isDigit_of_mem_toDigits (by decide) (by decide) member

/-- **An excerpt and a message on one line are written as three lines.** -/
theorem splitOn_render {excerpt : Excerpt} {message : String} (single : '\n' ∉ message.toList)
    (line : '\n' ∉ excerpt.text) : (excerpt.render message).toList.splitOn '\n' =
      [(toString excerpt.lineNumber ++ ": " ++ message).toList, excerpt.text,
        List.replicate excerpt.indent ' ' ++ ['^'], []] := by
  have whole : (excerpt.render message).toList = ['\n'].intercalate
      [(toString excerpt.lineNumber ++ ": " ++ message).toList, excerpt.text,
        List.replicate excerpt.indent ' ' ++ ['^'], []] := by
    simp [render, List.intercalate, String.toList_append]
  rw [whole]
  refine List.splitOn_intercalate '\n' ?_ (List.cons_ne_nil _ _)
  simp only [List.forall_mem_cons, String.toList_append, List.mem_append, not_or]
  refine ⟨⟨⟨newline_not_mem_toString _, by decide⟩, single⟩, line, ⟨?_, by decide⟩,
    List.not_mem_nil, List.forall_mem_nil _⟩
  rw [List.mem_replicate]
  exact fun blank => absurd blank.2 (by decide)

/-- **The window of an excerpt is exact.**  For every offset, read as the end when it is beyond it,
what is written with a message is the number of its line and the message; then the bytes of the
line from 37 in front of the offset up to 37 behind it, tabs and carriage returns as blanks, read
as text without a newline; then a caret, behind as many blanks as bytes of these stand in front of
the offset.  All of the bytes are there, at most 74 of them, and they are read as no more
characters.  So with a message on one line three lines are written. -/
theorem window_is_exact (source : Source) (message : String) (offset : Nat) :
    let position := min offset source.size
    let line := source.lineSpan position
    let start := max line.start (position - 37)
    let stop := min line.stop (position + 37)
    let bytes := (source.bytes.drop start).take (stop - start)
    let excerpt := ofOffset source offset
    source.IsLine position line ∧
      (start ≤ position ∧ position ≤ stop ∧ stop ≤ source.bytes.length) ∧
      bytes.length = stop - start ∧ stop - start ≤ 74 ∧
      excerpt.lineNumber = 1 + (source.bytes.take position).count newline ∧
      excerpt.text = Utf8.decode (bytes.map shown) ∧ excerpt.text.length ≤ 74 ∧
      (∀ character ∈ ['\n', '\r', '\t'], character ∉ excerpt.text) ∧
      excerpt.render message =
        toString excerpt.lineNumber ++ ": " ++ message ++ "\n" ++
          String.ofList excerpt.text ++ "\n" ++
          String.ofList (List.replicate (position - start) ' ') ++ "^\n" ∧
      ('\n' ∉ message.toList → (excerpt.render message).toList.splitOn '\n' =
        [(toString excerpt.lineNumber ++ ": " ++ message).toList, excerpt.text,
          List.replicate (position - start) ' ' ++ ['^'], []]) := by
  intro position line start stop bytes excerpt
  have same : source.lineSpan offset = line :=
    Source.lineSpan_congr (source.lineAt_min offset).symm
  have window : source.window offset = ⟨start, stop⟩ := by
    simp only [Source.window, same, start, stop, position]
  have isLine : source.IsLine position line := source.isLine_lineSpan position
  obtain ⟨⟨-, low⟩, ⟨high, -⟩, inside, narrow⟩ := source.window_bounds offset
  have shows := ofOffset_eq source offset
  have plain := not_mem_text source offset
  rw [window] at low high inside narrow shows
  have length : bytes.length = stop - start := by
    rw [List.length_take, List.length_drop]
    exact Nat.min_eq_left (Nat.sub_le_sub_right inside start)
  have text : excerpt.text = Utf8.decode (bytes.map shown) := congrArg Excerpt.text shows
  have indent : excerpt.indent = position - start := congrArg Excerpt.indent shows
  have short : excerpt.text.length ≤ 74 := by
    refine Nat.le_trans (text ▸ Utf8.length_decode_le _) ?_
    rw [List.length_map, length]
    exact narrow
  refine ⟨isLine, ⟨low, high, inside⟩, length, narrow, ?_, text, short, plain, ?_, ?_⟩
  · rw [Nat.add_comm, ← source.lineAt_eq_count, source.lineAt_min]
    exact congrArg Excerpt.lineNumber shows
  · rw [← indent]
    rfl
  · intro single
    rw [← indent]
    exact splitOn_render single (plain '\n' (by decide))

/-- A window that begins and ends inside characters, in the middle of a line of 80 bytes. -/
theorem window_is_exact_cut :
    let source := Source.ofText (List.replicate 40 '\u00e9')
    '\n' ∉ "cut".toList ∧ ((Excerpt.ofOffset source 40).render "cut").toList.splitOn '\n' =
      ["1: cut".toList, '\uFFFD' :: (List.replicate 36 '\u00e9' ++ ['\uFFFD']),
        List.replicate 37 ' ' ++ ['^'], []] := by
  have single : '\n' ∉ "cut".toList := by decide
  have shows : Excerpt.ofOffset (Source.ofText (List.replicate 40 '\u00e9')) 40 =
      ⟨1, '\uFFFD' :: (List.replicate 36 '\u00e9' ++ ['\uFFFD']), 37⟩ := by decide +kernel
  have lines := window_is_exact (Source.ofText (List.replicate 40 '\u00e9')) "cut" 40
  obtain ⟨-, -, -, -, -, -, -, -, -, three⟩ := lines
  refine ⟨single, (three single).trans ?_⟩
  rw [shows]
  decide +kernel

end Excerpt

/-- What is written with a diagnostic is the number of its line and its message, the excerpt that it
points at, and the caret behind the blanks of the excerpt. -/
theorem Diagnostic.render_eq (source : Source) (diagnostic : Diagnostic) :
    diagnostic.render source =
      toString (source.lineAt diagnostic.span.start + 1) ++ ": " ++ diagnostic.message ++ "\n" ++
        String.ofList (Excerpt.ofOffset source diagnostic.span.start).text ++ "\n" ++
        String.ofList
          (List.replicate (Excerpt.ofOffset source diagnostic.span.start).indent ' ') ++ "^\n" := by
  have number : (Excerpt.ofOffset source diagnostic.span.start).lineNumber =
      source.lineAt diagnostic.span.start + 1 :=
    congrArg Excerpt.lineNumber (Excerpt.ofOffset_eq source diagnostic.span.start)
  rw [← number]
  rfl

end SlotCompiler
