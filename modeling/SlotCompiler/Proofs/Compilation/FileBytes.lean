import SlotCompiler.Proofs.Compilation.Carets
import SlotCompiler.Proofs.Text.Decoding

/-!
# Compiling the bytes of a file

Bytes that spell no character are read as replacement characters, which are outside ASCII.  Each is
a token outside the vocabulary, and no such token is ever accepted, so a file with one of them has a
setback and no unit, wherever it stands (`Source.setbacks_ne_nil_of_not_ascii`).  What is delivered
is located at a token, and the text in front of a token is what some bytes at the front of the file
are read as.  They have the same newlines, so the line number that is written with a diagnostic is
that of the file (`Source.render_of_delivery`).
-/

set_option autoImplicit false

namespace SlotCompiler

namespace Source

variable {σ : Type} [Listener σ] {source : Source}

/-! ## Characters outside ASCII -/

/-- **A character outside ASCII is a token outside the vocabulary**, wherever it stands. -/
theorem exists_invalid_of_not_ascii {character : Char} (member : character ∈ source.text)
    (foreign : ¬ IsAscii character) : ∃ token ∈ source.tokens, token.kind = .invalid := by
  obtain ⟨left, right, whole⟩ := List.append_of_mem member
  obtain ⟨token, inside, kind, -⟩ := source.passes_to_end.1.invalid_of_not_ascii whole foreign
  exact ⟨token, inside, kind⟩

theorem setbacks_ne_nil_of_not_ascii {character : Char} (member : character ∈ source.text)
    (foreign : ¬ IsAscii character) : (Parser.ofSource source).setbacks ≠ [] := by
  intro smooth
  obtain ⟨token, inside, kind⟩ := exists_invalid_of_not_ascii member foreign
  exact Parser.kind_ne_invalid_of_smooth smooth token inside kind

/-- **A source with a setback is not compiled**, and the listener is told why. -/
theorem rejected_of_setback (listener : σ) (rough : (Parser.ofSource source).setbacks ≠ []) :
    (source.logCompile listener).2.log ≠ [] ∧ ∀ unit, (source.compile listener).1 ≠ .ok unit := by
  obtain ⟨setback, setbacks, same⟩ := List.exists_cons_of_ne_nil rough
  have first : (Parser.ofSource source).setbacks.head? = some setback := congrArg List.head? same
  constructor
  · intro silent
    obtain ⟨unit, made⟩ := (source.exists_unit_iff listener).mpr silent
    rw [logCompile, compile_of_setback _ first] at made
    cases made
  · intro unit made
    rw [compile_of_setback _ first] at made
    cases made

/-! ## Lines -/

/-- **What is delivered stands behind some bytes of the file**, and the line number that is written
with it counts their newlines. -/
theorem render_of_delivery (bytes : List UInt8) (listener : σ) {delivery : Delivery}
    (member : delivery ∈ ((ofBytes bytes).logCompile listener).2.log) :
    ∃ front back shown, bytes = front ++ back ∧
      (ofBytes bytes).text = Utf8.decode front ++ Utf8.decode back ∧
      Utf8.size (Utf8.decode front) = delivery.diagnostic.span.start ∧
      (ofBytes bytes).lineAt delivery.diagnostic.span.start = front.count Utf8.newline ∧
      delivery.diagnostic.render (ofBytes bytes) =
        toString (front.count Utf8.newline + 1) ++ ": " ++
          delivery.diagnostic.message ++ "\n" ++ shown := by
  obtain ⟨token, same, before, behind, whole, -⟩ :=
    (ofBytes bytes).clearFront_of_delivery listener member
  have inside : token ∈ (ofBytes bytes).stream := by
    rw [whole]
    exact List.mem_append_right before List.mem_cons_self
  obtain ⟨rest, text, back, parts, first⟩ := exists_parts_of_stream whole
  obtain ⟨start, line⟩ := parts.start_of_head first
  obtain ⟨front, last, cut, rfl, rfl⟩ := Utf8.exists_parts_of_decode parts.text
  rw [← lineAt_start inside, same, Utf8.count_decode] at line
  rw [same] at start
  have written := delivery.diagnostic.render_eq (ofBytes bytes)
  rw [line, String.append_assoc, String.append_assoc, String.append_assoc] at written
  exact ⟨front, last, _, cut, parts.text, start.symm, line, written⟩

/-! ## Ill-formed files -/

/-- **Files that are not well-formed are reported on their own lines and never compiled.**  Whatever
the listener answers: every line of the text is what the same line of the file is read as; every
diagnostic is located behind some bytes of the file, and the number that is written with it is that
of the line behind them; and if the file is not the bytes of any text, something is delivered and no
unit is returned. -/
theorem ill_formed_rejected_by_line (bytes : List UInt8) (listener : σ) :
    let source := ofBytes bytes
    source.compile listener =
        ((source.logCompile listener).1, (source.logCompile listener).2.listener) ∧
      source.text.splitOn '\n' = (bytes.splitOn Utf8.newline).map Utf8.decode ∧
      (∀ delivery ∈ (source.logCompile listener).2.log,
        ∃ front back shown, bytes = front ++ back ∧
          source.text = Utf8.decode front ++ Utf8.decode back ∧
          Utf8.size (Utf8.decode front) = delivery.diagnostic.span.start ∧
          source.lineAt delivery.diagnostic.span.start = front.count Utf8.newline ∧
          delivery.diagnostic.render source = toString (front.count Utf8.newline + 1) ++ ": " ++
            delivery.diagnostic.message ++ "\n" ++ shown) ∧
      ((¬ ∃ text, Utf8.encode text = bytes) →
        (source.logCompile listener).2.log ≠ [] ∧
          ∀ unit, (source.compile listener).1 ≠ .ok unit) := by
  intro source
  refine ⟨(source.compile_logged listener).1, Utf8.splitOn_decode bytes,
    fun delivery member => render_of_delivery bytes listener member, fun illFormed => ?_⟩
  have replaced : '\uFFFD' ∈ source.text := Utf8.replacement_mem_decode illFormed
  exact rejected_of_setback listener (setbacks_ne_nil_of_not_ascii replaced (by decide))

/-- A character of three bytes that a newline cuts off after two: the newline is kept. -/
theorem ill_formed_rejected_by_line_cut :
    (ofBytes [0x61, 0x0A, 0xE2, 0x82, 0x0A, 0x62]).text = ['a', '\n', '\uFFFD', '\n', 'b'] ∧
      ((ofBytes [0x61, 0x0A, 0xE2, 0x82, 0x0A, 0x62]).logCompile
        (Transcript.always .resume)).2.log ≠ [] :=
  ⟨rfl, ((@ill_formed_rejected_by_line _ _ _ (Transcript.always .resume)).2.2.2
    (Utf8.isWellFormed_iff.not.mp (by decide))).1⟩

end Source

end SlotCompiler
