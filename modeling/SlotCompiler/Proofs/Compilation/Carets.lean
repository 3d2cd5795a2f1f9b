import SlotCompiler.Proofs.Compilation.Identity
import SlotCompiler.Proofs.Diagnostic.Excerpts
import SlotCompiler.Proofs.Diagnostic.Windows
import SlotCompiler.Proofs.Parsing.LineFronts
import SlotCompiler.Proofs.Scanning.Places

/-!
# Where the carets of a compilation stand

Every diagnostic of a compilation is located at a token, the last one of all included.  It comes
from a setback, or from lowering a source without setbacks; either way, all tokens in front of it on
its line are of the vocabulary (`Source.clearFront_of_delivery`).  A character that is not ASCII is
outside the vocabulary.  So the line is ASCII in front of the diagnostic, and in what is written
with it the caret stands below the character that it is about (`Source.caret_below_token`).
-/

set_option autoImplicit false

namespace SlotCompiler

namespace Source

variable {σ : Type} [Listener σ] {source : Source}

/-! ## What is delivered -/

/-- The problem of a tree is located at one of the tokens that it comes from. -/
theorem marks_of_lower {tree : FunctionSource} (origin : tree.From source.tokens)
    {diagnostic : Diagnostic} (refused : tree.lower source = .error diagnostic) :
    Marks source.tokens diagnostic.span := by
  have carries : (Relocation.mk id id).Carries source.tokens source source :=
    ⟨fun token member _ => ⟨source.extract_span member, source.extract_span member⟩,
      fun _ _ _ => rfl, Set.injOn_id _⟩
  rcases FunctionSource.carried_lower carries origin with ⟨unit, accepted, -⟩ | ⟨_, marks, same, -⟩
  · cases refused.symm.trans accepted
  · cases refused.symm.trans same
    exact marks

/-- **What a compilation delivers** is about a setback, or it is the problem of what is found
without setbacks. -/
theorem delivery_cases (source : Source) (listener : σ) {delivery : Delivery}
    (member : delivery ∈ (source.logCompile listener).2.log) :
    (∃ setback ∈ (Parser.ofSource source).setbacks, delivery.diagnostic = setback.diagnostic) ∨
      ((Parser.ofSource source).setbacks = [] ∧
        FunctionSource.lower source ⟨[], (Parser.ofSource source).found⟩ =
          .error delivery.diagnostic) := by
  rw [logCompile] at member
  rcases source.verdict_cases with ⟨setback, first, -⟩ | ⟨smooth, -⟩
  · rw [compile_of_setback _ first] at member
    obtain ⟨told, isFirst, same⟩ :=
      (Parser.ofSource source).log_statements (Logged.mk listener [])
    have among : delivery.diagnostic ∈ told := by
      rw [List.map_nil, List.nil_append] at same
      exact same ▸ List.mem_map_of_mem member
    obtain ⟨setback, inside, about⟩ := List.mem_map.mp (isFirst.subset among)
    exact .inl ⟨setback, inside, about.symm⟩
  · rw [compile_of_smooth _ smooth] at member
    cases lowered : FunctionSource.lower source ⟨[], (Parser.ofSource source).found⟩ with
    | ok unit =>
        rw [source.generate_of_unit _ lowered] at member
        cases member
    | error diagnostic =>
        rw [source.generate_of_diagnostic _ lowered] at member
        cases List.mem_singleton.mp member
        exact .inr ⟨smooth, rfl⟩

/-- **What is delivered is located at a token**, in front of which all tokens on its line are of the
vocabulary. -/
theorem clearFront_of_delivery (source : Source) (listener : σ) {delivery : Delivery}
    (member : delivery ∈ (source.logCompile listener).2.log) :
    ∃ token, token.span = delivery.diagnostic.span ∧ Parser.ClearFront source.stream token := by
  rcases source.delivery_cases listener member with ⟨setback, inside, same⟩ | ⟨smooth, refused⟩
  · have clear := @Parser.clear_setbacks (Parser.ofSource source) []
      (source.pairwise_tokens.imp And.right) (List.forall_mem_nil _) setback inside
    exact ⟨setback.mishap.token, congrArg Diagnostic.span same.symm, clear⟩
  · have derived : Grammar.Unit source.tokens ⟨[], (Parser.ofSource source).found⟩ :=
      Parser.derives_found smooth
    obtain ⟨token, inside, same⟩ := marks_of_lower (derived.origin (List.Subset.refl _)) refused
    obtain ⟨before, behind, whole⟩ := List.append_of_mem inside
    refine ⟨token, same, before, behind ++ [source.endToken], ?_, fun other earlier _ => ?_⟩
    · rw [stream, whole, List.append_assoc, List.cons_append]
    · refine Parser.kind_ne_invalid_of_smooth smooth other ?_
      show other ∈ source.tokens
      exact whole ▸ List.mem_append_left _ earlier

/-! ## The line in front of a token -/

/-- The line of a token is the line of the text on which it begins. -/
theorem lineAt_start {token : Token} (member : token ∈ source.stream) :
    source.lineAt token.span.start = token.line := by
  obtain ⟨before, behind, whole⟩ := List.append_of_mem member
  obtain ⟨rest, text, back, parts, first⟩ := exists_parts_of_stream whole
  obtain ⟨start, line⟩ := parts.start_of_head first
  obtain ⟨above, front, rfl, here⟩ := exists_lineFront parts.text
  rw [start, line, here.lineAt_eq, List.count_append,
    List.count_eq_zero_of_not_mem here.inside, Nat.add_zero]

/-- **The line in front of a token is ASCII** if all tokens in front of it on its line are of the
vocabulary. -/
theorem exists_lineFront_of_clearFront {token : Token}
    (clear : Parser.ClearFront source.stream token) :
    ∃ above front back, source.LineFront above front back ∧
      token.span.start = Utf8.size (above ++ front) ∧
      (∀ character ∈ front, IsAscii character) ∧
      ∀ character ∈ back.head?, isBlank character = false := by
  obtain ⟨before, behind, whole, valid⟩ := clear
  obtain ⟨rest, text, back, parts, first⟩ := exists_parts_of_stream whole
  obtain ⟨start, line⟩ := parts.start_of_head first
  obtain ⟨above, front, rfl, here⟩ := exists_lineFront parts.text
  refine ⟨above, front, back, here, start, fun character member => ?_, parts.passes.stops⟩
  by_contra foreign
  obtain ⟨left, right, rfl⟩ := List.append_of_mem member
  obtain ⟨other, inside, kind, same⟩ := parts.invalid_of_not_ascii
    (show above ++ (left ++ character :: right) = (above ++ left) ++ character :: right by simp)
    foreign
  have inFront := here.inside
  rw [List.mem_append, not_or] at inFront
  refine valid other inside ?_ kind
  rw [same, line, List.count_append, List.count_append, List.count_eq_zero_of_not_mem inFront.1,
    List.count_eq_zero_of_not_mem here.inside]

/-! ## Carets -/

/-- **The caret of a diagnostic stands below the character that the diagnostic is about.**  Whatever
the listener answers, every diagnostic of a compilation is located at a token, and all bytes of its
line in front of it are ASCII.  What is written with it is the number of the line and the message,
the excerpt on a line of its own, and on the next line a caret.  As many blanks stand in front of
the caret as characters stand in the excerpt in front of the one at the location. -/
theorem caret_below_token (source : Source) (listener : σ) :
    source.compile listener =
        ((source.logCompile listener).1, (source.logCompile listener).2.listener) ∧
      ∀ delivery ∈ (source.logCompile listener).2.log,
        let offset := delivery.diagnostic.span.start
        let line := source.lineSpan offset
        let excerpt := Excerpt.ofOffset source offset
        (∃ token ∈ source.stream, token.span = delivery.diagnostic.span) ∧
        (∀ byte ∈ (source.bytes.drop line.start).take (offset - line.start), byte < 0x80) ∧
        ∃ hidden visible back after, source.text = hidden ++ visible ++ back ∧
          Utf8.size (hidden ++ visible) = offset ∧ visible.length = excerpt.indent ∧
          excerpt.text = visible.map Excerpt.shownCharacter ++ after ∧
          after.head? = back.head? ∧
          '\n' ∉ visible.map Excerpt.shownCharacter ++ after ∧
          delivery.diagnostic.render source =
            toString (source.lineAt offset + 1) ++ ": " ++ delivery.diagnostic.message ++ "\n" ++
              String.ofList (visible.map Excerpt.shownCharacter ++ after) ++ "\n" ++
              String.ofList (List.replicate visible.length ' ') ++ "^\n" := by
  refine ⟨(source.compile_logged listener).1, fun delivery member => ?_⟩
  obtain ⟨token, same, clear⟩ := source.clearFront_of_delivery listener member
  have inside : token ∈ source.stream := by
    obtain ⟨before, behind, whole, -⟩ := clear
    rw [whole]
    exact List.mem_append_right before List.mem_cons_self
  obtain ⟨above, front, back, here, start, ascii, apart⟩ := exists_lineFront_of_clearFront clear
  rw [same] at start
  have bytes := here.bytes_front
  obtain ⟨hidden, visible, after, rfl, indent, shown, first⟩ := here.excerpt_eq ascii apart
  rw [← start] at bytes indent shown
  intro offset line excerpt
  have single : '\n' ∉ excerpt.text := Excerpt.not_mem_text source offset '\n' (by decide)
  have written := delivery.diagnostic.render_eq source
  rw [shown] at single
  rw [shown, ← indent] at written
  refine ⟨⟨token, inside, same⟩, ?_, above ++ hidden, visible, back, after, ?_, ?_, indent, shown,
    first, single, written⟩
  · rw [bytes]
    exact Utf8.lt_of_mem_encode ascii
  · rw [here.text]
    simp only [List.append_assoc]
  · rw [List.append_assoc]
    exact start.symm

/-- Behind a tab and in front of a character of two bytes, the caret stands below the equals
sign. -/
theorem caret_below_equalsSign :
    let source := Source.ofString "a = 1\n\tvar = \u00e9"
    let delivery : Delivery := ⟨⟨.declaredNameExpected, ⟨11, 12⟩⟩, .resume⟩
    delivery ∈ (source.logCompile (Transcript.always .resume)).2.log ∧
      ∃ hidden visible back after, source.text = hidden ++ visible ++ back ∧
        Utf8.size (hidden ++ visible) = 11 ∧ visible.length = 5 ∧ after.head? = back.head? ∧
        visible.map Excerpt.shownCharacter ++ after = " var = \u00e9".toList ∧
        delivery.diagnostic.render source =
          "2: Name of declared variable expected\n var = \u00e9\n     ^\n" := by
  intro source delivery
  have member : delivery ∈ (source.logCompile (Transcript.always .resume)).2.log := by
    decide +kernel
  obtain ⟨-, -, hidden, visible, back, after, whole, size, indent, shown, first, -, written⟩ :=
    (caret_below_token source (Transcript.always .resume)).2 delivery member
  have excerpt : Excerpt.ofOffset source 11 = ⟨2, " var = \u00e9".toList, 5⟩ := by decide +kernel
  have five : visible.length = 5 := indent.trans (congrArg Excerpt.indent excerpt)
  have line : visible.map Excerpt.shownCharacter ++ after = " var = \u00e9".toList :=
    shown.symm.trans (congrArg Excerpt.text excerpt)
  refine ⟨member, hidden, visible, back, after, whole, size, five, first, line, ?_⟩
  rw [written, line, five]
  decide +kernel

end Source

end SlotCompiler
