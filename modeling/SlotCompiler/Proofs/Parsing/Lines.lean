import SlotCompiler.Proofs.Parsing.OpenBodies
import SlotCompiler.Proofs.Parsing.Relocation
import SlotCompiler.Proofs.Scanning.Lines

/-!
# Recovery line by line

A mishap outside of bodies costs no more than its line.  The parser goes on behind the line in which
it stands; only a control-flow keyword that begins a line is first tried for a second time, with the
same diagnostic (`Parser.AtLine.goesOn_of_error`).  And up to there, a line is read as on its own
(`Parser.AtLine.goesOn_behind_line`).  So lines that can be told apart have together the statements
and the diagnostics that they have on their own (`Parser.unit_joinLines`).
-/

set_option autoImplicit false

namespace SlotCompiler

/-! ## The token in front of a refused one -/

/-- The line of the token used up before the refused one. -/
def Mishap.lineBefore (mishap : Mishap) (trail : Trail) : Nat :=
  if mishap.refusal.consumed then trail.previous else trail.last

namespace Position

variable {goal : Goal} {position : Position goal} {final before : Token} {trail : Trail}
  {tokens : List Token} {mishap : Mishap}

theorem lineBefore_of_stopAt {token : Token} {kept used : List Token}
    (failed : (position.stopAt token kept used trail).outcome = .error mishap) :
    mishap.lineBefore (position.stopAt token kept used trail).trail = trail.last := by
  obtain ⟨-, -, -, reading⟩ := stopAt_of_error failed
  rw [reading, Mishap.lineBefore]
  split <;> rfl

/-- **The token in front of a refused one** is the last one used up, of the tokens that are read or
in front of them. -/
theorem lineBefore_of_error (here : trail.last = before.line)
    (failed : (position.read final trail tokens).outcome = .error mishap) :
    ∃ used last behind, before :: tokens = used ++ last :: behind ∧
      mishap.StopsAt final behind (position.read final trail tokens).rest ∧
      mishap.lineBefore (position.read final trail tokens).trail = last.line := by
  induction tokens generalizing position trail before with
  | nil =>
      obtain ⟨same, -, -, reading⟩ := stopAt_of_error failed
      refine ⟨[], before, [], rfl, ?_, (lineBefore_of_stopAt failed).trans here⟩
      rw [read, reading]
      split <;> exact .final same
  | cons token tokens ih =>
      cases accepted : position.accept? token with
      | some next =>
          rw [read_of_accept accepted] at failed ⊢
          obtain ⟨used, last, behind, whole, further⟩ := ih rfl failed
          exact ⟨before :: used, last, behind, congrArg (before :: ·) whole, further⟩
      | none =>
          rw [read_of_reject accepted] at failed ⊢
          exact ⟨[], before, token :: tokens, rfl, stopsAt_of_stopAt failed,
            (lineBefore_of_stopAt failed).trans here⟩

end Position

namespace Parser

variable {parser : Parser} {mishap : Mishap}

theorem lineBefore_lt_of_keeps (kept : parser.Keeps mishap) :
    mishap.lineBefore parser.trail < mishap.token.line := by
  have both := kept.2
  rw [keeps, Bool.and_eq_true, decide_eq_true_eq] at both
  exact both.2

/-! ## Behind a mishap -/

theorem dropLine_append {number : Nat} {line more : List Token}
    (same : ∀ token ∈ line, token.line = number) (later : ∀ token ∈ more, number < token.line) :
    dropLine number (line ++ more) = more := by
  rw [dropLine, List.dropWhile_append_of_pos fun token member => beq_iff_eq.mpr (same token member)]
  cases more with
  | nil => rfl
  | cons token more =>
      have other : (token.line == number) = false :=
        beq_eq_false_iff_ne.mpr (Nat.ne_of_gt (later token List.mem_cons_self))
      rw [List.dropWhile_cons, other, if_neg Bool.false_ne_true]

/-- A parser in front of a line and of more tokens on later lines. -/
structure AtLine (parser : Parser) (number : Nat) (line more : List Token) : Prop where
  rest : parser.rest = line ++ more
  same : ∀ token ∈ line, token.line = number
  later : ∀ token ∈ more, number < token.line
  outside : parser.openBodies = 0

theorem AtLine.le_line {parser : Parser} {number : Nat} {line more : List Token}
    (atLine : parser.AtLine number line more) : ∀ token ∈ line ++ more, number ≤ token.line := by
  refine List.forall_mem_append.mpr ⟨fun token member => ?_, fun token member => ?_⟩
  · exact Nat.le_of_eq (atLine.same token member).symm
  · exact Nat.le_of_lt (atLine.later token member)

/-- The run of a parser goes on in front of some tokens.  Before, it has found some statements and
told some diagnostics, each of them once or more. -/
def GoesOn (parser : Parser) (more : List Token) (found : List Statement)
    (told : Diagnostic → Prop) : Prop :=
  ∃ next : Parser, next.rest = more ∧ next.openBodies = 0 ∧
    parser.found = found ++ next.found ∧
    ∀ diagnostic, diagnostic ∈ parser.setbacks.map Setback.diagnostic ↔
      told diagnostic ∨ diagnostic ∈ next.setbacks.map Setback.diagnostic

variable {number : Nat} {line more : List Token}

/-- A refused token that is not kept takes the rest of its line with it. -/
theorem AtLine.goesOn_of_drops {rest : List Token} (atLine : parser.AtLine number line more)
    (some : line ≠ []) (failed : parser.statement.1 = .error mishap)
    (member : mishap.token ∈ line) (closed : mishap.openBodies = 0)
    (left : parser.statement.2.rest = rest ++ more) (suffix : rest <:+ line)
    (dropped : ¬ parser.statement.2.Keeps mishap) :
    parser.GoesOn more [] (· = mishap.diagnostic) := by
  have nonempty : parser.rest ≠ [] := by
    rw [atLine.rest]
    exact List.append_ne_nil_of_left_ne_nil some more
  have outside : parser.statement.2.openBodies = 0 := by
    rw [openBodies_statement_of_error failed, atLine.outside, closed]
  refine ⟨parser.statement.2.recover mishap, ?_, openBodies_recover, ?_, ?_⟩
  · rw [rest_recover_of_drops outside dropped, atLine.same _ member, left]
    exact dropLine_append (fun token inside => atLine.same token (suffix.subset inside)) atLine.later
  · rw [found_of_error nonempty failed, List.nil_append]
  · intro diagnostic
    rw [setbacks_of_error nonempty failed, List.map_cons, List.mem_cons]
    rfl

/-- A refused token that is kept is the keyword at the beginning of its line. -/
theorem AtLine.isReserved_of_keeps (atLine : parser.AtLine number line more)
    (failed : parser.statement.1 = .error mishap) (member : mishap.token ∈ line)
    (kept : parser.statement.2.Keeps mishap) :
    ∃ token tokens, line = token :: tokens ∧ token.kind.isReserved = true := by
  obtain ⟨token, tokens, rfl⟩ := List.exists_cons_of_ne_nil (List.ne_nil_of_mem member)
  have front : parser.rest = token :: (tokens ++ more) := atLine.rest
  have before := lineBefore_lt_of_keeps kept
  rw [atLine.same _ member] at before
  cases accepted : (Position.statement StatementSite.goal).accept? token with
  | some next =>
      simp only [statement, read, front, Position.read_of_accept accepted] at failed before
      obtain ⟨used, last, behind, whole, -, behindLast⟩ := Position.lineBefore_of_error rfl failed
      have inside : last ∈ (token :: tokens) ++ more := by
        rw [List.cons_append, whole]
        exact List.mem_append_right used List.mem_cons_self
      rw [behindLast] at before
      exact absurd before (Nat.not_lt_of_le (atLine.le_line last inside))
  | none =>
      have opens := opensStatement_of_keeps kept.2
      simp only [statement, read, front, Position.read_of_reject accepted] at failed
      obtain ⟨rfl, -⟩ := Position.stopAt_of_error failed
      exact ⟨_, tokens, rfl, isReserved_of_reject opens accepted⟩

/-- A keyword that is kept is refused again, and then it is not kept. -/
theorem recover_of_isReserved {token : Token} {tokens : List Token}
    (front : parser.rest = token :: tokens) (reserved : token.kind.isReserved = true)
    (kept : parser.statement.2.Keeps ⟨token, ⟨.controlFlow, true⟩, 0⟩) :
    ∃ second, parser.statement.2.recover ⟨token, ⟨.controlFlow, true⟩, 0⟩ = second ∧
      second.rest = token :: tokens ∧ second.openBodies = 0 ∧
      second.statement.1 = .error ⟨token, ⟨.controlFlow, true⟩, 0⟩ ∧
      second.statement.2.rest = tokens ∧
      ¬ second.statement.2.Keeps ⟨token, ⟨.controlFlow, true⟩, 0⟩ := by
  obtain ⟨-, trail, behind⟩ := statement_of_isReserved front reserved
  have trailThere := (trail_recover_of_keeps kept).trans trail
  have again : (parser.statement.2.recover ⟨token, ⟨.controlFlow, true⟩, 0⟩).rest =
      token :: tokens := by
    rw [recover_of_keeps kept, behind]
    rfl
  obtain ⟨refused, trailAgain, behindAgain⟩ := statement_of_isReserved again reserved
  refine ⟨_, rfl, again, openBodies_recover, refused, behindAgain, fun keptAgain => ?_⟩
  -- the token in front of the keyword is now the keyword itself
  have before := lineBefore_lt_of_keeps keptAgain
  rw [trailAgain, trailThere] at before
  exact Nat.lt_irrefl _ before

/-- **A mishap outside of bodies costs no more than its line**, and has one diagnostic. -/
theorem AtLine.goesOn_of_error {rest : List Token} (atLine : parser.AtLine number line more)
    (failed : parser.statement.1 = .error mishap) (member : mishap.token ∈ line)
    (closed : mishap.openBodies = 0) (left : parser.statement.2.rest = rest ++ more)
    (suffix : rest <:+ line) : parser.GoesOn more [] (· = mishap.diagnostic) := by
  have some : line ≠ [] := List.ne_nil_of_mem member
  by_cases kept : parser.statement.2.Keeps mishap
  · obtain ⟨token, tokens, rfl, reserved⟩ := atLine.isReserved_of_keeps failed member kept
    have nonempty : parser.rest ≠ [] := by
      rw [atLine.rest]
      exact List.cons_ne_nil _ _
    cases failed.symm.trans (statement_of_isReserved atLine.rest reserved).1
    obtain ⟨second, goesOn, again, outside, refused, behind, dropped⟩ :=
      recover_of_isReserved atLine.rest reserved kept
    have atSecond : second.AtLine number (token :: tokens) more :=
      ⟨again, atLine.same, atLine.later, outside⟩
    obtain ⟨next, rest, outside, found, told⟩ := atSecond.goesOn_of_drops some refused
      List.mem_cons_self rfl behind (List.suffix_cons _ _) dropped
    refine ⟨next, rest, outside, ?_, fun diagnostic => ?_⟩
    · rw [found_of_error nonempty failed, goesOn, found]
    · rw [setbacks_of_error nonempty failed, goesOn, List.map_cons, List.mem_cons, told, ← or_assoc]
      exact or_congr_left or_self_iff
  · exact atLine.goesOn_of_drops some failed member closed left suffix kept

/-! ## A line among others -/

theorem statement_eq_read (front : parser.rest = line) :
    parser.statement.1 =
      ((Position.statement .goal : Position .statement).read parser.final parser.trail line).outcome ∧
    parser.statement.2.rest =
      ((Position.statement .goal : Position .statement).read parser.final parser.trail line).rest := by
  subst front
  exact ⟨rfl, rfl⟩

/-- No body is open behind tokens without an opening brace. -/
theorem openBodies_of_no_leftBrace (failed : parser.statement.1 = .error mishap)
    (none : ∀ token ∈ parser.rest, token.kind ≠ .symbol .leftBrace) : mishap.openBodies = 0 := by
  obtain ⟨used, behind, last, rest, leads, -, bodies, -⟩ := Position.read_of_error failed
  have nothing : openings used = 0 := by
    refine List.countP_eq_zero.mpr fun token member => ?_
    have other := none token (rest ▸ List.mem_append_left behind member)
    simpa using other
  have counts := leads.openBodies
  have start : (Position.statement (.goal : StatementSite .statement)).openBodies = 0 := rfl
  rw [bodies]
  omega

theorem token_mem_rest (failed : parser.statement.1 = .error mishap)
    (inside : mishap.token ≠ parser.final) : mishap.token ∈ parser.rest := by
  obtain ⟨⟨used, behind, rest, stops⟩, -⟩ := statement_refused failed
  have remains : mishap.token ∈ parser.rest ++ [parser.final] := by
    rw [rest, List.append_assoc]
    exact List.mem_append_right used stops.mem
  exact (List.mem_append.mp remains).resolve_right
    fun last => inside (List.mem_singleton.mp last)

section Line

variable {alone : Parser} {move : Relocation} {moved : List Token}

theorem AtLine.statement {rest : List Token} (atLine : parser.AtLine number line more)
    {statement : Statement} (done : parser.statement.1 = .ok statement)
    (left : parser.statement.2.rest = rest ++ more) (suffix : rest <:+ line) :
    parser.statement.2.AtLine number rest more where
  rest := left
  same token member := atLine.same token (suffix.subset member)
  later := atLine.later
  outside := (openBodies_statement_of_ok done).trans atLine.outside

/-- A statement of a line on its own is read when the line stands among others. -/
theorem AtLine.statement_of_ok (atLine : parser.AtLine number moved more)
    (moves : List.Forall₂ (Token.Moves move) alone.rest moved)
    (apart : ∀ token ∈ more.head?, token.kind.joins = false) {statement : Statement}
    (done : alone.statement.1 = .ok statement) :
    ∃ rest, List.Forall₂ (Token.Moves move) alone.statement.2.rest rest ∧
      parser.statement.1 = .ok (statement.relocate move) ∧
      parser.statement.2.AtLine number rest more := by
  obtain ⟨rest, movesOn, suffix, outcome, left⟩ :=
    Position.read_relocate_of_ok _ moves apart done parser.final parser.trail
  obtain ⟨outcomeThere, restThere⟩ := statement_eq_read atLine.rest
  have doneThere := outcomeThere.trans outcome
  exact ⟨rest, movesOn, doneThere, atLine.statement doneThere (restThere.trans left) suffix⟩

/-- A statement of a line on its own that is refused, and not at the end, is refused when the line
stands among others; and nothing else on the line is found or refused. -/
theorem AtLine.goesOn_of_refused (atAlone : alone.AtLine 0 alone.rest [])
    (atLine : parser.AtLine number moved more)
    (moves : List.Forall₂ (Token.Moves move) alone.rest moved)
    (failed : alone.statement.1 = .error mishap) (inside : mishap.token ≠ alone.final)
    (none : ∀ token ∈ alone.rest, token.kind ≠ .symbol .leftBrace) :
    alone.found = [] ∧
      (∀ diagnostic, diagnostic ∈ alone.setbacks.map Setback.diagnostic ↔
        diagnostic = mishap.diagnostic) ∧
      parser.GoesOn more [] (· = mishap.diagnostic.relocate move) := by
  have closed := openBodies_of_no_leftBrace failed none
  obtain ⟨last, ended, -, found, told⟩ := atAlone.goesOn_of_error failed
    (token_mem_rest failed inside) closed (List.append_nil _).symm Position.rest_read_suffix
  obtain ⟨refused, rest, member, movesToken, suffix, outcome, left⟩ :=
    Position.read_relocate_of_error _ moves failed inside parser.final parser.trail more
  obtain ⟨outcomeThere, restThere⟩ := statement_eq_read atLine.rest
  have goesOn := atLine.goesOn_of_error (outcomeThere.trans outcome) member closed
    (restThere.trans left) suffix
  have same : Mishap.diagnostic ⟨refused, mishap.refusal, mishap.openBodies⟩ =
      mishap.diagnostic.relocate move := by
    rw [Mishap.diagnostic, movesToken.span]
    rfl
  refine ⟨?_, ?_, same ▸ goesOn⟩
  · rw [found, found_of_nil ended, List.append_nil]
  · simpa only [setbacks_of_nil ended, List.map_nil, List.not_mem_nil, or_false] using told

end Line

/-- **A line among others is read as on its own**, if no token that joins follows, and if it is
not refused at its end, and only without opening braces. -/
theorem AtLine.goesOn_behind_line {move : Relocation} (alone : Parser) :
    ∀ {parser : Parser} {moved : List Token}, alone.AtLine 0 alone.rest [] →
      parser.AtLine number moved more → List.Forall₂ (Token.Moves move) alone.rest moved →
      (∀ token ∈ more.head?, token.kind.joins = false) →
      (∀ setback ∈ alone.setbacks, setback.mishap.token ≠ alone.final ∧
        ∀ token ∈ alone.rest, token.kind ≠ .symbol .leftBrace) →
      parser.GoesOn more (alone.found.map (Statement.relocate move))
        (· ∈ (alone.setbacks.map Setback.diagnostic).map (Diagnostic.relocate move)) := by
  induction alone using run_induction with
  | ended alone none =>
      intro parser moved atAlone atLine moves apart inside
      rw [none] at moves
      cases moves
      refine ⟨parser, atLine.rest, atLine.outside, ?_, fun diagnostic => ?_⟩
      · rw [found_of_nil none]
        rfl
      · rw [setbacks_of_nil none]
        simp
  | read alone statement nonempty done ih =>
      intro parser moved atAlone atLine moves apart inside
      rw [setbacks_of_ok nonempty done] at inside ⊢
      rw [found_of_ok nonempty done, List.map_cons]
      obtain ⟨rest, movesOn, doneThere, atRest⟩ := atLine.statement_of_ok moves apart done
      have nonemptyThere : parser.rest ≠ [] := by
        rw [atLine.rest]
        refine List.append_ne_nil_of_left_ne_nil (fun none => nonempty ?_) _
        rw [none] at moves
        exact List.forall₂_nil_right_iff.mp moves
      have suffix : alone.statement.2.rest <:+ alone.rest := Position.rest_read_suffix
      obtain ⟨next, rest, outside, found, told⟩ :=
        ih (atAlone.statement done (List.append_nil _).symm suffix) atRest movesOn apart
          fun setback member => ⟨(inside setback member).1,
            fun token tail => (inside setback member).2 token (suffix.subset tail)⟩
      refine ⟨next, rest, outside, ?_, ?_⟩
      · rw [found_of_ok nonemptyThere doneThere, found]
        rfl
      · rw [setbacks_of_ok nonemptyThere doneThere]
        exact told
  | recovered alone mishap nonempty failed _ =>
      intro parser moved atAlone atLine moves apart inside
      have refused := inside ⟨alone.statement.2, mishap⟩
        (setbacks_of_error nonempty failed ▸ List.mem_cons_self)
      obtain ⟨found, told, next, rest, outside, foundThere, toldThere⟩ :=
        atAlone.goesOn_of_refused atLine moves failed refused.1 refused.2
      refine ⟨next, rest, outside, ?_, fun diagnostic => ?_⟩
      · rw [found]
        exact foundThere
      · have only : diagnostic ∈
            (alone.setbacks.map Setback.diagnostic).map (Diagnostic.relocate move) ↔
              diagnostic = mishap.diagnostic.relocate move := by
          rw [List.mem_map]
          simp only [told, exists_eq_left, eq_comm]
        exact (toldThere diagnostic).trans (or_congr_left only.symm)

/-! ## Lines of a source -/

/-- The statements of a text, read with a listener that never gives up. -/
def bodyOf (text : List Char) : List Statement :=
  match (unit (Transcript.always .resume) (ofSource (.ofText text))).1 with
  | .ok function => function.body
  | .error _ => []

/-- What a listener that never gives up receives of a text. -/
def diagnosticsOf (text : List Char) : List Diagnostic :=
  (unit (Transcript.always .resume) (ofSource (.ofText text))).2.2.received

/-- What some lines have on their own, each from where it begins in the whole text, and all of it
behind an offset. -/
def collectLines {α : Type} (has : List Char → List α) (relocate : Relocation → α → α) :
    Nat → List (List Char) → List α
  | _, [] => []
  | offset, line :: lines =>
    (has line).map (relocate (.shift offset)) ++
      collectLines has relocate (offset + Utf8.size line + 1) lines

theorem unit_eq_bodyOf (text : List Char) :
    (unit (Transcript.always .resume) (ofSource (.ofText text))).1 = .ok ⟨[], bodyOf text⟩ := by
  have result := (unit_of_resumes Transcript.resumes_always (ofSource (.ofText text))).1
  rw [bodyOf, result]

theorem bodyOf_eq_found (text : List Char) : bodyOf text = (ofSource (.ofText text)).found := by
  have result := (unit_of_resumes Transcript.resumes_always (ofSource (.ofText text))).1
  rw [bodyOf, result]

theorem diagnosticsOf_eq_setbacks (text : List Char) :
    diagnosticsOf text = (ofSource (.ofText text)).setbacks.map Setback.diagnostic := by
  have told := (unit_of_resumes Transcript.resumes_always (ofSource (.ofText text))).2
  rw [diagnosticsOf, told, Transcript.told_eq]
  rfl

theorem forall₂_moves_shift (distance lines : Nat) (tokens : List Token) :
    List.Forall₂ (Token.Moves (.shift distance)) tokens
      (tokens.map (Token.shift distance lines)) := by
  rw [List.forall₂_map_right_iff, List.forall₂_same]
  exact fun token _ => ⟨rfl, rfl, fun _ => rfl⟩

/-- No token that joins stands in front of a text. -/
def BeginsApart (text : List Char) : Prop :=
  ∀ token ∈ (Source.ofText text).tokens.head?, token.kind.joins = false

theorem BeginsApart.shift {text : List Char} (apart : BeginsApart text) (distance lines : Nat) :
    ∀ token ∈ ((Source.ofText text).tokens.map (Token.shift distance lines)).head?,
      token.kind.joins = false := by
  intro token member
  rw [List.head?_map] at member
  obtain ⟨other, front, rfl⟩ := Option.map_eq_some_iff.mp member
  exact apart other front

/-- Lines that can be told apart: none begins with a token that joins, and what is refused on a line
is not its end, and only on a line without opening braces. -/
structure Separate (lines : List (List Char)) : Prop where
  inside : ∀ line ∈ lines, '\n' ∉ line
  apart : ∀ line ∈ lines, BeginsApart line
  refused : ∀ line ∈ lines, ∀ diagnostic ∈ diagnosticsOf line,
    diagnostic.span ≠ (Source.ofText line).endToken.span ∧ '\x7b' ∉ line

section Separate

variable {first : List Char} {lines : List (List Char)}

theorem Separate.tail (separate : Separate (first :: lines)) : Separate lines where
  inside line member := separate.inside line (List.mem_cons_of_mem _ member)
  apart line member := separate.apart line (List.mem_cons_of_mem _ member)
  refused line member := separate.refused line (List.mem_cons_of_mem _ member)

theorem Separate.beginsApart (separate : Separate lines) : BeginsApart (joinLines lines) := by
  induction lines with
  | nil =>
      intro token member
      rw [Source.tokens_joinLines_nil] at member
      cases member
  | cons line lines ih =>
      have first := separate.apart line List.mem_cons_self
      have others := ih separate.tail
      intro token member
      rw [Source.tokens_joinLines (separate.inside line List.mem_cons_self)] at member
      cases tokens : (Source.ofText line).tokens with
      | nil =>
          rw [tokens, List.nil_append] at member
          exact others.shift _ _ token member
      | cons other rest =>
          rw [tokens] at member
          exact first token (tokens ▸ member)

/-- What is refused on a line on its own is one of its tokens, and the line opens no brace. -/
theorem Separate.inside_of_mem_setbacks (separate : Separate (first :: lines)) {setback : Setback}
    (member : setback ∈ (ofSource (.ofText first)).setbacks) :
    setback.mishap.token ≠ (ofSource (.ofText first)).final ∧
      ∀ token ∈ (ofSource (.ofText first)).rest, token.kind ≠ .symbol .leftBrace := by
  have told : setback.diagnostic ∈ diagnosticsOf first := by
    rw [diagnosticsOf_eq_setbacks]
    exact List.mem_map_of_mem member
  obtain ⟨notEnd, noBrace⟩ := separate.refused first List.mem_cons_self _ told
  refine ⟨fun same => notEnd (congrArg Token.span same), fun token inside brace => noBrace ?_⟩
  exact (Cursor.start first).mem_of_symbol_scan token inside brace

theorem Separate.atLine (separate : Separate (first :: lines)) {parser : Parser}
    {number offset : Nat} (outside : parser.openBodies = 0)
    (rest : parser.rest = (Source.ofText (joinLines (first :: lines))).tokens.map
      (Token.shift offset number)) :
    parser.AtLine number ((Source.ofText first).tokens.map (Token.shift offset number))
      ((Source.ofText (joinLines lines)).tokens.map
        (Token.shift (offset + Utf8.size first + 1) (number + 1))) where
  rest := by
    have further : Token.shift offset number ∘ Token.shift (Utf8.size first + 1) 1 =
        Token.shift (offset + Utf8.size first + 1) (number + 1) := by
      funext token
      simp only [Function.comp, Token.shift, Span.shift, Nat.add_assoc]
    rw [rest, Source.tokens_joinLines (separate.inside first List.mem_cons_self), List.map_append,
      List.map_map, further]
  same token member := by
    obtain ⟨alone, inside, rfl⟩ := List.mem_map.mp member
    rw [Token.shift, Source.line_of_mem_tokens (separate.inside first List.mem_cons_self) alone
      inside, Nat.add_zero]
  later token member := by
    obtain ⟨alone, inside, rfl⟩ := List.mem_map.mp member
    show number < number + 1 + alone.line
    omega
  outside := outside

end Separate

/-- A parser in front of separate lines finds what they have on their own. -/
theorem run_joinLines (lines : List (List Char)) : ∀ {parser : Parser} {number offset : Nat},
    Separate lines → parser.openBodies = 0 →
    parser.rest = (Source.ofText (joinLines lines)).tokens.map (Token.shift offset number) →
    parser.found = collectLines bodyOf Statement.relocate offset lines ∧
      ∀ diagnostic, diagnostic ∈ parser.setbacks.map Setback.diagnostic ↔
        diagnostic ∈ collectLines diagnosticsOf Diagnostic.relocate offset lines := by
  induction lines with
  | nil =>
      intro parser number offset _ _ rest
      rw [Source.tokens_joinLines_nil, List.map_nil] at rest
      rw [found_of_nil rest, setbacks_of_nil rest]
      exact ⟨rfl, fun _ => Iff.rfl⟩
  | cons line lines ih =>
      intro parser number offset separate outside rest
      have atLine := separate.atLine outside rest
      have alone : (ofSource (.ofText line)).AtLine 0 (ofSource (.ofText line)).rest [] :=
        ⟨(List.append_nil _).symm,
          Source.line_of_mem_tokens (separate.inside line List.mem_cons_self),
          List.forall_mem_nil _, rfl⟩
      obtain ⟨next, restNext, outsideNext, found, told⟩ :=
        AtLine.goesOn_behind_line _ alone atLine (forall₂_moves_shift offset number _)
          (separate.tail.beginsApart.shift _ _)
          fun setback member => separate.inside_of_mem_setbacks member
      obtain ⟨foundNext, toldNext⟩ := ih separate.tail outsideNext restNext
      constructor
      · rw [found, foundNext, ← bodyOf_eq_found]
        rfl
      · intro diagnostic
        rw [told, toldNext, ← diagnosticsOf_eq_setbacks, collectLines, List.mem_append]

/-- **Recovery works line by line.**  If lines can be told apart, then a listener that never gives
up gets the statements that each of them has on its own, in order and located where the line stands,
and it is told of exactly the diagnostics that each of them has on its own. -/
theorem unit_joinLines {lines : List (List Char)} (separate : Separate lines) :
    (unit (Transcript.always .resume) (ofSource (.ofText (joinLines lines)))).1 =
        .ok ⟨[], collectLines bodyOf Statement.relocate 0 lines⟩ ∧
      ∀ diagnostic, diagnostic ∈ diagnosticsOf (joinLines lines) ↔
        diagnostic ∈ collectLines diagnosticsOf Diagnostic.relocate 0 lines := by
  have here : (Source.ofText (joinLines lines)).tokens =
      (Source.ofText (joinLines lines)).tokens.map (Token.shift 0 0) := by
    have same : Token.shift 0 0 = id := by
      funext token
      simp only [Token.shift, Span.shift, Nat.zero_add, id]
    rw [same, List.map_id]
  obtain ⟨found, told⟩ := @run_joinLines lines (ofSource (.ofText (joinLines lines))) 0 0 separate
    rfl here
  rw [unit_eq_bodyOf, bodyOf_eq_found, diagnosticsOf_eq_setbacks, found]
  exact ⟨rfl, told⟩

/-- Two lines are refused, one of them as control flow, and nothing else is lost. -/
theorem unit_joinLines_broken :
    let lines := ["var a = 1".toList, "b = )".toList, "if".toList, "return a".toList]
    Separate lines ∧
      (unit (Transcript.always .resume) (ofSource (.ofText (joinLines lines)))).1 =
        .ok ⟨[], collectLines bodyOf Statement.relocate 0 lines⟩ ∧
      (⟨.expressionExpected, ⟨14, 15⟩⟩ : Diagnostic) ∈ diagnosticsOf (joinLines lines) ∧
      (⟨.controlFlow, ⟨16, 18⟩⟩ : Diagnostic) ∈ diagnosticsOf (joinLines lines) := by
  intro lines
  have separate : Separate lines := by
    refine ⟨by decide +kernel, ?_, by decide +kernel⟩
    unfold BeginsApart
    decide +kernel
  obtain ⟨result, told⟩ := unit_joinLines separate
  exact ⟨separate, result, (told _).mpr (by decide +kernel), (told _).mpr (by decide +kernel)⟩

end Parser

end SlotCompiler
