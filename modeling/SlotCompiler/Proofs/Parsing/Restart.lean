import SlotCompiler.Proofs.Parsing.Lines
import SlotCompiler.Proofs.Scanning.Places

/-!
# Restarting at a kept token

Recovery keeps no memory of what was refused but the line of the last token used up.  That line
matters only until the next token is used up, and it does not matter at all in front of a token that
begins a statement.  So a parser in front of such a token goes on as a new one in front of the text
from there on (`Parser.Shifts.run`), wherever the token stands and whether it was used up before
or not.  A token that begins its line and can begin a statement, and is refused where no body is
open, is such a token (`Parser.restarts_at_line`).
-/

set_option autoImplicit false

namespace SlotCompiler

/-- A mishap a number of bytes and of lines further. -/
def Mishap.shift (distance lines : Nat) (mishap : Mishap) : Mishap :=
  { mishap with token := mishap.token.shift distance lines }

variable {distance lines : Nat}

theorem Token.moves_shift (token : Token) :
    token.Moves (.shift distance) (token.shift distance lines) := ⟨rfl, rfl, fun _ => rfl⟩

/-! ## One goal -/

/-- One reading is another one that happened a number of bytes and of lines further. -/
structure Reading.Shifts (distance lines : Nat) {goal : Goal} (here there : Reading goal) :
    Prop where
  outcome : there.outcome =
    (here.outcome.map (goal.relocate (.shift distance))).mapError (Mishap.shift distance lines)
  rest : there.rest = here.rest.map (Token.shift distance lines)
  last : there.trail.last = lines + here.trail.last
  /-- The line in front of the refused token, too, is that many lines further. -/
  before : ∀ mishap, here.outcome = .error mishap →
    mishap.lineBefore there.trail = lines + mishap.lineBefore here.trail

namespace Position

variable {goal : Goal}

theorem stopAt_shift (position : Position goal) (token : Token) (kept used : List Token)
    {trail trail' : Trail} (last : trail'.last = lines + trail.last) :
    (position.stopAt token kept used trail).Shifts distance lines
      ((position.relocate (.shift distance)).stopAt (token.shift distance lines)
        (kept.map (Token.shift distance lines)) (used.map (Token.shift distance lines)) trail') := by
  rw [stopAt, stopAt, position.halt_relocate token.moves_shift, openBodies_relocate]
  cases position.halt token with
  | ok result =>
      refine ⟨rfl, rfl, last, ?_⟩
      rintro _ ⟨⟩
  | error refusal =>
      dsimp only [Except.map]
      by_cases consumed : refusal.consumed = true
      · rw [if_pos consumed, if_pos consumed]
        refine ⟨rfl, rfl, rfl, ?_⟩
        rintro _ ⟨⟩
        rw [Mishap.lineBefore, Mishap.lineBefore, if_pos consumed, if_pos consumed]
        exact last
      · rw [if_neg consumed, if_neg consumed]
        refine ⟨rfl, rfl, last, ?_⟩
        rintro _ ⟨⟩
        rw [Mishap.lineBefore, Mishap.lineBefore, if_neg consumed, if_neg consumed]
        exact last

/-- **The same tokens are read alike further back**, if the last token used up, too, was on a line
further back. -/
theorem read_shift (position : Position goal) (final : Token) (tokens : List Token)
    {trail trail' : Trail} (last : trail'.last = lines + trail.last) :
    (position.read final trail tokens).Shifts distance lines
      ((position.relocate (.shift distance)).read (final.shift distance lines) trail'
        (tokens.map (Token.shift distance lines))) := by
  induction tokens generalizing position trail trail' with
  | nil => exact position.stopAt_shift final [] [] last
  | cons token tokens ih =>
      rw [List.map_cons]
      cases accepted : position.accept? token with
      | some next =>
          rw [read_of_accept accepted,
            read_of_accept (accept?_relocate_some token.moves_shift accepted)]
          exact ih next rfl
      | none =>
          rw [read_of_reject accepted,
            read_of_reject (accept?_relocate_none token.moves_shift accepted)]
          exact position.stopAt_shift token (token :: tokens) tokens last

end Position

/-! ## One statement -/

namespace Parser

/-- Whether a statement can begin at the front of some tokens. -/
def Begins (tokens : List Token) : Prop :=
  ∃ token more next, tokens = token :: more ∧
    (Position.statement StatementSite.goal).accept? token = some next

/-- A parser is another one that stands a number of bytes and of lines further.  The last tokens
they used up are that many lines apart, too, unless a statement can begin where they stand. -/
structure Shifts (distance lines : Nat) (here there : Parser) : Prop where
  rest : there.rest = here.rest.map (Token.shift distance lines)
  final : there.final = here.final.shift distance lines
  openBodies : there.openBodies = here.openBodies
  last : there.trail.last = lines + here.trail.last ∨ Begins here.rest

variable {here there : Parser}

theorem Shifts.reading (shifts : here.Shifts distance lines there) :
    ((Position.statement StatementSite.goal).read here.final here.trail here.rest).Shifts
      distance lines
      ((Position.statement StatementSite.goal).read there.final there.trail there.rest) := by
  rw [shifts.rest, shifts.final]
  rcases shifts.last with last | ⟨token, more, next, front, accepted⟩
  · exact (Position.statement .goal).read_shift here.final here.rest last
  · have acceptedThere : (Position.statement StatementSite.goal).accept?
        (token.shift distance lines) = some (next.relocate (.shift distance)) :=
      Position.accept?_relocate_some token.moves_shift accepted
    rw [front, List.map_cons, Position.read_of_accept accepted,
      Position.read_of_accept acceptedThere]
    exact next.read_shift here.final more rfl

/-- A statement that is read is read further back, and the parsers go on alike. -/
theorem Shifts.statement_of_ok (shifts : here.Shifts distance lines there) {statement : Statement}
    (done : here.statement.1 = .ok statement) :
    there.statement.1 = .ok (statement.relocate (.shift distance)) ∧
      here.statement.2.Shifts distance lines there.statement.2 := by
  obtain ⟨outcome, rest, last, -⟩ := shifts.reading
  have doneThere : there.statement.1 = .ok (statement.relocate (.shift distance)) := by
    refine outcome.trans ?_
    rw [show Reading.outcome _ = .ok statement from done]
    rfl
  refine ⟨doneThere, rest, shifts.final, ?_, .inl last⟩
  rw [openBodies_statement_of_ok done, openBodies_statement_of_ok doneThere, shifts.openBodies]

/-! ## Recovery -/

theorem dropLine_shift (line : Nat) (tokens : List Token) :
    dropLine (lines + line) (tokens.map (Token.shift distance lines)) =
      (dropLine line tokens).map (Token.shift distance lines) := by
  rw [dropLine, dropLine, List.dropWhile_map]
  congr 2
  funext token
  simp

theorem closeBodies_shift (final : Token) (depth line : Nat) (tokens : List Token) :
    closeBodies (final.shift distance lines) depth (lines + line)
        (tokens.map (Token.shift distance lines)) =
      ((closeBodies final depth line tokens).1.map (Token.shift distance lines),
        lines + (closeBodies final depth line tokens).2) := by
  fun_induction closeBodies final depth line tokens with
  | case1 => simp only [closeBodies]
  | case2 => rfl
  | case3 _ _ _ _ kind ih =>
      rw [← ih, List.map_cons, closeBodies, Token.kind_shift, if_pos kind, Token.line_shift]
  | case4 _ _ _ _ kind kind' ih =>
      rw [← ih, List.map_cons, closeBodies, Token.kind_shift, if_neg kind, if_pos kind',
        Token.line_shift]
  | case5 _ _ _ _ kind kind' ih =>
      rw [← ih, List.map_cons, closeBodies, Token.kind_shift, if_neg kind, if_neg kind',
        Token.line_shift]

/-- **Recovery is the same further back**, whatever was used up before the refused token. -/
theorem Shifts.recover (shifts : here.Shifts distance lines there)
    (last : there.trail.last = lines + here.trail.last) {mishap : Mishap}
    (before : mishap.lineBefore there.trail = lines + mishap.lineBefore here.trail) :
    (here.recover mishap).Shifts distance lines
      (there.recover (mishap.shift distance lines)) := by
  have refusal : (mishap.shift distance lines).refusal = mishap.refusal := rfl
  have token : (mishap.shift distance lines).token = mishap.token.shift distance lines := rfl
  have kept : keeps (mishap.shift distance lines) there.trail = keeps mishap here.trail := by
    have later : decide (mishap.lineBefore there.trail < lines + mishap.token.line) =
        decide (mishap.lineBefore here.trail < mishap.token.line) :=
      decide_eq_decide.mpr (by rw [before, Nat.add_lt_add_iff_left])
    exact congrArg (mishap.token.kind.opensStatement && ·) later
  unfold Parser.recover
  simp only [shifts.openBodies, kept, refusal, token, Token.kind_shift, Token.line_shift]
  split
  · refine ⟨?_, shifts.final, rfl, .inl ?_⟩ <;>
      simp only [shifts.rest, shifts.final, last, closeBodies_shift, dropLine_shift]
  · split
    · split
      · exact ⟨congrArg (_ :: ·) shifts.rest, shifts.final, rfl, .inl last⟩
      · exact ⟨shifts.rest, shifts.final, rfl, .inl last⟩
    · refine ⟨?_, shifts.final, rfl, .inl last⟩
      simp only [shifts.rest, dropLine_shift]

/-- A statement that is refused is refused further back, and the parsers recover alike. -/
theorem Shifts.statement_of_error (shifts : here.Shifts distance lines there) {mishap : Mishap}
    (failed : here.statement.1 = .error mishap) :
    there.statement.1 = .error (mishap.shift distance lines) ∧
      (here.statement.2.recover mishap).Shifts distance lines
        (there.statement.2.recover (mishap.shift distance lines)) := by
  obtain ⟨outcome, rest, last, before⟩ := shifts.reading
  have failedThere : there.statement.1 = .error (mishap.shift distance lines) := by
    refine outcome.trans ?_
    rw [show Reading.outcome _ = .error mishap from failed]
    rfl
  have bodies : there.statement.2.openBodies = here.statement.2.openBodies := by
    rw [openBodies_statement_of_error failed, openBodies_statement_of_error failedThere,
      shifts.openBodies]
    rfl
  have behind : here.statement.2.Shifts distance lines there.statement.2 :=
    ⟨rest, shifts.final, bodies, .inl last⟩
  exact ⟨failedThere, behind.recover last (before mishap failed)⟩

/-! ## The run -/

/-- **A run is the same further back.** -/
theorem Shifts.run (shifts : here.Shifts distance lines there) :
    there.found = here.found.map (Statement.relocate (.shift distance)) ∧
      there.setbacks.map Setback.diagnostic =
        (here.setbacks.map Setback.diagnostic).map (Diagnostic.relocate (.shift distance)) := by
  induction here using run_induction generalizing there with
  | ended here none =>
      have noneThere : there.rest = [] := by rw [shifts.rest, none, List.map_nil]
      rw [found_of_nil none, found_of_nil noneThere, setbacks_of_nil none,
        setbacks_of_nil noneThere]
      exact ⟨rfl, rfl⟩
  | read here statement more done ih =>
      have moreThere : there.rest ≠ [] := by rwa [shifts.rest, ne_eq, List.map_eq_nil_iff]
      obtain ⟨doneThere, behind⟩ := shifts.statement_of_ok done
      obtain ⟨found, told⟩ := ih behind
      rw [found_of_ok more done, found_of_ok moreThere doneThere, setbacks_of_ok more done,
        setbacks_of_ok moreThere doneThere, found]
      exact ⟨rfl, told⟩
  | recovered here mishap more failed ih =>
      have moreThere : there.rest ≠ [] := by rwa [shifts.rest, ne_eq, List.map_eq_nil_iff]
      obtain ⟨failedThere, behind⟩ := shifts.statement_of_error failed
      obtain ⟨found, told⟩ := ih behind
      rw [found_of_error more failed, found_of_error moreThere failedThere,
        setbacks_of_error more failed, setbacks_of_error moreThere failedThere, List.map_cons, told]
      exact ⟨found, rfl⟩

end Parser

/-! ## Tokens that begin their line -/

/-- No other token of the source stands in front of this one on its line. -/
def Source.BeginsLine (source : Source) (token : Token) : Prop :=
  ∀ other ∈ source.tokens, other.line = token.line → token.span.start ≤ other.span.start

/-- Tokens in front of one that begins its line stand on earlier lines. -/
theorem Source.BeginsLine.line_lt {source : Source} {token : Token}
    (begins : source.BeginsLine token) {before behind : List Token}
    (whole : source.tokens = before ++ token :: behind) :
    ∀ other ∈ before, other.line < token.line := by
  intro other member
  have sorted := (List.pairwise_append.mp source.pairwise_tokens).1
  rw [whole] at sorted
  obtain ⟨stop, line⟩ := (List.pairwise_append.mp sorted).2.2 other member token List.mem_cons_self
  have inside : other ∈ source.tokens := whole ▸ List.mem_append_left _ member
  refine Nat.lt_of_le_of_ne line fun same => ?_
  have := begins other inside same
  have := source.start_lt_stop inside
  omega

namespace Parser

variable {source : Source} {attempt : Parser} {mishap : Mishap}

/-- A token that can begin a statement and is not reserved begins one. -/
theorem accept?_of_opensStatement {token : Token} (opens : token.kind.opensStatement = true)
    (free : token.kind.isReserved = false) :
    ∃ next, (Position.statement StatementSite.goal).accept? token = some next := by
  refine Option.ne_none_iff_exists'.mp fun rejected => ?_
  rw [isReserved_of_reject opens rejected] at free
  cases free

/-- **A refused token that begins its line is kept**, if it can begin a statement and no body is
open. -/
theorem keeps_of_beginsLine (suffix : attempt.rest <:+ source.tokens)
    (outside : attempt.openBodies = 0) (failed : attempt.statement.1 = .error mishap)
    (closed : mishap.openBodies = 0) (opens : mishap.token.kind.opensStatement = true)
    (free : mishap.token.kind.isReserved = false) (begins : source.BeginsLine mishap.token) :
    attempt.statement.2.Keeps mishap := by
  refine ⟨(openBodies_statement_of_error failed).trans (by rw [outside, closed]), ?_⟩
  have inside : mishap.token ≠ attempt.final := by
    intro same
    rw [same, attempt.final_kind] at opens
    cases opens
  obtain ⟨token, tokens, front⟩ :=
    List.exists_cons_of_ne_nil (List.ne_nil_of_mem (token_mem_rest failed inside))
  have later : mishap.lineBefore attempt.statement.2.trail < mishap.token.line := by
    cases accepted : (Position.statement StatementSite.goal).accept? token with
    | some next =>
        simp only [statement, read, front, Position.read_of_accept accepted] at failed ⊢
        obtain ⟨used, last, behind, whole, stops, same⟩ :=
          Position.lineBefore_of_error rfl failed
        obtain ⟨more, rfl⟩ := stops.exists_cons inside
        obtain ⟨earlier, split_⟩ := suffix
        rw [front, whole] at split_
        have split_ : source.tokens = (earlier ++ (used ++ [last])) ++ mishap.token :: more := by
          rw [← split_]
          simp
        rw [same]
        exact begins.line_lt split_ last (by simp)
    | none =>
        simp only [statement, read, front, Position.read_of_reject accepted] at failed
        obtain ⟨rfl, -⟩ := Position.stopAt_of_error failed
        rw [isReserved_of_reject opens accepted] at free
        cases free
  rw [keeps, opens, Bool.true_and]
  exact decide_eq_true later

/-- What a run finds and tells, from a failed attempt on. -/
theorem run_of_failed {parser : Parser} {earlier later : List Parser}
    (split_ : parser.attempts = earlier ++ attempt :: later)
    (failed : attempt.statement.1 = .error mishap) :
    parser.found = earlier.filterMap (fun attempt => attempt.statement.1.toOption) ++
        (attempt.statement.2.recover mishap).found ∧
      parser.setbacks.map Setback.diagnostic =
        (earlier.filterMap setback?).map Setback.diagnostic ++ mishap.diagnostic ::
          (attempt.statement.2.recover mishap).setbacks.map Setback.diagnostic := by
  obtain ⟨more, run⟩ := attempts_of_append parser split_
  have found_ : (attempt :: later).filterMap (fun attempt => attempt.statement.1.toOption) =
      (attempt.statement.2.recover mishap).found := by
    rw [← run]
    exact found_of_error more failed
  have setbacks_ : (attempt :: later).filterMap setback? =
      ⟨attempt.statement.2, mishap⟩ :: (attempt.statement.2.recover mishap).setbacks := by
    rw [← run, ← setbacks_eq_filterMap, setbacks_of_error more failed]
  rw [found, setbacks_eq_filterMap, split_, List.filterMap_append, List.filterMap_append, found_,
    setbacks_, List.map_append]
  exact ⟨rfl, rfl⟩

/-- **Where the rest of a text begins with a statement**, a parser goes on as a new one in front of
that rest. -/
theorem shifts_of_opensStatement {next : Parser} {before more : List Token} {token : Token}
    {front back : List Char} (parts : source.Parts before (token :: more) front back)
    (rest : next.rest = token :: more) (final : next.final = source.endToken)
    (outside : next.openBodies = 0) (opens : token.kind.opensStatement = true)
    (free : token.kind.isReserved = false) :
    (ofSource (.ofText back)).Shifts (Utf8.size front) (front.count '\n') next := by
  obtain ⟨tokens, endToken⟩ := parts.tokens_back
  refine ⟨rest.trans tokens, final.trans endToken, outside, .inr ?_⟩
  obtain ⟨first, others, here, rfl, -⟩ := List.map_eq_cons_iff.mp tokens.symm
  obtain ⟨position, accepted⟩ := @accept?_of_opensStatement first opens free
  exact ⟨first, others, position, here, accepted⟩

/-- **Recovery at a token that begins its line restarts cleanly.**  With a listener that never gives
up, whenever a statement is refused where no body is open, at a token that begins its line, can
begin a statement and is not reserved for control flow, the statements and diagnostics that follow
are those of the text from that token on, read on its own, further back.  It does not matter whether
the token had been used up.  (Such a token is never on the first line, for another one stands in
front of it.) -/
theorem restarts_at_line {σ : Type} [Listener σ] {listener : σ}
    (resumes : Listener.Resumes listener) (source : Source) {earlier later : List Parser}
    {attempt : Parser} {mishap : Mishap}
    (split_ : (ofSource source).attempts = earlier ++ attempt :: later)
    (failed : attempt.statement.1 = .error mishap) (closed : mishap.openBodies = 0)
    (opens : mishap.token.kind.opensStatement = true) (free : mishap.token.kind.isReserved = false)
    (begins : source.BeginsLine mishap.token) :
    ∃ front back, source.text = front ++ back ∧ Utf8.size front = mishap.token.span.start ∧
      (unit listener (ofSource source)).1 = .ok ⟨[],
        earlier.filterMap (fun attempt => attempt.statement.1.toOption) ++
          (bodyOf back).map (Statement.relocate (.shift mishap.token.span.start))⟩ ∧
      (unit listener (ofSource source)).2.2 = Listener.told listener
        ((earlier.filterMap setback?).map Setback.diagnostic ++ mishap.diagnostic ::
          (diagnosticsOf back).map (Diagnostic.relocate (.shift mishap.token.span.start))) := by
  obtain ⟨suffix, final, outside⟩ := rest_of_mem_attempts (ofSource source) rfl
    (show attempt ∈ _ from split_ ▸ List.mem_append_right earlier List.mem_cons_self)
  have kept := keeps_of_beginsLine suffix outside failed closed opens free begins
  obtain ⟨⟨used, behind, rest, stops⟩, -⟩ := statement_refused failed
  obtain ⟨more, rfl, restNext⟩ := rest_recover_of_keeps kept stops
  obtain ⟨before, whole⟩ := suffix
  rw [rest, ← List.append_assoc] at whole
  obtain ⟨front, back, parts⟩ := Source.exists_parts whole.symm
  have start := (parts.start_of_head rfl).1
  have shifts := shifts_of_opensStatement parts restNext (final_recover.trans final)
    openBodies_recover opens free
  obtain ⟨foundLater, toldLater⟩ := shifts.run
  obtain ⟨foundAll, toldAll⟩ := run_of_failed split_ failed
  obtain ⟨result, told⟩ := unit_of_resumes resumes (ofSource source)
  refine ⟨front, back, parts.text, start.symm, ?_, ?_⟩
  · rw [result, foundAll, foundLater, start, bodyOf_eq_found]
  · rw [told, toldAll, toldLater, start, diagnosticsOf_eq_setbacks]

/-- A name is refused and left among the arguments of a call, and a keyword is refused and used up
behind a parenthesis; both begin their lines. -/
theorem restarts_behind_arguments :
    (∃ front back, "call f(1\nb = (2\nreturn 3\n)".toList = front ++ back ∧ Utf8.size front = 9 ∧
      (unit (Transcript.always .resume)
        (ofSource (.ofString "call f(1\nb = (2\nreturn 3\n)"))).1 =
          .ok ⟨[], (bodyOf back).map (Statement.relocate (.shift 9))⟩ ∧
      (unit (Transcript.always .resume)
        (ofSource (.ofString "call f(1\nb = (2\nreturn 3\n)"))).2.2 =
          Listener.told (Transcript.always .resume) (⟨.commaExpected, ⟨9, 10⟩⟩ ::
            (diagnosticsOf back).map (Diagnostic.relocate (.shift 9)))) ∧
    ∃ front back, "b = (2\nreturn 3\n)".toList = front ++ back ∧ Utf8.size front = 7 ∧
      (unit (Transcript.always .resume) (ofSource (.ofString "b = (2\nreturn 3\n)"))).1 =
          .ok ⟨[], (bodyOf back).map (Statement.relocate (.shift 7))⟩ ∧
      (unit (Transcript.always .resume) (ofSource (.ofString "b = (2\nreturn 3\n)"))).2.2 =
          Listener.told (Transcript.always .resume) (⟨.rightParenthesisExpected, ⟨7, 13⟩⟩ ::
            (diagnosticsOf back).map (Diagnostic.relocate (.shift 7))) := by
  constructor
  · have failed := mishap_setback?.mp (show
      (ofSource (.ofString "call f(1\nb = (2\nreturn 3\n)")).setback?.map Setback.mishap =
        some ⟨⟨.identifier, "b", ⟨9, 10⟩, 1⟩, ⟨.commaExpected, false⟩, 0⟩ by decide +kernel)
    have more : (ofSource (.ofString "call f(1\nb = (2\nreturn 3\n)")).rest ≠ [] := by
      decide +kernel
    exact @restarts_at_line _ _ _ Transcript.resumes_always
      (.ofString "call f(1\nb = (2\nreturn 3\n)") [] _ _ _ (attempts_of_error more failed) failed
      rfl rfl rfl (by unfold Source.BeginsLine; decide +kernel)
  · have failed := mishap_setback?.mp (show
      (ofSource (.ofString "b = (2\nreturn 3\n)")).setback?.map Setback.mishap =
        some ⟨⟨.keyword .return, "return", ⟨7, 13⟩, 1⟩, ⟨.rightParenthesisExpected, true⟩, 0⟩ by
      decide +kernel)
    have more : (ofSource (.ofString "b = (2\nreturn 3\n)")).rest ≠ [] := by decide +kernel
    exact @restarts_at_line _ _ _ Transcript.resumes_always
      (.ofString "b = (2\nreturn 3\n)") [] _ _ _ (attempts_of_error more failed) failed rfl rfl rfl
      (by unfold Source.BeginsLine; decide +kernel)

end Parser

end SlotCompiler
