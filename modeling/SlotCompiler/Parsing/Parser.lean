import SlotCompiler.Parsing.Reading
import SlotCompiler.Token.Cursor

/-!
# Parsing with recovery

A parser goes through the tokens of a source.  `expression` reads one expression and gives up
at the first mishap.  `unit` reads statements up to the end; it hands every mishap to a listener
and, if the listener says so, looks for the next statement (`recover`):

* Inside function bodies, tokens are dropped until the braces of the open bodies are closed,
  and then the rest of the line of the last token dropped.
* Elsewhere, a refused token that can begin a statement and is the first to be used up on its
  line is kept as the beginning of the next statement.  Otherwise the rest of its line is
  dropped.

A kept token is used up for a second time, and then it is no longer the first on its line;
that is why `unit` ends.
-/

set_option autoImplicit false

namespace SlotCompiler

/-- The state of a parser. -/
structure Parser where
  /-- The tokens still to come. -/
  rest : List Token
  /-- The end-of-file token behind them. -/
  final : Token
  final_kind : final.kind = .endOfFile
  trail : Trail := {}
  /-- The function bodies left open by mishaps that were not recovered from. -/
  openBodies : Nat := 0
  /-- The number of mishaps recovered from. -/
  recovered : Nat := 0

namespace Parser

/-- A parser in front of a source. -/
def ofSource (source : Source) : Parser where
  rest := source.tokens
  final := source.endToken
  final_kind := source.kind_endToken

/-- Reads towards a goal.  A mishap leaves the bodies around it open. -/
def read (parser : Parser) {goal : Goal} (position : Position goal) :
    Except Mishap goal.Result × Parser :=
  let reading := position.read parser.final parser.trail parser.rest
  let left :=
    match reading.outcome with
    | .ok _ => 0
    | .error mishap => mishap.openBodies
  (reading.outcome,
    { parser with
      rest := reading.rest
      trail := reading.trail
      openBodies := parser.openBodies + left })

/-! ## Recovery -/

/-- Drops tokens until a number of bodies is closed, and gives the line of the last token
dropped; `line` is that of the token before.  At the end every body counts as closed. -/
def closeBodies (final : Token) : Nat → Nat → List Token → List Token × Nat
  | 0, line, tokens => (tokens, line)
  | _ + 1, _, [] => ([], final.line)
  | depth + 1, _, token :: tokens =>
    if token.kind = .symbol .leftBrace then closeBodies final (depth + 2) token.line tokens
    else if token.kind = .symbol .rightBrace then closeBodies final depth token.line tokens
    else closeBodies final (depth + 1) token.line tokens

/-- Drops the tokens at the front that stand on a line. -/
def dropLine (line : Nat) (tokens : List Token) : List Token :=
  tokens.dropWhile fun token => token.line == line

/-- Whether a refused token begins the next statement: it can begin one, and the token used up
before it stands on an earlier line. -/
def keeps (mishap : Mishap) (trail : Trail) : Bool :=
  let before := if mishap.refusal.consumed then trail.previous else trail.last
  mishap.token.kind.opensStatement && before < mishap.token.line

/-- Moves on from a mishap to where the next statement is looked for. -/
def recover (parser : Parser) (mishap : Mishap) : Parser :=
  let parser := { parser with recovered := parser.recovered + 1 }
  if parser.openBodies > 0 then
    let closes := mishap.refusal.consumed && mishap.token.kind == .symbol .rightBrace
    let depth := if closes then parser.openBodies - 1 else parser.openBodies
    let (rest, line) := closeBodies parser.final depth parser.trail.last parser.rest
    { parser with
      rest := dropLine line rest
      trail := { parser.trail with last := line }
      openBodies := 0 }
  else if keeps mishap parser.trail then
    if mishap.refusal.consumed then { parser with rest := mishap.token :: parser.rest }
    else parser
  else { parser with rest := dropLine mishap.token.line parser.rest }

/-! ## Entry points -/

/-- Reads one expression. -/
def expression (parser : Parser) : Except Diagnostic Expression × Parser :=
  let (outcome, parser) := parser.read (.operand {} (.goal : ExpressionSite .expression))
  (outcome.mapError Mishap.diagnostic, parser)

/-- Reads one statement. -/
def statement (parser : Parser) : Except Mishap Statement × Parser :=
  parser.read (.statement (.goal : StatementSite .statement))

/-! ## Reading statements ends -/

/-- A bound on the statements still to be tried: two for every token to come, and one more if
the next token is the first of its line, since it may be kept. -/
def budget (parser : Parser) : Nat :=
  2 * parser.rest.length +
    match parser.rest with
    | [] => 0
    | token :: _ => if parser.trail.last < token.line then 1 else 0

theorem length_closeBodies_le (final : Token) (depth line : Nat) (tokens : List Token) :
    (closeBodies final depth line tokens).1.length ≤ tokens.length := by
  induction tokens generalizing depth line with
  | nil => cases depth <;> exact Nat.le_refl _
  | cons token tokens ih =>
    cases depth with
    | zero => exact Nat.le_refl _
    | succ depth =>
      unfold closeBodies
      split
      · exact Nat.le_succ_of_le (ih _ _)
      · split <;> exact Nat.le_succ_of_le (ih _ _)

theorem length_dropLine_le (line : Nat) (tokens : List Token) :
    (dropLine line tokens).length ≤ tokens.length :=
  (List.dropWhile_suffix _).length_le

theorem budget_le (parser : Parser) : parser.budget ≤ 2 * parser.rest.length + 1 := by
  unfold budget
  split
  · omega
  · split <;> omega

/-- A statement uses up the first token, whether that token fits or is refused. -/
theorem statement_of_cons {parser : Parser} {token : Token} {tokens : List Token}
    (front : parser.rest = token :: tokens) :
    (∃ next : Position .statement,
      let reading := next.read parser.final (parser.trail.push token) tokens
      parser.statement.1 = reading.outcome ∧ parser.statement.2.rest = reading.rest ∧
        parser.statement.2.trail = reading.trail) ∨
    (∃ problem openBodies,
      parser.statement.1 = .error ⟨token, ⟨problem, true⟩, openBodies⟩ ∧
        parser.statement.2.rest = tokens ∧
        parser.statement.2.trail = parser.trail.push token) := by
  cases parser with
  | mk rest final final_kind trail openBodies recovered =>
    obtain rfl : rest = token :: tokens := front
    unfold statement read
    cases accepted : (Position.statement StatementSite.goal).accept? token with
    | some next => exact .inl ⟨next, by simp only [Position.read_of_accept accepted, and_self]⟩
    | none =>
      refine .inr ⟨(StatementSite.goal.refuse token).problem, 0, ?_⟩
      simp only [Position.read_of_reject accepted]
      exact ⟨rfl, rfl, rfl⟩

theorem statement_final (parser : Parser) : parser.statement.2.final = parser.final := rfl

/-- Every statement that is read leaves less to be tried. -/
theorem budget_statement_lt {parser : Parser} (more : parser.rest ≠ []) {statement : Statement}
    (done : parser.statement.1 = .ok statement) :
    parser.statement.2.budget < parser.budget := by
  obtain ⟨token, tokens, front⟩ := List.exists_cons_of_ne_nil more
  have bound := budget_le parser.statement.2
  have whole : 2 * (tokens.length + 1) ≤ parser.budget := by
    unfold budget; rw [front]; simp only [List.length_cons]; omega
  rcases statement_of_cons front with ⟨next, _, rest, _⟩ | ⟨problem, bodies, error, _, _⟩
  · have := Position.length_rest_read_le parser.final next (parser.trail.push token) tokens
    rw [rest] at bound
    omega
  · rw [error] at done
    cases done

/-- Dropping tokens from behind the first one leaves less to be tried. -/
theorem budget_lt_of_rest {parser next : Parser} {token : Token} {tokens : List Token}
    (front : parser.rest = token :: tokens) (bound : next.rest.length ≤ tokens.length) :
    next.budget < parser.budget := by
  have := budget_le next
  have : 2 * (tokens.length + 1) ≤ parser.budget := by
    unfold budget; rw [front]; simp only [List.length_cons]; omega
  omega

/-- Every mishap that is recovered from leaves less to be tried. -/
theorem budget_recover_lt {parser : Parser} (more : parser.rest ≠ []) {mishap : Mishap}
    (failed : parser.statement.1 = .error mishap) :
    (parser.statement.2.recover mishap).budget < parser.budget := by
  obtain ⟨token, tokens, front⟩ := List.exists_cons_of_ne_nil more
  have rest_le : parser.statement.2.rest.length ≤ tokens.length := by
    rcases statement_of_cons front with ⟨next, _, rest, _⟩ | ⟨_, _, _, rest, _⟩
    · rw [rest]; exact Position.length_rest_read_le _ _ _ _
    · exact Nat.le_of_eq (congrArg List.length rest)
  unfold recover
  dsimp only
  split
  · exact budget_lt_of_rest front
      (Nat.le_trans (length_dropLine_le _ _) (Nat.le_trans (length_closeBodies_le _ _ _ _) rest_le))
  · split
    · rename_i kept
      split
      · rename_i consumed
        rcases statement_of_cons front with
          ⟨next, outcome, rest, trail⟩ | ⟨_, _, error, rest, trail⟩
        · rw [outcome] at failed
          obtain ⟨shorter, last⟩ := Position.read_consumed failed consumed
          rw [← rest] at shorter
          rw [← trail] at last
          rcases shorter with same | shorter
          · simp [keeps, same, parser.final_kind, Token.Kind.opensStatement] at kept
          · have : 2 * (tokens.length + 1) ≤ parser.budget := by
              unfold budget; rw [front]; simp only [List.length_cons]; omega
            refine Nat.lt_of_lt_of_le ?_ this
            simp only [budget, last, Nat.lt_irrefl, if_false, List.length_cons]
            omega
        · rw [error] at failed
          cases failed
          simp only [keeps, trail, Trail.push, Bool.and_eq_true, decide_eq_true_eq, if_true] at kept
          simp only [budget, rest, trail, front, Trail.push, Nat.lt_irrefl, if_false,
            List.length_cons, kept.2, if_true]
          omega
      · exact budget_lt_of_rest front rest_le
    · exact budget_lt_of_rest front (Nat.le_trans (length_dropLine_le _ _) rest_le)

/-! ## Units -/

/-- Reads statements up to the end, and hands every mishap to a listener. -/
def statements {σ : Type} [Listener σ] (listener : σ) (parser : Parser) :
    Except Diagnostic (List Statement) × Parser × σ :=
  if _ : parser.rest = [] then (.ok [], parser, listener)
  else
    match _ : parser.statement.1 with
    | .ok statement =>
      let (outcome, next) := statements listener parser.statement.2
      (outcome.map (statement :: ·), next)
    | .error mishap =>
      match Listener.tell listener mishap.diagnostic with
      | (.resume, listener) => statements listener (parser.statement.2.recover mishap)
      | (.stop, listener) => (.error mishap.diagnostic, parser.statement.2, listener)
termination_by parser.budget
decreasing_by
  · exact budget_statement_lt ‹_› ‹_›
  · exact budget_recover_lt ‹_› ‹_›

/-- Reads a whole source: a function without parameters. -/
def unit {σ : Type} [Listener σ] (listener : σ) (parser : Parser) :
    Except Diagnostic FunctionSource × Parser × σ :=
  let (outcome, next) := statements listener parser
  (outcome.map (⟨[], ·⟩), next)

end Parser

end SlotCompiler
