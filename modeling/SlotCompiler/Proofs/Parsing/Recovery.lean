import SlotCompiler.Proofs.Parsing.Completeness
import SlotCompiler.Proofs.Parsing.Run

/-!
# Where reading is refused and where it goes on

Some tokens never fit (`Position.accept?_of_improper`).  Reading fails at a token to which it has
been led and at which it halts (`Position.read_of_error`): one of the tokens to come, or the last
one of all.  The token is refused because something else was expected or as control flow
(`Refusal.Of`), and it is used up or left (`Mishap.StopsAt`).  A parser that recovers goes on at the
refused token if it keeps it (`Parser.Keeps`), and behind it otherwise.  It never goes back: what
remains to be read is always an end part of what remained before (`Parser.remaining_statement`,
`Parser.remaining_recover`).
-/

set_option autoImplicit false

namespace SlotCompiler

/-! ## Tokens that never fit -/

/-- Whether a kind is that of a token of the vocabulary. -/
def Token.Kind.isProper : Token.Kind → Bool
  | .invalid | .endOfFile => false
  | _ => true

section Improper

variable {goal : Goal} {token : Token}

theorem Token.Kind.eq_of_improper {kind : Token.Kind} (improper : kind.isProper = false) :
    kind = .invalid ∨ kind = .endOfFile := by
  cases kind with
  | invalid => exact .inl rfl
  | endOfFile => exact .inr rfl
  | _ => cases improper

theorem StatementSite.accept?_of_improper (improper : token.kind.isProper = false)
    (site : StatementSite goal) : site.accept? token = none := by
  rcases Token.Kind.eq_of_improper improper with kind | kind <;> cases site <;>
    simp [accept?, Position.acceptStatement?, Position.acceptOperand?, kind]

theorem StatementSite.acceptAfter?_of_improper (improper : token.kind.isProper = false)
    (site : StatementSite goal) (statement : Statement) :
    site.acceptAfter? statement token = none := by
  cases site with
  | goal => rfl
  | body parameters earlier mark pending outer =>
      exact StatementSite.accept?_of_improper improper
        (.body parameters (earlier ++ [statement]) mark pending outer)

theorem ExpressionSite.acceptAfter?_of_improper (improper : token.kind.isProper = false)
    (site : ExpressionSite goal) (value : Expression) : site.acceptAfter? value token = none := by
  cases site with
  | goal => rfl
  | parenthesis | callee | argument =>
      rcases Token.Kind.eq_of_improper improper with kind | kind <;> simp [acceptAfter?, kind]
  | initializer name outer => exact outer.acceptAfter?_of_improper improper _
  | returned outer => exact outer.acceptAfter?_of_improper improper _
  | leading outer =>
      rw [acceptAfter?, outer.acceptAfter?_of_improper improper]
      rcases Token.Kind.eq_of_improper improper with kind | kind <;> simp [kind]
  | assigned target outer => exact outer.acceptAfter?_of_improper improper _

/-- **Neither a character outside the vocabulary nor the end ever fits.** -/
theorem Position.accept?_of_improper (improper : token.kind.isProper = false)
    (position : Position goal) : position.accept? token = none := by
  cases position with
  | statement site => exact site.accept?_of_improper improper
  | operator value pending site =>
      rw [accept?, acceptOperator?, site.acceptAfter?_of_improper improper]
      rcases Token.Kind.eq_of_improper improper with kind | kind <;> simp [kind]
  | _ =>
      rcases Token.Kind.eq_of_improper improper with kind | kind <;>
        simp [accept?, acceptOperand?, kind]

theorem Position.Leads.isProper {position last : Position goal} {tokens : List Token}
    (leads : position.Leads tokens last) : ∀ token ∈ tokens, token.kind.isProper = true := by
  induction leads with
  | here position => exact List.forall_mem_nil _
  | step fits further ih =>
      refine List.forall_mem_cons.mpr ⟨?_, ih⟩
      by_contra other
      rw [accept?_of_improper (Bool.eq_false_iff.mpr other)] at fits
      cases fits

theorem Position.Leads.kind_ne_invalid {position last : Position goal} {tokens : List Token}
    (leads : position.Leads tokens last) : ∀ token ∈ tokens, token.kind ≠ .invalid := by
  intro token member foreign
  have proper := leads.isProper token member
  rw [foreign] at proper
  cases proper

end Improper

/-! ## Where reading is refused -/

/-- Whether a problem is that something was expected and something else stands there. -/
def Problem.isExpectation : Problem → Bool
  | .invalidCharacter | .controlFlow => false
  | .unknownIdentifier _ | .notAssignable | .integerOutOfRange => false
  | _ => true

/-- How a token is refused: something else was expected, and it is left or used up, or it is used up
as a keyword reserved for control flow. -/
inductive Refusal.Of (token : Token) : Refusal → Prop where
  | left {problem : Problem} (expected : problem.isExpectation = true) : Of token (.leave problem)
  | used {problem : Problem} (expected : problem.isExpectation = true) :
      Of token (.consume problem token)
  | controlFlow (reserved : token.kind.isReserved = true) : Of token (.consume .controlFlow token)

section Refused

variable {goal : Goal} {token : Token} {refusal : Refusal}

/-- Only a reserved keyword is refused as control flow, and it is used up. -/
theorem Refusal.Of.isReserved (refused : Refusal.Of token refusal)
    (flow : refusal.problem = .controlFlow) :
    refusal.consumed = true ∧ token.kind.isReserved = true := by
  cases refused with
  | left expected =>
      cases flow
      cases expected
  | used expected =>
      rw [consume] at flow
      split at flow
      · cases flow
      · cases flow
        cases expected
  | controlFlow reserved => exact ⟨rfl, reserved⟩

theorem StatementSite.of_refuse {site : StatementSite goal} :
    Refusal.Of token (site.refuse token) := by
  have opening : Refusal.Of token
      (.consume (if token.kind.isReserved then .controlFlow else .expressionExpected) token) := by
    split
    · exact .controlFlow ‹_›
    · exact .used rfl
  cases site with
  | goal => exact opening
  | body =>
      rw [refuse]
      split
      · exact .left rfl
      · exact opening

theorem StatementSite.of_haltAfter {site : StatementSite goal} {statement : Statement}
    (halted : site.haltAfter statement token = .error refusal) : Refusal.Of token refusal := by
  cases site with
  | goal => cases halted
  | body =>
      cases halted
      exact StatementSite.of_refuse

theorem ExpressionSite.of_haltAfter {site : ExpressionSite goal} {value : Expression}
    (halted : site.haltAfter value token = .error refusal) : Refusal.Of token refusal := by
  cases site with
  | goal => cases halted
  | parenthesis | callee =>
      cases halted
      exact .used rfl
  | argument =>
      cases halted
      exact .left rfl
  | initializer | returned | leading | assigned => exact StatementSite.of_haltAfter halted

/-- **How a position refuses a token.** -/
theorem Position.of_halt {position : Position goal}
    (halted : position.halt token = .error refusal) : Refusal.Of token refusal := by
  cases position with
  | statement site =>
      cases halted
      exact StatementSite.of_refuse
  | operator => exact ExpressionSite.of_haltAfter halted
  | parameterEnd =>
      cases halted
      exact .left rfl
  | _ =>
      cases halted
      exact .used rfl

end Refused

/-- The tokens in front of which reading was refused, and those that it left: the refused token is
used up or not, or it is the last one of all. -/
inductive Mishap.StopsAt (final : Token) (mishap : Mishap) : List Token → List Token → Prop where
  | final (same : mishap.token = final) : StopsAt final mishap [] []
  | used {more : List Token} (consumed : mishap.refusal.consumed = true) :
      StopsAt final mishap (mishap.token :: more) more
  | left {more : List Token} (consumed : mishap.refusal.consumed = false) :
      StopsAt final mishap (mishap.token :: more) (mishap.token :: more)

/-- The refused token is the first one of those that remain in front of it. -/
theorem Mishap.StopsAt.head {final : Token} {mishap : Mishap} {behind rest : List Token}
    (stops : mishap.StopsAt final behind rest) :
    (behind ++ [final]).head? = some mishap.token := by
  cases stops with
  | final same => exact congrArg some same.symm
  | used consumed => rfl
  | left consumed => rfl

theorem Mishap.StopsAt.mem {final : Token} {mishap : Mishap} {behind rest : List Token}
    (stops : mishap.StopsAt final behind rest) : mishap.token ∈ behind ++ [final] :=
  List.mem_of_head? stops.head

/-- A refused token that is not the last one of all is one of those to come. -/
theorem Mishap.StopsAt.exists_cons {final : Token} {mishap : Mishap} {behind rest : List Token}
    (stops : mishap.StopsAt final behind rest) (inside : mishap.token ≠ final) :
    ∃ more, behind = mishap.token :: more := by
  cases stops with
  | final same => exact absurd same inside
  | used consumed => exact ⟨_, rfl⟩
  | left consumed => exact ⟨_, rfl⟩

namespace Position

variable {goal : Goal} {position : Position goal} {final : Token} {trail : Trail}
  {tokens : List Token} {mishap : Mishap}

/-- Ending at a token with success is halting there. -/
theorem stopAt_of_ok {token : Token} {kept used : List Token} {result : goal.Result}
    (done : (position.stopAt token kept used trail).outcome = .ok result) :
    position.halt token = .ok result ∧ (position.stopAt token kept used trail).rest = kept := by
  unfold stopAt at done ⊢
  cases halted : position.halt token with
  | ok value =>
      rw [halted] at done
      cases done
      exact ⟨rfl, rfl⟩
  | error refusal =>
      rw [halted] at done
      dsimp only at done
      split at done <;> cases done

/-- Ending at a token without success is halting there for the reason of the mishap. -/
theorem stopAt_of_error {token : Token} {kept used : List Token}
    (failed : (position.stopAt token kept used trail).outcome = .error mishap) :
    mishap.token = token ∧ position.halt token = .error mishap.refusal ∧
      mishap.openBodies = position.openBodies ∧
      position.stopAt token kept used trail =
        if mishap.refusal.consumed then ⟨.error mishap, used, trail.push token⟩
        else ⟨.error mishap, kept, trail⟩ := by
  unfold stopAt at failed ⊢
  cases halted : position.halt token with
  | ok result =>
      rw [halted] at failed
      cases failed
  | error refusal =>
      simp only [halted] at failed ⊢
      by_cases consumed : refusal.consumed = true
      · rw [if_pos consumed] at failed ⊢
        cases failed
        exact ⟨rfl, rfl, rfl, (if_pos consumed).symm⟩
      · rw [if_neg consumed] at failed ⊢
        cases failed
        exact ⟨rfl, rfl, rfl, (if_neg consumed).symm⟩

theorem stopsAt_of_stopAt {token : Token} {tokens : List Token}
    (failed : (position.stopAt token (token :: tokens) tokens trail).outcome = .error mishap) :
    mishap.StopsAt final (token :: tokens)
      (position.stopAt token (token :: tokens) tokens trail).rest := by
  obtain ⟨rfl, -, -, reading⟩ := stopAt_of_error failed
  rw [reading]
  by_cases consumed : mishap.refusal.consumed = true
  · rw [if_pos consumed]
    exact .used consumed
  · rw [if_neg consumed]
    exact .left (Bool.eq_false_iff.mpr consumed)

/-- **Reading that fails has been led to a token at which it halts**: one of the tokens, or the last
one of all. -/
theorem read_of_error (failed : (position.read final trail tokens).outcome = .error mishap) :
    ∃ used behind last, tokens = used ++ behind ∧ position.Leads used last ∧
      last.halt mishap.token = .error mishap.refusal ∧ mishap.openBodies = last.openBodies ∧
      mishap.StopsAt final behind (position.read final trail tokens).rest := by
  induction tokens generalizing position trail with
  | nil =>
      obtain ⟨same, halted, bodies, reading⟩ := stopAt_of_error failed
      refine ⟨[], [], position, rfl, .here _, same ▸ halted, bodies, ?_⟩
      rw [read, reading]
      split <;> exact .final same
  | cons token tokens ih =>
      cases accepted : position.accept? token with
      | some next =>
          rw [read_of_accept accepted] at failed ⊢
          obtain ⟨used, behind, last, rfl, leads, further⟩ := ih failed
          exact ⟨token :: used, behind, last, rfl, .step accepted leads, further⟩
      | none =>
          rw [read_of_reject accepted] at failed ⊢
          obtain ⟨same, halted, bodies, -⟩ := stopAt_of_error failed
          exact ⟨[], _, position, rfl, .here _, same ▸ halted, bodies, stopsAt_of_stopAt failed⟩

/-- Reading that succeeds has been led to a token at which the goal is complete. -/
theorem read_of_ok {result : goal.Result}
    (done : (position.read final trail tokens).outcome = .ok result) :
    ∃ used last token, tokens = used ++ (position.read final trail tokens).rest ∧
      position.Leads used last ∧ last.halt token = .ok result := by
  induction tokens generalizing position trail with
  | nil =>
      obtain ⟨halted, rest⟩ := stopAt_of_ok done
      exact ⟨[], position, final, rest.symm, .here _, halted⟩
  | cons token tokens ih =>
      cases accepted : position.accept? token with
      | some next =>
          rw [read_of_accept accepted] at done ⊢
          obtain ⟨used, last, stop, whole, leads, halted⟩ := ih done
          exact ⟨token :: used, last, stop, congrArg (token :: ·) whole, .step accepted leads,
            halted⟩
      | none =>
          rw [read_of_reject accepted] at done ⊢
          obtain ⟨halted, rest⟩ := stopAt_of_ok done
          exact ⟨[], position, token, rest.symm, .here _, halted⟩

/-- **Reading is refused at one of the tokens**, or at the last one of all. -/
theorem read_refused (failed : (position.read final trail tokens).outcome = .error mishap) :
    (∃ used behind, tokens = used ++ behind ∧
      mishap.StopsAt final behind (position.read final trail tokens).rest) ∧
    (mishap.refusal.problem = .controlFlow →
      mishap.refusal.consumed = true ∧ mishap.token.kind.isReserved = true) := by
  obtain ⟨used, behind, last, rfl, -, halted, -, stops⟩ := read_of_error failed
  exact ⟨⟨used, behind, rfl, stops⟩, (of_halt halted).isReserved⟩

/-- What is read ends before the tokens that are left. -/
theorem rest_read_suffix : (position.read final trail tokens).rest <:+ tokens := by
  induction tokens generalizing position trail with
  | nil =>
      have none := Nat.le_zero.mp (length_rest_read_le final position trail [])
      exact List.suffix_nil.mpr (List.length_eq_zero_iff.mp none)
  | cons token tokens ih =>
      cases accepted : position.accept? token with
      | some next =>
          rw [read_of_accept accepted]
          exact ih.trans (List.suffix_cons _ _)
      | none =>
          rw [read_of_reject accepted, stopAt]
          cases position.halt token with
          | ok result => exact List.suffix_refl _
          | error refusal =>
              dsimp only
              split
              · exact List.suffix_cons _ _
              · exact List.suffix_refl _

end Position

/-! ## Where a parser goes on -/

namespace Parser

variable {parser : Parser} {mishap : Mishap}

/-- Whether the refused token is kept, behind the mishap. -/
def Keeps (parser : Parser) (mishap : Mishap) : Prop :=
  parser.openBodies = 0 ∧ keeps mishap parser.trail = true

theorem statement_refused (failed : parser.statement.1 = .error mishap) :
    (∃ used behind, parser.rest = used ++ behind ∧
      mishap.StopsAt parser.final behind parser.statement.2.rest) ∧
    (mishap.refusal.problem = .controlFlow →
      mishap.refusal.consumed = true ∧ mishap.token.kind.isReserved = true) :=
  Position.read_refused failed

theorem final_recover : (parser.recover mishap).final = parser.final := by
  unfold recover
  dsimp only
  split
  · rfl
  · split
    · split <;> rfl
    · rfl

theorem closeBodies_suffix (final : Token) (depth line : Nat) (tokens : List Token) :
    (closeBodies final depth line tokens).1 <:+ tokens := by
  fun_induction closeBodies final depth line tokens with
  | case1 => exact List.suffix_refl _
  | case2 => exact List.suffix_refl _
  | case3 _ _ _ _ _ ih => exact ih.trans (List.suffix_cons _ _)
  | case4 _ _ _ _ _ _ ih => exact ih.trans (List.suffix_cons _ _)
  | case5 _ _ _ _ _ _ ih => exact ih.trans (List.suffix_cons _ _)

theorem opensStatement_of_keeps {trail : Trail} (kept : keeps mishap trail = true) :
    mishap.token.kind.opensStatement = true := by
  rw [keeps, Bool.and_eq_true] at kept
  exact kept.1

/-- A parser that keeps a token goes on without reading further. -/
theorem recover_of_keeps (kept : parser.Keeps mishap) : parser.recover mishap =
    { parser with
      recovered := parser.recovered + 1
      rest := if mishap.refusal.consumed then mishap.token :: parser.rest else parser.rest } := by
  unfold recover
  dsimp only
  rw [if_neg (by rw [kept.1]; exact Nat.lt_irrefl 0), if_pos kept.2]
  split <;> rfl

theorem trail_recover_of_keeps (kept : parser.Keeps mishap) :
    (parser.recover mishap).trail = parser.trail := by
  rw [recover_of_keeps kept]

/-- A token that is kept is the next one. -/
theorem rest_recover_of_keeps {behind : List Token} (kept : parser.Keeps mishap)
    (stops : mishap.StopsAt parser.final behind parser.rest) :
    ∃ more, behind = mishap.token :: more ∧
      (parser.recover mishap).rest = mishap.token :: more := by
  rw [recover_of_keeps kept]
  generalize parser.rest = rest at stops
  cases stops with
  | final same =>
      have opens := opensStatement_of_keeps kept.2
      rw [same, parser.final_kind] at opens
      cases opens
  | used consumed => exact ⟨rest, rfl, if_pos consumed⟩
  | @left more consumed => exact ⟨more, rfl, if_neg (Bool.eq_false_iff.mp consumed)⟩

/-- Without a token that is kept, the parser goes on behind the refused token. -/
theorem rest_recover_of_not_keeps {behind : List Token} (dropped : ¬ parser.Keeps mishap)
    (stops : mishap.StopsAt parser.final behind parser.rest) :
    (parser.recover mishap).rest <:+ behind.tail := by
  unfold recover
  dsimp only
  generalize parser.rest = rest at stops
  by_cases bodies : parser.openBodies > 0
  · rw [if_pos bodies]
    refine (List.dropWhile_suffix _).trans ?_
    cases stops with
    | final same => exact (closeBodies_suffix _ _ _ _).trans (List.suffix_refl _)
    | used consumed => exact closeBodies_suffix _ _ _ _
    | @left more consumed =>
        obtain ⟨depth, some⟩ := Nat.exists_eq_succ_of_ne_zero (Nat.ne_of_gt bodies)
        rw [consumed, Bool.false_and, if_neg Bool.false_ne_true, some, closeBodies]
        split
        · exact closeBodies_suffix _ _ _ _
        · split <;> exact closeBodies_suffix _ _ _ _
  · have outside : parser.openBodies = 0 := Nat.eq_zero_of_not_pos bodies
    rw [if_neg bodies, if_neg fun kept => dropped ⟨outside, kept⟩]
    cases stops with
    | final same => exact List.suffix_refl _
    | used consumed => exact List.dropWhile_suffix _
    | left consumed =>
        simp only [dropLine, List.dropWhile_cons, beq_self_eq_true, if_true, List.tail_cons]
        exact List.dropWhile_suffix _

/-- Outside of all bodies, the rest of the line of a refused token that is not kept is dropped. -/
theorem rest_recover_of_drops (outside : parser.openBodies = 0) (dropped : ¬ parser.Keeps mishap) :
    (parser.recover mishap).rest = dropLine mishap.token.line parser.rest := by
  unfold recover
  dsimp only
  rw [if_neg (by rw [outside]; exact Nat.lt_irrefl 0), if_neg fun kept => dropped ⟨outside, kept⟩]

theorem rest_recover_suffix {behind : List Token}
    (stops : mishap.StopsAt parser.final behind parser.rest) :
    (parser.recover mishap).rest <:+ behind := by
  by_cases kept : parser.Keeps mishap
  · obtain ⟨more, rfl, goesOn⟩ := rest_recover_of_keeps kept stops
    exact goesOn ▸ List.suffix_refl _
  · exact (rest_recover_of_not_keeps kept stops).trans (List.tail_suffix _)

theorem rest_recover_of_error (failed : parser.statement.1 = .error mishap) :
    (parser.statement.2.recover mishap).rest <:+ parser.rest := by
  obtain ⟨⟨used, behind, rest, stops⟩, -⟩ := statement_refused failed
  exact (rest_recover_suffix stops).trans ⟨used, rest.symm⟩

/-! ## Bodies that are left open -/

theorem openBodies_statement_of_ok {statement : Statement}
    (done : parser.statement.1 = .ok statement) :
    parser.statement.2.openBodies = parser.openBodies := by
  unfold Parser.statement read at done ⊢
  dsimp only at done ⊢
  rw [done, Nat.add_zero]

theorem openBodies_statement_of_error (failed : parser.statement.1 = .error mishap) :
    parser.statement.2.openBodies = parser.openBodies + mishap.openBodies := by
  unfold Parser.statement read at failed ⊢
  dsimp only at failed ⊢
  rw [failed]

/-- A parser that has recovered is outside of all bodies. -/
theorem openBodies_recover : (parser.recover mishap).openBodies = 0 := by
  unfold recover
  dsimp only
  split
  · rfl
  · rename_i none
    have outside : parser.openBodies = 0 := Nat.eq_zero_of_not_pos none
    split
    · split <;> exact outside
    · exact outside

/-! ## Attempts -/

/-- In a run the tokens to come only become fewer, and no bodies are open between two attempts. -/
theorem rest_of_mem_attempts {attempt : Parser} (parser : Parser) (outside : parser.openBodies = 0)
    (member : attempt ∈ parser.attempts) :
    attempt.rest <:+ parser.rest ∧ attempt.final = parser.final ∧ attempt.openBodies = 0 := by
  induction parser using run_induction with
  | ended parser none =>
      rw [attempts_of_nil none] at member
      cases member
  | read parser statement more done ih =>
      rw [attempts_of_ok more done] at member
      rcases List.mem_cons.mp member with rfl | later
      · exact ⟨List.suffix_refl _, rfl, outside⟩
      · obtain ⟨suffix, final, none⟩ := ih ((openBodies_statement_of_ok done).trans outside) later
        exact ⟨suffix.trans Position.rest_read_suffix, final, none⟩
  | recovered parser mishap more failed ih =>
      rw [attempts_of_error more failed] at member
      rcases List.mem_cons.mp member with rfl | later
      · exact ⟨List.suffix_refl _, rfl, outside⟩
      · obtain ⟨suffix, final, none⟩ := ih openBodies_recover later
        exact ⟨suffix.trans (rest_recover_of_error failed), final.trans final_recover, none⟩

/-- From each of its attempts on, a run is the run of that attempt. -/
theorem attempts_of_append {earlier later : List Parser} {attempt : Parser} (parser : Parser)
    (split_ : parser.attempts = earlier ++ attempt :: later) :
    attempt.rest ≠ [] ∧ attempt.attempts = attempt :: later := by
  induction parser using run_induction generalizing earlier with
  | ended parser none =>
      rw [attempts_of_nil none] at split_
      cases earlier <;> cases split_
  | read parser statement more done ih =>
      have first := attempts_of_ok more done
      cases earlier with
      | nil =>
          obtain ⟨rfl, same⟩ := List.cons.inj (first.symm.trans split_)
          exact ⟨more, first.trans (congrArg _ same)⟩
      | cons _ earlier => exact ih (List.cons.inj (first.symm.trans split_)).2
  | recovered parser mishap more failed ih =>
      have first := attempts_of_error more failed
      cases earlier with
      | nil =>
          obtain ⟨rfl, same⟩ := List.cons.inj (first.symm.trans split_)
          exact ⟨more, first.trans (congrArg _ same)⟩
      | cons _ earlier => exact ih (List.cons.inj (first.symm.trans split_)).2

/-! ## The tokens of setbacks -/

/-- All tokens that a parser can still refuse. -/
def remaining (parser : Parser) : List Token := parser.rest ++ [parser.final]

theorem remaining_suffix {next : Parser} {tokens : List Token} (final : next.final = parser.final)
    (suffix : next.rest <:+ tokens) : next.remaining <:+ tokens ++ [parser.final] := by
  obtain ⟨before, rfl⟩ := suffix
  exact ⟨before, by rw [remaining, final, List.append_assoc]⟩

theorem remaining_statement : parser.statement.2.remaining <:+ parser.remaining :=
  remaining_suffix rfl Position.rest_read_suffix

theorem remaining_recover (failed : parser.statement.1 = .error mishap) :
    (parser.statement.2.recover mishap).remaining <:+ parser.remaining :=
  remaining_suffix final_recover (rest_recover_of_error failed)

/-- Setbacks are located at tokens that remain. -/
theorem token_mem_remaining (parser : Parser) :
    ∀ setback ∈ parser.setbacks, setback.mishap.token ∈ parser.remaining := by
  induction parser using run_induction with
  | ended parser none =>
      rw [setbacks_of_nil none]
      exact List.forall_mem_nil _
  | read parser statement more done ih =>
      rw [setbacks_of_ok more done]
      exact fun setback member => remaining_statement.subset (ih setback member)
  | recovered parser mishap more failed ih =>
      rw [setbacks_of_error more failed, List.forall_mem_cons]
      refine ⟨?_, fun setback member => (remaining_recover failed).subset (ih setback member)⟩
      obtain ⟨⟨used, behind, rest, stops⟩, -⟩ := statement_refused failed
      rw [remaining, rest, List.append_assoc]
      exact List.mem_append_right used stops.mem

/-- How the tokens of setbacks are refused. -/
theorem refusal_of_mem_setbacks (parser : Parser) :
    ∀ setback ∈ parser.setbacks, Refusal.Of setback.mishap.token setback.mishap.refusal := by
  induction parser using run_induction with
  | ended parser none =>
      rw [setbacks_of_nil none]
      exact List.forall_mem_nil _
  | read parser statement more done ih =>
      rw [setbacks_of_ok more done]
      exact ih
  | recovered parser mishap more failed ih =>
      rw [setbacks_of_error more failed, List.forall_mem_cons]
      obtain ⟨-, -, last, -, -, halted, -⟩ := Position.read_of_error failed
      exact ⟨Position.of_halt halted, ih⟩

/-! ## Tokens that are refused as control flow -/

section Reserved

variable {token : Token} {tokens : List Token}

/-- A control-flow keyword in front of a statement is refused. -/
theorem statement_of_isReserved (front : parser.rest = token :: tokens)
    (reserved : token.kind.isReserved = true) :
    parser.statement.1 = .error ⟨token, ⟨.controlFlow, true⟩, 0⟩ ∧
      parser.statement.2.trail = parser.trail.push token ∧
      parser.statement.2.rest = tokens := by
  obtain ⟨word, kind, flow⟩ : ∃ word, token.kind = .keyword word ∧ word.isReserved = true := by
    cases kind : token.kind with
    | keyword word => exact ⟨word, rfl, by rwa [kind] at reserved⟩
    | _ =>
        rw [kind] at reserved
        cases reserved
  have rejected : (Position.statement StatementSite.goal).accept? token = none := by
    simp only [Position.accept?, StatementSite.accept?, Position.acceptStatement?,
      Position.acceptOperand?, kind]
    cases word <;> first | rfl | cases flow
  have refused : StatementSite.goal.refuse token = ⟨.controlFlow, true⟩ := by
    rw [StatementSite.refuse, if_pos reserved, Refusal.consume, if_neg (by simp [kind])]
  simp only [statement, read, front, Position.read_of_reject rejected, Position.stopAt,
    Position.halt, refused]
  exact ⟨rfl, rfl, rfl⟩

/-- A token that can begin a statement is only refused there if it is reserved. -/
theorem isReserved_of_reject (opens : token.kind.opensStatement = true)
    (rejected : (Position.statement StatementSite.goal).accept? token = none) :
    token.kind.isReserved = true := by
  simp only [Position.accept?, StatementSite.accept?, Position.acceptStatement?,
    Position.acceptOperand?] at rejected
  cases kind : token.kind with
  | keyword word =>
      rw [kind] at rejected
      cases word <;> first | rfl | cases rejected
  | symbol mark =>
      rw [kind] at rejected opens
      cases mark <;> simp [Token.Kind.opensStatement] at opens rejected
  | _ =>
      rw [kind] at rejected opens
      simp [Token.Kind.opensStatement] at opens rejected

end Reserved

end Parser

end SlotCompiler
