import Mathlib.Data.List.Forall2
import SlotCompiler.Proofs.Parsing.Completeness
import SlotCompiler.Proofs.Parsing.Recovery
import SlotCompiler.Proofs.Tree.Relocation

/-!
# Reading the same tokens elsewhere

Of a token, reading uses the kind, the span and, if it is a name, the text.  So tokens of the same
kinds are read alike wherever they stand and whatever the names in them are: every position behind
them is relocated (`Position.accept?_relocate`), and so is what is read in the end.

Reading looks at most at one token behind a statement.  So a statement is read alike in front of
any tokens that do not begin with one that joins (`Position.read_relocate_of_ok`), and it is refused
alike in front of all tokens, if it is refused at a token of its own
(`Position.read_relocate_of_error`).
-/

set_option autoImplicit false

namespace SlotCompiler

/-- A token is another one, relocated; lines do not matter, and only names have their texts
compared. -/
structure Token.Moves (move : Relocation) (first second : Token) : Prop where
  kind : second.kind = first.kind
  span : second.span = move.place first.span
  text : first.kind = .identifier → second.text = move.rename first.text

/-- A token, relocated on its line. -/
def Token.relocate (move : Relocation) (token : Token) : Token :=
  { token with text := move.rename token.text, span := move.place token.span }

theorem Token.moves_relocate (move : Relocation) (token : Token) :
    token.Moves move (token.relocate move) := ⟨rfl, rfl, fun _ => rfl⟩

/-- A diagnostic, relocated. -/
def Diagnostic.relocate (move : Relocation) (diagnostic : Diagnostic) : Diagnostic :=
  ⟨diagnostic.problem, move.place diagnostic.span⟩

/-! ## Positions, relocated -/

section Relocate

variable (move : Relocation)

/-- A result, relocated. -/
def Goal.relocate : (goal : Goal) → goal.Result → goal.Result
  | .expression => Expression.relocate move
  | .statement => Statement.relocate move

/-- A left operand and its operator, relocated. -/
def LeftOperand.relocate (left : LeftOperand) : LeftOperand :=
  ⟨left.value.relocate move, left.operator, move.place left.mark⟩

/-- Operators in front of an operand, relocated. -/
def Pending.relocate (pending : Pending) : Pending where
  sum := pending.sum.map (LeftOperand.relocate move)
  product := pending.product.map (LeftOperand.relocate move)
  signs := pending.signs.map fun sign => (sign.1, move.place sign.2)

mutual

def ExpressionSite.relocate {goal : Goal} : ExpressionSite goal → ExpressionSite goal
  | .goal => .goal
  | .parenthesis pending outer => .parenthesis (pending.relocate move) outer.relocate
  | .callee pending outer => .callee (pending.relocate move) outer.relocate
  | .argument called earlier pending outer =>
    .argument (called.relocate move) (earlier.map (Expression.relocate move))
      (pending.relocate move) outer.relocate
  | .initializer name outer => .initializer (move.rename name) outer.relocate
  | .returned outer => .returned outer.relocate
  | .leading outer => .leading outer.relocate
  | .assigned target outer => .assigned (target.relocate move) outer.relocate

def StatementSite.relocate {goal : Goal} : StatementSite goal → StatementSite goal
  | .goal => .goal
  | .body parameters earlier mark pending outer =>
    .body (parameters.map move.rename) (earlier.map (Statement.relocate move)) (move.place mark)
      (pending.relocate move) outer.relocate

end

/-- A position, relocated. -/
def Position.relocate {goal : Goal} : Position goal → Position goal
  | .statement site => .statement (site.relocate move)
  | .operand pending site => .operand (pending.relocate move) (site.relocate move)
  | .operator value pending site =>
    .operator (value.relocate move) (pending.relocate move) (site.relocate move)
  | .declaredName site => .declaredName (site.relocate move)
  | .declaredEquals name site => .declaredEquals (move.rename name) (site.relocate move)
  | .firstArgument called pending site =>
    .firstArgument (called.relocate move) (pending.relocate move) (site.relocate move)
  | .parameterList mark pending site =>
    .parameterList (move.place mark) (pending.relocate move) (site.relocate move)
  | .firstParameter mark pending site =>
    .firstParameter (move.place mark) (pending.relocate move) (site.relocate move)
  | .parameter earlier mark pending site =>
    .parameter (earlier.map move.rename) (move.place mark) (pending.relocate move)
      (site.relocate move)
  | .parameterEnd earlier mark pending site =>
    .parameterEnd (earlier.map move.rename) (move.place mark) (pending.relocate move)
      (site.relocate move)
  | .bodyStart parameters mark pending site =>
    .bodyStart (parameters.map move.rename) (move.place mark) (pending.relocate move)
      (site.relocate move)

end Relocate

/-! ## Finished operands -/

section Pending

variable (move : Relocation) (pending : Pending) (operand : Expression)

@[simp] theorem Pending.relocate_empty : ({} : Pending).relocate move = {} := rfl

theorem LeftOperand.relocate_join (left : Option LeftOperand) (right : Expression) :
    (join left right).relocate move =
      join (left.map (LeftOperand.relocate move)) (right.relocate move) := by
  cases left with
  | none => rfl
  | some left => simp only [join, Option.map_some, Expression.relocate, relocate]

theorem Pending.relocate_signed : (pending.signed operand).relocate move =
    (pending.relocate move).signed (operand.relocate move) := by
  obtain ⟨sum, product, signs⟩ := pending
  simp only [signed, relocate]
  induction signs generalizing operand with
  | nil => rfl
  | cons sign signs ih =>
      rw [List.foldl_cons, List.map_cons, List.foldl_cons, ih, Expression.relocate]

theorem Pending.relocate_productWith : (pending.productWith operand).relocate move =
    (pending.relocate move).productWith (operand.relocate move) := by
  rw [productWith, LeftOperand.relocate_join, relocate_signed]
  rfl

theorem Pending.relocate_sumWith : (pending.sumWith operand).relocate move =
    (pending.relocate move).sumWith (operand.relocate move) := by
  rw [sumWith, LeftOperand.relocate_join, relocate_productWith]
  rfl

theorem Pending.relocate_multiply (operator : BinaryOperator) (mark : Span) :
    (pending.multiply operand operator mark).relocate move =
      (pending.relocate move).multiply (operand.relocate move) operator (move.place mark) := by
  simp only [multiply, relocate, Option.map_some, LeftOperand.relocate, relocate_productWith,
    List.map_nil]

theorem Pending.relocate_add (operator : BinaryOperator) (mark : Span) :
    (pending.add operand operator mark).relocate move =
      (pending.relocate move).add (operand.relocate move) operator (move.place mark) := by
  simp only [add, relocate, Option.map_some, Option.map_none, LeftOperand.relocate,
    relocate_sumWith, List.map_nil]

end Pending

/-! ## One token -/

section Token

variable {move : Relocation} {goal : Goal} {token moved : Token}

theorem Position.acceptOperand?_relocate (moves : token.Moves move moved) (pending : Pending)
    (site : ExpressionSite goal) :
    acceptOperand? (pending.relocate move) (site.relocate move) moved =
      (acceptOperand? pending site token).map (relocate move) := by
  simp only [acceptOperand?, moves.kind, moves.span]
  split <;> rfl

theorem Position.acceptStatement?_relocate (moves : token.Moves move moved)
    (site : StatementSite goal) :
    acceptStatement? (site.relocate move) moved =
      (acceptStatement? site token).map (relocate move) := by
  simp only [acceptStatement?, moves.kind]
  split
  · rfl
  · rfl
  · exact acceptOperand?_relocate moves {} (.leading site)

theorem StatementSite.accept?_relocate (moves : token.Moves move moved)
    (site : StatementSite goal) :
    (site.relocate move).accept? moved = (site.accept? token).map (Position.relocate move) := by
  cases site with
  | goal => exact Position.acceptStatement?_relocate moves .goal
  | body parameters earlier mark pending outer =>
      have further := Position.acceptStatement?_relocate moves
        (.body parameters earlier mark pending outer)
      simp only [relocate, accept?, moves.kind] at further ⊢
      split
      · simp only [Option.map_some, Position.relocate, Expression.relocate, relocateBody_eq_map]
      · exact further

theorem StatementSite.acceptAfter?_relocate (moves : token.Moves move moved)
    (site : StatementSite goal) (statement : Statement) :
    (site.relocate move).acceptAfter? (statement.relocate move) moved =
      (site.acceptAfter? statement token).map (Position.relocate move) := by
  cases site with
  | goal => rfl
  | body parameters earlier mark pending outer =>
      have further := StatementSite.accept?_relocate moves
        (.body parameters (earlier ++ [statement]) mark pending outer)
      simpa only [relocate, acceptAfter?, List.map_append, List.map_cons, List.map_nil] using further

theorem ExpressionSite.acceptAfter?_relocate (moves : token.Moves move moved)
    (site : ExpressionSite goal) (value : Expression) :
    (site.relocate move).acceptAfter? (value.relocate move) moved =
      (site.acceptAfter? value token).map (Position.relocate move) := by
  cases site with
  | goal => rfl
  | parenthesis | callee =>
      simp only [relocate, acceptAfter?, moves.kind]
      split <;> rfl
  | argument called earlier pending outer =>
      simp only [relocate, acceptAfter?, moves.kind]
      split
      · simp [Position.relocate, relocate]
      · split <;> simp [Position.relocate, Expression.relocate, relocateArguments_eq_map]
  | initializer name outer => exact outer.acceptAfter?_relocate moves (.declare name value)
  | returned outer => exact outer.acceptAfter?_relocate moves (.return value)
  | leading outer =>
      simp only [relocate, acceptAfter?, moves.kind]
      split
      · rfl
      · exact outer.acceptAfter?_relocate moves (.evaluate value)
  | assigned target outer => exact outer.acceptAfter?_relocate moves (.assign target value)

theorem Position.acceptOperator?_relocate (moves : token.Moves move moved) (operand : Expression)
    (pending : Pending) (site : ExpressionSite goal) :
    acceptOperator? (operand.relocate move) (pending.relocate move) (site.relocate move) moved =
      (acceptOperator? operand pending site token).map (relocate move) := by
  simp only [acceptOperator?, moves.kind, moves.span]
  split
  case h_5 =>
    rw [← Pending.relocate_sumWith]
    exact site.acceptAfter?_relocate moves _
  all_goals simp only [Option.map_some, relocate, Pending.relocate_multiply, Pending.relocate_add]

/-- **A relocated token leads from a relocated position to a relocated position.** -/
theorem Position.accept?_relocate (moves : token.Moves move moved) (position : Position goal) :
    (position.relocate move).accept? moved = (position.accept? token).map (relocate move) := by
  cases position with
  | statement site => exact site.accept?_relocate moves
  | operand pending site => exact acceptOperand?_relocate moves pending site
  | operator value pending site => exact acceptOperator?_relocate moves value pending site
  | firstArgument called pending site =>
      have further := acceptOperand?_relocate moves {} (.argument called [] pending site)
      simp only [relocate, accept?, moves.kind] at further ⊢
      split
      · rfl
      · exact further
  | declaredName | parameter =>
      simp only [relocate, accept?, moves.kind]
      split
      · rename_i name
        simp [relocate, moves.text name]
      · rfl
  | declaredEquals | parameterList | bodyStart =>
      simp only [relocate, accept?, moves.kind]
      split <;> rfl
  | parameterEnd =>
      simp only [relocate, accept?, moves.kind]
      split
      · rfl
      · split <;> rfl
  | firstParameter =>
      simp only [relocate, accept?, moves.kind]
      split
      · rfl
      · split
        · rename_i name
          simp [relocate, moves.text name]
        · rfl

theorem Refusal.consume_relocate (moves : token.Moves move moved) (problem : Problem) :
    consume problem moved = consume problem token := by
  rw [consume, consume, moves.kind]

theorem StatementSite.refuse_relocate (moves : token.Moves move moved) (site : StatementSite goal) :
    (site.relocate move).refuse moved = site.refuse token := by
  cases site <;> simp only [relocate, refuse, moves.kind, Refusal.consume_relocate moves]

theorem StatementSite.haltAfter_relocate (moves : token.Moves move moved)
    (site : StatementSite goal) (statement : Statement) :
    (site.relocate move).haltAfter (statement.relocate move) moved =
      (site.haltAfter statement token).map (goal.relocate move) := by
  cases site with
  | goal => rfl
  | body parameters earlier mark pending outer =>
      have same := StatementSite.refuse_relocate moves
        (.body parameters (earlier ++ [statement]) mark pending outer)
      simpa [relocate, haltAfter, Except.map] using same

theorem ExpressionSite.haltAfter_relocate (moves : token.Moves move moved)
    (site : ExpressionSite goal) (value : Expression) :
    (site.relocate move).haltAfter (value.relocate move) moved =
      (site.haltAfter value token).map (goal.relocate move) := by
  cases site with
  | goal | argument => rfl
  | parenthesis | callee =>
      simp only [relocate, haltAfter, Refusal.consume_relocate moves, Except.map]
  | initializer name outer => exact outer.haltAfter_relocate moves (.declare name value)
  | returned outer => exact outer.haltAfter_relocate moves (.return value)
  | leading outer => exact outer.haltAfter_relocate moves (.evaluate value)
  | assigned target outer => exact outer.haltAfter_relocate moves (.assign target value)

/-- **A relocated position halts at a relocated token** with the relocated result, or for the same
reason. -/
theorem Position.halt_relocate (moves : token.Moves move moved) (position : Position goal) :
    (position.relocate move).halt moved = (position.halt token).map (goal.relocate move) := by
  cases position with
  | statement site => simp only [relocate, halt, site.refuse_relocate moves, Except.map]
  | operator value pending site =>
      simp only [relocate, halt, ← Pending.relocate_sumWith]
      exact site.haltAfter_relocate moves _
  | parameterEnd => rfl
  | _ => simp only [relocate, halt, Refusal.consume_relocate moves, Except.map]

mutual

theorem ExpressionSite.openBodies_relocate {goal : Goal} : ∀ site : ExpressionSite goal,
    (site.relocate move).openBodies = site.openBodies
  | .goal => rfl
  | .parenthesis _ outer | .callee _ outer | .argument _ _ _ outer => outer.openBodies_relocate
  | .initializer _ outer | .returned outer | .leading outer | .assigned _ outer =>
    outer.openBodies_relocate

theorem StatementSite.openBodies_relocate {goal : Goal} : ∀ site : StatementSite goal,
    (site.relocate move).openBodies = site.openBodies
  | .goal => rfl
  | .body _ _ _ _ outer => congrArg (· + 1) outer.openBodies_relocate

end

theorem Position.openBodies_relocate (position : Position goal) :
    (position.relocate move).openBodies = position.openBodies := by
  cases position with
  | statement site | declaredName site | declaredEquals _ site => exact site.openBodies_relocate
  | _ => exact ExpressionSite.openBodies_relocate _

end Token

/-! ## What is complete -/

section Complete

variable {goal : Goal} {result : goal.Result} {token : Token}

theorem StatementSite.complete_of_haltAfter {site : StatementSite goal} {statement : Statement}
    (halted : site.haltAfter statement token = .ok result) :
    (∀ other, site.haltAfter statement other = .ok result) ∧
      ∀ other, site.acceptAfter? statement other = none := by
  cases site with
  | goal => exact ⟨fun _ => halted, fun _ => rfl⟩
  | body => cases halted

theorem ExpressionSite.complete_of_haltAfter {site : ExpressionSite goal} {value : Expression}
    (halted : site.haltAfter value token = .ok result) :
    (∀ other, site.haltAfter value other = .ok result) ∧
      ∀ other : Token, other.kind.joins = false → site.acceptAfter? value other = none := by
  cases site with
  | goal => exact ⟨fun _ => halted, fun _ _ => rfl⟩
  | parenthesis | callee | argument => cases halted
  | initializer | returned | assigned =>
      obtain ⟨halts, ends⟩ := StatementSite.complete_of_haltAfter halted
      exact ⟨halts, fun other _ => ends other⟩
  | leading outer =>
      obtain ⟨halts, ends⟩ := StatementSite.complete_of_haltAfter halted
      refine ⟨halts, fun other apart => ?_⟩
      have noEquals : other.kind ≠ .symbol .equals := by
        intro equals
        rw [equals] at apart
        cases apart
      rw [acceptAfter?, if_neg noEquals]
      exact ends other

/-- What has been read is complete, unless a token that joins follows. -/
structure Position.Complete (position : Position goal) (result : goal.Result) : Prop where
  halts : ∀ token, position.halt token = .ok result
  ends : ∀ token : Token, token.kind.joins = false → position.accept? token = none

/-- Whether a position is complete does not depend on the token at which it halts. -/
theorem Position.complete_of_halt {position : Position goal}
    (halted : position.halt token = .ok result) : position.Complete result := by
  cases position with
  | operator value pending site =>
      obtain ⟨halts, ends⟩ := ExpressionSite.complete_of_haltAfter halted
      exact ⟨halts, fun other apart => (accept?_operator apart).trans (ends other apart)⟩
  | _ => cases halted

theorem Position.complete_relocate {position : Position goal} (move : Relocation)
    (halted : position.halt token = .ok result) :
    (position.relocate move).Complete (goal.relocate move result) := by
  have halts := position.halt_relocate (token.moves_relocate move)
  rw [halted] at halts
  exact complete_of_halt halts

theorem Position.Complete.read {position : Position goal} (complete : position.Complete result)
    {more : List Token} (apart : ∀ token ∈ more.head?, token.kind.joins = false) (final : Token)
    (trail : Trail) : position.read final trail more = ⟨.ok result, more, trail⟩ := by
  cases more with
  | nil => rw [Position.read, stopAt, complete.halts]
  | cons token more =>
      rw [read_of_reject (complete.ends token (apart token rfl)), stopAt, complete.halts]

end Complete

/-! ## Reading elsewhere -/

namespace Position

variable {move : Relocation} {goal : Goal} {final : Token} {trail : Trail}
  {tokens moved more : List Token} {mishap : Mishap}

theorem accept?_relocate_some {position next : Position goal} {token moved : Token}
    (moves : token.Moves move moved) (accepted : position.accept? token = some next) :
    (position.relocate move).accept? moved = some (next.relocate move) := by
  rw [position.accept?_relocate moves, accepted, Option.map_some]

theorem accept?_relocate_none {position : Position goal} {token moved : Token}
    (moves : token.Moves move moved) (rejected : position.accept? token = none) :
    (position.relocate move).accept? moved = none := by
  rw [position.accept?_relocate moves, rejected, Option.map_none]

/-- **Reading that succeeds succeeds elsewhere too**, with the relocated result, if no token that
joins follows. -/
theorem read_relocate_of_ok {result : goal.Result} (position : Position goal)
    (moves : List.Forall₂ (Token.Moves move) tokens moved)
    (apart : ∀ token ∈ more.head?, token.kind.joins = false)
    (done : (position.read final trail tokens).outcome = .ok result) (final' : Token)
    (trail' : Trail) :
    ∃ rest, List.Forall₂ (Token.Moves move) (position.read final trail tokens).rest rest ∧
      rest <:+ moved ∧
      ((position.relocate move).read final' trail' (moved ++ more)).outcome =
        .ok (goal.relocate move result) ∧
      ((position.relocate move).read final' trail' (moved ++ more)).rest = rest ++ more := by
  induction moves generalizing position trail trail' with
  | nil =>
      obtain ⟨halted, left⟩ := stopAt_of_ok done
      have complete := (complete_relocate move halted).read apart final' trail'
      rw [read, left, List.nil_append, complete]
      exact ⟨[], .nil, List.suffix_refl _, rfl, rfl⟩
  | @cons token token' tokens moved first further ih =>
      rw [List.cons_append]
      cases accepted : position.accept? token with
      | some next =>
          rw [read_of_accept accepted] at done ⊢
          rw [read_of_accept (accept?_relocate_some first accepted)]
          obtain ⟨rest, left, suffix, same⟩ := ih next done (trail'.push token')
          exact ⟨rest, left, suffix.trans (List.suffix_cons _ _), same⟩
      | none =>
          rw [read_of_reject accepted] at done ⊢
          rw [read_of_reject (accept?_relocate_none first accepted)]
          obtain ⟨halted, left⟩ := stopAt_of_ok done
          rw [left, stopAt, (complete_relocate move halted).halts]
          exact ⟨_, .cons first further, List.suffix_refl _, rfl, rfl⟩

/-- **Reading that is refused at one of its tokens is refused elsewhere too**, at the relocated
token and for the same reason, whatever follows. -/
theorem read_relocate_of_error (position : Position goal)
    (moves : List.Forall₂ (Token.Moves move) tokens moved)
    (failed : (position.read final trail tokens).outcome = .error mishap)
    (inside : mishap.token ≠ final) (final' : Token) (trail' : Trail) (more : List Token) :
    ∃ token rest, token ∈ moved ∧ mishap.token.Moves move token ∧ rest <:+ moved ∧
      ((position.relocate move).read final' trail' (moved ++ more)).outcome =
        .error ⟨token, mishap.refusal, mishap.openBodies⟩ ∧
      ((position.relocate move).read final' trail' (moved ++ more)).rest = rest ++ more := by
  induction moves generalizing position trail trail' with
  | nil =>
      exact absurd (stopAt_of_error failed).1 inside
  | @cons token token' tokens moved first further ih =>
      rw [List.cons_append]
      cases accepted : position.accept? token with
      | some next =>
          rw [read_of_accept accepted] at failed
          rw [read_of_accept (accept?_relocate_some first accepted)]
          obtain ⟨refused, rest, member, moves, suffix, same⟩ := ih next failed (trail'.push token')
          exact ⟨refused, rest, List.mem_cons_of_mem _ member, moves,
            suffix.trans (List.suffix_cons _ _), same⟩
      | none =>
          rw [read_of_reject accepted] at failed
          obtain ⟨rfl, halted, bodies, -⟩ := stopAt_of_error failed
          rw [read_of_reject (accept?_relocate_none first accepted), stopAt,
            position.halt_relocate first, openBodies_relocate, halted, ← bodies]
          refine ⟨token', if mishap.refusal.consumed then moved else token' :: moved,
            List.mem_cons_self, first, ?_, ?_⟩
          · split
            · exact List.suffix_cons _ _
            · exact List.suffix_refl _
          · dsimp only [Except.map]
            split <;> exact ⟨rfl, rfl⟩

end Position

end SlotCompiler
