import SlotCompiler.Proofs.Parsing.Relocation

/-!
# Two parsers in step

Parsers in front of the same tokens, in two texts, take the same steps up to the first setback
(`Parser.Moves.run`): they find the same statements, relocated, and the first token that either
refuses corresponds to the first one that the other refuses, for the same reason.  Behind a setback
they may part, for recovery looks at lines.
-/

set_option autoImplicit false

namespace SlotCompiler

/-! ## One goal -/

/-- Two ways of reading a goal off the same tokens end alike: with the same result, relocated, in
front of the same tokens, or at the same token and for the same reason. -/
inductive Reading.Moves (move : Relocation) {goal : Goal} : Reading goal → Reading goal → Prop where
  | ok {result : goal.Result} {rest rest' : List Token} {trail trail' : Trail}
      (further : List.Forall₂ (Token.Moves move) rest rest') :
      Moves move ⟨.ok result, rest, trail⟩ ⟨.ok (goal.relocate move result), rest', trail'⟩
  | error {mishap mishap' : Mishap} {rest rest' : List Token} {trail trail' : Trail}
      (token : mishap.token.Moves move mishap'.token) (refusal : mishap'.refusal = mishap.refusal) :
      Moves move ⟨.error mishap, rest, trail⟩ ⟨.error mishap', rest', trail'⟩

namespace Position

variable {move : Relocation} {goal : Goal}

theorem stopAt_moves (position : Position goal) {token token' : Token}
    (moves : token.Moves move token') {kept kept' used used' : List Token}
    (further : List.Forall₂ (Token.Moves move) kept kept')
    (trail trail' : Trail) :
    (position.stopAt token kept used trail).Moves move
      ((position.relocate move).stopAt token' kept' used' trail') := by
  rw [stopAt, stopAt, position.halt_relocate moves]
  cases position.halt token with
  | ok result => exact .ok further
  | error refusal =>
      dsimp only [Except.map]
      split <;> exact .error moves rfl

/-- **The same tokens are read alike in two texts.** -/
theorem read_moves (position : Position goal) {final final' : Token}
    (last : final.Moves move final') {tokens tokens' : List Token}
    (moves : List.Forall₂ (Token.Moves move) tokens tokens')
    (trail trail' : Trail) :
    (position.read final trail tokens).Moves move
      ((position.relocate move).read final' trail' tokens') := by
  induction moves generalizing position trail trail' with
  | nil => exact position.stopAt_moves last .nil trail trail'
  | @cons token token' tokens tokens' first further ih =>
      cases accepted : position.accept? token with
      | some next =>
          rw [read_of_accept accepted, read_of_accept (accept?_relocate_some first accepted)]
          exact ih next _ _
      | none =>
          rw [read_of_reject accepted, read_of_reject (accept?_relocate_none first accepted)]
          exact position.stopAt_moves first (.cons first further) trail trail'

end Position

/-! ## Statements -/

namespace Parser

/-- Two parsers are in front of the same tokens. -/
structure Moves (move : Relocation) (first second : Parser) : Prop where
  rest : List.Forall₂ (Token.Moves move) first.rest second.rest
  final : first.final.Moves move second.final

variable {move : Relocation} {first second : Parser}

theorem Moves.rest_eq_nil (moves : first.Moves move second) :
    first.rest = [] ↔ second.rest = [] := by
  rw [← List.length_eq_zero_iff, ← List.length_eq_zero_iff, moves.rest.length_eq]

/-- **One step of two parsers**: they read the same statement and stay in step, or they refuse the
same token. -/
theorem Moves.statement (moves : first.Moves move second) :
    (∃ statement, first.statement.1 = .ok statement ∧
        second.statement.1 = .ok (statement.relocate move) ∧
        first.statement.2.Moves move second.statement.2) ∨
      ∃ mishap mishap', first.statement.1 = .error mishap ∧
        second.statement.1 = .error mishap' ∧ mishap.token.Moves move mishap'.token ∧
        mishap'.refusal = mishap.refusal := by
  have alike := (Position.statement StatementSite.goal).read_moves moves.final moves.rest
    first.trail second.trail
  generalize here : Position.read first.final _ first.trail first.rest = reading at alike
  generalize there : Position.read second.final _ second.trail second.rest = reading' at alike
  cases alike with
  | ok further =>
      have left : first.statement.2.rest = _ := congrArg Reading.rest here
      have left' : second.statement.2.rest = _ := congrArg Reading.rest there
      refine .inl ⟨_, congrArg Reading.outcome here, congrArg Reading.outcome there, ?_,
        moves.final⟩
      rw [left, left']
      exact further
  | error token refusal =>
      exact .inr ⟨_, _, congrArg Reading.outcome here, congrArg Reading.outcome there, token,
        refusal⟩

/-- **Two parsers in step** find the same statements, or the first setback of both is the refusal of
the same token for the same reason. -/
theorem Moves.run (moves : first.Moves move second) :
    (first.setbacks = [] ∧ second.setbacks = [] ∧
        second.found = relocateBody move first.found) ∨
      ∃ setback setback', first.setbacks.head? = some setback ∧
        second.setbacks.head? = some setback' ∧
        setback.mishap.token.Moves move setback'.mishap.token ∧
        setback'.mishap.refusal = setback.mishap.refusal := by
  induction first using run_induction generalizing second with
  | ended first none =>
      have none' := moves.rest_eq_nil.mp none
      rw [setbacks_of_nil none, setbacks_of_nil none', found_of_nil none, found_of_nil none']
      exact .inl ⟨rfl, rfl, rfl⟩
  | read first statement more done ih =>
      have more' := mt moves.rest_eq_nil.mpr more
      rcases moves.statement with ⟨_, same, done', further⟩ | ⟨_, _, failed, -⟩
      · cases done.symm.trans same
        rw [setbacks_of_ok more done, setbacks_of_ok more' done', found_of_ok more done,
          found_of_ok more' done', relocateBody, List.cons.injEq, eq_self, true_and]
        exact ih further
      · cases done.symm.trans failed
  | recovered first mishap more failed ih =>
      have more' := mt moves.rest_eq_nil.mpr more
      rcases moves.statement with ⟨_, done, -⟩ | ⟨_, mishap', same, failed', token, refusal⟩
      · cases failed.symm.trans done
      · cases failed.symm.trans same
        rw [setbacks_of_error more failed, setbacks_of_error more' failed']
        exact .inr ⟨_, _, rfl, rfl, token, refusal⟩

end Parser

end SlotCompiler
