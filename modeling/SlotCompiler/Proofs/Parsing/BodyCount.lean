import SlotCompiler.Proofs.Parsing.Braces

/-!
# Counting open bodies

The number of open bodies changes when a body is entered or left while a statement is read, and
while recovery drops the braces of the bodies that a mishap has left open.  A body can only be
closed where one is open (`BodyChange.step?`).  The changes of reading lead from no open body to
those that the mishap leaves open, or to none if there is no mishap (`Parser.replay?_readChanges`),
and the changes of recovery lead from there to none (`Parser.replay?_recoverChanges`).
-/

set_option autoImplicit false

namespace SlotCompiler

/-- A change of the number of open bodies. -/
inductive BodyChange where
  | opened
  | closed
  /-- All of them are given up, at the end of the tokens. -/
  | abandoned
  deriving DecidableEq, Repr

namespace BodyChange

/-- The number behind a change, if it is possible: where no body is open, none is closed. -/
def step? : BodyChange → Nat → Option Nat
  | .opened, count => some (count + 1)
  | .closed, 0 => none
  | .closed, count + 1 => some count
  | .abandoned, _ => some 0

/-- The number behind some changes, if each of them is possible. -/
def replay? : Nat → List BodyChange → Option Nat
  | count, [] => some count
  | count, change :: changes => (change.step? count).bind (replay? · changes)

/-- The change at a token whose brace is counted. -/
def ofToken (token : Token) : List BodyChange :=
  if token.kind = .symbol .leftBrace then [.opened]
  else if token.kind = .symbol .rightBrace then [.closed]
  else []

theorem replay?_append {count between : Nat} {first : List BodyChange}
    (front : replay? count first = some between) (second : List BodyChange) :
    replay? count (first ++ second) = replay? between second := by
  induction first generalizing count with
  | nil =>
      cases front
      rfl
  | cons change first ih =>
      rw [replay?] at front
      rw [List.cons_append, replay?]
      cases applied : change.step? count with
      | none =>
          rw [applied] at front
          cases front
      | some next =>
          rw [applied] at front
          exact ih front

/-- A token that fits changes the number as it changes the bodies around the position. -/
theorem replay?_ofToken {goal : Goal} {next : Position goal} {count : Nat} {token : Token}
    (follows : next.Follows count token) :
    replay? count (ofToken token) = some next.openBodies := by
  rw [Position.Follows] at follows
  unfold ofToken
  split
  · rename_i opens
    rw [openings_leftBrace opens, closings_leftBrace opens] at follows
    exact congrArg some follows.symm
  · rename_i other
    split
    · rename_i closes
      rw [openings_rightBrace closes, closings_rightBrace closes] at follows
      obtain rfl : count = next.openBodies + 1 := follows.symm
      rfl
    · rename_i another
      rw [openings_of_ne other, closings_of_ne another] at follows
      exact congrArg some follows.symm

end BodyChange

/-! ## Reading -/

namespace StatementSite

variable {goal : Goal}

theorem openBodies_of_haltAfter {site : StatementSite goal} {statement : Statement} {token : Token}
    {result : goal.Result} (done : site.haltAfter statement token = .ok result) :
    site.openBodies = 0 := by
  cases site with
  | goal => rfl
  | body => cases done

end StatementSite

namespace Position

variable {goal : Goal}

/-- Where a goal is complete, no body is open. -/
theorem openBodies_of_halt {position : Position goal} {token : Token} {result : goal.Result}
    (done : position.halt token = .ok result) : position.openBodies = 0 := by
  cases position with
  | operator value pending site =>
      cases site with
      | goal => rfl
      | initializer name outer => exact StatementSite.openBodies_of_haltAfter done
      | returned outer => exact StatementSite.openBodies_of_haltAfter done
      | leading outer => exact StatementSite.openBodies_of_haltAfter done
      | assigned target outer => exact StatementSite.openBodies_of_haltAfter done
      | _ => cases done
  | _ => cases done

/-- The bodies that reading towards a goal leaves open. -/
def leftOpen (outcome : Except Mishap goal.Result) : Nat :=
  match outcome with
  | .ok _ => 0
  | .error mishap => mishap.openBodies

theorem leftOpen_stopAt (position : Position goal) (token : Token) (kept used : List Token)
    (trail : Trail) : leftOpen (position.stopAt token kept used trail).outcome =
      position.openBodies := by
  unfold stopAt
  cases halted : position.halt token with
  | ok result => exact (openBodies_of_halt halted).symm
  | error refusal =>
      dsimp only
      split <;> rfl

/-- The changes of the number of open bodies while tokens are read: those of the tokens that
fit. -/
def changes (position : Position goal) : List Token → List BodyChange
  | [] => []
  | token :: tokens =>
    match position.accept? token with
    | some next => BodyChange.ofToken token ++ next.changes tokens
    | none => []

/-- **While tokens are read, no body is closed that is not open**, and in the end those are open
that reading leaves open. -/
theorem replay?_changes (final : Token) (position : Position goal) (trail : Trail)
    (tokens : List Token) :
    BodyChange.replay? position.openBodies (position.changes tokens) =
      some (leftOpen (position.read final trail tokens).outcome) := by
  induction tokens generalizing position trail with
  | nil =>
      rw [read, leftOpen_stopAt]
      rfl
  | cons token tokens ih =>
      cases accepted : position.accept? token with
      | some next =>
          have first := BodyChange.replay?_ofToken (follows_accept? accepted)
          simp only [changes, read_of_accept accepted, accepted]
          rw [BodyChange.replay?_append first]
          exact ih next (trail.push token)
      | none =>
          simp only [changes, read_of_reject accepted, accepted, leftOpen_stopAt]
          rfl

end Position

namespace Parser

variable (parser : Parser)

/-- The changes of the number of open bodies while a statement is read. -/
def readChanges : List BodyChange := (Position.statement StatementSite.goal).changes parser.rest

/-- **Reading a statement keeps count of the open bodies.** -/
theorem replay?_readChanges (outside : parser.openBodies = 0) :
    BodyChange.replay? 0 parser.readChanges = some parser.statement.2.openBodies := by
  have read := (Position.statement StatementSite.goal).replay?_changes parser.final parser.trail
    parser.rest
  have left : parser.statement.2.openBodies = parser.openBodies +
      Position.leftOpen ((Position.statement StatementSite.goal).read parser.final parser.trail
        parser.rest).outcome := rfl
  rw [left, outside, Nat.zero_add]
  exact read

/-! ## Recovery -/

/-- The changes while tokens are dropped until a number of bodies is closed. -/
def closeChanges : Nat → List Token → List BodyChange
  | 0, _ => []
  | _ + 1, [] => [.abandoned]
  | depth + 1, token :: tokens =>
    if token.kind = .symbol .leftBrace then .opened :: closeChanges (depth + 2) tokens
    else if token.kind = .symbol .rightBrace then .closed :: closeChanges depth tokens
    else closeChanges (depth + 1) tokens

/-- **While tokens are dropped, no body is closed that is not open**, and in the end none is. -/
theorem replay?_closeChanges (depth : Nat) (tokens : List Token) :
    BodyChange.replay? depth (closeChanges depth tokens) = some 0 := by
  induction tokens generalizing depth with
  | nil => cases depth <;> rfl
  | cons token tokens ih =>
      cases depth with
      | zero => rfl
      | succ depth =>
          rw [closeChanges]
          split
          · exact ih (depth + 2)
          · split
            · exact ih depth
            · exact ih (depth + 1)

/-- The changes while a parser recovers from a mishap: a brace that was used up in refusing it is
counted first. -/
def recoverChanges (mishap : Mishap) : List BodyChange :=
  if parser.openBodies > 0 then
    if mishap.refusal.consumed && mishap.token.kind == .symbol .rightBrace then
      .closed :: closeChanges (parser.openBodies - 1) parser.rest
    else closeChanges parser.openBodies parser.rest
  else []

/-- **Recovery keeps count of the open bodies.** -/
theorem replay?_recoverChanges (mishap : Mishap) :
    BodyChange.replay? parser.openBodies (parser.recoverChanges mishap) =
      some (parser.recover mishap).openBodies := by
  rw [openBodies_recover, recoverChanges]
  split
  · rename_i open_
    split
    · obtain ⟨depth, bodies⟩ := Nat.exists_eq_succ_of_ne_zero (Nat.ne_of_gt open_)
      rw [bodies]
      exact replay?_closeChanges depth parser.rest
    · exact replay?_closeChanges parser.openBodies parser.rest
  · rename_i none
    exact congrArg some (Nat.eq_zero_of_not_pos none)

end Parser

end SlotCompiler
