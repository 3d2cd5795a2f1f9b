import SlotCompiler.Parsing.Position

/-!
# Reading a goal off a list of tokens

`read` follows the tokens from a position until one does not fit.  Either the goal is then
complete and that token is still to come, or the token is refused.  Reading goes through the
list once, so its result depends on nothing behind the token that ended it.

The trail of the lines of the last two tokens used up is kept along the way: recovery compares
the line of a refused token with the line of the token before it.
-/

set_option autoImplicit false

namespace SlotCompiler

/-- The lines of the last two tokens used up, or the first line where there was none. -/
structure Trail where
  last : Nat := 0
  previous : Nat := 0
  deriving DecidableEq, Repr

/-- The trail behind one more token. -/
def Trail.push (trail : Trail) (token : Token) : Trail := ⟨token.line, trail.last⟩

/-- A token that ended reading before the goal was complete. -/
structure Mishap where
  token : Token
  refusal : Refusal
  /-- The function bodies that were open. -/
  openBodies : Nat
  deriving DecidableEq, Repr

namespace Mishap

/-- The diagnostic of a mishap: its problem, at its token. -/
def diagnostic (mishap : Mishap) : Diagnostic := ⟨mishap.refusal.problem, mishap.token.span⟩

end Mishap

/-- How reading ended, the tokens still to come, and the trail up to them. -/
structure Reading (goal : Goal) where
  outcome : Except Mishap goal.Result
  rest : List Token
  trail : Trail

namespace Position

variable {goal : Goal}

/-- Ends reading at a token, which stands at the front of `kept` and behind `used`. -/
def stopAt (position : Position goal) (token : Token) (kept used : List Token)
    (trail : Trail) : Reading goal :=
  match position.halt token with
  | .ok result => ⟨.ok result, kept, trail⟩
  | .error refusal =>
    let mishap := ⟨token, refusal, position.openBodies⟩
    if refusal.consumed then ⟨.error mishap, used, trail.push token⟩
    else ⟨.error mishap, kept, trail⟩

/-- Reads tokens, with `final` behind the last of them, until one does not fit. -/
def read (final : Token) (position : Position goal) (trail : Trail) :
    List Token → Reading goal
  | [] => position.stopAt final [] [] trail
  | token :: tokens =>
    match position.accept? token with
    | some next => next.read final (trail.push token) tokens
    | none => position.stopAt token (token :: tokens) tokens trail

/-! ## Reading uses tokens up -/

theorem length_rest_stopAt_le (position : Position goal) (token : Token)
    {kept used : List Token} (trail : Trail) (shorter : used.length ≤ kept.length) :
    (position.stopAt token kept used trail).rest.length ≤ kept.length := by
  unfold stopAt
  split
  · exact Nat.le_refl _
  · dsimp only
    split
    · exact shorter
    · exact Nat.le_refl _

/-- Reading adds no token. -/
theorem length_rest_read_le (final : Token) (position : Position goal) (trail : Trail)
    (tokens : List Token) :
    (position.read final trail tokens).rest.length ≤ tokens.length := by
  induction tokens generalizing position trail with
  | nil => exact length_rest_stopAt_le position final trail (Nat.le_refl _)
  | cons token tokens ih =>
    unfold read
    split
    · exact Nat.le_succ_of_le (ih _ _)
    · exact length_rest_stopAt_le position token trail (Nat.le_succ _)

/-- A token that fits is used up. -/
theorem read_of_accept {final token : Token} {position next : Position goal} {trail : Trail}
    {tokens : List Token} (accepted : position.accept? token = some next) :
    position.read final trail (token :: tokens) = next.read final (trail.push token) tokens := by
  simp only [read, accepted]

/-- A token that does not fit ends reading. -/
theorem read_of_reject {final token : Token} {position : Position goal} {trail : Trail}
    {tokens : List Token} (rejected : position.accept? token = none) :
    position.read final trail (token :: tokens) =
      position.stopAt token (token :: tokens) tokens trail := by
  simp only [read, rejected]

/-- A refused token that is used up is not among those to come, and ends the trail. -/
theorem stopAt_consumed {position : Position goal} {token : Token} {kept used : List Token}
    {trail : Trail} {mishap : Mishap}
    (refused : (position.stopAt token kept used trail).outcome = .error mishap)
    (consumed : mishap.refusal.consumed = true) :
    mishap.token = token ∧
      position.stopAt token kept used trail = ⟨.error mishap, used, trail.push token⟩ := by
  unfold stopAt at refused ⊢
  split at refused
  · cases refused
  · rename_i refusal _
    by_cases uses : refusal.consumed = true
    · rw [if_pos uses] at refused ⊢
      cases refused
      exact ⟨rfl, rfl⟩
    · rw [if_neg uses] at refused
      cases refused
      exact absurd consumed uses

/-- **A consumed refusal shortens the tokens.** Unless the refused token is the last one of
all, fewer tokens are to come than before reading; and the trail ends with it. -/
theorem read_consumed {final : Token} {position : Position goal} {trail : Trail}
    {tokens : List Token} {mishap : Mishap}
    (refused : (position.read final trail tokens).outcome = .error mishap)
    (consumed : mishap.refusal.consumed = true) :
    (mishap.token = final ∨
      (position.read final trail tokens).rest.length < tokens.length) ∧
      (position.read final trail tokens).trail.last = mishap.token.line := by
  induction tokens generalizing position trail with
  | nil =>
    obtain ⟨same, reading⟩ := stopAt_consumed refused consumed
    exact ⟨.inl same, by rw [read, reading, same]; rfl⟩
  | cons token tokens ih =>
    cases accepted : position.accept? token with
    | some next =>
      rw [read_of_accept accepted] at refused ⊢
      obtain ⟨shorter, ends⟩ := ih refused
      exact ⟨shorter.imp id Nat.lt_succ_of_lt, ends⟩
    | none =>
      rw [read_of_reject accepted] at refused ⊢
      obtain ⟨same, reading⟩ := stopAt_consumed refused consumed
      rw [reading, same]
      exact ⟨.inr (Nat.lt_succ_self _), rfl⟩

end Position

end SlotCompiler
