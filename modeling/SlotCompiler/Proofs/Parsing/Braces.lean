import Mathlib.Data.List.Infix
import SlotCompiler.Proofs.Parsing.Completeness
import SlotCompiler.Proofs.Parsing.Recovery
import SlotCompiler.Proofs.Scanning.Tokens

/-!
# Braces

A function body is the only construct with braces, so the bodies that are open at a position are the
braces that were opened in front of it and not closed (`Position.Leads.openBodies`).
-/

set_option autoImplicit false

namespace SlotCompiler

/-! ## Braces of tokens -/

/-- The number of braces that tokens open. -/
def openings (tokens : List Token) : Nat :=
  tokens.countP fun token => token.kind = .symbol .leftBrace

/-- The number of braces that tokens close. -/
def closings (tokens : List Token) : Nat :=
  tokens.countP fun token => token.kind = .symbol .rightBrace

/-- Tokens in which every brace has its partner: read from the front they never close more braces
than they have opened, and in the end they have closed as many. -/
structure Balanced (tokens : List Token) : Prop where
  closings_le : ∀ front, front <+: tokens → closings front ≤ openings front
  closings_eq : closings tokens = openings tokens

instance (tokens : List Token) : Decidable (Balanced tokens) :=
  decidable_of_iff
    ((∀ front ∈ tokens.inits, closings front ≤ openings front) ∧ closings tokens = openings tokens)
    ⟨fun ⟨le, eq⟩ => ⟨fun front isFront => le front ((List.mem_inits _ _).mpr isFront), eq⟩,
      fun balanced => ⟨fun front member => balanced.closings_le front ((List.mem_inits _ _).mp member),
        balanced.closings_eq⟩⟩

theorem openings_append (first second : List Token) :
    openings (first ++ second) = openings first + openings second := List.countP_append

theorem closings_append (first second : List Token) :
    closings (first ++ second) = closings first + closings second := List.countP_append

theorem openings_cons (token : Token) (tokens : List Token) :
    openings (token :: tokens) = openings [token] + openings tokens :=
  openings_append [token] tokens

theorem closings_cons (token : Token) (tokens : List Token) :
    closings (token :: tokens) = closings [token] + closings tokens :=
  closings_append [token] tokens

section Single

variable {token : Token}

theorem openings_leftBrace (brace : token.kind = .symbol .leftBrace) : openings [token] = 1 := by
  simp [openings, brace]

theorem closings_leftBrace (brace : token.kind = .symbol .leftBrace) : closings [token] = 0 := by
  simp [closings, brace]

theorem openings_rightBrace (brace : token.kind = .symbol .rightBrace) : openings [token] = 0 := by
  simp [openings, brace]

theorem closings_rightBrace (brace : token.kind = .symbol .rightBrace) : closings [token] = 1 := by
  simp [closings, brace]

theorem openings_of_ne (other : token.kind ≠ .symbol .leftBrace) : openings [token] = 0 := by
  simp [openings, other]

theorem closings_of_ne (other : token.kind ≠ .symbol .rightBrace) : closings [token] = 0 := by
  simp [closings, other]

end Single

/-! ## Open bodies -/

section Steps

variable {goal : Goal} {next : Position goal} {token : Token}

/-- The position behind a token that fits lies in one body more or less, if the token is a
brace. -/
def Position.Follows (next : Position goal) (openBodies : Nat) (token : Token) : Prop :=
  next.openBodies + closings [token] = openBodies + openings [token]

theorem Position.follows_of_ne {openBodies : Nat} {kind : Token.Kind} (found : token.kind = kind)
    (left : kind ≠ .symbol .leftBrace) (right : kind ≠ .symbol .rightBrace)
    (same : next.openBodies = openBodies) : next.Follows openBodies token := by
  rw [Follows, same, openings_of_ne (found ▸ left), closings_of_ne (found ▸ right)]

theorem Position.follows_acceptOperand? {pending : Pending} {site : ExpressionSite goal}
    (accepted : acceptOperand? pending site token = some next) :
    next.Follows site.openBodies token := by
  unfold acceptOperand? at accepted
  split at accepted <;> cases accepted <;> rename_i kind <;>
    exact follows_of_ne kind nofun nofun rfl

theorem Position.follows_acceptStatement? {site : StatementSite goal}
    (accepted : acceptStatement? site token = some next) : next.Follows site.openBodies token := by
  unfold acceptStatement? at accepted
  split at accepted
  · cases accepted
    rename_i kind
    exact follows_of_ne kind nofun nofun rfl
  · cases accepted
    rename_i kind
    exact follows_of_ne kind nofun nofun rfl
  · exact follows_acceptOperand? accepted

theorem StatementSite.follows_accept? {site : StatementSite goal}
    (accepted : site.accept? token = some next) : next.Follows site.openBodies token := by
  unfold accept? at accepted
  split at accepted
  · exact Position.follows_acceptStatement? accepted
  · split at accepted
    · cases accepted
      rename_i closes
      rw [Position.Follows, openings_rightBrace closes, closings_rightBrace closes]
      rfl
    · exact Position.follows_acceptStatement? accepted

theorem StatementSite.follows_acceptAfter? {site : StatementSite goal} {statement : Statement}
    (accepted : site.acceptAfter? statement token = some next) :
    next.Follows site.openBodies token := by
  unfold acceptAfter? at accepted
  split at accepted
  · cases accepted
  · have follows := StatementSite.follows_accept? accepted
    exact follows

theorem ExpressionSite.follows_acceptAfter? {site : ExpressionSite goal} {value : Expression}
    (accepted : site.acceptAfter? value token = some next) :
    next.Follows site.openBodies token := by
  unfold acceptAfter? at accepted
  split at accepted
  · cases accepted
  · split at accepted <;> cases accepted
    rename_i kind
    exact Position.follows_of_ne kind nofun nofun rfl
  · split at accepted <;> cases accepted
    rename_i kind
    exact Position.follows_of_ne kind nofun nofun rfl
  · split at accepted
    · cases accepted
      rename_i kind
      exact Position.follows_of_ne kind nofun nofun rfl
    · split at accepted <;> cases accepted
      rename_i kind
      exact Position.follows_of_ne kind nofun nofun rfl
  · exact StatementSite.follows_acceptAfter? accepted
  · exact StatementSite.follows_acceptAfter? accepted
  · split at accepted
    · cases accepted
      rename_i kind
      exact Position.follows_of_ne kind nofun nofun rfl
    · exact StatementSite.follows_acceptAfter? accepted
  · exact StatementSite.follows_acceptAfter? accepted

theorem Position.follows_acceptOperator? {operand : Expression} {pending : Pending}
    {site : ExpressionSite goal} (accepted : acceptOperator? operand pending site token = some next) :
    next.Follows site.openBodies token := by
  unfold acceptOperator? at accepted
  split at accepted
  case h_5 => exact ExpressionSite.follows_acceptAfter? accepted
  all_goals
    cases accepted
    rename_i kind
    exact follows_of_ne kind nofun nofun rfl

/-- **Braces open and close bodies**, and no other token does. -/
theorem Position.follows_accept? {position : Position goal}
    (accepted : position.accept? token = some next) : next.Follows position.openBodies token := by
  cases position with
  | statement site => exact StatementSite.follows_accept? accepted
  | operand pending site => exact follows_acceptOperand? accepted
  | operator value pending site => exact follows_acceptOperator? accepted
  | firstArgument called pending site =>
      simp only [accept?] at accepted
      split at accepted
      · cases accepted
        rename_i kind
        exact follows_of_ne kind (by decide) (by decide) rfl
      · have follows := follows_acceptOperand? accepted
        exact follows
  | firstParameter mark pending site =>
      simp only [accept?] at accepted
      split at accepted
      · cases accepted
        rename_i kind
        exact follows_of_ne kind (by decide) (by decide) rfl
      · split at accepted <;> cases accepted
        rename_i kind
        exact follows_of_ne kind (by decide) (by decide) rfl
  | parameterEnd earlier mark pending site =>
      simp only [accept?] at accepted
      split at accepted
      · cases accepted
        rename_i kind
        exact follows_of_ne kind (by decide) (by decide) rfl
      · split at accepted <;> cases accepted
        rename_i kind
        exact follows_of_ne kind (by decide) (by decide) rfl
  | bodyStart parameters mark pending site =>
      simp only [accept?] at accepted
      split at accepted <;> cases accepted
      rename_i opens
      rw [Follows, openings_leftBrace opens, closings_leftBrace opens]
      rfl
  | declaredName | declaredEquals | parameterList | parameter =>
      simp only [accept?] at accepted
      split at accepted <;> cases accepted
      rename_i kind
      exact follows_of_ne kind (by decide) (by decide) rfl

end Steps

namespace Position

variable {goal : Goal} {position last : Position goal} {tokens : List Token}

/-- The bodies that tokens leave open are the braces that they open and do not close. -/
theorem Leads.openBodies (leads : position.Leads tokens last) :
    last.openBodies + closings tokens = position.openBodies + openings tokens := by
  induction leads with
  | here => rfl
  | step fits _ ih =>
      have first := follows_accept? fits
      rw [Follows] at first
      rw [openings_cons, closings_cons]
      omega

end Position

end SlotCompiler
