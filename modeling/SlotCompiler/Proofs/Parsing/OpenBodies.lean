import Mathlib.Data.List.TakeWhile
import SlotCompiler.Proofs.Parsing.Braces

/-!
# Recovery inside function bodies

When a statement fails inside function bodies, the whole literal around them belongs to the failed
statement: parsing goes on behind the brace that closes the outermost body, on a later line
(`ResumesAt`).  The braces that recovery goes by are those of the tokens from the refused one on,
with one exception: an opening brace that is refused and used up is not counted
(`Mishap.counted`).  So parsing goes on where the braces of the source say unless the refused
token is such a brace, and then it goes on as if that brace was not there
(`Parser.resumes_behind_outermost`).
-/

set_option autoImplicit false

namespace SlotCompiler

/-! ## Closing open bodies -/

/-- At no place in the tokens are all of a number of open bodies closed. -/
def StaysOpen (depth : Nat) (tokens : List Token) : Prop :=
  ∀ front, front <+: tokens → closings front < depth + openings front

section StaysOpen

variable {depth deeper : Nat} {token : Token} {tokens more : List Token}

theorem staysOpen_nil (some : 0 < depth) : StaysOpen depth [] := by
  intro front none
  rw [List.prefix_nil.mp none]
  exact some

theorem StaysOpen.cons (stays : StaysOpen deeper tokens) (some : 0 < depth)
    (counts : deeper + closings [token] = depth + openings [token]) :
    StaysOpen depth (token :: tokens) := by
  intro front isFront
  rcases List.prefix_cons_iff.mp isFront with rfl | ⟨part, rfl, isPart⟩
  · exact some
  · have inside := stays part isPart
    rw [openings_cons, closings_cons]
    omega

theorem StaysOpen.append (first : StaysOpen depth tokens) (second : StaysOpen deeper more)
    (counts : deeper + closings tokens = depth + openings tokens) :
    StaysOpen depth (tokens ++ more) := by
  intro front isFront
  rcases List.prefix_or_prefix_of_prefix isFront (List.prefix_append tokens more) with
    short | ⟨rest, rfl⟩
  · exact first front short
  · have inside := second rest ((List.prefix_append_right_inj tokens).mp isFront)
    rw [openings_append, closings_append]
    omega

/-- With one body open, closing fewer braces than are open means not closing the body. -/
theorem StaysOpen.balanced (stays : StaysOpen 1 tokens) (counts : closings tokens = openings tokens) :
    Balanced tokens :=
  ⟨fun front isFront => by have := stays front isFront; omega, counts⟩

end StaysOpen

/-- How dropping tokens ends when some bodies are open: behind the first brace that closes the last
one of them, or else at the end. -/
inductive Closes (final : Token) (depth : Nat) : List Token → List Token × Nat → Prop where
  | closed {inside behind : List Token} {close : Token} (stays : StaysOpen depth inside)
      (brace : close.kind = .symbol .rightBrace)
      (counts : closings inside + 1 = depth + openings inside) :
      Closes final depth (inside ++ close :: behind) (behind, close.line)
  | unclosed {tokens : List Token} (stays : StaysOpen depth tokens) :
      Closes final depth tokens ([], final.line)

/-- Dropping one more token in front. -/
theorem Closes.cons {final : Token} {depth deeper : Nat} {token : Token} {tokens : List Token}
    {result : List Token × Nat} (closes : Closes final deeper tokens result) (some : 0 < depth)
    (counts : deeper + closings [token] = depth + openings [token]) :
    Closes final depth (token :: tokens) result := by
  cases closes with
  | @closed inside behind close stays brace inner =>
      have total : closings (token :: inside) + 1 = depth + openings (token :: inside) := by
        rw [openings_cons, closings_cons]
        omega
      exact .closed (stays.cons some counts) brace total
  | unclosed stays => exact .unclosed (stays.cons some counts)

theorem closes_closeBodies (final : Token) {depth : Nat} (some : 0 < depth) (line : Nat)
    (tokens : List Token) :
    Closes final depth tokens (Parser.closeBodies final depth line tokens) := by
  induction tokens generalizing depth line with
  | nil =>
      obtain ⟨depth, rfl⟩ := Nat.exists_eq_succ_of_ne_zero (Nat.ne_of_gt some)
      exact .unclosed (staysOpen_nil some)
  | cons token tokens ih =>
      obtain ⟨depth, rfl⟩ := Nat.exists_eq_succ_of_ne_zero (Nat.ne_of_gt some)
      rw [Parser.closeBodies]
      split
      · rename_i opens
        refine (ih (Nat.succ_pos _) token.line).cons some ?_
        rw [openings_leftBrace opens, closings_leftBrace opens]
      · rename_i other
        split
        · rename_i brace
          have counts : closings [token] = 1 ∧ openings [token] = 0 :=
            ⟨closings_rightBrace brace, openings_rightBrace brace⟩
          cases depth with
          | zero =>
              rw [Parser.closeBodies]
              exact @Closes.closed final 1 [] tokens token (staysOpen_nil some) brace rfl
          | succ depth =>
              refine (ih (Nat.succ_pos _) token.line).cons some ?_
              rw [counts.1, counts.2]
        · rename_i another
          refine (ih some token.line).cons some ?_
          rw [openings_of_ne other, closings_of_ne another]

/-- The tokens whose braces recovery goes by, out of those from the refused one on: an opening
brace that has been used up is not counted. -/
def Mishap.counted (mishap : Mishap) (behind : List Token) : List Token :=
  if mishap.refusal.consumed = true ∧ mishap.token.kind = .symbol .leftBrace then behind.tail
  else behind

namespace Parser

variable {parser : Parser} {mishap : Mishap}

/-- Where a parser that recovers inside bodies goes on. -/
theorem rest_recover_of_open {behind : List Token} (some : 0 < parser.openBodies)
    (stops : mishap.StopsAt parser.final behind parser.rest)
    (last : mishap.refusal.consumed = true → parser.trail.last = mishap.token.line) :
    ∃ dropped, Closes parser.final parser.openBodies (mishap.counted behind) dropped ∧
      (parser.recover mishap).rest = dropLine dropped.2 dropped.1 := by
  unfold recover Mishap.counted
  dsimp only
  rw [if_pos some]
  refine ⟨_, ?_, rfl⟩
  generalize parser.rest = rest at stops
  have whole := closes_closeBodies parser.final some parser.trail.last
  cases stops with
  | final same =>
      have kind : mishap.token.kind = .endOfFile := same ▸ parser.final_kind
      have other : (Token.Kind.endOfFile == .symbol .rightBrace) = false := rfl
      simp only [kind, other, Bool.and_false, Bool.false_eq_true, if_false, List.tail_nil, ite_self]
      exact whole []
  | @left more consumed =>
      simp only [consumed, Bool.false_and, Bool.false_eq_true, false_and, if_false]
      exact whole _
  | used consumed =>
      simp only [consumed, Bool.true_and, true_and]
      by_cases opens : mishap.token.kind = .symbol .leftBrace
      · simp only [opens, if_true, List.tail_cons]
        exact whole rest
      · rw [if_neg opens]
        by_cases closes : mishap.token.kind = .symbol .rightBrace
        · -- a brace that has been used up closes a body in any case
          have first := closes_closeBodies parser.final some parser.trail.last
            (mishap.token :: rest)
          obtain ⟨depth, bodies⟩ := Nat.exists_eq_succ_of_ne_zero (Nat.ne_of_gt some)
          rw [bodies, closeBodies, if_neg opens, if_pos closes, ← last consumed] at first
          simpa [closes, bodies] using first
        · have other : (mishap.token.kind == .symbol .rightBrace) = false :=
            beq_eq_false_iff_ne.mpr closes
          rw [other, if_neg Bool.false_ne_true]
          refine (whole rest).cons some ?_
          rw [openings_of_ne opens, closings_of_ne closes]

/-- Dropping the rest of a line leaves what stands on later lines. -/
theorem lt_line_of_mem_dropLine {line : Nat} {tokens : List Token}
    (sorted : tokens.Pairwise fun first second => first.line ≤ second.line)
    (least : ∀ token ∈ tokens, line ≤ token.line) :
    ∀ token ∈ dropLine line tokens, line < token.line := by
  induction tokens with
  | nil => exact List.forall_mem_nil _
  | cons token tokens ih =>
      rw [List.pairwise_cons] at sorted
      rw [List.forall_mem_cons] at least
      rw [dropLine, List.dropWhile_cons]
      split
      · exact ih sorted.2 least.2
      · rename_i other
        have later : line < token.line :=
          Nat.lt_of_le_of_ne least.1 fun same => other (beq_iff_eq.mpr same.symm)
        rw [List.forall_mem_cons]
        exact ⟨later, fun next member => Nat.lt_of_lt_of_le later (sorted.1 next member)⟩

end Parser

/-! ## The outermost open body -/

/-- Where parsing goes on when it follows the braces of the tokens behind an opening brace: at the
first token on a later line than the closing brace that is its partner, or at the end if it has
none. -/
inductive ResumesAt : List Token → List Token → Prop where
  | closed {inside sameLine rest : List Token} {close : Token} (balanced : Balanced inside)
      (brace : close.kind = .symbol .rightBrace)
      (same : ∀ token ∈ sameLine, token.line = close.line)
      (later : ∀ token ∈ rest, close.line < token.line) :
      ResumesAt (inside ++ close :: (sameLine ++ rest)) rest
  | unclosed {tokens : List Token}
      (none : ∀ inside close behind, tokens = inside ++ close :: behind → Balanced inside →
        close.kind ≠ .symbol .rightBrace) :
      ResumesAt tokens []

theorem resumesAt_of_closes {final : Token} {depth : Nat} {inner tokens : List Token}
    {dropped : List Token × Nat} (closes : Closes final depth tokens dropped)
    (stays : StaysOpen 1 inner) (counts : depth + closings inner = 1 + openings inner)
    (sorted : (inner ++ tokens).Pairwise fun first second => first.line ≤ second.line) :
    ResumesAt (inner ++ tokens) (Parser.dropLine dropped.2 dropped.1) := by
  cases closes with
  | @closed inside behind close further brace total =>
      have whole : inner ++ (inside ++ close :: behind) = (inner ++ inside) ++ close ::
          (behind.takeWhile (·.line == close.line) ++ Parser.dropLine close.line behind) := by
        rw [Parser.dropLine, List.takeWhile_append_dropWhile, List.append_assoc]
      rw [← List.append_assoc] at sorted
      have lines := List.pairwise_cons.mp (List.pairwise_append.mp sorted).2.1
      have balanced : Balanced (inner ++ inside) := by
        refine (stays.append further counts).balanced ?_
        rw [openings_append, closings_append]
        omega
      rw [whole]
      refine .closed balanced brace (fun token member => ?_)
        (Parser.lt_line_of_mem_dropLine lines.2 lines.1)
      exact beq_iff_eq.mp (@List.mem_takeWhile_imp Token (·.line == close.line) _ _ member)
  | unclosed further =>
      refine .unclosed fun inside close behind split_ balanced brace => ?_
      have part : inside ++ [close] <+: inner ++ tokens := ⟨behind, by rw [split_]; simp⟩
      have open_ := stays.append further counts _ part
      have same := balanced.closings_eq
      rw [openings_append, closings_append, openings_rightBrace brace,
        closings_rightBrace brace] at open_
      omega

namespace Position

variable {goal : Goal} {position last : Position goal} {front inner tokens : List Token}
  {opening : Token}

/-- A brace opens the outermost of the bodies that are open behind some tokens: in front of it no
body is open, and behind it there always is one. -/
structure OpensOutermost (position : Position goal) (front : List Token) (opening : Token)
    (inner : List Token) : Prop where
  brace : opening.kind = .symbol .leftBrace
  outside : ∃ place, position.Leads front place ∧ place.openBodies = 0
  inside : ∀ part, part <+: inner →
    ∃ place, position.Leads (front ++ opening :: part) place ∧ 0 < place.openBodies

/-- If a body is open in the end, then one was open all the time, or some brace opened the
outermost body. -/
theorem Leads.outermost (leads : position.Leads tokens last) (some : 0 < last.openBodies) :
    (∀ part, part <+: tokens → ∃ place, position.Leads part place ∧ 0 < place.openBodies) ∨
      ∃ front opening inner, tokens = front ++ opening :: inner ∧
        position.OpensOutermost front opening inner := by
  induction leads with
  | here position =>
      refine .inl fun part isPart => ⟨position, ?_, some⟩
      rw [List.prefix_nil.mp isPart]
      exact .here position
  | @step position next last token tokens fits further ih =>
      rcases ih some with always | ⟨front, opening, inner, rfl, brace, outside, inside⟩
      · by_cases outside : position.openBodies = 0
        · obtain ⟨_, here, open_⟩ := always [] List.nil_prefix
          cases here
          have brace : token.kind = .symbol .leftBrace := by
            by_contra other
            have counts := follows_accept? fits
            rw [Follows, openings_of_ne other, outside] at counts
            omega
          refine .inr ⟨[], token, tokens, rfl, brace, ⟨position, .here _, outside⟩, ?_⟩
          intro part isPart
          obtain ⟨place, leads, open_⟩ := always part isPart
          exact ⟨place, .step fits leads, open_⟩
        · refine .inl fun part isPart => ?_
          rcases List.prefix_cons_iff.mp isPart with rfl | ⟨further, rfl, isFurther⟩
          · exact ⟨position, .here _, Nat.pos_of_ne_zero outside⟩
          · obtain ⟨place, leads, open_⟩ := always further isFurther
            exact ⟨place, .step fits leads, open_⟩
      · obtain ⟨place, leads, none⟩ := outside
        refine .inr ⟨token :: front, opening, inner, rfl, brace, ⟨place, .step fits leads, none⟩, ?_⟩
        intro part isPart
        obtain ⟨place, leads, open_⟩ := inside part isPart
        exact ⟨place, .step fits leads, open_⟩

theorem OpensOutermost.staysOpen (outermost : position.OpensOutermost front opening inner) :
    StaysOpen 1 inner := by
  intro part isPart
  obtain ⟨place, leads, none⟩ := outermost.outside
  obtain ⟨later, leadsOn, some⟩ := outermost.inside part isPart
  have before := leads.openBodies
  have behind := leadsOn.openBodies
  rw [openings_append, closings_append, openings_cons, closings_cons,
    openings_leftBrace outermost.brace, closings_leftBrace outermost.brace] at behind
  omega

theorem OpensOutermost.openBodies (outermost : position.OpensOutermost front opening inner)
    (leads : position.Leads (front ++ opening :: inner) last) :
    last.openBodies + closings inner = 1 + openings inner := by
  obtain ⟨place, leadsThere, none⟩ := outermost.outside
  have before := leadsThere.openBodies
  have behind := leads.openBodies
  rw [openings_append, closings_append, openings_cons, closings_cons,
    openings_leftBrace outermost.brace, closings_leftBrace outermost.brace] at behind
  omega

end Position

/-! ## The run behind a literal -/

theorem Mishap.counted_suffix (mishap : Mishap) (behind : List Token) :
    mishap.counted behind <:+ behind := by
  unfold counted
  split
  · exact List.tail_suffix behind
  · exact List.suffix_refl behind

namespace Parser

/-- An attempt is refused inside bodies, the outermost of which is opened by `opening`, and the run
goes on with `next` behind that body: nothing in front of `next` is read or refused again. -/
structure Skips (attempt : Parser) (mishap : Mishap) (front : List Token) (opening : Token)
    (inner behind : List Token) (next : Parser) (later : List Parser) : Prop where
  tokens : attempt.rest = front ++ opening :: (inner ++ behind)
  opens : (Position.statement .goal).OpensOutermost front opening inner
  /-- The refused token is the first one behind those that were read, or the last one of all. -/
  refused : (behind ++ [attempt.final]).head? = some mishap.token
  resumes : ResumesAt (inner ++ mishap.counted behind) next.rest
  /-- The attempts that follow are those of the run that goes on. -/
  run : later = next.attempts
  attempts : ∀ attempt ∈ later, attempt.rest <:+ next.rest
  setbacks : ∀ setback ∈ later.filterMap setback?,
    setback.mishap.token ∈ next.rest ++ [attempt.final]

theorem skips_of_error {attempt : Parser} {mishap : Mishap} (outside : attempt.openBodies = 0)
    (failed : attempt.statement.1 = .error mishap) (some : 0 < mishap.openBodies)
    (sorted : attempt.rest.Pairwise fun first second => first.line ≤ second.line) :
    ∃ front opening inner behind,
      attempt.Skips mishap front opening inner behind (attempt.statement.2.recover mishap)
        (attempt.statement.2.recover mishap).attempts := by
  obtain ⟨used, behind, last, tokens, leads, -, bodies, stops⟩ := Position.read_of_error failed
  have deep : attempt.statement.2.openBodies = last.openBodies := by
    rw [openBodies_statement_of_error failed, outside, Nat.zero_add, bodies]
  rcases leads.outermost (bodies ▸ some) with always | ⟨front, opening, inner, rfl, opens⟩
  · obtain ⟨_, here, inside⟩ := always [] List.nil_prefix
    cases here
    exact absurd inside (Nat.lt_irrefl 0)
  · obtain ⟨dropped, closes, rest⟩ := rest_recover_of_open (deep ▸ bodies ▸ some) stops
      fun consumed => (Position.read_consumed failed consumed).2
    have whole : attempt.rest = front ++ opening :: (inner ++ behind) := by
      rw [tokens, List.append_assoc, List.cons_append]
    have part : (inner ++ mishap.counted behind).Sublist attempt.rest := by
      rw [whole]
      refine List.Sublist.trans ?_ (List.sublist_append_right front _)
      exact .cons opening (.append (.refl inner) (mishap.counted_suffix behind).sublist)
    rw [deep] at closes
    refine ⟨front, opening, inner, behind, whole, opens, stops.head, ?_, rfl, ?_, ?_⟩
    · rw [rest]
      exact resumesAt_of_closes closes opens.staysOpen (opens.openBodies leads) (sorted.sublist part)
    · exact fun further member => (rest_of_mem_attempts _ openBodies_recover member).1
    · intro setback member
      rw [← setbacks_eq_filterMap] at member
      have remains := token_mem_remaining _ setback member
      rwa [remaining, final_recover] at remains

/-- **Recovery inside function bodies follows the braces** of the tokens from the refused one on,
but does not count an opening brace that is refused and used up.  With a listener that never gives
up, whenever a statement is refused while bodies are open, the run goes on at the first token on a
later line than the brace that closes the outermost of them, or at the end if there is no such
brace, and nothing in front of that token is read or refused again. -/
theorem resumes_behind_outermost {σ : Type} [Listener σ] {listener : σ}
    (resumes : Listener.Resumes listener) (source : Source) :
    (unit listener (ofSource source)).1 = .ok ⟨[], (ofSource source).found⟩ ∧
    (unit listener (ofSource source)).2.2 = Listener.told listener
      (((ofSource source).attempts.filterMap setback?).map Setback.diagnostic) ∧
    ∀ earlier attempt later mishap, (ofSource source).attempts = earlier ++ attempt :: later →
      attempt.statement.1 = .error mishap → 0 < mishap.openBodies →
      attempt.rest <:+ source.tokens ∧ attempt.final = source.endToken ∧
      ∃ front opening inner behind next,
        attempt.Skips mishap front opening inner behind next later := by
  obtain ⟨result, told⟩ := unit_of_resumes resumes (ofSource source)
  rw [setbacks_eq_filterMap] at told
  refine ⟨result, told, fun earlier attempt later mishap split_ failed some => ?_⟩
  obtain ⟨suffix, final, outside⟩ := rest_of_mem_attempts (ofSource source) rfl
    (show attempt ∈ _ from split_ ▸ List.mem_append_right earlier List.mem_cons_self)
  have sorted := (List.pairwise_append.mp source.pairwise_tokens).1.sublist suffix.sublist
  obtain ⟨more, run⟩ := attempts_of_append _ split_
  rw [attempts_of_error more failed] at run
  obtain ⟨front, opening, inner, behind, skips⟩ :=
    skips_of_error outside failed some (sorted.imp And.right)
  rw [List.tail_eq_of_cons_eq run] at skips
  exact ⟨suffix, final, front, opening, inner, behind, _, skips⟩

/-- A parenthesis that is refused in a body, on a line of its own: the body is skipped. -/
theorem resumes_behind_parenthesis :
    ∃ front opening inner behind next later,
      (ofSource (.ofString "function() \x7b\n)\n\x7d\nb")).Skips
        ⟨⟨.symbol .rightParenthesis, ")", ⟨13, 14⟩, 1⟩, ⟨.expressionExpected, true⟩, 1⟩
        front opening inner behind next later := by
  have failed := mishap_setback?.mp (show
    (ofSource (.ofString "function() \x7b\n)\n\x7d\nb")).setback?.map Setback.mishap =
      some ⟨⟨.symbol .rightParenthesis, ")", ⟨13, 14⟩, 1⟩, ⟨.expressionExpected, true⟩, 1⟩ by
    decide +kernel)
  have more : (ofSource (.ofString "function() \x7b\n)\n\x7d\nb")).rest ≠ [] := by decide +kernel
  obtain ⟨-, -, front, opening, inner, behind, next, skips⟩ :=
    (resumes_behind_outermost Transcript.resumes_always
      (.ofString "function() \x7b\n)\n\x7d\nb")).2.2 [] _ _ _
      (attempts_of_error more failed) failed (by decide)
  exact ⟨front, opening, inner, behind, next, _, skips⟩

/-- An opening brace that is refused and used up has its partner inside the body, but the run goes
on behind that partner: the name that follows is a statement, and the brace that closes the body is
refused as well. -/
theorem resumes_inside_body :
    let source := Source.ofString "function() \x7b\n\x7b\n\x7d\nb\n\x7d"
    (source.tokens.map fun token => (token.kind, token.span)).drop 3 =
      [(.symbol .leftBrace, ⟨11, 12⟩), (.symbol .leftBrace, ⟨13, 14⟩),
        (.symbol .rightBrace, ⟨15, 16⟩), (.identifier, ⟨17, 18⟩),
        (.symbol .rightBrace, ⟨19, 20⟩)] ∧
    Balanced ((source.tokens.drop 4).take 3) ∧
    (unit (Transcript.always .resume) (ofSource source)).2.2.received =
      [⟨.expressionExpected, ⟨13, 14⟩⟩, ⟨.expressionExpected, ⟨19, 20⟩⟩] ∧
    (ofSource source).found.length = 1 := by
  decide +kernel

end Parser

end SlotCompiler
