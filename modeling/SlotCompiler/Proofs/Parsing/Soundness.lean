import SlotCompiler.Parsing.Reading
import SlotCompiler.Proofs.Parsing.Grammar

/-!
# What has been read is derived

A position holds finished pieces of a tree.  It is `Spelled` by tokens when these are the tokens
of its open constructs, from the outermost to the innermost, and every finished piece is derived
from its part of them.  A token that fits spells the position behind it together with the tokens
before (`Position.spelled_accept?`); and where a position amounts to the goal, the tokens derive
the goal (`Position.derives_halt`).  So whatever is read is derived from the tokens used up
(`Position.derives_read`).
-/

set_option autoImplicit false

namespace SlotCompiler

/-! ## Operators that wait for an operand -/

/-- The tokens of a left operand and of the operator behind it; none when there is none. -/
def LeftOperand.Spelled (derives : List Token → Expression → Prop)
    (operator? : Token.Kind → Option BinaryOperator) :
    Option LeftOperand → List Token → Prop
  | none, tokens => tokens = []
  | some left, tokens => ∃ operand token, tokens = operand ++ [token] ∧
      derives operand left.value ∧ operator? token.kind = some left.operator ∧
      token.span = left.mark

/-- The tokens of signs, the nearest of which is the last token. -/
def SignsSpelled : List (UnaryOperator × Span) → List Token → Prop
  | [], tokens => tokens = []
  | (operator, mark) :: signs, tokens => ∃ earlier token, tokens = earlier ++ [token] ∧
      SignsSpelled signs earlier ∧ token.kind.sign? = some operator ∧ token.span = mark

namespace Pending

/-- The tokens of the operators that wait for an operand. -/
def Spelled (pending : Pending) (tokens : List Token) : Prop :=
  ∃ sum product signs, tokens = sum ++ (product ++ signs) ∧
    LeftOperand.Spelled Grammar.Sum Token.Kind.sumOperator? pending.sum sum ∧
    LeftOperand.Spelled Grammar.Product Token.Kind.productOperator? pending.product product ∧
    SignsSpelled pending.signs signs

theorem spelled_empty : Spelled {} [] := ⟨[], [], [], rfl, rfl, rfl, rfl⟩

variable {pending : Pending} {tokens operand : List Token} {token : Token} {value : Expression}

/-- Signs and the operand behind them are derived together. -/
theorem unary_of_signs {signs : List (UnaryOperator × Span)} (spelled : SignsSpelled signs tokens)
    (derived : Grammar.Unary operand value) :
    Grammar.Unary (tokens ++ operand)
      (signs.foldl (fun value (operator, mark) => .unary operator value mark) value) := by
  induction signs generalizing tokens operand value with
  | nil =>
      subst spelled
      exact derived
  | cons sign signs ih =>
      obtain ⟨operator, mark⟩ := sign
      obtain ⟨earlier, token, rfl, rest, kind, rfl⟩ := spelled
      rw [List.append_assoc]
      exact ih rest (.sign kind derived)

/-- An operand ends a product. -/
theorem derives_productWith {product signs : List Token}
    (productSpelled : LeftOperand.Spelled Grammar.Product Token.Kind.productOperator?
      pending.product product)
    (signsSpelled : SignsSpelled pending.signs signs) (derived : Grammar.Primary operand value) :
    Grammar.Product (product ++ (signs ++ operand)) (pending.productWith value) := by
  have signed : Grammar.Unary (signs ++ operand) (pending.signed value) :=
    unary_of_signs signsSpelled (.primary derived)
  rw [productWith]
  cases left : pending.product with
  | none =>
      rw [left] at productSpelled
      obtain rfl : product = [] := productSpelled
      exact .unary signed
  | some left =>
      simp only [left] at productSpelled
      obtain ⟨first, token, rfl, firstDerived, kind, mark⟩ := productSpelled
      rw [List.append_assoc, LeftOperand.join, ← mark]
      exact .join firstDerived kind signed

/-- An operand ends a sum. -/
theorem derives_sumWith (spelled : pending.Spelled tokens)
    (derived : Grammar.Primary operand value) :
    Grammar.Sum (tokens ++ operand) (pending.sumWith value) := by
  obtain ⟨sum, product, signs, rfl, sumSpelled, productSpelled, signsSpelled⟩ := spelled
  have factor := derives_productWith productSpelled signsSpelled derived
  rw [List.append_assoc, List.append_assoc, sumWith]
  cases left : pending.sum with
  | none =>
      rw [left] at sumSpelled
      obtain rfl : sum = [] := sumSpelled
      exact .product factor
  | some left =>
      simp only [left] at sumSpelled
      obtain ⟨first, token, rfl, firstDerived, kind, mark⟩ := sumSpelled
      rw [List.append_assoc, LeftOperand.join, ← mark]
      exact .join firstDerived kind factor

theorem spelled_sign {operator : UnaryOperator} (spelled : pending.Spelled tokens)
    (kind : token.kind.sign? = some operator) :
    (pending.sign operator token.span).Spelled (tokens ++ [token]) := by
  obtain ⟨sum, product, signs, rfl, sumSpelled, productSpelled, signsSpelled⟩ := spelled
  refine ⟨sum, product, signs ++ [token], by simp, sumSpelled, productSpelled, ?_⟩
  exact ⟨signs, token, rfl, signsSpelled, kind, rfl⟩

theorem spelled_multiply {operator : BinaryOperator} (spelled : pending.Spelled tokens)
    (derived : Grammar.Primary operand value)
    (kind : token.kind.productOperator? = some operator) :
    (pending.multiply value operator token.span).Spelled (tokens ++ operand ++ [token]) := by
  obtain ⟨sum, product, signs, rfl, sumSpelled, productSpelled, signsSpelled⟩ := spelled
  have factor := derives_productWith productSpelled signsSpelled derived
  refine ⟨sum, product ++ (signs ++ operand) ++ [token], [], by simp, sumSpelled, ?_, rfl⟩
  exact ⟨_, token, rfl, factor, kind, rfl⟩

theorem spelled_add {operator : BinaryOperator} (spelled : pending.Spelled tokens)
    (derived : Grammar.Primary operand value) (kind : token.kind.sumOperator? = some operator) :
    (pending.add value operator token.span).Spelled (tokens ++ operand ++ [token]) := by
  refine ⟨tokens ++ operand ++ [token], [], [], by simp, ?_, rfl, rfl⟩
  exact ⟨_, token, rfl, derives_sumWith spelled derived, kind, rfl⟩

end Pending

/-! ## Constructs that have begun -/

/-- Tokens of what surrounds an operand, then of the operators in front of it, and then of the
operand itself as far as it has been read. -/
def Within (outer : List Token → Prop) (pending : Pending) (inside : List Token → Prop)
    (tokens : List Token) : Prop :=
  ∃ before signs own, tokens = before ++ (signs ++ own) ∧ outer before ∧ pending.Spelled signs ∧
    inside own

/-- The single token of a kind. -/
def Single (kind : Token.Kind) (tokens : List Token) : Prop :=
  ∃ token, tokens = [token] ∧ token.kind = kind

/-- The beginning of a call, up to and with its opening parenthesis. -/
def CallBegun (called : Expression) (tokens : List Token) : Prop :=
  ∃ word callee opening, tokens = word :: (callee ++ [opening]) ∧ word.kind = .keyword .call ∧
    Grammar.Sum callee called ∧ opening.kind = .symbol .leftParenthesis

/-- Arguments, each with a comma behind it. -/
def ArgumentsBegun (earlier : List Expression) (tokens : List Token) : Prop :=
  tokens = [] ∧ earlier = [] ∨ ∃ list comma, tokens = list ++ [comma] ∧
    Grammar.ArgumentList list earlier ∧ comma.kind = .symbol .comma

/-- The beginning of a function literal, up to and with its opening parenthesis. -/
def HeaderBegun (mark : Span) (tokens : List Token) : Prop :=
  ∃ word opening, tokens = [word, opening] ∧ word.kind = .keyword .function ∧ word.span = mark ∧
    opening.kind = .symbol .leftParenthesis

/-- The beginning of a function literal, up to the name of a parameter. -/
def ParametersBegun (mark : Span) (earlier : List String) (tokens : List Token) : Prop :=
  ∃ header list, tokens = header ++ list ∧ HeaderBegun mark header ∧
    Grammar.ParameterList list earlier

/-- The beginning of a function literal, up to and with its closing parenthesis. -/
def Header (mark : Span) (parameters : List String) (tokens : List Token) : Prop :=
  ∃ header list closing, tokens = header ++ (list ++ [closing]) ∧ HeaderBegun mark header ∧
    Grammar.Parameters list parameters ∧ closing.kind = .symbol .rightParenthesis

/-- The beginning of a function literal, up to a place between the statements of its body. -/
def BodyBegun (mark : Span) (parameters : List String) (earlier : List Statement)
    (tokens : List Token) : Prop :=
  ∃ header leftBrace body, tokens = header ++ leftBrace :: body ∧ Header mark parameters header ∧
    leftBrace.kind = .symbol .leftBrace ∧ Grammar.Body body earlier

mutual

/-- The tokens in front of an expression. -/
def ExpressionSite.Spelled {goal : Goal} : ExpressionSite goal → List Token → Prop
  | .goal => fun tokens => tokens = []
  | .parenthesis pending outer => Within outer.Spelled pending (Single (.symbol .leftParenthesis))
  | .callee pending outer => Within outer.Spelled pending (Single (.keyword .call))
  | .argument called earlier pending outer =>
    Within outer.Spelled pending fun tokens => ∃ begun list, tokens = begun ++ list ∧
      CallBegun called begun ∧ ArgumentsBegun earlier list
  | .initializer name outer => fun tokens => ∃ before word identifier equals,
      tokens = before ++ [word, identifier, equals] ∧ outer.Spelled before ∧
      word.kind = .keyword .var ∧ identifier.kind = .identifier ∧ identifier.text = name ∧
      equals.kind = .symbol .equals
  | .returned outer => fun tokens => ∃ before word, tokens = before ++ [word] ∧
      outer.Spelled before ∧ word.kind = .keyword .return
  | .leading outer => outer.Spelled
  | .assigned target outer => fun tokens => ∃ before left equals,
      tokens = before ++ (left ++ [equals]) ∧ outer.Spelled before ∧ Grammar.Sum left target ∧
      equals.kind = .symbol .equals

/-- The tokens in front of a statement. -/
def StatementSite.Spelled {goal : Goal} : StatementSite goal → List Token → Prop
  | .goal => fun tokens => tokens = []
  | .body parameters earlier mark pending outer =>
    Within outer.Spelled pending (BodyBegun mark parameters earlier)

end

/-- The tokens in front of a position. -/
def Position.Spelled {goal : Goal} : Position goal → List Token → Prop
  | .statement site => site.Spelled
  | .operand pending site => Within site.Spelled pending fun tokens => tokens = []
  | .operator value pending site =>
    Within site.Spelled pending fun tokens => Grammar.Primary tokens value
  | .declaredName site => fun tokens => ∃ before word, tokens = before ++ [word] ∧
      site.Spelled before ∧ word.kind = .keyword .var
  | .declaredEquals name site => fun tokens => ∃ before word identifier,
      tokens = before ++ [word, identifier] ∧ site.Spelled before ∧ word.kind = .keyword .var ∧
      identifier.kind = .identifier ∧ identifier.text = name
  | .firstArgument called pending site => Within site.Spelled pending (CallBegun called)
  | .parameterList mark pending site =>
    Within site.Spelled pending fun tokens =>
      ∃ word, tokens = [word] ∧ word.kind = .keyword .function ∧ word.span = mark
  | .firstParameter mark pending site => Within site.Spelled pending (HeaderBegun mark)
  | .parameter earlier mark pending site =>
    Within site.Spelled pending fun tokens => ∃ begun comma, tokens = begun ++ [comma] ∧
      ParametersBegun mark earlier begun ∧ comma.kind = .symbol .comma
  | .parameterEnd earlier mark pending site =>
    Within site.Spelled pending (ParametersBegun mark earlier)
  | .bodyStart parameters mark pending site =>
    Within site.Spelled pending (Header mark parameters)

/-- What reading towards a goal derives. -/
def Goal.Derives : (goal : Goal) → List Token → goal.Result → Prop
  | .expression => Grammar.Sum
  | .statement => Grammar.Sentence

/-! ## A token that fits -/

section Steps

variable {outer : List Token → Prop} {pending : Pending} {inside : List Token → Prop}
  {tokens more : List Token} {token : Token} {value : Expression}

/-- An operand that is about to begin. -/
theorem within_start (before : outer tokens) :
    Within outer {} (fun tokens => tokens = []) tokens :=
  ⟨tokens, [], [], by simp, before, Pending.spelled_empty, rfl⟩

/-- Further tokens of an operand. -/
theorem Within.extend {further : List Token → Prop} (within : Within outer pending inside tokens)
    (grows : ∀ own, inside own → further (own ++ more)) :
    Within outer pending further (tokens ++ more) := by
  obtain ⟨before, signs, own, rfl, outside, spelled, begun⟩ := within
  exact ⟨before, signs, own ++ more, by simp, outside, spelled, grows own begun⟩

/-- The first tokens of an operand. -/
theorem Within.begin (within : Within outer pending (fun tokens => tokens = []) tokens)
    (begun : inside more) : Within outer pending inside (tokens ++ more) := by
  refine within.extend fun own none => ?_
  subst none
  exact begun

/-- A finished operand ends a sum. -/
theorem Within.derives_sumWith
    (within : Within outer pending (fun tokens => Grammar.Primary tokens value) tokens) :
    ∃ before sum, tokens = before ++ sum ∧ outer before ∧
      Grammar.Sum sum (pending.sumWith value) := by
  obtain ⟨before, signs, own, rfl, outside, spelled, derived⟩ := within
  exact ⟨before, signs ++ own, rfl, outside, Pending.derives_sumWith spelled derived⟩

theorem ArgumentsBegun.list_append {earlier : List Expression}
    (begun : ArgumentsBegun earlier tokens) (derived : Grammar.Sum more value) :
    Grammar.ArgumentList (tokens ++ more) (earlier ++ [value]) := by
  rcases begun with ⟨rfl, rfl⟩ | ⟨list, comma, rfl, derivedList, separator⟩
  · exact .first derived
  · rw [List.append_assoc]
    exact .next derivedList separator derived

variable {goal : Goal} {next : Position goal}

theorem Position.spelled_acceptOperand? {site : ExpressionSite goal}
    (spelled : Within site.Spelled pending (fun tokens => tokens = []) tokens)
    (accepted : Position.acceptOperand? pending site token = some next) :
    next.Spelled (tokens ++ [token]) := by
  unfold Position.acceptOperand? at accepted
  split at accepted <;> cases accepted <;> rename_i kind
  · exact spelled.begin (.name kind)
  · exact spelled.begin (.integer kind)
  · exact spelled.begin (.null kind)
  · exact within_start (spelled.begin ⟨token, rfl, kind⟩)
  · exact spelled.begin ⟨token, rfl, kind, rfl⟩
  · exact within_start (spelled.begin ⟨token, rfl, kind⟩)
  all_goals
    obtain ⟨before, signs, own, rfl, outside, signsSpelled, rfl⟩ := spelled
    refine ⟨before, signs ++ [token], [], by simp, outside, ?_, rfl⟩
    exact Pending.spelled_sign signsSpelled (by rw [kind]; rfl)

theorem Position.spelled_acceptStatement? {site : StatementSite goal}
    (spelled : site.Spelled tokens)
    (accepted : Position.acceptStatement? site token = some next) :
    next.Spelled (tokens ++ [token]) := by
  unfold Position.acceptStatement? at accepted
  split at accepted
  · cases accepted
    rename_i kind
    exact ⟨tokens, token, rfl, spelled, kind⟩
  · cases accepted
    rename_i kind
    exact within_start ⟨tokens, token, rfl, spelled, kind⟩
  · have leading : (ExpressionSite.leading site).Spelled tokens := spelled
    exact spelled_acceptOperand? (within_start leading) accepted

theorem StatementSite.spelled_accept? {site : StatementSite goal} (spelled : site.Spelled tokens)
    (accepted : site.accept? token = some next) : next.Spelled (tokens ++ [token]) := by
  unfold StatementSite.accept? at accepted
  split at accepted
  · exact Position.spelled_acceptStatement? spelled accepted
  · split at accepted
    · cases accepted
      rename_i closes
      refine Within.extend spelled fun own begun => ?_
      obtain ⟨_, leftBrace, body, rfl, ⟨_, list, closing, rfl, header, parameters, listCloses⟩,
        opens, derived⟩ := begun
      obtain ⟨word, opening, rfl, begins, rfl, listOpens⟩ := header
      have whole := Grammar.Primary.function begins listOpens parameters listCloses opens derived
        closes
      simpa using whole
    · exact Position.spelled_acceptStatement? spelled accepted

/-- A statement that has been read takes its place in the body around it. -/
theorem StatementSite.spelled_append {parameters : List String} {earlier : List Statement}
    {mark : Span} {site : ExpressionSite goal} {statement : Statement}
    (spelled : (StatementSite.body parameters earlier mark pending site).Spelled tokens)
    (derived : Grammar.Sentence more statement) :
    (StatementSite.body parameters (earlier ++ [statement]) mark pending site).Spelled
      (tokens ++ more) := by
  refine Within.extend spelled fun own begun => ?_
  obtain ⟨header, leftBrace, body, rfl, headerSpelled, opens, bodyDerived⟩ := begun
  exact ⟨header, leftBrace, body ++ more, by simp, headerSpelled, opens, .next bodyDerived derived⟩

theorem StatementSite.spelled_acceptAfter? {site : StatementSite goal} {statement : Statement}
    (spelled : site.Spelled tokens) (derived : Grammar.Sentence more statement)
    (accepted : site.acceptAfter? statement token = some next) :
    next.Spelled (tokens ++ more ++ [token]) := by
  unfold StatementSite.acceptAfter? at accepted
  split at accepted
  · cases accepted
  · exact StatementSite.spelled_accept? (StatementSite.spelled_append spelled derived) accepted

/-- A whole expression ends the statement that wants it. -/
theorem ExpressionSite.spelled_acceptAfter? {site : ExpressionSite goal}
    (spelled : site.Spelled tokens) (derived : Grammar.Sum more value)
    (accepted : site.acceptAfter? value token = some next) :
    next.Spelled (tokens ++ more ++ [token]) := by
  rw [List.append_assoc]
  unfold ExpressionSite.acceptAfter? at accepted
  split at accepted
  · cases accepted
  · split at accepted <;> cases accepted
    rename_i closes
    refine Within.extend spelled fun own begun => ?_
    obtain ⟨opening, rfl, opens⟩ := begun
    exact .parentheses opens derived closes
  · split at accepted <;> cases accepted
    rename_i opens
    refine Within.extend spelled fun own begun => ?_
    obtain ⟨word, rfl, begins⟩ := begun
    exact ⟨word, more, token, rfl, begins, derived, opens⟩
  · split at accepted
    · cases accepted
      rename_i separator
      refine within_start (Within.extend spelled fun own begun => ?_)
      obtain ⟨start, list, rfl, called, earlier⟩ := begun
      refine ⟨start, list ++ (more ++ [token]), by simp, called, .inr ⟨list ++ more, token, ?_⟩⟩
      exact ⟨by simp, earlier.list_append derived, separator⟩
    · split at accepted <;> cases accepted
      rename_i closes
      refine Within.extend spelled fun own begun => ?_
      obtain ⟨_, list, rfl, ⟨word, callee, opening, rfl, begins, called, opens⟩, earlier⟩ := begun
      have whole := Grammar.Primary.call begins called opens
        (.some (earlier.list_append derived)) closes
      simpa using whole
  · obtain ⟨before, word, identifier, equals, rfl, outside, begins, named, rfl, assigns⟩ := spelled
    have sentence := Grammar.Sentence.declare begins named assigns derived
    have next := StatementSite.spelled_acceptAfter? outside sentence accepted
    simpa using next
  · obtain ⟨before, word, rfl, outside, begins⟩ := spelled
    have next := StatementSite.spelled_acceptAfter? outside (.return begins derived) accepted
    simpa using next
  · split at accepted
    · cases accepted
      rename_i assigns
      exact within_start ⟨tokens, more, token, rfl, spelled, derived, assigns⟩
    · have next := StatementSite.spelled_acceptAfter? spelled (.evaluate derived) accepted
      simpa using next
  · obtain ⟨before, left, equals, rfl, outside, assigned, assigns⟩ := spelled
    have sentence := Grammar.Sentence.assign assigned assigns derived
    have next := StatementSite.spelled_acceptAfter? outside sentence accepted
    simpa using next

theorem Position.spelled_acceptOperator? {site : ExpressionSite goal}
    (spelled : (Position.operator value pending site).Spelled tokens)
    (accepted : Position.acceptOperator? value pending site token = some next) :
    next.Spelled (tokens ++ [token]) := by
  have operators : ∀ longer : Pending,
      (∀ signs own, pending.Spelled signs → Grammar.Primary own value →
        longer.Spelled (signs ++ own ++ [token])) →
      (Position.operand longer site).Spelled (tokens ++ [token]) := by
    intro longer spells
    obtain ⟨before, signs, own, rfl, outside, signsSpelled, derived⟩ := spelled
    exact ⟨before, signs ++ own ++ [token], [], by simp, outside, spells _ _ signsSpelled derived,
      rfl⟩
  unfold Position.acceptOperator? at accepted
  split at accepted
  · cases accepted
    rename_i kind
    exact operators _ fun _ _ signs own => Pending.spelled_multiply signs own (by rw [kind]; rfl)
  · cases accepted
    rename_i kind
    exact operators _ fun _ _ signs own => Pending.spelled_multiply signs own (by rw [kind]; rfl)
  · cases accepted
    rename_i kind
    exact operators _ fun _ _ signs own => Pending.spelled_add signs own (by rw [kind]; rfl)
  · cases accepted
    rename_i kind
    exact operators _ fun _ _ signs own => Pending.spelled_add signs own (by rw [kind]; rfl)
  · obtain ⟨before, sum, rfl, outside, derived⟩ := Within.derives_sumWith spelled
    exact ExpressionSite.spelled_acceptAfter? outside derived accepted

/-- **A token that fits spells the position behind it**, with the tokens before. -/
theorem Position.spelled_accept? {position : Position goal} (spelled : position.Spelled tokens)
    (accepted : position.accept? token = some next) : next.Spelled (tokens ++ [token]) := by
  cases position with
  | statement site => exact StatementSite.spelled_accept? spelled accepted
  | operand pending site => exact Position.spelled_acceptOperand? spelled accepted
  | operator value pending site => exact Position.spelled_acceptOperator? spelled accepted
  | declaredName site =>
      obtain ⟨before, word, rfl, outside, begins⟩ := spelled
      simp only [Position.accept?] at accepted
      split at accepted <;> cases accepted
      rename_i named
      exact ⟨before, word, token, by simp, outside, begins, named, rfl⟩
  | declaredEquals name site =>
      obtain ⟨before, word, identifier, rfl, outside, begins, named, same⟩ := spelled
      simp only [Position.accept?] at accepted
      split at accepted <;> cases accepted
      rename_i assigns
      exact within_start ⟨before, word, identifier, token, by simp, outside, begins, named, same,
        assigns⟩
  | firstArgument called pending site =>
      simp only [Position.accept?] at accepted
      split at accepted
      · cases accepted
        rename_i closes
        refine Within.extend spelled fun own begun => ?_
        obtain ⟨word, callee, opening, rfl, begins, derived, opens⟩ := begun
        have whole := Grammar.Primary.call begins derived opens .none closes
        simpa using whole
      · have site : (ExpressionSite.argument called [] pending site).Spelled tokens := by
          obtain ⟨before, signs, own, rfl, outside, signsSpelled, begun⟩ := spelled
          exact ⟨before, signs, own, rfl, outside, signsSpelled, own, [], by simp, begun,
            .inl ⟨rfl, rfl⟩⟩
        exact Position.spelled_acceptOperand? (within_start site) accepted
  | parameterList mark pending site =>
      simp only [Position.accept?] at accepted
      split at accepted <;> cases accepted
      rename_i opens
      refine Within.extend spelled fun own begun => ?_
      obtain ⟨word, rfl, begins, marked⟩ := begun
      exact ⟨word, token, rfl, begins, marked, opens⟩
  | firstParameter mark pending site =>
      simp only [Position.accept?] at accepted
      split at accepted
      · cases accepted
        rename_i closes
        exact Within.extend spelled fun own begun => ⟨own, [], token, rfl, begun, .none, closes⟩
      · split at accepted <;> cases accepted
        rename_i named
        exact Within.extend spelled fun own begun => ⟨own, [token], rfl, begun, .first named⟩
  | parameter earlier mark pending site =>
      simp only [Position.accept?] at accepted
      split at accepted <;> cases accepted
      rename_i named
      refine Within.extend spelled fun own begun => ?_
      obtain ⟨_, comma, rfl, ⟨header, list, rfl, begun, derived⟩, separator⟩ := begun
      exact ⟨header, list ++ [comma, token], by simp, begun, .next derived separator named⟩
  | parameterEnd earlier mark pending site =>
      simp only [Position.accept?] at accepted
      split at accepted
      · cases accepted
        rename_i separator
        exact Within.extend spelled fun own begun => ⟨own, token, rfl, begun, separator⟩
      · split at accepted <;> cases accepted
        rename_i closes
        refine Within.extend spelled fun own begun => ?_
        obtain ⟨header, list, rfl, begun, derived⟩ := begun
        exact ⟨header, list, token, by simp, begun, .some derived, closes⟩
  | bodyStart parameters mark pending site =>
      simp only [Position.accept?] at accepted
      split at accepted <;> cases accepted
      rename_i opens
      exact Within.extend spelled fun own begun => ⟨own, token, [], rfl, begun, opens, .none⟩

/-! ## A token that does not fit -/

theorem StatementSite.derives_haltAfter {site : StatementSite goal} {statement : Statement}
    {result : goal.Result} (spelled : site.Spelled tokens)
    (derived : Grammar.Sentence more statement)
    (halted : site.haltAfter statement token = .ok result) :
    goal.Derives (tokens ++ more) result := by
  cases site with
  | goal =>
      cases halted
      obtain rfl : tokens = [] := spelled
      exact derived
  | body => cases halted

/-- **Where a position amounts to the goal, the tokens derive it.** -/
theorem Position.derives_halt {position : Position goal} {result : goal.Result}
    (spelled : position.Spelled tokens) (halted : position.halt token = .ok result) :
    goal.Derives tokens result := by
  cases position <;> try cases halted
  rename_i value pending site
  obtain ⟨before, sum, rfl, outside, derived⟩ := Within.derives_sumWith spelled
  have halted : site.haltAfter (pending.sumWith value) token = .ok result := halted
  cases site with
  | goal =>
      cases halted
      obtain rfl : before = [] := outside
      exact derived
  | parenthesis => cases halted
  | callee => cases halted
  | argument => cases halted
  | initializer name outer =>
      obtain ⟨front, word, identifier, equals, rfl, further, begins, named, rfl, assigns⟩ := outside
      have sentence := Grammar.Sentence.declare begins named assigns derived
      have whole := StatementSite.derives_haltAfter further sentence halted
      simpa using whole
  | returned outer =>
      obtain ⟨front, word, rfl, further, begins⟩ := outside
      have whole := StatementSite.derives_haltAfter further (.return begins derived) halted
      simpa using whole
  | leading outer => exact StatementSite.derives_haltAfter outside (.evaluate derived) halted
  | assigned target outer =>
      obtain ⟨front, left, equals, rfl, further, assigned, assigns⟩ := outside
      have sentence := Grammar.Sentence.assign assigned assigns derived
      have whole := StatementSite.derives_haltAfter further sentence halted
      simpa using whole

/-! ## Reading -/

theorem Position.derives_stopAt {position : Position goal} {kept used : List Token} {trail : Trail}
    {result : goal.Result} (spelled : position.Spelled tokens)
    (stopped : (position.stopAt token kept used trail).outcome = .ok result) :
    (position.stopAt token kept used trail).rest = kept ∧ goal.Derives tokens result := by
  unfold Position.stopAt at stopped ⊢
  split at stopped
  · rename_i halted
    cases stopped
    exact ⟨rfl, Position.derives_halt spelled halted⟩
  · dsimp only at stopped
    split at stopped <;> cases stopped

/-- **What is read is derived from the tokens used up**, in order and without a gap. -/
theorem Position.derives_read {position : Position goal} {final : Token} {trail : Trail}
    {result : goal.Result} (spelled : position.Spelled tokens)
    (done : (position.read final trail more).outcome = .ok result) :
    ∃ used, more = used ++ (position.read final trail more).rest ∧
      goal.Derives (tokens ++ used) result := by
  induction more generalizing position trail tokens with
  | nil =>
      obtain ⟨rest, derived⟩ := Position.derives_stopAt spelled done
      exact ⟨[], rest.symm, by rwa [List.append_nil]⟩
  | cons token more ih =>
      cases accepted : position.accept? token with
      | some next =>
          rw [Position.read_of_accept accepted] at done ⊢
          obtain ⟨used, split, derived⟩ := ih (Position.spelled_accept? spelled accepted) done
          refine ⟨token :: used, congrArg (token :: ·) split, ?_⟩
          simpa using derived
      | none =>
          rw [Position.read_of_reject accepted] at done ⊢
          obtain ⟨rest, derived⟩ := Position.derives_stopAt spelled done
          exact ⟨[], rest.symm, by rwa [List.append_nil]⟩

end Steps

end SlotCompiler
