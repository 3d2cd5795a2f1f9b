import Mathlib.Data.List.Forall2
import SlotCompiler.Parsing.Reading
import SlotCompiler.Proofs.Parsing.Grammar

/-!
# What can be derived can be read

Tokens lead from a position to another one when each of them fits (`Position.Leads`).  For every
rule of the grammar there is a rule of reading: if the parts of a construct lead from the place
where they are wanted to the place behind them, whatever surrounds it, then so do the tokens of the
construct (namespace `Reads`).

Statements have no separators.  The place behind a statement differs from the place in front of the
next one, but only for tokens that join it to what follows (`Token.Kind.joins`); so statements that
begin with other tokens can be read one behind the other (`Reads.Body.sentences`).
-/

set_option autoImplicit false

namespace SlotCompiler

/-- Whether a token goes on with a statement whose last expression is already complete. -/
def Token.Kind.joins : Token.Kind → Bool
  | .symbol .plus | .symbol .minus | .symbol .star | .symbol .slash | .symbol .equals => true
  | _ => false

namespace Position

variable {goal : Goal}

/-- Tokens lead from a position to another one when each of them fits. -/
inductive Leads : Position goal → List Token → Position goal → Prop where
  | here (position : Position goal) : Leads position [] position
  | step {position next last : Position goal} {token : Token} {tokens : List Token}
      (fits : position.accept? token = some next) (further : Leads next tokens last) :
      Leads position (token :: tokens) last

variable {position next last : Position goal} {tokens more : List Token} {token : Token}

theorem Leads.one (fits : position.accept? token = some next) : Leads position [token] next :=
  .step fits (.here next)

theorem Leads.trans (first : Leads position tokens next) :
    Leads next more last → Leads position (tokens ++ more) last := by
  intro second
  induction first with
  | here => exact second
  | step fits _ ih => exact .step fits (ih second)

/-- A place where the first token fits in the same way leads on in the same way. -/
theorem Leads.of_first {other : Position goal} (leads : Leads position tokens next)
    (moves : position ≠ next)
    (same : ∀ token more after, tokens = token :: more → position.accept? token = some after →
      other.accept? token = some after) : Leads other tokens next := by
  cases leads with
  | here => exact absurd rfl moves
  | step fits further => exact .step (same _ _ _ rfl fits) further

/-- Reading follows tokens that fit. -/
theorem Leads.read (leads : Leads position tokens next) (final : Token) (trail : Trail)
    (rest : List Token) : ∃ later, position.read final trail (tokens ++ rest) =
      next.read final later rest := by
  induction leads generalizing trail with
  | here => exact ⟨trail, rfl⟩
  | step fits _ ih =>
      obtain ⟨later, same⟩ := ih (trail.push _)
      exact ⟨later, by rw [List.cons_append, read_of_accept fits, same]⟩

/-- Behind an operand, a token that does not join anything ends the whole expression. -/
theorem accept?_operator {operand : Expression} {pending : Pending} {site : ExpressionSite goal}
    (apart : token.kind.joins = false) :
    (operator operand pending site).accept? token =
      site.acceptAfter? (pending.sumWith operand) token := by
  simp only [accept?, acceptOperator?]
  split
  case h_5 => rfl
  all_goals
    rename_i kind
    rw [kind] at apart
    cases apart

end Position

namespace Reads

variable {tokens more left right : List Token} {token : Token} {value first second : Expression}

/-! ## Expressions -/

/-- The tokens of an operand. -/
def Primary (tokens : List Token) (value : Expression) : Prop :=
  ∀ {goal : Goal} (pending : Pending) (site : ExpressionSite goal),
    (Position.operand pending site).Leads tokens (.operator value pending site)

/-- The tokens of an operand with operators in front of it. -/
def Unary (tokens : List Token) (value : Expression) : Prop :=
  ∀ {goal : Goal} (pending : Pending) (site : ExpressionSite goal), ∃ operand later,
    (Position.operand pending site).Leads tokens (.operator operand later site) ∧
      later.sum = pending.sum ∧ later.product = pending.product ∧
      later.signed operand = pending.signed value

/-- The tokens of a product. -/
def Product (tokens : List Token) (value : Expression) : Prop :=
  ∀ {goal : Goal} (sum : Option LeftOperand) (site : ExpressionSite goal), ∃ operand later,
    (Position.operand ⟨sum, none, []⟩ site).Leads tokens (.operator operand later site) ∧
      later.sum = sum ∧ later.productWith operand = value

/-- The tokens of a sum. -/
def Sum (tokens : List Token) (value : Expression) : Prop :=
  ∀ {goal : Goal} (site : ExpressionSite goal), ∃ operand later,
    (Position.operand {} site).Leads tokens (.operator operand later site) ∧
      later.sumWith operand = value

theorem Unary.primary (bare : Primary tokens value) : Unary tokens value :=
  fun pending site => ⟨value, pending, bare pending site, rfl, rfl, rfl⟩

theorem Unary.sign {operator : UnaryOperator} (mark : token.kind.sign? = some operator)
    (operand : Unary tokens value) :
    Unary (token :: tokens) (.unary operator value token.span) := by
  intro goal pending site
  obtain ⟨inner, later, leads, sum, product, signed⟩ :=
    operand (pending.sign operator token.span) site
  refine ⟨inner, later, .step ?_ leads, sum, product, signed⟩
  simp only [Position.accept?, Position.acceptOperand?]
  unfold Token.Kind.sign? at mark
  split at mark <;> cases mark <;> rename_i kind <;> rw [kind]

theorem Product.unary (only : Unary tokens value) : Product tokens value := by
  intro goal sum site
  obtain ⟨operand, later, leads, same, none, signed⟩ := only ⟨sum, none, []⟩ site
  refine ⟨operand, later, leads, same, ?_⟩
  rw [Pending.productWith, none, signed]
  rfl

theorem Product.join {operator : BinaryOperator} (earlier : Product left first)
    (mark : token.kind.productOperator? = some operator) (last : Unary right second) :
    Product (left ++ token :: right) (.binary operator first second token.span) := by
  intro goal sum site
  obtain ⟨operand, later, leads, rfl, rfl⟩ := earlier sum site
  obtain ⟨inner, pending, further, same, some, signed⟩ :=
    last (later.multiply operand operator token.span) site
  refine ⟨inner, pending, leads.trans (.step ?_ further), same, ?_⟩
  · simp only [Position.accept?, Position.acceptOperator?]
    unfold Token.Kind.productOperator? at mark
    split at mark <;> cases mark <;> rename_i kind <;> rw [kind]
  · rw [Pending.productWith, some, signed]
    rfl

theorem Sum.product (only : Product tokens value) : Sum tokens value := by
  intro goal site
  obtain ⟨operand, later, leads, none, same⟩ := only none site
  refine ⟨operand, later, leads, ?_⟩
  rw [Pending.sumWith, none, same]
  rfl

theorem Sum.join {operator : BinaryOperator} (earlier : Sum left first)
    (mark : token.kind.sumOperator? = some operator) (last : Product right second) :
    Sum (left ++ token :: right) (.binary operator first second token.span) := by
  intro goal site
  obtain ⟨operand, later, leads, rfl⟩ := earlier site
  obtain ⟨inner, pending, further, some, same⟩ :=
    last (later.add operand operator token.span).sum site
  refine ⟨inner, pending, leads.trans (.step ?_ further), ?_⟩
  · simp only [Position.accept?, Position.acceptOperator?]
    unfold Token.Kind.sumOperator? at mark
    split at mark <;> cases mark <;> rename_i kind <;> rw [kind] <;> rfl
  · rw [Pending.sumWith, some, same]
    rfl

theorem Product.primary (bare : Primary tokens value) : Product tokens value :=
  Product.unary (Unary.primary bare)

theorem Sum.primary (bare : Primary tokens value) : Sum tokens value :=
  Sum.product (Product.primary bare)

/-! ## Operands -/

theorem Primary.name (identifier : token.kind = .identifier) :
    Primary [token] (.name token.span) := by
  intro goal pending site
  refine .one ?_
  simp only [Position.accept?, Position.acceptOperand?, identifier]

theorem Primary.integer (digits : token.kind = .integer) :
    Primary [token] (.integer token.span) := by
  intro goal pending site
  refine .one ?_
  simp only [Position.accept?, Position.acceptOperand?, digits]

theorem Primary.null (word : token.kind = .keyword .null) : Primary [token] (.null token.span) := by
  intro goal pending site
  refine .one ?_
  simp only [Position.accept?, Position.acceptOperand?, word]

theorem Primary.parentheses {opening closing : Token}
    (opens : opening.kind = .symbol .leftParenthesis) (inner : Sum tokens value)
    (closes : closing.kind = .symbol .rightParenthesis) :
    Primary (opening :: (tokens ++ [closing])) value := by
  intro goal pending site
  obtain ⟨operand, later, leads, rfl⟩ := inner (.parenthesis pending site)
  refine .step ?_ (leads.trans (.one ?_))
  · simp only [Position.accept?, Position.acceptOperand?, opens]
  · rw [Position.accept?_operator (by rw [closes]; rfl)]
    simp only [ExpressionSite.acceptAfter?, closes, if_true]

/-- The tokens of arguments that stand behind another argument, with their commas. -/
def MoreArguments (tokens : List Token) (values : List Expression) : Prop :=
  ∀ {goal : Goal} (called operand : Expression) (earlier : List Expression)
    (later pending : Pending) (site : ExpressionSite goal), ∃ earlier' operand' later',
    (Position.operator operand later (.argument called earlier pending site)).Leads tokens
        (.operator operand' later' (.argument called earlier' pending site)) ∧
      earlier' ++ [later'.sumWith operand'] = earlier ++ later.sumWith operand :: values

/-- The tokens between the parentheses of a call. -/
def Arguments (tokens : List Token) (values : List Expression) : Prop :=
  ∀ {goal : Goal} (called : Expression) (pending : Pending) (site : ExpressionSite goal)
    (closing : Token), closing.kind = .symbol .rightParenthesis →
    (Position.firstArgument called pending site).Leads (tokens ++ [closing])
      (.operator (.call called values) pending site)

theorem MoreArguments.none : MoreArguments [] [] :=
  fun _ operand earlier later _ _ => ⟨earlier, operand, later, .here _, rfl⟩

theorem MoreArguments.next {values : List Expression} {comma : Token}
    (separator : comma.kind = .symbol .comma) (argument : Sum tokens value)
    (others : MoreArguments more values) :
    MoreArguments (comma :: (tokens ++ more)) (value :: values) := by
  intro goal called operand earlier later pending site
  obtain ⟨inner, further, leads, rfl⟩ :=
    argument (.argument called (earlier ++ [later.sumWith operand]) pending site)
  obtain ⟨earlier', operand', later', leads', same⟩ :=
    others called inner (earlier ++ [later.sumWith operand]) further pending site
  refine ⟨earlier', operand', later', .step ?_ (leads.trans leads'), by simpa using same⟩
  rw [Position.accept?_operator (by rw [separator]; rfl)]
  simp only [ExpressionSite.acceptAfter?, separator, if_true]

theorem Arguments.none : Arguments [] [] := by
  intro goal called pending site closing closes
  refine .one ?_
  simp only [Position.accept?, closes, if_true]

theorem Arguments.some {values : List Expression} (argument : Sum tokens value)
    (others : MoreArguments more values) : Arguments (tokens ++ more) (value :: values) := by
  intro goal called pending site closing closes
  obtain ⟨operand, later, leads, rfl⟩ := argument (.argument called [] pending site)
  obtain ⟨earlier, operand', later', leads', same⟩ :=
    others called operand [] later pending site
  have starts : (Position.firstArgument called pending site).Leads tokens
      (.operator operand later (.argument called [] pending site)) := by
    refine leads.of_first nofun fun token _ after _ fits => ?_
    simp only [Position.accept?] at fits ⊢
    rw [if_neg, fits]
    intro kind
    rw [Position.acceptOperand?, kind] at fits
    cases fits
  refine (starts.trans leads').trans (.one ?_)
  rw [Position.accept?_operator (by rw [closes]; rfl)]
  simp only [ExpressionSite.acceptAfter?, closes, same]
  rfl

theorem Primary.call {word opening closing : Token} {passed : List Token} {callee : Expression}
    {arguments : List Expression} (begins : word.kind = .keyword .call)
    (called : Sum tokens callee) (opens : opening.kind = .symbol .leftParenthesis)
    (list : Arguments passed arguments) (closes : closing.kind = .symbol .rightParenthesis) :
    Primary (word :: (tokens ++ opening :: (passed ++ [closing]))) (.call callee arguments) := by
  intro goal pending site
  obtain ⟨operand, later, leads, rfl⟩ := called (.callee pending site)
  refine .step ?_ (leads.trans (.step ?_ (list _ pending site closing closes)))
  · simp only [Position.accept?, Position.acceptOperand?, begins]
  · rw [Position.accept?_operator (by rw [opens]; rfl)]
    simp only [ExpressionSite.acceptAfter?, opens, if_true]

/-- The tokens of names that stand behind another name, with their commas. -/
def MoreParameters (tokens : List Token) (names : List String) : Prop :=
  ∀ {goal : Goal} (earlier : List String) (mark : Span) (pending : Pending)
    (site : ExpressionSite goal),
    (Position.parameterEnd earlier mark pending site).Leads tokens
      (.parameterEnd (earlier ++ names) mark pending site)

/-- The tokens between the parentheses of a function literal. -/
def Parameters (tokens : List Token) (names : List String) : Prop :=
  ∀ {goal : Goal} (mark : Span) (pending : Pending) (site : ExpressionSite goal)
    (closing : Token), closing.kind = .symbol .rightParenthesis →
    (Position.firstParameter mark pending site).Leads (tokens ++ [closing])
      (.bodyStart names mark pending site)

theorem MoreParameters.none : MoreParameters [] [] := by
  intro goal earlier mark pending site
  rw [List.append_nil]
  exact .here _

theorem MoreParameters.next {names : List String} {comma : Token}
    (separator : comma.kind = .symbol .comma) (identifier : token.kind = .identifier)
    (others : MoreParameters more names) :
    MoreParameters (comma :: token :: more) (token.text :: names) := by
  intro goal earlier mark pending site
  have further := others (earlier ++ [token.text]) mark pending site
  rw [List.append_assoc] at further
  have separated : (Position.parameterEnd earlier mark pending site).accept? comma =
      some (.parameter earlier mark pending site) := by
    simp only [Position.accept?, separator, if_true]
  refine .step separated (.step ?_ further)
  simp only [Position.accept?, identifier, if_true]

theorem Parameters.none : Parameters [] [] := by
  intro goal mark pending site closing closes
  refine .one ?_
  simp only [Position.accept?, closes, if_true]

theorem Parameters.some {names : List String} (identifier : token.kind = .identifier)
    (others : MoreParameters more names) : Parameters (token :: more) (token.text :: names) := by
  intro goal mark pending site closing closes
  refine .step ?_ ((others [token.text] mark pending site).trans (.one ?_))
  · simp only [Position.accept?, identifier, if_true]
    rfl
  · simp only [Position.accept?, closes, if_true]
    rfl

/-! ## Statements -/

/-- A place behind a statement that is complete: every token that does not join it is looked at as
the statement's surroundings do. -/
structure Finishes {goal : Goal} (site : StatementSite goal) (statement : Statement)
    (position : Position goal) : Prop where
  accept : ∀ token : Token, token.kind.joins = false →
    position.accept? token = site.acceptAfter? statement token
  halt : ∀ token : Token, position.halt token = site.haltAfter statement token

/-- The tokens of a statement, the first of which joins nothing in front of it. -/
structure Sentence (tokens : List Token) (statement : Statement) : Prop where
  apart : ∃ token more, tokens = token :: more ∧ token.kind.joins = false
  leads : ∀ {goal : Goal} (site : StatementSite goal), ∃ position,
    (Position.statement site).Leads tokens position ∧ Finishes site statement position

/-- A place where a statement is wanted takes the first token of an expression. -/
theorem accept?_of_acceptOperand? {goal : Goal} {site : StatementSite goal} {next : Position goal}
    (fits : Position.acceptOperand? {} (.leading site) token = some next) :
    site.accept? token = some next := by
  have first : Position.acceptStatement? site token = some next := by
    unfold Position.acceptStatement?
    split
    · rename_i kind
      rw [Position.acceptOperand?, kind] at fits
      cases fits
    · rename_i kind
      rw [Position.acceptOperand?, kind] at fits
      cases fits
    · exact fits
  cases site with
  | goal => exact first
  | body =>
      rw [StatementSite.accept?, if_neg, first]
      intro kind
      rw [Position.acceptOperand?, kind] at fits
      cases fits

/-- An expression at the beginning of a statement. -/
theorem leads_of_sum {goal : Goal} (site : StatementSite goal) (only : Sum tokens value) :
    ∃ operand later, (Position.statement site).Leads tokens
      (.operator operand later (.leading site)) ∧ later.sumWith operand = value := by
  obtain ⟨operand, later, leads, same⟩ := only (.leading site)
  refine ⟨operand, later, leads.of_first nofun fun token _ after _ fits => ?_, same⟩
  exact accept?_of_acceptOperand? fits

theorem Sentence.declare {word name equals : Token} (begins : word.kind = .keyword .var)
    (identifier : name.kind = .identifier) (assigns : equals.kind = .symbol .equals)
    (initializer : Sum tokens value) :
    Sentence (word :: name :: equals :: tokens) (.declare name.text value) := by
  refine ⟨⟨word, _, rfl, by rw [begins]; rfl⟩, fun {goal} site => ?_⟩
  obtain ⟨operand, later, leads, rfl⟩ := initializer (.initializer name.text site)
  have declared : (Position.statement site).accept? word = some (.declaredName site) := by
    cases site <;> simp [Position.accept?, StatementSite.accept?, Position.acceptStatement?, begins]
  have named : (Position.declaredName site).accept? name =
      some (.declaredEquals name.text site) := by
    simp only [Position.accept?, identifier, if_true]
  have initialized : (Position.declaredEquals name.text site).accept? equals =
      some (.operand {} (.initializer name.text site)) := by
    simp only [Position.accept?, assigns, if_true]
  refine ⟨_, .step declared (.step named (.step initialized leads)), ⟨?_, fun _ => rfl⟩⟩
  exact fun token apart => Position.accept?_operator apart

theorem Sentence.return {word : Token} (begins : word.kind = .keyword .return)
    (result : Sum tokens value) : Sentence (word :: tokens) (.return value) := by
  refine ⟨⟨word, _, rfl, by rw [begins]; rfl⟩, fun {goal} site => ?_⟩
  obtain ⟨operand, later, leads, rfl⟩ := result (.returned site)
  have returned : (Position.statement site).accept? word = some (.operand {} (.returned site)) := by
    cases site <;> simp [Position.accept?, StatementSite.accept?, Position.acceptStatement?, begins]
  refine ⟨_, .step returned leads, ⟨?_, fun _ => rfl⟩⟩
  exact fun token apart => Position.accept?_operator apart

theorem Sentence.assign {equals : Token}
    (apart : ∃ token more, left = token :: more ∧ token.kind.joins = false)
    (assigned : Sum left first) (assigns : equals.kind = .symbol .equals)
    (result : Sum right second) : Sentence (left ++ equals :: right) (.assign first second) := by
  obtain ⟨token, more, rfl, apart⟩ := apart
  refine ⟨⟨token, _, rfl, apart⟩, fun {goal} site => ?_⟩
  obtain ⟨target, pending, leads, rfl⟩ := leads_of_sum site assigned
  obtain ⟨operand, later, further, rfl⟩ := result (.assigned (pending.sumWith target) site)
  have assigning : (Position.operator target pending (.leading site)).accept? equals =
      some (.operand {} (.assigned (pending.sumWith target) site)) := by
    simp only [Position.accept?, Position.acceptOperator?, assigns, ExpressionSite.acceptAfter?,
      if_true]
  refine ⟨_, leads.trans (.step assigning further), ⟨?_, fun _ => rfl⟩⟩
  exact fun token apart => Position.accept?_operator apart

theorem Sentence.evaluate (apart : ∃ token more, tokens = token :: more ∧ token.kind.joins = false)
    (only : Sum tokens value) : Sentence tokens (.evaluate value) := by
  refine ⟨apart, fun {goal} site => ?_⟩
  obtain ⟨operand, later, leads, rfl⟩ := leads_of_sum site only
  refine ⟨_, leads, ⟨fun token apart => ?_, fun _ => rfl⟩⟩
  rw [Position.accept?_operator apart, ExpressionSite.acceptAfter?, if_neg]
  intro kind
  rw [kind] at apart
  cases apart

/-! ## Bodies -/

/-- A place that takes every token that does not join it as a place for statements does. -/
def Awaits {goal : Goal} (site : StatementSite goal) (position : Position goal) : Prop :=
  ∀ token : Token, token.kind.joins = false → position.accept? token = site.accept? token

/-- **Statements are read one behind the other.** -/
theorem leads_of_sentences {goal : Goal} {parameters : List String} {mark : Span}
    {pending : Pending} {outer : ExpressionSite goal} {parts : List (List Token)}
    {body : List Statement} (sentences : List.Forall₂ Sentence parts body) :
    ∀ {earlier : List Statement} {position : Position goal},
      Awaits (.body parameters earlier mark pending outer) position →
      ∃ last, position.Leads parts.flatten last ∧
        Awaits (.body parameters (earlier ++ body) mark pending outer) last := by
  induction sentences with
  | nil =>
      intro earlier position awaits
      rw [List.append_nil]
      exact ⟨position, .here position, awaits⟩
  | @cons tokens statement parts body sentence _ ih =>
      intro earlier position awaits
      obtain ⟨next, leads, finishes⟩ :=
        sentence.leads (.body parameters earlier mark pending outer)
      have here : position.Leads tokens next := by
        obtain ⟨token, more, rfl, apart⟩ := sentence.apart
        cases leads with
        | step fits further => exact .step ((awaits token apart).trans fits) further
      have awaitsNext :
          Awaits (.body parameters (earlier ++ [statement]) mark pending outer) next :=
        finishes.accept
      obtain ⟨last, further, awaitsLast⟩ := ih awaitsNext
      refine ⟨last, here.trans further, ?_⟩
      rwa [List.append_assoc] at awaitsLast

theorem Primary.function {word opening closing leftBrace rightBrace : Token}
    {names : List Token} {parts : List (List Token)} {parameters : List String}
    {body : List Statement} (begins : word.kind = .keyword .function)
    (opens : opening.kind = .symbol .leftParenthesis) (list : Parameters names parameters)
    (closes : closing.kind = .symbol .rightParenthesis)
    (bodyOpens : leftBrace.kind = .symbol .leftBrace)
    (sentences : List.Forall₂ Sentence parts body)
    (bodyCloses : rightBrace.kind = .symbol .rightBrace) :
    Primary (word :: opening :: (names ++ closing :: leftBrace :: (parts.flatten ++ [rightBrace])))
      (.function parameters body word.span) := by
  intro goal pending site
  have started : (Position.operand pending site).accept? word =
      some (.parameterList word.span pending site) := by
    simp only [Position.accept?, Position.acceptOperand?, begins]
  have opened : (Position.parameterList word.span pending site).accept? opening =
      some (.firstParameter word.span pending site) := by
    simp only [Position.accept?, opens, if_true]
  have bodyOpened : (Position.bodyStart parameters word.span pending site).accept? leftBrace =
      some (.statement (.body parameters [] word.span pending site)) := by
    simp only [Position.accept?, bodyOpens, if_true]
  have empty : Awaits (.body parameters [] word.span pending site)
      (.statement (.body parameters [] word.span pending site)) := fun _ _ => rfl
  obtain ⟨last, leads, awaits⟩ := leads_of_sentences sentences empty
  have bodyClosed : last.accept? rightBrace =
      some (.operator (.function parameters body word.span) pending site) := by
    rw [awaits rightBrace (by rw [bodyCloses]; rfl), StatementSite.accept?, if_pos bodyCloses]
    rfl
  have whole := (list word.span pending site closing closes).trans
    (.step bodyOpened (leads.trans (.one bodyClosed)))
  rw [List.append_assoc] at whole
  exact .step started (.step opened whole)

/-! ## Reading a statement -/

/-- A statement is read to its end, where a token follows that does not join it. -/
theorem Sentence.read {statement : Statement} (sentence : Sentence tokens statement)
    {final : Token} {rest : List Token} (apart : (rest.headD final).kind.joins = false)
    (trail : Trail) : ∃ later,
      (Position.statement StatementSite.goal).read final trail (tokens ++ rest) =
        ⟨.ok statement, rest, later⟩ := by
  obtain ⟨position, leads, finishes⟩ := sentence.leads .goal
  obtain ⟨later, same⟩ := leads.read final trail rest
  refine ⟨later, ?_⟩
  rw [same]
  cases rest with
  | nil => simp only [Position.read, Position.stopAt, finishes.halt, StatementSite.haltAfter]
  | cons token rest =>
      rw [Position.read_of_reject (finishes.accept token apart)]
      simp only [Position.stopAt, finishes.halt, StatementSite.haltAfter]

end Reads

end SlotCompiler
