import SlotCompiler.Proofs.Parsing.Completeness
import SlotCompiler.Proofs.Parsing.Run
import SlotCompiler.Proofs.Tree.Words

/-!
# Written trees are read back

The words of a tree lead through the grammar to a tree that is like it (`Expression.reads`), and so
a source in which the words of a tree are spaced is parsed without a diagnostic, as a tree that is
like it (`Parser.unit_spaced`).
-/

set_option autoImplicit false

namespace SlotCompiler

open Words

/-- The tokens of words, in a source. -/
abbrev Spelled (source : Source) : List String → List Token → Prop :=
  List.Forall₂ (Token.Spells source)

section Spelled

variable {source : Source} {words more : List String} {tokens : List Token} {word : String}

theorem Spelled.of_cons (spelled : Spelled source (word :: words) tokens) :
    ∃ token rest, tokens = token :: rest ∧ token.Spells source word ∧
      Spelled source words rest := by
  obtain ⟨token, rest, spells, further, same⟩ := List.forall₂_cons_left_iff.mp spelled
  exact ⟨token, rest, same, spells, further⟩

theorem Spelled.of_single (spelled : Spelled source [word] tokens) :
    ∃ token, tokens = [token] ∧ token.Spells source word := by
  obtain ⟨token, rest, rfl, spells, none⟩ := Spelled.of_cons spelled
  cases none
  exact ⟨token, rfl, spells⟩

theorem Spelled.of_append (spelled : Spelled source (words ++ more) tokens) :
    ∃ first second, tokens = first ++ second ∧ Spelled source words first ∧
      Spelled source more second := by
  induction words generalizing tokens with
  | nil => exact ⟨[], tokens, rfl, .nil, spelled⟩
  | cons word words ih =>
      obtain ⟨token, rest, rfl, spells, further⟩ := Spelled.of_cons spelled
      obtain ⟨first, second, rfl, inside, behind⟩ := ih further
      exact ⟨token :: first, second, rfl, .cons spells inside, behind⟩

variable {token : Token}

theorem Token.Spells.kind_symbol {symbol : Symbol} (spells : token.Spells source symbol.text) :
    token.kind = .symbol symbol := by
  rw [spells.kind, Token.Kind.ofText_symbol]

theorem Token.Spells.kind_keyword {keyword : Keyword}
    (spells : token.Spells source keyword.text) : token.kind = .keyword keyword := by
  rw [spells.kind, Token.Kind.ofText_keyword]

end Spelled

/-! ## Parts of a tree -/

/-- Tokens that are read as something like an expression, on every level of the grammar on which
the expression may stand without parentheses. -/
structure Expression.ReadsAs (origin source : Source) (expression : Expression)
    (tokens : List Token) (value : Expression) : Prop where
  alike : expression.Alike origin source value
  unary : expression.isBinary = false → Reads.Unary tokens value
  product : expression.isAdditive = false → Reads.Product tokens value
  sum : Reads.Sum tokens value

section Parts

variable {origin source : Source} {expression value : Expression} {tokens : List Token}
  {words : List String}

theorem Expression.ReadsAs.of_unary (alike : expression.Alike origin source value)
    (unary : Reads.Unary tokens value) : expression.ReadsAs origin source tokens value :=
  ⟨alike, fun _ => unary, fun _ => Reads.Product.unary unary,
    Reads.Sum.product (Reads.Product.unary unary)⟩

theorem Expression.ReadsAs.of_primary (alike : expression.Alike origin source value)
    (primary : Reads.Primary tokens value) : expression.ReadsAs origin source tokens value :=
  .of_unary alike (Reads.Unary.primary primary)

/-- What may be in parentheses is an operand if it is, and else what it is without them. -/
theorem reads_parenthesize {condition : Bool}
    (spelled : Spelled source (parenthesize condition words) tokens)
    (reads : ∀ {inner}, Spelled source words inner →
      ∃ value, expression.ReadsAs origin source inner value) :
    ∃ value, expression.Alike origin source value ∧
      (condition = true ∧ Reads.Primary tokens value ∨
        condition = false ∧ expression.ReadsAs origin source tokens value) := by
  cases condition with
  | false =>
      obtain ⟨value, readsAs⟩ := reads spelled
      exact ⟨value, readsAs.alike, .inr ⟨rfl, readsAs⟩⟩
  | true =>
      obtain ⟨opening, rest, rfl, opens, further⟩ := Spelled.of_cons spelled
      obtain ⟨inner, last, rfl, inside, ending⟩ := Spelled.of_append further
      obtain ⟨closing, rfl, closes⟩ := Spelled.of_single ending
      obtain ⟨value, readsAs⟩ := reads inside
      refine ⟨value, readsAs.alike, .inl ⟨rfl, ?_⟩⟩
      exact Reads.Primary.parentheses opens.kind_symbol readsAs.sum closes.kind_symbol

/-- An operator joins operands that are in parentheses where its level calls for them. -/
theorem Expression.ReadsAs.binary {operator : BinaryOperator} {left right first second : Expression}
    {mark : Span} {more : List Token} {token : Token}
    (alike : (Expression.binary operator left right mark).Alike origin source
      (.binary operator first second token.span))
    (kind : token.kind = .symbol operator.symbol)
    (leftLevel : (!operator.isAdditive && left.isAdditive) = true ∧ Reads.Primary tokens first ∨
      (!operator.isAdditive && left.isAdditive) = false ∧
        left.ReadsAs origin source tokens first)
    (rightLevel : (if operator.isAdditive then right.isAdditive else right.isBinary) = true ∧
        Reads.Primary more second ∨
      (if operator.isAdditive then right.isAdditive else right.isBinary) = false ∧
        right.ReadsAs origin source more second) :
    (Expression.binary operator left right mark).ReadsAs origin source (tokens ++ token :: more)
      (.binary operator first second token.span) := by
  cases additive : operator.isAdditive with
  | true =>
      have earlier : Reads.Sum tokens first := by
        rcases leftLevel with ⟨-, primary⟩ | ⟨-, readsAs⟩
        · exact Reads.Sum.primary primary
        · exact readsAs.sum
      have last : Reads.Product more second := by
        rcases rightLevel with ⟨-, primary⟩ | ⟨bare, readsAs⟩
        · exact Reads.Product.primary primary
        · rw [additive, if_pos rfl] at bare
          exact readsAs.product bare
      have mark : token.kind.sumOperator? = some operator := by
        rw [kind]
        cases operator <;> first | rfl | cases additive
      refine ⟨alike, nofun, fun bare => ?_, Reads.Sum.join earlier mark last⟩
      exact absurd (additive.symm.trans bare) nofun
  | false =>
      have earlier : Reads.Product tokens first := by
        rcases leftLevel with ⟨-, primary⟩ | ⟨bare, readsAs⟩
        · exact Reads.Product.primary primary
        · rw [additive] at bare
          exact readsAs.product bare
      have last : Reads.Unary more second := by
        rcases rightLevel with ⟨-, primary⟩ | ⟨bare, readsAs⟩
        · exact Reads.Unary.primary primary
        · rw [additive, if_neg Bool.false_ne_true] at bare
          exact readsAs.unary bare
      have mark : token.kind.productOperator? = some operator := by
        rw [kind]
        cases operator <;> first | rfl | cases additive
      have whole : Reads.Product (tokens ++ token :: more)
          (.binary operator first second token.span) := Reads.Product.join earlier mark last
      exact ⟨alike, nofun, fun _ => whole, Reads.Sum.product whole⟩

/-- Names between parentheses are read as they are. -/
theorem reads_moreParameters {parameters : List String} (names : ∀ name ∈ parameters, IsName name) :
    ∀ {tokens : List Token}, Spelled source
      ((parameters.map fun name => [name]).flatMap (Symbol.comma.text :: ·)) tokens →
      Reads.MoreParameters tokens parameters := by
  induction parameters with
  | nil =>
      rintro tokens ⟨⟩
      exact Reads.MoreParameters.none
  | cons name parameters ih =>
      intro tokens spelled
      rw [List.forall_mem_cons] at names
      obtain ⟨comma, rest, rfl, separates, further⟩ := Spelled.of_cons spelled
      obtain ⟨token, rest, rfl, spells, others⟩ := Spelled.of_cons further
      rw [← spells.text]
      exact Reads.MoreParameters.next separates.kind_symbol (by rw [spells.kind, names.1.kind])
        (ih names.2 others)

theorem reads_parameters {parameters : List String} (names : ∀ name ∈ parameters, IsName name)
    (spelled : Spelled source (separate (parameters.map fun name => [name])) tokens) :
    Reads.Parameters tokens parameters := by
  cases parameters with
  | nil =>
      cases spelled
      exact Reads.Parameters.none
  | cons name parameters =>
      rw [List.forall_mem_cons] at names
      obtain ⟨token, rest, rfl, spells, others⟩ := Spelled.of_cons spelled
      rw [← spells.text]
      exact Reads.Parameters.some (by rw [spells.kind, names.1.kind])
        (reads_moreParameters names.2 others)

/-- Only a minus sign in front of an expression could join it to what stands before. -/
theorem Expression.first_word (expression : Expression) (worded : expression.Worded origin) :
    ∃ word more, expression.words origin = word :: more ∧
      (word = Symbol.minus.text ∨ (Token.Kind.ofText word).joins = false) := by
  cases expression with
  | name span => exact ⟨_, _, rfl, .inr (by rw [IsName.kind worded]; rfl)⟩
  | integer span => exact ⟨_, _, rfl, .inr (by rw [IsNumeral.kind worded]; rfl)⟩
  | null span => exact ⟨_, _, rfl, .inr (by rw [Token.Kind.ofText_keyword]; rfl)⟩
  | call callee arguments => exact ⟨_, _, rfl, .inr (by rw [Token.Kind.ofText_keyword]; rfl)⟩
  | unary operator operand mark =>
      refine ⟨_, _, rfl, ?_⟩
      rw [Token.Kind.ofText_symbol]
      cases operator with
      | negate => exact .inl rfl
      | not => exact .inr rfl
      | invert => exact .inr rfl
  | binary operator left right mark =>
      rw [Expression.words, parenthesize]
      split
      · exact ⟨_, _, rfl, .inr (by rw [Token.Kind.ofText_symbol]; rfl)⟩
      · obtain ⟨word, more, first, apart⟩ := Expression.first_word left worded.1
        rw [first]
        exact ⟨word, _, rfl, apart⟩
  | function parameters body mark =>
      exact ⟨_, _, rfl, .inr (by rw [Token.Kind.ofText_keyword]; rfl)⟩

/-- An expression that begins a statement does not join what stands before. -/
theorem reads_lead (worded : expression.Worded origin)
    (spelled : Spelled source (lead (expression.words origin)) tokens)
    (reads : ∀ {inner}, Spelled source (expression.words origin) inner →
      ∃ value, expression.ReadsAs origin source inner value) :
    ∃ value, expression.Alike origin source value ∧ Reads.Sum tokens value ∧
      ∃ token more, tokens = token :: more ∧ token.kind.joins = false := by
  obtain ⟨value, alike, cases_⟩ := reads_parenthesize spelled reads
  refine ⟨value, alike, ?_⟩
  rw [lead] at spelled
  rcases cases_ with ⟨minus, primary⟩ | ⟨plain, readsAs⟩
  · rw [minus] at spelled
    obtain ⟨opening, rest, rfl, opens, -⟩ := Spelled.of_cons spelled
    refine ⟨Reads.Sum.primary primary, opening, rest,
      rfl, ?_⟩
    rw [opens.kind_symbol]
    rfl
  · rw [plain] at spelled
    obtain ⟨word, more, first, apart⟩ := Expression.first_word _ worded
    rw [first, List.head?_cons, beq_eq_false_iff_ne] at plain
    have spelled : Spelled source (expression.words origin) tokens := spelled
    rw [first] at spelled
    obtain ⟨token, rest, rfl, spells, -⟩ := Spelled.of_cons spelled
    refine ⟨readsAs.sum, token, rest, rfl, ?_⟩
    rcases apart with rfl | apart
    · exact absurd rfl plain
    · rw [spells.kind, apart]

end Parts

/-! ## Whole trees -/

mutual

/-- The words of an expression are read as something like it. -/
theorem Expression.reads {origin source : Source} : ∀ {expression : Expression},
    expression.Worded origin → ∀ {tokens : List Token},
      Spelled source (expression.words origin) tokens →
      ∃ value, expression.ReadsAs origin source tokens value
  | .name span, worded, tokens, spelled => by
      obtain ⟨token, rfl, spells⟩ := Spelled.of_single spelled
      refine ⟨_, .of_primary (.name spells.extract) (Reads.Primary.name ?_)⟩
      rw [spells.kind, IsName.kind worded]
  | .integer span, worded, tokens, spelled => by
      obtain ⟨token, rfl, spells⟩ := Spelled.of_single spelled
      refine ⟨_, .of_primary (.integer spells.extract) (Reads.Primary.integer ?_)⟩
      rw [spells.kind, IsNumeral.kind worded]
  | .null span, _, tokens, spelled => by
      obtain ⟨token, rfl, spells⟩ := Spelled.of_single spelled
      exact ⟨_, .of_primary (.null spells.extract) (Reads.Primary.null spells.kind_keyword)⟩
  | .call callee arguments, worded, tokens, spelled => by
      obtain ⟨word, rest, rfl, begins, further⟩ := Spelled.of_cons spelled
      obtain ⟨called, rest, rfl, calleeSpelled, further⟩ := Spelled.of_append further
      obtain ⟨opening, rest, rfl, opens, further⟩ := Spelled.of_cons further
      obtain ⟨passed, rest, rfl, argumentsSpelled, further⟩ := Spelled.of_append further
      obtain ⟨closing, rfl, closes⟩ := Spelled.of_single further
      obtain ⟨value, calleeReads⟩ := Expression.reads worded.1 calleeSpelled
      obtain ⟨values, alike, list⟩ := reads_arguments worded.2 argumentsSpelled
      refine ⟨.call value values, .of_primary (.call calleeReads.alike alike) ?_⟩
      exact Reads.Primary.call begins.kind_keyword calleeReads.sum opens.kind_symbol list
        closes.kind_symbol
  | .unary operator operand mark, worded, tokens, spelled => by
      obtain ⟨token, rest, rfl, marks, further⟩ := Spelled.of_cons spelled
      have wordedOperand : operand.Worded origin := worded
      obtain ⟨value, alike, level⟩ := reads_parenthesize further (Expression.reads wordedOperand)
      have inner : Reads.Unary rest value := by
        rcases level with ⟨-, primary⟩ | ⟨bare, readsAs⟩
        · exact Reads.Unary.primary primary
        · exact readsAs.unary bare
      have kind : token.kind.sign? = some operator := by
        rw [marks.kind_symbol]
        cases operator <;> rfl
      exact ⟨_, .of_unary (.unary alike marks.extract) (Reads.Unary.sign kind inner)⟩
  | .binary operator left right mark, worded, tokens, spelled => by
      obtain ⟨first, rest, rfl, leftSpelled, further⟩ := Spelled.of_append spelled
      obtain ⟨token, second, rfl, marks, rightSpelled⟩ := Spelled.of_cons further
      obtain ⟨value, alike, level⟩ := reads_parenthesize leftSpelled (Expression.reads worded.1)
      obtain ⟨value', alike', level'⟩ :=
        reads_parenthesize rightSpelled (Expression.reads worded.2)
      refine ⟨.binary operator value value' token.span, ?_⟩
      exact Expression.ReadsAs.binary (.binary alike alike' marks.extract) marks.kind_symbol level
        level'
  | .function parameters body mark, worded, tokens, spelled => by
      obtain ⟨word, rest, rfl, begins, further⟩ := Spelled.of_cons spelled
      obtain ⟨opening, rest, rfl, opens, further⟩ := Spelled.of_cons further
      obtain ⟨names, rest, rfl, namesSpelled, further⟩ := Spelled.of_append further
      obtain ⟨closing, rest, rfl, closes, further⟩ := Spelled.of_cons further
      obtain ⟨leftBrace, rest, rfl, bodyOpens, further⟩ := Spelled.of_cons further
      obtain ⟨inside, rest, rfl, bodySpelled, further⟩ := Spelled.of_append further
      obtain ⟨rightBrace, rfl, bodyCloses⟩ := Spelled.of_single further
      obtain ⟨parts, statements, rfl, sentences, alike⟩ := reads_body worded.2 bodySpelled
      refine ⟨.function parameters statements word.span,
        .of_primary (.function alike begins.extract) ?_⟩
      exact Reads.Primary.function begins.kind_keyword opens.kind_symbol
        (reads_parameters worded.1 namesSpelled) closes.kind_symbol bodyOpens.kind_symbol sentences
        bodyCloses.kind_symbol

/-- The words of arguments, with their commas, are read as something like them. -/
theorem reads_arguments {origin source : Source} : ∀ {arguments : List Expression},
    ArgumentsWorded origin arguments → ∀ {tokens : List Token},
      Spelled source (separate (argumentWords origin arguments)) tokens →
      ∃ values, List.Forall₂ (Expression.Alike origin source) arguments values ∧
        Reads.Arguments tokens values
  | [], _, tokens, spelled => by
      cases spelled
      exact ⟨[], .nil, Reads.Arguments.none⟩
  | argument :: arguments, worded, tokens, spelled => by
      obtain ⟨first, more, rfl, firstSpelled, moreSpelled⟩ := Spelled.of_append spelled
      obtain ⟨value, readsAs⟩ := Expression.reads worded.1 firstSpelled
      obtain ⟨values, alike, others⟩ := reads_moreArguments worded.2 moreSpelled
      exact ⟨value :: values, .cons readsAs.alike alike, Reads.Arguments.some readsAs.sum others⟩

/-- The words of arguments behind another one are read as something like them. -/
theorem reads_moreArguments {origin source : Source} : ∀ {arguments : List Expression},
    ArgumentsWorded origin arguments → ∀ {tokens : List Token},
      Spelled source ((argumentWords origin arguments).flatMap (Symbol.comma.text :: ·)) tokens →
      ∃ values, List.Forall₂ (Expression.Alike origin source) arguments values ∧
        Reads.MoreArguments tokens values
  | [], _, tokens, spelled => by
      cases spelled
      exact ⟨[], .nil, Reads.MoreArguments.none⟩
  | argument :: arguments, worded, tokens, spelled => by
      rw [argumentWords, List.flatMap_cons] at spelled
      obtain ⟨comma, rest, rfl, separates, further⟩ := Spelled.of_cons spelled
      obtain ⟨first, more, rfl, firstSpelled, moreSpelled⟩ := Spelled.of_append further
      obtain ⟨value, readsAs⟩ := Expression.reads worded.1 firstSpelled
      obtain ⟨values, alike, others⟩ := reads_moreArguments worded.2 moreSpelled
      exact ⟨value :: values, .cons readsAs.alike alike,
        Reads.MoreArguments.next separates.kind_symbol readsAs.sum others⟩

/-- The words of a statement are read as something like it. -/
theorem Statement.reads {origin source : Source} : ∀ {statement : Statement},
    statement.Worded origin → ∀ {tokens : List Token},
      Spelled source (statement.words origin) tokens →
      ∃ result, statement.Alike origin source result ∧ Reads.Sentence tokens result
  | .declare name initializer, worded, tokens, spelled => by
      obtain ⟨word, rest, rfl, begins, further⟩ := Spelled.of_cons spelled
      obtain ⟨identifier, rest, rfl, names, further⟩ := Spelled.of_cons further
      obtain ⟨equals, rest, rfl, assigns, further⟩ := Spelled.of_cons further
      obtain ⟨value, readsAs⟩ := Expression.reads worded.2 further
      refine ⟨.declare name value, .declare readsAs.alike, ?_⟩
      rw [← names.text]
      exact Reads.Sentence.declare begins.kind_keyword (by rw [names.kind, worded.1.kind])
        assigns.kind_symbol readsAs.sum
  | .return value, worded, tokens, spelled => by
      obtain ⟨word, rest, rfl, begins, further⟩ := Spelled.of_cons spelled
      obtain ⟨result, readsAs⟩ := Expression.reads worded further
      exact ⟨.return result, .return readsAs.alike,
        Reads.Sentence.return begins.kind_keyword readsAs.sum⟩
  | .assign target value, worded, tokens, spelled => by
      obtain ⟨left, rest, rfl, leftSpelled, further⟩ := Spelled.of_append spelled
      obtain ⟨equals, right, rfl, assigns, rightSpelled⟩ := Spelled.of_cons further
      obtain ⟨first, alike, sum, apart⟩ :=
        reads_lead worded.1 leftSpelled (Expression.reads worded.1)
      obtain ⟨second, readsAs⟩ := Expression.reads worded.2 rightSpelled
      exact ⟨.assign first second, .assign alike readsAs.alike,
        Reads.Sentence.assign apart sum assigns.kind_symbol readsAs.sum⟩
  | .evaluate value, worded, tokens, spelled => by
      obtain ⟨result, alike, sum, apart⟩ := reads_lead worded spelled (Expression.reads worded)
      exact ⟨.evaluate result, .evaluate alike, Reads.Sentence.evaluate apart sum⟩

/-- The words of statements are read as something like them, one behind the other. -/
theorem reads_body {origin source : Source} : ∀ {body : List Statement},
    BodyWorded origin body → ∀ {tokens : List Token},
      Spelled source (bodyWords origin body).flatten tokens →
      ∃ parts results, tokens = parts.flatten ∧ List.Forall₂ Reads.Sentence parts results ∧
        List.Forall₂ (Statement.Alike origin source) body results
  | [], _, tokens, spelled => by
      cases spelled
      exact ⟨[], [], rfl, .nil, .nil⟩
  | statement :: body, worded, tokens, spelled => by
      rw [bodyWords, List.flatten_cons] at spelled
      obtain ⟨first, rest, rfl, firstSpelled, further⟩ := Spelled.of_append spelled
      obtain ⟨result, alike, sentence⟩ := Statement.reads worded.1 firstSpelled
      obtain ⟨parts, results, rfl, sentences, others⟩ := reads_body worded.2 further
      exact ⟨first :: parts, result :: results, rfl, .cons sentence sentences,
        .cons alike others⟩

end

/-! ## Whole sources -/

namespace Parser

/-- **Statements are parsed one by one**, and no listener is told of anything. -/
theorem statements_of_sentences {σ : Type} [Listener σ] (listener : σ)
    {parts : List (List Token)} {body : List Statement}
    (sentences : List.Forall₂ Reads.Sentence parts body) :
    ∀ {parser : Parser}, parser.rest = parts.flatten →
      ∃ last, parser.statements listener = (.ok body, last, listener) := by
  induction sentences with
  | nil =>
      intro parser ended
      exact ⟨parser, statements_of_nil listener ended⟩
  | @cons tokens statement parts body sentence sentences ih =>
      intro parser rest
      rw [List.flatten_cons] at rest
      have more : parser.rest ≠ [] := by
        obtain ⟨token, others, rfl, -⟩ := sentence.apart
        rw [rest]
        exact nofun
      have apart : (parts.flatten.headD parser.final).kind.joins = false := by
        cases sentences with
        | nil =>
            rw [List.flatten_nil, List.headD_nil, parser.final_kind]
            rfl
        | cons next _ =>
            obtain ⟨token, others, rfl, apart⟩ := next.apart
            exact apart
      obtain ⟨trail, reading⟩ := sentence.read apart parser.trail
      have done : parser.statement.1 = .ok statement ∧ parser.statement.2.rest = parts.flatten := by
        simp only [Parser.statement, Parser.read, rest, reading, and_self]
      obtain ⟨last, further⟩ := ih done.2
      refine ⟨last, ?_⟩
      rw [statements_of_ok listener more done.1, further]
      rfl

/-- **Written trees are read back.** Take a tree without parameters whose names are names and
whose integers are digits, and a text in which its words are spaced.  Parsing this text tells no
listener of anything, and gives a tree that differs from the first one only in its ranges, which
select the corresponding words of the text. -/
theorem unit_spaced {σ : Type} [Listener σ] (listener : σ) {origin : Source}
    {tree : FunctionSource} (parameterless : tree.parameters = []) (worded : tree.Worded origin)
    {text : List Char} (spaced : Spaced (tree.words origin) text) : ∃ parsed last,
      unit listener (ofSource (.ofText text)) = (.ok parsed, last, listener) ∧
        tree.Alike origin (.ofText text) parsed := by
  have spelled := Source.spells_tokens spaced (FunctionSource.isToken_words worded)
  obtain ⟨parts, body, rest, sentences, alike⟩ := reads_body worded.2 spelled
  have front : (ofSource (.ofText text)).rest = parts.flatten := rest
  obtain ⟨last, read⟩ := statements_of_sentences listener sentences front
  refine ⟨⟨[], body⟩, last, ?_, parameterless, alike⟩
  rw [unit, read]
  rfl

/-- A product of a negated name and a quotient. -/
def quotientTree : FunctionSource where
  parameters := []
  body := [.evaluate (.binary .multiply (.unary .negate (.name ⟨0, 1⟩) ⟨0, 0⟩)
    (.binary .divide (.integer ⟨2, 3⟩) (.null ⟨0, 0⟩) ⟨0, 0⟩) ⟨0, 0⟩)]

theorem unit_spaced_quotient : quotientTree.parameters = [] ∧
    quotientTree.Worded (.ofString "a 7") ∧
    Spaced (quotientTree.words (.ofString "a 7")) " ( - a * ( 7 / null ) )".toList ∧
    ∃ parsed last,
      unit (Transcript.always .stop) (ofSource (.ofString " ( - a * ( 7 / null ) )")) =
        (.ok parsed, last, Transcript.always .stop) ∧
      quotientTree.Alike (.ofString "a 7") (.ofString " ( - a * ( 7 / null ) )") parsed := by
  have worded : quotientTree.Worded (.ofString "a 7") := by
    have name : IsName "a" := by
      refine ⟨⟨'a', [], rfl, rfl, nofun⟩, fun keyword => ?_⟩
      cases keyword <;> decide
    have numeral : IsNumeral "7" := ⟨by decide, List.all_eq_true.mp rfl⟩
    exact ⟨nofun, ⟨⟨name, numeral, trivial⟩, trivial⟩⟩
  have spaced := spaced_flatMap (quotientTree.words (.ofString "a 7"))
  have text : (quotientTree.words (.ofString "a 7")).flatMap (' ' :: ·.toList) =
      " ( - a * ( 7 / null ) )".toList := by decide +kernel
  rw [text] at spaced
  exact ⟨rfl, worded, spaced, unit_spaced (Transcript.always .stop) rfl worded spaced⟩

end Parser

end SlotCompiler
