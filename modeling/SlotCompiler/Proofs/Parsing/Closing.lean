import SlotCompiler.Proofs.Parsing.Relocation
import SlotCompiler.Proofs.Scanning.Spacing

/-!
# Every position can be completed

Whatever has been read of a statement, and however deep the constructs are nested that are still
open, some tokens complete it.  Behind an operand they close the open constructs from the inside out
(`ExpressionSite.closing`); elsewhere, the one that is begun is completed first
(`Position.closing`).  Of these tokens only the kinds matter, so they can be chosen before the
source is known in which they stand (`Position.completes_closing`).
-/

set_option autoImplicit false

namespace SlotCompiler

variable {goal : Goal}

/-! ## Kinds that close what is open -/

mutual

/-- What closes the constructs around an expression, behind that expression. -/
def ExpressionSite.closing {goal : Goal} : ExpressionSite goal → List Token.Kind
  | .goal => []
  | .parenthesis _ outer => .symbol .rightParenthesis :: outer.closing
  | .callee _ outer =>
    .symbol .leftParenthesis :: .symbol .rightParenthesis :: outer.closing
  | .argument _ _ _ outer => .symbol .rightParenthesis :: outer.closing
  | .initializer _ outer => outer.closing
  | .returned outer => outer.closing
  | .leading outer => outer.closing
  | .assigned _ outer => outer.closing

/-- What closes the constructs around a statement, behind that statement. -/
def StatementSite.closing {goal : Goal} : StatementSite goal → List Token.Kind
  | .goal => []
  | .body _ _ _ _ outer => .symbol .rightBrace :: outer.closing

end

/-- What completes a position: an operand, a declaration, a call or a function literal that is
begun, and then the constructs around it. -/
def Position.closing : Position goal → List Token.Kind
  | .statement site => .keyword .null :: site.closing
  | .operand _ site => .keyword .null :: site.closing
  | .operator _ _ site => site.closing
  | .declaredName site => .identifier :: .symbol .equals :: .keyword .null :: site.closing
  | .declaredEquals _ site => .symbol .equals :: .keyword .null :: site.closing
  | .firstArgument _ _ site => .symbol .rightParenthesis :: site.closing
  | .parameterList _ _ site =>
    .symbol .leftParenthesis :: .symbol .rightParenthesis :: .symbol .leftBrace ::
      .symbol .rightBrace :: site.closing
  | .firstParameter _ _ site =>
    .symbol .rightParenthesis :: .symbol .leftBrace :: .symbol .rightBrace :: site.closing
  | .parameter _ _ _ site =>
    .identifier :: .symbol .rightParenthesis :: .symbol .leftBrace :: .symbol .rightBrace ::
      site.closing
  | .parameterEnd _ _ _ site =>
    .symbol .rightParenthesis :: .symbol .leftBrace :: .symbol .rightBrace :: site.closing
  | .bodyStart _ _ _ site => .symbol .leftBrace :: .symbol .rightBrace :: site.closing

/-! ## Completing -/

namespace Position

/-- Tokens of some kinds complete a position, whatever else they are. -/
def Completes (position : Position goal) (kinds : List Token.Kind) : Prop :=
  ∀ tokens : List Token, tokens.map Token.kind = kinds →
    ∃ last result, position.Leads tokens last ∧ last.Complete result

variable {position : Position goal} {kinds : List Token.Kind} {kind : Token.Kind}

theorem completes_nil {result : goal.Result} (halts : ∀ token, position.halt token = .ok result) :
    position.Completes [] := by
  rintro tokens none
  rw [List.map_eq_nil_iff.mp none]
  have complete := complete_of_halt (halts ⟨.endOfFile, "", ⟨0, 0⟩, 0⟩)
  exact ⟨position, result, .here position, complete⟩

/-- A token of the first kind leads on to a position that the other kinds complete. -/
theorem Completes.cons (first : ∀ token : Token, token.kind = kind →
    ∃ next, position.accept? token = some next ∧ next.Completes kinds) :
    position.Completes (kind :: kinds) := by
  intro tokens same
  obtain ⟨token, more, rfl, here, further⟩ := List.map_eq_cons_iff.mp same
  obtain ⟨next, accepted, completes⟩ := first token here
  obtain ⟨last, result, leads, complete⟩ := completes more further
  exact ⟨last, result, .step accepted leads, complete⟩

end Position

mutual

/-- Behind an operand, the constructs around it can be closed. -/
theorem ExpressionSite.completes_closing {goal : Goal} : ∀ (site : ExpressionSite goal)
    (value : Expression) (pending : Pending),
    (Position.operator value pending site).Completes site.closing
  | .goal, value, pending => Position.completes_nil fun _ => rfl
  | .parenthesis outside outer, value, pending => by
      refine .cons fun token kind =>
        ⟨_, ?_, outer.completes_closing (pending.sumWith value) outside⟩
      rw [Position.accept?_operator (by rw [kind]; rfl), ExpressionSite.acceptAfter?, if_pos kind]
  | .callee outside outer, value, pending => by
      refine .cons fun token kind => ⟨.firstArgument (pending.sumWith value) outside outer, ?_, ?_⟩
      · rw [Position.accept?_operator (by rw [kind]; rfl), ExpressionSite.acceptAfter?, if_pos kind]
      · exact .cons fun token kind => ⟨_, if_pos kind, outer.completes_closing _ outside⟩
  | .argument called earlier outside outer, value, pending => by
      refine .cons fun token kind => ⟨.operator (.call called (earlier ++ [pending.sumWith value]))
        outside outer, ?_, outer.completes_closing _ outside⟩
      rw [Position.accept?_operator (by rw [kind]; rfl), ExpressionSite.acceptAfter?,
        if_neg (by simp [kind]), if_pos kind]
  | .initializer name outer, value, pending =>
      outer.completes_closing (.declare name (pending.sumWith value)) (fun token kind =>
        Position.accept?_operator (by rw [kind]; rfl)) fun _ => rfl
  | .returned outer, value, pending =>
      outer.completes_closing (.return (pending.sumWith value)) (fun token kind =>
        Position.accept?_operator (by rw [kind]; rfl)) fun _ => rfl
  | .leading outer, value, pending =>
      outer.completes_closing (.evaluate (pending.sumWith value)) (fun token kind => by
        rw [Position.accept?_operator (by rw [kind]; rfl), ExpressionSite.acceptAfter?,
          if_neg (by simp [kind])])
        fun _ => rfl
  | .assigned target outer, value, pending =>
      outer.completes_closing (.assign target (pending.sumWith value)) (fun token kind =>
        Position.accept?_operator (by rw [kind]; rfl)) fun _ => rfl

/-- Behind a statement, the constructs around it can be closed. -/
theorem StatementSite.completes_closing {goal : Goal} : ∀ (site : StatementSite goal)
    (statement : Statement) {position : Position goal},
    (∀ token : Token, token.kind = .symbol .rightBrace →
      position.accept? token = site.acceptAfter? statement token) →
    (∀ token, position.halt token = site.haltAfter statement token) →
    position.Completes site.closing
  | .goal, statement, position, accepts, halts => Position.completes_nil halts
  | .body parameters earlier mark outside outer, statement, position, accepts, halts => by
      refine .cons fun token kind => ⟨_, ?_, outer.completes_closing
        (.function parameters (earlier ++ [statement]) mark) outside⟩
      rw [accepts token kind, StatementSite.acceptAfter?, StatementSite.accept?, if_pos kind]

end

/-- An operand completes what wants one. -/
theorem Position.completes_operand (pending : Pending) (site : ExpressionSite goal)
    {position : Position goal}
    (accepts : ∀ token : Token, token.kind = .keyword .null →
      position.accept? token = acceptOperand? pending site token) :
    position.Completes (.keyword .null :: site.closing) := by
  refine .cons fun token kind => ⟨.operator (.null token.span) pending site, ?_,
    site.completes_closing _ pending⟩
  rw [accepts token kind, acceptOperand?, kind]

/-- A body completes a function literal. -/
theorem Position.completes_bodyStart (parameters : List String) (mark : Span) (pending : Pending)
    (site : ExpressionSite goal) : (Position.bodyStart parameters mark pending site).Completes
      (.symbol .leftBrace :: .symbol .rightBrace :: site.closing) :=
  .cons fun _ kind => ⟨_, if_pos kind, .cons fun _ kind => ⟨_, if_pos kind,
    site.completes_closing _ pending⟩⟩

/-- The end of the parameters and a body complete a function literal behind a parameter. -/
theorem Position.completes_parameterEnd (earlier : List String) (mark : Span) (pending : Pending)
    (site : ExpressionSite goal) : (Position.parameterEnd earlier mark pending site).Completes
      (.symbol .rightParenthesis :: .symbol .leftBrace :: .symbol .rightBrace :: site.closing) := by
  refine .cons fun token kind => ⟨_, ?_, completes_bodyStart earlier mark pending site⟩
  rw [accept?, if_neg (by simp [kind]), if_pos kind]

/-- An initializer completes a declaration. -/
theorem Position.completes_declaredEquals (name : String) (site : StatementSite goal) :
    (Position.declaredEquals name site).Completes
      (.symbol .equals :: .keyword .null :: site.closing) :=
  .cons fun _ kind => ⟨_, if_pos kind, completes_operand {} (.initializer name site) fun _ _ => rfl⟩

/-- **Every position can be completed.** -/
theorem Position.completes_closing (position : Position goal) :
    position.Completes position.closing := by
  cases position with
  | statement site =>
      refine completes_operand {} (.leading site) fun token kind => ?_
      cases site <;> simp [accept?, StatementSite.accept?, acceptStatement?, kind]
  | operand pending site => exact completes_operand pending site fun _ _ => rfl
  | operator value pending site => exact site.completes_closing value pending
  | declaredName site =>
      exact .cons fun token kind => ⟨_, if_pos kind, completes_declaredEquals token.text site⟩
  | declaredEquals name site => exact completes_declaredEquals name site
  | firstArgument called pending site =>
      exact .cons fun token kind => ⟨_, if_pos kind, site.completes_closing _ pending⟩
  | parameterList mark pending site =>
      exact .cons fun token kind => ⟨_, if_pos kind, .cons fun token kind =>
        ⟨_, if_pos kind, completes_bodyStart [] mark pending site⟩⟩
  | firstParameter mark pending site =>
      exact .cons fun token kind => ⟨_, if_pos kind, completes_bodyStart [] mark pending site⟩
  | parameter earlier mark pending site =>
      exact .cons fun token kind => ⟨_, if_pos kind, completes_parameterEnd _ mark pending site⟩
  | parameterEnd earlier mark pending site => exact completes_parameterEnd earlier mark pending site
  | bodyStart parameters mark pending site =>
      exact completes_bodyStart parameters mark pending site

/-! ## Spelling -/

/-- Every kind of a token of the vocabulary is that of some word. -/
theorem Token.Kind.exists_word {kind : Token.Kind} (proper : kind.isProper = true) :
    ∃ word, IsToken word ∧ Token.Kind.ofText word = kind := by
  cases kind with
  | keyword word => exact ⟨word.text, isToken_keyword word, ofText_keyword word⟩
  | symbol mark => exact ⟨mark.text, isToken_symbol mark, ofText_symbol mark⟩
  | identifier => exact ⟨"a", isToken_word rfl rfl (List.forall_mem_nil _), by decide +kernel⟩
  | integer =>
      have numeral : IsNumeral "0" := ⟨nofun, List.all_eq_true.mp rfl⟩
      exact ⟨"0", numeral.isToken, numeral.kind⟩
  | invalid | endOfFile => cases proper

/-- Proper kinds are those of some words. -/
theorem Token.Kind.exists_words : ∀ {kinds : List Token.Kind},
    (∀ kind ∈ kinds, kind.isProper = true) →
    ∃ words : List String, (∀ word ∈ words, IsToken word) ∧ words.map Token.Kind.ofText = kinds
  | [], _ => ⟨[], List.forall_mem_nil _, rfl⟩
  | kind :: kinds, proper => by
      rw [List.forall_mem_cons] at proper
      obtain ⟨word, token, same⟩ := exists_word proper.1
      obtain ⟨words, tokens, sames⟩ := exists_words proper.2
      exact ⟨word :: words, List.forall_mem_cons.mpr ⟨token, tokens⟩, by
        rw [List.map_cons, same, sames]⟩

mutual

theorem ExpressionSite.isProper_of_mem_closing {goal : Goal} : ∀ (site : ExpressionSite goal),
    ∀ kind ∈ site.closing, kind.isProper = true
  | .goal => List.forall_mem_nil _
  | .parenthesis _ outer | .argument _ _ _ outer =>
    List.forall_mem_cons.mpr ⟨rfl, outer.isProper_of_mem_closing⟩
  | .callee _ outer =>
    List.forall_mem_cons.mpr ⟨rfl, List.forall_mem_cons.mpr ⟨rfl, outer.isProper_of_mem_closing⟩⟩
  | .initializer _ outer | .returned outer | .leading outer | .assigned _ outer =>
    outer.isProper_of_mem_closing

theorem StatementSite.isProper_of_mem_closing {goal : Goal} : ∀ (site : StatementSite goal),
    ∀ kind ∈ site.closing, kind.isProper = true
  | .goal => List.forall_mem_nil _
  | .body _ _ _ _ outer => List.forall_mem_cons.mpr ⟨rfl, outer.isProper_of_mem_closing⟩

end

/-- What completes a position is of the vocabulary. -/
theorem Position.isProper_of_mem_closing (position : Position goal) :
    ∀ kind ∈ position.closing, kind.isProper = true := by
  cases position with
  | statement site | declaredName site | declaredEquals _ site =>
      have inside := site.isProper_of_mem_closing
      simpa [closing, Token.Kind.isProper] using inside
  | _ =>
      rename_i site
      have inside := site.isProper_of_mem_closing
      simpa [closing, Token.Kind.isProper] using inside

end SlotCompiler
