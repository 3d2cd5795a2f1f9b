import SlotCompiler.Proofs.Parsing.Run
import SlotCompiler.Proofs.Parsing.Soundness
import SlotCompiler.Proofs.Scanning.Tokens

/-!
# Accepted sources are derived

A source that is parsed without a diagnostic is derived by the grammar, from all of its tokens and
nothing else, as exactly the tree that parsing returns (`Parser.derives_unit`).
-/

set_option autoImplicit false

namespace SlotCompiler

/-- Bodies stand one behind the other. -/
theorem Grammar.Body.append {tokens : List Token} {body : List Statement}
    (earlier : Grammar.Body tokens body) : ∀ {more : List Token} {further : List Statement},
    Grammar.Body more further → Grammar.Body (tokens ++ more) (body ++ further)
  | _, _, .none => by
      rw [List.append_nil, List.append_nil]
      exact earlier
  | _, _, .next later final => by
      rw [← List.append_assoc, ← List.append_assoc]
      exact .next (earlier.append later) final

namespace Parser

/-- A statement that is read is derived from the tokens used up. -/
theorem derives_statement {parser : Parser} {statement : Statement}
    (done : parser.statement.1 = .ok statement) :
    ∃ used, parser.rest = used ++ parser.statement.2.rest ∧ Grammar.Sentence used statement := by
  have nothing : (Position.statement StatementSite.goal).Spelled [] := rfl
  exact Position.derives_read nothing done

/-- Without setbacks, all tokens derive the statements that are read. -/
theorem derives_statements {σ : Type} [Listener σ] (listener : σ) {parser : Parser}
    (smooth : parser.setbacks = []) :
    ∃ body, (parser.statements listener).1 = .ok body ∧ Grammar.Body parser.rest body := by
  induction parser using run_induction with
  | ended parser none =>
      refine ⟨[], by rw [statements_of_nil _ none], ?_⟩
      rw [none]
      exact .none
  | read parser statement more done ih =>
      rw [setbacks_of_ok more done] at smooth
      obtain ⟨body, rest, derived⟩ := ih smooth
      obtain ⟨used, split, sentence⟩ := derives_statement done
      refine ⟨statement :: body, ?_, ?_⟩
      · rw [statements_of_ok _ more done, rest]
        rfl
      · have first := Grammar.Body.next .none sentence
        rw [split]
        exact Grammar.Body.append first derived
  | recovered parser mishap more failed ih =>
      rw [setbacks_of_error more failed] at smooth
      cases smooth

/-- **Parsing is sound.** When a source is parsed and the listener hears nothing, the grammar
derives the tree from the tokens of the source, all of them in order; and every token is marked
by the span of its own text. -/
theorem derives_unit {source : Source} {transcript after : Transcript} {tree : FunctionSource}
    {parser : Parser} (parsed : unit transcript (ofSource source) = (.ok tree, parser, after))
    (silent : after.received = transcript.received) :
    Grammar.Unit source.tokens tree ∧
      ∀ token ∈ source.tokens, source.extract token.span = token.text := by
  refine ⟨?_, fun token member => source.extract_span member⟩
  have heard : ((ofSource source).statements transcript).2.2.received = transcript.received := by
    have same : ((ofSource source).statements transcript).2.2 = after :=
      congrArg (fun outcome => outcome.2.2) parsed
    rw [same, silent]
  obtain ⟨body, read, derived⟩ := derives_statements transcript (setbacks_of_silent heard)
  have result : ((ofSource source).statements transcript).1.map (⟨[], ·⟩) = .ok tree :=
    congrArg Prod.fst parsed
  rw [read] at result
  cases result
  exact .body derived

/-- A source with a call and with operators of both levels. -/
def callSource : Source := .ofString "var f = call g(1, -2) * 3 + h"

/-- What `callSource` is read as. -/
def callTree : FunctionSource where
  parameters := []
  body := [.declare "f" (.binary .add
    (.binary .multiply
      (.call (.name ⟨13, 14⟩) [.integer ⟨15, 16⟩, .unary .negate (.integer ⟨19, 20⟩) ⟨18, 19⟩])
      (.integer ⟨24, 25⟩) ⟨22, 23⟩)
    (.name ⟨28, 29⟩) ⟨26, 27⟩)]

theorem derives_unit_call :
    (unit (Transcript.always .stop) (ofSource callSource)).1 = .ok callTree ∧
      (unit (Transcript.always .stop) (ofSource callSource)).2.2.received = [] ∧
      Grammar.Unit callSource.tokens callTree := by
  have read : (unit (Transcript.always .stop) (ofSource callSource)).1 = .ok callTree := by
    with_unfolding_all rfl
  have silent : (unit (Transcript.always .stop) (ofSource callSource)).2.2.received = [] := by
    decide +kernel
  exact ⟨read, silent, (derives_unit (Prod.ext read rfl) silent).1⟩

end Parser

end SlotCompiler
