import SlotCompiler.Diagnostic.Transcript
import SlotCompiler.Parsing.Parser

/-!
# Runs of the parser

A run of the parser is a row of statements, each of which is read or is a setback.  A run that
recovers from every setback depends on the tokens alone: its attempts (`Parser.attempts`), the
statements it finds (`Parser.found`) and its setbacks (`Parser.setbacks`).  Whatever a listener
answers, it hears the diagnostics of these setbacks, in order, up to the first one at which it gives
up; that one is the result then, and otherwise what is found is (`Parser.statements_eq`).
-/

set_option autoImplicit false

namespace SlotCompiler

/-! ## Answers -/

namespace Listener

variable {σ : Type} [Listener σ]

/-- A listener behind some diagnostics. -/
def told (listener : σ) (diagnostics : List Diagnostic) : σ :=
  diagnostics.foldl (fun listener diagnostic => (tell listener diagnostic).2) listener

/-- The answers of a listener that is told some diagnostics, whatever it answers. -/
def answers (listener : σ) : List Diagnostic → List Answer
  | [] => []
  | diagnostic :: diagnostics =>
    (tell listener diagnostic).1 :: answers (tell listener diagnostic).2 diagnostics

/-- What a listener hears of some diagnostics: nothing more once it gives up. -/
def heard (listener : σ) : List Diagnostic → List Diagnostic
  | [] => []
  | diagnostic :: diagnostics =>
    match tell listener diagnostic with
    | (.resume, listener) => diagnostic :: heard listener diagnostics
    | (.stop, _) => [diagnostic]

/-- The first of some diagnostics at which a listener gives up, if there is one. -/
def givesUpAt? (listener : σ) : List Diagnostic → Option Diagnostic
  | [] => none
  | diagnostic :: diagnostics =>
    match tell listener diagnostic with
    | (.resume, listener) => givesUpAt? listener diagnostics
    | (.stop, _) => some diagnostic

/-- A listener hears everything up to the diagnostic that it first answers by giving up. -/
theorem heard_eq (listener : σ) (diagnostics : List Diagnostic) :
    heard listener diagnostics =
      match (answers listener diagnostics).idxOf? .stop with
      | none => diagnostics
      | some place => diagnostics.take (place + 1) := by
  induction diagnostics generalizing listener with
  | nil => rfl
  | cons diagnostic diagnostics ih =>
      rw [heard, answers]
      obtain ⟨answer, after⟩ := tell listener diagnostic
      cases answer with
      | stop => rfl
      | resume =>
          have goesOn : (Answer.resume == Answer.stop) = false := rfl
          simp only [List.idxOf?_cons, goesOn, Bool.false_eq_true, if_false, ih]
          cases (answers after diagnostics).idxOf? .stop <;> rfl

theorem heard_prefix (listener : σ) (diagnostics : List Diagnostic) :
    heard listener diagnostics <+: diagnostics := by
  rw [heard_eq]
  split
  · exact List.prefix_refl _
  · exact List.take_prefix _ _

/-- A listener hears the first diagnostic in any case, and no other if it gives up there. -/
theorem exists_heard_cons (listener : σ) (diagnostic : Diagnostic)
    (diagnostics : List Diagnostic) :
    ∃ further, heard listener (diagnostic :: diagnostics) = diagnostic :: further ∧
      ((tell listener diagnostic).1 = .stop → further = []) := by
  rw [heard]
  obtain ⟨answer, after⟩ := tell listener diagnostic
  cases answer with
  | resume => exact ⟨heard after diagnostics, rfl, nofun⟩
  | stop => exact ⟨[], rfl, fun _ => rfl⟩

theorem givesUpAt?_eq (listener : σ) (diagnostics : List Diagnostic) :
    givesUpAt? listener diagnostics =
      ((answers listener diagnostics).idxOf? .stop).bind (diagnostics[·]?) := by
  induction diagnostics generalizing listener with
  | nil => rfl
  | cons diagnostic diagnostics ih =>
      rw [givesUpAt?, answers]
      obtain ⟨answer, after⟩ := tell listener diagnostic
      cases answer with
      | stop => rfl
      | resume =>
          have goesOn : (Answer.resume == Answer.stop) = false := rfl
          simp only [List.idxOf?_cons, goesOn, Bool.false_eq_true, if_false, ih]
          cases (answers after diagnostics).idxOf? .stop <;> rfl

theorem length_answers (listener : σ) (diagnostics : List Diagnostic) :
    (answers listener diagnostics).length = diagnostics.length := by
  induction diagnostics generalizing listener with
  | nil => rfl
  | cons diagnostic diagnostics ih => rw [answers, List.length_cons, List.length_cons, ih]

/-- At the first answer that is to give up, there is a diagnostic. -/
theorem exists_of_idxOf?_answers {listener : σ} {diagnostics : List Diagnostic} {place : Nat}
    (first : (answers listener diagnostics).idxOf? .stop = some place) :
    ∃ diagnostic, diagnostics[place]? = some diagnostic ∧
      givesUpAt? listener diagnostics = some diagnostic := by
  obtain ⟨inside, -⟩ := List.idxOf?_eq_some_iff.mp first
  rw [length_answers] at inside
  refine ⟨diagnostics[place], List.getElem?_eq_getElem inside, ?_⟩
  rw [givesUpAt?_eq, first]
  exact List.getElem?_eq_getElem inside

/-- Whatever a listener has been told, it goes on at the next diagnostic. -/
def Resumes (listener : σ) : Prop :=
  ∀ diagnostics diagnostic, (tell (told listener diagnostics) diagnostic).1 = .resume

/-- A listener gives up at the first diagnostic, whatever it is. -/
def Stops (listener : σ) : Prop := ∀ diagnostic, (tell listener diagnostic).1 = .stop

theorem Resumes.tell {listener : σ} (resumes : Resumes listener) (diagnostic : Diagnostic) :
    Resumes (tell listener diagnostic).2 := fun diagnostics => resumes (diagnostic :: diagnostics)

/-- A listener that never gives up hears everything. -/
theorem Resumes.heard_eq {listener : σ} (resumes : Resumes listener)
    (diagnostics : List Diagnostic) :
    heard listener diagnostics = diagnostics ∧ givesUpAt? listener diagnostics = none := by
  induction diagnostics generalizing listener with
  | nil => exact ⟨rfl, rfl⟩
  | cons diagnostic diagnostics ih =>
      have answered : (Listener.tell listener diagnostic).1 = .resume := resumes [] diagnostic
      have further := ih (resumes.tell diagnostic)
      rw [heard, givesUpAt?]
      generalize Listener.tell listener diagnostic = told at answered further
      obtain ⟨answer, after⟩ := told
      obtain rfl : answer = .resume := answered
      exact ⟨congrArg (diagnostic :: ·) further.1, further.2⟩

/-- A listener that gives up at once does so at the first diagnostic. -/
theorem Stops.givesUpAt?_eq {listener : σ} (stops : Stops listener)
    (diagnostics : List Diagnostic) : givesUpAt? listener diagnostics = diagnostics.head? := by
  cases diagnostics with
  | nil => rfl
  | cons diagnostic diagnostics =>
      have answered := stops diagnostic
      rw [givesUpAt?]
      split
      · rename_i goesOn
        rw [goesOn] at answered
        cases answered
      · rfl

end Listener

namespace Transcript

theorem told_eq (transcript : Transcript) (diagnostics : List Diagnostic) :
    Listener.told transcript diagnostics =
      { transcript with received := transcript.received ++ diagnostics } := by
  induction diagnostics generalizing transcript with
  | nil => simp [Listener.told]
  | cons diagnostic diagnostics ih =>
      have further := ih (Listener.tell transcript diagnostic).2
      simp only [Listener.tell, List.append_assoc, List.singleton_append] at further
      exact further

theorem resumes_always : Listener.Resumes (always .resume) := by
  intro diagnostics diagnostic
  rw [told_eq]
  rfl

theorem stops_always : Listener.Stops (always .stop) := fun _ => rfl

end Transcript

/-! ## Attempts, setbacks and what is found -/

/-- A statement that could not be read. -/
structure Setback where
  /-- The parser behind the mishap, before it recovers. -/
  parser : Parser
  mishap : Mishap

namespace Setback

/-- What a listener is told of a setback. -/
def diagnostic (setback : Setback) : Diagnostic := setback.mishap.diagnostic

/-- The setbacks that a listener hears of: the rest is lost when it gives up.  Its answers are
counted on from a number. -/
def told (answer : Nat → Answer) : Nat → List Setback → List Setback
  | _, [] => []
  | count, setback :: setbacks =>
    match answer count with
    | .resume => setback :: told answer (count + 1) setbacks
    | .stop => [setback]

/-- The setbacks that are told to a transcript are those that it hears of. -/
theorem map_told (transcript : Transcript) (setbacks : List Setback) :
    (told transcript.answer transcript.received.length setbacks).map diagnostic =
      Listener.heard transcript (setbacks.map diagnostic) := by
  induction setbacks generalizing transcript with
  | nil => rfl
  | cons setback setbacks ih =>
      rw [told, List.map_cons, Listener.heard]
      simp only [Listener.tell]
      cases answered : transcript.answer transcript.received.length with
      | stop => rfl
      | resume =>
          have further := ih (Listener.tell transcript setback.diagnostic).2
          simp only [Listener.tell, List.length_append, List.length_singleton] at further
          exact congrArg (setback.diagnostic :: ·) further

end Setback

namespace Parser

/-- The setbacks of a parser that recovers from each of them, in order. -/
def setbacks (parser : Parser) : List Setback :=
  if _ : parser.rest = [] then []
  else
    match _ : parser.statement.1 with
    | .ok _ => setbacks parser.statement.2
    | .error mishap =>
      ⟨parser.statement.2, mishap⟩ :: setbacks (parser.statement.2.recover mishap)
termination_by parser.budget
decreasing_by
  · exact budget_statement_lt ‹_› ‹_›
  · exact budget_recover_lt ‹_› ‹_›

/-- The parsers in front of each statement of a run that recovers from every setback, in order. -/
def attempts (parser : Parser) : List Parser :=
  if _ : parser.rest = [] then []
  else
    match _ : parser.statement.1 with
    | .ok _ => parser :: attempts parser.statement.2
    | .error mishap => parser :: attempts (parser.statement.2.recover mishap)
termination_by parser.budget
decreasing_by
  · exact budget_statement_lt ‹_› ‹_›
  · exact budget_recover_lt ‹_› ‹_›

/-- The setback of an attempt, if the statement could not be read. -/
def setback? (attempt : Parser) : Option Setback :=
  match attempt.statement.1 with
  | .ok _ => none
  | .error mishap => some ⟨attempt.statement.2, mishap⟩

/-- The statements that are read in a run that recovers from every setback, in order. -/
def found (parser : Parser) : List Statement :=
  parser.attempts.filterMap fun attempt => attempt.statement.1.toOption

/-! ## One statement after the other -/

variable {parser : Parser}

theorem attempts_of_nil (ended : parser.rest = []) : parser.attempts = [] := by
  rw [attempts, dif_pos ended]

theorem attempts_of_ok (more : parser.rest ≠ []) {statement : Statement}
    (done : parser.statement.1 = .ok statement) :
    parser.attempts = parser :: parser.statement.2.attempts := by
  rw [attempts, dif_neg more]
  split
  · rfl
  · rename_i failed
    rw [done] at failed
    cases failed

theorem attempts_of_error (more : parser.rest ≠ []) {mishap : Mishap}
    (failed : parser.statement.1 = .error mishap) :
    parser.attempts = parser :: (parser.statement.2.recover mishap).attempts := by
  rw [attempts, dif_neg more]
  split
  · rename_i done
    rw [failed] at done
    cases done
  · rename_i other same
    rw [failed] at same
    cases same
    rfl

theorem found_of_nil (ended : parser.rest = []) : parser.found = [] := by
  rw [found, attempts_of_nil ended, List.filterMap_nil]

theorem found_of_ok (more : parser.rest ≠ []) {statement : Statement}
    (done : parser.statement.1 = .ok statement) :
    parser.found = statement :: parser.statement.2.found := by
  rw [found, attempts_of_ok more done]
  exact List.filterMap_cons_some (congrArg Except.toOption done)

theorem found_of_error (more : parser.rest ≠ []) {mishap : Mishap}
    (failed : parser.statement.1 = .error mishap) :
    parser.found = (parser.statement.2.recover mishap).found := by
  rw [found, attempts_of_error more failed]
  exact List.filterMap_cons_none (congrArg Except.toOption failed)

theorem setbacks_of_nil (ended : parser.rest = []) : parser.setbacks = [] := by
  rw [setbacks, dif_pos ended]

theorem setbacks_of_ok (more : parser.rest ≠ []) {statement : Statement}
    (done : parser.statement.1 = .ok statement) :
    parser.setbacks = parser.statement.2.setbacks := by
  rw [setbacks, dif_neg more]
  split
  · rfl
  · rename_i failed
    rw [done] at failed
    cases failed

theorem setbacks_of_error (more : parser.rest ≠ []) {mishap : Mishap}
    (failed : parser.statement.1 = .error mishap) :
    parser.setbacks =
      ⟨parser.statement.2, mishap⟩ :: (parser.statement.2.recover mishap).setbacks := by
  rw [setbacks, dif_neg more]
  split
  · rename_i done
    rw [failed] at done
    cases done
  · rename_i other same
    rw [failed] at same
    cases same
    rfl

/-- The setbacks of a run are those of its attempts. -/
theorem setbacks_eq_filterMap (parser : Parser) :
    parser.setbacks = parser.attempts.filterMap setback? := by
  fun_induction setbacks parser with
  | case1 parser none => rw [attempts_of_nil none, List.filterMap_nil]
  | case2 parser more statement done ih =>
      rw [attempts_of_ok more done, ih]
      refine (List.filterMap_cons_none ?_).symm
      rw [setback?, done]
  | case3 parser more mishap failed ih =>
      rw [attempts_of_error more failed, ih]
      refine (List.filterMap_cons_some ?_).symm
      rw [setback?, failed]

theorem mishap_setback? {attempt : Parser} {mishap : Mishap} :
    attempt.setback?.map Setback.mishap = some mishap ↔
      attempt.statement.1 = .error mishap := by
  unfold setback?
  cases attempt.statement.1 <;> simp

section Statements

variable {σ : Type} [Listener σ] (listener : σ)

theorem statements_of_nil (ended : parser.rest = []) :
    parser.statements listener = (.ok [], parser, listener) := by
  rw [statements, dif_pos ended]

theorem statements_of_ok (more : parser.rest ≠ []) {statement : Statement}
    (done : parser.statement.1 = .ok statement) :
    parser.statements listener =
      ((parser.statement.2.statements listener).1.map (statement :: ·),
        (parser.statement.2.statements listener).2) := by
  rw [statements, dif_neg more]
  split
  · rename_i other same
    rw [done] at same
    cases same
    rfl
  · rename_i failed
    rw [done] at failed
    cases failed

theorem statements_of_error (more : parser.rest ≠ []) {mishap : Mishap}
    (failed : parser.statement.1 = .error mishap) :
    parser.statements listener =
      match Listener.tell listener mishap.diagnostic with
      | (.resume, listener) => (parser.statement.2.recover mishap).statements listener
      | (.stop, listener) => (.error mishap.diagnostic, parser.statement.2, listener) := by
  rw [statements, dif_neg more]
  split
  · rename_i done
    rw [failed] at done
    cases done
  · rename_i other same
    rw [failed] at same
    cases same
    rfl

end Statements

/-- What holds at the end of the tokens, and in front of every statement that is read or recovered
from if it holds behind it, holds of every parser. -/
theorem run_induction {motive : Parser → Prop}
    (ended : ∀ parser : Parser, parser.rest = [] → motive parser)
    (read : ∀ (parser : Parser) (statement : Statement), parser.rest ≠ [] →
      parser.statement.1 = .ok statement → motive parser.statement.2 → motive parser)
    (recovered : ∀ (parser : Parser) (mishap : Mishap), parser.rest ≠ [] →
      parser.statement.1 = .error mishap → motive (parser.statement.2.recover mishap) →
      motive parser)
    (parser : Parser) : motive parser := by
  fun_induction setbacks parser with
  | case1 parser none => exact ended parser none
  | case2 parser more statement done ih => exact read parser statement more done ih
  | case3 parser more mishap failed ih => exact recovered parser mishap more failed ih

/-! ## What a listener is told -/

/-- **The answers of a listener decide only how far a run gets.** It hears the setbacks up to the
one at which it gives up; and if it gives up at none of them, what is found is the result. -/
theorem statements_eq {σ : Type} [Listener σ] (listener : σ) (parser : Parser) :
    (parser.statements listener).1 =
        (match Listener.givesUpAt? listener (parser.setbacks.map Setback.diagnostic) with
        | none => .ok parser.found
        | some diagnostic => .error diagnostic) ∧
      (parser.statements listener).2.2 = Listener.told listener
        (Listener.heard listener (parser.setbacks.map Setback.diagnostic)) := by
  induction parser using run_induction generalizing listener with
  | ended parser none =>
      rw [statements_of_nil _ none, found_of_nil none, setbacks_of_nil none]
      exact ⟨rfl, rfl⟩
  | read parser statement more done ih =>
      obtain ⟨result, told⟩ := ih listener
      rw [statements_of_ok _ more done, found_of_ok more done, setbacks_of_ok more done]
      refine ⟨?_, told⟩
      dsimp only
      rw [result]
      cases Listener.givesUpAt? listener (parser.statement.2.setbacks.map Setback.diagnostic) with
      | none => rfl
      | some diagnostic => rfl
  | recovered parser mishap more failed ih =>
      rw [statements_of_error _ more failed, found_of_error more failed,
        setbacks_of_error more failed, List.map_cons, Listener.givesUpAt?, Listener.heard,
        Setback.diagnostic]
      cases answered : Listener.tell listener mishap.diagnostic with
      | mk answer after =>
          cases answer with
          | stop =>
              refine ⟨rfl, ?_⟩
              dsimp only
              rw [Listener.told, List.foldl_cons, List.foldl_nil, answered]
          | resume =>
              obtain ⟨result, told⟩ := ih after
              refine ⟨result, told.trans ?_⟩
              dsimp only
              rw [Listener.told, Listener.told, List.foldl_cons, answered]

/-- **A transcript receives the setbacks of the run**, up to the one at which it gives up. -/
theorem received_statements (transcript : Transcript) (parser : Parser) :
    (parser.statements transcript).2.2.received = transcript.received ++
      (Setback.told transcript.answer transcript.received.length parser.setbacks).map
        Setback.diagnostic := by
  rw [(statements_eq transcript parser).2, Transcript.told_eq, Setback.map_told]

/-- **A listener that never gives up** is told of every setback, and gets what is found. -/
theorem statements_of_resumes {σ : Type} [Listener σ] {listener : σ}
    (resumes : Listener.Resumes listener) (parser : Parser) :
    (parser.statements listener).1 = .ok parser.found ∧
      (parser.statements listener).2.2 =
        Listener.told listener (parser.setbacks.map Setback.diagnostic) := by
  obtain ⟨result, told⟩ := statements_eq listener parser
  obtain ⟨all, never⟩ := resumes.heard_eq (parser.setbacks.map Setback.diagnostic)
  rw [never] at result
  rw [all] at told
  exact ⟨result, told⟩

theorem unit_of_resumes {σ : Type} [Listener σ] {listener : σ}
    (resumes : Listener.Resumes listener) (parser : Parser) :
    (parser.unit listener).1 = .ok ⟨[], parser.found⟩ ∧
      (parser.unit listener).2.2 =
        Listener.told listener (parser.setbacks.map Setback.diagnostic) := by
  obtain ⟨result, told⟩ := statements_of_resumes resumes parser
  exact ⟨congrArg (Except.map (FunctionSource.mk [] ·)) result, told⟩

/-- **A listener that gives up at once** is told of the first setback, and gets what is found only
if there is none. -/
theorem statements_of_stops {σ : Type} [Listener σ] {listener : σ}
    (stops : Listener.Stops listener) (parser : Parser) :
    (parser.statements listener).1 =
      match parser.setbacks with
      | [] => .ok parser.found
      | setback :: _ => .error setback.diagnostic := by
  rw [(statements_eq listener parser).1, stops.givesUpAt?_eq]
  cases parser.setbacks <;> rfl

/-- A silent run has no setbacks. -/
theorem setbacks_of_silent {transcript : Transcript}
    (silent : (parser.statements transcript).2.2.received = transcript.received) :
    parser.setbacks = [] := by
  rw [received_statements, List.append_right_eq_self, List.map_eq_nil_iff] at silent
  cases found : parser.setbacks with
  | nil => rfl
  | cons setback setbacks =>
      rw [found, Setback.told] at silent
      split at silent <;> cases silent

end Parser

end SlotCompiler
