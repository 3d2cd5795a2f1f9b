import SlotCompiler.Proofs.Compilation.Deliveries
import SlotCompiler.Proofs.Parsing.Derivation

/-!
# Verdicts

Whether a source has a unit, and which, does not depend on who listens: a run without setbacks tells
nothing, and one with a setback either ends there or has been recovered from, and then its tree is
not lowered.  So there is a verdict on every source, a unit or the diagnostic that is told first
(`Source.verdict`), from which the outcome of every compilation is read off
(`Source.compile_eq_verdict`).
-/

set_option autoImplicit false

namespace SlotCompiler

variable {σ : Type} [Listener σ]

/-! ## Runs with and without setbacks -/

namespace Parser

/-- A run without setbacks finds its statements and tells nothing. -/
theorem statements_of_smooth (listener : σ) {parser : Parser} (smooth : parser.setbacks = []) :
    ∃ after, parser.statements listener = (.ok parser.found, after, listener) ∧
      after.recovered = parser.recovered := by
  induction parser using run_induction with
  | ended parser none =>
      rw [statements_of_nil listener none, found_of_nil none]
      exact ⟨parser, rfl, rfl⟩
  | read parser statement more done ih =>
      rw [setbacks_of_ok more done] at smooth
      obtain ⟨after, same, recovered⟩ := ih smooth
      rw [statements_of_ok listener more done, found_of_ok more done, same]
      exact ⟨after, rfl, recovered⟩
  | recovered parser mishap more failed ih =>
      rw [setbacks_of_error more failed] at smooth
      cases smooth

/-- What is found without setbacks is derived from all tokens. -/
theorem derives_found {parser : Parser} (smooth : parser.setbacks = []) :
    Grammar.Unit parser.rest ⟨[], parser.found⟩ := by
  obtain ⟨body, read, derived⟩ := derives_statements (Transcript.always .stop) smooth
  obtain ⟨after, same, -⟩ := statements_of_smooth (Transcript.always .stop) smooth
  cases read.symm.trans (congrArg Prod.fst same)
  exact .body derived

/-- Only a run without setbacks comes to its end and has recovered from nothing. -/
theorem smooth_of_ok {listener : σ} {parser : Parser} {body : List Statement}
    (done : (parser.statements listener).1 = .ok body)
    (never : (parser.statements listener).2.1.recovered = parser.recovered) :
    parser.setbacks = [] := by
  induction parser using run_induction generalizing body with
  | ended parser none => exact setbacks_of_nil none
  | read parser statement more read ih =>
      rw [statements_of_ok listener more read] at done never
      rw [setbacks_of_ok more read]
      cases rest : (parser.statement.2.statements listener).1 with
      | ok body => exact ih rest never
      | error diagnostic =>
          rw [rest] at done
          cases done
  | recovered parser mishap more failed ih =>
      rw [statements_of_error listener more failed] at done never
      generalize Listener.tell listener mishap.diagnostic = told at done never
      obtain ⟨answer, after⟩ := told
      cases answer with
      | stop => cases done
      | resume =>
          obtain ⟨deliveries, -, -, recovered⟩ :=
            (parser.statement.2.recover mishap).statements_logged (Logged.mk after [])
          rw [recovered_recover, recovered_statement] at recovered
          dsimp only at never recovered
          omega

end Parser

/-! ## Sources -/

namespace Source

variable (source : Source)

theorem snd_parse (listener : σ) :
    (source.parse listener).2 = ((Parser.ofSource source).statements listener).2.2 := by
  unfold parse Parser.unit
  dsimp only
  split <;> rename_i same <;> exact (congrArg (fun outcome => outcome.2.2) same).symm

variable {source}

theorem parse_of_smooth (listener : σ) (smooth : (Parser.ofSource source).setbacks = []) :
    source.parse listener = (.ok ⟨[], (Parser.ofSource source).found⟩, listener) := by
  obtain ⟨after, same, recovered⟩ := Parser.statements_of_smooth listener smooth
  rw [parse, Parser.unit, same]
  exact congrArg (·, listener) (if_pos recovered)

theorem fst_parse_of_setback (listener : σ) (rough : (Parser.ofSource source).setbacks ≠ []) :
    (source.parse listener).1 = .error .problemsFound := by
  obtain ⟨⟨outcome, after, told⟩, ran⟩ :
      ∃ run, (Parser.ofSource source).statements listener = run := ⟨_, rfl⟩
  rw [parse, Parser.unit, ran]
  cases outcome with
  | error diagnostic => rfl
  | ok body =>
      -- a listener that goes on behind every setback gets statements, but no tree
      have recovered : after.recovered ≠ 0 := fun never =>
        rough (Parser.smooth_of_ok (congrArg Prod.fst ran)
          ((congrArg (fun run => run.2.1.recovered) ran).trans never))
      exact if_neg recovered

/-- The verdict on a source: a unit, or the diagnostic that is told first. -/
def verdict (source : Source) : Except Diagnostic CodeUnit :=
  match (Parser.ofSource source).setbacks with
  | [] => FunctionSource.lower source ⟨[], (Parser.ofSource source).found⟩
  | setback :: _ => .error setback.diagnostic

theorem verdict_of_smooth (smooth : (Parser.ofSource source).setbacks = []) :
    source.verdict = FunctionSource.lower source ⟨[], (Parser.ofSource source).found⟩ := by
  rw [verdict, smooth]

theorem verdict_of_setback {setback : Setback}
    (first : (Parser.ofSource source).setbacks.head? = some setback) :
    source.verdict = .error setback.diagnostic := by
  obtain ⟨setbacks, split⟩ := List.head?_eq_some_iff.mp first
  rw [verdict, split]

/-- A verdict is that on the first setback, or that of lowering what is found. -/
theorem verdict_cases (source : Source) :
    (∃ setback, (Parser.ofSource source).setbacks.head? = some setback ∧
        source.verdict = .error setback.diagnostic) ∨
      ((Parser.ofSource source).setbacks = [] ∧
        source.verdict = FunctionSource.lower source ⟨[], (Parser.ofSource source).found⟩) := by
  cases run : (Parser.ofSource source).setbacks with
  | nil => exact .inr ⟨rfl, verdict_of_smooth run⟩
  | cons setback setbacks =>
      exact .inl ⟨setback, rfl, verdict_of_setback (congrArg List.head? run)⟩

/-- A compilation with a setback ends behind parsing. -/
theorem compile_of_setback (listener : σ) {setback : Setback}
    (first : (Parser.ofSource source).setbacks.head? = some setback) :
    source.compile listener =
      (.error .problemsFound, ((Parser.ofSource source).statements listener).2.2) := by
  have rough : (Parser.ofSource source).setbacks ≠ [] := by
    rintro smooth
    rw [smooth] at first
    cases first
  rw [← source.snd_parse]
  exact source.compile_of_rejection (Prod.ext (fst_parse_of_setback listener rough) rfl)

/-- A compilation without setbacks lowers what is found. -/
theorem compile_of_smooth (listener : σ) (smooth : (Parser.ofSource source).setbacks = []) :
    source.compile listener =
      source.generate ⟨[], (Parser.ofSource source).found⟩ listener :=
  source.compile_of_tree (parse_of_smooth listener smooth)

/-- **A compilation comes to its verdict**, whoever listens. -/
theorem compile_eq_verdict (source : Source) (listener : σ) :
    (source.compile listener).1 = source.verdict.mapError fun _ => .problemsFound := by
  rcases source.verdict_cases with ⟨setback, first, same⟩ | ⟨smooth, same⟩
  · rw [compile_of_setback listener first, same]
    rfl
  · rw [compile_of_smooth listener smooth, same]
    cases lowered : FunctionSource.lower source ⟨[], (Parser.ofSource source).found⟩ with
    | ok unit =>
        rw [source.generate_of_unit listener lowered]
        rfl
    | error diagnostic =>
        rw [source.generate_of_diagnostic listener lowered]
        rfl

/-- A unit is compiled only if it is the verdict. -/
theorem verdict_of_compile {source : Source} {listener : σ} {unit : CodeUnit}
    (compiled : (source.compile listener).1 = .ok unit) : source.verdict = .ok unit := by
  rw [compile_eq_verdict] at compiled
  cases verdict : source.verdict with
  | ok made =>
      rw [verdict] at compiled
      cases compiled
      rfl
  | error first =>
      rw [verdict] at compiled
      cases compiled

/-- A source is rejected only if a diagnostic is the verdict. -/
theorem verdict_of_rejection {source : Source} {listener : σ} {rejection : Rejection}
    (rejected : (source.compile listener).1 = .error rejection) :
    ∃ diagnostic, source.verdict = .error diagnostic := by
  rw [compile_eq_verdict] at rejected
  cases verdict : source.verdict with
  | ok unit =>
      rw [verdict] at rejected
      cases rejected
  | error diagnostic => exact ⟨diagnostic, rfl⟩

/-! ## What a listener that gives up is told -/

/-- What a listener that gives up at once is told of a compilation. -/
def heard (source : Source) : List Diagnostic :=
  (source.compile (Transcript.always .stop)).2.received

theorem heard_of_unit {unit : CodeUnit} (accepted : source.verdict = .ok unit) :
    source.heard = [] := by
  rcases source.verdict_cases with ⟨setback, first, same⟩ | ⟨smooth, same⟩
  · cases same.symm.trans accepted
  · rw [heard, compile_of_smooth _ smooth, source.generate_of_unit _ (same.symm.trans accepted)]
    rfl

/-- **A listener that gives up at once is told the verdict** and nothing else. -/
theorem heard_of_diagnostic {diagnostic : Diagnostic}
    (refused : source.verdict = .error diagnostic) : source.heard = [diagnostic] := by
  rcases source.verdict_cases with ⟨setback, first, same⟩ | ⟨smooth, same⟩
  · cases same.symm.trans refused
    obtain ⟨setbacks, split⟩ := List.head?_eq_some_iff.mp first
    rw [heard, compile_of_setback _ first, Parser.received_statements, split]
    rfl
  · rw [heard, compile_of_smooth _ smooth,
      source.generate_of_diagnostic _ (same.symm.trans refused)]
    rfl

end Source

end SlotCompiler
