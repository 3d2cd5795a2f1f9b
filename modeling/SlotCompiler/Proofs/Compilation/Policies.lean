import SlotCompiler.Proofs.Compilation.Verdict

/-!
# Recovery policies

A listener answers every diagnostic by going on or by giving up.  Its answers cut a run short and
change nothing else: whatever it hears, it hears in the order of the run that goes on behind every
setback, and it gets the tree of that run if it never gives up.  The two runs are kept in step by
one induction over the attempts of the parser (`Parser.statements_eq`), in which an answer decides
nothing but whether there is another attempt.

A compilation that fails tells every listener its verdict first
(`Source.log_compile_of_diagnostic`), so a report that stops there contains the first message of the
report that goes on.  Both halves together are `Source.policy_only_cuts`.
-/

set_option autoImplicit false

namespace SlotCompiler

namespace Source

variable {σ : Type} [Listener σ]

/-! ## Parsing -/

/-- A log of parsing shows what its listener hears of all setbacks. -/
theorem log_unit (source : Source) (listener : σ) :
    (Parser.unit (Logged.mk listener []) (.ofSource source)).2.2.log.map Delivery.diagnostic =
      Listener.heard listener ((Parser.ofSource source).setbacks.map Setback.diagnostic) := by
  have told := ((Parser.ofSource source).statements_eq (Logged.mk listener [])).2
  have log := congrArg (fun logged => logged.log.map Delivery.diagnostic) told
  rw [Logged.log_told, Listener.heard_eq, Logged.answers_eq, ← Listener.heard_eq] at log
  exact log

/-- A transcript that goes on behind every diagnostic receives all setbacks, and gets a tree. -/
theorem unit_always_resume (source : Source) :
    (Parser.unit (Transcript.always .resume) (.ofSource source)).1 =
        .ok ⟨[], (Parser.ofSource source).found⟩ ∧
      (Parser.unit (Transcript.always .resume) (.ofSource source)).2.2.received =
        (Parser.ofSource source).setbacks.map Setback.diagnostic := by
  obtain ⟨result, told⟩ := Parser.unit_of_resumes Transcript.resumes_always (.ofSource source)
  rw [Transcript.told_eq] at told
  exact ⟨result, congrArg Transcript.received told⟩

/-! ## Compiling -/

variable {source : Source}

/-- **Every listener is told the verdict first**, and nothing else if it gives up there. -/
theorem log_compile_of_diagnostic (listener : σ) {diagnostic : Diagnostic}
    (refused : source.verdict = .error diagnostic) :
    ∃ further, (source.logCompile listener).2.log.map Delivery.diagnostic =
        diagnostic :: further ∧
      ((Listener.tell listener diagnostic).1 = .stop → further = []) := by
  rcases source.verdict_cases with ⟨setback, first, same⟩ | ⟨smooth, same⟩
  · cases same.symm.trans refused
    obtain ⟨setbacks, split⟩ := List.head?_eq_some_iff.mp first
    obtain ⟨further, hears, silent⟩ := Listener.exists_heard_cons listener setback.diagnostic
      (setbacks.map Setback.diagnostic)
    refine ⟨further, ?_, silent⟩
    have log := source.log_unit listener
    rw [split, List.map_cons, hears] at log
    rw [logCompile, compile_of_setback _ first]
    exact log
  · rw [logCompile, compile_of_smooth _ smooth,
      source.generate_of_diagnostic _ (same.symm.trans refused)]
    exact ⟨[], rfl, fun _ => rfl⟩

/-- What a report on a failed compilation contains. -/
theorem output_compile {policy : Answer} {first : Diagnostic} {further : List Diagnostic}
    (log : (source.logCompile (Report.empty source policy)).2.log.map Delivery.diagnostic =
      first :: further) :
    (source.compile (Report.empty source policy)).2.close.output =
      String.join ((first :: further).map (Diagnostic.render source)) ++
        Report.summary (further.length + 1) ++ "\n" := by
  obtain ⟨output, -⟩ := source.close_compile policy
  have length := congrArg List.length log
  rw [List.length_map, List.length_cons] at length
  have some : (source.logCompile (Report.empty source policy)).2.log ≠ [] := by
    rintro none
    rw [none] at length
    cases length
  rw [output, if_neg some, length, ← log, List.map_map, String.append_assoc]
  rfl

/-- **The policy of a listener only cuts a run short.** Let the errors be what parsing tells a
transcript that always goes on.  A listener that would go on behind all of them is told all of them
and gets the same tree; another one is told them up to the first that it answers by giving up, and
parsing fails with that one.

So a report that stops at the first error comes to the same result as one that goes on; and if there
is no unit, it contains the first message of the other one and the summary. -/
theorem policy_only_cuts (source : Source) :
    (∀ {σ : Type} [Listener σ] (listener : σ),
      let whole := Parser.unit (Transcript.always .resume) (.ofSource source)
      let handled := (Parser.unit (Logged.mk listener []) (.ofSource source)).2.2.log.map
        Delivery.diagnostic
      match (Listener.answers listener whole.2.2.received).idxOf? .stop with
      | none => handled = whole.2.2.received ∧
          ∃ tree, whole.1 = .ok tree ∧ (Parser.unit listener (.ofSource source)).1 = .ok tree
      | some place => handled = whole.2.2.received.take (place + 1) ∧
          ∃ error, whole.2.2.received[place]? = some error ∧
            (Parser.unit listener (.ofSource source)).1 = .error error) ∧
      (source.compile (Report.empty source .stop)).1 =
        (source.compile (Report.empty source .resume)).1 ∧
      ∀ rejection, (source.compile (Report.empty source .stop)).1 = .error rejection →
        ∃ first further,
          (source.logCompile (Report.empty source .resume)).2.log.map Delivery.diagnostic =
            first :: further ∧
          (source.compile (Report.empty source .resume)).2.close.output =
            String.join ((first :: further).map (Diagnostic.render source)) ++
              Report.summary (further.length + 1) ++ "\n" ∧
          (source.compile (Report.empty source .stop)).2.close.output =
            first.render source ++ "1 error\n" := by
  refine ⟨?parsing, ?result, ?report⟩
  case parsing =>
    intro σ _ listener whole handled
    obtain ⟨tree, received⟩ := source.unit_always_resume
    have result := ((Parser.ofSource source).statements_eq listener).1
    have hears : handled = _ := source.log_unit listener
    rw [Listener.heard_eq] at hears
    rw [show whole.2.2.received = _ from received, hears]
    cases first : (Listener.answers listener
        ((Parser.ofSource source).setbacks.map Setback.diagnostic)).idxOf? .stop with
    | none =>
        rw [Listener.givesUpAt?_eq, first] at result
        exact ⟨rfl, _, tree, congrArg (Except.map (FunctionSource.mk [] ·)) result⟩
    | some place =>
        obtain ⟨error, found, last⟩ := Listener.exists_of_idxOf?_answers first
        rw [last] at result
        exact ⟨rfl, error, found, congrArg (Except.map (FunctionSource.mk [] ·)) result⟩
  case result => rw [compile_eq_verdict, compile_eq_verdict]
  case report =>
    intro rejection failed
    obtain ⟨first, refused⟩ := verdict_of_rejection failed
    obtain ⟨further, plain, -⟩ :=
      log_compile_of_diagnostic (Report.empty source .resume) refused
    obtain ⟨none, stopping, stops⟩ :=
      log_compile_of_diagnostic (Report.empty source .stop) refused
    obtain rfl : none = [] := stops rfl
    refine ⟨first, further, plain, ?_, ?_⟩
    · exact source.output_compile plain
    · have summary : Report.summary 1 ++ "\n" = "1 error\n" := rfl
      have alone : String.join [first.render source] = first.render source := String.empty_append
      rw [source.output_compile stopping, List.map_singleton, alone, String.append_assoc]
      exact congrArg (first.render source ++ ·) summary

/-- A source with three setbacks. -/
def threeSetbacks : Source := .ofString "var = 1\nvar = 2\nvar = 3"

/-- A listener that gives up at the second error hears two of three. -/
theorem policy_cuts_threeSetbacks :
    let whole := Parser.unit (Transcript.always .resume) (.ofSource threeSetbacks)
    let policy := Transcript.following [.resume, .stop]
    whole.2.2.received.length = 3 ∧
      (Listener.answers policy whole.2.2.received).idxOf? .stop = some 1 ∧
      (Parser.unit (Logged.mk policy []) (.ofSource threeSetbacks)).2.2.log.map
        Delivery.diagnostic = whole.2.2.received.take 2 ∧
      (threeSetbacks.compile (Report.empty threeSetbacks .stop)).1 = .error .problemsFound ∧
      ∃ first : Diagnostic,
        (threeSetbacks.compile (Report.empty threeSetbacks .stop)).2.close.output =
          first.render threeSetbacks ++ "1 error\n" := by
  intro whole policy
  have three : whole.2.2.received.length = 3 := by decide +kernel
  have second : (Listener.answers policy whole.2.2.received).idxOf? .stop = some 1 := by
    decide +kernel
  have failed : (threeSetbacks.compile (Report.empty threeSetbacks .stop)).1 =
      .error .problemsFound := by with_unfolding_all rfl
  obtain ⟨parsing, -, report⟩ := policy_only_cuts threeSetbacks
  have heard := parsing policy
  change match (Listener.answers policy whole.2.2.received).idxOf? .stop with
    | none => _
    | some place => _ at heard
  rw [second] at heard
  obtain ⟨first, -, -, -, output⟩ := report _ failed
  exact ⟨three, second, heard.1, failed, first, output⟩

end Source

end SlotCompiler
