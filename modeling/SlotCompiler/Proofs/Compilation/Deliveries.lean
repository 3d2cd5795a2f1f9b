import SlotCompiler.Compilation
import SlotCompiler.Proofs.Diagnostic.Log
import SlotCompiler.Proofs.Parsing.Run

/-!
# What a compilation tells its listener

A compilation reaches its listener on three ways: a setback that parsing recovers from, a setback
at which the listener gives up, and the one problem of lowering.  Behind a log all three can be
counted.  The parser goes on behind every delivery but the last, counts the ones it goes on behind,
and gives up with the diagnostic of the last (`Parser.statements_logged`).  So there is a unit
exactly when nothing was delivered, whatever the listener answers, and a report contains exactly
what was delivered (`Source.compile_accounts`).
-/

set_option autoImplicit false

namespace SlotCompiler

variable {σ : Type} [Listener σ]

/-! ## Logs -/

namespace Logged

/-- A log shows what its listener is told. -/
theorem log_told (logged : Logged σ) (diagnostics : List Diagnostic) :
    (Listener.told logged diagnostics).log.map Delivery.diagnostic =
      logged.log.map Delivery.diagnostic ++ diagnostics := by
  induction diagnostics generalizing logged with
  | nil => exact (List.append_nil _).symm
  | cons diagnostic diagnostics ih =>
      have further := ih (Listener.tell logged diagnostic).2
      have shown : (Listener.tell logged diagnostic).2.log.map Delivery.diagnostic =
          logged.log.map Delivery.diagnostic ++ [diagnostic] := List.map_append
      rw [shown, List.append_assoc] at further
      exact further

/-- Behind a log, a listener answers as without it. -/
theorem answers_eq (logged : Logged σ) (diagnostics : List Diagnostic) :
    Listener.answers logged diagnostics = Listener.answers logged.listener diagnostics := by
  induction diagnostics generalizing logged with
  | nil => rfl
  | cons diagnostic diagnostics ih =>
      rw [Listener.answers, Listener.answers, ih]
      rfl

end Logged

/-! ## Parsing -/

/-- How many of some deliveries were answered by going on. -/
def resumedCount (deliveries : List Delivery) : Nat :=
  deliveries.countP fun delivery => delivery.answer = .resume

theorem resumedCount_resume (diagnostic : Diagnostic) (deliveries : List Delivery) :
    resumedCount (⟨diagnostic, .resume⟩ :: deliveries) = resumedCount deliveries + 1 :=
  List.countP_cons_of_pos (decide_eq_true rfl)

/-- Deliveries that lead to an outcome: the listener goes on behind all of them, or it stops at the
last one, which is the outcome. -/
inductive LeadTo {α : Type} : List Delivery → Except Diagnostic α → Prop where
  | finish {deliveries : List Delivery} {result : α}
      (resumed : ∀ delivery ∈ deliveries, delivery.answer = .resume) :
      LeadTo deliveries (.ok result)
  | giveUp {earlier : List Delivery} {diagnostic : Diagnostic}
      (resumed : ∀ delivery ∈ earlier, delivery.answer = .resume) :
      LeadTo (earlier ++ [⟨diagnostic, .stop⟩]) (.error diagnostic)

namespace LeadTo

variable {α β : Type} {deliveries : List Delivery} {outcome : Except Diagnostic α}

theorem map (leads : LeadTo deliveries outcome) (next : α → β) :
    LeadTo deliveries (outcome.map next) := by
  cases leads with
  | finish resumed => exact .finish resumed
  | giveUp resumed => exact .giveUp resumed

/-- The listener goes on behind one more delivery in front. -/
theorem resume (leads : LeadTo deliveries outcome) (diagnostic : Diagnostic) :
    LeadTo (⟨diagnostic, .resume⟩ :: deliveries) outcome := by
  cases leads with
  | finish resumed => exact .finish (List.forall_mem_cons.mpr ⟨rfl, resumed⟩)
  | giveUp resumed =>
      rw [← List.cons_append]
      exact .giveUp (List.forall_mem_cons.mpr ⟨rfl, resumed⟩)

theorem stop (diagnostic : Diagnostic) :
    LeadTo [⟨diagnostic, .stop⟩] (.error diagnostic : Except Diagnostic α) :=
  .giveUp (List.forall_mem_nil _)

/-- Behind an outcome other than success there is a delivery. -/
theorem ne_nil_of_error {diagnostic : Diagnostic}
    (leads : LeadTo deliveries (.error diagnostic : Except Diagnostic α)) : deliveries ≠ [] := by
  cases leads with
  | giveUp resumed => exact List.append_ne_nil_of_right_ne_nil _ (List.cons_ne_nil _ _)

/-- All deliveries that lead to success were answered by going on. -/
theorem resumedCount_of_ok {result : α} (leads : LeadTo deliveries (.ok result)) :
    resumedCount deliveries = deliveries.length := by
  cases leads with
  | finish resumed =>
      exact List.countP_eq_length.mpr fun delivery member =>
        decide_eq_true (resumed delivery member)

end LeadTo

namespace Parser

/-- A run behind a log is the run without it, and the log says how it came to its outcome and how
often the parser recovered. -/
structure Logs (parser : Parser) (logged : Logged σ) (deliveries : List Delivery) : Prop where
  transparent : parser.statements logged =
    ((parser.statements logged.listener).1, (parser.statements logged.listener).2.1,
      ⟨(parser.statements logged.listener).2.2, logged.log ++ deliveries⟩)
  leads : LeadTo deliveries (parser.statements logged.listener).1
  recovered : (parser.statements logged.listener).2.1.recovered =
    parser.recovered + resumedCount deliveries

theorem recovered_statement (parser : Parser) :
    parser.statement.2.recovered = parser.recovered := rfl

theorem recovered_recover (parser : Parser) (mishap : Mishap) :
    (parser.recover mishap).recovered = parser.recovered + 1 := by
  unfold recover
  dsimp only
  split
  · rfl
  · split
    · split <;> rfl
    · rfl

/-- **Every run can be logged.** -/
theorem statements_logged (parser : Parser) (logged : Logged σ) :
    ∃ deliveries, parser.Logs logged deliveries := by
  induction parser using run_induction generalizing logged with
  | ended parser none =>
      refine ⟨[], ?_, ?_, ?_⟩
      · rw [statements_of_nil _ none, statements_of_nil _ none, List.append_nil]
      · rw [statements_of_nil _ none]
        exact .finish (List.forall_mem_nil _)
      · rw [statements_of_nil _ none]
        rfl
  | read parser statement more done ih =>
      obtain ⟨deliveries, transparent, leads, recovered⟩ := ih logged
      refine ⟨deliveries, ?_, ?_, ?_⟩
      · rw [statements_of_ok _ more done, statements_of_ok _ more done, transparent]
      · rw [statements_of_ok _ more done]
        exact leads.map _
      · rw [statements_of_ok _ more done]
        exact recovered
  | recovered parser mishap more failed ih =>
      have here := parser.statements_of_error logged more failed
      have plain := parser.statements_of_error logged.listener more failed
      simp only [Listener.tell] at here
      generalize Listener.tell logged.listener mishap.diagnostic = told at here plain
      obtain ⟨answer, listener⟩ := told
      cases answer with
      | resume =>
          simp only at here plain
          obtain ⟨deliveries, transparent, leads, recovered⟩ :=
            ih ⟨listener, logged.log ++ [⟨mishap.diagnostic, .resume⟩]⟩
          refine ⟨⟨mishap.diagnostic, .resume⟩ :: deliveries, ?_, ?_, ?_⟩
          · rw [here, plain, transparent, List.append_assoc, List.singleton_append]
          · rw [plain]
            exact leads.resume mishap.diagnostic
          · rw [plain, recovered, recovered_recover, recovered_statement, resumedCount_resume,
              Nat.add_assoc, Nat.add_comm 1]
      | stop =>
          simp only at here plain
          refine ⟨[⟨mishap.diagnostic, .stop⟩], ?_, ?_, ?_⟩
          · rw [here, plain]
          · rw [plain]
            exact .stop mishap.diagnostic
          · rw [plain]
            rfl

/-- **A run delivers its first setbacks**, whatever the listener answers. -/
theorem log_statements (parser : Parser) (logged : Logged σ) :
    ∃ told, told <+: parser.setbacks.map Setback.diagnostic ∧
      (parser.statements logged).2.2.log.map Delivery.diagnostic =
        logged.log.map Delivery.diagnostic ++ told := by
  refine ⟨_, Listener.heard_prefix logged _, ?_⟩
  rw [(statements_eq logged parser).2]
  exact logged.log_told _

/-- **What every delivery keeps, a run keeps.** -/
theorem keeps_statements {holds : σ → Prop} (keeps : Listener.Keeps holds) (parser : Parser)
    {listener : σ} (held : holds listener) : holds (parser.statements listener).2.2 := by
  induction parser using run_induction generalizing listener with
  | ended parser none =>
      rw [statements_of_nil _ none]
      exact held
  | read parser statement more done ih =>
      rw [statements_of_ok _ more done]
      exact ih held
  | recovered parser mishap more failed ih =>
      have told := keeps listener mishap.diagnostic held
      rw [statements_of_error _ more failed]
      split
      · rename_i after same
        rw [same] at told
        exact ih told
      · rename_i after same
        rw [same] at told
        exact told

end Parser

/-! ## Compiling -/

namespace Source

variable (source : Source)

/-- Parsing behind a log: there is a tree exactly when nothing is delivered. -/
structure LogsParse (logged : Logged σ) (deliveries : List Delivery) : Prop where
  transparent : source.parse logged =
    ((source.parse logged.listener).1,
      ⟨(source.parse logged.listener).2, logged.log ++ deliveries⟩)
  silent_iff : (∃ tree, (source.parse logged.listener).1 = .ok tree) ↔ deliveries = []
  unit_log : (Parser.unit logged (.ofSource source)).2.2.log = logged.log ++ deliveries
  unit_recovered :
    (Parser.unit logged (.ofSource source)).2.1.recovered = resumedCount deliveries

theorem parse_logged (logged : Logged σ) :
    ∃ deliveries, source.LogsParse logged deliveries := by
  obtain ⟨deliveries, transparent, leads, recovered⟩ :=
    (Parser.ofSource source).statements_logged logged
  rw [show (Parser.ofSource source).recovered = 0 from rfl, Nat.zero_add] at recovered
  refine ⟨deliveries, ?_, ?_, ?_, ?_⟩
  · simp only [parse, Parser.unit, transparent]
    cases (Parser.statements logged.listener (.ofSource source)).1 <;> rfl
  · simp only [parse, Parser.unit]
    cases outcome : (Parser.statements logged.listener (.ofSource source)).1 with
    | ok body =>
        rw [outcome] at leads
        rw [leads.resumedCount_of_ok] at recovered
        simp only [Except.map, recovered, List.length_eq_zero_iff]
        by_cases silent : deliveries = []
        · simp [silent]
        · simp [silent]
    | error diagnostic =>
        rw [outcome] at leads
        simp [Except.map, leads.ne_nil_of_error]
  · simp only [Parser.unit, transparent]
  · simp only [Parser.unit, transparent, recovered]

/-- Parses a source and keeps what the listener is told. -/
def logParse (source : Source) (listener : σ) : Except Rejection FunctionSource × Logged σ :=
  source.parse (Logged.mk listener [])

/-- Compiles a source and keeps what the listener is told. -/
def logCompile (source : Source) (listener : σ) : Except Rejection CodeUnit × Logged σ :=
  source.compile (Logged.mk listener [])

theorem compile_of_tree {listener after : σ} {tree : FunctionSource}
    (parsed : source.parse listener = (.ok tree, after)) :
    source.compile listener = source.generate tree after := by
  rw [compile, parsed]

theorem compile_of_rejection {listener after : σ} {rejection : Rejection}
    (parsed : source.parse listener = (.error rejection, after)) :
    source.compile listener = (.error rejection, after) := by
  rw [compile, parsed]

theorem generate_of_unit (listener : σ) {tree : FunctionSource} {unit : CodeUnit}
    (lowered : tree.lower source = .ok unit) :
    source.generate tree listener = (.ok unit, listener) := by
  rw [generate, lowered]

theorem generate_of_diagnostic (listener : σ) {tree : FunctionSource} {diagnostic : Diagnostic}
    (lowered : tree.lower source = .error diagnostic) :
    source.generate tree listener =
      (.error .problemsFound, (Listener.tell listener diagnostic).2) := by
  rw [generate, lowered]

/-- **Every compilation can be logged**, and it comes to one of three ends: there is a unit and
nothing was delivered, or parsing failed and all deliveries are its own, or lowering failed and
delivered its problem. -/
theorem compile_logged (listener : σ) :
    source.compile listener =
        ((source.logCompile listener).1, (source.logCompile listener).2.listener) ∧
      ((∃ unit, (source.logCompile listener).1 = .ok unit ∧
          (source.logCompile listener).2.log = []) ∨
        ((source.logParse listener).1 = .error .problemsFound ∧
          (source.logParse listener).2.log ≠ [] ∧
          source.logCompile listener = (.error .problemsFound, (source.logParse listener).2)) ∨
        ∃ tree delivery, (source.logParse listener).1 = .ok tree ∧
          (source.logParse listener).2.log = [] ∧
          tree.lower source = .error delivery.diagnostic ∧
          (source.logCompile listener).1 = .error .problemsFound ∧
          (source.logCompile listener).2.log = [delivery]) := by
  generalize compiled_def : source.logCompile listener = compiled
  generalize parsed_def : source.logParse listener = parsed
  rw [logCompile] at compiled_def
  rw [logParse] at parsed_def
  obtain ⟨deliveries, transparent, silent, -, -⟩ := source.parse_logged (Logged.mk listener [])
  dsimp only at transparent silent
  rw [List.nil_append] at transparent
  cases plain : source.parse listener with
  | mk outcome after =>
      rw [plain] at transparent silent
      have parsedEq : parsed = (outcome, ⟨after, deliveries⟩) := parsed_def ▸ transparent
      cases outcome with
      | error rejection =>
          cases rejection
          have compiledEq : compiled = (.error .problemsFound, ⟨after, deliveries⟩) :=
            compiled_def ▸ source.compile_of_rejection transparent
          have some : deliveries ≠ [] := fun none => by
            obtain ⟨tree, same⟩ := silent.mpr none
            cases same
          rw [compiledEq, parsedEq, source.compile_of_rejection plain]
          exact ⟨rfl, .inr (.inl ⟨rfl, some, rfl⟩)⟩
      | ok tree =>
          obtain rfl : deliveries = [] := silent.mp ⟨tree, rfl⟩
          rw [parsedEq, source.compile_of_tree plain]
          cases lowered : tree.lower source with
          | ok unit =>
              have compiledEq : compiled = (.ok unit, ⟨after, []⟩) :=
                compiled_def ▸
                  (source.compile_of_tree transparent).trans (source.generate_of_unit _ lowered)
              rw [compiledEq, source.generate_of_unit _ lowered]
              exact ⟨rfl, .inl ⟨unit, rfl, rfl⟩⟩
          | error diagnostic =>
              have compiledEq := (source.compile_of_tree transparent).trans
                (source.generate_of_diagnostic _ lowered)
              rw [← compiled_def, compiledEq, source.generate_of_diagnostic _ lowered]
              exact ⟨rfl, .inr (.inr ⟨tree, _, rfl, rfl, lowered, rfl, rfl⟩)⟩

/-- There is a unit exactly when nothing is delivered. -/
theorem exists_unit_iff (listener : σ) :
    (∃ unit, (source.logCompile listener).1 = .ok unit) ↔
      (source.logCompile listener).2.log = [] := by
  obtain ⟨-, ends⟩ := source.compile_logged listener
  constructor
  · rintro ⟨unit, made⟩
    rcases ends with ⟨_, _, silent⟩ | ⟨_, _, failed⟩ | ⟨_, _, _, _, _, failed, _⟩
    · exact silent
    · cases made.symm.trans (congrArg Prod.fst failed)
    · cases made.symm.trans failed
  · intro silent
    rcases ends with ⟨unit, made, _⟩ | ⟨_, some, failed⟩ | ⟨_, _, _, _, _, _, some⟩
    · exact ⟨unit, made⟩
    · exact absurd ((congrArg (fun outcome => outcome.2.log) failed).symm.trans silent) some
    · cases some.symm.trans silent

/-- What every delivery keeps, parsing keeps. -/
theorem keeps_parse {holds : σ → Prop} (keeps : Listener.Keeps holds) {listener : σ}
    (held : holds listener) : holds (source.parse listener).2 := by
  have run := (Parser.ofSource source).keeps_statements keeps held
  unfold parse Parser.unit
  dsimp only
  split <;> rename_i same <;> exact congrArg (fun outcome => outcome.2.2) same ▸ run

/-- What every delivery keeps, a compilation keeps. -/
theorem keeps_compile {holds : σ → Prop} (keeps : Listener.Keeps holds) {listener : σ}
    (held : holds listener) : holds (source.compile listener).2 := by
  have heldParsed := source.keeps_parse keeps held
  cases parsed : source.parse listener with
  | mk outcome after =>
      rw [parsed] at heldParsed
      cases outcome with
      | error rejection =>
          rw [source.compile_of_rejection parsed]
          exact heldParsed
      | ok tree =>
          rw [source.compile_of_tree parsed]
          cases lowered : tree.lower source with
          | ok unit =>
              rw [source.generate_of_unit _ lowered]
              exact heldParsed
          | error diagnostic =>
              rw [source.generate_of_diagnostic _ lowered]
              exact keeps _ diagnostic heldParsed

/-- A report on a compilation contains what is delivered, one message below the other, and how much
it is. -/
theorem close_compile (policy : Answer) :
    (source.compile (Report.empty source policy)).2.close.output =
        String.join ((source.logCompile (Report.empty source policy)).2.log.map
          fun delivery => delivery.diagnostic.render source) ++
          (if (source.logCompile (Report.empty source policy)).2.log = [] then ""
          else Report.summary (source.logCompile (Report.empty source policy)).2.log.length ++ "\n") ∧
      (source.compile (Report.empty source policy)).2.close.count =
        (source.logCompile (Report.empty source policy)).2.log.length := by
  have whole := source.keeps_compile (Logged.Written.keeps source)
    (Logged.Written.start source policy)
  rw [(source.compile_logged (Report.empty source policy)).1]
  exact whole.close

/-- A report on parsing is empty exactly when there is a tree. -/
theorem count_parse_eq_zero_iff (policy : Answer) :
    (source.parse (Report.empty source policy)).2.count = 0 ↔
      ∃ tree, (source.parse (Report.empty source policy)).1 = .ok tree := by
  obtain ⟨deliveries, transparent, silent, -, -⟩ :=
    source.parse_logged (Logged.mk (Report.empty source policy) [])
  have written := source.keeps_parse (Logged.Written.keeps source)
    (Logged.Written.start source policy)
  rw [transparent] at written
  have count := written.count_eq
  dsimp only [List.nil_append] at count silent
  rw [count, List.length_eq_zero_iff, silent]

/-- A report on a compilation is empty exactly when there is a unit. -/
theorem count_compile_eq_zero_iff (policy : Answer) :
    (source.compile (Report.empty source policy)).2.count = 0 ↔
      ∃ unit, (source.compile (Report.empty source policy)).1 = .ok unit := by
  have written := source.keeps_compile (Logged.Written.keeps source)
    (Logged.Written.start source policy)
  have count : (source.logCompile (Report.empty source policy)).2.listener.count =
    (source.logCompile (Report.empty source policy)).2.log.length := written.count_eq
  rw [(source.compile_logged (Report.empty source policy)).1, source.exists_unit_iff]
  dsimp only
  rw [count, List.length_eq_zero_iff]

/-- **A unit exists exactly when nothing was reported.** Whatever the listener answers, and behind a
log that shows what it is told: there is a unit exactly when it is told nothing; a failure comes
either from parsing alone, and then nothing is lowered, or from lowering alone, which tells it one
thing; and the parser counts the deliveries behind which it went on.  The text of a report is that
of its deliveries, one below the other; and if there are any, one line behind them says how many
errors there are, or that there is one. -/
theorem compile_accounts (listener : σ) :
    source.compile listener =
        ((source.logCompile listener).1, (source.logCompile listener).2.listener) ∧
      ((∃ unit, (source.logCompile listener).1 = .ok unit) ↔
        (source.logCompile listener).2.log = []) ∧
      ((∃ unit, (source.logCompile listener).1 = .ok unit) ∨
        ((source.logParse listener).1 = .error .problemsFound ∧
          (source.logParse listener).2.log ≠ [] ∧
          source.logCompile listener = (.error .problemsFound, (source.logParse listener).2)) ∨
        ∃ tree delivery, (source.logParse listener).1 = .ok tree ∧
          (source.logParse listener).2.log = [] ∧
          tree.lower source = .error delivery.diagnostic ∧
          (source.logCompile listener).1 = .error .problemsFound ∧
          (source.logCompile listener).2.log = [delivery]) ∧
      (Parser.unit (Logged.mk listener []) (.ofSource source)).2.1.recovered =
        resumedCount (source.logParse listener).2.log ∧
      ∀ policy : Answer,
        let handled := (source.logCompile (Report.empty source policy)).2.log
        (source.compile (Report.empty source policy)).2.close.output =
            String.join (handled.map fun delivery => delivery.diagnostic.render source) ++
              (if handled = [] then ""
              else
                (if handled.length = 1 then "1 error"
                  else toString handled.length ++ " errors") ++ "\n") ∧
          (source.compile (Report.empty source policy)).2.close.count = handled.length := by
  obtain ⟨transparent, ends⟩ := source.compile_logged listener
  obtain ⟨deliveries, parsedLog, -, -, counted⟩ := source.parse_logged (Logged.mk listener [])
  refine ⟨transparent, source.exists_unit_iff listener,
    ends.imp_left fun ⟨unit, made, _⟩ => ⟨unit, made⟩, ?_, source.close_compile⟩
  have log : (source.logParse listener).2.log = deliveries :=
    congrArg (fun outcome => outcome.2.log) parsedLog
  rw [log]
  exact counted

end Source

end SlotCompiler
