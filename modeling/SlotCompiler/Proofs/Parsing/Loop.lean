import Mathlib.Algebra.BigOperators.Group.List.Lemmas
import Mathlib.Algebra.Order.BigOperators.Group.List
import Mathlib.Algebra.Order.Ring.Nat
import SlotCompiler.Proofs.Compilation.Deliveries
import SlotCompiler.Proofs.Parsing.BodyCount
import SlotCompiler.Proofs.Parsing.Repetition

/-!
# The loop over statements

Statements are read in a loop.  Here it goes turn by turn, without a reason to end: a turn leaves
the loop or goes on to the head of the next one (`Head.turn`).  Recovery can put a token back, so
the tokens to come need not become fewer, but the budget of the parser does, and so the loop is left
(`Head.exists_leaves`).  No body is open at the head of a turn, and a turn counts the bodies on the
way to the next one without closing any that is not open (`Head.Reaches.keeps_count`).

Behind a setback a token is refused again only if it was kept, and then as control flow
(`Parser.pairwise_follows`).  As control flow it is refused at most twice, so no token is refused
more than three times (`Parser.countP_token_le`).
-/

set_option autoImplicit false

namespace SlotCompiler

/-! ## Turns -/

/-- The head of a turn. -/
structure Head (σ : Type) where
  parser : Parser
  listener : σ
  /-- The statements read so far. -/
  body : List Statement := []

/-- How a turn ends, and how it changes the number of open bodies. -/
inductive Turn (σ : Type) where
  | goesOn (changes : List BodyChange) (next : Head σ)
  | leaves (changes : List BodyChange) (result : Except Diagnostic FunctionSource × Parser × σ)

namespace Head

variable {σ : Type} [Listener σ]

/-- One turn of the loop: at the end of the tokens it is left; otherwise a statement is read, or the
listener is told of the mishap and decides. -/
def turn (head : Head σ) : Turn σ :=
  if head.parser.rest = [] then .leaves [] (.ok ⟨[], head.body⟩, head.parser, head.listener)
  else
    let changes := head.parser.readChanges
    match head.parser.statement with
    | (.ok statement, parser) => .goesOn changes ⟨parser, head.listener, head.body ++ [statement]⟩
    | (.error mishap, parser) =>
      match Listener.tell head.listener mishap.diagnostic with
      | (.resume, listener) =>
        .goesOn (changes ++ parser.recoverChanges mishap)
          ⟨parser.recover mishap, listener, head.body⟩
      | (.stop, listener) => .leaves changes (.error mishap.diagnostic, parser, listener)

/-- Some turns lead from one head to another. -/
inductive Reaches (start : Head σ) : Nat → List BodyChange → Head σ → Prop where
  | here : Reaches start 0 [] start
  | turn {turns : Nat} {changes further : List BodyChange} {head next : Head σ}
      (reaches : Reaches start turns changes head) (goesOn : head.turn = .goesOn further next) :
      Reaches start (turns + 1) (changes ++ further) next

section Turns

variable {head next : Head σ} {changes : List BodyChange}

theorem turn_of_nil (none : head.parser.rest = []) :
    head.turn = .leaves [] (.ok ⟨[], head.body⟩, head.parser, head.listener) := by
  rw [turn, if_pos none]

theorem turn_of_ok (more : head.parser.rest ≠ []) {statement : Statement}
    (done : head.parser.statement.1 = .ok statement) :
    head.turn = .goesOn head.parser.readChanges
      ⟨head.parser.statement.2, head.listener, head.body ++ [statement]⟩ := by
  rw [turn, if_neg more]
  generalize head.parser.statement = read at done
  obtain ⟨outcome, parser⟩ := read
  obtain rfl : outcome = .ok statement := done
  rfl

theorem turn_of_error (more : head.parser.rest ≠ []) {mishap : Mishap}
    (failed : head.parser.statement.1 = .error mishap) :
    head.turn =
      match Listener.tell head.listener mishap.diagnostic with
      | (.resume, listener) =>
        .goesOn (head.parser.readChanges ++ head.parser.statement.2.recoverChanges mishap)
          ⟨head.parser.statement.2.recover mishap, listener, head.body⟩
      | (.stop, listener) =>
        .leaves head.parser.readChanges
          (.error mishap.diagnostic, head.parser.statement.2, listener) := by
  rw [turn, if_neg more]
  generalize head.parser.statement = read at failed
  obtain ⟨outcome, parser⟩ := read
  obtain rfl : outcome = .error mishap := failed
  rfl

/-- **How a turn goes on**: behind a statement, or behind a mishap that is recovered from. -/
theorem goesOn_cases (goesOn : head.turn = .goesOn changes next) :
    head.parser.rest ≠ [] ∧
      ((∃ statement, head.parser.statement.1 = .ok statement ∧ changes = head.parser.readChanges ∧
          next.parser = head.parser.statement.2) ∨
        ∃ mishap, head.parser.statement.1 = .error mishap ∧
          changes = head.parser.readChanges ++ head.parser.statement.2.recoverChanges mishap ∧
          next.parser = head.parser.statement.2.recover mishap) := by
  by_cases none : head.parser.rest = []
  · rw [turn_of_nil none] at goesOn
    cases goesOn
  · refine ⟨none, ?_⟩
    cases outcome : head.parser.statement.1 with
    | ok statement =>
        rw [turn_of_ok none outcome] at goesOn
        cases goesOn
        exact .inl ⟨statement, rfl, rfl, rfl⟩
    | error mishap =>
        rw [turn_of_error none outcome] at goesOn
        split at goesOn
        · cases goesOn
          exact .inr ⟨mishap, rfl, rfl, rfl⟩
        · cases goesOn

/-- How a turn leaves the loop: it has closed no body that was not open. -/
theorem keeps_count_of_leaves {result : Except Diagnostic FunctionSource × Parser × σ}
    (outside : head.parser.openBodies = 0) (leaves : head.turn = .leaves changes result) :
    BodyChange.replay? 0 changes = some result.2.1.openBodies := by
  by_cases none : head.parser.rest = []
  · rw [turn_of_nil none] at leaves
    cases leaves
    exact congrArg some outside.symm
  · cases outcome : head.parser.statement.1 with
    | ok statement =>
        rw [turn_of_ok none outcome] at leaves
        cases leaves
    | error mishap =>
        rw [turn_of_error none outcome] at leaves
        split at leaves
        · cases leaves
        · cases leaves
          exact head.parser.replay?_readChanges outside

/-- Every turn that goes on leaves a smaller budget. -/
theorem budget_lt_of_goesOn (goesOn : head.turn = .goesOn changes next) :
    next.parser.budget < head.parser.budget := by
  obtain ⟨more, ⟨statement, done, -, same⟩ | ⟨mishap, failed, -, same⟩⟩ := goesOn_cases goesOn
  · rw [same]
    exact Parser.budget_statement_lt more done
  · rw [same]
    exact Parser.budget_recover_lt more failed

/-- **A turn that goes on leaves no body open**, and closes none that is not open. -/
theorem keeps_count_of_goesOn (outside : head.parser.openBodies = 0)
    (goesOn : head.turn = .goesOn changes next) :
    next.parser.openBodies = 0 ∧ BodyChange.replay? 0 changes = some 0 := by
  have read := head.parser.replay?_readChanges outside
  obtain ⟨-, ⟨statement, done, rfl, same⟩ | ⟨mishap, failed, rfl, same⟩⟩ := goesOn_cases goesOn
  · have none := (Parser.openBodies_statement_of_ok done).trans outside
    rw [none] at read
    exact ⟨same ▸ none, read⟩
  · have none : (head.parser.statement.2.recover mishap).openBodies = 0 := Parser.openBodies_recover
    rw [same, BodyChange.replay?_append read, Parser.replay?_recoverChanges, none]
    exact ⟨rfl, rfl⟩

end Turns

/-! ## The loop -/

section Loop

variable {start head next last : Head σ} {turns : Nat} {changes more : List BodyChange}

/-- One more turn in front. -/
theorem Reaches.after (reaches : next.Reaches turns more last)
    (goesOn : head.turn = .goesOn changes next) :
    head.Reaches (turns + 1) (changes ++ more) last := by
  induction reaches with
  | here => simpa using Reaches.here.turn goesOn
  | turn reaches further ih =>
      rw [← List.append_assoc]
      exact ih.turn further

/-- There are no more turns than the budget allows. -/
theorem Reaches.budget_le (reaches : start.Reaches turns changes head) :
    turns + head.parser.budget ≤ start.parser.budget := by
  induction reaches with
  | here => exact Nat.le_of_eq (Nat.zero_add _)
  | turn reaches goesOn ih =>
      have less := budget_lt_of_goesOn goesOn
      omega

/-- **At every head no body is open**, and none was closed that was not open. -/
theorem Reaches.keeps_count (reaches : start.Reaches turns changes head)
    (outside : start.parser.openBodies = 0) :
    head.parser.openBodies = 0 ∧ BodyChange.replay? 0 changes = some 0 := by
  induction reaches with
  | here => exact ⟨outside, rfl⟩
  | turn reaches goesOn ih =>
      obtain ⟨none, replayed⟩ := keeps_count_of_goesOn ih.1 goesOn
      exact ⟨none, (BodyChange.replay?_append ih.2 _).trans replayed⟩

/-- What the loop comes to from a head. -/
def result (head : Head σ) : Except Diagnostic FunctionSource × Parser × σ :=
  (((head.parser.statements head.listener).1.map (head.body ++ ·)).map (⟨[], ·⟩),
    (head.parser.statements head.listener).2)

theorem result_of_start (parser : Parser) (listener : σ) :
    (Head.mk parser listener []).result = parser.unit listener := by
  rw [result, Parser.unit]
  dsimp only
  obtain ⟨outcome, after⟩ := parser.statements listener
  cases outcome <;> rfl

/-- **The loop is left**, with what is read behind its head. -/
theorem exists_leaves (parser : Parser) (listener : σ) (body : List Statement) :
    ∃ turns changes last further, (Head.mk parser listener body).Reaches turns changes last ∧
      last.turn = .leaves further (Head.mk parser listener body).result := by
  induction parser using Parser.run_induction generalizing listener body with
  | ended parser none =>
      refine ⟨0, [], _, [], .here, (turn_of_nil none).trans ?_⟩
      rw [result, Parser.statements_of_nil listener none]
      simp [Except.map]
  | read parser statement more done ih =>
      obtain ⟨turns, changes, last, further, reaches, leaves⟩ := ih listener (body ++ [statement])
      refine ⟨turns + 1, _, last, further, reaches.after (turn_of_ok more done), leaves.trans ?_⟩
      rw [result, result, Parser.statements_of_ok listener more done]
      dsimp only
      cases (parser.statement.2.statements listener).1 <;> simp [Except.map]
  | recovered parser mishap more failed ih =>
      have here := @turn_of_error _ _ (Head.mk parser listener body) more _ failed
      rw [result, Parser.statements_of_error listener more failed]
      dsimp only at here
      generalize Listener.tell listener mishap.diagnostic = told at here
      obtain ⟨answer, after⟩ := told
      cases answer with
      | resume =>
          obtain ⟨turns, changes, last, further, reaches, leaves⟩ := ih after body
          exact ⟨turns + 1, _, last, further, reaches.after here, leaves⟩
      | stop => exact ⟨0, [], _, _, .here, here⟩

end Loop

end Head

/-! ## Setbacks at one token -/

/-- A setback is located behind another one, or at the same token as control flow. -/
def Setback.Follows (first second : Setback) : Prop :=
  first.mishap.token.IsBefore second.mishap.token ∨
    second.mishap.token = first.mishap.token ∧ second.mishap.refusal.problem = .controlFlow

namespace Parser

theorem pairwise_follows (parser : Parser) : Ordered parser.remaining →
    parser.setbacks.Pairwise Setback.Follows := by
  induction parser using run_induction with
  | ended parser none =>
      intro _
      rw [setbacks_of_nil none]
      exact .nil
  | read parser statement more done ih =>
      intro ordered
      rw [setbacks_of_ok more done]
      exact ih (ordered.sublist remaining_statement.sublist)
  | recovered parser mishap more failed ih =>
      intro ordered
      rw [setbacks_of_error more failed]
      refine List.pairwise_cons.mpr ⟨fun setback member => ?_,
        ih (ordered.sublist (remaining_recover failed).sublist)⟩
      exact (isBefore_or_keeps ordered failed setback member).imp_right And.right

/-- Of the setbacks at one token all but the first are refused as control flow. -/
theorem controlFlow_of_follows {token : Token} {first : Setback} {others : List Setback}
    (follows : (first :: others).Pairwise Setback.Follows)
    (located : ∀ setback ∈ first :: others, setback.mishap.token = token) :
    ∀ setback ∈ others, setback.diagnostic = ⟨.controlFlow, token.span⟩ := by
  rw [List.forall_mem_cons] at located
  intro setback member
  rcases List.rel_of_pairwise_cons follows member with before | ⟨-, flow⟩
  · rw [located.1, located.2 setback member] at before
    exact absurd before not_isBefore_self
  · rw [Setback.diagnostic, Mishap.diagnostic, flow, located.2 setback member]

/-- **No token is refused more than three times**, and more than once only a control-flow
keyword. -/
theorem countP_token_le (parser : Parser) (ordered : Ordered parser.remaining) (token : Token) :
    parser.setbacks.countP (fun setback => setback.mishap.token = token) ≤ 3 ∧
      (1 < parser.setbacks.countP (fun setback => setback.mishap.token = token) →
        token.kind.isReserved = true) := by
  have located : ∀ setback ∈ parser.setbacks.filter (fun setback => setback.mishap.token = token),
      setback.mishap.token = token :=
    fun setback member => decide_eq_true_eq.mp (List.mem_filter.mp member).2
  have follows := (parser.pairwise_follows ordered).filter
    (fun setback => decide (setback.mishap.token = token))
  have part : (parser.setbacks.filter (fun setback => setback.mishap.token = token)).Sublist
    parser.setbacks := List.filter_sublist
  rw [List.countP_eq_length_filter]
  generalize parser.setbacks.filter (fun setback => setback.mishap.token = token) = all
    at located follows part
  cases all with
  | nil => exact ⟨Nat.zero_le 3, fun more => absurd more (Nat.not_lt_zero 1)⟩
  | cons first others =>
      have flow := controlFlow_of_follows follows located
      have alike : ∀ told ∈ others.map Setback.diagnostic, ⟨.controlFlow, token.span⟩ = told := by
        intro told member
        obtain ⟨setback, inside, rfl⟩ := List.mem_map.mp member
        exact (flow setback inside).symm
      have few := Setback.count_le (pairwise_setbacks parser ordered) ⟨.controlFlow, token.span⟩
      have among := (((List.sublist_cons_self first others).trans part).map
        Setback.diagnostic).count_le ⟨.controlFlow, token.span⟩
      rw [List.count_eq_length.mpr alike, List.length_map] at among
      refine ⟨Nat.succ_le_succ (Nat.le_trans among few), fun more => ?_⟩
      obtain ⟨second, rest, rfl⟩ := List.exists_cons_of_length_pos (Nat.lt_of_succ_lt_succ more)
      have again := flow second List.mem_cons_self
      have inside := part.subset (List.mem_cons_of_mem _ List.mem_cons_self)
      have reserved :=
        isReserved_of_controlFlow parser second inside (congrArg Diagnostic.problem again)
      rwa [located second (List.mem_cons_of_mem _ List.mem_cons_self)] at reserved

end Parser

/-! ## What a listener is told -/

/-- Elements each of which occurs at most a number of times are at most that many for each of the
values that they can have. -/
theorem length_le_of_count_le {α : Type} [DecidableEq α] {bound : Nat} {elements values : List α}
    (known : elements ⊆ values) (few : ∀ value ∈ values, elements.count value ≤ bound) :
    elements.length ≤ bound * values.length := by
  have distinct : elements.dedup.length ≤ values.length :=
    (List.subperm_of_subset elements.nodup_dedup
      fun _ member => known (List.mem_dedup.mp member)).length_le
  have each : ∀ count ∈ elements.dedup.map elements.count, count ≤ bound := by
    intro count member
    obtain ⟨value, inside, rfl⟩ := List.mem_map.mp member
    exact few value (known (List.mem_dedup.mp inside))
  calc elements.length
      = (elements.dedup.map elements.count).sum :=
        (List.sum_map_count_dedup_eq_length elements).symm
    _ ≤ (elements.dedup.map elements.count).length • bound := List.sum_le_card_nsmul _ _ each
    _ = bound * elements.dedup.length := by rw [List.length_map, Nat.nsmul_eq_mul, Nat.mul_comm]
    _ ≤ bound * values.length := Nat.mul_le_mul_left bound distinct

namespace Source

variable {σ : Type} [Listener σ] (source : Source) (listener : σ)

/-- No two tokens have the same span. -/
theorem nodup_spans : (source.stream.map Token.span).Nodup := by
  refine List.pairwise_map.mpr ((Parser.ordered_ofSource source).imp ?_)
  intro first second before same
  exact absurd (same ▸ before.1) (Nat.lt_irrefl _)

/-- The spans that a listener is told about while a source is parsed, in order. -/
def toldSpans : List Span :=
  (Parser.unit (Logged.mk listener []) (.ofSource source)).2.2.log.map
    fun delivery => delivery.diagnostic.span

/-- They are the spans of the first setbacks. -/
theorem toldSpans_sublist : (source.toldSpans listener).Sublist
    ((Parser.ofSource source).setbacks.map fun setback => setback.mishap.token.span) := by
  obtain ⟨told, isFirst, same⟩ := (Parser.ofSource source).log_statements (Logged.mk listener [])
  rw [List.map_nil, List.nil_append] at same
  have spans : source.toldSpans listener = told.map Diagnostic.span := by
    rw [← same, List.map_map]
    rfl
  have located := isFirst.sublist.map Diagnostic.span
  rw [List.map_map] at located
  rw [spans]
  exact located

/-- What a listener is told is about tokens. -/
theorem toldSpans_subset : source.toldSpans listener ⊆ source.stream.map Token.span := by
  intro span member
  obtain ⟨setback, inside, rfl⟩ :=
    List.mem_map.mp ((source.toldSpans_sublist listener).subset member)
  exact List.mem_map_of_mem (Parser.token_mem_remaining _ setback inside)

/-- **A listener is told at most three times about a token**, and more than once only about a
control-flow keyword. -/
theorem count_toldSpans_le {token : Token} (member : token ∈ source.stream) :
    (source.toldSpans listener).count token.span ≤ 3 ∧
      (1 < (source.toldSpans listener).count token.span → token.kind.isReserved = true) := by
  obtain ⟨few, again⟩ :=
    (Parser.ofSource source).countP_token_le (Parser.ordered_ofSource source) token
  have bound := (source.toldSpans_sublist listener).count_le token.span
  have same : ((Parser.ofSource source).setbacks.map fun setback => setback.mishap.token.span).count
      token.span =
      (Parser.ofSource source).setbacks.countP (fun setback => setback.mishap.token = token) := by
    rw [List.count, List.countP_map]
    refine List.countP_congr fun setback inside => ?_
    have there : setback.mishap.token ∈ source.stream := Parser.token_mem_remaining _ setback inside
    simp only [Function.comp_apply, beq_iff_eq, decide_eq_true_eq]
    exact ⟨fun alike => List.inj_on_of_nodup_map source.nodup_spans there member alike,
      fun alike => congrArg Token.span alike⟩
  rw [same] at bound
  exact ⟨Nat.le_trans bound few, fun more => again (Nat.lt_of_lt_of_le more bound)⟩

/-- **Parsing with recovery ends and keeps its books.**  Whatever the listener answers, the loop
over the statements of a source is left after at most two turns for each token and one more, with
the result of the parser.  At the head of every turn no body is open, and on the way there, as on
the way out of the loop, no body was closed while none was open.  All that the listener is told is
about tokens, at most three times about each, the last one of all included, and more than once only
about control-flow keywords. -/
theorem parsing_ends_and_keeps_count :
    let start := Head.mk (.ofSource source) listener []
    let told := (Parser.unit (Logged.mk listener []) (.ofSource source)).2.2.log
    let spans := told.map fun delivery => delivery.diagnostic.span
    (∃ turns changes last further, start.Reaches turns changes last ∧
      last.turn = .leaves further (Parser.unit listener (.ofSource source)) ∧
      BodyChange.replay? 0 (changes ++ further) =
        some (Parser.unit listener (.ofSource source)).2.1.openBodies) ∧
    (∀ turns changes head, start.Reaches turns changes head →
      turns ≤ 2 * source.tokens.length + 1 ∧ head.parser.openBodies = 0 ∧
        BodyChange.replay? 0 changes = some 0) ∧
    (Parser.unit (Logged.mk listener []) (.ofSource source)).2.2.listener =
      (Parser.unit listener (.ofSource source)).2.2 ∧
    spans ⊆ source.stream.map Token.span ∧
    (∀ token ∈ source.stream, spans.count token.span ≤ 3 ∧
      (1 < spans.count token.span → token.kind.isReserved = true)) ∧
    told.length ≤ 3 * source.stream.length := by
  intro start told spans
  have outside : start.parser.openBodies = 0 := rfl
  have subset : spans ⊆ source.stream.map Token.span := source.toldSpans_subset listener
  have few : ∀ token ∈ source.stream, spans.count token.span ≤ 3 ∧
      (1 < spans.count token.span → token.kind.isReserved = true) :=
    fun token member => source.count_toldSpans_le listener member
  refine ⟨?_, fun turns changes head reaches => ?_, ?_, subset, few, ?_⟩
  · obtain ⟨turns, changes, last, further, reaches, leaves⟩ :=
      Head.exists_leaves (.ofSource source) listener []
    obtain ⟨none, replayed⟩ := reaches.keeps_count outside
    rw [Head.result_of_start] at leaves
    refine ⟨turns, changes, last, further, reaches, leaves, ?_⟩
    rw [BodyChange.replay?_append replayed]
    exact Head.keeps_count_of_leaves none leaves
  · have budget := Parser.budget_le start.parser
    have tokens : start.parser.rest = source.tokens := rfl
    have bound := reaches.budget_le
    rw [tokens] at budget
    exact ⟨by omega, reaches.keeps_count outside⟩
  · obtain ⟨deliveries, transparent, -, -⟩ :=
      (Parser.ofSource source).statements_logged (Logged.mk listener [])
    exact congrArg (fun run => run.2.2.listener) transparent
  · have total := @length_le_of_count_le _ _ 3 _ _ subset fun span member => by
      obtain ⟨token, inside, rfl⟩ := List.mem_map.mp member
      exact (few token inside).1
    rwa [List.length_map, List.length_map] at total

/-- A control-flow keyword on a line of its own, behind arguments that are cut short, is refused
three times: as what should have been a comma, and then twice as a statement. -/
theorem parsing_ends_and_keeps_count_if :
    let source := Source.ofString "call f(a\nif"
    ∃ token ∈ source.stream,
      (source.toldSpans (Transcript.always .resume)).count token.span = 3 ∧
        token.kind.isReserved = true := by
  intro source
  obtain ⟨token, member, thrice⟩ : ∃ token ∈ source.stream,
      (source.toldSpans (Transcript.always .resume)).count token.span = 3 := by decide +kernel
  have books := source.parsing_ends_and_keeps_count (Transcript.always .resume)
  have more : 1 < (source.toldSpans (Transcript.always .resume)).count token.span := by
    rw [thrice]
    decide
  exact ⟨token, member, thrice, (books.2.2.2.2.1 token member).2 more⟩

end Source

end SlotCompiler
