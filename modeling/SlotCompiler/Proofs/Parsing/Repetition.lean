import Mathlib.Data.List.Chain
import SlotCompiler.Proofs.Diagnostic.Messages
import SlotCompiler.Proofs.Parsing.Recovery
import SlotCompiler.Proofs.Scanning.Tokens

/-!
# Diagnostics that are delivered again

The parser never goes back in the text: each diagnostic is located behind those before it, or at the
same place.  It is at the same place only when its token was kept as the beginning of a statement.
A token that is kept can be refused again only if it is a control-flow keyword.  So the one
diagnostic that is ever delivered twice is the refusal of such a keyword outside of function
bodies, when the token used up before it stands on an earlier line (`Setback.Repeats`): the keyword
is put back as the beginning of a fresh statement, although it was the beginning of the statement
that it refused.  `Parser.received_unit` has the exact condition.
-/

set_option autoImplicit false

namespace SlotCompiler

/-- A token lies entirely in front of another one. -/
def Token.IsBefore (first second : Token) : Prop :=
  first.span.start < second.span.start ∧ first.span.stop ≤ second.span.start

namespace Setback

/-- A control-flow keyword is refused outside of function bodies, and the token used up before it
stands on an earlier line. -/
def Repeats (setback : Setback) : Prop :=
  setback.mishap.refusal.problem = .controlFlow ∧ setback.parser.openBodies = 0 ∧
    setback.parser.trail.previous < setback.mishap.token.line

instance (setback : Setback) : Decidable setback.Repeats :=
  inferInstanceAs (Decidable (_ ∧ _ ∧ _))

/-- A setback is located behind another one, or at the same token; and if both have the same
diagnostic, then the first one is repeated and the second one is not. -/
def Precedes (first second : Setback) : Prop :=
  first.mishap.token.IsBefore second.mishap.token ∨
    first.mishap.token = second.mishap.token ∧
      (first.diagnostic = second.diagnostic → first.Repeats ∧ ¬ second.Repeats)

end Setback

/-! ## Setbacks behind each other -/

namespace Parser

variable {parser : Parser} {mishap : Mishap}

/-- Tokens each of which lies entirely in front of the next one. -/
def Ordered (tokens : List Token) : Prop := tokens.Pairwise Token.IsBefore

/-- Behind a refused token that is not kept, there are only setbacks at later tokens. -/
theorem isBefore_of_not_keeps (ordered : Ordered parser.remaining)
    (failed : parser.statement.1 = .error mishap) (dropped : ¬ parser.statement.2.Keeps mishap) :
    ∀ setback ∈ (parser.statement.2.recover mishap).setbacks,
      mishap.token.IsBefore setback.mishap.token := by
  intro setback member
  obtain ⟨⟨used, behind, rest, stops⟩, -⟩ := statement_refused failed
  have goesOn := rest_recover_of_not_keeps dropped stops
  have remains := (remaining_suffix final_recover goesOn).subset
    (token_mem_remaining _ setback member)
  rw [remaining, rest, List.append_assoc] at ordered
  generalize parser.statement.2.rest = left at stops
  cases stops with
  | final same =>
      rw [setbacks_of_nil (List.suffix_nil.mp goesOn)] at member
      cases member
  | used consumed => exact List.rel_of_pairwise_cons (List.pairwise_append.mp ordered).2.1 remains
  | left consumed => exact List.rel_of_pairwise_cons (List.pairwise_append.mp ordered).2.1 remains

/-- Behind a refused token that is kept, there are only setbacks at it and at later tokens. -/
theorem isBefore_of_keeps (ordered : Ordered parser.remaining)
    (failed : parser.statement.1 = .error mishap) (kept : parser.statement.2.Keeps mishap) :
    (∃ more, (parser.statement.2.recover mishap).rest = mishap.token :: more) ∧
      ∀ setback ∈ (parser.statement.2.recover mishap).setbacks,
        setback.mishap.token = mishap.token ∨ mishap.token.IsBefore setback.mishap.token := by
  obtain ⟨⟨used, behind, rest, stops⟩, -⟩ := statement_refused failed
  obtain ⟨more, rfl, goesOn⟩ := rest_recover_of_keeps kept stops
  refine ⟨⟨more, goesOn⟩, fun setback member => ?_⟩
  have remains := token_mem_remaining _ setback member
  rw [remaining, goesOn, final_recover] at remains
  rw [remaining, rest, List.append_assoc] at ordered
  rcases List.mem_cons.mp remains with same | later
  · exact .inl same
  · exact .inr (List.rel_of_pairwise_cons (List.pairwise_append.mp ordered).2.1 later)

/-! ## Tokens that are refused again -/

section First

variable {token : Token} {tokens : List Token}

/-- Behind a statement that takes its first token, there are only setbacks at later tokens. -/
theorem token_mem_of_accept {next : Position .statement} (front : parser.rest = token :: tokens)
    (accepted : (Position.statement StatementSite.goal).accept? token = some next) :
    ∀ setback ∈ parser.setbacks, setback.mishap.token ∈ tokens ++ [parser.final] := by
  have more : parser.rest ≠ [] := by
    rw [front]
    exact List.cons_ne_nil _ _
  have outcome : parser.statement.1 =
      (next.read parser.final (parser.trail.push token) tokens).outcome := by
    simp only [statement, read, front, Position.read_of_accept accepted]
  have left : parser.statement.2.rest =
      (next.read parser.final (parser.trail.push token) tokens).rest := by
    simp only [statement, read, front, Position.read_of_accept accepted]
  cases done : parser.statement.1 with
  | ok statement =>
      have suffix : parser.statement.2.rest <:+ tokens := by
        rw [left]
        exact Position.rest_read_suffix
      rw [setbacks_of_ok more done]
      exact fun setback member =>
        (remaining_suffix rfl suffix).subset (token_mem_remaining _ setback member)
  | error mishap =>
      obtain ⟨⟨used, behind, rfl, stops⟩, -⟩ := Position.read_refused (outcome.symm.trans done)
      rw [← left] at stops
      have goesOn : (parser.statement.2.recover mishap).rest <:+ behind := rest_recover_suffix stops
      rw [setbacks_of_error more done, List.forall_mem_cons, List.append_assoc]
      refine ⟨List.mem_append_right used stops.mem, fun setback member => ?_⟩
      exact List.mem_append_right used
        ((remaining_suffix final_recover goesOn).subset (token_mem_remaining _ setback member))

theorem not_isBefore_self : ¬ token.IsBefore token := fun before => Nat.lt_irrefl _ before.1

/-- A token that is taken is never refused. -/
theorem token_ne_of_accept {next : Position .statement} (ordered : Ordered parser.remaining)
    (front : parser.rest = token :: tokens)
    (accepted : (Position.statement StatementSite.goal).accept? token = some next) :
    ∀ setback ∈ parser.setbacks, setback.mishap.token ≠ token := by
  intro setback member same
  have later := token_mem_of_accept front accepted setback member
  rw [remaining, front] at ordered
  exact not_isBefore_self (same ▸ List.rel_of_pairwise_cons ordered later)

/-- **A token that can begin the next statement is refused only as control flow.** -/
theorem problem_of_opensStatement (parser : Parser) : Ordered parser.remaining →
    ∀ {token tokens}, parser.rest = token :: tokens → token.kind.opensStatement = true →
      ∀ setback ∈ parser.setbacks, setback.mishap.token = token →
        setback.mishap.refusal.problem = .controlFlow := by
  induction parser using run_induction with
  | ended parser none =>
      intro _ token tokens front
      rw [none] at front
      cases front
  | read parser statement more done ih =>
      intro ordered token tokens front opens setback member same
      cases accepted : (Position.statement StatementSite.goal).accept? token with
      | some next =>
          exact absurd same (token_ne_of_accept ordered front accepted setback member)
      | none =>
          rw [(statement_of_isReserved front (isReserved_of_reject opens accepted)).1] at done
          cases done
  | recovered parser mishap more failed ih =>
      intro ordered token tokens front opens setback member same
      cases accepted : (Position.statement StatementSite.goal).accept? token with
      | some next =>
          exact absurd same (token_ne_of_accept ordered front accepted setback member)
      | none =>
          have refused := (statement_of_isReserved front (isReserved_of_reject opens accepted)).1
          obtain rfl : mishap = ⟨token, ⟨.controlFlow, true⟩, 0⟩ := by
            rw [refused] at failed
            exact (Except.error.inj failed).symm
          rw [setbacks_of_error more failed] at member
          rcases List.mem_cons.mp member with rfl | member
          · rfl
          · by_cases kept : parser.statement.2.Keeps ⟨token, ⟨.controlFlow, true⟩, 0⟩
            · obtain ⟨⟨behind, goesOn⟩, -⟩ := isBefore_of_keeps ordered failed kept
              have orderedNext := ordered.sublist (remaining_recover failed).sublist
              exact ih orderedNext goesOn opens setback member same
            · have later := isBefore_of_not_keeps ordered failed kept setback member
              exact absurd (same ▸ later) not_isBefore_self

end First

/-- **Behind a setback there are only setbacks at later tokens**, and at the same token if it is
kept; then it is refused as control flow. -/
theorem isBefore_or_keeps (ordered : Ordered parser.remaining)
    (failed : parser.statement.1 = .error mishap) :
    ∀ setback ∈ (parser.statement.2.recover mishap).setbacks,
      mishap.token.IsBefore setback.mishap.token ∨
        parser.statement.2.Keeps mishap ∧ setback.mishap.token = mishap.token ∧
          setback.mishap.refusal.problem = .controlFlow := by
  intro setback member
  by_cases kept : parser.statement.2.Keeps mishap
  · obtain ⟨⟨behind, goesOn⟩, place⟩ := isBefore_of_keeps ordered failed kept
    rcases place setback member with same | later
    · have orderedNext := ordered.sublist (remaining_recover failed).sublist
      exact .inr ⟨kept, same, problem_of_opensStatement _ orderedNext goesOn
        (opensStatement_of_keeps kept.2) setback member same⟩
    · exact .inl later
  · exact .inl (isBefore_of_not_keeps ordered failed kept setback member)

/-! ## Setbacks in order -/

theorem repeats_of_keeps (kept : parser.Keeps mishap)
    (flow : mishap.refusal.problem = .controlFlow) (consumed : mishap.refusal.consumed = true) :
    Setback.Repeats ⟨parser, mishap⟩ := by
  refine ⟨flow, kept.1, ?_⟩
  have fresh := kept.2
  rw [keeps, if_pos consumed, Bool.and_eq_true, decide_eq_true_eq] at fresh
  exact fresh.2

theorem keeps_of_repeats (again : Setback.Repeats ⟨parser, mishap⟩)
    (consumed : mishap.refusal.consumed = true) (reserved : mishap.token.kind.isReserved = true) :
    parser.Keeps mishap := by
  refine ⟨again.2.1, ?_⟩
  rw [keeps, if_pos consumed, Bool.and_eq_true, decide_eq_true_eq]
  refine ⟨?_, again.2.2⟩
  cases kind : mishap.token.kind with
  | keyword word => rfl
  | _ =>
      rw [kind] at reserved
      cases reserved

/-- A keyword that has just been used up is refused once more and not kept again. -/
theorem not_repeats_of_used {token : Token} {tokens : List Token}
    (ordered : Ordered parser.remaining) (front : parser.rest = token :: tokens)
    (reserved : token.kind.isReserved = true) (line : parser.trail.last = token.line) :
    ∀ setback ∈ parser.setbacks, setback.mishap.token = token → ¬ setback.Repeats := by
  obtain ⟨failed, trail, -⟩ := statement_of_isReserved front reserved
  have previous : parser.statement.2.trail.previous = token.line := by
    rw [trail, Trail.push, line]
  have more : parser.rest ≠ [] := by
    rw [front]
    exact List.cons_ne_nil _ _
  have single : ¬ Setback.Repeats ⟨parser.statement.2, ⟨token, ⟨.controlFlow, true⟩, 0⟩⟩ :=
    fun again => Nat.lt_irrefl _ (previous ▸ again.2.2)
  have dropped : ¬ parser.statement.2.Keeps ⟨token, ⟨.controlFlow, true⟩, 0⟩ :=
    fun kept => single (repeats_of_keeps kept rfl rfl)
  rw [setbacks_of_error more failed, List.forall_mem_cons]
  refine ⟨fun _ => single, fun setback member same => ?_⟩
  have later := isBefore_of_not_keeps ordered failed dropped setback member
  exact absurd (same ▸ later) not_isBefore_self

/-- Only reserved keywords are refused as control flow. -/
theorem isReserved_of_controlFlow (parser : Parser) : ∀ setback ∈ parser.setbacks,
    setback.mishap.refusal.problem = .controlFlow →
      setback.mishap.token.kind.isReserved = true :=
  fun setback member flow => ((parser.refusal_of_mem_setbacks setback member).isReserved flow).2

/-- **Setbacks never go back**, and only a repeated one is like a later one. -/
theorem pairwise_setbacks (parser : Parser) : Ordered parser.remaining →
    parser.setbacks.Pairwise Setback.Precedes := by
  induction parser using run_induction with
  | ended parser none =>
      intro _
      rw [setbacks_of_nil none]
      exact .nil
  | read parser statement more done ih =>
      intro ordered
      rw [setbacks_of_ok more done]
      exact ih (ordered.sublist remaining_statement.sublist)
  | recovered parser mishap more failed ih =>
      intro ordered
      have orderedNext := ordered.sublist (remaining_recover failed).sublist
      rw [setbacks_of_error more failed]
      refine List.pairwise_cons.mpr ⟨fun setback member => ?_, ih orderedNext⟩
      rcases isBefore_or_keeps ordered failed setback member with later | ⟨kept, same, again⟩
      · exact .inl later
      · refine .inr ⟨same.symm, fun alike => ?_⟩
        have flow : mishap.refusal.problem = .controlFlow :=
          (congrArg Diagnostic.problem alike).trans again
        obtain ⟨consumed, reserved⟩ := (statement_refused failed).2 flow
        refine ⟨repeats_of_keeps kept flow consumed, ?_⟩
        obtain ⟨⟨behind, goesOn⟩, -⟩ := isBefore_of_keeps ordered failed kept
        have line : (parser.statement.2.recover mishap).trail.last = mishap.token.line := by
          rw [trail_recover_of_keeps kept]
          exact (Position.read_consumed failed consumed).2
        exact not_repeats_of_used orderedNext goesOn reserved line setback member same

/-- **A repeated setback is repeated at once.** -/
theorem isChain_setbacks (parser : Parser) : parser.setbacks.IsChain fun first second =>
    first.Repeats → second.diagnostic = first.diagnostic := by
  induction parser using run_induction with
  | ended parser none =>
      rw [setbacks_of_nil none]
      exact .nil
  | read parser statement more done ih =>
      rw [setbacks_of_ok more done]
      exact ih
  | recovered parser mishap more failed ih =>
      rw [setbacks_of_error more failed]
      refine List.isChain_cons.mpr ⟨fun setback first again => ?_, ih⟩
      obtain ⟨⟨used, behind, rest, stops⟩, controlFlow⟩ := statement_refused failed
      obtain ⟨consumed, reserved⟩ := controlFlow again.1
      obtain ⟨after, -, goesOn⟩ :=
        rest_recover_of_keeps (keeps_of_repeats again consumed reserved) stops
      have front : (parser.statement.2.recover mishap).rest ≠ [] := by
        rw [goesOn]
        exact List.cons_ne_nil _ _
      rw [setbacks_of_error front (statement_of_isReserved goesOn reserved).1] at first
      obtain rfl := Option.some.inj first
      exact congrArg (Diagnostic.mk · mishap.token.span) again.1.symm

end Parser

/-! ## What a listener hears -/

namespace Setback

theorem Precedes.again {first second : Setback} (precedes : first.Precedes second)
    (same : first.diagnostic = second.diagnostic) : first.Repeats ∧ ¬ second.Repeats := by
  rcases precedes with before | ⟨-, again⟩
  · have place : first.mishap.token.span = second.mishap.token.span :=
      congrArg Diagnostic.span same
    exact absurd (place ▸ before.1) (Nat.lt_irrefl _)
  · exact again same

/-- A listener hears of the first setbacks, in a row. -/
theorem told_isPrefix (answer : Nat → Answer) (count : Nat) (setbacks : List Setback) :
    told answer count setbacks <+: setbacks := by
  induction setbacks generalizing count with
  | nil => exact List.prefix_refl _
  | cons setback setbacks ih =>
      rw [told]
      split
      · exact (List.prefix_cons_inj _).mpr (ih _)
      · exact (List.prefix_cons_inj _).mpr List.nil_prefix

/-- In a row of setbacks no diagnostic occurs twice exactly if none but the last is repeated. -/
theorem nodup_iff {setbacks : List Setback} (ordered : setbacks.Pairwise Precedes)
    (again : setbacks.IsChain fun first second =>
      first.Repeats → second.diagnostic = first.diagnostic) :
    (setbacks.map diagnostic).Nodup ↔ ∀ setback ∈ setbacks.dropLast, ¬ setback.Repeats := by
  induction setbacks with
  | nil => simp
  | cons setback setbacks ih =>
      cases setbacks with
      | nil => simp
      | cons next setbacks =>
          rw [List.pairwise_cons] at ordered
          rw [List.isChain_cons_cons] at again
          rw [List.map_cons, List.nodup_cons, List.dropLast_cons_cons, List.forall_mem_cons]
          refine and_congr ⟨fun single repeats => ?_, fun single member => ?_⟩
            (ih ordered.2 again.2)
          · exact single (List.mem_map.mpr ⟨next, List.mem_cons_self, again.1 repeats⟩)
          · obtain ⟨other, among, same⟩ := List.mem_map.mp member
            exact single ((ordered.1 other among).again same.symm).1

/-- In a row of setbacks no diagnostic occurs three times. -/
theorem count_le {setbacks : List Setback} (ordered : setbacks.Pairwise Precedes)
    (told : Diagnostic) : (setbacks.map diagnostic).count told ≤ 2 := by
  by_contra more
  have thrice : (List.replicate 3 told).Sublist (setbacks.map diagnostic) :=
    List.replicate_sublist_iff.mpr (Nat.lt_of_not_le more)
  obtain ⟨among, sublist, same⟩ := List.sublist_map_iff.mp thrice
  have three : among.length = 3 := by
    rw [← List.length_map, ← same, List.length_replicate]
  obtain ⟨first, second, third, rfl⟩ := List.length_eq_three.mp three
  simp only [List.replicate, List.map_cons, List.cons.injEq] at same
  obtain ⟨once, twice, again, -⟩ := same
  have inOrder := ordered.sublist sublist
  rw [List.pairwise_cons, List.pairwise_cons] at inOrder
  have repeats := (inOrder.2.1 third List.mem_cons_self).again (twice.symm.trans again)
  exact ((inOrder.1 second List.mem_cons_self).again (once.symm.trans twice)).2 repeats.1

end Setback

namespace Parser

/-- The tokens of a source stand in order. -/
theorem ordered_ofSource (source : Source) : Ordered (ofSource source).remaining := by
  have ordered := List.pairwise_append.mp source.pairwise_tokens
  have before : ∀ {first second : Token}, first ∈ source.tokens →
      first.span.stop ≤ second.span.start → first.IsBefore second :=
    fun member behind => ⟨Nat.lt_of_lt_of_le (source.start_lt_stop member) behind, behind⟩
  refine List.pairwise_append.mpr ⟨?_, List.pairwise_singleton _ _, ?_⟩
  · exact ordered.1.imp_of_mem fun member _ facts => before member facts.1
  · exact fun first member second final => before member (ordered.2.2 first member second final).1

section Told

variable (source : Source) (answer : Nat → Answer)

theorem received_ofSource : (unit (Transcript.mk answer []) (ofSource source)).2.2.received =
    (Setback.told answer 0 (ofSource source).setbacks).map Setback.diagnostic :=
  received_statements (Transcript.mk answer []) (ofSource source)

theorem pairwise_told :
    (Setback.told answer 0 (ofSource source).setbacks).Pairwise Setback.Precedes :=
  (pairwise_setbacks _ (ordered_ofSource source)).sublist (Setback.told_isPrefix _ _ _).sublist

theorem isChain_told :
    (Setback.told answer 0 (ofSource source).setbacks).IsChain fun first second =>
      first.Repeats → second.diagnostic = first.diagnostic := by
  have whole := isChain_setbacks (ofSource source)
  obtain ⟨more, same⟩ := Setback.told_isPrefix answer 0 (ofSource source).setbacks
  rw [← same] at whole
  exact whole.left_of_append

/-- **When a diagnostic is delivered again.** A listener, whatever it answers, is told of the
setbacks of a source up to the one at which it gives up.  Their places never go back, and nothing
is told more than twice.  A message is told twice about the same place exactly if one of these
setbacks, other than the last one, refuses a control-flow keyword outside of function bodies that
stands on a later line than the token used up before it. -/
theorem received_unit :
    let told := Setback.told answer 0 (ofSource source).setbacks
    let received := (unit (Transcript.mk answer []) (ofSource source)).2.2.received
    received = told.map Setback.diagnostic ∧
      (received.Pairwise fun first second => first.span.start ≤ second.span.start) ∧
      (∀ diagnostic, received.count diagnostic ≤ 2) ∧
      ((received.map fun diagnostic => (diagnostic.message, diagnostic.span)).Nodup ↔
        ∀ setback ∈ told.dropLast, ¬ setback.Repeats) := by
  intro told received
  have heard : received = told.map Setback.diagnostic := received_ofSource source answer
  have ordered : told.Pairwise Setback.Precedes := pairwise_told source answer
  refine ⟨heard, ?_, ?_, ?_⟩
  · rw [heard, List.pairwise_map]
    refine ordered.imp fun {first second} precedes => ?_
    rcases precedes with before | ⟨same, -⟩
    · exact Nat.le_of_lt before.1
    · exact Nat.le_of_eq (congrArg (fun token => token.span.start) same)
  · rw [heard]
    exact Setback.count_le ordered
  · rw [List.nodup_map_iff Diagnostic.message_span_injective, heard]
    exact Setback.nodup_iff ordered (isChain_told source answer)

/-- A keyword at the beginning of the second line is refused twice. -/
theorem not_nodup_received_if :
    ¬ ((unit (Transcript.always .resume) (ofSource (.ofString "a\nif"))).2.2.received.map
      fun diagnostic => (diagnostic.message, diagnostic.span)).Nodup := by
  have received :
      (unit (Transcript.always .resume) (ofSource (.ofString "a\nif"))).2.2.received =
        [⟨.controlFlow, ⟨2, 4⟩⟩, ⟨.controlFlow, ⟨2, 4⟩⟩] := by decide +kernel
  rw [received]
  simp

/-- Nothing is delivered twice unless a control-flow keyword stands behind the first line. -/
theorem nodup_received_of_isReserved
    (first : ∀ token ∈ source.tokens, token.kind.isReserved = true → token.line = 0) :
    (unit (Transcript.mk answer []) (ofSource source)).2.2.received.Nodup := by
  have exact_ := Setback.nodup_iff (pairwise_told source answer) (isChain_told source answer)
  rw [received_ofSource, exact_]
  intro setback member again
  have among : setback ∈ (ofSource source).setbacks :=
    (Setback.told_isPrefix _ _ _).subset (List.dropLast_subset _ member)
  have reserved := isReserved_of_controlFlow _ setback among again.1
  rcases List.mem_append.mp (token_mem_remaining _ setback among) with inside | final
  · have line := again.2.2
    rw [first _ inside reserved] at line
    exact Nat.not_lt_zero _ line
  · rw [List.mem_singleton.mp final, Parser.final_kind] at reserved
    cases reserved

end Told

end Parser

end SlotCompiler
