import SlotCompiler.Proofs.Parsing.OpenBodies

/-!
# What stands in front of a refused token on its line

A character outside the vocabulary is never accepted.  When it is refused, or is passed over in a
body that is skipped, recovery goes on behind its line at the earliest.  So no token is refused
further right on that line: all tokens in front of a refused token on its line are of the vocabulary
(`Parser.clear_setbacks`).
-/

set_option autoImplicit false

namespace SlotCompiler

/-! ## Recovery -/

namespace Parser

variable {parser : Parser} {mishap : Mishap}

/-- **Recovery that does not keep a token goes on behind a line**: that of the last token that it
drops, or at the end. -/
theorem rest_recover_of_dropped {behind : List Token} (dropped : ¬ parser.Keeps mishap)
    (stops : mishap.StopsAt parser.final behind parser.rest)
    (last : mishap.refusal.consumed = true → parser.trail.last = mishap.token.line) :
    (parser.recover mishap).rest = [] ∨ ∃ inside close more, behind = inside ++ close :: more ∧
      (parser.recover mishap).rest = dropLine close.line more := by
  by_cases outside : parser.openBodies = 0
  · rw [rest_recover_of_drops outside dropped]
    generalize parser.rest = rest at stops
    cases stops with
    | final same => exact .inl rfl
    | used consumed => exact .inr ⟨[], mishap.token, rest, rfl, rfl⟩
    | @left more consumed =>
        refine .inr ⟨[], mishap.token, more, rfl, ?_⟩
        rw [dropLine, List.dropWhile_cons, beq_self_eq_true, if_pos rfl]
        rfl
  · obtain ⟨⟨rest, line⟩, closes, same⟩ :=
      rest_recover_of_open (Nat.pos_of_ne_zero outside) stops last
    rw [same]
    obtain ⟨skipped, whole⟩ := mishap.counted_suffix behind
    generalize mishap.counted behind = counted at closes whole
    cases closes with
    | @closed inside more close stays brace counts =>
        exact .inr ⟨skipped ++ inside, close, rest, by rw [← whole, List.append_assoc], rfl⟩
    | unclosed stays => exact .inl rfl

/-! ## The run -/

/-- Whatever characters outside the vocabulary a parser has passed, they stand on earlier lines than
the tokens to come. -/
def Clear (passed : List Token) (parser : Parser) : Prop :=
  ∀ token ∈ passed, token.kind = .invalid → ∀ next ∈ parser.rest, token.line < next.line

variable {passed : List Token}

theorem Clear.append (clear : parser.Clear passed) {used : List Token}
    (valid : ∀ token ∈ used, token.kind ≠ .invalid) {next : Parser}
    (subset : next.rest ⊆ parser.rest) : next.Clear (passed ++ used) := by
  intro token member foreign other inside
  rcases List.mem_append.mp member with member | member
  · exact clear token member foreign other (subset inside)
  · exact absurd foreign (valid token member)

/-- A parser that has read a statement has passed nothing but accepted tokens. -/
theorem Clear.statement (clear : parser.Clear passed) {statement : Statement}
    (done : parser.statement.1 = .ok statement) :
    ∃ used, parser.rest = used ++ parser.statement.2.rest ∧
      parser.statement.2.Clear (passed ++ used) := by
  obtain ⟨used, last, token, whole, leads, -⟩ := Position.read_of_ok done
  exact ⟨used, whole, clear.append leads.kind_ne_invalid Position.rest_read_suffix.subset⟩

/-- **Recovery passes over the rest of a line**, if it passes over a character outside the
vocabulary at all. -/
theorem Clear.recover (clear : parser.Clear passed)
    (sorted : (passed ++ parser.rest).Pairwise fun first second => first.line ≤ second.line)
    (failed : parser.statement.1 = .error mishap) :
    ∃ used, parser.rest = used ++ (parser.statement.2.recover mishap).rest ∧
      (parser.statement.2.recover mishap).Clear (passed ++ used) := by
  obtain ⟨used, behind, last, whole, leads, -, -, stops⟩ := Position.read_of_error failed
  by_cases kept : parser.statement.2.Keeps mishap
  · obtain ⟨more, rfl, rest⟩ := rest_recover_of_keeps kept stops
    refine ⟨used, by rw [whole, rest], clear.append leads.kind_ne_invalid ?_⟩
    rw [rest, whole]
    exact List.subset_append_right _ _
  · rcases rest_recover_of_dropped kept stops
        fun consumed => (Position.read_consumed failed consumed).2
      with rest | ⟨inside, close, more, rfl, rest⟩
    · refine ⟨parser.rest, by rw [rest, List.append_nil], fun token _ _ next member => ?_⟩
      rw [rest] at member
      cases member
    · have split_ : passed ++ parser.rest = (passed ++ (used ++ inside)) ++ close :: more := by
        rw [whole]
        simp
      rw [split_] at sorted
      obtain ⟨-, behindClose, before⟩ := List.pairwise_append.mp sorted
      obtain ⟨later, sortedMore⟩ := List.pairwise_cons.mp behindClose
      refine ⟨used ++ inside ++ close :: more.takeWhile (·.line == close.line), ?_, ?_⟩
      · rw [rest, whole, dropLine]
        simp
      · intro token member _ next inRest
        have beyond : close.line < next.line :=
          lt_line_of_mem_dropLine sortedMore later next (rest ▸ inRest)
        rw [← List.append_assoc] at member
        rcases List.mem_append.mp member with member | member
        · exact Nat.lt_of_le_of_lt (before token member close List.mem_cons_self) beyond
        · rcases List.mem_cons.mp member with rfl | member
          · exact beyond
          · have same := @List.mem_takeWhile_imp Token (·.line == close.line) _ _ member
            exact beq_iff_eq.mp same ▸ beyond

/-- Among some tokens, those in front of one of them on its line are all of the vocabulary. -/
def ClearFront (tokens : List Token) (token : Token) : Prop :=
  ∃ before behind, tokens = before ++ token :: behind ∧
    ∀ other ∈ before, other.line = token.line → other.kind ≠ .invalid

theorem Clear.clearFront (clear : parser.Clear passed)
    (sorted : (passed ++ parser.remaining).Pairwise fun first second => first.line ≤ second.line)
    (nonempty : parser.rest ≠ []) (failed : parser.statement.1 = .error mishap) :
    ClearFront (passed ++ parser.remaining) mishap.token := by
  obtain ⟨used, behind, last, whole, leads, -, -, stops⟩ := Position.read_of_error failed
  obtain ⟨more, front⟩ := List.head?_eq_some_iff.mp stops.head
  have split_ : passed ++ parser.remaining = (passed ++ used) ++ mishap.token :: more := by
    rw [remaining, whole, List.append_assoc, front, List.append_assoc]
  refine ⟨passed ++ used, more, split_, fun other member same foreign => ?_⟩
  rcases List.mem_append.mp member with member | member
  · -- what was passed stands on an earlier line than the first token to come
    obtain ⟨first, others, rest⟩ := List.exists_cons_of_ne_nil nonempty
    have before := clear other member foreign first (rest ▸ List.mem_cons_self)
    have inside : mishap.token ∈ first :: (others ++ [parser.final]) := by
      rw [← List.cons_append, ← rest, whole, List.append_assoc]
      exact List.mem_append_right used stops.mem
    have least := (List.pairwise_append.mp sorted).2.1
    rw [remaining, rest, List.cons_append, List.pairwise_cons] at least
    rcases List.mem_cons.mp inside with same' | inside
    · rw [same, same'] at before
      exact Nat.lt_irrefl _ before
    · have := least.1 _ inside
      omega
  · exact leads.kind_ne_invalid other member foreign

/-- **In front of a refused token on its line, all tokens are of the vocabulary.** -/
theorem clear_setbacks (parser : Parser) : ∀ {passed : List Token},
    (passed ++ parser.remaining).Pairwise (fun first second => first.line ≤ second.line) →
    parser.Clear passed →
    ∀ setback ∈ parser.setbacks, ClearFront (passed ++ parser.remaining) setback.mishap.token := by
  induction parser using run_induction with
  | ended parser none =>
      intro passed _ _
      rw [setbacks_of_nil none]
      exact List.forall_mem_nil _
  | read parser statement more done ih =>
      intro passed sorted clear
      obtain ⟨used, rest, further⟩ := clear.statement done
      have same : passed ++ parser.remaining = passed ++ used ++ parser.statement.2.remaining := by
        rw [remaining, remaining, rest, statement_final, List.append_assoc, List.append_assoc]
      rw [setbacks_of_ok more done, same]
      exact ih (same ▸ sorted) further
  | recovered parser mishap more failed ih =>
      intro passed sorted clear
      have part := (List.Sublist.refl passed).append
        (List.sublist_append_left parser.rest [parser.final])
      obtain ⟨used, rest, further⟩ := clear.recover (sorted.sublist part) failed
      have same : passed ++ parser.remaining =
          passed ++ used ++ (parser.statement.2.recover mishap).remaining := by
        rw [remaining, remaining, final_recover, statement_final, rest, List.append_assoc,
          List.append_assoc]
      rw [setbacks_of_error more failed, List.forall_mem_cons]
      refine ⟨clear.clearFront sorted more failed, ?_⟩
      rw [same]
      exact ih (same ▸ sorted) further

/-- Without setbacks, all tokens are of the vocabulary. -/
theorem kind_ne_invalid_of_smooth {parser : Parser} (smooth : parser.setbacks = []) :
    ∀ token ∈ parser.rest, token.kind ≠ .invalid := by
  induction parser using run_induction with
  | ended parser none =>
      rw [none]
      exact List.forall_mem_nil _
  | read parser statement more done ih =>
      rw [setbacks_of_ok more done] at smooth
      obtain ⟨used, last, token, whole, leads, -⟩ := Position.read_of_ok done
      rw [whole]
      exact List.forall_mem_append.mpr ⟨leads.kind_ne_invalid, ih smooth⟩
  | recovered parser mishap more failed ih =>
      rw [setbacks_of_error more failed] at smooth
      cases smooth

end Parser

end SlotCompiler
