import SlotCompiler.Proofs.Scanning.Munch
import SlotCompiler.Proofs.Text.LineTable

/-!
# Resuming between tokens

Whoever reads a text takes the next token or drops the rest of a line, in any order
(`Cursor.follow`).  A cursor that is led so always stands between two tokens of the text: those in
front end there, and those behind are what would be scanned from there on (`Cursor.Between`).
Taking a token keeps that (`Cursor.Between.next`).  Dropping a line keeps it because a line in front
of others is scanned as on its own (`Cursor.Between.dropLine`).  So the next token is always the
first one of the text that begins at the cursor or behind it
(`Source.resumes_between_tokens`).
-/

set_option autoImplicit false

namespace SlotCompiler

open Utf8 (newline)

/-- What whoever reads a text does next: take a token, or drop the rest of the line. -/
inductive Move where
  | take | dropLine
  deriving DecidableEq, Repr

/-- Only the second one of two lists is left by a filter. -/
theorem filter_append_of {α : Type} {keeps : α → Bool} {first second : List α}
    (none : ∀ element ∈ first, keeps element = false)
    (all : ∀ element ∈ second, keeps element = true) :
    (first ++ second).filter keeps = second := by
  rw [List.filter_append, List.filter_eq_self.mpr all, List.filter_eq_nil_iff.mpr, List.nil_append]
  intro element member
  rw [none element member]
  exact Bool.false_ne_true

namespace Cursor

/-- The tokens that are taken in some moves, and the place behind them. -/
def follow (cursor : Cursor) : List Move → List Token × Cursor
  | [] => ([], cursor)
  | .take :: moves =>
    let (tokens, place) := follow cursor.next.2 moves
    (cursor.next.1 :: tokens, place)
  | .dropLine :: moves => follow cursor.dropLine moves

/-! ## Dropping a line -/

theorem dropLineFrom_eq {text : List Char} (single : '\n' ∉ text) (offset line : Nat) :
    dropLineFrom offset line text = ⟨[], offset + Utf8.size text, line⟩ ∧
      ∀ more, dropLineFrom offset line (text ++ '\n' :: more) =
        ⟨more, offset + Utf8.size text + 1, line + 1⟩ := by
  induction text generalizing offset with
  | nil => exact ⟨rfl, fun more => rfl⟩
  | cons character text ih =>
      rw [List.mem_cons, not_or] at single
      obtain ⟨alone, inFront⟩ := ih single.2 (offset + character.utf8Size)
      have other : ¬ character = '\n' := Ne.symm single.1
      simp only [List.cons_append, dropLineFrom, advance, if_neg other, Utf8.size_cons,
        ← Nat.add_assoc]
      exact ⟨alone, inFront⟩

/-- Every token ends in the text. -/
theorem stop_le_of_mem_scan (cursor : Cursor) :
    ∀ token ∈ cursor.scan.1, token.span.stop ≤ cursor.offset + Utf8.size cursor.rest := by
  intro token member
  have ordered := (List.pairwise_append.mp cursor.pairwise_scan).2.2
  have inFront := (ordered token member cursor.scan.2 (List.mem_singleton_self _)).1
  rw [cursor.passes_to_end.2] at inFront
  exact inFront

/-- **Dropping a line** leads behind the next newline, or to the end.  The tokens that are dropped
are those of the rest of the line; the others are scanned behind it. -/
theorem dropLine_spec (cursor : Cursor) :
    ∃ line ends more, cursor.rest = line ++ (ends ++ more) ∧ '\n' ∉ line ∧
      (ends = ['\n'] ∨ ends = [] ∧ more = []) ∧ cursor.dropLine.rest = more ∧
      cursor.dropLine.offset = cursor.offset + Utf8.size (line ++ ends) ∧
      ∃ dropped, cursor.scan = (dropped ++ cursor.dropLine.scan.1, cursor.dropLine.scan.2) ∧
        ∀ token ∈ dropped, token.span.stop ≤ cursor.offset + Utf8.size line := by
  obtain ⟨rest, offset, number⟩ := cursor
  obtain ⟨line, rest, rfl, single, rfl | ⟨more, rfl⟩, -⟩ := exists_up_to_next '\n' rest
  · have leads : (Cursor.mk line offset number).dropLine = ⟨[], offset + Utf8.size line, number⟩ :=
      (dropLineFrom_eq single offset number).1
    have nothing : (Cursor.mk [] (offset + Utf8.size line) number).scan =
        ([], ⟨.endOfFile, "", .point (offset + Utf8.size line), number⟩) := scan_of_final rfl
    have final := (Cursor.mk line offset number).passes_to_end.2
    simp only [List.count_eq_zero_of_not_mem single, Nat.add_zero] at final
    simp only [List.append_nil, leads, nothing]
    refine ⟨line, [], [], by simp, single, .inr ⟨rfl, rfl⟩, rfl, by simp, _, ?_,
      stop_le_of_mem_scan (Cursor.mk line offset number)⟩
    exact Prod.ext rfl final
  · have leads : (Cursor.mk (line ++ '\n' :: more) offset number).dropLine =
        (Cursor.mk line offset number).behindLine more :=
      (dropLineFrom_eq single offset number).2 more
    have scanned := (Cursor.mk line offset number).scan_followedBy more single
    rw [leads]
    refine ⟨line, ['\n'], more, rfl, single, .inl rfl, rfl, ?_, _, scanned, stop_le_of_mem_scan _⟩
    rw [Utf8.size_append]
    rfl

theorem offset_le_dropLine (cursor : Cursor) : cursor.offset ≤ cursor.dropLine.offset := by
  obtain ⟨line, ends, more, -, -, -, -, place, -⟩ := cursor.dropLine_spec
  rw [place]
  exact Nat.le_add_right _ _

/-! ## Between tokens -/

/-- A cursor stands in a source between tokens: the tokens of the source are some that end there or
in front, and those that are scanned from there on. -/
structure Between (source : Source) (cursor : Cursor) : Prop where
  within : cursor.Within source
  ahead : ∃ passed, source.tokens = passed ++ cursor.scan.1 ∧
    ∀ token ∈ passed, token.span.stop ≤ cursor.offset
  final : cursor.scan.2 = source.endToken

variable {source : Source} {cursor : Cursor}

theorem between_start (source : Source) : (start source.text).Between source where
  within := within_start source
  ahead := ⟨[], rfl, List.forall_mem_nil _⟩
  final := rfl

theorem stop_eq_offset_next (cursor : Cursor) :
    cursor.next.1.span.stop = cursor.next.2.offset ∧ cursor.offset ≤ cursor.next.2.offset := by
  obtain ⟨start, stop, -⟩ := cursor.le_next
  obtain ⟨-, -, -, -, -, -, same, -⟩ := cursor.next_spec
  omega

namespace Between

/-- **Taking a token leads between tokens.** -/
theorem next (between : cursor.Between source) : cursor.next.2.Between source := by
  obtain ⟨within, ⟨passed, whole, inFront⟩, final⟩ := between
  obtain ⟨stop, further⟩ := cursor.stop_eq_offset_next
  by_cases atEnd : cursor.next.1.kind = .endOfFile
  · have same := scan_of_next (next_next_of_final atEnd)
    refine ⟨within.next.1, ⟨passed, ?_, ?_⟩, ?_⟩
    · rw [same, whole]
    · intro token member
      exact Nat.le_trans (inFront token member) further
    · rw [same, final]
  · rw [scan_of_more atEnd] at whole final
    refine ⟨within.next.1, ⟨passed ++ [cursor.next.1], ?_, ?_⟩, final⟩
    · rw [whole, List.append_cons]
    · intro token member
      rcases List.mem_append.mp member with earlier | last
      · exact Nat.le_trans (inFront token earlier) further
      · rw [List.mem_singleton.mp last, stop]

/-- **So does dropping a line.**  It leads behind the rest of the line, which ends at a newline or
at the end, and the tokens that are dropped end in front of that. -/
theorem dropLine (between : cursor.Between source) :
    cursor.dropLine.Between source ∧ ∃ stop, cursor.offset ≤ stop ∧
      newline ∉ (source.bytes.drop cursor.offset).take (stop - cursor.offset) ∧
      (source.bytes[stop]? = some newline ∧ cursor.dropLine.offset = stop + 1 ∨
        stop = source.size ∧ cursor.dropLine.offset = stop) ∧
      ∃ dropped, cursor.scan.1 = dropped ++ cursor.dropLine.scan.1 ∧
        ∀ token ∈ dropped, token.span.stop ≤ stop := by
  obtain ⟨⟨before, text, offset⟩, ⟨passed, whole, inFront⟩, final⟩ := between
  obtain ⟨line, ends, more, here, single, closes, rest, place, dropped, scan, stops⟩ :=
    cursor.dropLine_spec
  have bytes : source.bytes =
      Utf8.encode before ++ (Utf8.encode line ++ Utf8.encode (ends ++ more)) := by
    rw [Source.bytes, text, here, Utf8.encode_append, Utf8.encode_append]
  rw [scan] at whole final
  rw [Utf8.size_append] at place
  constructor
  · refine ⟨⟨before ++ (line ++ ends), ?_, ?_⟩, ⟨passed ++ dropped, ?_, ?_⟩, final⟩
    · rw [text, here, rest]
      simp only [List.append_assoc]
    · rw [place, offset]
      simp only [Utf8.size_append]
    · rw [whole, List.append_assoc]
    · intro token member
      rcases List.mem_append.mp member with earlier | last
      · have := inFront token earlier
        omega
      · have := stops token last
        omega
  · refine ⟨cursor.offset + Utf8.size line, Nat.le_add_right _ _, ?_, ?_, dropped,
      congrArg Prod.fst scan, stops⟩
    · rw [bytes, offset, Nat.add_sub_cancel_left, List.drop_left' (Utf8.length_encode before),
        List.take_left' (Utf8.length_encode line), Utf8.newline_mem_encode_iff]
      exact single
    · rcases closes with rfl | ⟨rfl, rfl⟩
      · refine .inl ⟨?_, place⟩
        rw [bytes, offset, ← Utf8.size_append, ← Utf8.length_encode, ← List.append_assoc,
          ← Utf8.encode_append, List.getElem?_append_right (Nat.le_refl _), Nat.sub_self]
        rfl
      · refine .inr ⟨?_, place⟩
        rw [source.size_eq, text, here, offset]
        simp only [Utf8.size_append, Utf8.size_nil, Nat.add_zero]

/-- **The tokens that are dropped with a line** are those that begin in front of where it ends, and
they end in front of that. -/
theorem dropped_iff (between : cursor.Between source) {stop : Nat} {dropped : List Token}
    (behind : stop ≤ cursor.dropLine.offset) (front : cursor.offset ≤ stop)
    (whole : cursor.scan.1 = dropped ++ cursor.dropLine.scan.1)
    (stops : ∀ token ∈ dropped, token.span.stop ≤ stop) :
    cursor.dropLine.scan.1 = cursor.scan.1.filter (stop ≤ ·.span.start) ∧
      ∀ token ∈ source.tokens, token.span.start < stop → token.span.stop ≤ stop := by
  obtain ⟨passed, tokens, inFront⟩ := between.ahead
  have later : ∀ token ∈ cursor.dropLine.scan.1, stop ≤ token.span.start := by
    intro token member
    have := (cursor.dropLine.le_of_mem_scan token (List.mem_append_left _ member)).1
    omega
  rw [whole] at tokens
  constructor
  · rw [whole]
    refine (filter_append_of ?_ ?_).symm
    · intro token member
      have := stops token member
      have := source.start_lt_stop
        (tokens ▸ List.mem_append_right _ (List.mem_append_left _ member))
      exact decide_eq_false (by omega)
    · intro token member
      exact decide_eq_true (later token member)
  · intro token member begins
    rw [tokens, List.mem_append, List.mem_append] at member
    rcases member with earlier | line | behindLine
    · exact Nat.le_trans (inFront token earlier) front
    · exact stops token line
    · exact absurd begins (Nat.not_lt_of_le (later token behindLine))

/-- What is scanned from a place between tokens are the tokens that begin there or behind. -/
theorem scan_eq (between : cursor.Between source) : cursor.scan =
    (source.tokens.filter (cursor.offset ≤ ·.span.start), source.endToken) := by
  obtain ⟨passed, whole, inFront⟩ := between.ahead
  have ahead : source.tokens.filter (cursor.offset ≤ ·.span.start) = cursor.scan.1 := by
    rw [whole]
    refine filter_append_of ?_ ?_
    · intro token member
      have := source.start_lt_stop (whole ▸ List.mem_append_left _ member)
      have := inFront token member
      exact decide_eq_false (by omega)
    · intro token member
      exact decide_eq_true (cursor.le_of_mem_scan token (List.mem_append_left _ member)).1
  rw [ahead, ← between.final]

/-- No token of the source goes on over a place between tokens. -/
theorem apart (between : cursor.Between source) : ∀ token ∈ source.tokens,
    token.span.stop ≤ cursor.offset ∨ cursor.offset ≤ token.span.start := by
  obtain ⟨passed, whole, inFront⟩ := between.ahead
  intro token member
  rw [whole, List.mem_append] at member
  rcases member with earlier | later
  · exact .inl (inFront token earlier)
  · exact .inr (cursor.le_of_mem_scan token (List.mem_append_left _ later)).1

/-- **The next token is the first one that begins at the place or behind it.** -/
theorem find?_stream (between : cursor.Between source) :
    source.stream.find? (cursor.offset ≤ ·.span.start) = some cursor.next.1 := by
  have first := cursor.head?_scan
  have last : cursor.offset ≤ source.endToken.span.start := by
    rw [← between.final]
    exact (cursor.le_of_mem_scan _ (List.mem_append_right _ (List.mem_singleton_self _))).1
  rw [between.scan_eq] at first
  rw [← List.head?_filter, Source.stream, List.filter_append,
    List.filter_singleton, decide_eq_true last]
  exact first

end Between

/-- **Any moves lead between tokens.**  The tokens that are taken are tokens of the source and end
there or in front, and no token before the last one of all is taken twice. -/
theorem Between.follow (between : cursor.Between source) (moves : List Move) :
    let (taken, place) := cursor.follow moves
    place.Between source ∧ cursor.offset ≤ place.offset ∧
      (∀ token ∈ taken, token ∈ source.stream ∧ token.span.stop ≤ place.offset) ∧
      (taken.filter (·.kind ≠ .endOfFile)).Sublist cursor.scan.1 := by
  induction moves generalizing cursor with
  | nil => exact ⟨between, Nat.le_refl _, List.forall_mem_nil _, List.nil_sublist _⟩
  | cons move moves ih =>
      cases move with
      | take =>
          obtain ⟨stop, further⟩ := cursor.stop_eq_offset_next
          obtain ⟨there, behind, taken, once⟩ := ih between.next
          have member := List.mem_of_find?_eq_some between.find?_stream
          refine ⟨there, Nat.le_trans further behind, ?_, ?_⟩
          · rw [List.forall_mem_cons]
            exact ⟨⟨member, stop ▸ behind⟩, taken⟩
          · by_cases atEnd : cursor.next.1.kind = .endOfFile
            · -- the last token of all leaves the tokens ahead as they are
              rw [scan_of_next (next_next_of_final atEnd)] at once
              rw [List.filter_cons_of_neg (by simpa using atEnd)]
              exact once
            · rw [scan_of_more atEnd, List.filter_cons_of_pos (by simpa using atEnd)]
              exact once.cons_cons _
      | dropLine =>
          obtain ⟨between, stop, -, -, -, dropped, whole, -⟩ := between.dropLine
          obtain ⟨there, behind, taken, once⟩ := ih between
          refine ⟨there, Nat.le_trans cursor.offset_le_dropLine behind, taken, ?_⟩
          rw [whole]
          exact once.trans (List.sublist_append_right _ _)

end Cursor

namespace Source

/-- **Reading resumes between tokens.** Wherever any tokens taken and lines dropped have led: the
tokens that were taken are tokens of the source that end there or in front.  The place is one
between characters, not in a token, and the tokens from there on are scanned behind it.  The next
token is the first one that begins there or behind, and leads to where it ends.  Dropping a line
leads behind the next newline or to the end; it drops the tokens that begin in front of that
newline, which end in front of it as well. -/
theorem resumes_between_tokens (source : Source) (moves : List Move) :
    let (taken, cursor) := (Cursor.start source.text).follow moves
    ((∀ token ∈ taken, token ∈ source.stream ∧ token.span.stop ≤ cursor.offset) ∧
        (taken.filter (·.kind ≠ .endOfFile)).Sublist source.tokens) ∧
      (∃ before, source.text = before ++ cursor.rest ∧ cursor.offset = Utf8.size before) ∧
      (∀ token ∈ source.tokens,
        token.span.stop ≤ cursor.offset ∨ cursor.offset ≤ token.span.start) ∧
      cursor.scan = (source.tokens.filter (cursor.offset ≤ ·.span.start), source.endToken) ∧
      (source.stream.find? (cursor.offset ≤ ·.span.start) = some cursor.next.1 ∧
        cursor.offset ≤ cursor.next.2.offset ∧
        cursor.next.2.offset = cursor.next.1.span.stop) ∧
      ∃ stop, cursor.offset ≤ stop ∧
        newline ∉ (source.bytes.drop cursor.offset).take (stop - cursor.offset) ∧
        (source.bytes[stop]? = some newline ∧ cursor.dropLine.offset = stop + 1 ∨
          stop = source.size ∧ cursor.dropLine.offset = stop) ∧
        cursor.dropLine.scan.1 = cursor.scan.1.filter (stop ≤ ·.span.start) ∧
        ∀ token ∈ source.tokens, token.span.start < stop → token.span.stop ≤ stop := by
  have followed := (Cursor.between_start source).follow moves
  generalize (Cursor.start source.text).follow moves = reached at followed
  obtain ⟨taken, cursor⟩ := reached
  obtain ⟨between, -, tokens, once⟩ := followed
  obtain ⟨stop, further⟩ := cursor.stop_eq_offset_next
  refine ⟨⟨tokens, once⟩, between.within, between.apart, between.scan_eq,
    ⟨between.find?_stream, further, stop.symm⟩, ?_⟩
  obtain ⟨-, stop, behind, single, leads, dropped, whole, stops⟩ := between.dropLine
  have reaches : stop ≤ cursor.dropLine.offset := by
    rcases leads with ⟨-, leads⟩ | ⟨-, leads⟩ <;> omega
  obtain ⟨others, inside⟩ := between.dropped_iff reaches behind whole stops
  exact ⟨stop, behind, single, leads, others, inside⟩

/-- Behind a line that ends in a token of two bytes reading goes on with the next line. -/
theorem resumes_behind_line :
    let source := Source.ofString "a \u00e9\nb"
    let token : Token := ⟨.identifier, "b", ⟨5, 6⟩, 1⟩
    let cursor := ((Cursor.start source.text).follow [.take, .dropLine]).2
    token ∈ source.tokens ∧
      (token.span.stop ≤ cursor.offset ∨ cursor.offset ≤ token.span.start) ∧
      source.stream.find? (cursor.offset ≤ ·.span.start) = some cursor.next.1 ∧
      cursor.next.1 = token := by
  have member : (⟨.identifier, "b", ⟨5, 6⟩, 1⟩ : Token) ∈
      (Source.ofString "a \u00e9\nb").tokens := by decide +kernel
  obtain ⟨-, -, apart, -, ⟨first, -⟩, -⟩ :=
    resumes_between_tokens (Source.ofString "a \u00e9\nb") [.take, .dropLine]
  exact ⟨member, apart _ member, first, by decide +kernel⟩

end Source

end SlotCompiler
