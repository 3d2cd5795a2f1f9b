import SlotCompiler.Proofs.Scanning.Spacing
import SlotCompiler.Proofs.Tree.Relocation

/-!
# Lines

No token goes on behind the end of a line.  So the tokens of a text that consists of several lines
are the tokens of each line on its own, further back in the text (`Source.tokens_joinLines`).
-/

set_option autoImplicit false

namespace SlotCompiler

/-! ## Further back -/

/-- A token a number of bytes and of lines further. -/
def Token.shift (distance lines : Nat) (token : Token) : Token :=
  { token with span := token.span.shift distance, line := lines + token.line }

@[simp] theorem Token.kind_shift (distance lines : Nat) (token : Token) :
    (token.shift distance lines).kind = token.kind := rfl

@[simp] theorem Token.line_shift (distance lines : Nat) (token : Token) :
    (token.shift distance lines).line = lines + token.line := rfl

namespace Cursor

/-- A place a number of bytes and of lines further. -/
def shift (distance lines : Nat) (cursor : Cursor) : Cursor :=
  ⟨cursor.rest, distance + cursor.offset, lines + cursor.line⟩

variable (distance lines : Nat)

theorem skipBlanks_shift (offset line : Nat) (text : List Char) :
    skipBlanks (distance + offset) (lines + line) text =
      (skipBlanks offset line text).shift distance lines := by
  induction text generalizing offset line with
  | nil => rfl
  | cons character text ih =>
      have further : advance (distance + offset) (lines + line) character =
          (distance + (advance offset line character).1,
            lines + (advance offset line character).2) := by
        unfold advance
        split <;> simp only [Nat.add_assoc]
      rw [skipBlanks, skipBlanks]
      split
      · rw [further]
        exact ih _ _
      · rfl

theorem next_shift (cursor : Cursor) : (cursor.shift distance lines).next =
    (cursor.next.1.shift distance lines, cursor.next.2.shift distance lines) := by
  have place := skipBlanks_shift distance lines cursor.offset cursor.line cursor.rest
  unfold next
  rw [shift, place]
  obtain ⟨rest, offset, line⟩ := skipBlanks cursor.offset cursor.line cursor.rest
  cases rest with
  | nil => rfl
  | cons character text => simp only [Token.shift, Span.shift, shift, Nat.add_assoc]

/-- **Scanning depends on the place only through the spans and lines of the tokens.** -/
theorem scan_shift (cursor : Cursor) : (cursor.shift distance lines).scan =
    (cursor.scan.1.map (Token.shift distance lines), cursor.scan.2.shift distance lines) := by
  induction cursor using scan.induct with
  | case1 cursor final =>
      have there : (cursor.shift distance lines).next.1.kind = .endOfFile := by rwa [next_shift]
      rw [scan_of_final final, scan_of_final there, next_shift]
      rfl
  | case2 cursor more tokens final same ih =>
      have there : (cursor.shift distance lines).next.1.kind ≠ .endOfFile := by rwa [next_shift]
      rw [scan_of_more more, scan_of_more there, next_shift, ih]
      rfl

/-! ## A line in front of others -/

section Append

variable {offset line : Nat} {text more : List Char}

theorem skipBlanks_append_of_nil (none : (skipBlanks offset line text).rest = []) :
    skipBlanks offset line (text ++ more) =
      skipBlanks (skipBlanks offset line text).offset (skipBlanks offset line text).line more := by
  induction text generalizing offset line with
  | nil => rfl
  | cons character text ih =>
      rw [skipBlanks] at none
      rw [List.cons_append, skipBlanks, skipBlanks]
      split
      · rename_i blank
        rw [if_pos blank] at none
        exact ih none
      · rename_i other
        rw [if_neg other] at none
        cases none

theorem skipBlanks_append_of_ne_nil (some : (skipBlanks offset line text).rest ≠ []) :
    skipBlanks offset line (text ++ more) =
      ⟨(skipBlanks offset line text).rest ++ more, (skipBlanks offset line text).offset,
        (skipBlanks offset line text).line⟩ := by
  induction text generalizing offset line with
  | nil => exact absurd rfl some
  | cons character text ih =>
      rw [skipBlanks] at some
      rw [List.cons_append, skipBlanks, skipBlanks]
      split
      · rename_i blank
        rw [if_pos blank] at some
        exact ih some
      · rfl

end Append

/-- A place in front of a line, with more lines behind it. -/
def followedBy (cursor : Cursor) (more : List Char) : Cursor :=
  { cursor with rest := cursor.rest ++ '\n' :: more }

/-- The place behind a line and its newline. -/
def behindLine (cursor : Cursor) (more : List Char) : Cursor :=
  ⟨more, cursor.offset + Utf8.size cursor.rest + 1, cursor.line + 1⟩

variable {cursor : Cursor} (more : List Char)

/-- A token of a line is the same in front of further lines. -/
theorem next_followedBy_of_ne (some : cursor.next.1.kind ≠ .endOfFile) :
    (cursor.followedBy more).next = (cursor.next.1, cursor.next.2.followedBy more) := by
  have apart : BeginsBlank ('\n' :: more) := by
    rintro character ⟨⟩
    rfl
  unfold next at some ⊢
  dsimp only at some ⊢
  cases found : (skipBlanks cursor.offset cursor.line cursor.rest).rest with
  | nil =>
      rw [found] at some
      exact absurd rfl some
  | cons character text =>
      have stops : (skipBlanks cursor.offset cursor.line cursor.rest).rest ≠ [] := by
        rw [found]
        exact List.cons_ne_nil _ _
      have place := @skipBlanks_append_of_ne_nil _ _ _ ('\n' :: more) stops
      rw [found] at place
      simp only [followedBy, place, List.cons_append, Lexeme.read_append _ _ apart]

/-- Behind the last token of a line scanning goes on with the next line. -/
theorem next_followedBy_of_eq (inside : '\n' ∉ cursor.rest)
    (none : cursor.next.1.kind = .endOfFile) :
    (cursor.followedBy more).next = (cursor.behindLine more).next := by
  have stops : (skipBlanks cursor.offset cursor.line cursor.rest).rest = [] := by
    cases found : (skipBlanks cursor.offset cursor.line cursor.rest).rest with
    | nil => rfl
    | cons character text =>
        unfold next at none
        simp only [found] at none
        exact absurd none (Lexeme.kind_ne_endOfFile character text)
  obtain ⟨blanks, whole, -, offset, line⟩ :=
    skipBlanks_spec cursor.offset cursor.line cursor.rest
  rw [stops, List.append_nil] at whole
  rw [← whole] at offset line
  rw [List.count_eq_zero_of_not_mem inside, Nat.add_zero] at line
  have place := @skipBlanks_append_of_nil _ _ _ ('\n' :: more) stops
  have newline : isBlank '\n' = true := rfl
  rw [offset, line, skipBlanks, if_pos newline] at place
  unfold next
  simp only [followedBy, behindLine, place]
  rfl

theorem scan_of_next {first second : Cursor} (same : first.next = second.next) :
    first.scan = second.scan := by
  by_cases final : first.next.1.kind = .endOfFile
  · have there : second.next.1.kind = .endOfFile := by rwa [← same]
    rw [scan_of_final final, scan_of_final there, same]
  · have there : second.next.1.kind ≠ .endOfFile := by rwa [← same]
    rw [scan_of_more final, scan_of_more there, same]

theorem rest_next_of_line (inside : '\n' ∉ cursor.rest) :
    '\n' ∉ cursor.next.2.rest ∧ cursor.next.1.line = cursor.line ∧
      cursor.next.2.behindLine more = cursor.behindLine more := by
  obtain ⟨blanks, part, whole, -, -, span, stop, line, same, -⟩ := cursor.next_spec
  rw [whole, List.mem_append, not_or] at inside
  rw [List.count_eq_zero_of_not_mem inside.1, Nat.add_zero] at line
  refine ⟨fun member => inside.2 (List.mem_append_right part member), line, ?_⟩
  rw [behindLine, behindLine, same, line, stop, span, whole]
  simp only [Utf8.size_append, Nat.add_assoc]

/-- **A line in front of others is scanned as on its own**, and then the others are. -/
theorem scan_followedBy (cursor : Cursor) (more : List Char) : '\n' ∉ cursor.rest →
    (cursor.followedBy more).scan =
      (cursor.scan.1 ++ (cursor.behindLine more).scan.1, (cursor.behindLine more).scan.2) := by
  induction cursor using scan.induct with
  | case1 cursor none =>
      intro inside
      rw [scan_of_next (next_followedBy_of_eq more inside none)]
      rw [scan_of_final none, List.nil_append]
  | case2 cursor some tokens final same ih =>
      intro inside
      obtain ⟨insideNext, -, behind⟩ := rest_next_of_line more inside
      have there : (cursor.followedBy more).next.1.kind ≠ .endOfFile := by
        rwa [next_followedBy_of_ne more some]
      rw [scan_of_more some, scan_of_more there, next_followedBy_of_ne more some, ih insideNext,
        behind]
      rfl

/-- All tokens of a line stand on it. -/
theorem line_of_mem_scan (cursor : Cursor) : '\n' ∉ cursor.rest →
    ∀ token ∈ cursor.scan.1, token.line = cursor.line := by
  induction cursor using scan.induct with
  | case1 cursor none =>
      intro _
      rw [scan_of_final none]
      exact List.forall_mem_nil _
  | case2 cursor some tokens final same ih =>
      intro inside
      obtain ⟨insideNext, line, behind⟩ := rest_next_of_line [] inside
      have lines : cursor.next.2.line = cursor.line := Nat.succ_inj.mp (congrArg Cursor.line behind)
      rw [scan_of_more some, List.forall_mem_cons]
      exact ⟨line, fun token member => (ih insideNext token member).trans lines⟩

end Cursor

/-! ## The tokens of lines -/

/-- Some lines as one text. -/
def joinLines (lines : List (List Char)) : List Char := List.intercalate ['\n'] lines

namespace Source

variable {line : List Char}

theorem tokens_joinLines_nil : (ofText (joinLines [])).tokens = [] :=
  congrArg Prod.fst (@Cursor.scan_of_final (Cursor.start []) rfl)

theorem line_of_mem_tokens (inside : '\n' ∉ line) :
    ∀ token ∈ (ofText line).tokens, token.line = 0 :=
  (Cursor.start line).line_of_mem_scan inside

/-- **The tokens of some lines** are those of the first line and, further back, those of the other
ones. -/
theorem tokens_joinLines (inside : '\n' ∉ line) (lines : List (List Char)) :
    (ofText (joinLines (line :: lines))).tokens = (ofText line).tokens ++
      (ofText (joinLines lines)).tokens.map (Token.shift (Utf8.size line + 1) 1) := by
  cases lines with
  | nil =>
      rw [tokens_joinLines_nil, List.map_nil, List.append_nil, joinLines, List.intercalate_singleton]
  | cons next lines =>
      have whole : joinLines (line :: next :: lines) = line ++ '\n' :: joinLines (next :: lines) := by
        rw [joinLines, joinLines, List.intercalate_cons_cons, List.append_assoc,
          List.singleton_append]
      have first := congrArg Prod.fst
        ((Cursor.start line).scan_followedBy (joinLines (next :: lines)) inside)
      have others := congrArg Prod.fst
        (Cursor.scan_shift (Utf8.size line + 1) 1 (Cursor.start (joinLines (next :: lines))))
      have behind : (Cursor.start line).behindLine (joinLines (next :: lines)) =
          (Cursor.start (joinLines (next :: lines))).shift (Utf8.size line + 1) 1 := by
        simp only [Cursor.behindLine, Cursor.start, Cursor.shift, Nat.zero_add, Nat.add_zero]
      rw [behind] at first
      rw [whole]
      exact first.trans (congrArg (_ ++ ·) others)

end Source

end SlotCompiler
