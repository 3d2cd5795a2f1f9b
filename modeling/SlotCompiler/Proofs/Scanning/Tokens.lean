import Mathlib.Data.List.Pairwise
import SlotCompiler.Token.Cursor

/-!
# Tokens and the text they come from

Every step of a cursor passes over some blanks and then over the characters of one token
(`Cursor.next_spec`).  So the tokens of a source stand in it in order and without overlap, each
selects its own characters (`Source.extract_span`), and the lines of the tokens never go down.
-/

set_option autoImplicit false

namespace SlotCompiler

/-! ## Sizes of texts -/

namespace Utf8

@[simp] theorem size_nil : size [] = 0 := rfl

@[simp] theorem size_cons (character : Char) (text : List Char) :
    size (character :: text) = character.utf8Size + size text := rfl

@[simp] theorem size_append (first second : List Char) :
    size (first ++ second) = size first + size second := by
  induction first with
  | nil => rw [List.nil_append, size_nil, Nat.zero_add]
  | cons character first ih => rw [List.cons_append, size_cons, ih, size_cons, Nat.add_assoc]

theorem size_pos {text : List Char} (some : text ≠ []) : 0 < size text := by
  cases text with
  | nil => exact absurd rfl some
  | cons character text =>
      have := character.utf8Size_pos
      rw [size_cons]
      omega

end Utf8

namespace Source

theorem dropBytes?_append (before after : List Char) :
    dropBytes? (Utf8.size before) (before ++ after) = some after := by
  induction before with
  | nil => cases after <;> rfl
  | cons character before ih =>
      have positive := character.utf8Size_pos
      obtain ⟨count, more⟩ : ∃ count, Utf8.size (character :: before) = count + 1 :=
        Nat.exists_eq_succ_of_ne_zero (by rw [Utf8.size_cons]; omega)
      have left : count + 1 - character.utf8Size = Utf8.size before := by
        rw [← more, Utf8.size_cons]
        omega
      rw [more, List.cons_append, dropBytes?, left, ih, if_pos]
      rw [← more, Utf8.size_cons]
      omega

theorem takeBytes?_append (text after : List Char) :
    takeBytes? (Utf8.size text) (text ++ after) = some text := by
  induction text with
  | nil => cases after <;> rfl
  | cons character text ih =>
      have positive := character.utf8Size_pos
      obtain ⟨count, more⟩ : ∃ count, Utf8.size (character :: text) = count + 1 :=
        Nat.exists_eq_succ_of_ne_zero (by rw [Utf8.size_cons]; omega)
      have left : count + 1 - character.utf8Size = Utf8.size text := by
        rw [← more, Utf8.size_cons]
        omega
      rw [more, List.cons_append, takeBytes?, left, ih, if_pos]
      · rfl
      · rw [← more, Utf8.size_cons]
        omega

/-- The span of a part of a text selects that part. -/
theorem extract_append {source : Source} {before part after : List Char}
    (whole : source.text = before ++ (part ++ after)) :
    source.extract ⟨Utf8.size before, Utf8.size before + Utf8.size part⟩ =
      String.ofList part := by
  rw [extract, select?, if_pos (Nat.le_add_right _ _), whole, dropBytes?_append,
    Option.bind_some, Nat.add_sub_cancel_left, takeBytes?_append]
  rfl

end Source

/-! ## One step of a cursor -/

namespace Lexeme

/-- A lexeme is cut off the front of the text. -/
theorem text_append_rest (character : Char) (text : List Char) :
    (read character text).text ++ (read character text).rest = character :: text := by
  unfold read
  split
  · exact congrArg (character :: ·) List.takeWhile_append_dropWhile
  · split
    · exact congrArg (character :: ·) List.takeWhile_append_dropWhile
    · split <;> rfl

theorem text_ne_nil (character : Char) (text : List Char) : (read character text).text ≠ [] := by
  unfold read
  split
  · exact List.cons_ne_nil _ _
  · split
    · exact List.cons_ne_nil _ _
    · split <;> exact List.cons_ne_nil _ _

theorem kind_ne_endOfFile (character : Char) (text : List Char) :
    (read character text).kind ≠ .endOfFile := by
  unfold read
  split
  · unfold Token.Kind.ofWord
    dsimp only
    split <;> exact nofun
  · split
    · exact nofun
    · split <;> exact nofun

/-- A symbol is the token of its character. -/
theorem character_of_symbol {character : Char} {text : List Char} {mark : Symbol}
    (found : (read character text).kind = .symbol mark) : mark.character = character := by
  unfold read at found
  split at found
  · unfold Token.Kind.ofWord at found
    dsimp only at found
    split at found <;> cases found
  · split at found
    · cases found
    · split at found
      · rename_i symbol same
        cases found
        have spelled := List.find?_some same
        exact beq_iff_eq.mp spelled
      · cases found

end Lexeme

namespace Cursor

/-- Blanks are passed over up to the first character that is none. -/
theorem skipBlanks_spec (offset line : Nat) (text : List Char) :
    ∃ blanks, text = blanks ++ (skipBlanks offset line text).rest ∧
      (∀ character ∈ blanks, isBlank character = true) ∧
      (skipBlanks offset line text).offset = offset + Utf8.size blanks ∧
      (skipBlanks offset line text).line = line + blanks.count '\n' := by
  induction text generalizing offset line with
  | nil => exact ⟨[], rfl, by simp, rfl, rfl⟩
  | cons character text ih =>
      unfold skipBlanks
      split
      · rename_i blank
        obtain ⟨blanks, split_, allBlank, offset_, line_⟩ :=
          ih (offset + character.utf8Size) (if character = '\n' then line + 1 else line)
        refine ⟨character :: blanks, congrArg (character :: ·) split_, ?_, ?_, ?_⟩
        · intro other member
          rcases List.mem_cons.mp member with rfl | member
          · exact blank
          · exact allBlank other member
        · simp only [advance]
          rw [offset_, Utf8.size_cons, Nat.add_assoc]
        · simp only [advance]
          rw [line_, List.count_cons]
          by_cases newline : character = '\n'
          · simp [newline]
            omega
          · simp [newline]
      · exact ⟨[], rfl, by simp, rfl, rfl⟩

/-- **A step passes over blanks and then over one token**, which is empty only at the end. -/
theorem next_spec (cursor : Cursor) :
    ∃ blanks part, cursor.rest = blanks ++ (part ++ cursor.next.2.rest) ∧
      (∀ character ∈ blanks, isBlank character = true) ∧
      cursor.next.1.text = String.ofList part ∧
      cursor.next.1.span = ⟨cursor.offset + Utf8.size blanks,
        cursor.offset + Utf8.size blanks + Utf8.size part⟩ ∧
      cursor.next.2.offset = cursor.next.1.span.stop ∧
      cursor.next.1.line = cursor.line + blanks.count '\n' ∧
      cursor.next.2.line = cursor.next.1.line ∧
      (cursor.next.1.kind ≠ .endOfFile → part ≠ []) := by
  obtain ⟨blanks, whole, allBlank, offset, line⟩ :=
    skipBlanks_spec cursor.offset cursor.line cursor.rest
  unfold next
  dsimp only
  generalize skipBlanks cursor.offset cursor.line cursor.rest = place at whole offset line ⊢
  split
  · rename_i none
    refine ⟨blanks, [], ?_, allBlank, rfl, ?_, rfl, line, rfl, fun kind => absurd rfl kind⟩
    · exact whole
    · rw [offset]
      rfl
  · rename_i character text some
    rw [some] at whole
    refine ⟨blanks, (Lexeme.read character text).text, ?_, allBlank, rfl, ?_, rfl, line, rfl,
      fun _ => Lexeme.text_ne_nil character text⟩
    · rw [Lexeme.text_append_rest]
      exact whole
    · rw [offset]

/-- A cursor stands in the text of a source, at the place of its offset. -/
def Within (source : Source) (cursor : Cursor) : Prop :=
  ∃ before, source.text = before ++ cursor.rest ∧ cursor.offset = Utf8.size before

theorem within_start (source : Source) : (start source.text).Within source := ⟨[], rfl, rfl⟩

/-- A step stays in the text, and its token selects its own characters. -/
theorem Within.next {source : Source} {cursor : Cursor} (within : cursor.Within source) :
    cursor.next.2.Within source ∧ source.extract cursor.next.1.span = cursor.next.1.text := by
  obtain ⟨before, whole, offset⟩ := within
  obtain ⟨blanks, part, split_, -, text, span, stop, -, -, -⟩ := cursor.next_spec
  have here : source.text = (before ++ blanks) ++ (part ++ cursor.next.2.rest) := by
    rw [whole, split_, List.append_assoc]
  constructor
  · refine ⟨before ++ blanks ++ part, ?_, ?_⟩
    · rw [here, List.append_assoc _ part]
    · rw [stop, span, offset]
      simp only [Utf8.size_append]
  · rw [span, text, offset, ← Utf8.size_append]
    exact Source.extract_append here

/-- A token lies behind the place where the step began. -/
theorem le_next (cursor : Cursor) :
    cursor.offset ≤ cursor.next.1.span.start ∧ cursor.next.1.span.start ≤ cursor.next.1.span.stop ∧
      cursor.line ≤ cursor.next.1.line := by
  obtain ⟨blanks, part, -, -, -, span, -, line, -, -⟩ := cursor.next_spec
  rw [span, line]
  exact ⟨Nat.le_add_right _ _, Nat.le_add_right _ _, Nat.le_add_right _ _⟩

theorem start_lt_stop_next {cursor : Cursor} (more : cursor.next.1.kind ≠ .endOfFile) :
    cursor.next.1.span.start < cursor.next.1.span.stop := by
  obtain ⟨blanks, part, -, -, -, span, -, -, -, some⟩ := cursor.next_spec
  rw [span]
  exact Nat.lt_add_of_pos_right (Utf8.size_pos (some more))

/-! ## All tokens from a place on -/

theorem scan_of_final {cursor : Cursor} (final : cursor.next.1.kind = .endOfFile) :
    cursor.scan = ([], cursor.next.1) := by
  rw [scan, if_pos final]

theorem scan_of_more {cursor : Cursor} (more : cursor.next.1.kind ≠ .endOfFile) :
    cursor.scan = (cursor.next.1 :: cursor.next.2.scan.1, cursor.next.2.scan.2) := by
  rw [scan, if_neg more]

/-- There are no more tokens than characters. -/
theorem length_scan_le (cursor : Cursor) : cursor.scan.1.length ≤ cursor.rest.length := by
  induction cursor using scan.induct with
  | case1 cursor final =>
      rw [scan_of_final final]
      exact Nat.zero_le _
  | case2 cursor more tokens final same ih =>
      rw [scan_of_more more, List.length_cons]
      exact Nat.lt_of_le_of_lt ih (length_rest_next_lt more)

/-- Only the last token is that of the end. -/
theorem kind_of_mem_scan (cursor : Cursor) : ∀ token ∈ cursor.scan.1, token.kind ≠ .endOfFile := by
  induction cursor using scan.induct with
  | case1 cursor final =>
      rw [scan_of_final final]
      exact List.forall_mem_nil _
  | case2 cursor more tokens final same ih =>
      rw [scan_of_more more, List.forall_mem_cons]
      exact ⟨more, ih⟩

/-- Every token but the last one selects its own characters, and has some. -/
theorem extract_of_mem_scan {source : Source} (cursor : Cursor) : cursor.Within source →
    ∀ token ∈ cursor.scan.1, source.extract token.span = token.text ∧
      token.span.start < token.span.stop := by
  induction cursor using scan.induct with
  | case1 cursor final =>
      intro _
      rw [scan_of_final final]
      exact List.forall_mem_nil _
  | case2 cursor more tokens final same ih =>
      intro within
      rw [scan_of_more more, List.forall_mem_cons]
      exact ⟨⟨within.next.2, start_lt_stop_next more⟩, ih within.next.1⟩

/-- Tokens lie behind the place where scanning began. -/
theorem le_of_mem_scan (cursor : Cursor) : ∀ token ∈ cursor.scan.1 ++ [cursor.scan.2],
    cursor.offset ≤ token.span.start ∧ cursor.line ≤ token.line := by
  induction cursor using scan.induct with
  | case1 cursor final =>
      rw [scan_of_final final]
      intro token member
      rw [List.mem_singleton.mp member]
      exact ⟨cursor.le_next.1, cursor.le_next.2.2⟩
  | case2 cursor more tokens final same ih =>
      obtain ⟨-, -, -, -, -, -, stop, -, lineAfter, -⟩ := cursor.next_spec
      obtain ⟨start, inside, line⟩ := cursor.le_next
      rw [scan_of_more more]
      intro token member
      rcases List.mem_cons.mp member with rfl | member
      · exact ⟨start, line⟩
      · obtain ⟨further, below⟩ := ih token member
        rw [stop] at further
        rw [lineAfter] at below
        exact ⟨Nat.le_trans (Nat.le_trans start inside) further, Nat.le_trans line below⟩

theorem mem_of_symbol_next {cursor : Cursor} {mark : Symbol}
    (found : cursor.next.1.kind = .symbol mark) : mark.character ∈ cursor.rest := by
  obtain ⟨blanks, whole, -⟩ := skipBlanks_spec cursor.offset cursor.line cursor.rest
  unfold next at found
  dsimp only at found
  rw [whole]
  refine List.mem_append_right blanks ?_
  split at found
  · cases found
  · rename_i character text some
    rw [some, Lexeme.character_of_symbol found]
    exact List.mem_cons_self

/-- The character of a symbol among the tokens is in the text. -/
theorem mem_of_symbol_scan {mark : Symbol} (cursor : Cursor) :
    ∀ token ∈ cursor.scan.1, token.kind = .symbol mark → mark.character ∈ cursor.rest := by
  induction cursor using scan.induct with
  | case1 cursor final =>
      rw [scan_of_final final]
      exact List.forall_mem_nil _
  | case2 cursor more tokens final same ih =>
      obtain ⟨blanks, part, whole, -⟩ := cursor.next_spec
      rw [scan_of_more more, List.forall_mem_cons]
      refine ⟨mem_of_symbol_next, fun token member symbol => ?_⟩
      rw [whole]
      exact List.mem_append_right blanks (List.mem_append_right part (ih token member symbol))

/-- Tokens stand in order. -/
theorem pairwise_scan (cursor : Cursor) : (cursor.scan.1 ++ [cursor.scan.2]).Pairwise
    fun first second => first.span.stop ≤ second.span.start ∧ first.line ≤ second.line := by
  induction cursor using scan.induct with
  | case1 cursor final =>
      rw [scan_of_final final]
      exact List.pairwise_singleton _ _
  | case2 cursor more tokens final same ih =>
      obtain ⟨-, -, -, -, -, -, stop, -, lineAfter, -⟩ := cursor.next_spec
      rw [scan_of_more more]
      refine List.pairwise_cons.mpr ⟨?_, ih⟩
      intro token member
      obtain ⟨start, below⟩ := cursor.next.2.le_of_mem_scan token member
      rw [stop] at start
      rw [lineAfter] at below
      exact ⟨start, below⟩

end Cursor

/-! ## The tokens of a source -/

/-- What stands in front of a place in a list with a last element, and behind that place. -/
theorem exists_rest_of_concat {α : Type} {elements before behind : List α} {last element : α}
    (whole : elements ++ [last] = before ++ element :: behind) :
    ∃ rest, elements = before ++ rest ∧ rest ++ [last] = element :: behind := by
  rcases List.append_eq_append_iff.mp whole with ⟨more, same, final⟩ | ⟨rest, same, final⟩
  · obtain ⟨rfl, final⟩ | ⟨_, -, none⟩ := List.cons_eq_append_iff.mp final
    · rw [List.append_nil] at same
      exact ⟨[], by rw [same, List.append_nil], final⟩
    · cases (List.append_eq_nil_iff.mp none.symm).2
  · exact ⟨rest, same, final.symm⟩

namespace Source

variable (source : Source)

/-- The tokens of a source, the last one of all included. -/
def stream : List Token := source.tokens ++ [source.endToken]

theorem length_tokens_le : source.tokens.length ≤ source.text.length :=
  (Cursor.start source.text).length_scan_le

theorem kind_ne_endOfFile {token : Token} (member : token ∈ source.tokens) :
    token.kind ≠ .endOfFile :=
  (Cursor.start source.text).kind_of_mem_scan token member

/-- **Every token selects its own text.** -/
theorem extract_span {token : Token} (member : token ∈ source.tokens) :
    source.extract token.span = token.text :=
  ((Cursor.start source.text).extract_of_mem_scan (Cursor.within_start source) token member).1

/-- Every token before the end has characters. -/
theorem start_lt_stop {token : Token} (member : token ∈ source.tokens) :
    token.span.start < token.span.stop :=
  ((Cursor.start source.text).extract_of_mem_scan (Cursor.within_start source) token member).2

/-- The tokens stand in order, and their lines never go down. -/
theorem pairwise_tokens : (source.tokens ++ [source.endToken]).Pairwise fun first second =>
    first.span.stop ≤ second.span.start ∧ first.line ≤ second.line :=
  (Cursor.start source.text).pairwise_scan

end Source

end SlotCompiler
