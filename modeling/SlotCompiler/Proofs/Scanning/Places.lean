import SlotCompiler.Proofs.Scanning.Lines
import SlotCompiler.Proofs.Text.Encoding

/-!
# Places between tokens

A cursor that is led over some tokens has passed over a part of the text and stands in front of the
next token (`Cursor.Passes`).  So in front of every token the text can be parted
(`Source.exists_parts`): the tokens in front stand in the first part, also when something else
follows it with a blank in between (`Source.Parts.tokens_front`), and the others are those of the
second part on its own (`Source.Parts.tokens_back`).  All of the first part is ASCII but characters
outside the vocabulary, each of which is a token (`Source.Parts.invalid_of_not_ascii`).
-/

set_option autoImplicit false

namespace SlotCompiler

/-- An element of two lists put together stands in the first or in the second one. -/
theorem split_of_append_eq {α : Type} {first second front back : List α} {element : α}
    (whole : first ++ second = front ++ element :: back) :
    (∃ more, first = front ++ element :: more) ∨
      ∃ more, front = first ++ more ∧ second = more ++ element :: back := by
  rcases List.append_eq_append_iff.mp whole with ⟨more, same, rest⟩ | ⟨more, same, rest⟩
  · exact .inr ⟨more, same, rest⟩
  · cases more with
    | nil => exact .inr ⟨[], by simpa using same.symm, rest.symm⟩
    | cons next more =>
        obtain ⟨rfl, rfl⟩ := List.cons.inj rest
        exact .inl ⟨more, same⟩

/-! ## Lexemes in a shorter text -/

section Cut

variable {part : Char → Bool} {text rest back : List Char}

/-- What is taken off the front of a text is taken off a shorter text, if it ends in there. -/
theorem takeWhile_of_dropWhile_append (left : (text ++ back).dropWhile part = rest ++ back) :
    text.dropWhile part = rest ∧ text.takeWhile part = (text ++ back).takeWhile part := by
  induction text with
  | nil =>
      have whole := @List.takeWhile_append_dropWhile _ part back
      rw [List.nil_append] at left
      rw [left, ← List.append_assoc, List.append_left_eq_self, List.append_eq_nil_iff] at whole
      exact ⟨whole.2.symm, whole.1.symm⟩
  | cons character text ih =>
      rw [List.cons_append, List.dropWhile_cons] at left
      rw [List.cons_append, List.dropWhile_cons, List.takeWhile_cons, List.takeWhile_cons]
      split
      · rename_i taken
        rw [if_pos taken] at left
        exact ⟨(ih left).1, congrArg (character :: ·) (ih left).2⟩
      · rename_i other
        rw [if_neg other, ← List.cons_append] at left
        exact ⟨List.append_cancel_right left, rfl⟩

end Cut

namespace Lexeme

/-- **A lexeme is the same in a shorter text**, if it ends in there. -/
theorem read_cut {character : Char} {text rest back : List Char}
    (left : (read character (text ++ back)).rest = rest ++ back) :
    read character text =
      ⟨(read character (text ++ back)).kind, (read character (text ++ back)).text, rest⟩ := by
  unfold read at left ⊢
  by_cases word : isWordStart character = true
  · simp only [if_pos word] at left ⊢
    obtain ⟨dropped, taken⟩ := takeWhile_of_dropWhile_append left
    rw [dropped, taken]
  · by_cases digit : character.isDigit = true
    · simp only [if_neg word, if_pos digit] at left ⊢
      obtain ⟨dropped, taken⟩ := takeWhile_of_dropWhile_append left
      rw [dropped, taken]
    · simp only [if_neg word, if_neg digit] at left ⊢
      cases symbol : Symbol.ofCharacter? character <;> simp only [symbol] at left ⊢ <;>
        rw [List.append_cancel_right left]

/-- A lexeme begins with the character it was read from. -/
theorem exists_text_eq_cons (character : Char) (more : List Char) :
    ∃ inside, (read character more).text = character :: inside ∧
      more = inside ++ (read character more).rest := by
  obtain ⟨first, inside, spelled⟩ := List.exists_cons_of_ne_nil (text_ne_nil character more)
  have whole := text_append_rest character more
  rw [spelled, List.cons_append, List.cons.injEq] at whole
  exact ⟨inside, whole.1 ▸ spelled, whole.2.symm⟩

/-- **A lexeme with some text behind it** is the same lexeme, with that text behind it, wherever a
blank follows. -/
theorem exists_read_eq {character : Char} {more text back next : List Char}
    (left : (read character more).rest = text ++ back) (apart : BeginsBlank next) :
    ∃ inside, (read character more).text = character :: inside ∧
      read character (inside ++ (text ++ next)) =
        ⟨(read character more).kind, (read character more).text, text ++ next⟩ := by
  obtain ⟨inside, spelled, whole⟩ := exists_text_eq_cons character more
  refine ⟨inside, spelled, ?_⟩
  rw [left, ← List.append_assoc] at whole
  rw [whole] at left ⊢
  rw [← List.append_assoc, read_append character (inside ++ text) apart, read_cut left]

end Lexeme

/-! ## Steps and blanks -/

namespace Cursor

theorem skipBlanks_of_apart {text : List Char}
    (stops : ∀ character ∈ text.head?, isBlank character = false) (offset line : Nat) :
    skipBlanks offset line text = ⟨text, offset, line⟩ := by
  cases text with
  | nil => rfl
  | cons character text => rw [skipBlanks, if_neg (by rw [stops character rfl]; decide)]

/-- The text behind blanks begins with none. -/
theorem apart_skipBlanks (offset line : Nat) (text : List Char) :
    ∀ character ∈ (skipBlanks offset line text).rest.head?, isBlank character = false := by
  induction text generalizing offset line with
  | nil => exact nofun
  | cons character text ih =>
      rw [skipBlanks]
      split
      · exact ih _ _
      · rename_i other
        rintro _ ⟨⟩
        exact Bool.eq_false_iff.mpr other

/-- A step from behind the blanks is a step from in front of them. -/
theorem next_skipBlanks (cursor : Cursor) :
    (skipBlanks cursor.offset cursor.line cursor.rest).next = cursor.next := by
  have stays := skipBlanks_of_apart
    (apart_skipBlanks cursor.offset cursor.line cursor.rest)
    (skipBlanks cursor.offset cursor.line cursor.rest).offset
    (skipBlanks cursor.offset cursor.line cursor.rest).line
  unfold next
  rw [stays]

/-- A token that does not come behind blanks begins where the cursor stands. -/
theorem start_next_of_apart {cursor : Cursor}
    (stops : ∀ character ∈ cursor.rest.head?, isBlank character = false) :
    cursor.next.1.span.start = cursor.offset ∧ cursor.next.1.line = cursor.line := by
  unfold next
  rw [skipBlanks_of_apart stops]
  dsimp only
  split <;> exact ⟨rfl, rfl⟩

/-- A step from in front of some blanks is a step from behind them. -/
theorem next_of_blanks_append {cursor : Cursor} {blanks more : List Char}
    (here : cursor.rest = blanks ++ more) (blank : ∀ other ∈ blanks, isBlank other = true) :
    cursor.next = (Cursor.mk more (cursor.offset + Utf8.size blanks)
      (cursor.line + blanks.count '\n')).next := by
  have none := @skipBlanks_append blanks [] cursor.offset cursor.line blank nofun
  rw [List.append_nil] at none
  have place := @skipBlanks_append_of_nil _ _ _ more none
  obtain ⟨passed, whole, -, offset, line⟩ := skipBlanks_spec cursor.offset cursor.line blanks
  rw [none, List.append_nil] at whole
  rw [← whole] at offset line
  unfold next
  rw [here, place, offset, line]

/-- Behind the blanks in front of a token stands its lexeme. -/
theorem exists_rest_of_more {cursor : Cursor} (more : cursor.next.1.kind ≠ .endOfFile) :
    ∃ blanks character rest, cursor.rest = blanks ++ character :: rest ∧
      (∀ other ∈ blanks, isBlank other = true) ∧ isBlank character = false := by
  obtain ⟨blanks, whole, blank, -⟩ := skipBlanks_spec cursor.offset cursor.line cursor.rest
  have apart := apart_skipBlanks cursor.offset cursor.line cursor.rest
  cases left : (skipBlanks cursor.offset cursor.line cursor.rest).rest with
  | nil =>
      unfold next at more
      simp [left] at more
  | cons character rest =>
      rw [left] at whole apart
      exact ⟨blanks, character, rest, whole, blank, apart character rfl⟩

/-- Where no token comes any more, and no blank, nothing comes. -/
theorem rest_eq_nil_of_scan {cursor : Cursor} (none : cursor.scan.1 = [])
    (stops : ∀ character ∈ cursor.rest.head?, isBlank character = false) : cursor.rest = [] := by
  cases here : cursor.rest with
  | nil => rfl
  | cons character more =>
      rw [here] at stops
      have step := @next_of_rest cursor [] more character here (List.forall_mem_nil _)
        (stops character rfl)
      have kind : cursor.next.1.kind ≠ .endOfFile := by
        rw [step]
        exact Lexeme.kind_ne_endOfFile character more
      rw [scan_of_more kind] at none
      cases none

/-- The first token of a scan is that of the first step. -/
theorem head?_scan (cursor : Cursor) :
    (cursor.scan.1 ++ [cursor.scan.2]).head? = some cursor.next.1 := by
  by_cases final : cursor.next.1.kind = .endOfFile
  · rw [scan_of_final final]
    rfl
  · rw [scan_of_more final]
    rfl

end Cursor

/-! ## The characters of a lexeme -/

namespace Lexeme

variable {character : Char} {more : List Char}

/-- No lexeme goes on over a blank. -/
theorem isBlank_of_mem_text (apart : isBlank character = false) :
    ∀ other ∈ (read character more).text, isBlank other = false := by
  have taken : ∀ {part : Char → Bool}, (∀ {other}, isBlank other = true → part other = false) →
      ∀ other ∈ character :: more.takeWhile part, isBlank other = false := by
    intro part blanks other member
    rcases List.mem_cons.mp member with rfl | member
    · exact apart
    · refine Bool.eq_false_iff.mpr fun blank => ?_
      have inside := @List.mem_takeWhile_imp Char part _ _ member
      rw [blanks blank] at inside
      cases inside
  unfold read
  split
  · exact taken not_isWordPart_of_isBlank
  · split
    · exact taken not_isDigit_of_isBlank
    · split <;> exact List.forall_mem_singleton.mpr apart

/-- No lexeme goes on over a newline. -/
theorem count_newline (apart : isBlank character = false) :
    (read character more).text.count '\n' = 0 := by
  refine List.count_eq_zero_of_not_mem fun member => ?_
  cases isBlank_of_mem_text apart _ member

end Lexeme

theorem isAscii_of_isBlank {character : Char} (blank : isBlank character = true) :
    IsAscii character := by
  simp only [isBlank, Bool.or_eq_true, decide_eq_true_eq] at blank
  rcases blank with (((rfl | rfl) | rfl) | rfl) | rfl <;> decide

theorem isAscii_of_isDigit {character : Char} (digit : character.isDigit = true) :
    IsAscii character := by
  have high : character.val.toNat ≤ 57 := (Char.isDigit_iff_toNat.mp digit).2
  unfold IsAscii Char.toNat
  omega

theorem isAscii_of_isWordStart {character : Char} (starts : isWordStart character = true) :
    IsAscii character := by
  change (character.isUpper || character.isLower || decide (character = '_')) = true at starts
  rw [Bool.or_eq_true, Bool.or_eq_true, decide_eq_true_eq] at starts
  unfold IsAscii Char.toNat
  rcases starts with (upper | lower) | rfl
  · have high : character.val.toNat ≤ 90 := UInt32.le_iff_toNat_le.mp (of_decide_eq_true upper).2
    omega
  · have high : character.val.toNat ≤ 122 :=
      UInt32.le_iff_toNat_le.mp (of_decide_eq_true (Bool.and_eq_true_iff.mp lower).2)
    omega
  · decide

theorem isAscii_of_isWordPart {character : Char} (part : isWordPart character = true) :
    IsAscii character := by
  change (character.isAlpha || character.isDigit || decide (character = '_')) = true at part
  rw [Bool.or_right_comm, Bool.or_eq_true] at part
  exact part.elim isAscii_of_isWordStart isAscii_of_isDigit

theorem isAscii_symbol (symbol : Symbol) : IsAscii symbol.character := by
  cases symbol <;> decide

/-- **A character outside ASCII is outside the vocabulary.** -/
theorem Lexeme.isAscii_of_valid {character : Char} {more : List Char}
    (valid : (read character more).kind ≠ .invalid) :
    ∀ other ∈ (read character more).text, IsAscii other := by
  have taken : ∀ {part : Char → Bool}, (∀ {other}, part other = true → IsAscii other) →
      IsAscii character → ∀ other ∈ character :: more.takeWhile part, IsAscii other := by
    intro part ascii first
    rw [List.forall_mem_cons]
    exact ⟨first, fun other member => ascii (@List.mem_takeWhile_imp Char part _ _ member)⟩
  unfold read at valid ⊢
  split
  · rename_i word
    exact taken isAscii_of_isWordPart (isAscii_of_isWordStart word)
  · split
    · rename_i digit
      exact taken isAscii_of_isDigit (isAscii_of_isDigit digit)
    · rename_i other digit
      rw [if_neg other, if_neg digit] at valid
      cases found : Symbol.ofCharacter? character with
      | some symbol =>
          have same : symbol.character = character := beq_iff_eq.mp (List.find?_some found :)
          exact List.forall_mem_singleton.mpr (same ▸ isAscii_symbol symbol)
      | none =>
          rw [found] at valid
          exact absurd rfl valid

namespace Cursor

/-! ## Passing over tokens -/

/-- A cursor passes over some tokens, which are all tokens of a part of the text, to a place in
front of the next token. -/
inductive Passes : Cursor → List Token → List Char → Cursor → Prop where
  | blanks {cursor place : Cursor} {blanks : List Char} (here : cursor.rest = blanks ++ place.rest)
      (blank : ∀ character ∈ blanks, isBlank character = true)
      (offset : place.offset = cursor.offset + Utf8.size blanks)
      (line : place.line = cursor.line + blanks.count '\n')
      (stops : ∀ character ∈ place.rest.head?, isBlank character = false) :
      Passes cursor [] blanks place
  | token {cursor place : Cursor} {tokens : List Token} {text blanks more : List Char}
      {character : Char} (here : cursor.rest = blanks ++ character :: more)
      (blank : ∀ other ∈ blanks, isBlank other = true) (apart : isBlank character = false)
      (further : Passes cursor.next.2 tokens text place) :
      Passes cursor (cursor.next.1 :: tokens)
        (blanks ++ ((Lexeme.read character more).text ++ text)) place

/-- A cursor passes over the blanks in front of it. -/
theorem passes_blanks (cursor : Cursor) :
    ∃ text place, cursor.Passes [] text place ∧ place.scan = cursor.scan := by
  obtain ⟨blanks, here, blank, offset, line⟩ :=
    skipBlanks_spec cursor.offset cursor.line cursor.rest
  exact ⟨blanks, _, .blanks here blank offset line (apart_skipBlanks _ _ _),
    scan_of_next cursor.next_skipBlanks⟩

/-- **In front of every token there is a place**, from where that token and the following ones are
scanned. -/
theorem exists_passes (cursor : Cursor) {before behind : List Token}
    (whole : cursor.scan.1 = before ++ behind) :
    ∃ text place, cursor.Passes before text place ∧ place.scan = (behind, cursor.scan.2) := by
  induction before generalizing cursor with
  | nil =>
      obtain ⟨text, place, passes, same⟩ := cursor.passes_blanks
      exact ⟨text, place, passes, same.trans (Prod.ext whole rfl)⟩
  | cons token before ih =>
      by_cases final : cursor.next.1.kind = .endOfFile
      · rw [scan_of_final final] at whole
        cases whole
      · rw [scan_of_more final] at whole ⊢
        obtain ⟨rfl, further⟩ := List.cons.inj whole
        obtain ⟨text, place, passes, same⟩ := ih cursor.next.2 further
        obtain ⟨blanks, character, more, here, blank, apart⟩ := exists_rest_of_more final
        exact ⟨_, place, .token here blank apart passes, same⟩

namespace Passes

variable {cursor place : Cursor} {tokens : List Token} {text : List Char}

/-- The part of the text that is passed over, and how far it leads. -/
theorem rest_eq (passes : cursor.Passes tokens text place) :
    cursor.rest = text ++ place.rest ∧ place.offset = cursor.offset + Utf8.size text ∧
      place.line = cursor.line + text.count '\n' := by
  induction passes with
  | blanks here _ offset line _ => exact ⟨here, offset, line⟩
  | @token cursor place tokens text blanks more character here blank apart further ih =>
      obtain ⟨rest, offset, line⟩ := ih
      have step := next_of_rest here blank apart
      rw [step] at rest offset line
      have noNewline := @Lexeme.count_newline _ more apart
      refine ⟨?_, ?_, ?_⟩
      · rw [here, ← Lexeme.text_append_rest, List.append_assoc, List.append_assoc]
        exact congrArg (fun rest => blanks ++ (_ ++ rest)) rest
      · rw [offset]
        simp only [Utf8.size_append, Nat.add_assoc]
      · rw [line]
        simp only [List.count_append, noNewline, Nat.add_assoc, Nat.zero_add]

theorem stops (passes : cursor.Passes tokens text place) :
    ∀ character ∈ place.rest.head?, isBlank character = false := by
  induction passes with
  | blanks _ _ _ _ stops => exact stops
  | token _ _ _ _ ih => exact ih

/-- The next token begins at the place that was passed to. -/
theorem start_of_head (passes : cursor.Passes tokens text place) {token : Token}
    (next : (place.scan.1 ++ [place.scan.2]).head? = some token) :
    token.span.start = cursor.offset + Utf8.size text ∧
      token.line = cursor.line + text.count '\n' := by
  rw [head?_scan, Option.some_inj] at next
  subst next
  obtain ⟨start, line⟩ := start_next_of_apart passes.stops
  obtain ⟨-, offset, lines⟩ := passes.rest_eq
  exact ⟨start.trans offset, line.trans lines⟩

/-- **What was passed over is scanned alike in front of something else** that begins with a
blank. -/
theorem scan_append (passes : cursor.Passes tokens text place) {more : List Char}
    (apart : BeginsBlank more) {other : Cursor} (rest : other.rest = text ++ more)
    (offset : other.offset = cursor.offset) (line : other.line = cursor.line) :
    other.scan = (tokens ++ (Cursor.mk more place.offset place.line).scan.1,
      (Cursor.mk more place.offset place.line).scan.2) := by
  induction passes generalizing other with
  | blanks here blank offsetThere lineThere _ =>
      rw [offsetThere, lineThere, ← offset, ← line]
      exact scan_of_next (next_of_blanks_append rest blank)
  | @token cursor place tokens text blanks tail character here blank starts further ih =>
      have step := next_of_rest here blank starts
      have goesOn := further.rest_eq.1
      rw [step] at goesOn
      obtain ⟨inside, spelled, lexeme⟩ := Lexeme.exists_read_eq goesOn apart
      rw [spelled, List.append_assoc, List.cons_append, List.cons_append, List.append_assoc] at rest
      have same : other.next =
          (cursor.next.1, ⟨text ++ more, cursor.next.2.offset, cursor.next.2.line⟩) := by
        rw [next_of_rest rest blank starts, lexeme, offset, line, step]
      have some : other.next.1.kind ≠ .endOfFile := by
        rw [same, step]
        exact Lexeme.kind_ne_endOfFile character tail
      have behind := @ih ⟨text ++ more, cursor.next.2.offset, cursor.next.2.line⟩ rfl rfl rfl
      simp only [scan_of_more some, same, behind, List.cons_append]

/-- **Every character that is passed over is a blank or is in a token**, and that token is outside
the vocabulary unless the character is ASCII. -/
theorem exists_token (passes : cursor.Passes tokens text place) {front back : List Char}
    {character : Char} (whole : text = front ++ character :: back)
    (solid : isBlank character = false) :
    ∃ token ∈ tokens, token.span.start ≤ cursor.offset + Utf8.size front ∧
      cursor.offset + Utf8.size (front ++ [character]) ≤ token.span.stop ∧
      token.line = cursor.line + front.count '\n' ∧
      (token.kind ≠ .invalid → IsAscii character) := by
  induction passes generalizing front with
  | blanks _ blank _ _ _ =>
      subst whole
      rw [blank character (by simp)] at solid
      cases solid
  | @token cursor place tokens text blanks tail first here blank apart further ih =>
      have step := next_of_rest here blank apart
      have noNewline := @Lexeme.count_newline _ tail apart
      rcases split_of_append_eq whole with ⟨more, rfl⟩ | ⟨front, rfl, behind⟩
      · rw [blank character (by simp)] at solid
        cases solid
      rcases split_of_append_eq behind with ⟨more, inside⟩ | ⟨front, rfl, rest⟩
      · have member : character ∈ (Lexeme.read first tail).text := by simp [inside]
        refine ⟨_, List.mem_cons_self, ?_, ?_, ?_, fun valid => ?_⟩
        · rw [step, Utf8.size_append]
          dsimp only
          omega
        · rw [step, inside]
          simp only [Utf8.size_append, Utf8.size_cons, Utf8.size_nil]
          omega
        · rw [inside, List.count_append] at noNewline
          rw [step, List.count_append, Nat.eq_zero_of_add_eq_zero_right noNewline, Nat.add_zero]
        · rw [step] at valid
          exact Lexeme.isAscii_of_valid valid _ member
      · obtain ⟨token, member, start, stop, line, ascii⟩ := ih rest
        rw [step] at start stop line
        refine ⟨token, List.mem_cons_of_mem _ member, ?_, ?_, ?_, ascii⟩
        · simp only [Utf8.size_append] at start ⊢
          omega
        · simp only [Utf8.size_append] at stop ⊢
          omega
        · rw [line, List.count_append, List.count_append, noNewline]
          simp only [Nat.add_assoc, Nat.zero_add]

/-- **All of the text that is passed over is ASCII but characters outside the vocabulary**, and each
of those is a token. -/
theorem invalid_of_not_ascii (passes : cursor.Passes tokens text place) {front back : List Char}
    {character : Char} (whole : text = front ++ character :: back)
    (foreign : ¬ IsAscii character) :
    ∃ token ∈ tokens, token.kind = .invalid ∧ token.line = cursor.line + front.count '\n' := by
  have solid : isBlank character = false :=
    Bool.eq_false_iff.mpr fun blank => foreign (isAscii_of_isBlank blank)
  obtain ⟨token, member, -, -, line, ascii⟩ := passes.exists_token whole solid
  exact ⟨token, member, by_contra fun valid => foreign (ascii valid), line⟩

end Passes

/-- **A cursor passes over all of the text**, and behind it stands the last token of all. -/
theorem passes_to_end (cursor : Cursor) :
    let final := Cursor.mk [] (cursor.offset + Utf8.size cursor.rest)
      (cursor.line + cursor.rest.count '\n')
    cursor.Passes cursor.scan.1 cursor.rest final ∧
      cursor.scan.2 = ⟨.endOfFile, "", .point final.offset, final.line⟩ := by
  obtain ⟨text, ⟨rest, offset, line⟩, passes, scan⟩ :=
    cursor.exists_passes (List.append_nil cursor.scan.1).symm
  obtain rfl : rest = [] := rest_eq_nil_of_scan (congrArg Prod.fst scan) passes.stops
  obtain ⟨whole, rfl, rfl⟩ := passes.rest_eq
  obtain rfl : cursor.rest = text := whole.trans (List.append_nil text)
  rw [scan_of_final rfl] at scan
  exact ⟨passes, (congrArg Prod.snd scan).symm⟩

end Cursor

/-! ## Places in a source -/

namespace Source

variable (source : Source)

/-- The text is parted in front of a token: the tokens in front of it stand in the first part, and
the others come behind. -/
structure Parts (before behind : List Token) (front back : List Char) : Prop where
  text : source.text = front ++ back
  passes : (Cursor.start source.text).Passes before front
    ⟨back, Utf8.size front, front.count '\n'⟩
  scan : (Cursor.mk back (Utf8.size front) (front.count '\n')).scan = (behind, source.endToken)

variable {source} {before behind : List Token}

/-- **In front of every token the text can be parted.** -/
theorem exists_parts (whole : source.tokens = before ++ behind) :
    ∃ front back, source.Parts before behind front back := by
  obtain ⟨front, ⟨back, offset, line⟩, passes, scan⟩ :=
    (Cursor.start source.text).exists_passes whole
  obtain ⟨text, offset_eq, line_eq⟩ := passes.rest_eq
  obtain rfl : offset = Utf8.size front := offset_eq.trans (Nat.zero_add _)
  obtain rfl : line = front.count '\n' := line_eq.trans (Nat.zero_add _)
  exact ⟨front, back, text, passes, scan⟩

/-- **All of the text is passed over**, and behind it stands the last token of all. -/
theorem passes_to_end (source : Source) :
    (Cursor.start source.text).Passes source.tokens source.text
        ⟨[], Utf8.size source.text, source.text.count '\n'⟩ ∧
      source.endToken =
        ⟨.endOfFile, "", .point (Utf8.size source.text), source.text.count '\n'⟩ := by
  have passes := (Cursor.start source.text).passes_to_end
  simp only [Cursor.start, Nat.zero_add] at passes
  exact passes

/-- In front of the last token of all, too. -/
theorem exists_parts_of_stream {token : Token}
    (whole : source.stream = before ++ token :: behind) :
    ∃ rest front back, source.Parts before rest front back ∧
      (rest ++ [source.endToken]).head? = some token := by
  obtain ⟨rest, tokens, first⟩ := exists_rest_of_concat whole
  obtain ⟨front, back, parts⟩ := exists_parts tokens
  exact ⟨rest, front, back, parts, congrArg List.head? first⟩

namespace Parts

variable {front back : List Char}

/-- The next token begins where the text is parted. -/
theorem start_of_head (parts : source.Parts before behind front back) {token : Token}
    (next : (behind ++ [source.endToken]).head? = some token) :
    token.span.start = Utf8.size front ∧ token.line = front.count '\n' := by
  have start := @Cursor.Passes.start_of_head _ _ _ _ parts.passes token
    (by rw [parts.scan]; exact next)
  simpa only [Cursor.start, Nat.zero_add] using start

/-- **The tokens behind are those of the second part of the text**, further back. -/
theorem tokens_back (parts : source.Parts before behind front back) :
    behind = (ofText back).tokens.map (Token.shift (Utf8.size front) (front.count '\n')) ∧
      source.endToken =
        (ofText back).endToken.shift (Utf8.size front) (front.count '\n') := by
  have shifted := Cursor.scan_shift (Utf8.size front) (front.count '\n') (Cursor.start back)
  rw [Cursor.shift, Cursor.start, Nat.add_zero, Nat.add_zero, parts.scan] at shifted
  exact Prod.mk.inj shifted

/-- **The tokens in front are those of the first part of the text**, whatever else that begins with
a blank stands behind it. -/
theorem tokens_front (parts : source.Parts before behind front back) {more : List Char}
    (apart : BeginsBlank more) :
    (ofText (front ++ more)).tokens =
      before ++ (Cursor.mk more (Utf8.size front) (front.count '\n')).scan.1 :=
  congrArg Prod.fst (@Cursor.Passes.scan_append _ _ _ _ parts.passes _ apart
    (.start (front ++ more)) rfl rfl rfl)

/-- **A character outside ASCII in the first part of the text** is a token there, outside the
vocabulary. -/
theorem invalid_of_not_ascii (parts : source.Parts before behind front back) {character : Char}
    {left right : List Char} (whole : front = left ++ character :: right)
    (foreign : ¬ IsAscii character) :
    ∃ token ∈ before, token.kind = .invalid ∧ token.line = left.count '\n' := by
  obtain ⟨token, member, kind, line⟩ := parts.passes.invalid_of_not_ascii whole foreign
  exact ⟨token, member, kind, line.trans (Nat.zero_add _)⟩

end Parts

end Source

end SlotCompiler
