import Mathlib.Data.List.Forall2
import Mathlib.Data.List.TakeWhile
import SlotCompiler.Proofs.Scanning.Tokens

/-!
# Words with blanks between them

A token is the same wherever blanks, or the ends of the text, stand on both sides of it
(`Lexeme.read_append`).  So a text in which words are spaced that are single tokens is scanned as
these words, whatever the blanks are (`Source.spells_tokens`).
-/

set_option autoImplicit false

namespace SlotCompiler

/-! ## Words -/

/-- The words that can be names. -/
structure IsName (word : String) : Prop where
  shape : ∃ character text, word.toList = character :: text ∧ isWordStart character = true ∧
    ∀ other ∈ text, isWordPart other = true
  notKeyword : ∀ keyword : Keyword, keyword.text ≠ word

/-- The words that are decimal digits, at least one. -/
structure IsNumeral (word : String) : Prop where
  some : word.toList ≠ []
  digits : ∀ character ∈ word.toList, character.isDigit = true

/-- How a symbol is written, as a word. -/
def Symbol.text (symbol : Symbol) : String := String.singleton symbol.character

/-- The kind of the token at the front of a text. -/
def Token.Kind.ofText (text : String) : Token.Kind :=
  match text.toList with
  | [] => .endOfFile
  | character :: text => (Lexeme.read character text).kind

/-- Whether a text is one token of the vocabulary, and nothing else. -/
def IsToken (text : String) : Prop :=
  ∃ first more, text.toList = first :: more ∧ (Lexeme.read first more).rest = [] ∧
    (Lexeme.read first more).kind ≠ .invalid

theorem IsToken.kind_ne_endOfFile {text : String} (token : IsToken text) :
    Token.Kind.ofText text ≠ .endOfFile := by
  obtain ⟨first, more, spelled, -⟩ := token
  simp only [Token.Kind.ofText, spelled]
  exact Lexeme.kind_ne_endOfFile first more

theorem Token.Kind.ofText_symbol (symbol : Symbol) : ofText symbol.text = .symbol symbol := by
  cases symbol <;> decide +kernel

theorem Token.Kind.ofText_keyword (keyword : Keyword) : ofText keyword.text = .keyword keyword := by
  cases keyword <;> decide +kernel

theorem isToken_symbol (symbol : Symbol) : IsToken symbol.text := by
  refine ⟨symbol.character, [], String.toList_singleton _, ?_⟩
  cases symbol <;> decide +kernel

theorem Lexeme.read_word {character : Char} {text : List Char}
    (begins : isWordStart character = true) (goesOn : ∀ other ∈ text, isWordPart other = true) :
    read character text =
      ⟨.ofWord (String.ofList (character :: text)), character :: text, []⟩ := by
  have whole : text.takeWhile isWordPart = text := List.takeWhile_eq_self_iff.mpr goesOn
  have nothing : text.dropWhile isWordPart = [] := List.dropWhile_eq_nil_iff.mpr goesOn
  rw [read, if_pos begins, whole, nothing]

theorem isToken_word {word : String} {character : Char} {text : List Char}
    (spelled : word.toList = character :: text) (begins : isWordStart character = true)
    (goesOn : ∀ other ∈ text, isWordPart other = true) : IsToken word := by
  refine ⟨character, text, spelled, ?_⟩
  rw [Lexeme.read_word begins goesOn]
  refine ⟨rfl, ?_⟩
  unfold Token.Kind.ofWord
  dsimp only
  split <;> exact nofun

theorem isToken_keyword (keyword : Keyword) : IsToken keyword.text := by
  cases keyword <;> exact isToken_word rfl rfl (List.all_eq_true.mp rfl)

theorem IsName.isToken {word : String} (name : IsName word) : IsToken word := by
  obtain ⟨character, text, spelled, begins, goesOn⟩ := name.shape
  exact isToken_word spelled begins goesOn

theorem IsName.kind {word : String} (name : IsName word) :
    Token.Kind.ofText word = .identifier := by
  obtain ⟨character, text, spelled, begins, goesOn⟩ := name.shape
  have none : Keyword.ofText? word = none := by
    refine List.find?_eq_none.mpr fun keyword _ same => ?_
    exact name.notKeyword keyword (beq_iff_eq.mp same)
  have same : String.ofList (character :: text) = word := by
    rw [← spelled, String.ofList_toList]
  simp only [Token.Kind.ofText, spelled, Lexeme.read_word begins goesOn, same,
    Token.Kind.ofWord, none]

theorem not_isWordStart_of_isDigit {character : Char} (digit : character.isDigit = true) :
    isWordStart character = false := by
  refine Bool.eq_false_iff.mpr fun starts => ?_
  have high : character.val.toNat ≤ 57 := (Char.isDigit_iff_toNat.mp digit).2
  change (character.isUpper || character.isLower || decide (character = '_')) = true at starts
  rw [Bool.or_eq_true, Bool.or_eq_true, decide_eq_true_eq] at starts
  rcases starts with (upper | lower) | rfl
  · have low : 65 ≤ character.val.toNat :=
      UInt32.le_iff_toNat_le.mp (of_decide_eq_true upper).1
    omega
  · have low : 97 ≤ character.val.toNat :=
      UInt32.le_iff_toNat_le.mp (of_decide_eq_true (Bool.and_eq_true_iff.mp lower).1)
    omega
  · exact absurd high (by decide)

theorem Lexeme.read_digits {character : Char} {text : List Char}
    (begins : character.isDigit = true) (goesOn : ∀ other ∈ text, other.isDigit = true) :
    read character text = ⟨.integer, character :: text, []⟩ := by
  have whole : text.takeWhile Char.isDigit = text := List.takeWhile_eq_self_iff.mpr goesOn
  have nothing : text.dropWhile Char.isDigit = [] := List.dropWhile_eq_nil_iff.mpr goesOn
  rw [read, not_isWordStart_of_isDigit begins, if_neg Bool.false_ne_true, if_pos begins, whole,
    nothing]

theorem IsNumeral.exists_cons {word : String} (numeral : IsNumeral word) :
    ∃ character text, word.toList = character :: text ∧
      Lexeme.read character text = ⟨.integer, character :: text, []⟩ := by
  obtain ⟨character, text, spelled⟩ := List.exists_cons_of_ne_nil numeral.some
  have digits := numeral.digits
  rw [spelled, List.forall_mem_cons] at digits
  exact ⟨character, text, spelled, Lexeme.read_digits digits.1 digits.2⟩

theorem IsNumeral.isToken {word : String} (numeral : IsNumeral word) : IsToken word := by
  obtain ⟨character, text, spelled, lexeme⟩ := numeral.exists_cons
  exact ⟨character, text, spelled, by rw [lexeme], by rw [lexeme]; exact nofun⟩

theorem IsNumeral.kind {word : String} (numeral : IsNumeral word) :
    Token.Kind.ofText word = .integer := by
  obtain ⟨character, text, spelled, lexeme⟩ := numeral.exists_cons
  simp only [Token.Kind.ofText, spelled, lexeme]

/-! ## Blanks around a word -/

/-- Whether a text is over or goes on with a blank. -/
def BeginsBlank (text : List Char) : Prop := ∀ character ∈ text.head?, isBlank character = true

/-- A text in which words are spaced: blanks stand between the words, and some may stand in front
of them and behind them. -/
inductive Spaced : List String → List Char → Prop where
  | blanks {text : List Char} (blank : ∀ character ∈ text, isBlank character = true) :
      Spaced [] text
  | word {before text : List Char} {word : String} {words : List String}
      (blank : ∀ character ∈ before, isBlank character = true) (apart : BeginsBlank text)
      (further : Spaced words text) : Spaced (word :: words) (before ++ (word.toList ++ text))

theorem beginsBlank_flatMap (words : List String) :
    BeginsBlank (words.flatMap (' ' :: ·.toList)) := by
  cases words with
  | nil => exact nofun
  | cons word words =>
      rintro character ⟨⟩
      rfl

/-- A blank in front of each of them spaces any words. -/
theorem spaced_flatMap : ∀ words : List String, Spaced words (words.flatMap (' ' :: ·.toList))
  | [] => .blanks (by simp)
  | word :: words =>
      have blank : ∀ character ∈ [' '], isBlank character = true := List.all_eq_true.mp rfl
      .word blank (beginsBlank_flatMap words) (spaced_flatMap words)

theorem not_isWordPart_of_isBlank {character : Char} (blank : isBlank character = true) :
    isWordPart character = false := by
  simp only [isBlank, Bool.or_eq_true, decide_eq_true_eq] at blank
  rcases blank with (((rfl | rfl) | rfl) | rfl) | rfl <;> decide

theorem not_isDigit_of_isBlank {character : Char} (blank : isBlank character = true) :
    character.isDigit = false := by
  simp only [isBlank, Bool.or_eq_true, decide_eq_true_eq] at blank
  rcases blank with (((rfl | rfl) | rfl) | rfl) | rfl <;> decide

/-- A blank begins no token of the vocabulary. -/
theorem kind_read_of_isBlank {character : Char} (blank : isBlank character = true)
    (text : List Char) : (Lexeme.read character text).kind = .invalid := by
  simp only [isBlank, Bool.or_eq_true, decide_eq_true_eq] at blank
  rcases blank with (((rfl | rfl) | rfl) | rfl) | rfl <;> rfl

section BeginsBlank

variable {text rest : List Char} {part : Char → Bool}

/-- What does not take blanks takes the same of a text in front of a blank. -/
theorem takeWhile_append_of_blank (apart : BeginsBlank rest)
    (blanks : ∀ {character}, isBlank character = true → part character = false) :
    (text ++ rest).takeWhile part = text.takeWhile part ∧
      (text ++ rest).dropWhile part = text.dropWhile part ++ rest := by
  induction text with
  | nil =>
      cases rest with
      | nil => exact ⟨rfl, rfl⟩
      | cons character rest => simp [blanks (apart character rfl)]
  | cons character text ih =>
      rw [List.cons_append, List.takeWhile_cons, List.takeWhile_cons, List.dropWhile_cons,
        List.dropWhile_cons]
      split
      · exact ⟨congrArg (character :: ·) ih.1, ih.2⟩
      · exact ⟨rfl, rfl⟩

end BeginsBlank

/-- **A token is not changed by a blank behind the text.** -/
theorem Lexeme.read_append (first : Char) (more : List Char) {rest : List Char}
    (apart : BeginsBlank rest) :
    read first (more ++ rest) =
      ⟨(read first more).kind, (read first more).text, (read first more).rest ++ rest⟩ := by
  unfold read
  by_cases word : isWordStart first = true
  · obtain ⟨taken, dropped⟩ := takeWhile_append_of_blank apart not_isWordPart_of_isBlank
    rw [if_pos word, if_pos word, taken, dropped]
  · by_cases digit : first.isDigit = true
    · obtain ⟨taken, dropped⟩ := takeWhile_append_of_blank apart not_isDigit_of_isBlank
      rw [if_neg word, if_pos digit, if_neg word, if_pos digit, taken, dropped]
    · rw [if_neg word, if_neg digit, if_neg word, if_neg digit]
      cases Symbol.ofCharacter? first <;> rfl

/-- A text that is one token is the same token in front of a blank. -/
theorem Lexeme.read_append_of_whole {first : Char} {more rest : List Char}
    (whole : (read first more).rest = []) (apart : BeginsBlank rest) :
    read first (more ++ rest) = ⟨(read first more).kind, first :: more, rest⟩ := by
  have text := text_append_rest first more
  rw [whole, List.append_nil] at text
  rw [read_append first more apart, whole, text, List.nil_append]

namespace Cursor

theorem skipBlanks_append {blanks rest : List Char} (offset line : Nat)
    (blank : ∀ character ∈ blanks, isBlank character = true)
    (stops : ∀ character ∈ rest.head?, isBlank character = false) :
    (skipBlanks offset line (blanks ++ rest)).rest = rest := by
  induction blanks generalizing offset line with
  | nil =>
      cases rest with
      | nil => rfl
      | cons character rest =>
          rw [List.nil_append, skipBlanks, stops character rfl, if_neg Bool.false_ne_true]
  | cons character blanks ih =>
      rw [List.forall_mem_cons] at blank
      rw [List.cons_append, skipBlanks, if_pos blank.1]
      exact ih _ _ blank.2

/-- Blanks alone hold no token. -/
theorem next_of_blanks {cursor : Cursor}
    (blank : ∀ character ∈ cursor.rest, isBlank character = true) :
    cursor.next.1.kind = .endOfFile := by
  have none := @skipBlanks_append _ [] cursor.offset cursor.line blank (by simp)
  rw [List.append_nil] at none
  unfold next
  dsimp only
  rw [none]

/-- A step from behind some blanks takes the lexeme there. -/
theorem next_of_rest {cursor : Cursor} {blanks more : List Char} {character : Char}
    (here : cursor.rest = blanks ++ character :: more)
    (blank : ∀ other ∈ blanks, isBlank other = true) (apart : isBlank character = false) :
    let lexeme := Lexeme.read character more
    let start := cursor.offset + Utf8.size blanks
    let stop := start + Utf8.size lexeme.text
    let line := cursor.line + blanks.count '\n'
    cursor.next = (⟨lexeme.kind, String.ofList lexeme.text, ⟨start, stop⟩, line⟩,
      ⟨lexeme.rest, stop, line⟩) := by
  have stops : ∀ other ∈ (character :: more).head?, isBlank other = false := by
    rintro _ ⟨⟩
    exact apart
  have left := skipBlanks_append cursor.offset cursor.line blank stops
  obtain ⟨passed, whole, -, offset, line⟩ := skipBlanks_spec cursor.offset cursor.line cursor.rest
  rw [here, left] at whole
  obtain rfl := List.append_cancel_right whole
  rw [here] at offset line
  simp only [next, here, left, offset, line]

/-- A word behind blanks is the next token. -/
theorem next_of_word {cursor : Cursor} {before text : List Char} {word : String}
    (here : cursor.rest = before ++ (word.toList ++ text))
    (blank : ∀ character ∈ before, isBlank character = true) (apart : BeginsBlank text)
    (token : IsToken word) :
    cursor.next.1.text = word ∧ cursor.next.1.kind = .ofText word ∧
      cursor.next.2.rest = text := by
  obtain ⟨first, more, spelled, whole, valid⟩ := token
  have solid : isBlank first = false :=
    Bool.eq_false_iff.mpr fun blank => valid (kind_read_of_isBlank blank more)
  have same : String.ofList (first :: more) = word := by rw [← spelled, String.ofList_toList]
  rw [spelled, List.cons_append] at here
  rw [next_of_rest here blank solid, Lexeme.read_append_of_whole whole apart, Token.Kind.ofText,
    spelled]
  exact ⟨same, rfl, rfl⟩

/-- Spaced words are scanned one by one. -/
theorem scan_spaced {words : List String} {text : List Char} (spaced : Spaced words text)
    (tokens : ∀ word ∈ words, IsToken word) :
    ∀ {cursor : Cursor}, cursor.rest = text →
      List.Forall₂ (fun word token => token.text = word ∧ token.kind = .ofText word) words
        cursor.scan.1 := by
  induction spaced with
  | blanks blank =>
      rintro cursor rfl
      rw [scan_of_final (next_of_blanks blank)]
      exact .nil
  | word blank apart further ih =>
      intro cursor here
      rw [List.forall_mem_cons] at tokens
      obtain ⟨text, kind, rest⟩ := next_of_word here blank apart tokens.1
      rw [scan_of_more (by rw [kind]; exact tokens.1.kind_ne_endOfFile)]
      exact .cons ⟨text, kind⟩ (ih tokens.2 rest)

end Cursor

/-- A token stands for a word: it is of the word's kind, and both its text and its span in the
source are the word. -/
structure Token.Spells (source : Source) (word : String) (token : Token) : Prop where
  text : token.text = word
  kind : token.kind = .ofText word
  extract : source.extract token.span = word

/-- **Spaced words are the tokens of their text.** -/
theorem Source.spells_tokens {words : List String} {text : List Char} (spaced : Spaced words text)
    (tokens : ∀ word ∈ words, IsToken word) :
    List.Forall₂ (Token.Spells (ofText text)) words (ofText text).tokens := by
  have scanned : List.Forall₂ (fun token word => token.text = word ∧ token.kind = .ofText word)
      (ofText text).tokens words :=
    (Cursor.scan_spaced spaced tokens rfl).flip
  have selected := (List.forall₂_and_left _ _).mpr
    ⟨fun _ member => (ofText text).extract_span member, scanned⟩
  refine List.Forall₂.flip (selected.imp fun token word facts => ?_)
  exact ⟨facts.2.1, facts.2.2, facts.1.trans facts.2.1⟩

end SlotCompiler
