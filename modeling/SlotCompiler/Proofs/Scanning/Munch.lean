import Mathlib.Data.List.Sort
import SlotCompiler.Proofs.Scanning.Bytes
import SlotCompiler.Proofs.Text.Fields

/-!
# Maximal munch

A part of a text is a token if it has the shape of one and goes as far as it can (`Munch`).  A
tokenization of a source consists of such parts, in order, that leave out blanks and nothing else
(`Source.Tokenization`).  Two tokens that begin at one place are the same (`Source.Stands.eq`), and
where a token of one tokenization begins, one of any other must stand as well.  So there is only one
tokenization (`Source.Tokenization.eq`), and it is what is scanned (`Source.tokenization_tokens`).
-/

set_option autoImplicit false

namespace SlotCompiler

/-! ## Tokens in front of some bytes -/

/-- A part of a text is a token of a kind in front of some bytes: a word or an integer with which
the bytes do not go on, a symbol, or any other character on its own. -/
inductive Munch : Token.Kind → List Char → List UInt8 → Prop where
  | word {kind : Token.Kind} {part : List Char} {behind : List UInt8} (some : part ≠ [])
      (begins : ∀ byte ∈ (Utf8.encode part).head?, isWordStartByte byte = true)
      (goesOn : ∀ byte ∈ Utf8.encode part, isWordByte byte = true)
      (stops : ∀ byte ∈ behind.head?, isWordByte byte = false)
      (isWord : kind = .identifier ∨ ∃ keyword, kind = .keyword keyword)
      (isKeyword : ∀ keyword : Keyword,
        kind = .keyword keyword ↔ String.ofList part = keyword.text) : Munch kind part behind
  | integer {part : List Char} {behind : List UInt8} (some : part ≠ [])
      (digits : ∀ byte ∈ Utf8.encode part, isDigitByte byte = true)
      (stops : ∀ byte ∈ behind.head?, isDigitByte byte = false) : Munch .integer part behind
  | symbol (symbol : Symbol) (behind : List UInt8) :
      Munch (.symbol symbol) [symbol.character] behind
  | invalid {character : Char} {behind : List UInt8}
      (other : ∀ byte ∈ String.utf8EncodeChar character,
        isBlankByte byte = false ∧ isWordByte byte = false)
      (noSymbol : ∀ symbol : Symbol, symbol.character ≠ character) :
      Munch .invalid [character] behind

theorem Keyword.ofText?_eq_some {word : String} {keyword : Keyword} :
    ofText? word = some keyword ↔ word = keyword.text := by
  constructor
  · intro found
    exact (beq_iff_eq.mp (List.find?_some found :)).symm
  · rintro rfl
    cases keyword <;> decide +kernel

/-- The kind of a word is a keyword exactly if the word is that keyword. -/
theorem Token.Kind.ofWord_spec (word : String) :
    (ofWord word = .identifier ∨ ∃ keyword, ofWord word = .keyword keyword) ∧
      ∀ keyword, ofWord word = .keyword keyword ↔ word = keyword.text := by
  unfold ofWord
  cases found : Keyword.ofText? word with
  | some keyword =>
      refine ⟨.inr ⟨keyword, rfl⟩, fun other => ?_⟩
      rw [← Keyword.ofText?_eq_some, found]
      simp
  | none =>
      refine ⟨.inl rfl, fun other => ?_⟩
      rw [← Keyword.ofText?_eq_some, found]
      simp

/-- This determines the kind. -/
theorem Token.Kind.ofWord_eq {kind : Token.Kind} {word : String}
    (isWord : kind = .identifier ∨ ∃ keyword, kind = .keyword keyword)
    (isKeyword : ∀ keyword, kind = .keyword keyword ↔ word = keyword.text) :
    ofWord word = kind := by
  obtain ⟨isWord', isKeyword'⟩ := ofWord_spec word
  rcases isWord with rfl | ⟨keyword, rfl⟩
  · rcases isWord' with name | ⟨keyword, found⟩
    · exact name
    · exact absurd ((isKeyword keyword).mpr ((isKeyword' keyword).mp found)) nofun
  · exact (isKeyword' keyword).mpr ((isKeyword keyword).mp rfl)

theorem isWordPart_eq (character : Char) :
    isWordPart character = (isWordStart character || character.isDigit) := by
  unfold isWordPart isWordStart Char.isAlphanum
  exact Bool.or_right_comm _ _ _

theorem Symbol.ofCharacter?_character (symbol : Symbol) :
    isBlank symbol.character = false ∧ isWordStart symbol.character = false ∧
      symbol.character.isDigit = false ∧ ofCharacter? symbol.character = some symbol := by
  cases symbol <;> decide +kernel

namespace Lexeme

/-- **What is read at a character that is no blank is a token there.** -/
theorem munch_read {character : Char} (apart : isBlank character = false) (more : List Char) :
    Munch (read character more).kind (read character more).text
      (Utf8.encode (read character more).rest) := by
  unfold read
  by_cases word : isWordStart character = true
  · rw [if_pos word]
    obtain ⟨isWord, isKeyword⟩ :=
      Token.Kind.ofWord_spec (String.ofList (character :: more.takeWhile isWordPart))
    refine .word (List.cons_ne_nil _ _) ?_ ?_ ?_ isWord isKeyword
    · rw [agree_isWordStart.forall_head]
      rintro _ ⟨⟩
      exact word
    · rw [agree_isWordPart.forall_mem, List.forall_mem_cons]
      refine ⟨?_, fun other member => @List.mem_takeWhile_imp Char isWordPart _ _ member⟩
      rw [isWordPart_eq, word, Bool.true_or]
    · rw [agree_isWordPart.forall_head]
      exact stops_dropWhile isWordPart more
  · rw [if_neg word]
    by_cases digit : character.isDigit = true
    · rw [if_pos digit]
      refine .integer (List.cons_ne_nil _ _) ?_ ?_
      · rw [agree_isDigit.forall_mem, List.forall_mem_cons]
        exact ⟨digit, fun other member => @List.mem_takeWhile_imp Char Char.isDigit _ _ member⟩
      · rw [agree_isDigit.forall_head]
        exact stops_dropWhile Char.isDigit more
    · rw [if_neg digit]
      cases found : Symbol.ofCharacter? character with
      | some symbol =>
          obtain rfl : symbol.character = character := beq_iff_eq.mp (List.find?_some found :)
          exact .symbol symbol _
      | none =>
          refine .invalid (fun byte member => ?_) fun symbol same => ?_
          · rw [agree_isBlank character byte member, apart, agree_isWordPart character byte member,
              isWordPart_eq, Bool.or_eq_false_iff]
            exact ⟨rfl, Bool.eq_false_iff.mpr word, Bool.eq_false_iff.mpr digit⟩
          · rw [← same, symbol.ofCharacter?_character.2.2.2] at found
            cases found

end Lexeme

/-- **A token is what is read at its first character**, which is no blank. -/
theorem Munch.exists_read {kind : Token.Kind} {part behind : List Char}
    (munch : Munch kind part (Utf8.encode behind)) :
    ∃ character more, part ++ behind = character :: more ∧ isBlank character = false ∧
      Lexeme.read character more = ⟨kind, part, behind⟩ := by
  cases munch with
  | word some begins goesOn stops isWord isKeyword =>
      rw [agree_isWordStart.forall_head] at begins
      rw [agree_isWordPart.forall_mem] at goesOn
      rw [agree_isWordPart.forall_head] at stops
      obtain ⟨character, inside, rfl⟩ := List.exists_cons_of_ne_nil some
      have start : isWordStart character = true := begins character rfl
      rw [List.forall_mem_cons] at goesOn
      obtain ⟨taken, left⟩ := takeWhile_append_of_stops goesOn.2 stops
      have same := Token.Kind.ofWord_eq isWord isKeyword
      refine ⟨character, inside ++ behind, rfl, ?_, ?_⟩
      · refine Bool.eq_false_iff.mpr fun blank => ?_
        rw [not_isWordPart_of_isBlank blank] at goesOn
        cases goesOn.1
      · simp only [Lexeme.read, if_pos start, taken, left, same]
  | integer some digits stops =>
      rw [agree_isDigit.forall_mem] at digits
      rw [agree_isDigit.forall_head] at stops
      obtain ⟨character, inside, rfl⟩ := List.exists_cons_of_ne_nil some
      rw [List.forall_mem_cons] at digits
      obtain ⟨taken, left⟩ := takeWhile_append_of_stops digits.2 stops
      refine ⟨character, inside ++ behind, rfl, ?_, ?_⟩
      · refine Bool.eq_false_iff.mpr fun blank => ?_
        rw [not_isDigit_of_isBlank blank] at digits
        cases digits.1
      · have noWord : ¬ isWordStart character = true :=
          Bool.eq_false_iff.mp (not_isWordStart_of_isDigit digits.1)
        simp only [Lexeme.read, if_neg noWord, if_pos digits.1, taken, left]
  | symbol symbol _ =>
      obtain ⟨apart, noWord, noDigit, found⟩ := symbol.ofCharacter?_character
      refine ⟨symbol.character, behind, rfl, apart, ?_⟩
      simp [Lexeme.read, noWord, noDigit, found]
  | @invalid character _ other noSymbol =>
      obtain ⟨byte, inside⟩ := List.exists_mem_of_ne_nil _ (utf8EncodeChar_ne_nil character)
      obtain ⟨apart, noWord⟩ := other byte inside
      rw [agree_isBlank character byte inside] at apart
      rw [agree_isWordPart character byte inside, isWordPart_eq, Bool.or_eq_false_iff] at noWord
      have none : Symbol.ofCharacter? character = none := by
        refine List.find?_eq_none.mpr fun symbol _ same => ?_
        exact noSymbol symbol (beq_iff_eq.mp same)
      refine ⟨character, behind, rfl, apart, ?_⟩
      simp [Lexeme.read, noWord.1, noWord.2, none]

theorem Munch.ne_nil {kind : Token.Kind} {part : List Char} {behind : List UInt8}
    (munch : Munch kind part behind) : part ≠ [] := by
  cases munch with
  | word some => exact some
  | integer some => exact some
  | symbol symbol _ => exact List.cons_ne_nil _ _
  | invalid => exact List.cons_ne_nil _ _

/-- No token has a blank in it. -/
theorem Munch.isBlank_eq {kind : Token.Kind} {part behind : List Char}
    (munch : Munch kind part (Utf8.encode behind)) :
    ∀ character ∈ part, isBlank character = false := by
  obtain ⟨character, more, -, apart, read⟩ := munch.exists_read
  have solid := @Lexeme.isBlank_of_mem_text character more apart
  rwa [read] at solid

/-- A character that is in no word, integer or symbol is a token on its own. -/
theorem Munch.eq_of_other {kind : Token.Kind} {part : List Char} {behind : List UInt8}
    (munch : Munch kind part behind) {character : Char} (inside : character ∈ part)
    (other : ∀ byte ∈ String.utf8EncodeChar character, isWordByte byte = false)
    (noSymbol : ∀ symbol : Symbol, symbol.character ≠ character) :
    kind = .invalid ∧ part = [character] := by
  obtain ⟨byte, member⟩ := List.exists_mem_of_ne_nil _ (utf8EncodeChar_ne_nil character)
  have among : byte ∈ Utf8.encode part := List.mem_flatMap.mpr ⟨character, inside, member⟩
  have noWord := other byte member
  cases munch with
  | word _ _ goesOn =>
      rw [goesOn byte among] at noWord
      cases noWord
  | integer _ digits =>
      rw [isWordByte, digits byte among, Bool.or_true] at noWord
      cases noWord
  | symbol symbol _ => exact absurd (List.mem_singleton.mp inside).symm (noSymbol symbol)
  | invalid =>
      obtain rfl := List.mem_singleton.mp inside
      exact ⟨rfl, rfl⟩

/-- **At one place there is one token.** -/
theorem Munch.unique {kind other : Token.Kind} {part behind inside after : List Char}
    (first : Munch kind part (Utf8.encode behind)) (second : Munch other inside (Utf8.encode after))
    (same : part ++ behind = inside ++ after) : kind = other ∧ part = inside := by
  obtain ⟨character, more, whole, -, read⟩ := first.exists_read
  obtain ⟨begins, further, there, -, again⟩ := second.exists_read
  obtain ⟨rfl, rfl⟩ := List.cons.inj (whole.symm.trans (same.trans there))
  have lexeme := read.symm.trans again
  exact ⟨congrArg Lexeme.kind lexeme, congrArg Lexeme.text lexeme⟩

/-! ## Tokenizations -/

/-- A token has an offset in its span. -/
def Token.Covers (token : Token) (offset : Nat) : Prop :=
  token.span.start ≤ offset ∧ offset < token.span.stop

namespace Source

variable {source : Source}

/-- A token stands in a source between two parts of its text: it has the characters there, and it is
as long as it can be. -/
structure Stands (source : Source) (token : Token) (before part behind : List Char) : Prop where
  text : source.text = before ++ (part ++ behind)
  spelled : token.text = String.ofList part
  span : token.span = ⟨Utf8.size before, Utf8.size before + Utf8.size part⟩
  line : token.line = before.count '\n'
  munch : Munch token.kind part (Utf8.encode behind)

/-- Tokens are a tokenization of a source: they stand in it in order, do not overlap, and leave out
the blanks and nothing else. -/
structure Tokenization (source : Source) (tokens : List Token) : Prop where
  ordered : tokens.Pairwise fun first second => first.span.stop ≤ second.span.start
  placed : ∀ token ∈ tokens, ∃ before part behind, source.Stands token before part behind
  blank_iff : ∀ offset byte, source.bytes[offset]? = some byte →
    (isBlankByte byte = true ↔ ∀ token ∈ tokens, ¬ token.Covers offset)

/-- Two parts at the front of a text that have the same size are the same. -/
theorem eq_of_size_eq {first second front back : List Char}
    (whole : first ++ second = front ++ back) (same : Utf8.size first = Utf8.size front) :
    first = front := by
  have none : ∀ {more : List Char}, Utf8.size more = 0 → more = [] := by
    intro more zero
    by_contra some
    exact Nat.ne_of_gt (Utf8.size_pos some) zero
  rcases List.append_eq_append_iff.mp whole with ⟨more, rfl, -⟩ | ⟨more, rfl, -⟩
  · rw [Utf8.size_append] at same
    rw [none (Nat.left_eq_add.mp same), List.append_nil]
  · rw [Utf8.size_append] at same
    rw [none (Nat.left_eq_add.mp same.symm), List.append_nil]

namespace Stands

variable {token other : Token} {before part behind front inside after : List Char}

theorem start_lt_stop (stands : source.Stands token before part behind) :
    token.span.start < token.span.stop := by
  rw [stands.span]
  exact Nat.lt_add_of_pos_right (Utf8.size_pos stands.munch.ne_nil)

/-- **Tokens that begin at one place are the same.** -/
theorem eq (first : source.Stands token before part behind)
    (second : source.Stands other front inside after)
    (same : token.span.start = other.span.start) : token = other := by
  have whole := first.text.symm.trans second.text
  have sizes : Utf8.size before = Utf8.size front := by
    rwa [first.span, second.span] at same
  obtain rfl := eq_of_size_eq whole sizes
  obtain ⟨kind, rfl⟩ := first.munch.unique second.munch (List.append_cancel_left whole)
  have spelled := first.spelled.trans second.spelled.symm
  have span := first.span.trans second.span.symm
  have line := first.line.trans second.line.symm
  cases token
  cases other
  simp_all only

/-- A token begins at a byte of the source. -/
theorem exists_byte (stands : source.Stands token before part behind) :
    ∃ byte, source.bytes[token.span.start]? = some byte := by
  have inside : token.span.start < source.bytes.length := by
    have some := Utf8.size_pos stands.munch.ne_nil
    rw [Source.bytes, Utf8.length_encode, stands.text, stands.span]
    simp only [Utf8.size_append]
    omega
  exact ⟨_, List.getElem?_eq_getElem inside⟩

/-- A character at an offset that a token has in its span is one of the token. -/
theorem exists_parts_of_covers (stands : source.Stands token before part behind) {offset : Nat}
    (covers : token.Covers offset) {character : Char}
    (whole : source.text = front ++ character :: after) (start : Utf8.size front ≤ offset)
    (stop : offset < Utf8.size (front ++ [character])) :
    ∃ left right, part = left ++ character :: right ∧ front = before ++ left := by
  rw [Token.Covers, stands.span] at covers
  rcases split_of_append_eq (stands.text.symm.trans whole) with
    ⟨more, rfl⟩ | ⟨more, rfl, behindPart⟩
  · -- the character would stand in front of the token
    simp only [Utf8.size_append, Utf8.size_cons, Utf8.size_nil] at covers stop
    omega
  · rcases split_of_append_eq behindPart with ⟨further, rfl⟩ | ⟨further, rfl, -⟩
    · exact ⟨more, further, rfl, rfl⟩
    · -- the character would stand behind the token
      simp only [Utf8.size_append] at covers start
      omega

end Stands

namespace Tokenization

variable {tokens others : List Token} {token other : Token}

/-- Tokens of a tokenization that have an offset in common are the same. -/
theorem eq_of_covers (tokenization : source.Tokenization tokens) (member : token ∈ tokens)
    (inside : other ∈ tokens) {offset : Nat} (covers : token.Covers offset)
    (also : other.Covers offset) : token = other := by
  have apart : ∀ {first second : Token}, first.Covers offset → second.Covers offset →
      ¬ first.span.stop ≤ second.span.start :=
    fun first second behind => Nat.lt_irrefl _ (Nat.lt_of_lt_of_le first.2
      (Nat.le_trans behind second.1))
  obtain ⟨front, behind, rfl⟩ := List.append_of_mem member
  obtain ⟨-, ordered, before⟩ := List.pairwise_append.mp tokenization.ordered
  rcases List.mem_append.mp inside with earlier | later
  · exact absurd (before other earlier token List.mem_cons_self) (apart also covers)
  · rcases List.mem_cons.mp later with same | later
    · exact same.symm
    · exact absurd (List.rel_of_pairwise_cons ordered later) (apart covers also)

/-- Every byte that is no blank is in a token. -/
theorem exists_covers_of_solid (tokenization : source.Tokenization tokens) {offset : Nat}
    {byte : UInt8} (there : source.bytes[offset]? = some byte) (solid : isBlankByte byte = false) :
    ∃ token ∈ tokens, token.Covers offset := by
  by_contra none
  simp only [not_exists, not_and] at none
  rw [(tokenization.blank_iff _ _ there).mpr none] at solid
  cases solid

/-- Where a token of one tokenization begins, some token of any other one stands. -/
theorem exists_covers (first : source.Tokenization tokens) (second : source.Tokenization others)
    (member : token ∈ tokens) : ∃ other ∈ others, other.Covers token.span.start := by
  obtain ⟨before, part, behind, stands⟩ := first.placed token member
  obtain ⟨byte, there⟩ := stands.exists_byte
  refine second.exists_covers_of_solid there (Bool.eq_false_iff.mpr fun blank => ?_)
  exact (first.blank_iff _ _ there).mp blank token member ⟨Nat.le_refl _, stands.start_lt_stop⟩

/-- **Every token of one tokenization is one of any other.**  By induction on where it begins: a
token of the other that stands there and begins earlier would be one of the first as well, and
overlap. -/
theorem subset (first : source.Tokenization tokens) (second : source.Tokenization others) :
    tokens ⊆ others := by
  intro token member
  induction place : token.span.start using Nat.strongRecOn generalizing tokens others token with
  | ind start ih =>
      obtain ⟨other, inside, covers⟩ := first.exists_covers second member
      obtain ⟨before, part, behind, stands⟩ := first.placed token member
      obtain ⟨front, between, after, there⟩ := second.placed other inside
      have same : token.span.start = other.span.start := by
        by_contra differs
        have earlier : other.span.start < start := by
          have below := covers.1
          omega
        have also := ih other.span.start earlier second first inside rfl
        have alike := first.eq_of_covers member also ⟨Nat.le_refl _, stands.start_lt_stop⟩ covers
        exact differs (congrArg (fun token => token.span.start) alike)
      exact stands.eq there same ▸ inside

/-- The tokens of a tokenization begin one behind the other. -/
theorem pairwise_start (tokenization : source.Tokenization tokens) :
    tokens.Pairwise fun first second => first.span.start < second.span.start := by
  refine tokenization.ordered.imp_of_mem fun {first second} member _ behind => ?_
  obtain ⟨before, part, behind_, stands⟩ := tokenization.placed first member
  exact Nat.lt_of_lt_of_le stands.start_lt_stop behind

/-- **Every other character is a token on its own.** -/
theorem exists_invalid (tokenization : source.Tokenization tokens) {front after : List Char}
    {character : Char} (whole : source.text = front ++ character :: after)
    (other : ∀ byte ∈ String.utf8EncodeChar character,
      isBlankByte byte = false ∧ isWordByte byte = false)
    (noSymbol : ∀ symbol : Symbol, symbol.character ≠ character) :
    ∃ token ∈ tokens, token.kind = .invalid ∧ token.text = String.ofList [character] ∧
      token.span = ⟨Utf8.size front, Utf8.size front + character.utf8Size⟩ := by
  obtain ⟨byte, bytes, spelled⟩ := List.exists_cons_of_ne_nil (utf8EncodeChar_ne_nil character)
  have there : source.bytes[Utf8.size front]? = some byte := by
    rw [Source.bytes, whole, Utf8.encode_append, Utf8.encode_cons, spelled, ← Utf8.length_encode]
    simp
  have solid := (other byte (spelled ▸ List.mem_cons_self)).1
  obtain ⟨token, member, covers⟩ := tokenization.exists_covers_of_solid there solid
  obtain ⟨before, part, behind, stands⟩ := tokenization.placed token member
  have positive := character.utf8Size_pos
  obtain ⟨left, right, parts, place⟩ := stands.exists_parts_of_covers covers whole (Nat.le_refl _)
    (by simp only [Utf8.size_append, Utf8.size_cons]; omega)
  obtain ⟨kind, alone⟩ := stands.munch.eq_of_other (by simp [parts])
    (fun byte member => (other byte member).2) noSymbol
  obtain rfl : left = [] := by
    rw [parts] at alone
    cases left with
    | nil => rfl
    | cons _ left => simp at alone
  rw [List.append_nil] at place
  subst place alone
  exact ⟨token, member, kind, stands.spelled, by simpa using stands.span⟩

/-- **There is only one tokenization.** -/
theorem eq (first : source.Tokenization tokens) (second : source.Tokenization others) :
    tokens = others := by
  let earlier : Token → Token → Prop := fun first second => first.span.start < second.span.start
  have : Std.Irrefl earlier := ⟨fun token => Nat.lt_irrefl _⟩
  have : Std.Antisymm earlier := ⟨fun _ _ before behind => absurd behind (Nat.lt_asymm before)⟩
  exact @List.Subset.antisymm_of_pairwise Token earlier _ _ _ _ first.pairwise_start
    second.pairwise_start (first.subset second) (second.subset first)

end Tokenization

end Source

namespace Cursor

/-- The place behind a number of steps. -/
def behind (cursor : Cursor) : Nat → Cursor
  | 0 => cursor
  | count + 1 => cursor.next.2.behind count

/-- At the end a step leads nowhere else. -/
theorem next_next_of_final {cursor : Cursor} (final : cursor.next.1.kind = .endOfFile) :
    cursor.next.2.next = cursor.next := by
  have place : cursor.next.2 = skipBlanks cursor.offset cursor.line cursor.rest := by
    unfold next at final ⊢
    cases left : (skipBlanks cursor.offset cursor.line cursor.rest).rest with
    | nil => simp only [left]
    | cons character text =>
        simp only [left] at final
        exact absurd final (Lexeme.kind_ne_endOfFile character text)
  rw [place, next_skipBlanks]

/-- **Step by step a cursor gives the tokens in front of it**, and then the last token of all for
ever. -/
theorem next_behind (cursor : Cursor) (count : Nat) :
    (cursor.behind count).next.1 = cursor.scan.1.getD count cursor.scan.2 := by
  induction count generalizing cursor with
  | zero =>
      by_cases final : cursor.next.1.kind = .endOfFile
      · rw [scan_of_final final]
        rfl
      · rw [scan_of_more final]
        rfl
  | succ count ih =>
      rw [behind, ih]
      by_cases final : cursor.next.1.kind = .endOfFile
      · have again := next_next_of_final final
        have there : cursor.next.2.next.1.kind = .endOfFile := by
          rw [again]
          exact final
        rw [scan_of_final final, scan_of_final there, again]
        rfl
      · rw [scan_of_more final]
        rfl

end Cursor

namespace Source

variable {source : Source}

/-! ## What is scanned -/

/-- **A token that is scanned stands in the source**, as long as it can be. -/
theorem exists_stands {token : Token} (member : token ∈ source.tokens) :
    ∃ before part behind, source.Stands token before part behind := by
  obtain ⟨earlier, later, whole⟩ := List.append_of_mem member
  obtain ⟨front, back, parts⟩ := exists_parts whole
  have scan := congrArg Prod.fst parts.scan
  have some : (Cursor.mk back (Utf8.size front) (front.count '\n')).next.1.kind ≠ .endOfFile := by
    intro final
    rw [Cursor.scan_of_final final] at scan
    cases scan
  rw [Cursor.scan_of_more some] at scan
  obtain ⟨first, -⟩ := List.cons.inj scan
  cases here : back with
  | nil =>
      rw [here] at some
      exact absurd rfl some
  | cons character more =>
      have stops := parts.passes.stops
      rw [here] at stops first
      have apart : isBlank character = false := stops character rfl
      have step := @Cursor.next_of_rest (Cursor.mk (character :: more) (Utf8.size front)
        (front.count '\n')) [] more character rfl (List.forall_mem_nil _) apart
      rw [step] at first
      refine ⟨front, (Lexeme.read character more).text, (Lexeme.read character more).rest, ?_, ?_,
        ?_, ?_, ?_⟩
      · rw [Lexeme.text_append_rest, parts.text, here]
      all_goals rw [← first]
      · rfl
      · rfl
      · exact Lexeme.munch_read apart more

/-- **What is scanned is a tokenization.** -/
theorem tokenization_tokens (source : Source) : source.Tokenization source.tokens := by
  refine ⟨(List.pairwise_append.mp source.pairwise_tokens).1.imp And.left,
    fun token member => exists_stands member, fun offset byte there => ?_⟩
  obtain ⟨front, character, after, whole, start, stop, inside⟩ := exists_character_of_byte there
  rw [agree_isBlank character byte inside]
  constructor
  · intro blank token member covers
    obtain ⟨before, part, behind, stands⟩ := exists_stands member
    obtain ⟨left, right, rfl, -⟩ := stands.exists_parts_of_covers covers whole start stop
    have solid := stands.munch.isBlank_eq character (by simp)
    rw [blank] at solid
    cases solid
  · intro outside
    by_contra solid
    obtain ⟨token, member, low, high, -⟩ :=
      source.passes_to_end.1.exists_token whole (Bool.eq_false_iff.mpr solid)
    rw [Cursor.start, Nat.zero_add] at low high
    exact outside token member ⟨Nat.le_trans low start, Nat.lt_of_lt_of_le stop high⟩

/-- **Scanning is the one tokenization.**  Step by step it gives the tokens of the source and then,
at the end, the same last token for ever.  These tokens are the only ones that stand in the source
in order, without overlap and at whole characters, that are words, integers and symbols which go as
far as they can and other characters on their own, and that leave out exactly the blanks. -/
theorem scanned_iff_tokenization (source : Source) :
    (∀ count, ((Cursor.start source.text).behind count).next.1 =
        source.tokens.getD count source.endToken) ∧
      source.endToken = ⟨.endOfFile, "", .point source.size, source.text.count '\n'⟩ ∧
      (∀ token ∈ source.tokens, token.kind ≠ .endOfFile ∧ token.span.start < token.span.stop) ∧
      (∀ tokens, source.Tokenization tokens ↔ tokens = source.tokens) ∧
      ∀ front character after, source.text = front ++ character :: after →
        (∀ byte ∈ String.utf8EncodeChar character,
          isBlankByte byte = false ∧ isWordByte byte = false) →
        (∀ symbol : Symbol, symbol.character ≠ character) →
        ∃ token ∈ source.tokens, token.kind = .invalid ∧ token.text = String.ofList [character] ∧
          token.span = ⟨Utf8.size front, Utf8.size front + character.utf8Size⟩ := by
  refine ⟨(Cursor.start source.text).next_behind, ?_,
    fun token member => ⟨source.kind_ne_endOfFile member, source.start_lt_stop member⟩,
    fun tokens => ⟨fun other => other.eq source.tokenization_tokens, ?_⟩, ?_⟩
  · rw [source.size_eq]
    exact source.passes_to_end.2
  · rintro rfl
    exact source.tokenization_tokens
  · intro front character after whole other noSymbol
    exact source.tokenization_tokens.exists_invalid whole other noSymbol

/-- Letters do not go on with digits, and a character of two bytes is one token. -/
theorem scanned_iff_tokenization_split :
    (Source.ofString "12ab\u00e9").Tokenization
      [⟨.integer, "12", ⟨0, 2⟩, 0⟩, ⟨.identifier, "ab", ⟨2, 4⟩, 0⟩,
        ⟨.invalid, "\u00e9", ⟨4, 6⟩, 0⟩] :=
  ((scanned_iff_tokenization _).2.2.2.1 _).mpr (by decide +kernel)

end Source

end SlotCompiler
