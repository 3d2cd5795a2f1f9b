import Mathlib.Data.List.Chain
import SlotCompiler.Proofs.Scanning.Munch

/-!
# Tokens spaced anew

The tokens of a text can be written down again with any blanks in front of them, between them and
behind them (`Layout`).  Where a token ends is told by what follows: it stays the same token exactly
in front of what it does not go on with (`Munch.iff_stops`).  With a blank no token goes on, and
whether it goes on with another token is a matter of their kinds alone (`Munch.goesOnWith_head`).
So the text that is written is scanned as the same tokens exactly if a blank stands where one token
would run into the next (`Source.rescans_iff_apart`).
-/

set_option autoImplicit false

namespace SlotCompiler

namespace Token.Kind

/-- Whether a kind is one of words: names and keywords. -/
def isWord : Token.Kind → Bool
  | .identifier | .keyword _ => true
  | .integer | .symbol _ | .invalid | .endOfFile => false

/-- Whether a kind is one of characters on their own. -/
def isAlone : Token.Kind → Bool
  | .symbol _ | .invalid => true
  | .identifier | .keyword _ | .integer | .endOfFile => false

/-- Whether a token of the first kind runs into one of the second kind: a word into a word or an
integer, and an integer into an integer. -/
def runsInto (first second : Token.Kind) : Bool :=
  first.isWord && (second.isWord || second = .integer) || first = .integer && second = .integer

/-- Whether a token of a kind goes on with a character. -/
def goesOnWith : Token.Kind → Char → Bool
  | .identifier, character | .keyword _, character => isWordPart character
  | .integer, character => character.isDigit
  | .symbol _, _ | .invalid, _ | .endOfFile, _ => false

theorem goesOnWith_of_isBlank (kind : Token.Kind) {character : Char}
    (blank : isBlank character = true) : kind.goesOnWith character = false := by
  cases kind with
  | identifier | keyword => exact not_isWordPart_of_isBlank blank
  | integer => exact not_isDigit_of_isBlank blank
  | symbol | invalid | endOfFile => rfl

/-- An integer does not run into a word, and nothing runs into a character on its own or the other
way round. -/
theorem runsInto_eq_false {first second : Token.Kind}
    (apart : first = .integer ∧ second.isWord = true ∨ first.isAlone = true ∨
      second.isAlone = true) : first.runsInto second = false := by
  rcases apart with ⟨rfl, word⟩ | alone | alone
  · cases second <;> simp [isWord, runsInto] at word ⊢
  · cases first <;> simp [isAlone, isWord, runsInto] at alone ⊢
  · cases second <;> simp [isAlone, isWord, runsInto] at alone ⊢

end Token.Kind

namespace Munch

variable {kind : Token.Kind} {part : List Char} {behind : List UInt8}

/-- **A token is one in front of any text that it does not go on with**, and of no other. -/
theorem iff_stops (munch : Munch kind part behind) (text : List Char) :
    Munch kind part (Utf8.encode text) ↔
      ∀ character ∈ text.head?, kind.goesOnWith character = false := by
  constructor
  · intro inFront
    cases inFront with
    | word _ _ _ stops isWord =>
        rw [agree_isWordPart.forall_head] at stops
        rcases isWord with rfl | ⟨keyword, rfl⟩ <;> exact stops
    | integer _ _ stops => exact (agree_isDigit.forall_head text false).mp stops
    | symbol | invalid => exact fun _ _ => rfl
  · intro stops
    cases munch with
    | word some begins goesOn _ isWord isKeyword =>
        refine .word some begins goesOn ?_ isWord isKeyword
        rw [agree_isWordPart.forall_head]
        rcases isWord with rfl | ⟨keyword, rfl⟩ <;> exact stops
    | integer some digits =>
        exact .integer some digits ((agree_isDigit.forall_head text false).mpr stops)
    | symbol symbol => exact .symbol symbol _
    | invalid other noSymbol => exact .invalid other noSymbol

/-- The classes of the first character of a token. -/
theorem class_of_head (munch : Munch kind part behind) : ∀ character ∈ part.head?,
    isWordPart character = (kind.isWord || kind = .integer) ∧
      character.isDigit = decide (kind = .integer) := by
  cases munch with
  | word _ begins _ _ isWord =>
      rw [agree_isWordStart.forall_head] at begins
      intro character first
      have start := begins character first
      have noDigit : character.isDigit = false := by
        refine Bool.eq_false_iff.mpr fun digit => ?_
        rw [not_isWordStart_of_isDigit digit] at start
        cases start
      rw [isWordPart_eq, start, noDigit]
      rcases isWord with rfl | ⟨keyword, rfl⟩ <;> exact ⟨rfl, rfl⟩
  | integer _ digits =>
      rw [agree_isDigit.forall_mem] at digits
      intro character first
      have digit := digits character (List.mem_of_mem_head? first)
      rw [isWordPart_eq, digit, Bool.or_true]
      exact ⟨rfl, rfl⟩
  | symbol symbol =>
      rintro _ ⟨⟩
      obtain ⟨-, noWord, noDigit, -⟩ := symbol.ofCharacter?_character
      rw [isWordPart_eq, noWord, noDigit]
      exact ⟨rfl, rfl⟩
  | @invalid character _ other =>
      rintro _ ⟨⟩
      obtain ⟨byte, inside⟩ := List.exists_mem_of_ne_nil _ (utf8EncodeChar_ne_nil character)
      have noWord := (other byte inside).2
      rw [agree_isWordPart character byte inside] at noWord
      have neither := noWord
      rw [isWordPart_eq, Bool.or_eq_false_iff] at neither
      rw [noWord, neither.2]
      exact ⟨rfl, rfl⟩

/-- **Whether a token goes on with another one is told by their kinds.** -/
theorem goesOnWith_head (munch : Munch kind part behind) (first : Token.Kind) :
    ∀ character ∈ part.head?, first.goesOnWith character = first.runsInto kind := by
  intro character head
  obtain ⟨word, digit⟩ := munch.class_of_head character head
  cases first with
  | identifier | keyword =>
      rw [Token.Kind.goesOnWith, word]
      simp [Token.Kind.runsInto, Token.Kind.isWord]
  | integer =>
      rw [Token.Kind.goesOnWith, digit]
      simp [Token.Kind.runsInto, Token.Kind.isWord]
  | symbol | invalid | endOfFile => rfl

end Munch

/-! ## Layouts -/

/-- The kind and the text of a token. -/
def Token.spelling (token : Token) : Token.Kind × String := (token.kind, token.text)

/-- The tokens as they are written down, each in front of the blanks behind it. -/
def Layout.written (pieces : List (Token × List Char)) : List Char :=
  pieces.flatMap fun piece => piece.1.text.toList ++ piece.2

/-- Blanks in front of some tokens and behind each of them, with which they are written down. -/
structure Layout (tokens : List Token) where
  front : List Char
  /-- The tokens, each with the blanks behind it. -/
  pieces : List (Token × List Char)
  tokens_eq : pieces.map Prod.fst = tokens
  front_blank : ∀ character ∈ front, isBlank character = true
  behind_blank : ∀ piece ∈ pieces, ∀ character ∈ piece.2, isBlank character = true

namespace Layout

variable {tokens : List Token}

/-- What is written down. -/
def text (layout : Layout tokens) : List Char := layout.front ++ written layout.pieces

/-- Two pieces do not run together: a blank stands between them if one token runs into the next. -/
def SetApart (piece next : Token × List Char) : Prop :=
  piece.1.kind.runsInto next.1.kind = true → piece.2 ≠ []

/-- No token runs into the next one. -/
def Apart (layout : Layout tokens) : Prop := layout.pieces.IsChain SetApart

end Layout

/-- A token goes on with what is written behind it only if it runs into the next token and no blank
stands in between. -/
theorem stops_written_iff {piece : Token × List Char} {pieces : List (Token × List Char)}
    (blank : ∀ character ∈ piece.2, isBlank character = true)
    (tokens : ∀ next ∈ pieces, ∃ behind, Munch next.1.kind next.1.text.toList behind) :
    (∀ character ∈ (piece.2 ++ Layout.written pieces).head?,
        piece.1.kind.goesOnWith character = false) ↔
      ∀ next ∈ pieces.head?, Layout.SetApart piece next := by
  obtain ⟨token, gap⟩ := piece
  cases gap with
  | cons character gap =>
      refine ⟨fun _ _ _ _ => List.cons_ne_nil _ _, fun _ => ?_⟩
      rintro _ ⟨⟩
      exact token.kind.goesOnWith_of_isBlank (blank character List.mem_cons_self)
  | nil =>
      cases pieces with
      | nil => exact ⟨fun _ => nofun, fun _ => nofun⟩
      | cons next pieces =>
          obtain ⟨behind, munch⟩ := tokens next List.mem_cons_self
          obtain ⟨character, inside, spelled⟩ := List.exists_cons_of_ne_nil munch.ne_nil
          have same := munch.goesOnWith_head token.kind character (by rw [spelled]; rfl)
          simp [Layout.written, Layout.SetApart, spelled, same]

namespace Cursor

variable {cursor : Cursor} {kind : Token.Kind} {blanks part behind : List Char}

/-- A token behind blanks is the next one. -/
theorem next_of_munch (here : cursor.rest = blanks ++ (part ++ behind))
    (blank : ∀ character ∈ blanks, isBlank character = true)
    (munch : Munch kind part (Utf8.encode behind)) :
    cursor.next.1.spelling = (kind, String.ofList part) ∧ cursor.next.2.rest = behind := by
  obtain ⟨character, more, whole, apart, read⟩ := munch.exists_read
  rw [whole] at here
  rw [next_of_rest here blank apart, read]
  exact ⟨rfl, rfl⟩

/-- If what would be a token elsewhere is the next one, then it is a token there. -/
theorem munch_of_next (here : cursor.rest = blanks ++ (part ++ behind))
    (blank : ∀ character ∈ blanks, isBlank character = true) {other : List Char}
    (munch : Munch kind part (Utf8.encode other)) :
    cursor.next.1.kind ≠ .endOfFile ∧ (cursor.next.1.spelling = (kind, String.ofList part) →
      Munch kind part (Utf8.encode behind)) := by
  obtain ⟨character, inside, rfl⟩ := List.exists_cons_of_ne_nil munch.ne_nil
  have apart := munch.isBlank_eq character List.mem_cons_self
  rw [List.cons_append] at here
  rw [next_of_rest here blank apart]
  refine ⟨Lexeme.kind_ne_endOfFile _ _, fun same => ?_⟩
  obtain ⟨rfl, text⟩ := Prod.mk.inj same
  have text := String.ofList_injective text
  have rest := Lexeme.text_append_rest character (inside ++ behind)
  rw [text, ← List.cons_append] at rest
  have read := Lexeme.munch_read apart (inside ++ behind)
  rwa [text, List.append_cancel_left rest] at read

/-- **What is written is scanned as the same tokens exactly if they stand apart.**  By induction on
the tokens: the first one is scanned again if it does not go on with what is written behind it, and
then the others are scanned from there. -/
theorem scan_written_iff {pieces : List (Token × List Char)}
    (here : cursor.rest = blanks ++ Layout.written pieces)
    (blank : ∀ character ∈ blanks, isBlank character = true)
    (gaps : ∀ piece ∈ pieces, ∀ character ∈ piece.2, isBlank character = true)
    (tokens : ∀ piece ∈ pieces, ∃ behind, Munch piece.1.kind piece.1.text.toList
      (Utf8.encode behind)) :
    cursor.scan.1.map Token.spelling = pieces.map (·.1.spelling) ↔
      pieces.IsChain Layout.SetApart := by
  induction pieces generalizing cursor blanks with
  | nil =>
      rw [Layout.written, List.flatMap_nil, List.append_nil] at here
      rw [scan_of_final (next_of_blanks (here ▸ blank))]
      exact ⟨fun _ => .nil, fun _ => rfl⟩
  | cons piece pieces ih =>
      rw [List.forall_mem_cons] at gaps tokens
      obtain ⟨⟨other, munch⟩, tokens⟩ := tokens
      have here : cursor.rest =
          blanks ++ (piece.1.text.toList ++ (piece.2 ++ Layout.written pieces)) := by
        rw [here, Layout.written, List.flatMap_cons, List.append_assoc]
        rfl
      have stops := munch.iff_stops (piece.2 ++ Layout.written pieces)
      rw [stops_written_iff gaps.1 fun next member =>
        (tokens next member).imp' Utf8.encode fun _ => id] at stops
      obtain ⟨more, again⟩ := munch_of_next here blank munch
      rw [String.ofList_toList] at again
      rw [scan_of_more more, List.map_cons, List.map_cons, List.cons.injEq, List.isChain_cons,
        ← stops]
      -- on either side the token stands here, and only then is the place behind it known
      constructor
      · rintro ⟨same, others⟩
        have there := again same
        obtain ⟨-, rest⟩ := next_of_munch here blank there
        exact ⟨there, (ih rest gaps.1 gaps.2 tokens).mp others⟩
      · rintro ⟨there, others⟩
        obtain ⟨same, rest⟩ := next_of_munch here blank there
        rw [String.ofList_toList] at same
        exact ⟨same, (ih rest gaps.1 gaps.2 tokens).mpr others⟩

end Cursor

namespace Source

theorem map_spelling_stream (source : Source) : source.stream.map Token.spelling =
    source.tokens.map Token.spelling ++ [(.endOfFile, "")] := by
  rw [stream, List.map_append, source.passes_to_end.2]
  rfl

/-- **Tokens that are spaced anew are scanned again** exactly if a blank stands between a word and a
word or an integer behind it, and between two integers.  So none has to stand between an integer and
a word behind it, nor beside a symbol or any other character on its own. -/
theorem rescans_iff_apart (source : Source) (layout : Layout source.tokens) :
    ((ofText layout.text).stream.map Token.spelling = source.stream.map Token.spelling ↔
        layout.Apart) ∧
      (layout.pieces.IsChain (fun piece next => piece.2 = [] →
          piece.1.kind = .integer ∧ next.1.kind.isWord = true ∨ piece.1.kind.isAlone = true ∨
            next.1.kind.isAlone = true) →
        (ofText layout.text).stream.map Token.spelling = source.stream.map Token.spelling) := by
  have tokens : ∀ piece ∈ layout.pieces,
      ∃ behind, Munch piece.1.kind piece.1.text.toList (Utf8.encode behind) := by
    intro piece member
    have scanned : piece.1 ∈ source.tokens := layout.tokens_eq ▸ List.mem_map_of_mem member
    obtain ⟨before, part, behind, stands⟩ := exists_stands scanned
    refine ⟨behind, ?_⟩
    rw [stands.spelled, String.toList_ofList]
    exact stands.munch
  have same : source.tokens.map Token.spelling = layout.pieces.map (Token.spelling ∘ Prod.fst) := by
    rw [← List.map_map (f := Prod.fst) (g := Token.spelling), layout.tokens_eq]
  have scanned := @Cursor.scan_written_iff (.start layout.text) layout.front layout.pieces rfl
    layout.front_blank layout.behind_blank tokens
  have rescans : (ofText layout.text).stream.map Token.spelling =
      source.stream.map Token.spelling ↔ layout.Apart := by
    rw [map_spelling_stream, map_spelling_stream, List.append_left_inj, same]
    exact scanned
  refine ⟨rescans, fun glued => rescans.mpr (glued.imp fun piece next alone into empty => ?_)⟩
  rw [Token.Kind.runsInto_eq_false (alone empty)] at into
  cases into

/-- No blank is needed between an integer and a word, nor beside a character of two bytes. -/
theorem rescans_iff_apart_glued :
    ∃ layout : Layout (ofString "12 ab \u00e9 (").tokens,
      layout.text = "\n12ab\u00e9(\t".toList ∧
        (ofText layout.text).stream.map Token.spelling =
          (ofString "12 ab \u00e9 (").stream.map Token.spelling :=
  ⟨⟨['\n'], [(⟨.integer, "12", ⟨0, 2⟩, 0⟩, []), (⟨.identifier, "ab", ⟨3, 5⟩, 0⟩, []),
    (⟨.invalid, "\u00e9", ⟨6, 8⟩, 0⟩, []), (⟨.symbol .leftParenthesis, "(", ⟨9, 10⟩, 0⟩, ['\t'])],
    by decide +kernel, by simp [isBlank], by simp [isBlank]⟩, by decide +kernel,
    (rescans_iff_apart _ _).2 (by decide +kernel)⟩

end Source

end SlotCompiler
