import SlotCompiler.Proofs.Scanning.Munch
import SlotCompiler.Proofs.Text.Fields
import SlotCompiler.Token.Listing

/-!
# Listings of tokens are faithful

No token has a newline in it, so a listing has one line for each token
(`TokenListing.splitOn_render`), and a line shows where its token begins, the name of its kind and
its text (`TokenListing.entry`).  Several kinds have one name, but the text of a token determines
its kind (`Source.kind_eq_of_text`), for a token is one also where nothing follows it.  So a line
can be read back (`TokenListing.entry_inj`), even if the text of the token is a quote.

The codes of a coloured listing are deleted from left to right (`TokenListing.withoutCodes`).  A
source may have escape characters in it, but each is a token on its own, and what follows it in the
listing is the quote behind the token and no bracket.
-/

set_option autoImplicit false

namespace SlotCompiler

/-! ## Texts of tokens -/

/-- A token is one as well where nothing follows it. -/
theorem Munch.alone {kind : Token.Kind} {part : List Char} {behind : List UInt8}
    (munch : Munch kind part behind) : Munch kind part (Utf8.encode []) := by
  cases munch with
  | word some begins goesOn _ isWord isKeyword =>
      exact .word some begins goesOn nofun isWord isKeyword
  | integer some digits => exact .integer some digits nofun
  | symbol symbol => exact .symbol symbol _
  | invalid other noSymbol => exact .invalid other noSymbol

namespace Source

variable {source other : Source} {token : Token}

/-- A token of a source is what its text is on its own, or the one behind all others. -/
theorem munch_of_mem_stream (member : token ∈ source.stream) :
    Munch token.kind token.text.toList (Utf8.encode []) ∨
      token.kind = .endOfFile ∧ token.text = "" := by
  rcases List.mem_append.mp member with inside | final
  · obtain ⟨before, part, behind, stands⟩ := exists_stands inside
    rw [stands.spelled, String.toList_ofList]
    exact .inl stands.munch.alone
  · obtain rfl := List.mem_singleton.mp final
    rw [source.passes_to_end.2]
    exact .inr ⟨rfl, rfl⟩

/-- **The text of a token determines its kind.** -/
theorem kind_eq_of_text {second : Token} (one : token ∈ source.stream)
    (two : second ∈ other.stream) (same : token.text = second.text) : token.kind = second.kind := by
  rcases munch_of_mem_stream one with munch | ⟨kind, empty⟩
  · rcases munch_of_mem_stream two with munch' | ⟨kind', empty'⟩
    · refine (munch.unique munch' ?_).1
      rw [same]
    · rw [same, empty'] at munch
      exact absurd rfl munch.ne_nil
  · rcases munch_of_mem_stream two with munch' | ⟨kind', empty'⟩
    · rw [← same, empty] at munch'
      exact absurd rfl munch'.ne_nil
    · rw [kind, kind']

/-- No token has a newline in it. -/
theorem newline_not_mem_text (member : token ∈ source.stream) : '\n' ∉ token.text.toList := by
  intro newline
  rcases munch_of_mem_stream member with munch | ⟨-, empty⟩
  · cases munch.isBlank_eq _ newline
  · rw [empty] at newline
    cases newline

/-- An escape character is a token on its own. -/
theorem text_eq_of_escape (member : token ∈ source.stream) (escape : '\x1b' ∈ token.text.toList) :
    token.text.toList = ['\x1b'] := by
  rcases munch_of_mem_stream member with munch | ⟨-, empty⟩
  · refine (munch.eq_of_other escape (by decide +kernel) fun symbol => ?_).2
    cases symbol <;> decide
  · rw [empty] at escape
    cases escape

end Source

namespace TokenListing

/-! ## Lines -/

/-- What a listing without colours shows of a token. -/
def entry (source : Source) (token : Token) : String :=
  let (line, column) := source.coordinates token.span.start
  "[" ++ Padding.zeros 2 line ++ ":" ++ Padding.zeros 2 column ++ "] " ++
    Padding.right 8 (label token.kind) ++ " '" ++ token.text ++ "'"

/-- What can be read of a token in a listing. -/
def shown (source : Source) (token : Token) : Token.Kind × String × Nat × Nat :=
  (token.kind, token.text, source.coordinates token.span.start)

variable {source other : Source} {token second : Token}

/-- Where a token begins, as a line shows it. -/
def place (source : Source) (token : Token) : List Char :=
  '[' :: ((Padding.zeros 2 (source.coordinates token.span.start).1).toList ++
    ':' :: ((Padding.zeros 2 (source.coordinates token.span.start).2).toList ++ [']', ' ']))

/-- The name of the kind and the text of a token, as a line shows them. -/
def quoted (token : Token) : List Char :=
  (Padding.right 8 (label token.kind)).toList ++ ' ' :: '\'' :: (token.text.toList ++ ['\''])

theorem toList_entry (source : Source) (token : Token) :
    (entry source token).toList = place source token ++ quoted token := by
  unfold entry
  simp [place, quoted]

theorem toList_line (coloured : Bool) (source : Source) (token : Token) :
    (line coloured source token).toList = place source token ++
      ((if coloured then (colour token.kind).code else "").toList ++ (quoted token ++
        ((if coloured then Colour.plain.code else "").toList ++ ['\n']))) := by
  unfold line
  simp [place, quoted]

theorem toList_render (coloured : Bool) (source : Source) : (render coloured source).toList =
    source.stream.flatMap fun token => (line coloured source token).toList := by
  rw [render, String.toList_join, List.flatMap_map]
  rfl

/-! ## Characters of a line -/

/-- The names of kinds are short and plain. -/
theorem label_spec (kind : Token.Kind) :
    (label kind).length ≤ 8 ∧ (label kind).toList.all Char.isAlpha = true := by
  have all : ∀ name ∈ ["EOF", "INVALID", "INT", "IDENT", "KEYWORD", "PAREN", "BRACKET", "BRACE",
      "OP"], name.length ≤ 8 ∧ name.toList.all Char.isAlpha = true := by
    decide +kernel
  refine all _ ?_
  cases kind with
  | symbol mark => cases mark <;> simp [label]
  | _ => simp [label]

/-- Every name fills its column with blanks. -/
theorem length_right_label (kind : Token.Kind) :
    (Padding.right 8 (label kind)).toList.length = 8 := by
  have short := (label_spec kind).1
  rw [Padding.toList_right, List.length_append, List.length_replicate, String.length_toList]
  omega

section Controls

variable {control : Char} (which : control = '\n' ∨ control = '\x1b')
include which

/-- Newlines and escape characters are not in the column of a name. -/
theorem not_mem_right_label (kind : Token.Kind) :
    control ∉ (Padding.right 8 (label kind)).toList := by
  rw [Padding.toList_right, List.mem_append]
  rintro (inside | blank)
  · have letter := List.all_eq_true.mp (label_spec kind).2 control inside
    rcases which with rfl | rfl <;> cases letter
  · obtain rfl := List.eq_of_mem_replicate blank
    revert which
    decide

theorem not_mem_zeros (width number : Nat) :
    control ∉ (Padding.zeros width number).toList := by
  intro member
  have digit := Padding.isDigit_of_mem_zeros width number control member
  rcases which with rfl | rfl <;> cases digit

/-- Nor are they in the place of a token, as a line shows it. -/
theorem not_mem_place (source : Source) (token : Token) : control ∉ place source token := by
  have marks : control ∉ ['[', ':', ']', ' '] := by
    rcases which with rfl | rfl <;> decide
  simp only [List.mem_cons, List.not_mem_nil, or_false, not_or] at marks
  simp [place, not_mem_zeros which, marks]

end Controls

theorem newline_not_mem_entry (member : token ∈ source.stream) :
    '\n' ∉ (entry source token).toList := by
  have text := Source.newline_not_mem_text member
  have front := not_mem_place (.inl rfl) source token
  have name := not_mem_right_label (.inl rfl) token.kind
  simp [toList_entry, quoted, front, name, text]

/-- **A line can be read back.** -/
theorem entry_inj (one : token ∈ source.stream) (two : second ∈ other.stream)
    (same : entry source token = entry other second) : shown source token = shown other second := by
  have text := congrArg String.toList same
  simp only [toList_entry, place, quoted, List.cons_append, List.append_assoc,
    List.nil_append] at text
  obtain ⟨line, text⟩ := Padding.zeros_append_inj (stops_cons rfl _) (stops_cons rfl _)
    (List.cons.inj text).2
  obtain ⟨column, text⟩ := Padding.zeros_append_inj (stops_cons rfl _) (stops_cons rfl _)
    (List.cons.inj text).2
  obtain ⟨-, text⟩ := List.append_inj (List.cons.inj (List.cons.inj text).2).2
    ((length_right_label _).trans (length_right_label _).symm)
  have spelled : token.text = second.text := String.toList_injective
    (List.append_cancel_right (List.cons.inj (List.cons.inj text).2).2)
  exact Prod.ext (Source.kind_eq_of_text one two spelled)
    (Prod.ext spelled (Prod.ext line column))

/-- What a line shows is all that it is made of. -/
theorem entry_eq_of_shown (same : shown source token = shown other second) :
    entry source token = entry other second := by
  obtain ⟨kind, rest⟩ := Prod.ext_iff.mp same
  obtain ⟨text, place⟩ := Prod.ext_iff.mp rest
  change source.coordinates token.span.start = other.coordinates second.span.start at place
  change token.kind = second.kind at kind
  change token.text = second.text at text
  rw [entry, entry, kind, text, place]

/-! ## Lines of a listing -/

/-- A listing without colours has an entry on each line. -/
theorem toList_render_plain (source : Source) : (render false source).toList =
    source.stream.flatMap fun token => (entry source token).toList ++ ['\n'] := by
  rw [toList_render]
  refine List.flatMap_congr fun token _ => ?_
  rw [toList_line, toList_entry]
  simp

/-- Lines one behind the other, each with a newline behind it, are what stands between newlines. -/
theorem splitOn_lines {lines : List (List Char)} (single : ∀ line ∈ lines, '\n' ∉ line) :
    (lines.flatMap (· ++ ['\n'])).splitOn '\n' = lines ++ [[]] := by
  have whole : lines.flatMap (· ++ ['\n']) = ['\n'].intercalate (lines ++ [[]]) := by
    clear single
    induction lines with
    | nil => rfl
    | cons line lines ih =>
        rw [List.flatMap_cons, ih, List.cons_append,
          List.intercalate_cons_of_ne_nil (List.append_ne_nil_of_right_ne_nil _ (by simp))]
  rw [whole]
  refine List.splitOn_intercalate '\n' ?_ (by simp)
  intro line member
  rcases List.mem_append.mp member with one | last
  · exact single line one
  · rw [List.mem_singleton.mp last]
    exact List.not_mem_nil

/-- **A listing has one line for each token.** -/
theorem splitOn_render (source : Source) : (render false source).toList.splitOn '\n' =
    source.stream.map (fun token => (entry source token).toList) ++ [[]] := by
  have whole : (render false source).toList =
      (source.stream.map fun token => (entry source token).toList).flatMap (· ++ ['\n']) := by
    rw [toList_render_plain, List.flatMap_map]
  rw [whole]
  refine splitOn_lines fun line member => ?_
  obtain ⟨token, inside, rfl⟩ := List.mem_map.mp member
  exact newline_not_mem_entry inside

/-- What agrees on all elements of two lists agrees on the lists. -/
theorem map_eq_map_of_mem {α β γ δ : Type} {one : α → γ} {two : β → γ} {one' : α → δ}
    {two' : β → δ} {first : List α} {second : List β}
    (determines : ∀ a ∈ first, ∀ b ∈ second, one a = two b → one' a = two' b)
    (same : first.map one = second.map two) : first.map one' = second.map two' := by
  induction first generalizing second with
  | nil => rw [List.map_eq_nil_iff.mp same.symm, List.map_nil, List.map_nil]
  | cons a first ih =>
      cases second with
      | nil => cases same
      | cons b second =>
          obtain ⟨head, tail⟩ := List.cons.inj same
          have rest := ih (fun a inside b inside' => determines a
            (List.mem_cons_of_mem _ inside) b (List.mem_cons_of_mem _ inside')) tail
          rw [List.map_cons, List.map_cons, rest,
            determines a List.mem_cons_self b List.mem_cons_self head]

/-- **A listing can be read back.** -/
theorem render_eq_iff_shown (source other : Source) : render false source = render false other ↔
    source.stream.map (shown source) = other.stream.map (shown other) := by
  constructor
  · intro same
    have lines := congrArg (fun text : String => text.toList.splitOn '\n') same
    simp only [splitOn_render, List.append_cancel_right_eq] at lines
    exact map_eq_map_of_mem
      (fun _ one _ two same => entry_inj one two (String.toList_injective same)) lines
  · intro same
    have entries : source.stream.map (fun token => (entry source token).toList ++ ['\n']) =
        other.stream.map (fun token => (entry other token).toList ++ ['\n']) :=
      map_eq_map_of_mem (fun _ _ _ _ same => by rw [entry_eq_of_shown same]) same
    refine String.toList_injective ?_
    rw [toList_render_plain, toList_render_plain, List.flatMap_def, List.flatMap_def, entries]

/-! ## Colour codes -/

/-- What stands behind a colour code at the front of a text. -/
def behindCode? : List Char → Option (List Char)
  | '\x1b' :: '[' :: text =>
    match text.takeWhile Char.isDigit, text.dropWhile Char.isDigit with
    | _ :: _, 'm' :: rest => some rest
    | _, _ => none
  | _ => none

/-- A colour code is an escape character, a bracket, digits and the letter m. -/
theorem behindCode?_eq_some_iff {text rest : List Char} : behindCode? text = some rest ↔
    ∃ digits, digits ≠ [] ∧ (∀ digit ∈ digits, digit.isDigit = true) ∧
      text = '\x1b' :: '[' :: (digits ++ 'm' :: rest) := by
  constructor
  · intro found
    unfold behindCode? at found
    split at found
    · rename_i text
      split at found
      · rename_i digit digits letter taken left
        obtain rfl := Option.some.inj found
        refine ⟨digit :: digits, List.cons_ne_nil _ _, ?_, ?_⟩
        · rw [← taken]
          exact fun digit member => List.mem_takeWhile_imp member
        · rw [← taken, ← left, List.takeWhile_append_dropWhile]
      · cases found
    · cases found
  · rintro ⟨digits, nonempty, all, rfl⟩
    have stops : ∀ character ∈ ('m' :: rest).head?, character.isDigit = false :=
      stops_cons rfl rest
    obtain ⟨taken, left⟩ := takeWhile_append_of_stops all stops
    obtain ⟨digit, digits, rfl⟩ := List.exists_cons_of_ne_nil nonempty
    rw [behindCode?, taken, left]
    rfl

/-- A text with its colour codes deleted, from left to right. -/
def withoutCodes : List Char → List Char
  | [] => []
  | character :: text =>
    match _found : behindCode? (character :: text) with
    | some rest => withoutCodes rest
    | none => character :: withoutCodes text
termination_by text => text.length
decreasing_by
  · obtain ⟨digits, -, -, whole⟩ := behindCode?_eq_some_iff.mp _found
    rw [whole]
    simp only [List.length_cons, List.length_append]
    omega
  · exact Nat.lt_succ_self _

theorem withoutCodes_nil : withoutCodes [] = [] := by
  rw [withoutCodes]

/-- A colour code is deleted. -/
theorem withoutCodes_of_code {text rest : List Char} (code : behindCode? text = some rest) :
    withoutCodes text = withoutCodes rest := by
  cases text with
  | nil => cases code
  | cons character text =>
      rw [withoutCodes]
      split
      · rename_i found
        rw [Option.some.inj (code.symm.trans found)]
      · rename_i missed
        cases code.symm.trans missed

/-- A character is kept that no bracket follows or that is no escape character. -/
theorem withoutCodes_cons {character : Char} {text : List Char}
    (kept : character = '\x1b' → '[' ∉ text.head?) :
    withoutCodes (character :: text) = character :: withoutCodes text := by
  rw [withoutCodes]
  split
  · rename_i found
    obtain ⟨digits, -, -, whole⟩ := behindCode?_eq_some_iff.mp found
    obtain ⟨escape, rfl⟩ := List.cons.inj whole
    exact absurd rfl (kept escape)
  · rfl

/-- A part of a text without escape characters is kept. -/
theorem withoutCodes_append {part : List Char} (text : List Char) (plain : '\x1b' ∉ part) :
    withoutCodes (part ++ text) = part ++ withoutCodes text := by
  induction part with
  | nil => rfl
  | cons character part ih =>
      obtain ⟨other, rest⟩ := not_or.mp (mt List.mem_cons.mpr plain)
      rw [List.cons_append, withoutCodes_cons (fun escape => absurd escape.symm other),
        ih rest, List.cons_append]

/-- The codes of a listing are colour codes. -/
theorem withoutCodes_code (coloured : Bool) (colour : Colour) (text : List Char) :
    withoutCodes ((if coloured then colour.code else "").toList ++ text) = withoutCodes text := by
  have code (colour : Colour) : ∃ digits, digits ≠ [] ∧ digits.all Char.isDigit = true ∧
      colour.code.toList = '\x1b' :: '[' :: (digits ++ ['m']) := by
    cases colour with
    | plain => exact ⟨['0'], by decide, by decide, by decide⟩
    | dim => exact ⟨['2'], by decide, by decide, by decide⟩
    | red => exact ⟨['3', '1'], by decide, by decide, by decide⟩
    | yellow => exact ⟨['3', '3'], by decide, by decide, by decide⟩
    | magenta => exact ⟨['3', '5'], by decide, by decide, by decide⟩
    | cyan => exact ⟨['3', '6'], by decide, by decide, by decide⟩
  cases coloured with
  | false => rfl
  | true =>
      obtain ⟨digits, nonempty, all, whole⟩ := code colour
      refine withoutCodes_of_code
        (behindCode?_eq_some_iff.mpr ⟨digits, nonempty, List.all_eq_true.mp all, ?_⟩)
      rw [if_pos rfl, whole]
      simp

/-- A token is kept in its quotes, also if it is an escape character. -/
theorem withoutCodes_quoted (member : token ∈ source.stream) (text : List Char) :
    withoutCodes (quoted token ++ text) = quoted token ++ withoutCodes text := by
  have name := not_mem_right_label (.inr rfl) token.kind
  by_cases escape : '\x1b' ∈ token.text.toList
  · obtain ⟨front, plain, alone⟩ : ∃ front, '\x1b' ∉ front ∧
        quoted token = front ++ ['\x1b', '\''] := by
      refine ⟨(Padding.right 8 (label token.kind)).toList ++ [' ', '\''], by simp [name], ?_⟩
      rw [quoted, Source.text_eq_of_escape member escape]
      simp
    -- what stands behind the escape character is the quote
    have kept : withoutCodes ('\x1b' :: '\'' :: text) = '\x1b' :: '\'' :: withoutCodes text := by
      rw [withoutCodes_cons (fun _ => by simp),
        withoutCodes_cons (fun escape => absurd escape (by decide))]
    calc withoutCodes (quoted token ++ text)
      _ = withoutCodes (front ++ '\x1b' :: '\'' :: text) := by
          rw [alone, List.append_assoc, List.cons_append, List.cons_append, List.nil_append]
      _ = front ++ '\x1b' :: '\'' :: withoutCodes text := by
          rw [withoutCodes_append _ plain, kept]
      _ = quoted token ++ withoutCodes text := by
          rw [alone, List.append_assoc, List.cons_append, List.cons_append, List.nil_append]
  · refine withoutCodes_append text ?_
    simp [quoted, name, escape]

/-- A line without its colour codes is the line without colours. -/
theorem withoutCodes_line (coloured : Bool) (member : token ∈ source.stream) (text : List Char) :
    withoutCodes ((line coloured source token).toList ++ text) =
      (entry source token).toList ++ ['\n'] ++ withoutCodes text := by
  have front := not_mem_place (.inr rfl) source token
  simp only [toList_line, toList_entry, List.append_assoc]
  rw [withoutCodes_append _ front, withoutCodes_code, withoutCodes_quoted member,
    withoutCodes_code, withoutCodes_append _ (by decide)]

/-- **A listing without its colour codes is the listing without colours.** -/
theorem withoutCodes_render (coloured : Bool) (source : Source) :
    withoutCodes (render coloured source).toList = (render false source).toList := by
  have lines (tokens : List Token) (all : tokens ⊆ source.stream) :
      withoutCodes (tokens.flatMap fun token => (line coloured source token).toList) =
        tokens.flatMap fun token => (entry source token).toList ++ ['\n'] := by
    induction tokens with
    | nil => exact withoutCodes_nil
    | cons token tokens ih =>
        obtain ⟨inside, rest⟩ := List.cons_subset.mp all
        rw [List.flatMap_cons, List.flatMap_cons, withoutCodes_line coloured inside,
          ih rest]
  rw [toList_render, toList_render_plain, lines _ (List.Subset.refl _)]

/-- **Listings of tokens are faithful.**  A listing without colours has one line for each token of a
source, the one at its end included, in order and with a newline behind each.  Two sources have the
same listing exactly if their tokens have the same kinds, the same texts and the same lines and
columns.  And a listing without its colour codes, deleted from left to right, is the listing without
colours, whatever characters the source has in it. -/
theorem listing_is_faithful (source : Source) :
    (render false source).toList.splitOn '\n' =
        source.stream.map (fun token => (entry source token).toList) ++ [[]] ∧
      (∀ other : Source, render false source = render false other ↔
        source.stream.map (shown source) = other.stream.map (shown other)) ∧
      ∀ coloured, withoutCodes (render coloured source).toList = (render false source).toList :=
  ⟨splitOn_render source, render_eq_iff_shown source, (withoutCodes_render · source)⟩

/-- An escape character and a bracket are tokens, and no part of a code in the listing. -/
example : withoutCodes (render true (Source.ofText ['\x1b', '['])).toList =
    "[01:01] INVALID  '\x1b'\n[01:02] BRACKET  '['\n[01:03] EOF      ''\n".toList := by
  decide +kernel

end TokenListing

end SlotCompiler
