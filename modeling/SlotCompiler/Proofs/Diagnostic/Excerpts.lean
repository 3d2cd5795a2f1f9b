import SlotCompiler.Diagnostic.Excerpt
import SlotCompiler.Proofs.Text.LineTable

/-!
# Carets

A text is parted at an offset into the lines in front, the part of the line in front of the offset,
and the rest (`Source.LineFront`), and so are its bytes.  That gives the line of the offset
(`Source.LineFront.lineSpan_eq`), and the excerpt that is shown of it.  Indents count bytes, and
texts are read by characters; so the caret stands below the character at the offset if the line is
ASCII in front of it (`Source.LineFront.excerpt_eq`).
-/

set_option autoImplicit false

namespace SlotCompiler

/-! ## The line in front of an offset -/

namespace Source

/-- A text, parted into the lines in front of an offset, the part of its line in front of it, and
the rest. -/
structure LineFront (source : Source) (above front back : List Char) : Prop where
  text : source.text = above ++ (front ++ back)
  /-- The lines in front are whole. -/
  begins : above = [] ∨ ∃ lines, above = lines ++ ['\n']
  inside : '\n' ∉ front

/-- Every text can be parted so. -/
theorem exists_lineFront {source : Source} {text back : List Char}
    (whole : source.text = text ++ back) :
    ∃ above front, text = above ++ front ∧ source.LineFront above front back := by
  obtain ⟨above, front, same, begins, inside⟩ := exists_behind_last '\n' text
  exact ⟨above, front, same, by rw [whole, same, List.append_assoc], begins, inside⟩

namespace LineFront

variable {source : Source} {above front back : List Char}

/-- So are the bytes. -/
theorem lineParts (here : source.LineFront above front back) :
    source.LineParts (Utf8.encode above) (Utf8.encode front) (Utf8.encode back) := by
  refine ⟨?_, ?_, ?_⟩
  · rw [Source.bytes, here.text, Utf8.encode_append, Utf8.encode_append]
  · rcases here.begins with rfl | ⟨lines, rfl⟩
    · exact .inl rfl
    · exact .inr ⟨Utf8.encode lines, Utf8.encode_append lines ['\n']⟩
  · rw [Utf8.newline_mem_encode_iff]
    exact here.inside

theorem lineAt_eq (here : source.LineFront above front back) :
    source.lineAt (Utf8.size (above ++ front)) = above.count '\n' := by
  have parts := here.lineParts.lineAt_eq
  rwa [← Utf8.encode_append, Utf8.length_encode, Utf8.count_encode] at parts

/-- **The line of an offset** begins behind the lines in front, and ends at the next newline. -/
theorem lineSpan_eq (here : source.LineFront above front back) :
    source.lineSpan (Utf8.size (above ++ front)) = ⟨Utf8.size above,
      Utf8.size (above ++ front) + Utf8.size (back.takeWhile (· ≠ '\n'))⟩ := by
  have parts := here.lineParts.lineSpan_eq
  rwa [← Utf8.encode_append, Utf8.length_encode, Utf8.length_encode, Utf8.takeWhile_encode,
    Utf8.length_encode] at parts

/-- The bytes of the line in front of the offset. -/
theorem bytes_front (here : source.LineFront above front back) :
    (source.bytes.drop (source.lineSpan (Utf8.size (above ++ front))).start).take
        (Utf8.size (above ++ front) - (source.lineSpan (Utf8.size (above ++ front))).start) =
      Utf8.encode front := by
  have bytes : source.bytes = Utf8.encode above ++ (Utf8.encode front ++ Utf8.encode back) := by
    rw [Source.bytes, here.text, Utf8.encode_append, Utf8.encode_append]
  have length : Utf8.size (above ++ front) - Utf8.size above = Utf8.size front := by
    rw [Utf8.size_append, Nat.add_sub_cancel_left]
  rw [here.lineSpan_eq, bytes]
  dsimp only
  rw [length, List.drop_left' (Utf8.length_encode above),
    List.take_left' (Utf8.length_encode front)]

end LineFront

end Source

/-! ## What is shown -/

namespace Excerpt

/-- A character as it is shown. -/
def shownCharacter (character : Char) : Char :=
  if character = '\r' ∨ character = '\t' then ' ' else character

/-- Tabs and carriage returns are shown as blanks, and no byte of another character is one. -/
theorem map_shown_utf8EncodeChar (character : Char) :
    (String.utf8EncodeChar character).map shown =
      String.utf8EncodeChar (shownCharacter character) := by
  by_cases blank : character = '\r' ∨ character = '\t'
  · rcases blank with rfl | rfl <;> rfl
  · rw [shownCharacter, if_neg blank]
    refine (List.map_congr_left fun byte member => ?_).trans (List.map_id _)
    refine if_neg fun shows => ?_
    have small : byte.toNat < 0x80 := by rcases shows with rfl | rfl <;> decide
    refine blank ?_
    rw [eq_of_mem_utf8EncodeChar member small]
    rcases shows with rfl | rfl
    · exact .inl rfl
    · exact .inr rfl

theorem map_shown_encode (text : List Char) :
    (Utf8.encode text).map shown = Utf8.encode (text.map shownCharacter) := by
  induction text with
  | nil => rfl
  | cons character text ih =>
      rw [List.map_cons, Utf8.encode_cons, Utf8.encode_cons, List.map_append, ih,
        map_shown_utf8EncodeChar]

theorem shownCharacter_of_apart {character : Char} (apart : isBlank character = false) :
    shownCharacter character = character := by
  refine if_neg fun blank => ?_
  rcases blank with rfl | rfl <;> cases apart

/-- What is read of a text of which only some bytes are shown begins with its first character. -/
theorem head?_decode_take {back : List Char}
    (apart : ∀ character ∈ back.head?, isBlank character = false) {count : Nat}
    (enough : ∀ character ∈ back.head?, character.utf8Size ≤ count) :
    (Utf8.decode (((Utf8.encode back).take count).map shown)).head? = back.head? := by
  cases back with
  | nil => rw [Utf8.encode, List.flatMap_nil, List.take_nil]; rfl
  | cons character back =>
      have long := enough character rfl
      rw [← String.length_utf8EncodeChar] at long
      have single : Utf8.encode [character] = String.utf8EncodeChar character := by
        rw [Utf8.encode_cons]
        exact List.append_nil _
      rw [Utf8.encode_cons, List.take_append, List.take_of_length_le long, List.map_append,
        map_shown_utf8EncodeChar, shownCharacter_of_apart (apart character rfl), ← single,
        Utf8.decode_encode_append]
      rfl

/-- How many bytes behind the offset are shown. -/
def shownBehind (back : List Char) : Nat :=
  min reach (Utf8.size (back.takeWhile (· ≠ '\n')))

/-- The character at the offset is shown as a whole, if it is no blank. -/
theorem utf8Size_le_shownBehind {back : List Char}
    (apart : ∀ character ∈ back.head?, isBlank character = false) :
    ∀ character ∈ back.head?, character.utf8Size ≤ shownBehind back := by
  intro character first
  obtain ⟨more, rfl⟩ := List.head?_eq_some_iff.mp first
  have goesOn : decide (character ≠ '\n') = true := by
    refine decide_eq_true fun newline => ?_
    have other := apart character first
    rw [newline] at other
    cases other
  have bound : character.utf8Size ≤ reach :=
    Nat.le_trans character.utf8Size_le_four (by decide)
  simp only [shownBehind, List.takeWhile_cons, goesOn, if_true, Utf8.size_cons]
  omega

end Excerpt

namespace Source.LineFront

variable {source : Source} {above front back hidden visible : List Char}

/-- What the excerpt of the offset shows, if its line is ASCII in front of it: the last part of
that, and some bytes behind the offset. -/
theorem ofOffset_eq (here : source.LineFront above (hidden ++ visible) back)
    (length : hidden.length = (hidden ++ visible).length - Excerpt.reach)
    (ascii : ∀ character ∈ hidden ++ visible, IsAscii character) :
    let excerpt := Excerpt.ofOffset source (Utf8.size (above ++ (hidden ++ visible)))
    excerpt.indent = visible.length ∧
      excerpt.text = visible.map Excerpt.shownCharacter ++
        Utf8.decode (((Utf8.encode back).take (Excerpt.shownBehind back)).map Excerpt.shown) := by
  intro excerpt
  rw [List.forall_mem_append] at ascii
  have sizeHidden := Utf8.size_of_ascii ascii.1
  have sizeVisible := Utf8.size_of_ascii ascii.2
  rw [List.length_append] at length
  have inside : min (Utf8.size (above ++ (hidden ++ visible))) source.size =
      Utf8.size (above ++ (hidden ++ visible)) := by
    rw [source.size_eq, here.text]
    simp only [Utf8.size_append]
    omega
  have start : max (Utf8.size (above ++ (hidden ++ visible)) - Excerpt.reach) (Utf8.size above) =
      Utf8.size (above ++ hidden) := by
    simp only [Utf8.size_append]
    omega
  have stop : min (Utf8.size (above ++ (hidden ++ visible)) + Excerpt.reach)
      (Utf8.size (above ++ (hidden ++ visible)) + Utf8.size (back.takeWhile (· ≠ '\n'))) -
        Utf8.size (above ++ hidden) = Utf8.size visible + Excerpt.shownBehind back := by
    simp only [Utf8.size_append, Excerpt.shownBehind]
    omega
  have bytes : source.bytes =
      Utf8.encode (above ++ hidden) ++ (Utf8.encode visible ++ Utf8.encode back) := by
    rw [Source.bytes, here.text]
    simp only [Utf8.encode_append, List.append_assoc]
  constructor
  · simp only [excerpt, Excerpt.ofOffset, inside, here.lineSpan_eq, start]
    simp only [Utf8.size_append]
    omega
  · simp only [excerpt, Excerpt.ofOffset, inside, here.lineSpan_eq, start, stop, bytes]
    rw [List.drop_left' (Utf8.length_encode _), ← Utf8.length_encode visible,
      List.take_length_add_append, List.map_append, Excerpt.map_shown_encode,
      Utf8.decode_encode_append]

/-- **The caret stands below the character at the offset**, if its line is ASCII in front of it:
what is shown begins with as many characters of the line as the caret is indented, and then comes
that character. -/
theorem excerpt_eq (here : source.LineFront above front back)
    (ascii : ∀ character ∈ front, IsAscii character)
    (apart : ∀ character ∈ back.head?, isBlank character = false) :
    let excerpt := Excerpt.ofOffset source (Utf8.size (above ++ front))
    ∃ hidden visible after, front = hidden ++ visible ∧ visible.length = excerpt.indent ∧
      excerpt.text = visible.map Excerpt.shownCharacter ++ after ∧ after.head? = back.head? := by
  obtain ⟨hidden, visible, rfl, length⟩ : ∃ hidden visible, front = hidden ++ visible ∧
      hidden.length = front.length - Excerpt.reach :=
    ⟨_, _, (List.take_append_drop (front.length - Excerpt.reach) front).symm, by simp⟩
  obtain ⟨indent, text⟩ := here.ofOffset_eq length ascii
  exact ⟨hidden, visible, _, rfl, indent.symm, text,
    Excerpt.head?_decode_take apart (Excerpt.utf8Size_le_shownBehind apart)⟩

end Source.LineFront

end SlotCompiler
