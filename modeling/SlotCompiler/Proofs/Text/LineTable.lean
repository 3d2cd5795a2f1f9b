import Mathlib.Data.List.TakeWhile
import Mathlib.Data.Set.Function
import Mathlib.Order.Interval.Set.Defs
import SlotCompiler.Proofs.Text.Decoding

/-!
# The table of lines

The table of a source is one of its bytes: a line begins in front of all of them, and behind every
newline (`Source.lineStarts_eq_newlineEnds`).  So the bytes are parted at any offset, also inside a
character, into the lines in front, the part of the line in front of the offset, and the rest
(`Source.LineParts`).  From there the line of the offset is read off, its number and its ends
(`Source.LineParts.lineAt_eq`, `Source.LineParts.lineSpan_eq`).

A search in the table finds an offset that begins a line, or else the place behind the line of the
offset (`Searched`); either way it leads to that line (`Source.lineAt_of_searched`).  All of this
agrees with counting newlines (`Source.lines_agree_with_newlines`).
-/

set_option autoImplicit false

namespace SlotCompiler

open Utf8 (newline)

/-! ## Newlines among bytes -/

/-- The offsets just behind the newlines of some bytes that stand at an offset. -/
def newlineEnds (offset : Nat) : List UInt8 → List Nat
  | [] => []
  | byte :: bytes =>
    if byte = newline then (offset + 1) :: newlineEnds (offset + 1) bytes
    else newlineEnds (offset + 1) bytes

section NewlineEnds

variable (offset : Nat) (bytes : List UInt8)

theorem newlineEnds_append (more : List UInt8) : newlineEnds offset (bytes ++ more) =
    newlineEnds offset bytes ++ newlineEnds (offset + bytes.length) more := by
  induction bytes generalizing offset with
  | nil => rfl
  | cons byte bytes ih =>
      simp only [List.cons_append, newlineEnds, List.length_cons, ih, Nat.add_assoc, Nat.add_comm 1]
      split <;> rfl

theorem lt_of_mem_newlineEnds : ∀ start ∈ newlineEnds offset bytes,
    offset < start ∧ start ≤ offset + bytes.length := by
  induction bytes generalizing offset with
  | nil => simp [newlineEnds]
  | cons byte bytes ih =>
      have further : ∀ start ∈ newlineEnds (offset + 1) bytes,
          offset < start ∧ start ≤ offset + (byte :: bytes).length := by
        intro start member
        have := ih _ start member
        rw [List.length_cons]
        omega
      rw [newlineEnds]
      split
      · simp only [List.forall_mem_cons, List.length_cons] at further ⊢
        exact ⟨by omega, further⟩
      · exact further

theorem pairwise_newlineEnds : (newlineEnds offset bytes).Pairwise (· < ·) := by
  induction bytes generalizing offset with
  | nil => exact .nil
  | cons byte bytes ih =>
      rw [newlineEnds]
      split
      · refine List.pairwise_cons.mpr ⟨?_, ih _⟩
        intro start member
        exact (lt_of_mem_newlineEnds _ _ start member).1
      · exact ih _

theorem length_newlineEnds : (newlineEnds offset bytes).length = bytes.count newline := by
  induction bytes generalizing offset with
  | nil => rfl
  | cons byte bytes ih =>
      rw [newlineEnds, List.count_cons]
      split
      · rename_i ends
        simp [ih, ends]
      · rename_i other
        simp [ih, other]

theorem newlineEnds_eq_nil {bytes : List UInt8} (none : newline ∉ bytes) :
    newlineEnds offset bytes = [] := by
  rw [← List.length_eq_zero_iff, length_newlineEnds]
  exact List.count_eq_zero_of_not_mem none

/-- Where the line ends that goes on at an offset: at the next newline, or at the end. -/
theorem stop_eq :
    (match (newlineEnds offset bytes).head? with
      | some next => next - 1
      | none => offset + bytes.length) =
      offset + (bytes.takeWhile (· ≠ newline)).length := by
  induction bytes generalizing offset with
  | nil => rfl
  | cons byte bytes ih =>
      rw [newlineEnds, List.takeWhile_cons]
      by_cases ends : byte = newline
      · rw [if_pos ends]
        simp [ends]
      · rw [if_neg ends, if_pos (decide_eq_true ends), List.length_cons, List.length_cons,
          Nat.add_comm bytes.length, Nat.add_comm (bytes.takeWhile _).length, ← Nat.add_assoc,
          ← Nat.add_assoc]
        exact ih _

/-- Only a newline has a newline among its bytes. -/
theorem newline_mem_utf8EncodeChar_iff {character : Char} :
    newline ∈ String.utf8EncodeChar character ↔ character = '\n' := by
  constructor
  · intro member
    exact eq_of_mem_utf8EncodeChar member (by decide)
  · rintro rfl
    decide

/-- The lines of a text are those of its bytes. -/
theorem lineStartsFrom_eq (text : List Char) :
    lineStartsFrom offset text = newlineEnds offset (Utf8.encode text) := by
  induction text generalizing offset with
  | nil => rfl
  | cons character text ih =>
      rw [lineStartsFrom, Utf8.encode_cons, newlineEnds_append, String.length_utf8EncodeChar, ih]
      split
      · rename_i ends
        rw [ends]
        rfl
      · rename_i other
        have none : newline ∉ String.utf8EncodeChar character := by
          rwa [newline_mem_utf8EncodeChar_iff]
        rw [newlineEnds_eq_nil _ none, List.nil_append]

end NewlineEnds

theorem Utf8.count_encode (text : List Char) :
    (encode text).count newline = text.count '\n' := by
  have read : decode (encode text) = text := by
    have whole := decode_encode_append text []
    rwa [List.append_nil, show decode [] = [] from rfl, List.append_nil] at whole
  rw [← count_decode, read]

theorem Utf8.newline_mem_encode_iff {text : List Char} : newline ∈ encode text ↔ '\n' ∈ text := by
  rw [← List.count_pos_iff, count_encode, List.count_pos_iff]

theorem Utf8.takeWhile_encode (text : List Char) :
    (encode text).takeWhile (· ≠ newline) = encode (text.takeWhile (· ≠ '\n')) := by
  induction text with
  | nil => rfl
  | cons character text ih =>
      rw [encode_cons, List.takeWhile_cons]
      by_cases ends : character = '\n'
      · rw [ends]
        rfl
      · have none : ∀ byte ∈ String.utf8EncodeChar character, decide (byte ≠ newline) = true := by
          intro byte member
          refine decide_eq_true ?_
          rintro rfl
          exact ends (newline_mem_utf8EncodeChar_iff.mp member)
        rw [if_pos (decide_eq_true ends), encode_cons, List.takeWhile_append_of_pos none, ih]

/-- What stands behind the last one of some elements, and in front of it. -/
theorem exists_behind_last {α : Type} [DecidableEq α] (separator : α) (elements : List α) :
    ∃ above front, elements = above ++ front ∧
      (above = [] ∨ ∃ lines, above = lines ++ [separator]) ∧ separator ∉ front := by
  induction elements with
  | nil => exact ⟨[], [], rfl, .inl rfl, List.not_mem_nil⟩
  | cons element elements ih =>
      obtain ⟨above, front, rfl, rfl | ⟨lines, rfl⟩, inside⟩ := ih
      · by_cases same : element = separator
        · exact ⟨[element], front, rfl, .inr ⟨[], by rw [same, List.nil_append]⟩, inside⟩
        · refine ⟨[], element :: front, rfl, .inl rfl, ?_⟩
          rw [List.mem_cons, not_or]
          exact ⟨Ne.symm same, inside⟩
      · exact ⟨element :: (lines ++ [separator]), front, rfl, .inr ⟨element :: lines, rfl⟩, inside⟩

/-- What stands in front of the next one of some elements, and from there on. -/
theorem exists_up_to_next {α : Type} [DecidableEq α] (separator : α) (elements : List α) :
    ∃ line rest, elements = line ++ rest ∧ separator ∉ line ∧
      (rest = [] ∨ ∃ more, rest = separator :: more) ∧
      elements.takeWhile (· ≠ separator) = line := by
  induction elements with
  | nil => exact ⟨[], [], rfl, List.not_mem_nil, .inl rfl, rfl⟩
  | cons element elements ih =>
      by_cases same : element = separator
      · exact ⟨[], element :: elements, rfl, List.not_mem_nil, .inr ⟨elements, by rw [same]⟩,
          by simp [same]⟩
      · obtain ⟨line, rest, whole, inside, ends, taken⟩ := ih
        refine ⟨element :: line, rest, by rw [whole, List.cons_append], ?_, ends, ?_⟩
        · rw [List.mem_cons, not_or]
          exact ⟨Ne.symm same, inside⟩
        · rw [List.takeWhile_cons, if_pos (decide_eq_true same), taken]

/-! ## The line of an offset -/

namespace Source

variable {source : Source}

theorem length_bytes (source : Source) : source.bytes.length = source.size := by
  rw [bytes, Utf8.length_encode, source.size_eq]

/-- **The table of lines is a table of bytes.** -/
theorem lineStarts_eq_newlineEnds (source : Source) :
    source.lineStarts = 0 :: newlineEnds 0 source.bytes := by
  rw [source.lineStarts_eq, lineStartsFrom_eq, bytes]

/-- The bytes of a source, parted at an offset into the lines in front of it, the part of its line
in front of it, and the rest. -/
structure LineParts (source : Source) (above front back : List UInt8) : Prop where
  bytes : source.bytes = above ++ (front ++ back)
  /-- The lines in front are whole. -/
  begins : above = [] ∨ ∃ lines, above = lines ++ [newline]
  inside : newline ∉ front

/-- The bytes can be parted at every offset. -/
theorem exists_lineParts {offset : Nat} (inside : offset ≤ source.size) :
    ∃ above front back, source.LineParts above front back ∧ (above ++ front).length = offset := by
  obtain ⟨above, front, same, begins, line⟩ :=
    exists_behind_last newline (source.bytes.take offset)
  refine ⟨above, front, source.bytes.drop offset, ⟨?_, begins, line⟩, ?_⟩
  · rw [← List.append_assoc, ← same, List.take_append_drop]
  · rw [← same, List.length_take, length_bytes]
    exact Nat.min_eq_left inside

namespace LineParts

variable {above front back : List UInt8}

/-- The table of lines, parted at the offset. -/
theorem lineStarts_eq (here : source.LineParts above front back) : source.lineStarts =
    (0 :: newlineEnds 0 above) ++ newlineEnds (above ++ front).length back := by
  rw [source.lineStarts_eq_newlineEnds, here.bytes, newlineEnds_append, newlineEnds_append,
    newlineEnds_eq_nil _ here.inside, List.nil_append, Nat.zero_add, List.length_append,
    List.cons_append]

/-- The last line in front begins where it ends. -/
theorem getLast_lineStarts (here : source.LineParts above front back) :
    (0 :: newlineEnds 0 above).getLast (List.cons_ne_nil _ _) = above.length := by
  rcases here.begins with rfl | ⟨lines, rfl⟩
  · rfl
  · have last : newlineEnds 0 (lines ++ [newline]) =
        newlineEnds 0 lines ++ [(lines ++ [newline]).length] := by
      rw [newlineEnds_append, Nat.zero_add, List.length_append]
      rfl
    simp only [last, ← List.cons_append, List.getLast_append_singleton]

/-- **The number of the line of an offset** is the number of newlines in front of it. -/
theorem lineAt_eq (here : source.LineParts above front back) :
    source.lineAt (above ++ front).length = above.count newline := by
  have before : ∀ start ∈ 0 :: newlineEnds 0 above,
      decide (start ≤ (above ++ front).length) = true := by
    intro start member
    rw [decide_eq_true_iff, List.length_append]
    rcases List.mem_cons.mp member with rfl | member
    · exact Nat.zero_le _
    · have := (lt_of_mem_newlineEnds 0 above start member).2
      omega
  have behind : (newlineEnds (above ++ front).length back).takeWhile
      (decide <| · ≤ (above ++ front).length) = [] := by
    cases starts : newlineEnds (above ++ front).length back with
    | nil => rfl
    | cons start others =>
        have beyond := (lt_of_mem_newlineEnds _ back start (starts ▸ List.mem_cons_self)).1
        exact List.takeWhile_cons_of_neg (by rw [decide_eq_true_iff]; omega)
  rw [lineAt, here.lineStarts_eq, List.takeWhile_append_of_pos before, behind, List.append_nil,
    List.length_cons, Nat.add_sub_cancel, length_newlineEnds]

/-- The entry of the line of the offset in the table, and the next one. -/
theorem getElem?_lineStarts (here : source.LineParts above front back) :
    source.lineStarts[above.count newline]? = some above.length ∧
      source.lineStarts[above.count newline + 1]? =
        (newlineEnds (above ++ front).length back).head? := by
  have last := here.getLast_lineStarts
  rw [List.getLast_eq_getElem] at last
  rw [here.lineStarts_eq, ← length_newlineEnds 0 above]
  constructor
  · rw [List.getElem?_append_left (by simp), List.getElem?_eq_getElem (by simp), ← last]
    simp
  · rw [List.getElem?_append_right (by simp), List.length_cons, Nat.sub_self,
      List.head?_eq_getElem?]

/-- **The line of an offset** begins behind the lines in front, and ends at the next newline. -/
theorem lineSpan_eq (here : source.LineParts above front back) :
    source.lineSpan (above ++ front).length = ⟨above.length,
      (above ++ front).length + (back.takeWhile (· ≠ newline)).length⟩ := by
  obtain ⟨start, next⟩ := here.getElem?_lineStarts
  have size : source.size = (above ++ front).length + back.length := by
    rw [← length_bytes, here.bytes, ← List.append_assoc, List.length_append]
  rw [lineSpan, here.lineAt_eq, List.getD_eq_getElem?_getD, start, next, size]
  exact congrArg (Span.mk _) (stop_eq _ back)

end LineParts

/-! ## Offsets at the end and beyond it -/

/-- An offset beyond the end stands on the line of the end. -/
theorem lineAt_min (source : Source) (offset : Nat) :
    source.lineAt (min offset source.size) = source.lineAt offset := by
  rcases Nat.le_total offset source.size with inside | beyond
  · rw [Nat.min_eq_left inside]
  have reached : ∀ {bound}, source.size ≤ bound →
      source.lineStarts.takeWhile (· ≤ bound) = source.lineStarts := by
    intro bound far
    refine List.takeWhile_eq_self_iff.mpr ?_
    intro start member
    rw [lineStarts_eq_newlineEnds, List.mem_cons] at member
    refine decide_eq_true ?_
    rcases member with rfl | member
    · exact Nat.zero_le _
    · have := (lt_of_mem_newlineEnds 0 _ start member).2
      rw [length_bytes] at this
      omega
  rw [Nat.min_eq_right beyond, lineAt, lineAt, reached (Nat.le_refl _), reached beyond]

/-- Offsets on one line have one line. -/
theorem lineSpan_congr {first second : Nat} (same : source.lineAt first = source.lineAt second) :
    source.lineSpan first = source.lineSpan second := by
  rw [lineSpan, lineSpan, same]

/-- **A line is numbered by the newlines in front of it.** -/
theorem lineAt_eq_count (source : Source) (offset : Nat) :
    source.lineAt offset = (source.bytes.take offset).count newline := by
  obtain ⟨above, front, back, here, position⟩ :=
    exists_lineParts (Nat.min_le_right offset source.size)
  have whole : source.bytes.take offset = above ++ front := by
    rw [List.take_eq_take_min, length_bytes, ← position, here.bytes, ← List.append_assoc,
      List.take_left]
  rw [← lineAt_min, ← position, here.lineAt_eq, whole, List.count_append,
    List.count_eq_zero_of_not_mem here.inside, Nat.add_zero]

/-- **The line of an offset**, which is read as the end when it is beyond it: the offset lies in the
line, there is no newline in it, and it goes from the beginning or a newline up to a newline or the
end. -/
structure IsLine (source : Source) (offset : Nat) (line : Span) : Prop where
  start_le : line.start ≤ min offset source.size
  le_stop : min offset source.size ≤ line.stop
  stop_le : line.stop ≤ source.size
  single : newline ∉ (source.bytes.drop line.start).take (line.stop - line.start)
  begins : line.start = 0 ∨ ∃ last, line.start = last + 1 ∧ source.bytes[last]? = some newline
  ends : line.stop = source.size ∨ source.bytes[line.stop]? = some newline

theorem isLine_lineSpan (source : Source) (offset : Nat) :
    source.IsLine offset (source.lineSpan offset) := by
  obtain ⟨above, front, back, here, offset_eq⟩ :=
    exists_lineParts (Nat.min_le_right offset source.size)
  obtain ⟨further, rest, same, goesOn, ends, taken⟩ := exists_up_to_next newline back
  have span : source.lineSpan offset =
      ⟨above.length, above.length + (front ++ further).length⟩ := by
    have found := here.lineSpan_eq
    rw [offset_eq, lineSpan_congr (source.lineAt_min offset), taken, ← offset_eq] at found
    simpa [Nat.add_assoc] using found
  have whole : source.bytes = above ++ ((front ++ further) ++ rest) := by
    rw [here.bytes, same, List.append_assoc]
  have size : source.size = above.length + (front ++ further).length + rest.length := by
    rw [← source.length_bytes, whole]
    simp only [List.length_append, Nat.add_assoc]
  rw [span]
  refine ⟨?_, ?_, ?_, ?_, ?_, ?_⟩
  · simp [← offset_eq]
  · simp [← offset_eq]
  · simp [size]
  · rw [whole, List.drop_left, Nat.add_sub_cancel_left, List.take_left, List.mem_append, not_or]
    exact ⟨here.inside, goesOn⟩
  · rcases here.begins with rfl | ⟨lines, rfl⟩
    · exact .inl rfl
    · exact .inr ⟨lines.length, by simp, by simp [whole]⟩
  · rcases ends with rfl | ⟨more, rfl⟩
    · exact .inl size.symm
    · refine .inr ?_
      rw [whole, ← List.append_assoc, ← List.length_append,
        List.getElem?_append_right (Nat.le_refl _), Nat.sub_self]
      rfl

/-- The entries of the table from which a line is made. -/
theorem getElem?_lineStarts (source : Source) (offset : Nat) :
    source.lineStarts[source.lineAt offset]? = some (source.lineSpan offset).start ∧
      ∀ next, source.lineStarts[source.lineAt offset + 1]? = some next →
        (source.lineSpan offset).stop + 1 = next := by
  obtain ⟨above, front, back, here, offset_eq⟩ :=
    exists_lineParts (Nat.min_le_right offset source.size)
  have number := here.lineAt_eq
  have span := here.lineSpan_eq
  obtain ⟨start, more⟩ := here.getElem?_lineStarts
  rw [offset_eq, lineAt_min] at number
  rw [offset_eq, lineSpan_congr (source.lineAt_min offset)] at span
  rw [number, start, span]
  refine ⟨rfl, ?_⟩
  intro next found
  have behind : ∀ start ∈ newlineEnds (above ++ front).length back, 0 < start := by
    intro start member
    have := (lt_of_mem_newlineEnds _ _ start member).1
    omega
  have stop := stop_eq (above ++ front).length back
  rw [← more, found] at stop
  have positive := behind next (List.mem_of_mem_head? (by rw [← more, found]; rfl))
  rw [offset_eq] at stop
  exact (congrArg (· + 1) stop.symm).trans (Nat.sub_add_cancel positive)

/-- The byte scan finds a newline between offsets exactly if they stand on different lines. -/
theorem newlineWithin_iff (source : Source) (start stop : Nat) :
    source.newlineWithin start stop = true ↔ source.lineAt start < source.lineAt stop := by
  rw [newlineWithin, List.contains_iff_mem, lineAt_eq_count, lineAt_eq_count]
  show newline ∈ _ ↔ _
  rcases Nat.le_total start stop with ordered | reversed
  · obtain ⟨distance, rfl⟩ := Nat.exists_eq_add_of_le ordered
    rw [Nat.add_sub_cancel_left, List.take_add, List.count_append, ← List.count_pos_iff]
    omega
  · obtain ⟨distance, rfl⟩ := Nat.exists_eq_add_of_le reversed
    rw [Nat.sub_eq_zero_of_le reversed, List.take_zero, List.take_add, List.count_append]
    simp

/-- Offsets of a source are told apart by their lines and columns. -/
theorem injOn_coordinates (source : Source) :
    Set.InjOn source.coordinates (Set.Iic source.size) := by
  intro first inside second there same
  rw [coordinates, coordinates, Nat.min_eq_left inside, Nat.min_eq_left there,
    Prod.mk.injEq] at same
  obtain ⟨lines, columns⟩ := same
  have one := lineSpan_congr (Nat.succ.inj lines)
  have before := (source.isLine_lineSpan first).start_le
  have before' := (source.isLine_lineSpan second).start_le
  rw [Nat.min_eq_left inside] at before
  rw [Nat.min_eq_left there] at before'
  rw [one] at columns before
  omega

end Source

/-! ## Searching the table -/

/-- What a search for a number in an ascending table answers: the place where it stands, or else the
place where it can be inserted. -/
inductive Searched (wanted : Nat) (table : List Nat) : Except Nat Nat → Prop where
  | found (before behind : List Nat) (whole : table = before ++ wanted :: behind) :
      Searched wanted table (.ok before.length)
  | missing (before behind : List Nat) (whole : table = before ++ behind)
      (below : ∀ number ∈ before, number < wanted) (above : ∀ number ∈ behind, wanted < number) :
      Searched wanted table (.error before.length)

/-- An ascending table can be searched. -/
theorem exists_searched {table : List Nat} (ascending : table.Pairwise (· < ·)) (wanted : Nat) :
    ∃ answer, Searched wanted table answer := by
  induction table with
  | nil => exact ⟨_, .missing [] [] rfl (by simp) (by simp)⟩
  | cons first table ih =>
      rw [List.pairwise_cons] at ascending
      rcases Nat.lt_trichotomy first wanted with smaller | rfl | larger
      · obtain ⟨_, ⟨before, behind, whole⟩ | ⟨before, behind, whole, below, above⟩⟩ :=
          ih ascending.2
        · exact ⟨_, .found (first :: before) behind (by rw [whole, List.cons_append])⟩
        · refine ⟨_, .missing (first :: before) behind (by rw [whole, List.cons_append]) ?_ above⟩
          exact List.forall_mem_cons.mpr ⟨smaller, below⟩
      · exact ⟨_, .found [] table rfl⟩
      · refine ⟨_, .missing [] (first :: table) rfl (by simp) ?_⟩
        refine List.forall_mem_cons.mpr ⟨larger, ?_⟩
        intro number member
        exact Nat.lt_trans larger (ascending.1 number member)

/-- In an ascending table a search tells how many numbers are not larger. -/
theorem length_takeWhile_of_searched {table : List Nat} (ascending : table.Pairwise (· < ·))
    {wanted : Nat} :
    (∀ index, Searched wanted table (.ok index) →
        (table.takeWhile (· ≤ wanted)).length = index + 1) ∧
      ∀ index, Searched wanted table (.error index) →
        (table.takeWhile (· ≤ wanted)).length = index := by
  have counted : ∀ {before behind : List Nat}, (∀ number ∈ before, number ≤ wanted) →
      (∀ number ∈ behind, wanted < number) →
      ((before ++ behind).takeWhile (· ≤ wanted)).length = before.length := by
    intro before behind below above
    have stops : behind.takeWhile (· ≤ wanted) = [] := by
      cases behind with
      | nil => rfl
      | cons number behind =>
          have larger := above number List.mem_cons_self
          exact List.takeWhile_cons_of_neg (by simpa using larger)
    rw [List.takeWhile_append_of_pos (by simpa using below), stops, List.append_nil]
  constructor
  · intro index searched
    cases searched with
    | found before behind whole =>
        rw [whole, List.pairwise_append, List.pairwise_cons] at ascending
        obtain ⟨-, ⟨larger, -⟩, smaller⟩ := ascending
        rw [whole, List.append_cons, counted ?_ larger, List.length_append]
        · rfl
        · intro number member
          rw [List.mem_append, List.mem_singleton] at member
          rcases member with inside | rfl
          · exact Nat.le_of_lt (smaller number inside wanted List.mem_cons_self)
          · exact Nat.le_refl _
  · intro index searched
    cases searched with
    | missing before behind whole below above =>
        rw [whole]
        exact counted (fun number member => Nat.le_of_lt (below number member)) above

namespace Source

theorem pairwise_lineStarts (source : Source) : source.lineStarts.Pairwise (· < ·) := by
  rw [lineStarts_eq_newlineEnds, List.pairwise_cons]
  refine ⟨?_, pairwise_newlineEnds 0 _⟩
  intro start member
  exact (lt_of_mem_newlineEnds 0 _ start member).1

/-- **Every search leads to the line of an offset**: it finds where that line begins, or else the
place behind it in the table, which is never the first. -/
theorem lineAt_of_searched (source : Source) (offset : Nat) :
    (∀ index, Searched (min offset source.size) source.lineStarts (.ok index) →
        source.lineAt offset = index) ∧
      ∀ index, Searched (min offset source.size) source.lineStarts (.error index) →
        source.lineAt offset + 1 = index := by
  obtain ⟨found, missing⟩ := @length_takeWhile_of_searched _ source.pairwise_lineStarts
    (min offset source.size)
  rw [← lineAt_min, lineAt]
  constructor
  · intro index searched
    rw [found index searched, Nat.add_sub_cancel]
  · intro index searched
    have first : 0 < (source.lineStarts.takeWhile (· ≤ min offset source.size)).length := by
      rw [lineStarts_eq_newlineEnds, List.takeWhile_cons_of_pos (by simp)]
      exact Nat.succ_pos _
    rw [Nat.sub_add_cancel first, missing index searched]

/-- **Lines agree with newlines.**  For every two offsets, read as the end when they are beyond it:
the number of the line of an offset is the number of newlines in front of it, and the line is the
one that has the offset in it.  Columns count from where the line begins, so line and column tell
offsets apart.  A newline stands between the offsets exactly if the line of the second one is
further down.

The search that finds the line always has an answer; where it gives the place behind the line, that
is not the first.  Both ends of the line are taken from entries of the table, and nothing is
subtracted from less. -/
theorem lines_agree_with_newlines (source : Source) (offset other : Nat) :
    let position := min offset source.size
    let line := source.lineSpan offset
    source.lineAt offset = (source.bytes.take offset).count newline ∧
      source.IsLine offset line ∧
      source.coordinates offset = (source.lineAt offset + 1, position - line.start + 1) ∧
      Set.InjOn source.coordinates (Set.Iic source.size) ∧
      (source.newlineWithin offset other = true ↔ source.lineAt offset < source.lineAt other) ∧
      (∃ answer, Searched position source.lineStarts answer) ∧
      (∀ index, Searched position source.lineStarts (.ok index) → source.lineAt offset = index) ∧
      (∀ index, Searched position source.lineStarts (.error index) →
        source.lineAt offset + 1 = index) ∧
      source.lineStarts[source.lineAt offset]? = some line.start ∧
      ∀ next, source.lineStarts[source.lineAt offset + 1]? = some next → line.stop + 1 = next := by
  intro position line
  obtain ⟨found, missing⟩ := source.lineAt_of_searched offset
  obtain ⟨start, next⟩ := source.getElem?_lineStarts offset
  refine ⟨source.lineAt_eq_count offset, source.isLine_lineSpan offset, ?_,
    source.injOn_coordinates, source.newlineWithin_iff offset other,
    exists_searched source.pairwise_lineStarts position, found, missing, start, next⟩
  rw [coordinates, lineAt_min, lineSpan_congr (source.lineAt_min offset)]

/-- The second of three lines, where it begins and inside its only character. -/
theorem lines_agree_inside_character :
    let source := Source.ofString "a\n\u00e9\n"
    (Searched 2 source.lineStarts (.ok 1) ∧ source.lineAt 2 = 1) ∧
      (Searched 3 source.lineStarts (.error 2) ∧ source.lineAt 3 + 1 = 2) ∧
      source.lineStarts[source.lineAt 3 + 1]? = some 5 ∧ (source.lineSpan 3).stop + 1 = 5 := by
  have begins : Searched 2 (Source.ofString "a\n\u00e9\n").lineStarts (.ok 1) :=
    .found [0] [5] rfl
  have inside : Searched 3 (Source.ofString "a\n\u00e9\n").lineStarts (.error 2) :=
    .missing [0, 2] [5] rfl (by decide) (by decide)
  have entry : (Source.ofString "a\n\u00e9\n").lineStarts[
      (Source.ofString "a\n\u00e9\n").lineAt 3 + 1]? = some 5 := by decide +kernel
  obtain ⟨-, -, -, -, -, -, found, -⟩ :=
    lines_agree_with_newlines (Source.ofString "a\n\u00e9\n") 2 99
  obtain ⟨-, -, -, -, -, -, -, missing, -, next⟩ :=
    lines_agree_with_newlines (Source.ofString "a\n\u00e9\n") 3 99
  exact ⟨⟨begins, found 1 begins⟩, ⟨inside, missing 2 inside⟩, entry, next 5 entry⟩

end Source

end SlotCompiler
