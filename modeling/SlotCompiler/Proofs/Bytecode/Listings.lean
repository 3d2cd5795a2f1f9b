import SlotCompiler.Bytecode.Listing
import SlotCompiler.Proofs.Text.Fields

/-!
# Listings of units lose nothing

A listing is read back from the front.  The line of an instruction begins with the name of its
opcode, which has no blank in it, and the opcode says how many words follow; these stand behind
blanks, and no digit stands behind the last of them (`UnitListing.instruction_append_inj`).  The
comment is left over, so it does not matter that it says little about registers beyond the last one.
A function says how many instructions it has before it lists them
(`UnitListing.function_append_inj`), and a listing ends where no function begins.  So a listing has
one unit only (`UnitListing.render_eq_iff`).
-/

set_option autoImplicit false

namespace SlotCompiler

/-! ## Names of opcodes -/

namespace Opcode

theorem ofName?_name (opcode : Opcode) : ofName? opcode.name = some opcode := by
  cases opcode <;> decide +kernel

theorem name_injective : Function.Injective name := by
  intro first second same
  refine Option.some.inj ?_
  rw [← ofName?_name, ← ofName?_name, same]

/-- Whether a character may stand in the name of an opcode. -/
def isNamePart (character : Char) : Bool := character.isLower || character = '_'

theorem isNamePart_of_mem_name (opcode : Opcode) :
    ∀ character ∈ opcode.name.toList, isNamePart character = true :=
  List.all_eq_true.mp (by cases opcode <;> decide +kernel)

/-- No name fills its column. -/
theorem length_name_lt (opcode : Opcode) : opcode.name.length < 18 := by
  cases opcode <;> decide +kernel

end Opcode

namespace UnitListing

/-! ## Lines of instructions -/

/-- Words as they stand in a line, with a blank in front of each. -/
def wordText (words : List UInt64) : List Char :=
  words.flatMap fun word => ' ' :: (toString word).toList

/-- Words can be read back if it is known how many there are and no digit follows. -/
theorem wordText_append_inj {first second : List UInt64} {front back : List Char}
    (length : first.length = second.length)
    (ends : ∀ character ∈ front.head?, character.isDigit = false)
    (stops : ∀ character ∈ back.head?, character.isDigit = false)
    (same : wordText first ++ front = wordText second ++ back) : first = second := by
  have blank {words : List UInt64} {rest : List Char}
      (none : ∀ character ∈ rest.head?, character.isDigit = false) :
      ∀ character ∈ (wordText words ++ rest).head?, character.isDigit = false := by
    cases words with
    | nil => exact none
    | cons word words => exact stops_cons rfl _
  induction first generalizing second with
  | nil => exact (List.length_eq_zero_iff.mp length.symm).symm
  | cons word first ih =>
      cases second with
      | nil => cases length
      | cons other second =>
          simp only [wordText, List.flatMap_cons, List.cons_append, List.append_assoc,
            List.cons.injEq, true_and] at same
          have split : word.toNat = other.toNat ∧
              wordText first ++ front = wordText second ++ back :=
            toString_append_inj (blank ends) (blank stops) same
          rw [UInt64.toNat_inj.mp split.1, ih (Nat.succ.inj length) split.2]

/-- The text behind the name of an opcode, in front of the comment. -/
def columns (opcode : Opcode) (words : List UInt64) : List Char :=
  if words = [] then [] else List.replicate (17 - opcode.name.length) ' ' ++ wordText words

/-- Columns can be read back if it is known how many words there are and no digit follows. -/
theorem columns_append_inj {opcode : Opcode} {first second : List UInt64} {front back : List Char}
    (length : first.length = second.length)
    (ends : ∀ character ∈ front.head?, character.isDigit = false)
    (stops : ∀ character ∈ back.head?, character.isDigit = false)
    (same : columns opcode first ++ front = columns opcode second ++ back) : first = second := by
  by_cases none : first = []
  · rw [none] at length ⊢
    exact (List.length_eq_zero_iff.mp length.symm).symm
  · have some : second ≠ [] := by
      rintro rfl
      exact none (List.length_eq_zero_iff.mp length)
    rw [columns, columns, if_neg none, if_neg some, List.append_assoc, List.append_assoc] at same
    exact wordText_append_inj length ends stops (List.append_cancel_left same)

theorem toList_intercalate_words (word : UInt64) (words : List UInt64) :
    ' ' :: (" ".intercalate ((word :: words).map toString)).toList = wordText (word :: words) := by
  induction words generalizing word with
  | nil => simp [wordText]
  | cons other words ih =>
      have further := ih other
      rw [List.map_cons] at further ⊢
      rw [List.map_cons, String.intercalate_cons_cons, String.toList_append, String.toList_append,
        List.append_assoc, wordText, List.flatMap_cons, List.cons_append]
      exact congrArg (' ' :: (toString word).toList ++ ·) further

/-- The name of an opcode and its words in columns. -/
theorem toList_text (opcode : Opcode) (words : List UInt64) :
    let text := " ".intercalate (words.map toString)
    (if text.isEmpty then opcode.name else Padding.right 18 opcode.name ++ text).toList =
      opcode.name.toList ++ columns opcode words := by
  intro text
  cases words with
  | nil => simp [text, columns]
  | cons word words =>
      have joined : ' ' :: text.toList = wordText (word :: words) :=
        toList_intercalate_words word words
      have filled : ¬ text.isEmpty = true := by
        intro empty
        rw [String.isEmpty_iff.mp empty] at joined
        obtain ⟨none, -⟩ := List.append_eq_nil_iff.mp (List.cons.inj joined).2.symm
        exact Nat.repr_ne_empty (String.toList_eq_nil_iff.mp none)
      have width : 18 - opcode.name.length = 17 - opcode.name.length + 1 := by
        have short := opcode.length_name_lt
        omega
      rw [if_neg filled, String.toList_append, Padding.toList_right, width, List.replicate_succ',
        columns, if_neg (List.cons_ne_nil _ _), ← joined]
      simp only [List.append_assoc, List.singleton_append]

/-- A comment stands behind no digit. -/
theorem exists_note (text : String) (comment : Option String) : ∃ note,
    (match comment with
      | none => text
      | some comment => Padding.right 30 text ++ "; " ++ comment).toList = text.toList ++ note ∧
      (∀ character ∈ note.head?, character.isDigit = false) ∧ (comment = none → note = []) := by
  cases comment with
  | none => exact ⟨[], (List.append_nil _).symm, nofun, fun _ => rfl⟩
  | some comment =>
      refine ⟨List.replicate (30 - text.length) ' ' ++ ';' :: ' ' :: comment.toList, ?_, ?_, nofun⟩
      · dsimp only
        rw [String.toList_append, String.toList_append, Padding.toList_right, List.append_assoc,
          List.append_assoc]
        rfl
      · exact stops_blanks _ rfl rfl _

/-- **The line of an instruction** is the name of its opcode, its words, and then perhaps a comment
behind no digit. -/
theorem toList_instruction (first : Instruction) : ∃ note,
    (instruction first).toList =
      first.opcode.name.toList ++ (columns first.opcode first.arguments ++ note) ∧
      (∀ character ∈ note.head?, character.isDigit = false) ∧
      (first.arguments = [] → note = []) := by
  obtain ⟨note, line, noDigit, plain⟩ := exists_note _ (comment? first)
  refine ⟨note, ?_, noDigit, fun none => plain ?_⟩
  · rw [← List.append_assoc, ← toList_text]
    exact line
  · cases first with
    | call => cases none
    | setFunction => cases none
    | _ => rfl

/-- The name of an opcode ends where its columns begin, or at the end of the line. -/
theorem columns_end_name (opcode : Opcode) {words : List UInt64} {note : List Char}
    (plain : words = [] → note = []) (rest : List Char) :
    ∀ character ∈ (columns opcode words ++ (note ++ '\n' :: rest)).head?,
      Opcode.isNamePart character = false := by
  cases words with
  | nil =>
      rw [plain rfl]
      exact stops_cons rfl rest
  | cons word words =>
      rw [columns, if_neg (List.cons_ne_nil _ _), wordText, List.flatMap_cons, List.append_assoc]
      exact stops_blanks _ rfl rfl _

/-- **An instruction can be read back from its line.** -/
theorem instruction_append_inj {first second : Instruction} {front back : List Char}
    (same : (instruction first).toList ++ '\n' :: front =
      (instruction second).toList ++ '\n' :: back) : first = second ∧ front = back := by
  obtain ⟨note, line, noDigit, plain⟩ := toList_instruction first
  obtain ⟨other, otherLine, otherNoDigit, otherPlain⟩ := toList_instruction second
  have ends {note : List Char} (noDigit : ∀ character ∈ note.head?, character.isDigit = false)
      (rest : List Char) :
      ∀ character ∈ (note ++ '\n' :: rest).head?, character.isDigit = false := by
    cases note with
    | nil => exact stops_cons rfl rest
    | cons character note => exact noDigit
  have whole := same
  rw [line, otherLine] at whole
  simp only [List.append_assoc] at whole
  obtain ⟨name, behind⟩ := append_inj_of_stops Opcode.isNamePart
    first.opcode.isNamePart_of_mem_name second.opcode.isNamePart_of_mem_name
    (columns_end_name _ plain front) (columns_end_name _ otherPlain back) whole
  have opcode : first.opcode = second.opcode :=
    Opcode.name_injective (String.toList_injective name)
  have length : first.arguments.length = second.arguments.length := by
    rw [first.length_arguments, second.length_arguments, opcode]
  rw [opcode] at behind
  have arguments : first.arguments = second.arguments :=
    columns_append_inj length (ends noDigit front) (ends otherNoDigit back) behind
  obtain rfl : first = second := by
    have parts := first.ofParts_parts
    rw [opcode, arguments, second.ofParts_parts] at parts
    exact (Except.ok.inj parts).symm
  exact ⟨rfl, (List.cons.inj (List.append_cancel_left same)).2⟩

/-! ## Functions -/

/-- The code of a function can be read back if it is known how many instructions there are. -/
theorem code_append_inj {index : Nat} {first second : List Instruction} {front back : List Char}
    (length : first.length = second.length)
    (same : (code index first).toList ++ front = (code index second).toList ++ back) :
    first = second ∧ front = back := by
  induction first generalizing index second with
  | nil =>
      obtain rfl := List.length_eq_zero_iff.mp length.symm
      exact ⟨rfl, List.append_cancel_left same⟩
  | cons instruction first ih =>
      cases second with
      | nil => cases length
      | cons other second =>
          simp only [code, String.toList_append, List.append_assoc] at same
          obtain ⟨rfl, rest⟩ := instruction_append_inj
            (List.append_cancel_left (List.append_cancel_left same))
          obtain ⟨rfl, behind⟩ := ih (Nat.succ.inj length) rest
          exact ⟨rfl, behind⟩

/-- **A function can be read back from its listing.** -/
theorem function_append_inj {index : Nat} {first second : Routine} {front back : List Char}
    (same : (function index first).toList ++ front = (function index second).toList ++ back) :
    first = second ∧ front = back := by
  unfold function at same
  dsimp only at same
  generalize rule ++ "\n function[" ++ toString index ++ "]" ++
    (if index = 0 then " (main)" else "") ++ "\n " = heading at same
  simp only [String.toList_append, List.append_assoc] at same
  obtain ⟨slots, same⟩ : first.slotCount.toNat = second.slotCount.toNat ∧ _ :=
    toString_append_inj (by rintro _ ⟨⟩; rfl) (by rintro _ ⟨⟩; rfl) (List.append_cancel_left same)
  obtain ⟨length, same⟩ := toString_append_inj (by rintro _ ⟨⟩; rfl) (by rintro _ ⟨⟩; rfl)
    (List.append_cancel_left same)
  obtain ⟨instructions, same⟩ := code_append_inj length (List.append_cancel_left
    (List.append_cancel_left (List.append_cancel_left same)))
  refine ⟨?_, List.append_cancel_left same⟩
  cases first
  cases second
  cases UInt64.toNat_inj.mp slots
  cases instructions
  rfl

theorem functions_cons_ne (index : Nat) (first : Routine) (further : List Routine) :
    functions index (first :: further) ≠ functions index [] := by
  simp [functions, function]

/-- **The functions of a unit can be read back from their listings.** -/
theorem functions_inj {index : Nat} {first second : List Routine}
    (same : functions index first = functions index second) : first = second := by
  induction first generalizing index second with
  | nil =>
      cases second with
      | nil => rfl
      | cons other second => exact absurd same.symm (functions_cons_ne index other second)
  | cons routine first ih =>
      cases second with
      | nil => exact absurd same (functions_cons_ne index routine first)
      | cons other second =>
          have texts := congrArg String.toList same
          rw [functions, functions, String.toList_append, String.toList_append] at texts
          obtain ⟨rfl, rest⟩ := function_append_inj texts
          rw [ih (String.toList_injective rest)]

/-- **A listing loses nothing.**  Units with the same listing are the same, whatever their functions
and words. -/
theorem render_eq_iff (first second : CodeUnit) :
    render first = render second ↔ first = second := by
  refine ⟨fun same => ?_, congrArg render⟩
  have functions := functions_inj same
  cases first
  cases second
  cases functions
  rfl

/-- Where registers are out of range a comment does not tell two calls apart, but their words do. -/
example :
    comment? (.call (.ofNat (UInt64.size - 1)) 1) = comment? (.call (.ofNat (UInt64.size - 1)) 2) ∧
      instruction (.call (.ofNat (UInt64.size - 1)) 1) ≠
        instruction (.call (.ofNat (UInt64.size - 1)) 2) := by
  decide +kernel

end UnitListing

end SlotCompiler
