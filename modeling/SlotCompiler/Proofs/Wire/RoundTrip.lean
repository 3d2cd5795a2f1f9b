import SlotCompiler.Proofs.Wire.Recognition

/-!
# Writing is undone by reading

What is written is in the wire form, and among all bytes in the form of a value it is the shortest:
others differ from it only in varints with superfluous groups (`WritesShortest`).  So a unit that
is written out is loaded again (`CodeUnit.load_encode`), and bytes that are loaded are what is
written for their unit or longer, depending on their varints (`CodeUnit.load_iff_unitForm`).

Counts are 64-bit numbers when they are read.  A list in memory has fewer elements than that
(`CodeUnit.CountsFit`).
-/

set_option autoImplicit false

namespace SlotCompiler

namespace Opcode

/-- An opcode has the identifier it is found under. -/
theorem id_of_ofId? {id : UInt8} {opcode : Opcode} (known : ofId? id = some opcode) :
    opcode.id = id := by
  have table : ∀ place : Fin all.length, (all[place]).id.toNat = place := by decide
  obtain ⟨bound, rfl⟩ := List.getElem?_eq_some_iff.mp known
  exact UInt8.toNat_inj.mp (table ⟨id.toNat, bound⟩)

end Opcode

/-- An instruction is made only of its own parts. -/
theorem Instruction.parts_of_ofParts {opcode : Opcode} {arguments : List UInt64}
    {instruction : Instruction} (made : ofParts opcode arguments = .ok instruction) :
    instruction.opcode = opcode ∧ instruction.arguments = arguments := by
  unfold ofParts at made
  split at made <;> cases made <;> exact ⟨rfl, rfl⟩

namespace Wire

/-! ## What is written is in the wire form -/

theorem fixedForm_writeFixed {width value : Nat} (fits : value < 256 ^ width) :
    FixedForm width value (writeFixed width value) := by
  induction width generalizing value with
  | zero => exact ⟨rfl, (Nat.lt_one_iff.mp fits).symm⟩
  | succ width ih =>
      have small : value / 256 < 256 ^ width := Nat.div_lt_of_lt_mul (by rwa [Nat.pow_succ'] at fits)
      obtain ⟨length, number⟩ := ih small
      refine ⟨congrArg Nat.succ length, ?_⟩
      have digit : (UInt8.ofNat (value % 256)).toNat = value % 256 :=
        UInt8.toNat_ofNat_of_lt' (Nat.mod_lt _ (by decide))
      simp only [littleEndian] at number
      simp only [littleEndian, writeFixed, List.foldr_cons, number, digit]
      exact Nat.mod_add_div value 256

theorem wordForm_writeWord (word : UInt64) : WordForm word (writeWord word) :=
  fixedForm_writeFixed word.toNat_lt

theorem leb128_writeVarint (value : Nat) : Leb128 value (writeVarint value) := by
  fun_induction writeVarint value with
  | case1 value small =>
      have digit : (UInt8.ofNat value).toNat = value := UInt8.toNat_ofNat_of_lt' (show value < 256 by omega)
      have last := @Leb128.last (UInt8.ofNat value)
        (UInt8.lt_iff_toNat_lt.mpr (by rw [digit]; exact small))
      rwa [digit] at last
  | case2 value large ih =>
      have digit : (UInt8.ofNat (value % 128 + 128)).toNat = value % 128 + 128 :=
        UInt8.toNat_ofNat_of_lt' (show value % 128 + 128 < 256 by omega)
      have more := @Leb128.more (UInt8.ofNat (value % 128 + 128)) _ _
        (by rw [UInt8.lt_iff_toNat_lt, digit]; exact Nat.not_lt.mpr (Nat.le_add_left _ _)) ih
      rwa [digit, Nat.add_sub_cancel, Nat.mod_add_div] at more

theorem groupsWithin_writeVarint {further value : Nat} (fits : value < 2 * 128 ^ further) :
    GroupsWithin further value (writeVarint value) := by
  refine ⟨leb128_writeVarint value, ?_⟩
  induction further generalizing value with
  | zero =>
      rw [writeVarint, if_pos (by omega)]
      refine ⟨Nat.le_refl _, ?_⟩
      rintro _ ⟨⟩
      have : value = 0 ∨ value = 1 := by omega
      rcases this with rfl | rfl <;> decide
  | succ further ih =>
      rw [writeVarint]
      split
      · exact ⟨Nat.succ_le_succ (Nat.zero_le _), nofun⟩
      · have small : value / 128 < 2 * 128 ^ further :=
          Nat.div_lt_of_lt_mul (by rw [Nat.pow_succ] at fits; omega)
        obtain ⟨short, bound⟩ := ih small
        exact ⟨Nat.succ_le_succ short, bound⟩

theorem isVarint_writeVarint {value : Nat} (fits : value < 2 ^ 64) :
    IsVarint value (writeVarint value) :=
  have ⟨groups, short, bound⟩ := @groupsWithin_writeVarint 9 value fits
  ⟨groups, short, bound⟩

theorem instructionForm_writeInstruction (instruction : Instruction) :
    InstructionForm instruction (writeInstruction instruction) := by
  refine ⟨instruction.opcode.id, instruction.opcode, instruction.arguments,
    instruction.arguments.flatMap writeWord, Opcode.ofId?_id _, instruction.length_arguments, ?_,
    instruction.ofParts_parts, rfl⟩
  induction instruction.arguments with
  | nil => exact .none
  | cons word words ih => exact .next (wordForm_writeWord word) ih

section Counted

variable {α : Type} {varint : Nat → List UInt8 → Prop} {form : α → List UInt8 → Prop}
  {write : α → List UInt8}

theorem many_flatMap {values : List α} (each : ∀ value ∈ values, form value (write value)) :
    Many form values (values.flatMap write) := by
  induction values with
  | nil => exact .none
  | cons value values ih =>
      rw [List.forall_mem_cons] at each
      exact .next each.1 (ih each.2)

theorem counted_writeCounted {values : List α} (count : varint values.length (writeVarint values.length))
    (each : ∀ value ∈ values, form value (write value)) :
    Counted varint form values (writeCounted write values) :=
  ⟨writeVarint values.length, values.flatMap write, count, many_flatMap each, rfl⟩

end Counted

/-! ## What is written is the shortest -/

/-- Among the bytes in the form of a value, the written ones are the only minimal ones, and all
others are longer. -/
structure WritesShortest {α : Type} (write : α → List UInt8)
    (form minimal : α → List UInt8 → Prop) : Prop where
  eq_write : ∀ value bytes, minimal value bytes → bytes = write value
  minimal_or_lt : ∀ value bytes, form value bytes →
    minimal value bytes ∨ (write value).length < bytes.length

namespace WritesShortest

variable {α β : Type} {write writeBehind : α → List UInt8}
  {form minimal formBehind minimalBehind : α → List UInt8 → Prop}

/-- A form that leaves no freedom. -/
theorem ofUnique (unique : ∀ value bytes, form value bytes → bytes = write value) :
    WritesShortest write form form :=
  ⟨unique, fun _ _ => .inl⟩

theorem length_le (shortest : WritesShortest write form minimal) {value : α} {bytes : List UInt8}
    (holds : form value bytes) : (write value).length ≤ bytes.length := by
  rcases shortest.minimal_or_lt value bytes holds with least | longer
  · exact Nat.le_of_eq (congrArg List.length (shortest.eq_write value bytes least).symm)
  · exact Nat.le_of_lt longer

/-- The values of a field. -/
theorem field (shortest : WritesShortest write form minimal) (get : β → α) :
    WritesShortest (fun value => write (get value)) (fun value => form (get value))
      fun value => minimal (get value) :=
  ⟨fun value => shortest.eq_write (get value), fun value => shortest.minimal_or_lt (get value)⟩

theorem followedBy (first : WritesShortest write form minimal)
    (second : WritesShortest writeBehind formBehind minimalBehind) :
    WritesShortest (fun value => write value ++ writeBehind value) (FollowedBy form formBehind)
      (FollowedBy minimal minimalBehind) where
  eq_write := by
    rintro value _ ⟨front, behind, one, two, rfl⟩
    rw [first.eq_write _ _ one, second.eq_write _ _ two]
  minimal_or_lt := by
    rintro value _ ⟨front, behind, one, two, rfl⟩
    have front_le := first.length_le one
    have behind_le := second.length_le two
    simp only [List.length_append]
    rcases first.minimal_or_lt _ _ one with least | longer
    · rcases second.minimal_or_lt _ _ two with leastToo | longer
      · exact .inl ⟨front, behind, least, leastToo, rfl⟩
      · exact .inr (by omega)
    · exact .inr (by omega)

theorem eq_flatMap (shortest : WritesShortest write form minimal) (values : List α)
    (bytes : List UInt8) (least : Many minimal values bytes) : bytes = values.flatMap write := by
  induction least with
  | none => rfl
  | next value _ ih => rw [ih, shortest.eq_write _ _ value, List.flatMap_cons]

theorem many (shortest : WritesShortest write form minimal) :
    WritesShortest (·.flatMap write) (Many form) (Many minimal) where
  eq_write := shortest.eq_flatMap
  minimal_or_lt := by
    intro values bytes holds
    induction holds with
    | none => exact .inl .none
    | next value _ ih =>
        have value_le := shortest.length_le value
        simp only [List.flatMap_cons, List.length_append]
        rcases ih with least | longer
        · rcases shortest.minimal_or_lt _ _ value with leastToo | longer
          · exact .inl (.next leastToo least)
          · have same := congrArg List.length (shortest.eq_flatMap _ _ least)
            exact .inr (by omega)
        · exact .inr (by omega)

end WritesShortest

/-- Groups are those that are written for their number, or more. -/
theorem Leb128.eq_or_length_lt {value : Nat} {bytes : List UInt8} (groups : Leb128 value bytes) :
    bytes = writeVarint value ∨ (writeVarint value).length < bytes.length := by
  induction groups with
  | @last byte ends =>
      have small : byte.toNat < 128 := UInt8.lt_iff_toNat_lt.mp ends
      rw [writeVarint, if_pos small, UInt8.ofNat_toNat]
      exact .inl rfl
  | @more byte high bytes goesOn further ih =>
      have low : ¬ byte.toNat < 128 := fun small => goesOn (UInt8.lt_iff_toNat_lt.mpr small)
      have top := byte.toNat_lt
      by_cases superfluous : high = 0
      · -- nothing is left for the groups behind this byte
        rw [superfluous, writeVarint, if_pos (by omega)]
        cases further with
        | last => exact .inr (Nat.lt_succ_self 1)
        | more => exact .inr (Nat.succ_lt_succ (Nat.zero_lt_succ _))
      · have digit : (byte.toNat - 128 + 128 * high) % 128 + 128 = byte.toNat := by omega
        have rest : (byte.toNat - 128 + 128 * high) / 128 = high := by omega
        rw [writeVarint, if_neg (by omega), digit, rest, UInt8.ofNat_toNat]
        exact ih.imp (congrArg (byte :: ·)) Nat.succ_lt_succ

theorem writesShortest_varint : WritesShortest writeVarint IsVarint IsMinimalVarint where
  eq_write value bytes least := by
    rcases least.leb128.eq_or_length_lt with same | longer
    · exact same
    · exact absurd (least.minimal _ (leb128_writeVarint _)) (Nat.not_le_of_lt longer)
  minimal_or_lt := by
    intro value bytes varint
    refine varint.leb128.eq_or_length_lt.imp_left ?_
    rintro rfl
    refine ⟨varint, fun other groups => ?_⟩
    rcases groups.eq_or_length_lt with rfl | longer
    · exact Nat.le_refl _
    · exact Nat.le_of_lt longer

theorem eq_writeFixed (width value : Nat) (bytes : List UInt8) (form : FixedForm width value bytes) :
    bytes = writeFixed width value := by
  obtain ⟨rfl, rfl⟩ := form
  induction bytes with
  | nil => rfl
  | cons byte bytes ih =>
      have top := byte.toNat_lt
      have digit : littleEndian (byte :: bytes) % 256 = byte.toNat := by
        simp only [littleEndian, List.foldr_cons]
        omega
      have rest : littleEndian (byte :: bytes) / 256 = littleEndian bytes := by
        simp only [littleEndian, List.foldr_cons]
        omega
      rw [List.length_cons, writeFixed, digit, rest, UInt8.ofNat_toNat, ← ih]

theorem writesShortest_fixed (width value : Nat) {α : Type} :
    WritesShortest (fun _ : α => writeFixed width value) (fun _ => FixedForm width value)
      fun _ => FixedForm width value :=
  .ofUnique fun _ => eq_writeFixed width value

theorem writesShortest_word : WritesShortest writeWord WordForm WordForm :=
  .ofUnique fun word => eq_writeFixed 8 word.toNat

theorem eq_writeInstruction (instruction : Instruction) (bytes : List UInt8)
    (form : InstructionForm instruction bytes) : bytes = writeInstruction instruction := by
  obtain ⟨id, opcode, arguments, words, known, -, forms, made, rfl⟩ := form
  obtain ⟨rfl, rfl⟩ := Instruction.parts_of_ofParts made
  rw [writeInstruction, Opcode.id_of_ofId? known, ← writesShortest_word.eq_flatMap _ _ forms]

theorem writesShortest_counted {α : Type} {write : α → List UInt8}
    {form minimal : α → List UInt8 → Prop} (single : WritesShortest write form minimal) :
    WritesShortest (writeCounted write) (Counted IsVarint form) (Counted IsMinimalVarint minimal) :=
  (writesShortest_varint.field List.length).followedBy single.many

theorem writesShortest_function :
    WritesShortest writeFunction (FunctionForm IsVarint) (FunctionForm IsMinimalVarint) :=
  (writesShortest_word.field Routine.slotCount).followedBy
    ((writesShortest_counted (.ofUnique eq_writeInstruction)).field Routine.code)

theorem writesShortest_unit :
    WritesShortest CodeUnit.encode (UnitForm IsVarint) (UnitForm IsMinimalVarint) := by
  have parts := (writesShortest_fixed 4 magic).followedBy ((writesShortest_fixed 4 version).followedBy
    ((writesShortest_counted writesShortest_function).field CodeUnit.functions))
  have whole : CodeUnit.encode = fun unit => writeFixed 4 magic ++
      (writeFixed 4 version ++ writeCounted writeFunction unit.functions) := by
    funext unit
    exact List.append_assoc _ _ _
  rw [whole]
  exact parts

end Wire

/-! ## Unit files -/

/-- The functions of a unit, and the instructions of each of them, are counted by 64-bit numbers.
No list in memory is longer. -/
structure CodeUnit.CountsFit (unit : CodeUnit) : Prop where
  functions : unit.functions.length < 2 ^ 64
  code : ∀ function ∈ unit.functions, function.code.length < 2 ^ 64

namespace CodeUnit

open Wire

section Encode

variable {varint : Nat → List UInt8 → Prop} {unit : CodeUnit}

theorem counted_writeBody (functions : varint unit.functions.length
      (writeVarint unit.functions.length))
    (code : ∀ function ∈ unit.functions,
      varint function.code.length (writeVarint function.code.length)) :
    Counted varint (FunctionForm varint) unit.functions (writeBody unit) := by
  refine counted_writeCounted functions fun function member => ?_
  have counted : Counted varint InstructionForm function.code
      (writeCounted writeInstruction function.code) :=
    counted_writeCounted (code function member) fun instruction _ =>
      instructionForm_writeInstruction instruction
  exact ⟨_, _, wordForm_writeWord function.slotCount, counted, rfl⟩

/-- A unit whose counts fit is written as a unit file. -/
theorem unitForm_encode (fit : unit.CountsFit) : UnitForm IsVarint unit unit.encode := by
  have counted := counted_writeBody (isVarint_writeVarint fit.functions) fun function member =>
    isVarint_writeVarint (fit.code function member)
  exact ⟨_, _, fixedForm_writeFixed (by decide), ⟨_, _, fixedForm_writeFixed (by decide), counted,
    rfl⟩, List.append_assoc _ _ _⟩

theorem prefixFree_functionForm (counts : PrefixFree varint) :
    PrefixFree (FunctionForm varint) := by
  rintro ⟨slotCount, code⟩ ⟨otherCount, otherCode⟩ _ _ rest left
    ⟨slots, items, word, counted, rfl⟩ ⟨otherSlots, otherItems, otherWord, otherCounted, rfl⟩ same
  rw [List.append_assoc, List.append_assoc] at same
  obtain ⟨slots_eq, behind⟩ := recognises_readWord.prefixFree word otherWord same
  obtain ⟨code_eq, rest⟩ :=
    counts.counted recognises_readInstruction.prefixFree counted otherCounted behind
  exact ⟨congrArg₂ Routine.mk slots_eq code_eq, rest⟩

/-- No two units are written alike, even if their counts are too large to be read. -/
theorem injective_encode : Function.Injective encode := by
  intro unit other same
  have body : writeBody unit = writeBody other := List.append_cancel_left same
  have single : PrefixFree (Counted Leb128 (FunctionForm Leb128)) :=
    prefixFree_leb128.counted (prefixFree_functionForm prefixFree_leb128)
  have written : ∀ unit : CodeUnit,
      Counted Leb128 (FunctionForm Leb128) unit.functions (writeBody unit) := fun unit =>
    counted_writeBody (leb128_writeVarint _) fun _ _ => leb128_writeVarint _
  have functions := (single (written unit) (written other) (congrArg (· ++ []) body)).1
  exact congrArg CodeUnit.mk functions

end Encode

/-- **Loading undoes encoding.** A unit whose counts fit is loaded from its file, and no two units
have the same file. -/
theorem load_encode : (∀ unit : CodeUnit, unit.CountsFit → load unit.encode = .ok unit) ∧
    Function.Injective encode :=
  ⟨fun _ fit => load_eq_ok_iff.mpr (unitForm_encode fit), injective_encode⟩

/-- A unit with the largest word and the largest slot count is loaded again. -/
theorem load_encode_largest :
    let unit : CodeUnit := ⟨[⟨18446744073709551615,
      [.setFromConstant 0 18446744073709551615, .nothing, .return 0]⟩, ⟨0, []⟩]⟩
    unit.CountsFit ∧ load unit.encode = .ok unit := by
  intro unit
  have fit : unit.CountsFit := ⟨by decide, by decide⟩
  exact ⟨fit, load_encode.1 unit fit⟩

/-- **The unit files are the files of the wire form.** Bytes are loaded as a unit exactly if they
are in the form of that unit, whatever varints the counts are.  Then the file that is written for
the unit is the same if all the varints are minimal, and shorter if not. -/
theorem load_iff_unitForm (bytes : List UInt8) (unit : CodeUnit) :
    (load bytes = .ok unit ↔ UnitForm IsVarint unit bytes) ∧
      (load bytes = .ok unit →
        (UnitForm IsMinimalVarint unit bytes → unit.encode = bytes) ∧
        (¬ UnitForm IsMinimalVarint unit bytes → unit.encode.length < bytes.length)) := by
  refine ⟨load_eq_ok_iff, fun loaded => ⟨fun least => ?_, fun padded => ?_⟩⟩
  · exact (writesShortest_unit.eq_write _ _ least).symm
  · exact (writesShortest_unit.minimal_or_lt _ _ (load_eq_ok_iff.mp loaded)).resolve_left padded

/-- Superfluous groups in both counts of a file are accepted, and dropped in writing. -/
theorem length_encode_lt_padded :
    let bytes : List UInt8 := [67, 78, 68, 82, 1, 0, 0, 0, 129, 0, 2, 0, 0, 0, 0, 0, 0, 0, 128, 0]
    let unit : CodeUnit := ⟨[⟨2, []⟩]⟩
    load bytes = .ok unit ∧ ¬ UnitForm IsMinimalVarint unit bytes ∧
      unit.encode.length < bytes.length := by
  intro bytes unit
  have loaded : load bytes = .ok unit := by rfl
  have shorter := (load_iff_unitForm bytes unit).2 loaded
  have padded : ¬ UnitForm IsMinimalVarint unit bytes := by
    intro least
    have same : unit.encode ≠ bytes := by decide +kernel
    exact same (shorter.1 least)
  exact ⟨loaded, padded, shorter.2 padded⟩

end CodeUnit

end SlotCompiler
