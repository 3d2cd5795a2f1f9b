import SlotCompiler.Proofs.Wire.RoundTrip

/-!
# Instructions delimit themselves

Nothing marks the end of an instruction in the wire form, so its reader has to stop where the writer
stopped, for every opcode and whatever follows.  It does: the reader takes exactly what is written
for the instruction that it gives (`exact_readInstruction`).  No instruction is written in no bytes,
so the instructions of a concatenation are determined by its bytes even if their number is not known
(`PrefixFree.many_inj`).

How long an instruction is, only its opcode says.  Who has to ask for a tuple of elements beforehand
asks for one as long as the longest instructions, and leaves it early.  That is the same reader, for
this and for any greater length of the tuple (`readTuple_eq`).
-/

set_option autoImplicit false

namespace SlotCompiler.Wire

/-! ## Exactness -/

/-- An instruction is written in the byte of its opcode and eight bytes for each argument. -/
theorem length_writeInstruction (instruction : Instruction) :
    (writeInstruction instruction).length = 1 + 8 * instruction.opcode.arity := by
  have word : ∀ word, (writeWord word).length = 8 := fun word => (wordForm_writeWord word).1
  rw [writeInstruction, List.length_cons, List.length_flatMap, ← instruction.length_arguments]
  simp only [word, List.map_const', List.sum_replicate_nat]
  omega

/-- **A reader of instructions takes exactly what is written** for the instruction that it gives. -/
theorem exact_readInstruction :
    Recognises readInstruction fun instruction bytes => bytes = writeInstruction instruction := by
  refine recognises_readInstruction.congr fun instruction bytes => ⟨eq_writeInstruction _ _, ?_⟩
  rintro rfl
  exact instructionForm_writeInstruction instruction

/-- Values in an unambiguous form of at least one byte are determined by their concatenation, and so
is their number. -/
theorem PrefixFree.many_inj {α : Type} {form : α → List UInt8 → Prop} (single : PrefixFree form)
    (nonempty : ∀ {value bytes}, form value bytes → bytes ≠ []) {first second : List α}
    {bytes others : List UInt8} (here : Many form first bytes) (there : Many form second others)
    (same : bytes = others) : first = second := by
  induction here generalizing second others with
  | none =>
      cases there with
      | none => rfl
      | next value _ =>
          exact absurd same.symm (List.append_ne_nil_of_left_ne_nil (nonempty value) _)
  | next value _ ih =>
      cases there with
      | none => exact absurd same (List.append_ne_nil_of_left_ne_nil (nonempty value) _)
      | next other further =>
          obtain ⟨rfl, behind⟩ := single value other same
          rw [ih further behind]

/-- Instructions that are written one behind the other are told apart again. -/
theorem injective_flatMap_writeInstruction :
    Function.Injective fun code : List Instruction => code.flatMap writeInstruction := by
  intro code other same
  have single : PrefixFree fun instruction bytes => bytes = writeInstruction instruction :=
    exact_readInstruction.prefixFree
  refine single.many_inj ?_ (many_flatMap fun _ _ => rfl) (many_flatMap fun _ _ => rfl) same
  rintro instruction _ rfl
  exact List.cons_ne_nil _ _

/-! ## Tuples with elements to spare -/

/-- Takes elements off a tuple that has some number of them left; nothing comes of it if these are
too few. -/
def readElements {α : Type} (reader : Reader α) : (left count : Nat) → Reader (Option (List α))
  | _, 0 => return some []
  | 0, _ + 1 => return none
  | left + 1, count + 1 => do
    let value ← reader
    let values ← readElements reader left count
    return values.map (value :: ·)

/-- Takes an instruction off a tuple of a number of elements.  The first one is the opcode, the next
ones are as many words as it takes, and the tuple is left there. -/
def readTuple : (elements : Nat) → Reader (Option Instruction)
  | 0 => return none
  | left + 1 => do
    let id ← readByte
    match Opcode.ofId? id with
    | some opcode =>
      let words ← readElements readWord left opcode.arity
      return words.bind fun words => (Instruction.ofParts opcode words).toOption
    | none => throw (.unknownOpcode id)

/-- Elements that are left in the end do not matter. -/
theorem readElements_eq {α : Type} (reader : Reader α) {left count : Nat} (enough : count ≤ left) :
    readElements reader left count = some <$> readMany reader count := by
  induction count generalizing left with
  | zero => simp only [readElements, readMany, map_pure]
  | succ count ih =>
      cases left with
      | zero => cases enough
      | succ left =>
          simp only [readElements, readMany, ih (Nat.le_of_succ_le_succ enough), map_bind, map_pure,
            bind_map_left, Option.map_some]

/-- Takes as many words as an opcode takes, and makes an instruction of them. -/
def readWords (opcode : Opcode) : Reader (Option Instruction) := do
  let words ← readMany readWord opcode.arity
  return (Instruction.ofParts opcode words).toOption

theorem readUnary_eq {opcode : Opcode} {build : UInt64 → Instruction} (arity : opcode.arity = 1)
    (builds : ∀ word, Instruction.ofParts opcode [word] = .ok (build word)) :
    some <$> readUnary build = readWords opcode := by
  simp only [readWords, arity, readMany, readUnary, bind_assoc, pure_bind, map_bind, map_pure,
    builds, Except.toOption]

theorem readBinary_eq {opcode : Opcode} {build : UInt64 → UInt64 → Instruction}
    (arity : opcode.arity = 2)
    (builds : ∀ first second, Instruction.ofParts opcode [first, second] = .ok (build first second)) :
    some <$> readBinary build = readWords opcode := by
  simp only [readWords, arity, readMany, readBinary, bind_assoc, pure_bind, map_bind, map_pure,
    builds, Except.toOption]

/-- The readers of what follows the opcodes are one reader. -/
theorem readArguments_eq (opcode : Opcode) : some <$> readArguments opcode = readWords opcode := by
  cases opcode with
  | nothing => rfl
  | «return» | allocate | deallocate | setNull | negate | not =>
      exact readUnary_eq rfl fun _ => rfl
  | setFromConstant | setFunction | copy | add | mul | div | and | or | xor | equal | less
  | greater | call =>
      exact readBinary_eq rfl fun _ _ => rfl

/-- **A tuple is left early.** If it has room for the words of every opcode, its length does not
matter. -/
theorem readTuple_eq {elements : Nat} (room : ∀ opcode : Opcode, opcode.arity < elements) :
    readTuple elements = some <$> readInstruction := by
  cases elements with
  | zero => cases room .nothing
  | succ left =>
      simp only [readTuple, readInstruction, map_bind]
      refine bind_congr fun id => ?_
      cases Opcode.ofId? id with
      | none => rfl
      | some opcode =>
          have enough : opcode.arity ≤ left := Nat.le_of_lt_succ (room opcode)
          simp only [readElements_eq readWord enough, readArguments_eq, readWords, bind_map_left,
            Option.bind_some]

/-! ## The codec -/

/-- **The instruction codec is exact in both directions, and its encodings delimit themselves.**
What is written is read again, whatever follows; what is read is what is written for the instruction,
with as many arguments of eight bytes as its opcode takes; and a concatenation is that of one list
of instructions only.  All this holds as well if an instruction is read as a tuple that has elements
to spare. -/
theorem instruction_codec_exact :
    (∀ instruction rest,
      readInstruction (writeInstruction instruction ++ rest) = .ok (instruction, rest)) ∧
    (∀ bytes instruction rest, readInstruction bytes = .ok (instruction, rest) →
      bytes = writeInstruction instruction ++ rest ∧
        instruction.arguments.length = instruction.opcode.arity ∧
        (writeInstruction instruction).length = 1 + 8 * instruction.opcode.arity) ∧
    (∀ code other : List Instruction,
      code.flatMap writeInstruction = other.flatMap writeInstruction → code = other) ∧
    (∀ elements, (∀ opcode : Opcode, opcode.arity < elements) →
      readTuple elements = some <$> readInstruction) := by
  refine ⟨fun instruction rest => ?_, fun bytes instruction rest done => ?_,
    fun _ _ same => injective_flatMap_writeInstruction same, fun _ room => readTuple_eq room⟩
  · exact (exact_readInstruction _ _ _).mpr ⟨_, rfl, rfl⟩
  · obtain ⟨_, rfl, front⟩ := (exact_readInstruction _ _ _).mp done
    exact ⟨front, instruction.length_arguments, length_writeInstruction instruction⟩

/-- A copy is read off in front of a byte that is itself an opcode, also as a tuple of three
elements, and the bytes are those of the copy and of the instruction behind it and of no other
code. -/
theorem instruction_codec_copy :
    let bytes : List UInt8 := [7, 1, 0, 0, 0, 0, 0, 0, 0, 2, 1, 0, 0, 0, 0, 0, 0, 0]
    readInstruction bytes = .ok (.copy 1 258, [0]) ∧
      bytes = writeInstruction (.copy 1 258) ++ [0] ∧
      (∀ code : List Instruction,
        code.flatMap writeInstruction = bytes ↔ code = [.copy 1 258, .nothing]) ∧
      readTuple 3 bytes = .ok (some (.copy 1 258), [0]) := by
  intro bytes
  have done : readInstruction bytes = .ok (.copy 1 258, [0]) := by rfl
  have written : [Instruction.copy 1 258, .nothing].flatMap writeInstruction = bytes := by rfl
  have room : ∀ opcode : Opcode, opcode.arity < 3 := by
    intro opcode
    cases opcode <;> decide
  obtain ⟨front, -, -⟩ := instruction_codec_exact.2.1 bytes (.copy 1 258) [0] done
  refine ⟨done, front, fun code => ⟨fun same => ?_, ?_⟩, ?_⟩
  · exact instruction_codec_exact.2.2.1 code _ (same.trans written.symm)
  · rintro rfl
    exact written
  · rw [instruction_codec_exact.2.2.2 3 room]
    rfl

end SlotCompiler.Wire
