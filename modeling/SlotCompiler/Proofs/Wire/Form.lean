import SlotCompiler.Wire.Unit

/-!
# The wire form as a grammar

Which bytes are the wire form of a value is said here without a reader or a writer:

    unit        := magic version count function*      (magic and version in four bytes each)
    function    := word count instruction*
    instruction := opcode word*
    word        := eight bytes, the least significant first
    count       := varint

The only freedom is in the varints, since superfluous groups of zeros may follow the others.  So the
forms of functions and units are relative to the varints that are allowed as counts: all of them
(`IsVarint`) or only the shortest ones (`IsMinimalVarint`).
-/

set_option autoImplicit false

namespace SlotCompiler.Wire

/-! ## Numbers -/

/-- The number that bytes hold, the least significant byte first. -/
def littleEndian (bytes : List UInt8) : Nat :=
  bytes.foldr (fun byte high => byte.toNat + 256 * high) 0

/-- A number in a fixed number of bytes. -/
def FixedForm (width value : Nat) (bytes : List UInt8) : Prop :=
  bytes.length = width ∧ littleEndian bytes = value

/-- A word in eight bytes. -/
def WordForm (word : UInt64) (bytes : List UInt8) : Prop := FixedForm 8 word.toNat bytes

/-- A number in groups of seven bits, the least significant first.  The top bit of a byte says that
another one follows. -/
inductive Leb128 : Nat → List UInt8 → Prop where
  | last {byte : UInt8} (ends : byte < 128) : Leb128 byte.toNat [byte]
  | more {byte : UInt8} {high : Nat} {bytes : List UInt8} (goesOn : ¬ byte < 128)
      (further : Leb128 high bytes) : Leb128 (byte.toNat - 128 + 128 * high) (byte :: bytes)

/-- A number of 64 bits in at most ten groups.  The tenth group has room for one bit. -/
structure IsVarint (value : Nat) (bytes : List UInt8) : Prop where
  leb128 : Leb128 value bytes
  length_le : bytes.length ≤ 10
  tenth_le : ∀ tenth ∈ bytes[9]?, tenth ≤ 1

/-- A varint such that no other groups of the same number are fewer. -/
structure IsMinimalVarint (value : Nat) (bytes : List UInt8) : Prop extends
    IsVarint value bytes where
  minimal : ∀ other, Leb128 value other → bytes.length ≤ other.length

/-! ## Sequences -/

section Sequences

variable {α : Type}

/-- Values one behind the other. -/
inductive Many (form : α → List UInt8 → Prop) : List α → List UInt8 → Prop where
  | none : Many form [] []
  | next {value : α} {values : List α} {bytes more : List UInt8} (first : form value bytes)
      (further : Many form values more) : Many form (value :: values) (bytes ++ more)

/-- The bytes of one form and then those of another, for the same value. -/
def FollowedBy (first second : α → List UInt8 → Prop) (value : α) (bytes : List UInt8) : Prop :=
  ∃ front behind, first value front ∧ second value behind ∧ bytes = front ++ behind

/-- Values behind their count. -/
def Counted (varint : Nat → List UInt8 → Prop) (form : α → List UInt8 → Prop) :
    List α → List UInt8 → Prop :=
  FollowedBy (fun values => varint values.length) (Many form)

end Sequences

/-! ## Units -/

/-- An opcode and as many words as it takes. -/
def InstructionForm (instruction : Instruction) (bytes : List UInt8) : Prop :=
  ∃ id opcode arguments words, Opcode.ofId? id = some opcode ∧
    arguments.length = opcode.arity ∧ Many WordForm arguments words ∧
    Instruction.ofParts opcode arguments = .ok instruction ∧ bytes = id :: words

/-- The number of slots and the counted instructions. -/
def FunctionForm (varint : Nat → List UInt8 → Prop) : Routine → List UInt8 → Prop :=
  FollowedBy (fun function => WordForm function.slotCount) fun function =>
    Counted varint InstructionForm function.code

/-- A unit file: the header and the counted functions. -/
def UnitForm (varint : Nat → List UInt8 → Prop) : CodeUnit → List UInt8 → Prop :=
  FollowedBy (fun _ => FixedForm 4 magic) <| FollowedBy (fun _ => FixedForm 4 version) fun unit =>
    Counted varint (FunctionForm varint) unit.functions

/-! ## Forms that are unambiguous -/

/-- Where a value in this form ends, and which value it is, does not depend on what follows. -/
def PrefixFree {α : Type} (form : α → List UInt8 → Prop) : Prop :=
  ∀ {first second : α} {bytes others rest left : List UInt8}, form first bytes →
    form second others → bytes ++ rest = others ++ left → first = second ∧ rest = left

section PrefixFree

variable {α : Type} {form : α → List UInt8 → Prop} {varint : Nat → List UInt8 → Prop}

theorem prefixFree_leb128 : PrefixFree Leb128 := by
  intro first second bytes others rest left here there same
  induction here generalizing second others with
  | last ends =>
      cases there with
      | last =>
          obtain ⟨rfl, rest⟩ := List.cons.inj same
          exact ⟨rfl, rest⟩
      | more goesOn =>
          obtain ⟨rfl, -⟩ := List.cons.inj same
          exact absurd ends goesOn
  | more goesOn further ih =>
      cases there with
      | last ends =>
          obtain ⟨rfl, -⟩ := List.cons.inj same
          exact absurd ends goesOn
      | more _ other =>
          obtain ⟨rfl, behind⟩ := List.cons.inj same
          obtain ⟨rfl, rest⟩ := ih other behind
          exact ⟨rfl, rest⟩

theorem PrefixFree.many (single : PrefixFree form) {first second : List α}
    {bytes others rest left : List UInt8} (here : Many form first bytes)
    (there : Many form second others) (same : bytes ++ rest = others ++ left)
    (length : first.length = second.length) : first = second ∧ rest = left := by
  induction here generalizing second others with
  | none =>
      obtain rfl := List.eq_nil_of_length_eq_zero length.symm
      cases there
      exact ⟨rfl, same⟩
  | next value _ ih =>
      cases there with
      | none => cases length
      | next other further =>
          rw [List.append_assoc, List.append_assoc] at same
          obtain ⟨rfl, behind⟩ := single value other same
          obtain ⟨rfl, rest⟩ := ih further behind (Nat.succ.inj length)
          exact ⟨rfl, rest⟩

theorem PrefixFree.counted (counts : PrefixFree varint) (single : PrefixFree form) :
    PrefixFree (Counted varint form) := by
  rintro first second _ _ rest left ⟨count, items, number, values, rfl⟩
    ⟨otherCount, otherItems, otherNumber, otherValues, rfl⟩ same
  rw [List.append_assoc, List.append_assoc] at same
  obtain ⟨length, behind⟩ := counts number otherNumber same
  exact single.many values otherValues behind length

end PrefixFree

end SlotCompiler.Wire
