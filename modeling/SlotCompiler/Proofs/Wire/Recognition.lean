import Mathlib.Algebra.Group.Nat.Defs
import Mathlib.Data.List.Basic
import SlotCompiler.Proofs.Wire.Form

/-!
# Readers recognise the forms

A reader recognises a form if it takes exactly the bytes of that form off the front, whatever
follows them (`Recognises`).  What a reader recognises follows from its parts: one step after the
other recognises one form behind the other.  Each reader of the wire form recognises the form of
its name, so loading accepts exactly the unit files (`CodeUnit.load_eq_ok_iff`), with any varints
for the counts.
-/

set_option autoImplicit false

namespace SlotCompiler

namespace Wire

/-- A reader succeeds exactly on bytes that begin with a value in this form, and gives that value
and what follows it. -/
def Recognises {α : Type} (reader : Reader α) (form : α → List UInt8 → Prop) : Prop :=
  ∀ bytes value rest,
    reader bytes = .ok (value, rest) ↔ ∃ front, form value front ∧ bytes = front ++ rest

namespace Recognises

variable {α β : Type} {reader : Reader α} {form other : α → List UInt8 → Prop}

theorem congr (recognises : Recognises reader form)
    (same : ∀ value bytes, form value bytes ↔ other value bytes) : Recognises reader other := by
  intro bytes value rest
  rw [recognises bytes value rest]
  exact exists_congr fun front => and_congr_left fun _ => same value front

/-- No step takes no bytes. -/
theorem pure (value : α) :
    Recognises (Pure.pure value : Reader α) fun found bytes => found = value ∧ bytes = [] := by
  intro bytes found rest
  change Except.ok (value, bytes) = Except.ok (found, rest) ↔ _
  constructor
  · intro same
    obtain ⟨rfl, rfl⟩ := Prod.mk.inj (Except.ok.inj same)
    exact ⟨[], ⟨rfl, rfl⟩, rfl⟩
  · rintro ⟨_, ⟨rfl, rfl⟩, rfl⟩
    rfl

/-- A failing step accepts nothing. -/
theorem throw (error : DecodeError) :
    Recognises (MonadExcept.throw error : Reader α) fun _ _ => False := by
  intro bytes found rest
  change Except.error error = Except.ok (found, rest) ↔ _
  simp

/-- **One step after another** recognises one form behind the other. -/
theorem bind (first : Recognises reader form) {next : α → Reader β}
    {further : α → β → List UInt8 → Prop} (second : ∀ value, Recognises (next value) (further value)) :
    Recognises (reader >>= next) fun result bytes =>
      ∃ value front behind, form value front ∧ further value result behind ∧
        bytes = front ++ behind := by
  intro bytes result rest
  change (reader bytes).bind (fun found => next found.1 found.2) = _ ↔ _
  constructor
  · intro done
    cases here : reader bytes with
    | error cause =>
        rw [here] at done
        cases done
    | ok found =>
        obtain ⟨value, middle⟩ := found
        rw [here] at done
        obtain ⟨front, holds, rfl⟩ := (first bytes value middle).mp here
        obtain ⟨behind, goesOn, rfl⟩ := (second value middle result rest).mp done
        exact ⟨front ++ behind, ⟨value, front, behind, holds, goesOn, rfl⟩,
          (List.append_assoc _ _ _).symm⟩
  · rintro ⟨_, ⟨value, front, behind, holds, goesOn, rfl⟩, rfl⟩
    have here := (first (front ++ (behind ++ rest)) value (behind ++ rest)).mpr ⟨front, holds, rfl⟩
    have there := (second value (behind ++ rest) result rest).mpr ⟨behind, goesOn, rfl⟩
    rw [List.append_assoc, here]
    exact there

/-- What a reader recognises is unambiguous. -/
theorem prefixFree (recognises : Recognises reader form) : PrefixFree form := by
  intro first second bytes others rest left here there same
  have one := (recognises (bytes ++ rest) first rest).mpr ⟨bytes, here, rfl⟩
  have two := (recognises (bytes ++ rest) second left).mpr ⟨others, there, same⟩
  exact Prod.mk.inj (Except.ok.inj (one.symm.trans two))

end Recognises

/-! ## Numbers -/

theorem recognises_readByte : Recognises readByte fun byte bytes => bytes = [byte] := by
  intro bytes value rest
  cases bytes with
  | nil => simp [readByte]
  | cons byte bytes => simp [readByte]

theorem recognises_readFixed (width : Nat) : Recognises (readFixed width) (FixedForm width) := by
  induction width with
  | zero =>
      refine (Recognises.pure 0).congr fun value bytes => ?_
      constructor
      · rintro ⟨rfl, rfl⟩
        exact ⟨rfl, rfl⟩
      · rintro ⟨length, rfl⟩
        obtain rfl := List.eq_nil_of_length_eq_zero length
        exact ⟨rfl, rfl⟩
  | succ width ih =>
      refine (recognises_readByte.bind fun byte => ih.bind fun high => .pure _).congr
        fun value bytes => ?_
      constructor
      · rintro ⟨byte, _, _, rfl, ⟨high, front, _, ⟨length, rfl⟩, ⟨rfl, rfl⟩, rfl⟩, rfl⟩
        refine ⟨by simp [length], by simp [littleEndian]⟩
      · rintro ⟨length, rfl⟩
        obtain ⟨byte, front, rfl⟩ := List.exists_cons_of_length_eq_add_one length
        refine ⟨byte, [byte], front, rfl, ⟨littleEndian front, front, [], ⟨?_, rfl⟩, ⟨rfl, rfl⟩,
          (List.append_nil _).symm⟩, rfl⟩
        exact Nat.succ.inj length

theorem littleEndian_lt (bytes : List UInt8) : littleEndian bytes < 256 ^ bytes.length := by
  induction bytes with
  | nil => exact Nat.one_pos
  | cons byte bytes ih =>
      have bound := byte.toNat_lt
      rw [List.length_cons, Nat.pow_succ]
      simp only [littleEndian, List.foldr_cons] at ih ⊢
      omega

theorem recognises_readWord : Recognises readWord WordForm := by
  refine ((recognises_readFixed 8).bind fun value => .pure _).congr fun word bytes => ?_
  constructor
  · rintro ⟨value, front, _, ⟨length, rfl⟩, ⟨rfl, rfl⟩, rfl⟩
    rw [List.append_nil]
    have bound : littleEndian front < 2 ^ 64 := by
      have := littleEndian_lt front
      rwa [length] at this
    exact ⟨length, (UInt64.toNat_ofNat_of_lt' bound).symm⟩
  · rintro ⟨length, value⟩
    refine ⟨word.toNat, bytes, [], ⟨length, value⟩, ⟨?_, rfl⟩, (List.append_nil _).symm⟩
    exact UInt64.ofNat_toNat.symm

/-- The groups of seven bits that a reader of varints takes, when it may take a number of them
behind the first one: the last possible one has room for one bit. -/
def GroupsWithin (further value : Nat) (bytes : List UInt8) : Prop :=
  Leb128 value bytes ∧ bytes.length ≤ further + 1 ∧ ∀ last ∈ bytes[further]?, last ≤ 1

theorem recognises_lastGroup (byte : UInt8) : Recognises
    (if byte ≤ 1 then Pure.pure byte.toNat else MonadExcept.throw .badVarint : Reader Nat)
    fun value bytes => GroupsWithin 0 value (byte :: bytes) := by
  split
  · rename_i small
    refine (Recognises.pure _).congr fun value bytes => ?_
    constructor
    · rintro ⟨rfl, rfl⟩
      refine ⟨.last (UInt8.lt_of_le_of_lt small (by decide)), Nat.le_refl _, ?_⟩
      rintro _ ⟨⟩
      exact small
    · rintro ⟨groups, short, -⟩
      obtain rfl := List.eq_nil_of_length_eq_zero (Nat.le_zero.mp (Nat.le_of_succ_le_succ short))
      cases groups with
      | last => exact ⟨rfl, rfl⟩
      | more _ further => cases further
  · rename_i large
    refine (Recognises.throw _).congr fun value bytes => (iff_of_false id ?_)
    exact fun groups => large (groups.2.2 byte rfl)

theorem recognises_group {further : Nat}
    (recognises : Recognises (readVarintWithin further) (GroupsWithin further)) (byte : UInt8) :
    Recognises
      (if byte < 128 then Pure.pure byte.toNat
        else do
          let high ← readVarintWithin further
          Pure.pure (byte.toNat - 128 + 128 * high) : Reader Nat)
      fun value bytes => GroupsWithin (further + 1) value (byte :: bytes) := by
  split
  · rename_i ends
    refine (Recognises.pure _).congr fun value bytes => ?_
    constructor
    · rintro ⟨rfl, rfl⟩
      exact ⟨.last ends, Nat.succ_le_succ (Nat.zero_le _), nofun⟩
    · rintro ⟨groups, -, -⟩
      cases groups with
      | last => exact ⟨rfl, rfl⟩
      | more goesOn => exact absurd ends goesOn
  · rename_i goesOn
    refine (recognises.bind fun high => .pure _).congr fun value bytes => ?_
    constructor
    · rintro ⟨high, front, _, ⟨groups, short, bound⟩, ⟨rfl, rfl⟩, rfl⟩
      rw [List.append_nil]
      exact ⟨.more goesOn groups, Nat.succ_le_succ short, bound⟩
    · rintro ⟨groups, short, bound⟩
      cases groups with
      | last ends => exact absurd ends goesOn
      | more _ groups =>
          exact ⟨_, _, [], ⟨groups, Nat.le_of_succ_le_succ short, bound⟩, ⟨rfl, rfl⟩,
            (List.append_nil _).symm⟩

/-- Behind its first byte, what a reader of varints recognises is left to a step. -/
theorem recognises_groups {step : UInt8 → Reader Nat} {further : Nat}
    (recognises : ∀ byte, Recognises (step byte) fun value bytes =>
      GroupsWithin further value (byte :: bytes)) :
    Recognises (readByte >>= step) (GroupsWithin further) := by
  refine (recognises_readByte.bind recognises).congr fun value bytes => ?_
  constructor
  · rintro ⟨byte, _, behind, rfl, groups, rfl⟩
    exact groups
  · intro groups
    have some : bytes ≠ [] := by cases groups.1 <;> exact List.cons_ne_nil _ _
    obtain ⟨byte, behind, rfl⟩ := List.exists_cons_of_ne_nil some
    exact ⟨byte, [byte], behind, rfl, groups, rfl⟩

theorem recognises_readVarintWithin (further : Nat) :
    Recognises (readVarintWithin further) (GroupsWithin further) := by
  induction further with
  | zero => exact recognises_groups recognises_lastGroup
  | succ further ih => exact recognises_groups (recognises_group ih)

theorem recognises_readVarint : Recognises readVarint IsVarint :=
  (recognises_readVarintWithin 9).congr fun _ _ =>
    ⟨fun ⟨groups, short, bound⟩ => ⟨groups, short, bound⟩, fun ⟨groups, short, bound⟩ =>
      ⟨groups, short, bound⟩⟩

/-! ## Sequences -/

section Sequences

variable {α : Type} {reader : Reader α} {form : α → List UInt8 → Prop}

theorem recognises_readMany (single : Recognises reader form) (count : Nat) :
    Recognises (readMany reader count) fun values bytes =>
      values.length = count ∧ Many form values bytes := by
  induction count with
  | zero =>
      refine (Recognises.pure []).congr fun values bytes => ?_
      constructor
      · rintro ⟨rfl, rfl⟩
        exact ⟨rfl, .none⟩
      · rintro ⟨length, forms⟩
        obtain rfl := List.eq_nil_of_length_eq_zero length
        cases forms
        exact ⟨rfl, rfl⟩
  | succ count ih =>
      refine (single.bind fun value => ih.bind fun values => .pure _).congr fun values bytes => ?_
      constructor
      · rintro ⟨value, front, _, first, ⟨values, behind, _, ⟨rfl, further⟩, ⟨rfl, rfl⟩, rfl⟩, rfl⟩
        rw [List.append_nil]
        exact ⟨rfl, .next first further⟩
      · rintro ⟨length, forms⟩
        cases forms with
        | none => cases length
        | next first further =>
            exact ⟨_, _, _, first, ⟨_, _, [], ⟨Nat.succ.inj length, further⟩, ⟨rfl, rfl⟩,
              (List.append_nil _).symm⟩, rfl⟩

theorem recognises_readCounted (single : Recognises reader form) :
    Recognises (readCounted reader) (Counted IsVarint form) := by
  refine (recognises_readVarint.bind fun count => recognises_readMany single count).congr
    fun values bytes => ?_
  constructor
  · rintro ⟨_, count, items, number, ⟨rfl, forms⟩, rfl⟩
    exact ⟨count, items, number, forms, rfl⟩
  · rintro ⟨count, items, number, forms, rfl⟩
    exact ⟨values.length, count, items, number, ⟨rfl, forms⟩, rfl⟩

end Sequences

/-! ## Instructions -/

/-- What follows an opcode: as many words as it takes. -/
def ArgumentsForm (opcode : Opcode) (instruction : Instruction) (bytes : List UInt8) : Prop :=
  ∃ arguments, arguments.length = opcode.arity ∧ Many WordForm arguments bytes ∧
    Instruction.ofParts opcode arguments = .ok instruction

theorem recognises_readUnary {opcode : Opcode} {build : UInt64 → Instruction}
    (arity : opcode.arity = 1)
    (builds : ∀ word, Instruction.ofParts opcode [word] = .ok (build word)) :
    Recognises (readUnary build) (ArgumentsForm opcode) := by
  refine (recognises_readWord.bind fun word => .pure _).congr fun instruction bytes => ?_
  constructor
  · rintro ⟨word, front, _, form, ⟨rfl, rfl⟩, rfl⟩
    exact ⟨[word], arity.symm, .next form .none, builds word⟩
  · rintro ⟨arguments, length, forms, made⟩
    obtain ⟨word, rfl⟩ := List.length_eq_one_iff.mp (length.trans arity)
    rw [builds] at made
    cases made
    cases forms with
    | next first further =>
        cases further
        exact ⟨word, _, [], first, ⟨rfl, rfl⟩, rfl⟩

theorem recognises_readBinary {opcode : Opcode} {build : UInt64 → UInt64 → Instruction}
    (arity : opcode.arity = 2)
    (builds : ∀ first second, Instruction.ofParts opcode [first, second] = .ok (build first second)) :
    Recognises (readBinary build) (ArgumentsForm opcode) := by
  refine (recognises_readWord.bind fun first => recognises_readWord.bind fun second =>
    .pure _).congr fun instruction bytes => ?_
  constructor
  · rintro ⟨first, front, _, form, ⟨second, behind, _, other, ⟨rfl, rfl⟩, rfl⟩, rfl⟩
    exact ⟨[first, second], arity.symm, .next form (.next other .none), builds first second⟩
  · rintro ⟨arguments, length, forms, made⟩
    obtain ⟨first, second, rfl⟩ := List.length_eq_two.mp (length.trans arity)
    rw [builds] at made
    cases made
    cases forms with
    | next form further =>
        cases further with
        | next other ended =>
            cases ended
            exact ⟨first, _, _, form, ⟨second, _, [], other, ⟨rfl, rfl⟩, rfl⟩, rfl⟩

theorem recognises_readArguments (opcode : Opcode) :
    Recognises (readArguments opcode) (ArgumentsForm opcode) := by
  cases opcode with
  | nothing =>
      refine (Recognises.pure Instruction.nothing).congr fun instruction bytes => ?_
      constructor
      · rintro ⟨rfl, rfl⟩
        exact ⟨[], rfl, .none, rfl⟩
      · rintro ⟨arguments, length, forms, made⟩
        obtain rfl := List.eq_nil_of_length_eq_zero length
        cases made
        cases forms
        exact ⟨rfl, rfl⟩
  | «return» | allocate | deallocate | setNull | negate | not =>
      exact recognises_readUnary rfl fun _ => rfl
  | setFromConstant | setFunction | copy | add | mul | div | and | or | xor | equal | less
  | greater | call =>
      exact recognises_readBinary rfl fun _ _ => rfl

theorem recognises_readInstruction : Recognises readInstruction InstructionForm := by
  have step : ∀ id : UInt8, Recognises
      ((Opcode.ofId? id).elim (MonadExcept.throw (.unknownOpcode id)) readArguments)
      fun instruction bytes => ∃ opcode, Opcode.ofId? id = some opcode ∧
        ArgumentsForm opcode instruction bytes := by
    intro id
    cases Opcode.ofId? id with
    | some opcode =>
        refine (recognises_readArguments opcode).congr fun instruction bytes => ?_
        simp
    | none =>
        refine (Recognises.throw _).congr fun instruction bytes => ?_
        simp
  have steps : readInstruction = readByte >>= fun id =>
      (Opcode.ofId? id).elim (MonadExcept.throw (.unknownOpcode id)) readArguments := by
    refine bind_congr fun id => ?_
    cases Opcode.ofId? id <;> rfl
  rw [steps]
  refine (recognises_readByte.bind step).congr fun instruction bytes => ?_
  constructor
  · rintro ⟨id, _, words, rfl, ⟨opcode, known, arguments, length, forms, made⟩, rfl⟩
    exact ⟨id, opcode, arguments, words, known, length, forms, made, rfl⟩
  · rintro ⟨id, opcode, arguments, words, known, length, forms, made, rfl⟩
    exact ⟨id, [id], words, rfl, ⟨opcode, known, arguments, length, forms, made⟩, rfl⟩

/-! ## Units -/

theorem recognises_readFunction : Recognises readFunction (FunctionForm IsVarint) := by
  refine (recognises_readWord.bind fun slotCount =>
    (recognises_readCounted recognises_readInstruction).bind fun code => .pure _).congr
    fun function bytes => ?_
  constructor
  · rintro ⟨slotCount, slots, _, word, ⟨code, items, _, counted, ⟨rfl, rfl⟩, rfl⟩, rfl⟩
    rw [List.append_nil]
    exact ⟨slots, items, word, counted, rfl⟩
  · rintro ⟨slots, items, word, counted, rfl⟩
    exact ⟨function.slotCount, slots, items, word, ⟨function.code, items, [], counted,
      ⟨rfl, rfl⟩, (List.append_nil _).symm⟩, rfl⟩

theorem recognises_readBody : Recognises readBody fun unit bytes =>
    Counted IsVarint (FunctionForm IsVarint) unit.functions bytes := by
  refine ((recognises_readCounted recognises_readFunction).bind fun functions => .pure _).congr
    fun unit bytes => ?_
  constructor
  · rintro ⟨functions, body, _, counted, ⟨rfl, rfl⟩, rfl⟩
    rw [List.append_nil]
    exact counted
  · intro counted
    exact ⟨unit.functions, bytes, [], counted, ⟨rfl, rfl⟩, (List.append_nil _).symm⟩

end Wire

namespace CodeUnit

open Wire

theorem loadBody_eq_ok_iff {bytes : List UInt8} {unit : CodeUnit} :
    loadBody bytes = .ok unit ↔ Counted IsVarint (FunctionForm IsVarint) unit.functions bytes := by
  have read := recognises_readBody bytes unit []
  simp only [List.append_nil, exists_eq_right'] at read
  rw [← read, loadBody]
  split
  · rename_i failed
    simp [failed]
  · rename_i found done
    simp [done]
  · rename_i found rest some done
    simp only [done, Except.ok.injEq, Prod.mk.injEq, reduceCtorEq, false_iff, not_and]
    rintro rfl rfl
    exact some rfl

theorem recognises_header : Recognises
    (do
      let magic ← readFixed 4
      let version ← readFixed 4
      return (magic, version) : Reader (Nat × Nat))
    fun found bytes => ∃ magicBytes versionBytes, FixedForm 4 found.1 magicBytes ∧
      FixedForm 4 found.2 versionBytes ∧ bytes = magicBytes ++ versionBytes := by
  refine ((recognises_readFixed 4).bind fun magic => (recognises_readFixed 4).bind fun version =>
    .pure _).congr fun found bytes => ?_
  constructor
  · rintro ⟨magic, front, _, first, ⟨version, behind, _, second, ⟨rfl, rfl⟩, rfl⟩, rfl⟩
    rw [List.append_nil]
    exact ⟨front, behind, first, second, rfl⟩
  · rintro ⟨front, behind, first, second, rfl⟩
    exact ⟨found.1, front, behind, first, ⟨found.2, behind, [], second, ⟨rfl, rfl⟩,
      (List.append_nil _).symm⟩, rfl⟩

/-- **Loading accepts exactly the unit files**, with any varints for the counts. -/
theorem load_eq_ok_iff {bytes : List UInt8} {unit : CodeUnit} :
    load bytes = .ok unit ↔ UnitForm IsVarint unit bytes := by
  constructor
  · intro done
    unfold load at done
    dsimp only at done
    split at done
    · cases done
    · rename_i magic version body header
      split at done
      · cases done
      · rename_i magic_eq
        split at done
        · cases done
        · rename_i version_eq
          obtain ⟨_, ⟨magicBytes, versionBytes, first, second, rfl⟩, rfl⟩ :=
            (recognises_header _ _ _).mp header
          rw [Decidable.not_not.mp magic_eq] at first
          rw [Decidable.not_not.mp version_eq] at second
          exact ⟨magicBytes, _, first,
            ⟨versionBytes, body, second, loadBody_eq_ok_iff.mp done, rfl⟩, List.append_assoc _ _ _⟩
  · rintro ⟨magicBytes, _, first, ⟨versionBytes, body, second, counted, rfl⟩, rfl⟩
    have header := (recognises_header (magicBytes ++ (versionBytes ++ body))
      (magic, version) body).mpr
      ⟨_, ⟨magicBytes, versionBytes, first, second, rfl⟩, (List.append_assoc _ _ _).symm⟩
    unfold load
    simp only [header, ne_eq, not_true_eq_false, if_false]
    exact loadBody_eq_ok_iff.mpr counted

end CodeUnit

end SlotCompiler
