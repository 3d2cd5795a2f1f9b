import Mathlib.Data.List.Count
import Mathlib.Order.Interval.Set.Basic
import SlotCompiler.Bytecode.Unit

/-!
# What a verifier of units asks for

A verifier looks at code without running it.  It wants every function to be framed by taking and
giving back its slots, to use no slot outside its frame, to read no slot before something was put
into it and to leave no slot unused; and it wants the functions of a unit to refer to each other
without circles, every one but the first exactly once (`CodeUnit.Verified`).

Whether a slot holds something when it is read depends on all the code in front.  `Supplied` says it
for a piece of code that starts with some slots known to hold something, and pieces join
(`Supplied.append`); `Fills` also says which slots a piece fills itself.
-/

set_option autoImplicit false

namespace SlotCompiler

/-! ## Slots of an instruction -/

namespace Instruction

/-- The slots that an instruction reads.  A call reads the slot of the callee and those of the
arguments behind it. -/
@[simp]
def reads : Instruction → List Nat
  | .nothing => []
  | .return slot => [slot.toNat]
  | .allocate _ => []
  | .deallocate _ => []
  | .setFromConstant _ _ => []
  | .setNull _ => []
  | .setFunction _ _ => []
  | .copy _ source => [source.toNat]
  | .add target operand => [target.toNat, operand.toNat]
  | .mul target operand => [target.toNat, operand.toNat]
  | .div target operand => [target.toNat, operand.toNat]
  | .negate target => [target.toNat]
  | .not target => [target.toNat]
  | .and target operand => [target.toNat, operand.toNat]
  | .or target operand => [target.toNat, operand.toNat]
  | .xor target operand => [target.toNat, operand.toNat]
  | .equal target operand => [target.toNat, operand.toNat]
  | .less target operand => [target.toNat, operand.toNat]
  | .greater target operand => [target.toNat, operand.toNat]
  | .call base count => List.range' base.toNat (count.toNat + 1)

/-- The slots that an instruction writes. -/
@[simp]
def writes : Instruction → List Nat
  | .nothing => []
  | .return _ => []
  | .allocate _ => []
  | .deallocate _ => []
  | .setFromConstant target _ => [target.toNat]
  | .setNull target => [target.toNat]
  | .setFunction target _ => [target.toNat]
  | .copy target _ => [target.toNat]
  | .add target _ => [target.toNat]
  | .mul target _ => [target.toNat]
  | .div target _ => [target.toNat]
  | .negate target => [target.toNat]
  | .not target => [target.toNat]
  | .and target _ => [target.toNat]
  | .or target _ => [target.toNat]
  | .xor target _ => [target.toNat]
  | .equal target _ => [target.toNat]
  | .less target _ => [target.toNat]
  | .greater target _ => [target.toNat]
  | .call base _ => [base.toNat]

/-- Whether an instruction takes slots or gives them back. -/
def IsFraming : Instruction → Prop
  | .allocate _ => True
  | .deallocate _ => True
  | _ => False

/-- The index of the function that an instruction refers to. -/
def reference? : Instruction → Option Nat
  | .setFunction _ index => some index.toNat
  | _ => none

end Instruction

/-- The functions that some code refers to, in order. -/
def references (code : List Instruction) : List Nat := code.filterMap Instruction.reference?

theorem references_append (code more : List Instruction) :
    references (code ++ more) = references code ++ references more := List.filterMap_append

theorem references_append_of_plain (code : List Instruction) {more : List Instruction}
    (plain : references more = []) : references (code ++ more) = references code := by
  rw [references_append, plain, List.append_nil]

/-! ## Code that reads what is there -/

/-- The slots that some code writes. -/
def written (code : List Instruction) : Set Nat :=
  {slot | ∃ instruction ∈ code, slot ∈ instruction.writes}

/-- Code that reads only slots that hold something at the beginning or that it has written. -/
def Supplied (known : Set Nat) (code : List Instruction) : Prop :=
  ∀ before instruction after, code = before ++ instruction :: after →
    ∀ slot ∈ instruction.reads, slot ∈ known ∨ slot ∈ written before

/-! ## Verified routines and units -/

/-- A function with a number of parameters that passes the verifier, as the one with an index in a
unit of some number of functions. -/
structure Routine.Verified (parameters index count : Nat) (routine : Routine) : Prop where
  /-- The code takes the slots at the beginning and gives them back at the end, and nowhere else. -/
  framed : ∃ body, routine.code =
    .allocate routine.slotCount :: body ++ [.deallocate routine.slotCount] ∧
      ∀ instruction ∈ body, ¬ instruction.IsFraming
  /-- No slot outside the frame is used. -/
  bounded : ∀ instruction ∈ routine.code, ∀ slot ∈ instruction.reads ++ instruction.writes,
    slot < routine.slotCount.toNat
  /-- Every slot that is read is the slot of a parameter or was written before. -/
  supplied : Supplied {slot | slot < parameters} routine.code
  /-- Every slot behind those of the parameters is written. -/
  written : ∀ slot, parameters ≤ slot → slot < routine.slotCount.toNat →
    slot ∈ written routine.code
  /-- Only functions further back in the unit are referred to. -/
  ascending : ∀ other ∈ references routine.code, index < other ∧ other < count
  /-- Every instruction is what its opcode and its words make. -/
  arity : ∀ instruction ∈ routine.code,
    Instruction.ofParts instruction.opcode instruction.arguments = .ok instruction

/-- A unit that passes the verifier, for functions with some numbers of parameters. -/
structure CodeUnit.Verified (parameters : List Nat) (unit : CodeUnit) : Prop where
  length_eq : unit.functions.length = parameters.length
  routine : ∀ (index : Nat) (routine : Routine) (count : Nat),
    unit.functions[index]? = some routine → parameters[index]? = some count →
      routine.Verified count index unit.functions.length
  /-- Every function but the first is referred to once. -/
  once : ∀ index, 1 ≤ index → index < unit.functions.length →
    (unit.functions.flatMap fun routine => references routine.code).count index = 1

/-! ## Joining supplied code -/

variable {known slots others : Set Nat} {code more : List Instruction} {instruction : Instruction}

theorem written_append (code more : List Instruction) :
    written (code ++ more) = written code ∪ written more := by
  ext slot
  simp only [written, Set.mem_ofPred_eq, Set.mem_union, List.mem_append, or_and_right, exists_or]

theorem written_singleton (instruction : Instruction) :
    written [instruction] = {slot | slot ∈ instruction.writes} := by
  ext slot
  simp only [written, Set.mem_ofPred_eq, List.mem_singleton, exists_eq_left]

theorem written_cons (instruction : Instruction) (code : List Instruction) :
    written (instruction :: code) = {slot | slot ∈ instruction.writes} ∪ written code := by
  rw [← written_singleton, ← written_append, List.singleton_append]

namespace Supplied

theorem nil : Supplied known [] := fun _ _ _ split => absurd split (by simp)

theorem singleton (present : ∀ slot ∈ instruction.reads, slot ∈ known) :
    Supplied known [instruction] := by
  intro before inner after split slot read
  cases before with
  | nil =>
      cases split
      exact .inl (present slot read)
  | cons first before => simp at split

/-- The first instruction reads what is there at the beginning. -/
theorem head (supplied : Supplied known (instruction :: code)) :
    ∀ slot ∈ instruction.reads, slot ∈ known := by
  intro slot read
  rcases supplied [] instruction code rfl slot read with present | ⟨_, none, _⟩
  · exact present
  · cases none

/-- The code behind the first instruction may read what that instruction writes. -/
theorem tail (supplied : Supplied known (instruction :: code)) :
    Supplied (known ∪ {slot | slot ∈ instruction.writes}) code := by
  intro before inner after split slot read
  rw [Set.mem_union, or_assoc, ← Set.mem_union, ← written_cons]
  exact supplied (instruction :: before) inner after (congrArg (instruction :: ·) split) slot read

/-- Code is supplied without the code behind it. -/
theorem left (supplied : Supplied known (code ++ more)) : Supplied known code := by
  intro before inner after split slot read
  refine supplied before inner (after ++ more) ?_ slot read
  rw [split, List.append_assoc, List.cons_append]

/-- **Supplied code joins**: what comes later may read what came before has written. -/
theorem append (first : Supplied known code) (second : Supplied (known ∪ written code) more) :
    Supplied known (code ++ more) := by
  intro before instruction after split slot read
  rcases List.append_eq_append_iff.mp split with ⟨between, rfl, rest⟩ | ⟨between, rfl, rest⟩
  · rw [written_append]
    rcases second between instruction after rest slot read with present | earlier
    · exact present.imp_right .inl
    · exact .inr (.inr earlier)
  · cases between with
    | nil =>
        rw [List.append_nil] at second
        rcases second [] instruction after rest.symm slot read with present | ⟨_, none, _⟩
        · exact present
        · cases none
    | cons inner between =>
        obtain ⟨rfl, rfl⟩ := List.cons.inj rest
        exact first before _ between rfl slot read

/-- More slots may hold something. -/
theorem mono (supplied : Supplied known code) (subset : known ⊆ others) : Supplied others code :=
  fun before instruction after split slot read =>
    (supplied before instruction after split slot read).imp_left fun present => subset present

end Supplied

/-! ## Filling slots -/

/-- Code inside a function that is supplied and writes certain slots. -/
structure Fills (known : Set Nat) (code : List Instruction) (slots : Set Nat) : Prop where
  supplied : Supplied known code
  written_eq : written code = slots
  unframed : ∀ instruction ∈ code, ¬ instruction.IsFraming

namespace Fills

theorem nil : Fills known [] ∅ where
  supplied := .nil
  written_eq := by
    ext slot
    simp [written]
  unframed := List.forall_mem_nil _

theorem singleton (present : ∀ slot ∈ instruction.reads, slot ∈ known)
    (unframed : ¬ instruction.IsFraming) :
    Fills known [instruction] {slot | slot ∈ instruction.writes} where
  supplied := .singleton present
  written_eq := written_singleton instruction
  unframed := List.forall_mem_singleton.mpr unframed

theorem append (first : Fills known code slots) (second : Fills (known ∪ slots) more others) :
    Fills known (code ++ more) (slots ∪ others) where
  supplied := by
    refine first.supplied.append ?_
    rw [first.written_eq]
    exact second.supplied
  written_eq := by rw [written_append, first.written_eq, second.written_eq]
  unframed := List.forall_mem_append.mpr ⟨first.unframed, second.unframed⟩

theorem congr (fills : Fills known code slots) (same : ∀ slot, slot ∈ slots ↔ slot ∈ others) :
    Fills known code others := Set.ext same ▸ fills

/-- One more instruction, which writes one slot. -/
theorem snoc (fills : Fills known code slots) (instruction : Instruction) (slot : Nat)
    (writes : instruction.writes = [slot])
    (present : ∀ slot ∈ instruction.reads, slot ∈ known ∪ slots)
    (unframed : ¬ instruction.IsFraming) :
    Fills known (code ++ [instruction]) (insert slot slots) := by
  refine (fills.append (.singleton present unframed)).congr fun other => ?_
  rw [writes, Set.mem_union, Set.mem_ofPred_eq, List.mem_singleton, Set.mem_insert_iff, or_comm]

end Fills

/-- Code that finds the slots below a number filled and leaves those below another number filled,
and has to do with no others. -/
structure FillsUpTo (first last : Nat) (code : List Instruction) : Prop where
  fills : Fills {slot | slot < first} code (written code)
  filled_iff : ∀ slot, slot < first ∨ slot ∈ written code ↔ slot < last

namespace FillsUpTo

variable {first last behind : Nat}

theorem nil (last : Nat) : FillsUpTo last last [] where
  fills := ⟨.nil, rfl, List.forall_mem_nil _⟩
  filled_iff _ := or_iff_left fun ⟨_, member, _⟩ => List.not_mem_nil member

theorem of_fills {slots : Set Nat} (fills : Fills {slot | slot < first} code slots)
    (filled : ∀ slot, slot < first ∨ slot ∈ slots ↔ slot < last) : FillsUpTo first last code := by
  obtain rfl := fills.written_eq
  exact ⟨fills, filled⟩

theorem append (before : FillsUpTo first last code) (after : FillsUpTo last behind more) :
    FillsUpTo first behind (code ++ more) := by
  have known : {slot | slot < last} = {slot | slot < first} ∪ written code :=
    Set.ext fun slot => (before.filled_iff slot).symm
  have afterwards := after.fills
  rw [known] at afterwards
  refine .of_fills (before.fills.append afterwards) fun slot => ?_
  rw [Set.mem_union, ← or_assoc, before.filled_iff, after.filled_iff]

/-- One more instruction on slots that are filled. -/
theorem snoc (before : FillsUpTo first last code) (instruction : Instruction)
    (present : ∀ slot ∈ instruction.reads, slot < last)
    (again : ∀ slot ∈ instruction.writes, slot < last) (unframed : ¬ instruction.IsFraming) :
    FillsUpTo first last (code ++ [instruction]) := by
  have known := fun slot (below : slot < last) => (before.filled_iff slot).mpr below
  refine .of_fills (before.fills.append (.singleton ?_ unframed)) fun slot => ?_
  · exact fun slot read => known slot (present slot read)
  · rw [Set.mem_union, ← or_assoc, before.filled_iff]
    exact or_iff_left_of_imp (again slot)

/-- No slot from the last number on is used. -/
theorem lt_of_used (before : FillsUpTo first last code) (member : instruction ∈ code) {slot : Nat}
    (used : slot ∈ instruction.reads ++ instruction.writes) : slot < last := by
  rw [← before.filled_iff]
  rcases List.mem_append.mp used with read | write
  · obtain ⟨front, back, split⟩ := List.append_of_mem member
    refine (before.fills.supplied front instruction back split slot read).imp_right ?_
    rintro ⟨earlier, among, writes⟩
    exact ⟨earlier, split ▸ List.mem_append_left _ among, writes⟩
  · exact .inr ⟨instruction, member, write⟩

end FillsUpTo

end SlotCompiler
