import SlotCompiler.Proofs.Meaning.Machine

/-!
# Running code piece by piece

A run of some code followed by more code is the run of the first part and then of the rest, as
long as the first part does not return.  `Reaches` says so for a piece of code whatever stands
behind it, and puts pieces together.

For every instruction that generated code uses there is one lemma that says when the machine is
not stuck and what it changes.  Slots are plain numbers here and words in the code; the two agree
for all slots of a machine that has allocated fewer than 2^64.
-/

set_option autoImplicit false

namespace SlotCompiler

universe u

variable {Value : Type u}

namespace Machine

variable {machine middle after : Machine Value} {domain : Domain Value}

/-! ## Changing one slot -/

/-- The machine with a value put into a slot. -/
def put (machine : Machine Value) (slot : Nat) (value : Value) : Machine Value :=
  { machine with slots := Function.update machine.slots slot (some value) }

@[simp] theorem slots_put_self (machine : Machine Value) (slot : Nat) (value : Value) :
    (machine.put slot value).slots slot = some value := Function.update_self ..

theorem slots_put_of_ne (machine : Machine Value) {slot other : Nat} (different : other ≠ slot)
    (value : Value) : (machine.put slot value).slots other = machine.slots other :=
  Function.update_of_ne different ..

@[simp] theorem allocated_put (slot : Nat) (value : Value) :
    (machine.put slot value).allocated = machine.allocated := rfl

@[simp] theorem calls_put (slot : Nat) (value : Value) :
    (machine.put slot value).calls = machine.calls := rfl

theorem write_eq {slot : Nat} (inside : slot < machine.allocated) (value : Value) :
    machine.write slot value = some (machine.put slot value) := if_pos inside

theorem read_eq {slot : Nat} {value : Value} (inside : slot < machine.allocated)
    (held : machine.slots slot = some value) : machine.read slot = some value := by
  rw [read, if_pos inside, held]

theorem readBlock_eq {start : Nat} {values : List Value}
    (inside : start + values.length ≤ machine.allocated)
    (held : ∀ offset, offset < values.length → machine.slots (start + offset) = values[offset]?) :
    machine.readBlock start values.length = some values := by
  induction values generalizing start with
  | nil => rfl
  | cons value values ih =>
      rw [List.length_cons] at inside held
      have first : machine.read start = some value :=
        read_eq (by omega) (held 0 (Nat.succ_pos _))
      have others : machine.readBlock (start + 1) values.length = some values := by
        refine ih (by omega) fun offset below => ?_
        have next := held (offset + 1) (Nat.succ_lt_succ below)
        rwa [List.getElem?_cons_succ, Nat.add_comm offset 1, ← Nat.add_assoc] at next
      rw [List.length_cons, readBlock, first, others]
      rfl

/-! ## Pieces of code -/

/-- Some code takes a machine to another one, whatever code stands behind it. -/
def Reaches (domain : Domain Value) (machine : Machine Value) (code : List Instruction)
    (after : Machine Value) : Prop :=
  ∀ rest, machine.run domain (code ++ rest) = after.run domain rest

theorem Reaches.refl (machine : Machine Value) : machine.Reaches domain [] machine :=
  fun _ => rfl

theorem Reaches.append {first second : List Instruction}
    (begins : machine.Reaches domain first middle) (ends : middle.Reaches domain second after) :
    machine.Reaches domain (first ++ second) after := by
  intro rest
  rw [List.append_assoc, begins, ends]

/-- An instruction that yields a machine is a piece of code. -/
theorem reaches_of_step {instruction : Instruction}
    (stepped : instruction.step domain machine = some after) :
    machine.Reaches domain [instruction] after := by
  intro rest
  show machine.run domain (instruction :: rest) = _
  rw [run]
  · rw [stepped]
    rfl
  · rintro slot rfl
    cases stepped

end Machine

/-! ## Single instructions -/

section Steps

variable (domain : Domain Value) (machine : Machine Value)

theorem Machine.toNat_ofNat_of_lt {slot : Nat} (small : machine.allocated < UInt64.size)
    (inside : slot < machine.allocated) : (UInt64.ofNat slot).toNat = slot :=
  UInt64.toNat_ofNat_of_lt' (Nat.lt_trans inside small)

variable {target operand : Nat} {first second : Value}

theorem Machine.modify_eq (operation : Value → Value)
    (small : machine.allocated < UInt64.size) (inside : target < machine.allocated)
    (held : machine.slots target = some first) :
    machine.modify operation (.ofNat target) = some (machine.put target (operation first)) := by
  rw [modify, machine.toNat_ofNat_of_lt small inside, read_eq inside held]
  exact write_eq inside _

theorem Machine.combine_eq (operation : Value → Value → Value)
    (small : machine.allocated < UInt64.size)
    (targetInside : target < machine.allocated) (operandInside : operand < machine.allocated)
    (targetHeld : machine.slots target = some first)
    (operandHeld : machine.slots operand = some second) :
    machine.combine operation (.ofNat target) (.ofNat operand) =
      some (machine.put target (operation first second)) := by
  rw [combine, machine.toNat_ofNat_of_lt small targetInside,
    machine.toNat_ofNat_of_lt small operandInside, read_eq targetInside targetHeld,
    read_eq operandInside operandHeld]
  exact write_eq targetInside _

theorem Instruction.step_setFromConstant (word : UInt64)
    (small : machine.allocated < UInt64.size) (inside : target < machine.allocated) :
    (setFromConstant (.ofNat target) word).step domain machine =
      some (machine.put target (domain.constant word)) := by
  rw [step, machine.toNat_ofNat_of_lt small inside]
  exact Machine.write_eq inside _

theorem Instruction.step_setNull (small : machine.allocated < UInt64.size)
    (inside : target < machine.allocated) :
    (setNull (.ofNat target)).step domain machine = some (machine.put target domain.null) := by
  rw [step, machine.toNat_ofNat_of_lt small inside]
  exact Machine.write_eq inside _

theorem Instruction.step_setFunction (index : UInt64) (small : machine.allocated < UInt64.size)
    (inside : target < machine.allocated) :
    (setFunction (.ofNat target) index).step domain machine =
      some (machine.put target (domain.function index)) := by
  rw [step, machine.toNat_ofNat_of_lt small inside]
  exact Machine.write_eq inside _

theorem Instruction.step_copy (small : machine.allocated < UInt64.size)
    (targetInside : target < machine.allocated) (operandInside : operand < machine.allocated)
    (held : machine.slots operand = some first) :
    (copy (.ofNat target) (.ofNat operand)).step domain machine =
      some (machine.put target first) := by
  rw [step, machine.toNat_ofNat_of_lt small targetInside,
    machine.toNat_ofNat_of_lt small operandInside, Machine.read_eq operandInside held]
  exact Machine.write_eq targetInside _

/-- A call changes the slot of its callee, and is added to the calls. -/
theorem Instruction.step_call {values : List Value} (small : machine.allocated < UInt64.size)
    (inside : target + 1 + values.length ≤ machine.allocated)
    (calleeHeld : machine.slots target = some first)
    (argumentsHeld : ∀ offset, offset < values.length →
      machine.slots (target + 1 + offset) = values[offset]?) :
    (call (.ofNat target) (.ofNat values.length)).step domain machine =
      some { machine.put target (domain.answer machine.calls ⟨first, values⟩) with
        calls := machine.calls ++ [⟨first, values⟩] } := by
  have calleeInside : target < machine.allocated := by omega
  have count : (UInt64.ofNat values.length).toNat = values.length :=
    UInt64.toNat_ofNat_of_lt' (by omega)
  rw [step, Machine.call, machine.toNat_ofNat_of_lt small calleeInside, count,
    Machine.read_eq calleeInside calleeHeld, Machine.readBlock_eq inside argumentsHeld]
  show (machine.write target _).bind _ = _
  rw [Machine.write_eq calleeInside]
  rfl

end Steps

end SlotCompiler
