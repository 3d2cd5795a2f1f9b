import SlotCompiler.Proofs.Bytecode.Verifier
import SlotCompiler.Proofs.Meaning.Run

/-!
# Verified code is never stuck

A machine is stuck when it is asked for a slot outside the frame or for one into which nothing was
put.  That is what a verifier rules out by looking at the code: code that is supplied with what some
machine holds is run by this machine to its end or to a return (`Machine.run_of_supplied`), so a
verified function gives a behaviour for all arguments and in every domain (`Routine.Verified.run`).
It need not be generated code.
-/

set_option autoImplicit false

namespace SlotCompiler

universe u

variable {Value : Type u} {domain : Domain Value} {count : Nat} {known : Set Nat}

/-! ## What a machine holds -/

/-- A machine has allocated some number of slots and holds something in certain slots. -/
structure Machine.Holds (machine : Machine Value) (count : Nat) (known : Set Nat) : Prop where
  allocated : machine.allocated = count
  held : ∀ slot ∈ known, ∃ value, machine.slots slot = some value

namespace Machine.Holds

variable {machine : Machine Value} {slot other : Nat}

theorem read (holds : machine.Holds count known) (below : slot < count) (present : slot ∈ known) :
    ∃ value, machine.read slot = some value := by
  obtain ⟨value, held⟩ := holds.held slot present
  exact ⟨value, read_eq (holds.allocated.symm ▸ below) held⟩

theorem readBlock (holds : machine.Holds count known) (length : Nat) {start : Nat}
    (block : ∀ slot ∈ List.range' start length, slot < count ∧ slot ∈ known) :
    ∃ values, machine.readBlock start length = some values := by
  induction length generalizing start with
  | zero => exact ⟨[], rfl⟩
  | succ length ih =>
      rw [List.range'_succ, List.forall_mem_cons] at block
      obtain ⟨value, first⟩ := holds.read block.1.1 block.1.2
      obtain ⟨values, others⟩ := ih block.2
      exact ⟨value :: values, by rw [Machine.readBlock, first, others]; rfl⟩

/-- A value that is put into a slot is held there. -/
theorem put (holds : machine.Holds count known) (slot : Nat) (value : Value) :
    (machine.put slot value).Holds count (known ∪ {other | other ∈ [slot]}) where
  allocated := holds.allocated
  held other among := by
    by_cases same : other = slot
    · subst same
      exact ⟨value, slots_put_self machine other value⟩
    · rw [slots_put_of_ne machine same]
      refine holds.held other (among.resolve_right fun written => same ?_)
      exact List.mem_singleton.mp written

theorem write (holds : machine.Holds count known) (below : slot < count) (value : Value) :
    machine.write slot value = some (machine.put slot value) :=
  write_eq (holds.allocated.symm ▸ below) value

theorem combine (holds : machine.Holds count known) (operation : Value → Value → Value)
    {target operand : UInt64} (targetBelow : target.toNat < count)
    (operandBelow : operand.toNat < count) (targetPresent : target.toNat ∈ known)
    (operandPresent : operand.toNat ∈ known) :
    ∃ after, machine.combine operation target operand = some after ∧
      after.Holds count (known ∪ {slot | slot ∈ [target.toNat]}) := by
  obtain ⟨first, targetRead⟩ := holds.read targetBelow targetPresent
  obtain ⟨second, operandRead⟩ := holds.read operandBelow operandPresent
  refine ⟨_, ?_, holds.put target.toNat (operation first second)⟩
  rw [Machine.combine, targetRead, operandRead]
  exact holds.write targetBelow _

theorem modify (holds : machine.Holds count known) (operation : Value → Value) {target : UInt64}
    (below : target.toNat < count) (present : target.toNat ∈ known) :
    ∃ after, machine.modify operation target = some after ∧
      after.Holds count (known ∪ {slot | slot ∈ [target.toNat]}) := by
  obtain ⟨value, read⟩ := holds.read below present
  refine ⟨_, ?_, holds.put target.toNat (operation value)⟩
  rw [Machine.modify, read]
  exact holds.write below _

theorem call (holds : machine.Holds count known) (domain : Domain Value) {base length : UInt64}
    (block : ∀ slot ∈ List.range' base.toNat (length.toNat + 1), slot < count ∧ slot ∈ known) :
    ∃ after, machine.call domain base length = some after ∧
      after.Holds count (known ∪ {slot | slot ∈ [base.toNat]}) := by
  rw [List.range'_succ, List.forall_mem_cons] at block
  obtain ⟨callee, calleeRead⟩ := holds.read block.1.1 block.1.2
  obtain ⟨arguments, argumentsRead⟩ := holds.readBlock length.toNat block.2
  have answered := holds.put base.toNat (domain.answer machine.calls ⟨callee, arguments⟩)
  refine ⟨{ machine.put base.toNat (domain.answer machine.calls ⟨callee, arguments⟩) with
    calls := machine.calls ++ [⟨callee, arguments⟩] }, ?_, answered.allocated, answered.held⟩
  rw [Machine.call, calleeRead, argumentsRead]
  show (machine.write base.toNat _).bind _ = _
  rw [holds.write block.1.1]
  rfl

end Machine.Holds

/-! ## One instruction -/

/-- **A machine that holds what an instruction reads is not stuck**, and holds what it writes. -/
theorem Instruction.step_of_holds {machine : Machine Value} {instruction : Instruction}
    (holds : machine.Holds count known)
    (below : ∀ slot ∈ instruction.reads ++ instruction.writes, slot < count)
    (present : ∀ slot ∈ instruction.reads, slot ∈ known) (unframed : ¬ instruction.IsFraming) :
    (∃ slot value, instruction = .return slot ∧ machine.read slot.toNat = some value) ∨
      ∃ after, instruction.step domain machine = some after ∧
        after.Holds count (known ∪ {slot | slot ∈ instruction.writes}) := by
  have read := fun slot (member : slot ∈ instruction.reads) =>
    And.intro (below slot (List.mem_append_left _ member)) (present slot member)
  have written := fun slot (member : slot ∈ instruction.writes) =>
    below slot (List.mem_append_right _ member)
  cases instruction with
  | nothing =>
      refine .inr ⟨machine, rfl, holds.allocated, ?_⟩
      rintro slot (among | ⟨⟨⟩⟩)
      exact holds.held slot among
  | «return» slot =>
      obtain ⟨value, found⟩ := holds.read (read _ List.mem_cons_self).1 (read _ List.mem_cons_self).2
      exact .inl ⟨slot, value, rfl, found⟩
  | allocate | deallocate => exact absurd trivial unframed
  | setFromConstant target word =>
      exact .inr ⟨_, holds.write (written _ List.mem_cons_self) _, holds.put _ _⟩
  | setNull target =>
      exact .inr ⟨_, holds.write (written _ List.mem_cons_self) _, holds.put _ _⟩
  | setFunction target index =>
      exact .inr ⟨_, holds.write (written _ List.mem_cons_self) _, holds.put _ _⟩
  | copy target operand =>
      obtain ⟨value, found⟩ := holds.read (read _ List.mem_cons_self).1 (read _ List.mem_cons_self).2
      refine .inr ⟨_, ?_, holds.put target.toNat value⟩
      rw [step, found]
      exact holds.write (written _ List.mem_cons_self) _
  | negate target | not target =>
      obtain ⟨inside, among⟩ := read _ List.mem_cons_self
      exact .inr (holds.modify _ inside among)
  | call base length => exact .inr (holds.call domain read)
  | _ =>
      obtain ⟨targetInside, targetAmong⟩ := read _ List.mem_cons_self
      obtain ⟨operandInside, operandAmong⟩ := read _ (List.mem_cons_of_mem _ List.mem_cons_self)
      exact .inr (holds.combine _ targetInside operandInside targetAmong operandAmong)

/-! ## Whole code -/

/-- **Code that is supplied with what a machine holds is never stuck**: the machine runs it to a
return, whatever stands behind, or to its end, and then holds what the code writes. -/
theorem Machine.run_of_supplied {machine : Machine Value} {code : List Instruction}
    (holds : machine.Holds count known) (supplied : Supplied known code)
    (below : ∀ instruction ∈ code, ∀ slot ∈ instruction.reads ++ instruction.writes, slot < count)
    (unframed : ∀ instruction ∈ code, ¬ instruction.IsFraming) :
    (∃ behaviour, ∀ rest, machine.run domain (code ++ rest) = some behaviour) ∨
      ∃ after, machine.Reaches domain code after ∧ after.Holds count (known ∪ written code) := by
  induction code generalizing machine known with
  | nil =>
      refine .inr ⟨machine, .refl machine, holds.allocated, ?_⟩
      rintro slot (among | ⟨_, none, _⟩)
      · exact holds.held slot among
      · cases none
  | cons instruction code ih =>
      rw [List.forall_mem_cons] at below unframed
      rcases Instruction.step_of_holds holds below.1 supplied.head unframed.1 with
        ⟨slot, value, rfl, found⟩ | ⟨middle, stepped, between⟩
      · refine .inl ⟨⟨machine.calls, some value⟩, fun rest => ?_⟩
        rw [List.cons_append, run, found]
        rfl
      · have first := reaches_of_step stepped
        rcases ih between supplied.tail below.2 unframed.2 with
          ⟨behaviour, returned⟩ | ⟨after, reached, further⟩
        · exact .inl ⟨behaviour, fun rest => (first (code ++ rest)).trans (returned rest)⟩
        · rw [written_cons, ← Set.union_assoc]
          exact .inr ⟨after, first.append reached, further⟩

/-- A machine that has taken slots for a function holds the arguments. -/
theorem Machine.holds_entry (arguments : List Value) (count : Nat) :
    Machine.Holds ⟨(entry arguments).slots, count, []⟩ count
      {slot | slot < arguments.length} where
  allocated := rfl
  held _ below := ⟨_, List.getElem?_eq_getElem below⟩

/-- **Verified functions are never stuck.** In every domain, a function that passes the verifier
gives a behaviour for as many arguments as it has parameters. -/
theorem Routine.Verified.run {parameters index total : Nat} {routine : Routine}
    (verified : routine.Verified parameters index total) (domain : Domain Value)
    {arguments : List Value} (passed : arguments.length = parameters) :
    ∃ behaviour, routine.run domain arguments = some behaviour := by
  obtain ⟨body, shape, unframed⟩ := verified.framed
  have supplied := verified.supplied
  have bounded := verified.bounded
  rw [shape, List.cons_append] at supplied bounded
  have below := (List.forall_mem_append.mp (List.forall_mem_cons.mp bounded).2).1
  have start : Supplied {slot | slot < parameters} body := supplied.tail.left.mono (by simp)
  have holds := Machine.holds_entry arguments routine.slotCount.toNat
  rw [passed] at holds
  have taken : (Machine.entry arguments).Reaches domain [.allocate routine.slotCount]
      ⟨(Machine.entry arguments).slots, routine.slotCount.toNat, []⟩ := by
    refine Machine.reaches_of_step ?_
    rw [Instruction.step, Machine.entry, Nat.zero_add]
  rw [Routine.run, shape, List.cons_append, ← List.singleton_append, taken]
  rcases Machine.run_of_supplied holds start below unframed with
    ⟨behaviour, returned⟩ | ⟨after, reached, further⟩
  · exact ⟨behaviour, returned _⟩
  · have given : (Instruction.deallocate routine.slotCount).step domain after = some _ :=
      if_pos (Nat.le_of_eq further.allocated.symm)
    exact ⟨_, (reached _).trans (Machine.reaches_of_step given [])⟩

/-- No function of a verified unit is ever stuck. -/
theorem CodeUnit.Verified.run {counts : List Nat} {unit : CodeUnit} (verified : unit.Verified counts)
    (domain : Domain Value) {index parameters : Nat} {routine : Routine}
    (found : unit.functions[index]? = some routine) (expected : counts[index]? = some parameters)
    {arguments : List Value} (passed : arguments.length = parameters) :
    ∃ behaviour, routine.run domain arguments = some behaviour :=
  (verified.routine index routine parameters found expected).run domain passed

end SlotCompiler
