import SlotCompiler.Proofs.Generation.Inversion
import SlotCompiler.Proofs.Meaning.Run
import SlotCompiler.Proofs.Meaning.Tree

/-!
# Generated code means what its tree means

A frame `Represents` an environment on a machine when every name in scope has a slot of its own
that holds the name's value.  Code for an expression keeps this up, because it changes only the
slot its value is wanted in and slots that were not handed out before (`Expression.run_lower`);
declarations and assignments carry it over to the changed environment.  So the code of a function
and the function's tree make the same calls and return the same value
(`FunctionSource.lower_preserves_behaviour`).

The only limit is the size of words: a function must not demand 2^64 slots or more.
-/

set_option autoImplicit false

namespace SlotCompiler

universe u

variable {Value : Type u}

/-! ## Environments in slots -/

/-- The slots of a frame hold the values of an environment. -/
structure Frame.Represents (frame : Frame) (environment : Environment Value)
    (machine : Machine Value) : Prop where
  /-- Names stand for slots that were handed out. -/
  below : ∀ {name slot}, frame.slotOf? name = some slot → slot < frame.size
  /-- No two names share a slot. -/
  distinct : ∀ {first second slot}, frame.slotOf? first = some slot →
    frame.slotOf? second = some slot → first = second
  /-- The slot of a name holds its value. -/
  held : ∀ {name slot}, frame.slotOf? name = some slot →
    ∃ value, environment name = some value ∧ machine.slots slot = some value
  /-- Names without a slot are not in scope. -/
  unbound : ∀ {name}, frame.slotOf? name = none → environment name = none

/-- A slot that no name stands for. -/
def Frame.Spares (frame : Frame) (slot : Nat) : Prop := ∀ name, frame.slotOf? name ≠ some slot

theorem Environment.bind_self (environment : Environment Value) (name : String) (value : Value) :
    environment.bind name value name = some value := Function.update_self ..

theorem Environment.bind_of_ne (environment : Environment Value) {name other : String}
    (value : Value) (different : other ≠ name) :
    environment.bind name value other = environment other :=
  Function.update_of_ne different ..

namespace Frame.Represents

variable {frame : Frame} {environment : Environment Value} {machine after : Machine Value}

/-- A slot that was not handed out yet is spared. -/
theorem spares (represents : frame.Represents environment machine) {slot : Nat}
    (fresh : frame.size ≤ slot) : frame.Spares slot := by
  intro name found
  exact absurd (represents.below found) (Nat.not_lt.mpr fresh)

/-- More slots handed out, and other slots changed. -/
theorem mono (represents : frame.Represents environment machine) {size : Nat}
    (larger : frame.size ≤ size)
    (kept : ∀ name slot, frame.slotOf? name = some slot → after.slots slot = machine.slots slot) :
    Frame.Represents ⟨frame.bindings, size⟩ environment after where
  below found := Nat.lt_of_lt_of_le (represents.below found) larger
  distinct := represents.distinct
  held {name slot} found := by
    obtain ⟨value, known, stored⟩ := represents.held found
    exact ⟨value, known, (kept name slot found).trans stored⟩
  unbound := represents.unbound

/-- A declaration lets a name stand for a spared slot. -/
theorem bind (represents : frame.Represents environment machine) (name : String) {slot : Nat}
    {value : Value} (inside : slot < frame.size) (spared : frame.Spares slot)
    (stored : machine.slots slot = some value) :
    (frame.bind name slot).Represents (environment.bind name value) machine where
  below {other known} found := by
    by_cases same : other = name
    · subst same
      rw [slotOf?_bind_self] at found
      cases found
      exact inside
    · rw [slotOf?_bind_of_ne _ _ same] at found
      exact represents.below found
  distinct {first second known} firstFound secondFound := by
    by_cases firstSame : first = name <;> by_cases secondSame : second = name
    · exact firstSame.trans secondSame.symm
    · subst firstSame
      rw [slotOf?_bind_self] at firstFound
      rw [slotOf?_bind_of_ne _ _ secondSame] at secondFound
      cases firstFound
      exact absurd secondFound (spared second)
    · subst secondSame
      rw [slotOf?_bind_self] at secondFound
      rw [slotOf?_bind_of_ne _ _ firstSame] at firstFound
      cases secondFound
      exact absurd firstFound (spared first)
    · rw [slotOf?_bind_of_ne _ _ firstSame] at firstFound
      rw [slotOf?_bind_of_ne _ _ secondSame] at secondFound
      exact represents.distinct firstFound secondFound
  held {other known} found := by
    by_cases same : other = name
    · subst same
      rw [slotOf?_bind_self] at found
      cases found
      exact ⟨value, environment.bind_self other value, stored⟩
    · rw [slotOf?_bind_of_ne _ _ same] at found
      rw [environment.bind_of_ne value same]
      exact represents.held found
  unbound {other} notFound := by
    by_cases same : other = name
    · subst same
      rw [slotOf?_bind_self] at notFound
      cases notFound
    · rw [slotOf?_bind_of_ne _ _ same] at notFound
      rw [environment.bind_of_ne value same]
      exact represents.unbound notFound

/-- An assignment changes the slot of a name. -/
theorem assign (represents : frame.Represents environment machine) {name : String} {slot : Nat}
    (found : frame.slotOf? name = some slot) (value : Value) :
    frame.Represents (environment.bind name value) (machine.put slot value) where
  below := represents.below
  distinct := represents.distinct
  held {other known} otherFound := by
    by_cases same : other = name
    · subst same
      rw [found] at otherFound
      cases otherFound
      exact ⟨value, environment.bind_self other value, Machine.slots_put_self machine slot value⟩
    · have different : known ≠ slot := by
        rintro rfl
        exact same (represents.distinct otherFound found)
      rw [environment.bind_of_ne value same, machine.slots_put_of_ne different]
      exact represents.held otherFound
  unbound {other} notFound := by
    have different : other ≠ name := by
      rintro rfl
      rw [found] at notFound
      cases notFound
    rw [environment.bind_of_ne value different]
    exact represents.unbound notFound

theorem empty (machine : Machine Value) : Frame.Represents {} (fun _ => none) machine where
  below found := by cases found
  distinct found := by cases found
  held found := by cases found
  unbound _ := rfl

/-- The parameters of a function take the next slots, in order. -/
theorem foldl_introduce (represents : frame.Represents environment machine)
    {parameters : List String} {arguments : List Value}
    (supplied : arguments.length = parameters.length)
    (stored : ∀ offset, offset < arguments.length →
      machine.slots (frame.size + offset) = arguments[offset]?) :
    (parameters.foldl (fun frame name => (frame.introduce name).2) frame).Represents
      ((parameters.zip arguments).foldl (fun environment pair => environment.bind pair.1 pair.2)
        environment) machine := by
  induction parameters generalizing frame environment arguments with
  | nil => exact represents
  | cons parameter parameters ih =>
      cases arguments with
      | nil => cases supplied
      | cons argument arguments =>
          have first : machine.slots frame.size = some argument := stored 0 (Nat.succ_pos _)
          have grown : Frame.Represents ⟨frame.bindings, frame.size + 1⟩ environment machine :=
            represents.mono (Nat.le_succ _) fun _ _ _ => rfl
          have bound : (frame.introduce parameter).2.Represents
              (environment.bind parameter argument) machine :=
            grown.bind parameter (Nat.lt_succ_self _) (represents.spares (Nat.le_refl _)) first
          refine ih bound (Nat.succ.inj supplied) fun offset below => ?_
          have next := stored (offset + 1) (Nat.succ_lt_succ below)
          rw [List.getElem?_cons_succ, Nat.add_comm offset 1, ← Nat.add_assoc] at next
          exact next

end Frame.Represents

/-! ## Expressions -/

/-- A machine behind code that leaves a value in a slot and spares the other slots below a
bound. -/
structure Machine.Yields (machine after : Machine Value) (bound slot : Nat) (value : Value) :
    Prop where
  stored : after.slots slot = some value
  allocated : after.allocated = machine.allocated
  others : ∀ other, other < bound → other ≠ slot → after.slots other = machine.slots other

/-- A machine behind code that leaves values in consecutive slots and spares the other slots below
a bound. -/
structure Machine.YieldsBlock (machine after : Machine Value) (bound start : Nat)
    (values : List Value) : Prop where
  stored : ∀ offset, offset < values.length → after.slots (start + offset) = values[offset]?
  allocated : after.allocated = machine.allocated
  others : ∀ other, other < bound → other < start ∨ start + values.length ≤ other →
    after.slots other = machine.slots other

namespace Machine

variable {machine middle after : Machine Value} {bound slot : Nat} {value : Value}

theorem yields_put (machine : Machine Value) (bound slot : Nat) (value : Value) :
    machine.Yields (machine.put slot value) bound slot value where
  stored := slots_put_self ..
  allocated := rfl
  others _ _ different := machine.slots_put_of_ne different _

/-- A slot outside the bound may be changed before. -/
theorem Yields.of_put {other : Nat} {scratch : Value}
    (yields : (machine.put other scratch).Yields after bound slot value) (outside : bound ≤ other) :
    machine.Yields after bound slot value where
  stored := yields.stored
  allocated := yields.allocated
  others place below different := by
    rw [yields.others place below different,
      machine.slots_put_of_ne (Nat.ne_of_lt (Nat.lt_of_lt_of_le below outside))]

end Machine

section Expressions

variable {domain : Domain Value} {source : Source}

/-- An operator is applied to the value of its operand, in the operand's slot. -/
theorem UnaryOperator.reaches_lower (domain : Domain Value) (operator : UnaryOperator)
    {operand : Fragment} {slot : Nat}
    {machine : Machine Value} {value : Value} (inside : slot < operand.frame.size)
    (fits : (operator.lower slot operand).frame.size ≤ machine.allocated)
    (small : machine.allocated < UInt64.size) (stored : machine.slots slot = some value) :
    ∃ code after, (operator.lower slot operand).code = operand.code ++ code ∧
      machine.Reaches domain code after ∧ after.calls = machine.calls ∧
      machine.Yields after operand.frame.size slot (operator.apply domain value) := by
  rw [operator.frame_lower] at fits
  have allocated : slot < machine.allocated :=
    Nat.lt_of_lt_of_le inside (Nat.le_trans (Nat.le_add_right _ _) fits)
  cases operator with
  | negate =>
      have negated := machine.modify_eq domain.negate small allocated stored
      exact ⟨_, _, rfl, Machine.reaches_of_step negated, rfl, machine.yields_put ..⟩
  | not =>
      have inverted := machine.modify_eq domain.not small allocated stored
      exact ⟨_, _, rfl, Machine.reaches_of_step inverted, rfl, machine.yields_put ..⟩
  | invert =>
      have maskAllocated : operand.frame.size < machine.allocated := fits
      have masked : (Instruction.setFromConstant (.ofNat operand.frame.size)
          (.ofNat (UInt64.size - 1))).step domain machine = _ :=
        Instruction.step_setFromConstant domain machine _ small maskAllocated
      have kept := machine.slots_put_of_ne (Nat.ne_of_lt inside)
        (domain.constant (.ofNat (UInt64.size - 1)))
      have combined := Machine.combine_eq (machine.put operand.frame.size _) domain.xor small
        allocated maskAllocated (kept.trans stored) (machine.slots_put_self ..)
      exact ⟨_, _, rfl, (Machine.reaches_of_step masked).append (Machine.reaches_of_step combined),
        rfl, (Machine.yields_put ..).of_put (Nat.le_refl _)⟩

/-- An operator is applied to two values, in the slot of the left one. -/
theorem BinaryOperator.reaches_code (domain : Domain Value) (operator : BinaryOperator)
    {left right : Nat}
    {machine : Machine Value} {first second : Value} (small : machine.allocated < UInt64.size)
    (different : left ≠ right) (leftInside : left < machine.allocated)
    (rightInside : right < machine.allocated) (leftStored : machine.slots left = some first)
    (rightStored : machine.slots right = some second) :
    ∃ after, machine.Reaches domain (operator.code left right) after ∧
      after.calls = machine.calls ∧
      machine.Yields after right left (operator.apply domain first second) := by
  have combined (operation : Value → Value → Value) :=
    machine.combine_eq operation small leftInside rightInside leftStored rightStored
  cases operator with
  | add => exact ⟨_, Machine.reaches_of_step (combined domain.add), rfl, machine.yields_put ..⟩
  | subtract =>
      have negated : (Instruction.negate (.ofNat right)).step domain machine = _ :=
        machine.modify_eq domain.negate small rightInside rightStored
      have kept := machine.slots_put_of_ne different (domain.negate second)
      have added := Machine.combine_eq (machine.put right _) domain.add small leftInside
        rightInside (kept.trans leftStored) (machine.slots_put_self ..)
      exact ⟨_, (Machine.reaches_of_step negated).append (Machine.reaches_of_step added), rfl,
        (Machine.yields_put ..).of_put (Nat.le_refl _)⟩
  | multiply => exact ⟨_, Machine.reaches_of_step (combined domain.mul), rfl, machine.yields_put ..⟩
  | divide => exact ⟨_, Machine.reaches_of_step (combined domain.div), rfl, machine.yields_put ..⟩

/-- A call of what is in a block of slots, whose answer goes into a slot below the block. -/
theorem Machine.reaches_call (domain : Domain Value) {base slot : Nat} {machine : Machine Value}
    {callee : Value} {values : List Value} (small : machine.allocated < UInt64.size)
    (inside : slot < base)
    (fits : base + 1 + values.length ≤ machine.allocated)
    (calleeHeld : machine.slots base = some callee)
    (argumentsHeld : ∀ offset, offset < values.length →
      machine.slots (base + 1 + offset) = values[offset]?) :
    ∃ after, machine.Reaches domain
        [.call (.ofNat base) (.ofNat values.length), .copy (.ofNat slot) (.ofNat base)] after ∧
      after.calls = machine.calls ++ [⟨callee, values⟩] ∧
      machine.Yields after base slot (domain.answer machine.calls ⟨callee, values⟩) := by
  have called := Instruction.step_call domain machine small fits calleeHeld argumentsHeld
  generalize answered : domain.answer machine.calls ⟨callee, values⟩ = answer at called ⊢
  have baseInside : base < machine.allocated := by omega
  have copied := Instruction.step_copy domain
    { machine.put base answer with calls := machine.calls ++ [⟨callee, values⟩] } small
    (Nat.lt_trans inside baseInside) baseInside (machine.slots_put_self base answer)
  refine ⟨_, (Machine.reaches_of_step called).append (Machine.reaches_of_step copied), rfl,
    Machine.slots_put_self .., rfl, fun other below different => ?_⟩
  exact (Machine.slots_put_of_ne _ different _).trans
    (machine.slots_put_of_ne (Nat.ne_of_lt below) answer)

/-- **Code for an expression computes the expression.** It makes the calls that evaluation makes
and leaves the value where it is wanted; of the slots handed out before it changes no other. -/
def Expression.Runs (domain : Domain Value) (source : Source) (expression : Expression) : Prop :=
  ∀ ⦃index slot : Nat⦄ ⦃frame : Frame⦄ ⦃fragment : Fragment⦄ ⦃environment : Environment Value⦄
    ⦃machine : Machine Value⦄,
    expression.lower source index frame slot = .ok fragment →
    frame.Represents environment machine → frame.Spares slot → slot < frame.size →
    fragment.frame.size ≤ machine.allocated → machine.allocated < UInt64.size →
    ∃ value after,
      expression.evaluate domain source environment index machine.calls =
        some (value, after.calls) ∧
      machine.Reaches domain fragment.code after ∧ machine.Yields after frame.size slot value

/-- Code for some expressions computes them one after the other, in consecutive slots. -/
def ArgumentsRun (domain : Domain Value) (source : Source) (arguments : List Expression) : Prop :=
  ∀ ⦃index slot : Nat⦄ ⦃frame : Frame⦄ ⦃fragment : Fragment⦄ ⦃environment : Environment Value⦄
    ⦃machine : Machine Value⦄,
    lowerArguments source index frame slot arguments = .ok fragment →
    frame.Represents environment machine →
    (∀ name known, frame.slotOf? name = some known →
      known < slot ∨ slot + arguments.length ≤ known) →
    slot + arguments.length ≤ frame.size →
    fragment.frame.size ≤ machine.allocated → machine.allocated < UInt64.size →
    ∃ values after,
      evaluateArguments domain source environment index machine.calls arguments =
        some (values, after.calls) ∧
      machine.Reaches domain fragment.code after ∧ values.length = arguments.length ∧
      machine.YieldsBlock after frame.size slot values

/-- Code for an expression leaves the names as they are. -/
theorem Frame.Represents.lower {frame : Frame} {environment : Environment Value}
    {machine after : Machine Value} {expression : Expression} {index slot : Nat}
    {fragment : Fragment} {value : Value} (represents : frame.Represents environment machine)
    (lowered : expression.lower source index frame slot = .ok fragment)
    (spared : frame.Spares slot) (yields : machine.Yields after frame.size slot value) :
    fragment.frame.Represents environment after := by
  rw [expression.frame_lower lowered]
  refine represents.mono (Nat.le_add_right _ _) fun name known found => ?_
  exact yields.others known (represents.below found) fun same => spared name (same ▸ found)

namespace Expression.Runs

theorem name (span : Span) : (Expression.name span).Runs domain source := by
  intro index slot frame fragment environment machine lowered represents _ inside fits small
  obtain ⟨known, found, rfl⟩ := Expression.lower_name_ok lowered
  obtain ⟨value, bound, stored⟩ := represents.held found
  have copied := Instruction.step_copy domain machine small (Nat.lt_of_lt_of_le inside fits)
    (Nat.lt_of_lt_of_le (represents.below found) fits) stored
  refine ⟨value, _, ?_, Machine.reaches_of_step copied, machine.yields_put ..⟩
  rw [Expression.evaluate, bound]
  rfl

theorem integer (span : Span) : (Expression.integer span).Runs domain source := by
  intro index slot frame fragment environment machine lowered _ _ inside fits small
  obtain ⟨word, read, rfl⟩ := Expression.lower_integer_ok lowered
  have stepped := Instruction.step_setFromConstant domain machine word small
    (Nat.lt_of_lt_of_le inside fits)
  refine ⟨domain.constant word, _, ?_, Machine.reaches_of_step stepped, machine.yields_put ..⟩
  rw [Expression.evaluate, read]
  rfl

theorem null (span : Span) : (Expression.null span).Runs domain source := by
  intro index slot frame fragment environment machine lowered _ _ inside fits small
  obtain rfl := Expression.lower_null_ok lowered
  have stepped := Instruction.step_setNull domain machine small (Nat.lt_of_lt_of_le inside fits)
  refine ⟨domain.null, _, ?_, Machine.reaches_of_step stepped, machine.yields_put ..⟩
  rfl

theorem function (parameters : List String) (body : List Statement) (span : Span) :
    (Expression.function parameters body span).Runs domain source := by
  intro index slot frame fragment environment machine lowered _ _ inside fits small
  obtain ⟨_, _, rfl⟩ := Expression.lower_function_ok lowered
  have stepped := Instruction.step_setFunction domain machine (.ofNat index) small
    (Nat.lt_of_lt_of_le inside fits)
  refine ⟨domain.function _, _, ?_, Machine.reaches_of_step stepped, machine.yields_put ..⟩
  rfl

theorem call {callee : Expression} {arguments : List Expression}
    (calleeRuns : callee.Runs domain source) (argumentsRun : ArgumentsRun domain source arguments) :
    (Expression.call callee arguments).Runs domain source := by
  intro index slot frame fragment environment machine lowered represents _ inside fits small
  obtain ⟨called, passed, calledOk, passedOk, rfl⟩ := Expression.lower_call_ok lowered
  have fits : passed.frame.size ≤ machine.allocated := fits
  have blockSize : frame.size + (1 + arguments.length) ≤ called.frame.size :=
    Expression.size_le_lower calledOk
  have further : called.frame.size ≤ passed.frame.size := size_le_lowerArguments passedOk
  -- The callee: its slot is the first of a block that no name stands for.
  have block : (frame.freshBlock (1 + arguments.length)).2.Represents environment machine :=
    represents.mono (Nat.le_add_right _ _) fun _ _ _ => rfl
  have blockSpared : (frame.freshBlock (1 + arguments.length)).2.Spares frame.size :=
    represents.spares (Nat.le_refl _)
  obtain ⟨calleeValue, middle, calleeMeans, calleeReaches, calleeYields⟩ :=
    calleeRuns calledOk block blockSpared (by show frame.size < frame.size + _; omega)
      (Nat.le_trans further fits) small
  -- The arguments: they leave the slot of the callee and the names alone.
  have restSpared : ∀ name known, called.frame.slotOf? name = some known →
      known < frame.size + 1 ∨ frame.size + 1 + arguments.length ≤ known := by
    intro name known found
    rw [callee.frame_lower calledOk] at found
    exact .inl (Nat.lt_succ_of_lt (represents.below found))
  obtain ⟨values, after, argumentsMean, argumentsReach, count, argumentsYield⟩ :=
    argumentsRun passedOk (block.lower calledOk blockSpared calleeYields) restSpared (by omega)
      (by rw [calleeYields.allocated]; exact fits) (by rw [calleeYields.allocated]; exact small)
  -- The call, and its result where it is wanted.
  have allocated : after.allocated = machine.allocated :=
    argumentsYield.allocated.trans calleeYields.allocated
  have calleeHeld : after.slots frame.size = some calleeValue :=
    (argumentsYield.others frame.size (by omega) (.inl (Nat.lt_succ_self _))).trans
      calleeYields.stored
  obtain ⟨final, callReaches, calls, callYields⟩ := Machine.reaches_call domain
    (by rw [allocated]; exact small) inside (by rw [allocated, count]; omega) calleeHeld
    argumentsYield.stored
  rw [count] at callReaches
  refine ⟨_, final, ?_, (calleeReaches.append argumentsReach).append callReaches,
    callYields.stored, callYields.allocated.trans allocated, ?_⟩
  · rw [Expression.evaluate, calleeMeans]
    show (evaluateArguments domain source environment _ middle.calls arguments).bind _ = _
    rw [← Expression.length_functions_lower calledOk, argumentsMean, calls]
    rfl
  · intro other below different
    rw [callYields.others other below different,
      argumentsYield.others other (by omega) (.inl (Nat.lt_succ_of_lt below)),
      calleeYields.others other (by show other < frame.size + _; omega) (Nat.ne_of_lt below)]

theorem unary {operator : UnaryOperator} {operand : Expression} {span : Span}
    (operandRuns : operand.Runs domain source) :
    (Expression.unary operator operand span).Runs domain source := by
  intro index slot frame fragment environment machine lowered represents spared inside fits small
  obtain ⟨inner, innerOk, rfl⟩ := Expression.lower_unary_ok lowered
  have grown : frame.size ≤ inner.frame.size := Expression.size_le_lower innerOk
  have innerFits : inner.frame.size ≤ machine.allocated := by
    rw [operator.frame_lower] at fits
    exact Nat.le_trans (Nat.le_add_right _ _) fits
  obtain ⟨value, middle, operandMeans, operandReaches, operandYields⟩ :=
    operandRuns innerOk represents spared inside innerFits small
  obtain ⟨code, after, emitted, operatorReaches, calls, operatorYields⟩ :=
    operator.reaches_lower domain (Nat.lt_of_lt_of_le inside grown)
      (by rw [operandYields.allocated]; exact fits)
      (by rw [operandYields.allocated]; exact small) operandYields.stored
  refine ⟨_, after, ?_, ?_, operatorYields.stored,
    operatorYields.allocated.trans operandYields.allocated, ?_⟩
  · rw [Expression.evaluate, operandMeans, calls]
    rfl
  · rw [emitted]
    exact operandReaches.append operatorReaches
  · intro other below different
    exact (operatorYields.others other (Nat.lt_of_lt_of_le below grown) different).trans
      (operandYields.others other below different)

theorem binary {operator : BinaryOperator} {left right : Expression} {span : Span}
    (leftRuns : left.Runs domain source) (rightRuns : right.Runs domain source) :
    (Expression.binary operator left right span).Runs domain source := by
  intro index slot frame fragment environment machine lowered represents spared inside fits small
  obtain ⟨first, second, leftOk, rightOk, rfl⟩ := Expression.lower_binary_ok lowered
  have grown : frame.size ≤ first.frame.size := Expression.size_le_lower leftOk
  have further : first.frame.size + 1 ≤ second.frame.size := Expression.size_le_lower rightOk
  have fits : second.frame.size ≤ machine.allocated := fits
  obtain ⟨leftValue, middle, leftMeans, leftReaches, leftYields⟩ :=
    leftRuns leftOk represents spared inside (by omega) small
  -- The right operand: its slot is fresh, so the left value stays where it is.
  have firstRepresents := represents.lower leftOk spared leftYields
  have nextRepresents : first.frame.fresh.2.Represents environment middle :=
    firstRepresents.mono (Nat.le_succ _) fun _ _ _ => rfl
  obtain ⟨rightValue, after, rightMeans, rightReaches, rightYields⟩ :=
    rightRuns rightOk nextRepresents (firstRepresents.spares (Nat.le_refl _)) (Nat.lt_succ_self _)
      (by rw [leftYields.allocated]; exact fits) (by rw [leftYields.allocated]; exact small)
  -- The operator, in the slot of the left value.
  have different : slot ≠ first.frame.size := Nat.ne_of_lt (Nat.lt_of_lt_of_le inside grown)
  have allocated : after.allocated = machine.allocated :=
    rightYields.allocated.trans leftYields.allocated
  have leftStored : after.slots slot = some leftValue :=
    (rightYields.others slot (by show slot < first.frame.size + 1; omega) different).trans
      leftYields.stored
  obtain ⟨final, operatorReaches, calls, operatorYields⟩ :=
    operator.reaches_code domain (by rw [allocated]; exact small) different (by omega) (by omega)
      leftStored rightYields.stored
  refine ⟨_, final, ?_, (leftReaches.append rightReaches).append operatorReaches,
    operatorYields.stored, operatorYields.allocated.trans allocated, ?_⟩
  · rw [Expression.evaluate, leftMeans]
    show (right.evaluate domain source environment _ middle.calls).bind _ = _
    rw [← Expression.length_functions_lower leftOk, rightMeans, calls]
    rfl
  · intro other below notSlot
    rw [operatorYields.others other (by omega) notSlot,
      rightYields.others other (by show other < first.frame.size + 1; omega) (by omega),
      leftYields.others other below notSlot]

end Expression.Runs

namespace ArgumentsRun

theorem nil : ArgumentsRun domain source [] := by
  intro index slot frame fragment environment machine lowered _ _ _ _ _
  obtain rfl := lowerArguments_nil_ok lowered
  refine ⟨[], machine, rfl, .refl machine, rfl, ?_, rfl, fun _ _ _ => rfl⟩
  intro offset below
  cases below

theorem cons {argument : Expression} {arguments : List Expression}
    (argumentRuns : argument.Runs domain source) (restRun : ArgumentsRun domain source arguments) :
    ArgumentsRun domain source (argument :: arguments) := by
  intro index slot frame fragment environment machine lowered represents spared inside fits small
  rw [List.length_cons] at spared inside
  obtain ⟨first, rest, firstOk, restOk, rfl⟩ := lowerArguments_cons_ok lowered
  have grown : frame.size ≤ first.frame.size := Expression.size_le_lower firstOk
  have further : first.frame.size ≤ rest.frame.size := size_le_lowerArguments restOk
  have fits : rest.frame.size ≤ machine.allocated := fits
  have firstSpared : frame.Spares slot := by
    intro name found
    have := spared name slot found
    omega
  obtain ⟨value, middle, firstMeans, firstReaches, firstYields⟩ :=
    argumentRuns firstOk represents firstSpared (by omega) (by omega) small
  have restSpared : ∀ name known, first.frame.slotOf? name = some known →
      known < slot + 1 ∨ slot + 1 + arguments.length ≤ known := by
    intro name known found
    rw [argument.frame_lower firstOk] at found
    have := spared name known found
    omega
  obtain ⟨values, after, restMean, restReach, count, restYield⟩ :=
    restRun restOk (represents.lower firstOk firstSpared firstYields) restSpared (by omega)
      (by rw [firstYields.allocated]; exact fits) (by rw [firstYields.allocated]; exact small)
  have firstStored : after.slots slot = some value :=
    (restYield.others slot (by omega) (.inl (Nat.lt_succ_self _))).trans firstYields.stored
  refine ⟨value :: values, after, ?_, firstReaches.append restReach, ?_, ?_,
    restYield.allocated.trans firstYields.allocated, ?_⟩
  · rw [evaluateArguments, firstMeans]
    show (evaluateArguments domain source environment _ middle.calls arguments).bind _ = _
    rw [← Expression.length_functions_lower firstOk, restMean]
    rfl
  · rw [List.length_cons, List.length_cons, count]
  · intro offset below
    cases offset with
    | zero => exact firstStored
    | succ offset =>
        rw [List.length_cons] at below
        rw [Nat.add_comm offset 1, ← Nat.add_assoc, List.getElem?_cons,
          restYield.stored offset (Nat.lt_of_succ_lt_succ below)]
        simp
  · intro other below outside
    rw [List.length_cons] at outside
    rw [restYield.others other (by omega) (by omega), firstYields.others other below (by omega)]

end ArgumentsRun

mutual

/-- The code of every expression computes it. -/
theorem Expression.run_lower : ∀ expression : Expression, expression.Runs domain source
  | .name span => .name span
  | .integer span => .integer span
  | .null span => .null span
  | .call callee arguments => .call callee.run_lower (run_lowerArguments arguments)
  | .unary _ operand _ => .unary operand.run_lower
  | .binary _ left right _ => .binary left.run_lower right.run_lower
  | .function parameters body span => .function parameters body span

/-- The code of all lists of expressions computes them. -/
theorem run_lowerArguments : ∀ arguments : List Expression, ArgumentsRun domain source arguments
  | [] => .nil
  | argument :: arguments => .cons argument.run_lower (run_lowerArguments arguments)

end

/-- Code that computes an expression in a fresh slot leaves the names as they are. -/
theorem Expression.run_lower_fresh {expression : Expression} {index : Nat} {frame : Frame}
    {fragment : Fragment} {environment : Environment Value} {machine : Machine Value}
    (lowered : expression.lower source index frame.fresh.2 frame.size = .ok fragment)
    (represents : frame.Represents environment machine)
    (fits : fragment.frame.size ≤ machine.allocated) (small : machine.allocated < UInt64.size) :
    ∃ value after,
      expression.evaluate domain source environment index machine.calls =
        some (value, after.calls) ∧
      machine.Reaches domain fragment.code after ∧ after.slots frame.size = some value ∧
      after.allocated = machine.allocated ∧ frame.size < fragment.frame.size ∧
      fragment.frame.Spares frame.size ∧ fragment.frame.Represents environment after := by
  have fresh : frame.fresh.2.Represents environment machine :=
    represents.mono (Nat.le_succ _) fun _ _ _ => rfl
  have spared : frame.fresh.2.Spares frame.size := represents.spares (Nat.le_refl _)
  obtain ⟨value, after, means, runs, yields⟩ :=
    expression.run_lower lowered fresh spared (Nat.lt_succ_self _) fits small
  refine ⟨value, after, means, runs, yields.stored, yields.allocated,
    Expression.size_le_lower lowered, ?_, fresh.lower lowered spared yields⟩
  rw [expression.frame_lower lowered]
  exact spared

/-! ## Statements and functions -/

/-- The end of a function gives its slots back and returns nothing. -/
theorem Machine.run_deallocate (machine : Machine Value)
    (small : machine.allocated < UInt64.size) :
    machine.run domain [.deallocate (.ofNat machine.allocated)] = some ⟨machine.calls, none⟩ := by
  have count : (UInt64.ofNat machine.allocated).toNat = machine.allocated :=
    UInt64.toNat_ofNat_of_lt' small
  have released : (Instruction.deallocate (.ofNat machine.allocated)).step domain machine =
      some { machine with allocated := machine.allocated - machine.allocated } := by
    rw [Instruction.step, count, if_pos (Nat.le_refl _)]
  exact Machine.reaches_of_step released []

/-- **The code of statements behaves like the statements**, up to the first `return` or the end of
the function. -/
theorem run_lowerStatements (domain : Domain Value) {body : List Statement} {index count : Nat}
    {frame : Frame} {fragment : Fragment} {environment : Environment Value}
    {machine : Machine Value} (lowered : lowerStatements source index frame body = .ok fragment)
    (represents : frame.Represents environment machine)
    (fits : fragment.frame.size ≤ count) (small : count < UInt64.size)
    (allocated : machine.allocated = count) :
    ∃ behaviour, evaluateBody domain source environment index machine.calls body =
        some behaviour ∧
      machine.run domain (fragment.code ++ [.deallocate (.ofNat count)]) = some behaviour := by
  induction body generalizing index frame fragment environment machine with
  | nil =>
      obtain rfl := lowerStatements_nil_ok lowered
      subst allocated
      exact ⟨⟨machine.calls, none⟩, rfl, machine.run_deallocate small⟩
  | cons statement body ih =>
      obtain ⟨first, rest, firstOk, restOk, rfl⟩ := lowerStatements_cons_ok lowered
      have further := size_lowerStatements restOk
      have fits : rest.frame.size ≤ count := fits
      have firstFits : first.frame.size ≤ machine.allocated := by omega
      have small' : machine.allocated < UInt64.size := allocated ▸ small
      show ∃ behaviour, _ ∧ machine.run domain ((first.code ++ rest.code) ++ _) = some behaviour
      rw [List.append_assoc]
      cases statement with
      | declare name initializer =>
          obtain ⟨value, valueOk, rfl⟩ := Statement.lower_declare_ok firstOk
          obtain ⟨result, after, means, runs, stored, kept, inside, spared, still⟩ :=
            Expression.run_lower_fresh valueOk represents firstFits small'
          obtain ⟨behaviour, restMeans, restRuns⟩ :=
            ih restOk (still.bind name inside spared stored) fits (kept.trans allocated)
          refine ⟨behaviour, ?_, (runs _).trans restRuns⟩
          rw [evaluateBody, means]
          rw [Expression.length_functions_lower valueOk] at restMeans
          exact restMeans
      | «return» value =>
          obtain ⟨inner, valueOk, rfl⟩ := Statement.lower_return_ok firstOk
          obtain ⟨result, after, means, runs, stored, kept, inside, -, -⟩ :=
            Expression.run_lower_fresh valueOk represents firstFits small'
          have innerFits : inner.frame.size ≤ machine.allocated := firstFits
          have insideAfter : frame.size < after.allocated := by omega
          refine ⟨⟨after.calls, some result⟩, ?_, ?_⟩
          · rw [evaluateBody, means]
            rfl
          · show machine.run domain ((inner.code ++ [.return (.ofNat frame.size)]) ++ _) = _
            rw [List.append_assoc, runs]
            show after.run domain (.return (.ofNat frame.size) :: _) = _
            rw [Machine.run, after.toNat_ofNat_of_lt (kept ▸ small') insideAfter,
              Machine.read_eq insideAfter stored]
            rfl
      | assign target value =>
          obtain ⟨span, known, inner, rfl, found, valueOk, rfl⟩ :=
            Statement.lower_assign_ok firstOk
          obtain ⟨result, after, means, runs, stored, kept, inside, -, still⟩ :=
            Expression.run_lower_fresh valueOk represents firstFits small'
          have innerFits : inner.frame.size ≤ machine.allocated := firstFits
          have innerFound : inner.frame.slotOf? (source.extract span) = some known := by
            rw [value.frame_lower valueOk]
            exact found
          have copied := Instruction.step_copy domain after (kept ▸ small')
            (Nat.lt_of_lt_of_le (still.below innerFound) (kept ▸ innerFits))
            (Nat.lt_of_lt_of_le inside (kept ▸ innerFits)) stored
          obtain ⟨behaviour, restMeans, restRuns⟩ :=
            ih restOk (still.assign innerFound result) fits (kept.trans allocated)
          refine ⟨behaviour, ?_, ((runs.append (Machine.reaches_of_step copied)) _).trans restRuns⟩
          obtain ⟨held, bound, -⟩ := represents.held found
          rw [evaluateBody, Expression.assigned?, bound]
          simp only [Option.isSome_some, if_true]
          rw [means]
          show evaluateBody domain source _ (index + value.literals.length) _ body = _
          rw [← Expression.length_functions_lower valueOk]
          exact restMeans
      | evaluate value =>
          have valueOk := Statement.lower_evaluate_ok firstOk
          obtain ⟨result, after, means, runs, -, kept, -, -, still⟩ :=
            Expression.run_lower_fresh valueOk represents firstFits small'
          obtain ⟨behaviour, restMeans, restRuns⟩ :=
            ih restOk still fits (kept.trans allocated)
          refine ⟨behaviour, ?_, (runs _).trans restRuns⟩
          rw [evaluateBody, means]
          rw [Expression.length_functions_lower valueOk] at restMeans
          exact restMeans

/-- The code of one function behaves like the function. -/
theorem Fragment.run_routine {function : FunctionSource} {index : Nat} {body : Fragment}
    (lowered : lowerStatements source index (.ofParameters function.parameters) function.body =
      .ok body) (small : function.demand < UInt64.size) {arguments : List Value}
    (supplied : arguments.length = function.parameters.length) :
    ∃ behaviour, evaluateBody domain source (.ofArguments function.parameters arguments) index []
        function.body = some behaviour ∧
      body.routine.run domain arguments = some behaviour := by
  have size : body.frame.size = function.demand := by
    rw [size_lowerStatements lowered, Frame.size_ofParameters, FunctionSource.demand]
  have small : body.frame.size < UInt64.size := size ▸ small
  have count : (UInt64.ofNat body.frame.size).toNat = body.frame.size :=
    UInt64.toNat_ofNat_of_lt' small
  generalize entered : ({ Machine.entry arguments with allocated := body.frame.size } :
    Machine Value) = machine
  have enters : (Machine.entry arguments).Reaches domain [.allocate (.ofNat body.frame.size)]
      machine := by
    refine Machine.reaches_of_step ?_
    rw [Instruction.step, count, ← entered]
    simp [Machine.entry]
  have represents : (Frame.ofParameters function.parameters).Represents
      (.ofArguments function.parameters arguments) machine := by
    refine (Frame.Represents.empty machine).foldl_introduce supplied fun offset _ => ?_
    rw [← entered, Nat.zero_add]
    rfl
  obtain ⟨behaviour, means, runs⟩ := run_lowerStatements domain lowered represents
    (Nat.le_refl _) small (by rw [← entered])
  refine ⟨behaviour, ?_, ?_⟩
  · rw [← means, ← entered]
    rfl
  · exact (enters _).trans runs

end Expressions

/-- **Generated code preserves meaning.** The unit of a tree holds a routine for every function of
the tree, and the routine makes the same calls and returns the same value as the function, for
every meaning of values, operations and calls. -/
theorem FunctionSource.lower_preserves_behaviour (domain : Domain Value) {source : Source}
    {tree : FunctionSource} {unit : CodeUnit} (lowered : tree.lower source = .ok unit)
    (small : ∀ function ∈ tree.functions, function.demand < UInt64.size) :
    unit.functions.length = tree.functions.length ∧
      ∀ (index : Nat) (function : FunctionSource), tree.functions[index]? = some function →
        ∀ arguments : List Value, arguments.length = function.parameters.length →
          ∃ routine behaviour, unit.functions[index]? = some routine ∧
            function.evaluate domain source index arguments = some behaviour ∧
            routine.run domain arguments = some behaviour := by
  have compiled := FunctionSource.compiled_lower lowered
  refine ⟨compiled.length_eq, fun index function found arguments supplied => ?_⟩
  obtain ⟨body, bodyOk, same⟩ := compiled.getElem? found
  obtain ⟨behaviour, means, runs⟩ := Fragment.run_routine bodyOk
    (small function (List.mem_of_getElem? found)) supplied
  rw [Nat.zero_add] at means
  exact ⟨body.routine, behaviour, same, means, runs⟩

/-! ## A function that calls another one -/

/-- Words as values.  A call is answered by its callee and arguments summed up with the number of
the calls before it. -/
def Domain.words : Domain UInt64 where
  constant word := word
  null := 0
  function index := index
  add first second := first + second
  mul first second := first * second
  div first second := first / second
  negate word := 0 - word
  not word := if word = 0 then 1 else 0
  and first second := first &&& second
  or first second := first ||| second
  xor first second := first ^^^ second
  equal first second := if first = second then 1 else 0
  less first second := if first < second then 1 else 0
  greater first second := if second < first then 1 else 0
  answer earlier call := call.callee + call.arguments.foldr (· + ·) 0 + .ofNat earlier.length

/-- The source of `predecessor`. -/
def predecessorSource : Source :=
  .ofString "var f = function(a) \x7b return a - 1 \x7d\nreturn call f(2)"

/-- A function that takes one from its argument, called with 2. -/
def predecessor : FunctionSource where
  parameters := []
  body :=
    [.declare "f" (.function ["a"]
        [.return (.binary .subtract (.name ⟨29, 30⟩) (.integer ⟨33, 34⟩) ⟨31, 32⟩)] ⟨8, 16⟩),
      .return (.call (.name ⟨49, 50⟩) [.integer ⟨51, 52⟩])]

/-- The whole source makes one call, of the function with index 1, and returns its answer. -/
theorem predecessor_runs : ∃ unit routine, predecessor.lower predecessorSource = .ok unit ∧
    (∀ function ∈ predecessor.functions, function.demand < UInt64.size) ∧
    unit.functions[0]? = some routine ∧
    routine.run Domain.words [] = some ⟨[⟨1, [2]⟩], some 3⟩ := by
  obtain ⟨unit, lowered⟩ : ∃ unit, predecessor.lower predecessorSource = .ok unit := ⟨_, rfl⟩
  have small : ∀ function ∈ predecessor.functions, function.demand < UInt64.size := by
    decide +kernel
  obtain ⟨-, runs⟩ := FunctionSource.lower_preserves_behaviour Domain.words lowered small
  obtain ⟨routine, behaviour, found, means, run⟩ := runs 0 predecessor rfl [] rfl
  have evaluated : predecessor.evaluate Domain.words predecessorSource 0 [] =
      some ⟨[⟨1, [2]⟩], some 3⟩ := by decide +kernel
  rw [evaluated] at means
  exact ⟨unit, routine, lowered, small, found, run.trans means.symm⟩

end SlotCompiler
