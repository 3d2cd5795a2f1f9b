import Mathlib.Data.List.Nodup
import SlotCompiler.Proofs.Bytecode.Verifier
import SlotCompiler.Proofs.Generation.Inversion

/-!
# Generated units pass the verifier

Code for an expression fills the slot its value is wanted in and exactly the slots that it takes
itself, and reads nothing but those and the slots of names (`Expression.fills_lower`).  So behind
every statement all slots handed out so far hold something, which is what the next statement starts
from (`fills_lowerStatements`).

That no two instructions refer to the same function follows from the numbering: the references in
a piece of code and in the literals inside it are the indices of these literals, in another order
(`Referenced`).
-/

set_option autoImplicit false

namespace SlotCompiler

variable {source : Source}

theorem toNat_ofNat_slot {slot size : Nat} (below : slot < size) (small : size < UInt64.size) :
    (UInt64.ofNat slot).toNat = slot := UInt64.toNat_ofNat_of_lt' (below.trans small)

/-! ## Names -/

/-- The names of a frame stand for slots that were handed out and hold something. -/
def Frame.NamesIn (frame : Frame) (known : Set Nat) : Prop :=
  ∀ name slot, frame.slotOf? name = some slot → slot ∈ known ∧ slot < frame.size

namespace Frame.NamesIn

variable {frame other : Frame} {known more : Set Nat}

/-- More slots are handed out, and more of them hold something. -/
theorem grow (names : frame.NamesIn known) (same : other.bindings = frame.bindings)
    (size : frame.size ≤ other.size) (subset : known ⊆ more) : other.NamesIn more := by
  intro name slot found
  rw [slotOf?, same] at found
  obtain ⟨present, below⟩ := names name slot found
  exact ⟨subset present, below.trans_le size⟩

theorem freshBlock (names : frame.NamesIn known) (count : Nat) :
    (frame.freshBlock count).2.NamesIn known :=
  names.grow rfl (Nat.le_add_right _ _) Set.Subset.rfl

/-- Behind an expression, the same names stand for the same slots. -/
theorem expression {expression : Expression} {index slot : Nat} {fragment : Fragment}
    (names : frame.NamesIn known)
    (lowered : expression.lower source index frame slot = .ok fragment) (slots : Set Nat) :
    fragment.frame.NamesIn (known ∪ slots) := by
  refine names.grow ?_ (Expression.size_le_lower lowered) Set.subset_union_left
  rw [expression.frame_lower lowered]

end Frame.NamesIn

/-! ## Expressions -/

section Operators

variable {known slots : Set Nat} {slot size : Nat}

/-- One instruction that writes one slot, while no slots are taken. -/
theorem Fills.one (instruction : Instruction) (slot size : Nat)
    (writes : instruction.writes = [slot]) (present : ∀ slot ∈ instruction.reads, slot ∈ known)
    (unframed : ¬ instruction.IsFraming) :
    Fills known [instruction] (insert slot (Set.Ico size size)) := by
  rw [Set.Ico_self]
  exact Fills.nil.snoc instruction slot writes (fun slot read => .inl (present slot read)) unframed

/-- An operator works on the slot of its operand.  Inverting takes one slot more. -/
theorem UnaryOperator.fills_lower (operator : UnaryOperator) {operand : Fragment}
    (grown : size ≤ operand.frame.size) (below : slot < operand.frame.size)
    (small : (operator.lower slot operand).frame.size < UInt64.size)
    (fills : Fills known operand.code (insert slot (Set.Ico size operand.frame.size))) :
    Fills known (operator.lower slot operand).code
      (insert slot (Set.Ico size (operator.lower slot operand).frame.size)) := by
  rw [operator.frame_lower] at small ⊢
  have word : (UInt64.ofNat slot).toNat = slot :=
    toNat_ofNat_slot (below.trans_le (Nat.le_add_right _ _)) small
  cases operator with
  | negate =>
      have negated := fills.snoc (.negate (.ofNat slot)) slot (by simp [word]) (by simp [word])
        nofun
      rwa [Set.insert_idem] at negated
  | not =>
      have inverted := fills.snoc (.not (.ofNat slot)) slot (by simp [word]) (by simp [word]) nofun
      rwa [Set.insert_idem] at inverted
  | invert =>
      have mask : (UInt64.ofNat operand.frame.size).toNat = operand.frame.size :=
        toNat_ofNat_slot (Nat.lt_succ_self _) small
      have masked := fills.snoc
        (.setFromConstant (.ofNat operand.frame.size) (.ofNat (UInt64.size - 1)))
        operand.frame.size (by simp [mask]) (by simp) nofun
      have inverted := masked.snoc (.xor (.ofNat slot) (.ofNat operand.frame.size)) slot
        (by simp [word]) (by simp [word, mask]) nofun
      rw [List.append_assoc] at inverted
      refine inverted.congr fun other => ?_
      simp only [Set.mem_insert_iff, Set.mem_Ico, if_true]
      omega

/-- An operator works on the slots of its operands, which are filled. -/
theorem BinaryOperator.fills_code (operator : BinaryOperator) {left right : Nat}
    {code : List Instruction} (leftFilled : left ∈ slots) (rightFilled : right ∈ slots)
    (leftBelow : left < size) (rightBelow : right < size) (small : size < UInt64.size)
    (fills : Fills known code slots) : Fills known (code ++ operator.code left right) slots := by
  have leftWord := toNat_ofNat_slot leftBelow small
  have rightWord := toNat_ofNat_slot rightBelow small
  cases operator with
  | add =>
      have added := fills.snoc (.add (.ofNat left) (.ofNat right)) left (by simp [leftWord])
        (by simp [leftWord, rightWord, leftFilled, rightFilled]) nofun
      rwa [Set.insert_eq_of_mem leftFilled] at added
  | subtract =>
      have negated := fills.snoc (.negate (.ofNat right)) right (by simp [rightWord])
        (by simp [rightWord, rightFilled]) nofun
      rw [Set.insert_eq_of_mem rightFilled] at negated
      have added := negated.snoc (.add (.ofNat left) (.ofNat right)) left (by simp [leftWord])
        (by simp [leftWord, rightWord, leftFilled, rightFilled]) nofun
      rwa [Set.insert_eq_of_mem leftFilled, List.append_assoc] at added
  | multiply =>
      have product := fills.snoc (.mul (.ofNat left) (.ofNat right)) left (by simp [leftWord])
        (by simp [leftWord, rightWord, leftFilled, rightFilled]) nofun
      rwa [Set.insert_eq_of_mem leftFilled] at product
  | divide =>
      have quotient := fills.snoc (.div (.ofNat left) (.ofNat right)) left (by simp [leftWord])
        (by simp [leftWord, rightWord, leftFilled, rightFilled]) nofun
      rwa [Set.insert_eq_of_mem leftFilled] at quotient

/-- A call works on a block of filled slots, and its result is copied to where it is wanted. -/
theorem Fills.call {code : List Instruction} {base count : Nat} (fills : Fills known code slots)
    (block : Set.Ico base (base + (1 + count)) ⊆ slots) (within : base + (1 + count) ≤ size)
    (below : slot < size) (small : size < UInt64.size) :
    Fills known (code ++ [.call (.ofNat base) (.ofNat count), .copy (.ofNat slot) (.ofNat base)])
      (insert slot slots) := by
  have word := toNat_ofNat_slot below small
  have baseWord : (UInt64.ofNat base).toNat = base := toNat_ofNat_slot (by omega) small
  have countWord : (UInt64.ofNat count).toNat = count := toNat_ofNat_slot (by omega) small
  have baseFilled : base ∈ slots := block ⟨Nat.le_refl _, by omega⟩
  have called := fills.snoc (.call (.ofNat base) (.ofNat count)) base (by simp [baseWord])
    (fun other read => by
      rw [Instruction.reads, baseWord, countWord, List.mem_range'_1] at read
      exact .inr (block ⟨read.1, by omega⟩)) nofun
  rw [Set.insert_eq_of_mem baseFilled] at called
  have copied := called.snoc (.copy (.ofNat slot) (.ofNat base)) slot (by simp [word])
    (by simp [baseWord, baseFilled]) nofun
  rwa [List.append_assoc] at copied

end Operators

mutual

/-- **The code of an expression fills the slot that its value is wanted in** and the slots that it
takes, and reads nothing else but the slots of names. -/
theorem Expression.fills_lower : ∀ (expression : Expression) {index slot : Nat} {frame : Frame}
    {fragment : Fragment} {known : Set Nat},
    expression.lower source index frame slot = .ok fragment → frame.NamesIn known →
    slot < frame.size → fragment.frame.size < UInt64.size →
    Fills known fragment.code (insert slot (Set.Ico frame.size fragment.frame.size))
  | .name _, _, _, _, _, _, lowered, names, below, small => by
      obtain ⟨held, found, rfl⟩ := Expression.lower_name_ok lowered
      obtain ⟨present, within⟩ := names _ _ found
      exact .one _ _ _ (by simp [toNat_ofNat_slot below small])
        (by simp [toNat_ofNat_slot within small, present]) nofun
  | .integer _, _, _, _, _, _, lowered, _, below, small => by
      obtain ⟨_, _, rfl⟩ := Expression.lower_integer_ok lowered
      exact .one _ _ _ (by simp [toNat_ofNat_slot below small]) (by simp) nofun
  | .null _, _, _, _, _, _, lowered, _, below, small => by
      obtain rfl := Expression.lower_null_ok lowered
      exact .one _ _ _ (by simp [toNat_ofNat_slot below small]) (by simp) nofun
  | .call callee arguments, _, slot, frame, _, known, lowered, names, below, small => by
      obtain ⟨called, passed, first, second, rfl⟩ := Expression.lower_call_ok lowered
      have small : passed.frame.size < UInt64.size := small
      have grown : frame.size + (1 + arguments.length) ≤ called.frame.size :=
        Expression.size_le_lower first
      have grown' := size_le_lowerArguments second
      have block := names.freshBlock (1 + arguments.length)
      have start : frame.size < frame.size + (1 + arguments.length) := by omega
      have filled := (callee.fills_lower first block start (grown'.trans_lt small)).append
        (fills_lowerArguments arguments second (block.expression first _) (by omega) small)
      refine (filled.call (fun other inside => ?_) (grown.trans grown') (by omega) small).congr
        fun other => ?_
      · simp only [Frame.freshBlock, Set.mem_union, Set.mem_insert_iff, Set.mem_Ico] at inside ⊢
        omega
      · show _ ↔ other ∈ insert slot (Set.Ico frame.size passed.frame.size)
        simp only [Frame.freshBlock, Set.mem_union, Set.mem_insert_iff, Set.mem_Ico]
        omega
  | .unary operator operand _, _, _, _, _, _, lowered, names, below, small => by
      obtain ⟨value, first, rfl⟩ := Expression.lower_unary_ok lowered
      have grown := Expression.size_le_lower first
      refine operator.fills_lower grown (below.trans_le grown) small ?_
      refine operand.fills_lower first names below (lt_of_le_of_lt ?_ small)
      rw [operator.frame_lower]
      exact Nat.le_add_right _ _
  | .binary operator left right _, _, slot, frame, _, _, lowered, names, below, small => by
      obtain ⟨first, second, leftOk, rightOk, rfl⟩ := Expression.lower_binary_ok lowered
      have small : second.frame.size < UInt64.size := small
      have grown := Expression.size_le_lower leftOk
      have grown' : first.frame.size + 1 ≤ second.frame.size := Expression.size_le_lower rightOk
      have filled := (left.fills_lower leftOk names below (by omega)).append
        (right.fills_lower rightOk ((names.expression leftOk _).freshBlock 1)
          (Nat.lt_succ_self _) small)
      refine (operator.fills_code (.inl (Set.mem_insert _ _)) (.inr (Set.mem_insert _ _))
        (by omega) grown' small filled).congr fun other => ?_
      show _ ↔ other ∈ insert slot (Set.Ico frame.size second.frame.size)
      simp only [Frame.fresh, Frame.freshBlock, Set.mem_union, Set.mem_insert_iff, Set.mem_Ico]
      omega
  | .function _ _ _, _, _, _, _, _, lowered, _, below, small => by
      obtain ⟨_, _, rfl⟩ := Expression.lower_function_ok lowered
      exact .one _ _ _ (by simp [toNat_ofNat_slot below small]) (by simp) nofun

/-- The code of some arguments fills a block of slots and the slots that it takes. -/
theorem fills_lowerArguments : ∀ (arguments : List Expression) {index slot : Nat}
    {frame : Frame} {fragment : Fragment} {known : Set Nat},
    lowerArguments source index frame slot arguments = .ok fragment → frame.NamesIn known →
    slot + arguments.length ≤ frame.size → fragment.frame.size < UInt64.size →
    Fills known fragment.code
      (Set.Ico slot (slot + arguments.length) ∪ Set.Ico frame.size fragment.frame.size)
  | [], _, _, _, _, _, lowered, _, _, _ => by
      obtain rfl := lowerArguments_nil_ok lowered
      rw [List.length_nil, Nat.add_zero, Set.Ico_self, Set.Ico_self, Set.union_self]
      exact .nil
  | argument :: arguments, _, slot, frame, _, _, lowered, names, below, small => by
      obtain ⟨first, rest, firstOk, restOk, rfl⟩ := lowerArguments_cons_ok lowered
      have small : rest.frame.size < UInt64.size := small
      rw [List.length_cons] at below ⊢
      have grown := Expression.size_le_lower firstOk
      have grown' := size_le_lowerArguments restOk
      have filled := (argument.fills_lower firstOk names (by omega) (grown'.trans_lt small)).append
        (fills_lowerArguments arguments restOk (names.expression firstOk _) (by omega) small)
      refine filled.congr fun other => ?_
      show _ ↔ other ∈ Set.Ico slot (slot + (arguments.length + 1)) ∪
        Set.Ico frame.size rest.frame.size
      simp only [Set.mem_union, Set.mem_insert_iff, Set.mem_Ico]
      omega

end

/-! ## Statements -/

/-- All slots that were handed out hold something, and names stand for such slots. -/
def Frame.Settled (frame : Frame) : Prop := frame.NamesIn {slot | slot < frame.size}

namespace Frame.Settled

variable {frame : Frame}

/-- Slots are handed out and filled. -/
theorem grow {other : Frame} (settled : frame.Settled) (same : other.bindings = frame.bindings)
    (size : frame.size ≤ other.size) : other.Settled :=
  NamesIn.grow settled same size fun _ (below : _ < frame.size) => below.trans_le size

theorem bind (settled : frame.Settled) (name : String) {slot : Nat} (below : slot < frame.size) :
    (frame.bind name slot).Settled := by
  intro other held found
  rw [slotOf?_bind] at found
  split at found
  · cases found
    exact ⟨below, below⟩
  · exact settled other held found

theorem introduce (settled : frame.Settled) (name : String) :
    (frame.introduce name).2.Settled := by
  have fresh : frame.fresh.2.Settled := settled.grow rfl (Nat.le_succ _)
  exact fresh.bind name (Nat.lt_succ_self _)

theorem foldl_introduce (settled : frame.Settled) (parameters : List String) :
    (parameters.foldl (fun frame name => (frame.introduce name).2) frame).Settled := by
  induction parameters generalizing frame with
  | nil => exact settled
  | cons parameter parameters ih => exact ih (settled.introduce parameter)

/-- The parameters of a function are in the first slots. -/
theorem ofParameters (parameters : List String) : (Frame.ofParameters parameters).Settled := by
  have empty : ({} : Frame).Settled := nofun
  exact empty.foldl_introduce parameters

end Frame.Settled

section Statements

variable {index : Nat} {frame : Frame} {fragment : Fragment}

/-- The value of a statement is wanted in a fresh slot, and its code fills the slots from there. -/
theorem Expression.fillsUpTo_lower {expression : Expression}
    (lowered : expression.lower source index frame.fresh.2 frame.size = .ok fragment)
    (settled : frame.Settled) (small : fragment.frame.size < UInt64.size) :
    frame.size < fragment.frame.size ∧ fragment.frame.Settled ∧
      FillsUpTo frame.size fragment.frame.size fragment.code := by
  have grown : frame.size + 1 ≤ fragment.frame.size := Expression.size_le_lower lowered
  refine ⟨grown, ?_, ?_⟩
  · refine settled.grow ?_ (Nat.le_of_lt grown)
    rw [expression.frame_lower lowered]
    rfl
  · refine .of_fills (expression.fills_lower lowered (settled.freshBlock 1) (Nat.lt_succ_self _)
      small) fun slot => ?_
    simp only [Frame.fresh, Frame.freshBlock, Set.mem_insert_iff, Set.mem_Ico]
    omega

/-- **The code of a statement fills the slots that the statement takes.** -/
theorem Statement.fillsUpTo_lower {statement : Statement}
    (lowered : statement.lower source index frame = .ok fragment)
    (settled : frame.Settled) (small : fragment.frame.size < UInt64.size) :
    fragment.frame.Settled ∧ FillsUpTo frame.size fragment.frame.size fragment.code := by
  cases statement with
  | declare name initializer =>
      obtain ⟨value, first, rfl⟩ := Statement.lower_declare_ok lowered
      obtain ⟨below, behind, filled⟩ := Expression.fillsUpTo_lower first settled small
      exact ⟨behind.bind name below, filled⟩
  | «return» value =>
      obtain ⟨result, first, rfl⟩ := Statement.lower_return_ok lowered
      obtain ⟨below, behind, filled⟩ := Expression.fillsUpTo_lower first settled small
      have word : (UInt64.ofNat frame.size).toNat = frame.size := toNat_ofNat_slot below small
      exact ⟨behind, filled.snoc _ (by simpa [word] using below) (by simp) nofun⟩
  | assign target value =>
      obtain ⟨_, known, result, _, found, first, rfl⟩ := Statement.lower_assign_ok lowered
      obtain ⟨below, behind, filled⟩ := Expression.fillsUpTo_lower first settled small
      have within : known < result.frame.size := (settled _ _ found).2.trans below
      have word : (UInt64.ofNat frame.size).toNat = frame.size := toNat_ofNat_slot below small
      have knownWord : (UInt64.ofNat known).toNat = known := toNat_ofNat_slot within small
      exact ⟨behind, filled.snoc _ (by simpa [word] using below) (by simpa [knownWord] using within)
        nofun⟩
  | evaluate value =>
      obtain ⟨_, behind, filled⟩ :=
        Expression.fillsUpTo_lower (Statement.lower_evaluate_ok lowered) settled small
      exact ⟨behind, filled⟩

/-- The code of some statements fills the slots that they take. -/
theorem fillsUpTo_lowerStatements {body : List Statement}
    (lowered : lowerStatements source index frame body = .ok fragment)
    (settled : frame.Settled) (small : fragment.frame.size < UInt64.size) :
    FillsUpTo frame.size fragment.frame.size fragment.code := by
  induction body generalizing index frame fragment with
  | nil =>
      obtain rfl := lowerStatements_nil_ok lowered
      exact .nil _
  | cons statement body ih =>
      obtain ⟨first, rest, firstOk, restOk, rfl⟩ := lowerStatements_cons_ok lowered
      have small : rest.frame.size < UInt64.size := small
      have grown : first.frame.size ≤ rest.frame.size := by
        rw [size_lowerStatements restOk]
        exact Nat.le_add_right _ _
      obtain ⟨behind, filled⟩ := Statement.fillsUpTo_lower firstOk settled (grown.trans_lt small)
      exact filled.append (ih restOk behind small)

end Statements

/-! ## References -/

/-- Code and the functions in it, the first of which has an index, with one reference to each of the
functions, from a place with a smaller index. -/
structure Referenced (index : Nat) (code : List Instruction) (functions : List Routine) : Prop where
  perm : (references code ++ functions.flatMap fun routine => references routine.code).Perm
    (List.range' index functions.length)
  above : ∀ place routine, functions[place]? = some routine →
    ∀ other ∈ references routine.code, index + place < other

namespace Referenced

variable {index : Nat} {code more : List Instruction} {functions others : List Routine}

theorem plain (index : Nat) (none : references code = []) : Referenced index code [] where
  perm := by rw [none]; exact .nil
  above := nofun

theorem append (first : Referenced index code functions)
    (second : Referenced (index + functions.length) more others) :
    Referenced index (code ++ more) (functions ++ others) where
  perm := by
    have joined := first.perm.append second.perm
    rw [List.range'_append_1, ← List.length_append] at joined
    refine List.Perm.trans ?_ joined
    rw [references_append, List.flatMap_append, List.append_assoc, List.append_assoc]
    exact .append_left _ (List.perm_append_comm_assoc _ _ _)
  above := by
    intro place routine found other member
    rcases Nat.lt_or_ge place functions.length with inside | behind
    · rw [List.getElem?_append_left inside] at found
      exact first.above place routine found other member
    · rw [List.getElem?_append_right behind] at found
      have below := second.above _ routine found other member
      omega

/-- More code that refers to nothing. -/
theorem emit (referenced : Referenced index code functions) (none : references more = []) :
    Referenced index (code ++ more) functions := by
  have joined := referenced.append (plain (index + functions.length) none)
  rwa [List.append_nil] at joined

theorem congr (referenced : Referenced index code functions)
    (same : references more = references code) : Referenced index more functions :=
  ⟨same ▸ referenced.perm, referenced.above⟩

theorem mem_iff (referenced : Referenced index code functions) {other : Nat} :
    other ∈ references code ++ functions.flatMap (fun routine => references routine.code) ↔
      index ≤ other ∧ other < index + functions.length := by
  rw [referenced.perm.mem_iff, List.mem_range'_1]

end Referenced

theorem references_routine (body : Fragment) :
    references body.routine.code = references body.code := by
  rw [Fragment.routine, references_append]
  exact List.append_nil _

/-- What a function refers to is the literals of its body, which come behind it. -/
theorem Referenced.close {index : Nat} {body : Fragment}
    (referenced : Referenced (index + 1) body.code body.functions) :
    (body.close.flatMap fun routine => references routine.code).Perm
        (List.range' (index + 1) body.functions.length) ∧
      ∀ place routine, body.close[place]? = some routine →
        ∀ other ∈ references routine.code, index + place < other := by
  have closed : body.close = body.routine :: body.functions := rfl
  rw [closed, List.flatMap_cons, references_routine]
  refine ⟨referenced.perm, fun place routine found other member => ?_⟩
  cases place with
  | zero =>
      obtain rfl : body.routine = routine := Option.some_inj.mp found
      rw [references_routine] at member
      exact (referenced.mem_iff.mp (List.mem_append_left _ member)).1
  | succ place =>
      have below := referenced.above place routine found other member
      omega

/-- The code for a literal refers to the literal, and the function to the literals of its body. -/
theorem Referenced.literal {index slot : Nat} {body : Fragment} (word : index < UInt64.size)
    (referenced : Referenced (index + 1) body.code body.functions) :
    Referenced index [.setFunction (.ofNat slot) (.ofNat index)] body.close where
  perm := by
    have own : references [.setFunction (.ofNat slot) (.ofNat index)] = [index] :=
      congrArg (fun word => [word]) (UInt64.toNat_ofNat_of_lt' word)
    rw [own]
    exact referenced.close.1.cons index
  above := referenced.close.2

theorem UnaryOperator.references_lower (operator : UnaryOperator) (slot : Nat)
    (operand : Fragment) :
    references (operator.lower slot operand).code = references operand.code := by
  cases operator with
  | negate => exact references_append_of_plain _ rfl
  | not => exact references_append_of_plain _ rfl
  | invert => exact references_append_of_plain _ rfl

theorem BinaryOperator.references_code (operator : BinaryOperator) (left right : Nat) :
    references (operator.code left right) = [] := by
  cases operator <;> rfl

mutual

/-- **The code of an expression refers to the literals in it once each.** -/
theorem Expression.referenced_lower : ∀ (expression : Expression) {index slot : Nat}
    {frame : Frame} {fragment : Fragment},
    expression.lower source index frame slot = .ok fragment →
    index + fragment.functions.length ≤ UInt64.size →
    Referenced index fragment.code fragment.functions
  | .name _, _, _, _, _, lowered, _ => by
      obtain ⟨_, _, rfl⟩ := Expression.lower_name_ok lowered
      exact .plain _ rfl
  | .integer _, _, _, _, _, lowered, _ => by
      obtain ⟨_, _, rfl⟩ := Expression.lower_integer_ok lowered
      exact .plain _ rfl
  | .null _, _, _, _, _, lowered, _ => by
      obtain rfl := Expression.lower_null_ok lowered
      exact .plain _ rfl
  | .call callee arguments, index, _, _, _, lowered, words => by
      obtain ⟨called, passed, first, second, rfl⟩ := Expression.lower_call_ok lowered
      have words : index + (called.functions ++ passed.functions).length ≤ UInt64.size := words
      rw [List.length_append] at words
      have joined := (callee.referenced_lower first (by omega)).append
        (referenced_lowerArguments arguments second (by omega))
      exact joined.emit rfl
  | .unary operator operand _, _, _, _, _, lowered, words => by
      obtain ⟨value, first, rfl⟩ := Expression.lower_unary_ok lowered
      rw [operator.functions_lower] at words ⊢
      exact (operand.referenced_lower first words).congr (operator.references_lower _ value)
  | .binary operator left right _, index, _, _, _, lowered, words => by
      obtain ⟨first, second, leftOk, rightOk, rfl⟩ := Expression.lower_binary_ok lowered
      have words : index + (first.functions ++ second.functions).length ≤ UInt64.size := words
      rw [List.length_append] at words
      have joined := (left.referenced_lower leftOk (by omega)).append
        (right.referenced_lower rightOk (by omega))
      exact joined.emit (operator.references_code _ _)
  | .function _ body _, index, _, _, _, lowered, words => by
      obtain ⟨inner, innerOk, rfl⟩ := Expression.lower_function_ok lowered
      have words : index + (inner.functions.length + 1) ≤ UInt64.size := words
      exact .literal (by omega) (referenced_lowerStatements body innerOk (by omega))

theorem referenced_lowerArguments : ∀ (arguments : List Expression) {index slot : Nat}
    {frame : Frame} {fragment : Fragment},
    lowerArguments source index frame slot arguments = .ok fragment →
    index + fragment.functions.length ≤ UInt64.size →
    Referenced index fragment.code fragment.functions
  | [], _, _, _, _, lowered, _ => by
      obtain rfl := lowerArguments_nil_ok lowered
      exact .plain _ rfl
  | argument :: arguments, index, _, _, _, lowered, words => by
      obtain ⟨first, rest, firstOk, restOk, rfl⟩ := lowerArguments_cons_ok lowered
      have words : index + (first.functions ++ rest.functions).length ≤ UInt64.size := words
      rw [List.length_append] at words
      exact (argument.referenced_lower firstOk (by omega)).append
        (referenced_lowerArguments arguments restOk (by omega))

theorem Statement.referenced_lower : ∀ (statement : Statement) {index : Nat} {frame : Frame}
    {fragment : Fragment}, statement.lower source index frame = .ok fragment →
    index + fragment.functions.length ≤ UInt64.size →
    Referenced index fragment.code fragment.functions
  | .declare _ initializer, _, _, _, lowered, words => by
      obtain ⟨value, first, rfl⟩ := Statement.lower_declare_ok lowered
      have referenced := initializer.referenced_lower first words
      exact referenced
  | .return value, _, _, _, lowered, words => by
      obtain ⟨result, first, rfl⟩ := Statement.lower_return_ok lowered
      exact (value.referenced_lower first words).emit rfl
  | .assign _ value, _, _, _, lowered, words => by
      obtain ⟨_, _, result, rfl, _, first, rfl⟩ := Statement.lower_assign_ok lowered
      exact (value.referenced_lower first words).emit rfl
  | .evaluate value, _, _, _, lowered, words =>
      value.referenced_lower (Statement.lower_evaluate_ok lowered) words

/-- The code of some statements refers to the literals in them once each. -/
theorem referenced_lowerStatements : ∀ (body : List Statement) {index : Nat} {frame : Frame}
    {fragment : Fragment}, lowerStatements source index frame body = .ok fragment →
    index + fragment.functions.length ≤ UInt64.size →
    Referenced index fragment.code fragment.functions
  | [], _, _, _, lowered, _ => by
      obtain rfl := lowerStatements_nil_ok lowered
      exact .plain _ rfl
  | statement :: body, index, _, _, lowered, words => by
      obtain ⟨first, rest, firstOk, restOk, rfl⟩ := lowerStatements_cons_ok lowered
      have words : index + (first.functions ++ rest.functions).length ≤ UInt64.size := words
      rw [List.length_append] at words
      exact (statement.referenced_lower firstOk (by omega)).append
        (referenced_lowerStatements body restOk (by omega))

end

/-! ## Whole units -/

/-- A routine passes the verifier when its code fills the slots behind those of the parameters and
refers to functions further back. -/
theorem Fragment.verified_routine {parameters index count : Nat} {body : Fragment}
    (filled : FillsUpTo parameters body.frame.size body.code)
    (small : body.frame.size < UInt64.size)
    (ascending : ∀ other ∈ references body.routine.code, index < other ∧ other < count) :
    body.routine.Verified parameters index count := by
  have word : body.routine.slotCount.toNat = body.frame.size := UInt64.toNat_ofNat_of_lt' small
  have shape : body.routine.code = [.allocate (.ofNat body.frame.size)] ++ body.code ++
      [.deallocate (.ofNat body.frame.size)] := rfl
  refine ⟨⟨body.code, rfl, filled.fills.unframed⟩, ?bounded, ?supplied, ?written, ascending,
    fun instruction _ => instruction.ofParts_parts⟩
  case bounded =>
    rw [shape, word, List.forall_mem_append, List.forall_mem_append, List.forall_mem_singleton,
      List.forall_mem_singleton]
    exact ⟨⟨nofun, fun _ member _ used => filled.lt_of_used member used⟩, nofun⟩
  case supplied =>
    rw [shape]
    refine .append (.append (.singleton (List.forall_mem_nil _)) ?_)
      (.singleton (List.forall_mem_nil _))
    exact filled.fills.supplied.mono Set.subset_union_left
  case written =>
    intro slot behind below
    rw [word, ← filled.filled_iff] at below
    rw [shape, written_append, written_append]
    exact .inl (.inr (below.resolve_left (Nat.not_lt.mpr behind)))

/-- **Generated units pass the verifier**, as far as words can count the slots of every function and
the functions. -/
theorem FunctionSource.verified_lower {tree : FunctionSource} {unit : CodeUnit}
    (lowered : tree.lower source = .ok unit)
    (small : ∀ function ∈ tree.functions, function.demand < UInt64.size)
    (countable : tree.functions.length ≤ UInt64.size) :
    unit.Verified (tree.functions.map fun function => function.parameters.length) := by
  have compiled := FunctionSource.compiled_lower lowered
  rw [FunctionSource.lower] at lowered
  obtain ⟨whole, wholeOk, lowered⟩ := bind_eq_ok_iff.mp lowered
  cases lowered
  have length : whole.functions.length + 1 = tree.functions.length := compiled.length_eq
  have referenced := referenced_lowerStatements tree.body wholeOk (by omega)
  obtain ⟨perm, above⟩ : _ ∧ ∀ place routine, whole.close[place]? = some routine →
      ∀ other ∈ references routine.code, 0 + place < other := Referenced.close referenced
  refine ⟨?length, ?routine, ?once⟩
  case length => rw [compiled.length_eq, List.length_map]
  case routine =>
    intro index routine parameters found expected
    rw [List.getElem?_map, Option.map_eq_some_iff] at expected
    obtain ⟨function, among, rfl⟩ := expected
    obtain ⟨body, bodyOk, same⟩ := compiled.getElem? among
    obtain rfl : body.routine = routine := Option.some_inj.mp (same.symm.trans found)
    have start := Frame.size_ofParameters function.parameters
    have size : body.frame.size = function.demand := by
      rw [size_lowerStatements bodyOk, start, FunctionSource.demand]
    have words : body.frame.size < UInt64.size := size ▸ small function (List.mem_of_getElem? among)
    have filled := fillsUpTo_lowerStatements bodyOk (.ofParameters function.parameters) words
    rw [start] at filled
    refine Fragment.verified_routine filled words fun other member => ⟨?_, ?_⟩
    · have below := above index body.routine found other member
      omega
    · have inside := perm.mem_iff.mp (List.mem_flatMap.mpr ⟨_, List.mem_of_getElem? found, member⟩)
      rw [List.mem_range'_1] at inside
      show other < whole.functions.length + 1
      omega
  case once =>
    intro index first last
    have last : index < whole.functions.length + 1 := last
    rw [perm.count_eq]
    refine List.count_eq_one_of_mem (List.nodup_range') (List.mem_range'_1.mpr ?_)
    omega

/-! ## A function inside a function -/

/-- The source of `nestedLiterals`. -/
def nestedLiteralsSource : Source :=
  .ofString ("var f = function(a) \x7b return call function(b) \x7b return ~b \x7d(a - 1) \x7d\n" ++
    "return call f(2)")

/-- A function that passes one less than its argument on to another function, which inverts it. -/
def nestedLiterals : FunctionSource where
  parameters := []
  body :=
    [.declare "f" (.function ["a"]
        [.return (.call
          (.function ["b"] [.return (.unary .invert (.name ⟨56, 57⟩) ⟨55, 56⟩)] ⟨34, 42⟩)
          [.binary .subtract (.name ⟨60, 61⟩) (.integer ⟨64, 65⟩) ⟨62, 63⟩])] ⟨8, 16⟩),
      .return (.call (.name ⟨81, 82⟩) [.integer ⟨83, 84⟩])]

/-- The unit of the nested literals passes the verifier. -/
theorem verified_nestedLiterals : ∃ unit, nestedLiterals.lower nestedLiteralsSource = .ok unit ∧
    (∀ function ∈ nestedLiterals.functions, function.demand < UInt64.size) ∧
    nestedLiterals.functions.length ≤ UInt64.size ∧ unit.Verified [0, 1, 1] := by
  obtain ⟨unit, lowered⟩ : ∃ unit, nestedLiterals.lower nestedLiteralsSource = .ok unit := ⟨_, rfl⟩
  have small : ∀ function ∈ nestedLiterals.functions, function.demand < UInt64.size := by
    decide +kernel
  have countable : nestedLiterals.functions.length ≤ UInt64.size := by decide +kernel
  exact ⟨unit, lowered, small, countable, FunctionSource.verified_lower lowered small countable⟩

end SlotCompiler
