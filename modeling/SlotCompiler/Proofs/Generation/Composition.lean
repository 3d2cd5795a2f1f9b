import SlotCompiler.Proofs.Generation.Verification
import SlotCompiler.Proofs.Tree.Numbering

/-!
# Every function has the code that it has alone

The index of the first literal enters the code of a piece in one way only: it is where the functions
that the code refers to are counted from.  So a piece that is lowered further back in a unit has the
same code, with every reference moved as far (`Expression.lower_renumber`).  The code of a piece
refers to the literals outside of all others in it, in order (`Expression.references_lower`).

Together with the numbering of literals this says where the code of a function comes from: it is
that of the function on its own, moved by the index of the function, and every function of the unit
is referred to once, by the function in which it stands
(`FunctionSource.lower_functions_alone`).
-/

set_option autoImplicit false

namespace SlotCompiler

/-! ## Moving references -/

/-- An instruction in a unit whose functions stand some places further back. -/
def Instruction.renumber (distance : Nat) : Instruction → Instruction
  | .setFunction target index => .setFunction target (index + .ofNat distance)
  | instruction => instruction

/-- A routine in a unit whose functions stand some places further back. -/
def Routine.renumber (distance : Nat) (routine : Routine) : Routine :=
  { routine with code := routine.code.map (Instruction.renumber distance) }

/-- A fragment in a unit whose functions stand some places further back. -/
def Fragment.renumber (distance : Nat) (fragment : Fragment) : Fragment where
  frame := fragment.frame
  code := fragment.code.map (Instruction.renumber distance)
  functions := fragment.functions.map (Routine.renumber distance)

section Renumber

variable {distance : Nat}

namespace Fragment

theorem renumber_append (first second : Fragment) :
    (first.append second).renumber distance =
      (first.renumber distance).append (second.renumber distance) := by
  simp only [append, renumber, List.map_append]

/-- Instructions without references stay what they are. -/
theorem renumber_emit (fragment : Fragment) {code : List Instruction}
    (plain : code.map (Instruction.renumber distance) = code) :
    (fragment.emit code).renumber distance = (fragment.renumber distance).emit code := by
  simp only [emit, renumber, List.map_append, plain]

theorem renumber_close (body : Fragment) :
    body.close.map (Routine.renumber distance) = (body.renumber distance).close := by
  simp only [close, renumber, List.map_cons, Routine.renumber, List.map_append,
    Instruction.renumber, List.map_nil]

theorem renumber_routine (body : Fragment) :
    (body.renumber distance).routine = body.routine.renumber distance := by
  simp only [routine, renumber, Routine.renumber, List.map_cons, List.map_append,
    Instruction.renumber, List.map_nil]

theorem length_functions_renumber (fragment : Fragment) :
    (fragment.renumber distance).functions.length = fragment.functions.length :=
  List.length_map _

end Fragment

theorem UnaryOperator.lower_renumber (operator : UnaryOperator) (slot : Nat) (operand : Fragment) :
    (operator.lower slot operand).renumber distance =
      operator.lower slot (operand.renumber distance) := by
  cases operator <;> exact Fragment.renumber_emit _ rfl

theorem BinaryOperator.code_renumber (operator : BinaryOperator) (left right : Nat) :
    (operator.code left right).map (Instruction.renumber distance) = operator.code left right := by
  cases operator <;> rfl

/-- What is lowered from a moved fragment on is moved, if it is moved from every fragment on. -/
theorem bind_renumber {first : Except Diagnostic Fragment}
    {next next' : Fragment → Except Diagnostic Fragment}
    (same : ∀ fragment, next' (fragment.renumber distance) =
      (next fragment).map (Fragment.renumber distance)) :
    (first.map (Fragment.renumber distance) >>= next') =
      (first >>= next).map (Fragment.renumber distance) := by
  cases first with
  | error diagnostic => rfl
  | ok fragment => exact same fragment

/-! ## Lowering further back -/

variable {source : Source}

mutual

/-- **An expression further back in a unit has the same code**, with its references moved. -/
theorem Expression.lower_renumber : ∀ (expression : Expression) {index slot : Nat} {frame : Frame},
    expression.lower source (index + distance) frame slot =
      (expression.lower source index frame slot).map (Fragment.renumber distance)
  | .name span, index, slot, frame => by
      rw [Expression.lower, Expression.lower]
      split <;> rfl
  | .integer span, index, slot, frame => by
      rw [Expression.lower, Expression.lower]
      split <;> rfl
  | .null span, index, slot, frame => by
      rw [Expression.lower, Expression.lower]
      rfl
  | .call callee arguments, index, slot, frame => by
      rw [Expression.lower, Expression.lower]
      dsimp only
      rw [callee.lower_renumber]
      refine bind_renumber fun called => ?_
      rw [called.length_functions_renumber, Nat.add_right_comm, lowerArguments_renumber arguments]
      refine bind_renumber fun passed => ?_
      refine congrArg Except.ok ?_
      rw [Fragment.renumber_emit _ rfl, Fragment.renumber_append]
  | .unary operator operand _, index, slot, frame => by
      rw [Expression.lower, Expression.lower, operand.lower_renumber]
      refine bind_renumber fun value => ?_
      exact congrArg Except.ok (operator.lower_renumber slot value).symm
  | .binary operator left right _, index, slot, frame => by
      rw [Expression.lower, Expression.lower, left.lower_renumber]
      refine bind_renumber fun first => ?_
      dsimp only
      rw [first.length_functions_renumber, Nat.add_right_comm, right.lower_renumber]
      refine bind_renumber fun second => ?_
      refine congrArg Except.ok ?_
      rw [Fragment.renumber_emit _ (operator.code_renumber _ _), Fragment.renumber_append]
      rfl
  | .function parameters body _, index, slot, frame => by
      rw [Expression.lower, Expression.lower, Nat.add_right_comm, lowerStatements_renumber body]
      refine bind_renumber fun inner => ?_
      refine congrArg Except.ok ?_
      rw [UInt64.ofNat_add, ← Fragment.renumber_close]
      rfl

theorem lowerArguments_renumber : ∀ (arguments : List Expression) {index slot : Nat}
    {frame : Frame}, lowerArguments source (index + distance) frame slot arguments =
      (lowerArguments source index frame slot arguments).map (Fragment.renumber distance)
  | [], index, slot, frame => by
      rw [lowerArguments, lowerArguments]
      rfl
  | argument :: arguments, index, slot, frame => by
      rw [lowerArguments, lowerArguments, argument.lower_renumber]
      refine bind_renumber fun first => ?_
      rw [first.length_functions_renumber, Nat.add_right_comm, lowerArguments_renumber arguments]
      refine bind_renumber fun rest => ?_
      exact congrArg Except.ok (Fragment.renumber_append first rest).symm

theorem Statement.lower_renumber : ∀ (statement : Statement) {index : Nat} {frame : Frame},
    statement.lower source (index + distance) frame =
      (statement.lower source index frame).map (Fragment.renumber distance)
  | .declare name initializer, index, frame => by
      rw [Statement.lower, Statement.lower]
      dsimp only
      rw [initializer.lower_renumber]
      exact bind_renumber fun value => rfl
  | .return value, index, frame => by
      rw [Statement.lower, Statement.lower]
      dsimp only
      rw [value.lower_renumber]
      refine bind_renumber fun result => ?_
      exact congrArg Except.ok (Fragment.renumber_emit result rfl).symm
  | .assign target value, index, frame => by
      rw [Statement.lower, Statement.lower]
      split
      · rfl
      · dsimp only
        rw [value.lower_renumber]
        refine bind_renumber fun result => ?_
        exact congrArg Except.ok (Fragment.renumber_emit result rfl).symm
  | .evaluate value, index, frame => by
      rw [Statement.lower, Statement.lower]
      exact value.lower_renumber

/-- Statements further back in a unit have the same code, with their references moved. -/
theorem lowerStatements_renumber : ∀ (body : List Statement) {index : Nat} {frame : Frame},
    lowerStatements source (index + distance) frame body =
      (lowerStatements source index frame body).map (Fragment.renumber distance)
  | [], index, frame => by
      rw [lowerStatements, lowerStatements]
      rfl
  | statement :: body, index, frame => by
      rw [lowerStatements, lowerStatements, statement.lower_renumber]
      refine bind_renumber fun first => ?_
      rw [first.length_functions_renumber, Nat.add_right_comm, lowerStatements_renumber body]
      refine bind_renumber fun rest => ?_
      exact congrArg Except.ok (Fragment.renumber_append first rest).symm

end

end Renumber

/-! ## References in order -/

section References

variable {source : Source}

/-- The words of the numbers of some literals. -/
def numberWords (literals : List (FunctionSource × Nat)) : List Nat :=
  literals.map fun literal => literal.2 % UInt64.size

theorem numberWords_append (first second : List (FunctionSource × Nat)) :
    numberWords (first ++ second) = numberWords first ++ numberWords second := List.map_append

mutual

/-- **The code of an expression refers to the literals outside of all others in it**, in order. -/
theorem Expression.references_lower : ∀ (expression : Expression) {index slot : Nat}
    {frame : Frame} {fragment : Fragment},
    expression.lower source index frame slot = .ok fragment →
    references fragment.code = numberWords (expression.outermost index)
  | .name _, _, _, _, _, lowered => by
      obtain ⟨_, _, rfl⟩ := Expression.lower_name_ok lowered
      rfl
  | .integer _, _, _, _, _, lowered => by
      obtain ⟨_, _, rfl⟩ := Expression.lower_integer_ok lowered
      rfl
  | .null _, _, _, _, _, lowered => by
      obtain rfl := Expression.lower_null_ok lowered
      rfl
  | .call callee arguments, index, _, frame, _, lowered => by
      obtain ⟨called, passed, first, second, rfl⟩ := Expression.lower_call_ok lowered
      have calledOk := callee.references_lower first
      have passedOk := references_lowerArguments arguments second
      rw [Expression.length_functions_lower first] at passedOk
      rw [Expression.outermost, numberWords_append, ← calledOk, ← passedOk, ← references_append]
      exact references_append_of_plain _ rfl
  | .unary operator operand _, _, _, _, _, lowered => by
      obtain ⟨value, first, rfl⟩ := Expression.lower_unary_ok lowered
      rw [operator.references_lower]
      exact operand.references_lower first
  | .binary operator left right _, _, _, _, _, lowered => by
      obtain ⟨first, second, leftOk, rightOk, rfl⟩ := Expression.lower_binary_ok lowered
      have firstOk := left.references_lower leftOk
      have secondOk := right.references_lower rightOk
      rw [Expression.length_functions_lower leftOk] at secondOk
      rw [Expression.outermost, numberWords_append, ← firstOk, ← secondOk, ← references_append]
      exact references_append_of_plain _ (operator.references_code _ _)
  | .function _ _ _, index, _, _, _, lowered => by
      obtain ⟨_, _, rfl⟩ := Expression.lower_function_ok lowered
      exact congrArg (fun word => [word]) UInt64.toNat_ofNat'

theorem references_lowerArguments : ∀ (arguments : List Expression) {index slot : Nat}
    {frame : Frame} {fragment : Fragment},
    lowerArguments source index frame slot arguments = .ok fragment →
    references fragment.code = numberWords (argumentOutermost index arguments)
  | [], _, _, _, _, lowered => by
      obtain rfl := lowerArguments_nil_ok lowered
      rfl
  | argument :: arguments, _, _, _, _, lowered => by
      obtain ⟨first, rest, firstOk, restOk, rfl⟩ := lowerArguments_cons_ok lowered
      have restRefs := references_lowerArguments arguments restOk
      rw [Expression.length_functions_lower firstOk] at restRefs
      rw [argumentOutermost, numberWords_append, ← argument.references_lower firstOk, ← restRefs]
      exact references_append _ _

end

theorem Statement.references_lower (statement : Statement) {index : Nat} {frame : Frame}
    {fragment : Fragment} (lowered : statement.lower source index frame = .ok fragment) :
    references fragment.code = numberWords (statement.outermost index) := by
  cases statement with
  | declare name initializer =>
      obtain ⟨value, first, rfl⟩ := Statement.lower_declare_ok lowered
      have refers := initializer.references_lower first
      exact refers
  | «return» value =>
      obtain ⟨result, first, rfl⟩ := Statement.lower_return_ok lowered
      rw [Statement.outermost, ← value.references_lower first]
      exact references_append_of_plain _ rfl
  | assign target value =>
      -- the target is a name, in which there is no literal
      obtain ⟨_, _, result, rfl, _, first, rfl⟩ := Statement.lower_assign_ok lowered
      rw [Statement.outermost, Expression.outermost, List.nil_append, Expression.literals,
        List.length_nil, Nat.add_zero, ← value.references_lower first]
      exact references_append_of_plain _ rfl
  | evaluate value => exact value.references_lower (Statement.lower_evaluate_ok lowered)

theorem Statement.length_functions_lower {statement : Statement} {index : Nat} {frame : Frame}
    {fragment : Fragment} (lowered : statement.lower source index frame = .ok fragment) :
    fragment.functions.length = statement.literals.length :=
  (statement.compiled_lower lowered).length_eq

/-- The code of some statements refers to the literals outside of all others in them, in order. -/
theorem references_lowerStatements {body : List Statement} {index : Nat} {frame : Frame}
    {fragment : Fragment} (lowered : lowerStatements source index frame body = .ok fragment) :
    references fragment.code = numberWords (bodyOutermost index body) := by
  induction body generalizing index frame fragment with
  | nil =>
      obtain rfl := lowerStatements_nil_ok lowered
      rfl
  | cons statement body ih =>
      obtain ⟨first, rest, firstOk, restOk, rfl⟩ := lowerStatements_cons_ok lowered
      have restRefs := ih restOk
      rw [Statement.length_functions_lower firstOk] at restRefs
      rw [bodyOutermost, numberWords_append, ← statement.references_lower firstOk, ← restRefs]
      exact references_append _ _

end References

/-! ## Functions on their own -/

/-- The routines of functions with consecutive indices refer to the literals directly inside
them. -/
theorem Compiled.references_eq {source : Source} {index : Nat} {functions : List FunctionSource}
    {routines : List Routine} (compiled : Compiled source index functions routines) :
    (routines.flatMap fun routine => references routine.code) =
      numberWords (innerLiterals index functions) := by
  induction compiled with
  | nil => rfl
  | @cons index function body functions routines lowered _ ih =>
      rw [List.flatMap_cons, ih, references_routine, references_lowerStatements lowered,
        ← numberWords_append]
      rfl

namespace FunctionSource

variable {source : Source}

/-- A routine that comes from a function further back in a unit is the first one of the unit of the
function alone, moved. -/
theorem lower_of_lowerStatements {function : FunctionSource} {index : Nat} {body : Fragment}
    (lowered : lowerStatements source (index + 1) (.ofParameters function.parameters)
      function.body = .ok body) :
    ∃ alone rest, function.lower source = .ok ⟨alone :: rest⟩ ∧
      body.routine = alone.renumber index := by
  rw [Nat.add_comm, lowerStatements_renumber] at lowered
  cases inner : lowerStatements source 1 (.ofParameters function.parameters) function.body with
  | error diagnostic =>
      rw [inner] at lowered
      cases lowered
  | ok alone =>
      rw [inner] at lowered
      cases lowered
      refine ⟨alone.routine, alone.functions, ?_, alone.renumber_routine⟩
      rw [FunctionSource.lower, inner]
      rfl

/-- **Functions are numbered in the order in which they begin, and each has the code that it has
alone.** A unit has one routine for every function of its tree.  Each of them but the first is
referred to once in the unit, by the function directly around it; and the routine of a function is
the first routine of the unit of that function alone, with all references moved by its index. -/
theorem lower_functions_alone {tree : FunctionSource} {unit : CodeUnit}
    (lowered : tree.lower source = .ok unit) :
    unit.functions.length = tree.functions.length ∧
      (unit.functions.flatMap fun routine => references routine.code).Perm
        ((List.range' 1 (bodyLiterals tree.body).length).map (· % UInt64.size)) ∧
      ∀ (index : Nat) (function : FunctionSource), tree.functions[index]? = some function →
        (∀ literal ∈ function.outermost index, tree.functions[literal.2]? = some literal.1) ∧
          ∃ routine alone rest, unit.functions[index]? = some routine ∧
            references routine.code =
              (function.outermost index).map (fun literal => literal.2 % UInt64.size) ∧
            function.lower source = .ok ⟨alone :: rest⟩ ∧ routine = alone.renumber index := by
  have compiled := FunctionSource.compiled_lower lowered
  refine ⟨compiled.length_eq, ?once, fun index function found => ?alone⟩
  case once =>
    have numbers := tree.innerLiterals_functions.map fun literal => literal.2 % UInt64.size
    have places : ((bodyLiterals tree.body).zipIdx 1).map (fun literal => literal.2 % UInt64.size) =
        (List.range' 1 (bodyLiterals tree.body).length).map (· % UInt64.size) := by
      rw [← List.zipIdx_map_snd, List.map_map]
      rfl
    rw [places] at numbers
    rw [compiled.references_eq]
    exact numbers
  case alone =>
    obtain ⟨body, bodyOk, same⟩ := compiled.getElem? found
    rw [Nat.zero_add] at bodyOk
    obtain ⟨alone, rest, whole, moved⟩ := lower_of_lowerStatements bodyOk
    refine ⟨tree.getElem?_of_mem_outermost found, body.routine, alone, rest, same, ?_, whole, moved⟩
    rw [references_routine, references_lowerStatements bodyOk]
    rfl

/-- The literal in `nestedLiterals` refers to its own literal by 2, and alone it does so by 1. -/
theorem lower_nestedLiterals_alone : ∃ unit routine alone rest,
    nestedLiterals.lower nestedLiteralsSource = .ok unit ∧ unit.functions[1]? = some routine ∧
      (⟨["a"], [.return (.call
        (.function ["b"] [.return (.unary .invert (.name ⟨56, 57⟩) ⟨55, 56⟩)] ⟨34, 42⟩)
        [.binary .subtract (.name ⟨60, 61⟩) (.integer ⟨64, 65⟩) ⟨62, 63⟩])]⟩ :
          FunctionSource).lower nestedLiteralsSource = .ok ⟨alone :: rest⟩ ∧
      routine = alone.renumber 1 ∧ references routine.code = [2] ∧ references alone.code = [1] := by
  obtain ⟨unit, lowered⟩ : ∃ unit, nestedLiterals.lower nestedLiteralsSource = .ok unit := ⟨_, rfl⟩
  obtain ⟨-, -, functions⟩ := lower_functions_alone lowered
  obtain ⟨-, routine, alone, rest, found, refers, whole, moved⟩ := functions 1 _ rfl
  refine ⟨unit, routine, alone, rest, lowered, found, whole, moved, refers, ?_⟩
  cases whole
  decide +kernel

end FunctionSource

end SlotCompiler
