import SlotCompiler.Proofs.Compilation.Extent
import SlotCompiler.Proofs.Generation.Inversion
import SlotCompiler.Proofs.Wire.RoundTrip

/-!
# The size of a unit

Every instruction of a function is paid for by the tokens of its body, two by each
(`length_code_lowerStatements`), and every function of a unit by tokens of its own
(`length_bodyLiterals_le`).  Chains of `~` come as close to two as any: the innermost operand
takes one instruction, and every operator two.

So the counts in a unit are 64-bit numbers as long as its tree is less than 2^63 tokens in extent
(`FunctionSource.countsFit_lower`).  No file in memory has as many bytes, so what is compiled from a
file is written in a form that can be read again (`Source.load_encode_ofBytes`).
-/

set_option autoImplicit false

namespace SlotCompiler

/-! ## Literals -/

/-- Literals of a piece of a tree: neither their number nor the extent of any body exceeds that of the
piece. -/
structure Contained (literals : List FunctionSource) (extent : Nat) : Prop where
  length_le : literals.length ≤ extent
  body_le : ∀ function ∈ literals, bodyExtent function.body ≤ extent

namespace Contained

theorem none (extent : Nat) : Contained [] extent := ⟨Nat.zero_le _, List.forall_mem_nil _⟩

theorem mono {literals : List FunctionSource} {extent larger : Nat}
    (contained : Contained literals extent) (le : extent ≤ larger) : Contained literals larger :=
  ⟨Nat.le_trans contained.length_le le, fun function member =>
    Nat.le_trans (contained.body_le function member) le⟩

theorem append {first second : List FunctionSource} {extent other whole : Nat}
    (one : Contained first extent) (two : Contained second other) (le : extent + other ≤ whole) :
    Contained (first ++ second) whole := by
  refine ⟨?_, ?_⟩
  · rw [List.length_append]
    exact Nat.le_trans (Nat.add_le_add one.length_le two.length_le) le
  · rw [List.forall_mem_append]
    exact ⟨(one.mono (Nat.le_of_add_right_le le)).body_le,
      (two.mono (Nat.le_of_add_left_le le)).body_le⟩

end Contained

mutual

theorem Expression.contained_literals : ∀ expression : Expression,
    Contained expression.literals expression.extent
  | .name _ => .none _
  | .integer _ => .none _
  | .null _ => .none _
  | .call callee arguments => by
      refine callee.contained_literals.append (contained_argumentLiterals arguments) ?_
      rw [Expression.extent]
      omega
  | .unary _ operand _ => operand.contained_literals.mono (Nat.le_add_left _ _)
  | .binary _ left right _ => by
      refine left.contained_literals.append right.contained_literals ?_
      rw [Expression.extent]
      omega
  | .function parameters body _ => by
      obtain ⟨length_le, body_le⟩ := contained_bodyLiterals body
      rw [Expression.literals, Expression.extent]
      refine ⟨?_, List.forall_mem_cons.mpr ⟨Nat.le_add_left _ _, fun function member => ?_⟩⟩
      · rw [List.length_cons]
        omega
      · have inner := body_le function member
        omega

theorem contained_argumentLiterals : ∀ arguments : List Expression,
    Contained (argumentLiterals arguments) (argumentExtent arguments)
  | [] => .none _
  | argument :: arguments =>
      argument.contained_literals.append (contained_argumentLiterals arguments) (Nat.le_refl _)

theorem Statement.contained_literals : ∀ statement : Statement,
    Contained statement.literals statement.extent
  | .declare _ initializer => initializer.contained_literals.mono (Nat.le_add_left _ _)
  | .return value => value.contained_literals.mono (Nat.le_add_left _ _)
  | .assign target value => by
      refine target.contained_literals.append value.contained_literals ?_
      rw [Statement.extent]
      omega
  | .evaluate value => value.contained_literals

/-- The literals of some statements are no more than their extent, and nor are their bodies. -/
theorem contained_bodyLiterals : ∀ body : List Statement,
    Contained (bodyLiterals body) (bodyExtent body)
  | [] => .none _
  | statement :: body =>
      statement.contained_literals.append (contained_bodyLiterals body) (Nat.le_refl _)

end

/-! ## Code -/

variable {source : Source} {index slot : Nat} {frame : Frame} {fragment : Fragment}

theorem Fragment.length_code_append (first second : Fragment) :
    (first.append second).code.length = first.code.length + second.code.length :=
  List.length_append

theorem Fragment.length_code_emit (fragment : Fragment) (code : List Instruction) :
    (fragment.emit code).code.length = fragment.code.length + code.length :=
  List.length_append

theorem UnaryOperator.length_code_lower (operator : UnaryOperator) (slot : Nat)
    (operand : Fragment) : (operator.lower slot operand).code.length ≤ operand.code.length + 2 := by
  cases operator with
  | negate =>
      rw [lower, Fragment.length_code_emit]
      exact Nat.le_succ _
  | not =>
      rw [lower, Fragment.length_code_emit]
      exact Nat.le_succ _
  | invert =>
      rw [lower, Fragment.length_code_emit]
      exact Nat.le_refl _

theorem BinaryOperator.length_code_le (operator : BinaryOperator) (left right : Nat) :
    (operator.code left right).length ≤ 2 := by
  cases operator with
  | add => exact Nat.le_succ 1
  | subtract => exact Nat.le_refl 2
  | multiply => exact Nat.le_succ 1
  | divide => exact Nat.le_succ 1

mutual

/-- **An expression takes less than two instructions for a token.** -/
theorem Expression.length_code_lower : ∀ (expression : Expression) {index slot : Nat}
    {frame : Frame} {fragment : Fragment},
    expression.lower source index frame slot = .ok fragment →
    fragment.code.length + 1 ≤ 2 * expression.extent
  | .name _, _, _, _, _, lowered => by
      obtain ⟨_, _, rfl⟩ := Expression.lower_name_ok lowered
      exact Nat.le_refl 2
  | .integer _, _, _, _, _, lowered => by
      obtain ⟨_, _, rfl⟩ := Expression.lower_integer_ok lowered
      exact Nat.le_refl 2
  | .null _, _, _, _, _, lowered => by
      rw [Expression.lower_null_ok lowered]
      exact Nat.le_refl 2
  | .call callee arguments, _, _, _, _, lowered => by
      obtain ⟨called, passed, first, second, rfl⟩ := Expression.lower_call_ok lowered
      have calledLength := callee.length_code_lower first
      have passedLength := length_code_lowerArguments arguments second
      rw [Fragment.length_code_emit, Fragment.length_code_append, Expression.extent]
      simp only [List.length_cons, List.length_nil]
      omega
  | .unary operator operand _, _, slot, _, _, lowered => by
      obtain ⟨value, first, rfl⟩ := Expression.lower_unary_ok lowered
      have operandLength := operand.length_code_lower first
      have length := operator.length_code_lower slot value
      rw [Expression.extent]
      omega
  | .binary operator left right _, _, slot, _, _, lowered => by
      obtain ⟨first, second, leftOk, rightOk, rfl⟩ := Expression.lower_binary_ok lowered
      have leftLength := left.length_code_lower leftOk
      have rightLength := right.length_code_lower rightOk
      have length := operator.length_code_le slot first.frame.size
      rw [Fragment.length_code_emit, Fragment.length_code_append, Expression.extent]
      omega
  | .function _ body _, _, _, _, _, lowered => by
      obtain ⟨inner, innerOk, rfl⟩ := Expression.lower_function_ok lowered
      rw [Expression.extent]
      simp only [List.length_cons, List.length_nil]
      omega

theorem length_code_lowerArguments : ∀ (arguments : List Expression) {index slot : Nat}
    {frame : Frame} {fragment : Fragment},
    lowerArguments source index frame slot arguments = .ok fragment →
    fragment.code.length ≤ 2 * argumentExtent arguments
  | [], _, _, _, _, lowered => by
      rw [lowerArguments_nil_ok lowered]
      exact Nat.le_refl 0
  | argument :: arguments, _, _, _, _, lowered => by
      obtain ⟨first, rest, firstOk, restOk, rfl⟩ := lowerArguments_cons_ok lowered
      have firstLength := argument.length_code_lower firstOk
      have restLength := length_code_lowerArguments arguments restOk
      rw [Fragment.length_code_append, argumentExtent]
      omega

end

/-- A statement takes less than two instructions for a token. -/
theorem Statement.length_code_lower {statement : Statement}
    (lowered : statement.lower source index frame = .ok fragment) :
    fragment.code.length + 1 ≤ 2 * statement.extent := by
  cases statement with
  | declare name initializer =>
      obtain ⟨value, first, rfl⟩ := Statement.lower_declare_ok lowered
      have length := initializer.length_code_lower first
      rw [Statement.extent]
      show value.code.length + 1 ≤ _
      omega
  | «return» value =>
      obtain ⟨result, first, rfl⟩ := Statement.lower_return_ok lowered
      have length := value.length_code_lower first
      rw [Fragment.length_code_emit, Statement.extent, List.length_singleton]
      omega
  | assign target value =>
      obtain ⟨_, _, result, _, _, first, rfl⟩ := Statement.lower_assign_ok lowered
      have length := value.length_code_lower first
      rw [Fragment.length_code_emit, Statement.extent, List.length_singleton]
      omega
  | evaluate value => exact value.length_code_lower (Statement.lower_evaluate_ok lowered)

/-- **A body takes less than two instructions for a token**, so the fewer the more statements there
are. -/
theorem length_code_lowerStatements {body : List Statement}
    (lowered : lowerStatements source index frame body = .ok fragment) :
    fragment.code.length + body.length ≤ 2 * bodyExtent body := by
  induction body generalizing index frame fragment with
  | nil =>
      rw [lowerStatements_nil_ok lowered]
      exact Nat.le_refl 0
  | cons statement body ih =>
      obtain ⟨first, rest, firstOk, restOk, rfl⟩ := lowerStatements_cons_ok lowered
      have firstLength := Statement.length_code_lower firstOk
      have restLength := ih restOk
      rw [Fragment.length_code_append, bodyExtent, List.length_cons]
      omega

/-! ## Units -/

/-- A routine takes two instructions more than its body. -/
theorem Compiled.length_code_le {functions : List FunctionSource} {routines : List Routine}
    (compiled : Compiled source index functions routines) :
    ∀ routine ∈ routines, ∃ function ∈ functions,
      routine.code.length + function.body.length ≤ 2 * bodyExtent function.body + 2 := by
  induction compiled with
  | nil => exact List.forall_mem_nil _
  | @cons index function body functions routines lowered _ ih =>
      have length := length_code_lowerStatements lowered
      rw [List.forall_mem_cons]
      refine ⟨⟨function, List.mem_cons_self, ?_⟩, fun routine member => ?_⟩
      · simp only [Fragment.routine, List.length_cons, List.length_append, List.length_nil]
        omega
      · obtain ⟨other, among, bound⟩ := ih routine member
        exact ⟨other, List.mem_cons_of_mem _ among, bound⟩

/-- The bodies of all functions of a tree are no larger than that of the whole. -/
theorem FunctionSource.bodyExtent_le {tree : FunctionSource} :
    ∀ function ∈ tree.functions, bodyExtent function.body ≤ bodyExtent tree.body := by
  rw [functions, List.forall_mem_cons]
  exact ⟨Nat.le_refl _, (contained_bodyLiterals tree.body).body_le⟩

/-- **The counts of a unit fit** if its tree is less than 2^63 tokens in extent. -/
theorem FunctionSource.countsFit_lower {tree : FunctionSource} {unit : CodeUnit}
    (lowered : tree.lower source = .ok unit) (fits : bodyExtent tree.body < 2 ^ 63) :
    unit.CountsFit := by
  have compiled := FunctionSource.compiled_lower lowered
  refine ⟨?functions, fun routine member => ?code⟩
  case functions =>
    have literals := (contained_bodyLiterals tree.body).length_le
    rw [compiled.length_eq, FunctionSource.functions, List.length_cons]
    omega
  case code =>
    obtain ⟨function, among, bound⟩ := compiled.length_code_le routine member
    have extent := FunctionSource.bodyExtent_le function among
    -- a body without statements has no code, so that the last two instructions always fit
    cases empty : function.body with
    | nil =>
        rw [empty, bodyExtent] at bound
        omega
    | cons statement body =>
        rw [empty, List.length_cons] at bound
        rw [empty] at extent
        omega

/-- **The unit of a file is loaded again** from what is written for it. -/
theorem Source.load_encode_ofBytes {bytes : List UInt8} {unit : CodeUnit}
    (accepted : (Source.ofBytes bytes).verdict = .ok unit) (fits : bytes.length < 2 ^ 63) :
    CodeUnit.load unit.encode = .ok unit := by
  rcases (Source.ofBytes bytes).verdict_cases with ⟨setback, first, same⟩ | ⟨smooth, same⟩
  · cases same.symm.trans accepted
  · have extent := Nat.lt_of_le_of_lt (Source.extent_le_bytes smooth) fits
    have counts := FunctionSource.countsFit_lower (same.symm.trans accepted) extent
    exact CodeUnit.load_eq_ok_iff.mpr (CodeUnit.unitForm_encode counts)

end SlotCompiler
