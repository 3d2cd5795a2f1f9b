import SlotCompiler.Generation.Lowering
import SlotCompiler.Proofs.Tree.Literals

/-!
# What lowering yields

Lowering that succeeds took every step it could, so its outcome says what each part of the tree
was lowered to.  There is one lemma for each construct that has parts; everything that is proved
about generated code starts from them.

From the lemmas on constructs follow two facts on whole trees.  The frame behind a piece has
grown by the demand of the piece, and an expression leaves the names alone
(`Expression.frame_lower`).  And the literals of a piece are lowered in the order of their
indices, each on its own: `Compiled` relates functions to the routines with the same index.
-/

set_option autoImplicit false

namespace SlotCompiler

theorem bind_eq_ok_iff {ε α β : Type} {first : Except ε α} {next : α → Except ε β}
    {result : β} :
    (first >>= next) = .ok result ↔ ∃ value, first = .ok value ∧ next value = .ok result := by
  cases first with
  | error failure => simp [bind, Except.bind]
  | ok value => simp [bind, Except.bind]

variable {source : Source} {index slot : Nat} {frame : Frame} {fragment : Fragment}

/-! ## Expressions -/

theorem Expression.lower_name_ok {span : Span}
    (lowered : (name span).lower source index frame slot = .ok fragment) :
    ∃ known, frame.slotOf? (source.extract span) = some known ∧
      fragment = ⟨frame, [.copy (.ofNat slot) (.ofNat known)], []⟩ := by
  rw [Expression.lower] at lowered
  split at lowered
  · rename_i known found
    cases lowered
    exact ⟨known, found, rfl⟩
  · cases lowered

theorem Expression.lower_integer_ok {span : Span}
    (lowered : (integer span).lower source index frame slot = .ok fragment) :
    ∃ word, IntegerLiteral.read? (source.extract span) = some word ∧
      fragment = ⟨frame, [.setFromConstant (.ofNat slot) word], []⟩ := by
  rw [Expression.lower] at lowered
  split at lowered
  · rename_i word read
    cases lowered
    exact ⟨word, read, rfl⟩
  · cases lowered

theorem Expression.lower_null_ok {span : Span}
    (lowered : (null span).lower source index frame slot = .ok fragment) :
    fragment = ⟨frame, [.setNull (.ofNat slot)], []⟩ := by
  cases lowered
  rfl

/-- The callee of a call goes into the first slot of a fresh block, and the arguments into the
slots behind it. -/
theorem Expression.lower_call_ok {callee : Expression} {arguments : List Expression}
    (lowered : (call callee arguments).lower source index frame slot = .ok fragment) :
    ∃ called passed,
      callee.lower source index (frame.freshBlock (1 + arguments.length)).2 frame.size =
        .ok called ∧
      lowerArguments source (index + called.functions.length) called.frame (frame.size + 1)
        arguments = .ok passed ∧
      fragment = (called.append passed).emit
        [.call (.ofNat frame.size) (.ofNat arguments.length),
          .copy (.ofNat slot) (.ofNat frame.size)] := by
  obtain ⟨called, first, lowered⟩ := bind_eq_ok_iff.mp lowered
  obtain ⟨passed, second, lowered⟩ := bind_eq_ok_iff.mp lowered
  cases lowered
  exact ⟨called, passed, first, second, rfl⟩

theorem Expression.lower_unary_ok {operator : UnaryOperator} {operand : Expression} {mark : Span}
    (lowered : (unary operator operand mark).lower source index frame slot = .ok fragment) :
    ∃ value, operand.lower source index frame slot = .ok value ∧
      fragment = operator.lower slot value := by
  obtain ⟨value, first, lowered⟩ := bind_eq_ok_iff.mp lowered
  cases lowered
  exact ⟨value, first, rfl⟩

/-- The left operand goes where the result is wanted, and the right one into a fresh slot. -/
theorem Expression.lower_binary_ok {operator : BinaryOperator} {left right : Expression}
    {mark : Span}
    (lowered : (binary operator left right mark).lower source index frame slot = .ok fragment) :
    ∃ first second, left.lower source index frame slot = .ok first ∧
      right.lower source (index + first.functions.length) first.frame.fresh.2 first.frame.size =
        .ok second ∧
      fragment = (first.append second).emit (operator.code slot first.frame.size) := by
  obtain ⟨first, leftOk, lowered⟩ := bind_eq_ok_iff.mp lowered
  obtain ⟨second, rightOk, lowered⟩ := bind_eq_ok_iff.mp lowered
  cases lowered
  exact ⟨first, second, leftOk, rightOk, rfl⟩

theorem Expression.lower_function_ok {parameters : List String} {body : List Statement}
    {mark : Span}
    (lowered : (function parameters body mark).lower source index frame slot = .ok fragment) :
    ∃ inner, lowerStatements source (index + 1) (.ofParameters parameters) body = .ok inner ∧
      fragment = ⟨frame, [.setFunction (.ofNat slot) (.ofNat index)], inner.close⟩ := by
  obtain ⟨inner, first, lowered⟩ := bind_eq_ok_iff.mp lowered
  cases lowered
  exact ⟨inner, first, rfl⟩

theorem lowerArguments_nil_ok (lowered : lowerArguments source index frame slot [] = .ok fragment) :
    fragment = ⟨frame, [], []⟩ := by
  cases lowered
  rfl

theorem lowerArguments_cons_ok {argument : Expression} {arguments : List Expression}
    (lowered : lowerArguments source index frame slot (argument :: arguments) = .ok fragment) :
    ∃ first rest, argument.lower source index frame slot = .ok first ∧
      lowerArguments source (index + first.functions.length) first.frame (slot + 1) arguments =
        .ok rest ∧
      fragment = first.append rest := by
  obtain ⟨first, firstOk, lowered⟩ := bind_eq_ok_iff.mp lowered
  obtain ⟨rest, restOk, lowered⟩ := bind_eq_ok_iff.mp lowered
  cases lowered
  exact ⟨first, rest, firstOk, restOk, rfl⟩

/-! ## Statements -/

theorem Statement.lower_declare_ok {name : String} {initializer : Expression}
    (lowered : (declare name initializer).lower source index frame = .ok fragment) :
    ∃ value, initializer.lower source index frame.fresh.2 frame.size = .ok value ∧
      fragment = { value with frame := value.frame.bind name frame.size } := by
  obtain ⟨value, first, lowered⟩ := bind_eq_ok_iff.mp lowered
  cases lowered
  exact ⟨value, first, rfl⟩

theorem Statement.lower_return_ok {value : Expression}
    (lowered : (Statement.return value).lower source index frame = .ok fragment) :
    ∃ result, value.lower source index frame.fresh.2 frame.size = .ok result ∧
      fragment = result.emit [.return (.ofNat frame.size)] := by
  obtain ⟨result, first, lowered⟩ := bind_eq_ok_iff.mp lowered
  cases lowered
  exact ⟨result, first, rfl⟩

/-- Only a name in scope is assigned to. -/
theorem Statement.lower_assign_ok {target value : Expression}
    (lowered : (assign target value).lower source index frame = .ok fragment) :
    ∃ span known result, target = .name span ∧
      frame.slotOf? (source.extract span) = some known ∧
      value.lower source index frame.fresh.2 frame.size = .ok result ∧
      fragment = result.emit [.copy (.ofNat known) (.ofNat frame.size)] := by
  rw [Statement.lower] at lowered
  split at lowered
  · cases lowered
  · rename_i known found
    obtain ⟨result, first, lowered⟩ := bind_eq_ok_iff.mp lowered
    cases lowered
    unfold Frame.targetOf? at found
    split at found
    · rename_i span
      exact ⟨span, known, result, rfl, found, first, rfl⟩
    · cases found

theorem Statement.lower_evaluate_ok {value : Expression}
    (lowered : (Statement.evaluate value).lower source index frame = .ok fragment) :
    value.lower source index frame.fresh.2 frame.size = .ok fragment := by
  exact lowered

theorem lowerStatements_nil_ok (lowered : lowerStatements source index frame [] = .ok fragment) :
    fragment = ⟨frame, [], []⟩ := by
  cases lowered
  rfl

theorem lowerStatements_cons_ok {statement : Statement} {statements : List Statement}
    (lowered : lowerStatements source index frame (statement :: statements) = .ok fragment) :
    ∃ first rest, statement.lower source index frame = .ok first ∧
      lowerStatements source (index + first.functions.length) first.frame statements = .ok rest ∧
      fragment = first.append rest := by
  obtain ⟨first, firstOk, lowered⟩ := bind_eq_ok_iff.mp lowered
  obtain ⟨rest, restOk, lowered⟩ := bind_eq_ok_iff.mp lowered
  cases lowered
  exact ⟨first, rest, firstOk, restOk, rfl⟩

/-! ## Frames -/

/-- Behind a binding, its name stands for its slot, and other names for what they stood for. -/
theorem Frame.slotOf?_bind (frame : Frame) (name other : String) (slot : Nat) :
    (frame.bind name slot).slotOf? other =
      if other = name then some slot else frame.slotOf? other := by
  rw [slotOf?, bind, List.lookup_cons]
  split
  · rename_i same
    rw [if_pos (beq_iff_eq.mp same)]
  · rename_i different
    rw [if_neg (beq_eq_false_iff_ne.mp different), slotOf?]

theorem Frame.slotOf?_bind_self (frame : Frame) (name : String) (slot : Nat) :
    (frame.bind name slot).slotOf? name = some slot := by
  rw [slotOf?_bind, if_pos rfl]

theorem Frame.slotOf?_bind_of_ne (frame : Frame) {name other : String} (slot : Nat)
    (different : other ≠ name) : (frame.bind name slot).slotOf? other = frame.slotOf? other := by
  rw [slotOf?_bind, if_neg different]

theorem UnaryOperator.frame_lower (operator : UnaryOperator) (operand : Fragment) :
    (operator.lower slot operand).frame =
      ⟨operand.frame.bindings, operand.frame.size + if operator = .invert then 1 else 0⟩ := by
  cases operator <;> rfl

mutual

/-- **The frame behind an expression** has the same names and has grown by the expression's
demand. -/
theorem Expression.frame_lower : ∀ (expression : Expression) {index slot : Nat} {frame : Frame}
    {fragment : Fragment}, expression.lower source index frame slot = .ok fragment →
    fragment.frame = ⟨frame.bindings, frame.size + expression.demand⟩
  | .name _, _, _, _, _, lowered => by
      obtain ⟨_, _, rfl⟩ := Expression.lower_name_ok lowered
      rfl
  | .integer _, _, _, _, _, lowered => by
      obtain ⟨_, _, rfl⟩ := Expression.lower_integer_ok lowered
      rfl
  | .null _, _, _, _, _, lowered => by
      rw [Expression.lower_null_ok lowered]
      rfl
  | .call callee arguments, _, _, frame, _, lowered => by
      obtain ⟨called, passed, first, second, rfl⟩ := Expression.lower_call_ok lowered
      have calledFrame := callee.frame_lower first
      have passedFrame := frame_lowerArguments arguments second
      rw [calledFrame] at passedFrame
      show passed.frame = _
      rw [passedFrame, Expression.demand]
      simp only [Frame.freshBlock, Nat.add_assoc]
  | .unary operator operand _, _, _, _, _, lowered => by
      obtain ⟨value, first, rfl⟩ := Expression.lower_unary_ok lowered
      rw [operator.frame_lower, operand.frame_lower first, Expression.demand, Nat.add_assoc]
  | .binary _ left right _, _, _, _, _, lowered => by
      obtain ⟨first, second, leftOk, rightOk, rfl⟩ := Expression.lower_binary_ok lowered
      have leftFrame := left.frame_lower leftOk
      have rightFrame := right.frame_lower rightOk
      rw [leftFrame] at rightFrame
      show second.frame = _
      rw [rightFrame, Expression.demand]
      simp only [Frame.fresh, Frame.freshBlock, Nat.add_assoc]
  | .function _ _ _, _, _, _, _, lowered => by
      obtain ⟨_, _, rfl⟩ := Expression.lower_function_ok lowered
      rfl

/-- The frame behind some expressions. -/
theorem frame_lowerArguments : ∀ (arguments : List Expression) {index slot : Nat} {frame : Frame}
    {fragment : Fragment}, lowerArguments source index frame slot arguments = .ok fragment →
    fragment.frame = ⟨frame.bindings, frame.size + argumentDemand arguments⟩
  | [], _, _, _, _, lowered => by
      rw [lowerArguments_nil_ok lowered]
      rfl
  | argument :: arguments, _, _, _, _, lowered => by
      obtain ⟨first, rest, firstOk, restOk, rfl⟩ := lowerArguments_cons_ok lowered
      have firstFrame := argument.frame_lower firstOk
      have restFrame := frame_lowerArguments arguments restOk
      rw [firstFrame] at restFrame
      show rest.frame = _
      rw [restFrame, argumentDemand, Nat.add_assoc]

end

/-- An expression takes as many slots as it demands. -/
theorem Expression.size_lower {expression : Expression}
    (lowered : expression.lower source index frame slot = .ok fragment) :
    fragment.frame.size = frame.size + expression.demand := by
  rw [expression.frame_lower lowered]

theorem Expression.size_le_lower {expression : Expression}
    (lowered : expression.lower source index frame slot = .ok fragment) :
    frame.size ≤ fragment.frame.size := by
  rw [Expression.size_lower lowered]
  exact Nat.le_add_right _ _

theorem size_le_lowerArguments {arguments : List Expression}
    (lowered : lowerArguments source index frame slot arguments = .ok fragment) :
    frame.size ≤ fragment.frame.size := by
  rw [frame_lowerArguments arguments lowered]
  exact Nat.le_add_right _ _

/-- An expression that is wanted in a fresh slot takes one slot more than it demands. -/
theorem Expression.size_lower_fresh {expression : Expression}
    (lowered : expression.lower source index frame.fresh.2 frame.size = .ok fragment) :
    fragment.frame.size = frame.size + (1 + expression.demand) := by
  rw [Expression.size_lower lowered, ← Nat.add_assoc]
  rfl

/-- A statement takes as many slots as it demands. -/
theorem Statement.size_lower {statement : Statement}
    (lowered : statement.lower source index frame = .ok fragment) :
    fragment.frame.size = frame.size + statement.demand := by
  cases statement with
  | declare name initializer =>
      obtain ⟨value, first, rfl⟩ := Statement.lower_declare_ok lowered
      have grown := Expression.size_lower_fresh first
      exact grown
  | «return» value =>
      obtain ⟨result, first, rfl⟩ := Statement.lower_return_ok lowered
      have grown := Expression.size_lower_fresh first
      exact grown
  | assign target value =>
      obtain ⟨_, _, result, _, _, first, rfl⟩ := Statement.lower_assign_ok lowered
      have grown := Expression.size_lower_fresh first
      exact grown
  | evaluate value => exact Expression.size_lower_fresh (Statement.lower_evaluate_ok lowered)

/-- Some statements take as many slots as they demand. -/
theorem size_lowerStatements {body : List Statement}
    (lowered : lowerStatements source index frame body = .ok fragment) :
    fragment.frame.size = frame.size + bodyDemand body := by
  induction body generalizing index frame fragment with
  | nil =>
      rw [lowerStatements_nil_ok lowered]
      rfl
  | cons statement body ih =>
      obtain ⟨first, rest, firstOk, restOk, rfl⟩ := lowerStatements_cons_ok lowered
      have firstSize := Statement.size_lower firstOk
      have restSize := ih restOk
      show rest.frame.size = _
      rw [restSize, firstSize, bodyDemand, Nat.add_assoc]

theorem Frame.size_introduce (frame : Frame) (name : String) :
    (frame.introduce name).2.size = frame.size + 1 := rfl

theorem Frame.size_foldl_introduce (parameters : List String) (frame : Frame) :
    (parameters.foldl (fun frame name => (frame.introduce name).2) frame).size =
      frame.size + parameters.length := by
  induction parameters generalizing frame with
  | nil => rfl
  | cons parameter parameters ih =>
      rw [List.foldl_cons, ih, Frame.size_introduce, List.length_cons]
      omega

theorem Frame.size_ofParameters (parameters : List String) :
    (Frame.ofParameters parameters).size = parameters.length := by
  rw [Frame.ofParameters, Frame.size_foldl_introduce]
  exact Nat.zero_add _

/-! ## Functions and their indices -/

namespace Fragment

/-- The function whose body is a fragment. -/
def routine (body : Fragment) : Routine where
  slotCount := .ofNat body.frame.size
  code := .allocate (.ofNat body.frame.size) :: body.code ++ [.deallocate (.ofNat body.frame.size)]

end Fragment

/-- Routines that come from functions with consecutive indices, each lowered on its own. -/
inductive Compiled (source : Source) : Nat → List FunctionSource → List Routine → Prop where
  | nil (index : Nat) : Compiled source index [] []
  | cons {index : Nat} {function : FunctionSource} {body : Fragment}
      {functions : List FunctionSource} {routines : List Routine}
      (lowered : lowerStatements source (index + 1) (.ofParameters function.parameters)
        function.body = .ok body)
      (rest : Compiled source (index + 1) functions routines) :
      Compiled source index (function :: functions) (body.routine :: routines)

namespace Compiled

variable {functions others : List FunctionSource} {routines more : List Routine}

theorem length_eq (compiled : Compiled source index functions routines) :
    routines.length = functions.length := by
  induction compiled with
  | nil => rfl
  | cons _ _ ih => rw [List.length_cons, List.length_cons, ih]

theorem append (compiled : Compiled source index functions routines)
    (further : Compiled source (index + functions.length) others more) :
    Compiled source index (functions ++ others) (routines ++ more) := by
  induction compiled with
  | nil => exact further
  | cons lowered _ ih =>
      refine .cons lowered (ih ?_)
      rw [List.length_cons, Nat.add_comm _ 1, ← Nat.add_assoc] at further
      exact further

/-- The routine with an index is the lowered function with that index. -/
theorem getElem? (compiled : Compiled source index functions routines) {place : Nat}
    {function : FunctionSource} (found : functions[place]? = some function) :
    ∃ body, lowerStatements source (index + place + 1) (.ofParameters function.parameters)
        function.body = .ok body ∧
      routines[place]? = some body.routine := by
  induction compiled generalizing place with
  | nil => cases found
  | cons lowered _ ih =>
      cases place with
      | zero =>
          cases found
          exact ⟨_, lowered, rfl⟩
      | succ place =>
          obtain ⟨body, lowered, same⟩ := ih found
          refine ⟨body, ?_, same⟩
          rw [Nat.add_assoc _ 1 place, Nat.add_comm 1 place] at lowered
          exact lowered

end Compiled

theorem UnaryOperator.functions_lower (operator : UnaryOperator) (operand : Fragment) :
    (operator.lower slot operand).functions = operand.functions := by
  cases operator <;> rfl

mutual

/-- **The literals of an expression are lowered in order**, each as a function of its own. -/
theorem Expression.compiled_lower : ∀ (expression : Expression) {index slot : Nat}
    {frame : Frame} {fragment : Fragment},
    expression.lower source index frame slot = .ok fragment →
    Compiled source index expression.literals fragment.functions
  | .name _, _, _, _, _, lowered => by
      obtain ⟨_, _, rfl⟩ := Expression.lower_name_ok lowered
      exact .nil _
  | .integer _, _, _, _, _, lowered => by
      obtain ⟨_, _, rfl⟩ := Expression.lower_integer_ok lowered
      exact .nil _
  | .null _, _, _, _, _, lowered => by
      rw [Expression.lower_null_ok lowered]
      exact .nil _
  | .call callee arguments, _, _, _, _, lowered => by
      obtain ⟨called, passed, first, second, rfl⟩ := Expression.lower_call_ok lowered
      have calledOk := callee.compiled_lower first
      have passedOk := compiled_lowerArguments arguments second
      rw [calledOk.length_eq] at passedOk
      exact calledOk.append passedOk
  | .unary operator operand _, _, _, _, _, lowered => by
      obtain ⟨value, first, rfl⟩ := Expression.lower_unary_ok lowered
      rw [operator.functions_lower]
      exact operand.compiled_lower first
  | .binary _ left right _, _, _, _, _, lowered => by
      obtain ⟨first, second, leftOk, rightOk, rfl⟩ := Expression.lower_binary_ok lowered
      have firstOk := left.compiled_lower leftOk
      have secondOk := right.compiled_lower rightOk
      rw [firstOk.length_eq] at secondOk
      exact firstOk.append secondOk
  | .function _ body _, _, _, _, _, lowered => by
      obtain ⟨inner, innerOk, rfl⟩ := Expression.lower_function_ok lowered
      exact .cons innerOk (compiled_lowerStatements body innerOk)

theorem compiled_lowerArguments : ∀ (arguments : List Expression) {index slot : Nat}
    {frame : Frame} {fragment : Fragment},
    lowerArguments source index frame slot arguments = .ok fragment →
    Compiled source index (argumentLiterals arguments) fragment.functions
  | [], _, _, _, _, lowered => by
      rw [lowerArguments_nil_ok lowered]
      exact .nil _
  | argument :: arguments, _, _, _, _, lowered => by
      obtain ⟨first, rest, firstOk, restOk, rfl⟩ := lowerArguments_cons_ok lowered
      have compiledFirst := argument.compiled_lower firstOk
      have compiledRest := compiled_lowerArguments arguments restOk
      rw [compiledFirst.length_eq] at compiledRest
      exact compiledFirst.append compiledRest

theorem Statement.compiled_lower : ∀ (statement : Statement) {index : Nat} {frame : Frame}
    {fragment : Fragment}, statement.lower source index frame = .ok fragment →
    Compiled source index statement.literals fragment.functions
  | .declare _ initializer, _, _, _, lowered => by
      obtain ⟨value, first, rfl⟩ := Statement.lower_declare_ok lowered
      have compiled := initializer.compiled_lower first
      exact compiled
  | .return value, _, _, _, lowered => by
      obtain ⟨result, first, rfl⟩ := Statement.lower_return_ok lowered
      have compiled := value.compiled_lower first
      exact compiled
  | .assign _ value, _, _, _, lowered => by
      obtain ⟨_, _, result, rfl, _, first, rfl⟩ := Statement.lower_assign_ok lowered
      have compiled := value.compiled_lower first
      exact compiled
  | .evaluate value, _, _, _, lowered => value.compiled_lower (Statement.lower_evaluate_ok lowered)

/-- The literals of some statements are lowered in order. -/
theorem compiled_lowerStatements : ∀ (body : List Statement) {index : Nat} {frame : Frame}
    {fragment : Fragment}, lowerStatements source index frame body = .ok fragment →
    Compiled source index (bodyLiterals body) fragment.functions
  | [], _, _, _, lowered => by
      rw [lowerStatements_nil_ok lowered]
      exact .nil _
  | statement :: body, _, _, _, lowered => by
      obtain ⟨first, rest, firstOk, restOk, rfl⟩ := lowerStatements_cons_ok lowered
      have compiledFirst := statement.compiled_lower firstOk
      have compiledRest := compiled_lowerStatements body restOk
      rw [compiledFirst.length_eq] at compiledRest
      exact compiledFirst.append compiledRest

end

theorem Expression.length_functions_lower {expression : Expression}
    (lowered : expression.lower source index frame slot = .ok fragment) :
    fragment.functions.length = expression.literals.length :=
  (expression.compiled_lower lowered).length_eq

/-- **A unit holds the functions of its tree by index**, each lowered on its own. -/
theorem FunctionSource.compiled_lower {tree : FunctionSource} {unit : CodeUnit}
    (lowered : tree.lower source = .ok unit) : Compiled source 0 tree.functions unit.functions := by
  rw [FunctionSource.lower] at lowered
  obtain ⟨body, bodyOk, lowered⟩ := bind_eq_ok_iff.mp lowered
  cases lowered
  exact .cons bodyOk (compiled_lowerStatements tree.body bodyOk)

end SlotCompiler
