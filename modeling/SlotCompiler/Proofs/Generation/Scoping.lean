import SlotCompiler.Proofs.Diagnostic.Messages
import SlotCompiler.Proofs.Generation.Inversion
import SlotCompiler.Proofs.Tree.Obligations

/-!
# Lowering checks what a tree has to fulfil

Lowering succeeds exactly on the trees whose obligations all hold, and otherwise fails with the
message about the first obligation that does not hold.

The outcome of lowering a piece of a tree judges the obligations of the piece (`Judged`): judgements
of two pieces in a row join like the pieces (`Judged.bind`).  What ties the two sides together is
that a frame knows the names of the scope (`Frame.Knows`), which every statement preserves.
-/

set_option autoImplicit false

namespace SlotCompiler

variable {source : Source}

/-! ## Judgements -/

/-- The diagnostic about an obligation that does not hold. -/
def Obligation.diagnostic (source : Source) : Obligation → Diagnostic
  | .bound _ span => .unknownIdentifier source span
  | .word span => ⟨.integerOutOfRange, span⟩
  | .assignable _ target => .notAssignable source target

/-- An outcome that succeeds if all obligations hold, and otherwise fails with the first that does
not. -/
inductive Judged (source : Source) {α : Type} :
    List Obligation → Except Diagnostic α → Prop where
  | ok {obligations : List Obligation} (value : α)
      (met : ∀ obligation ∈ obligations, obligation.Met source) :
      Judged source obligations (.ok value)
  | error {before : List Obligation} {first : Obligation} (after : List Obligation)
      (met : ∀ obligation ∈ before, obligation.Met source) (unmet : ¬ first.Met source) :
      Judged source (before ++ first :: after) (.error (first.diagnostic source))

namespace Judged

variable {α β : Type} {obligations further : List Obligation} {outcome : Except Diagnostic α}

/-- Nothing has to hold. -/
theorem nothing (value : α) : Judged source [] (.ok value) := .ok value (List.forall_mem_nil _)

/-- One obligation that holds. -/
theorem one {obligation : Obligation} (value : α) (met : obligation.Met source) :
    Judged source [obligation] (.ok value) := .ok value (List.forall_mem_singleton.mpr met)

/-- The first obligation does not hold. -/
theorem refused {obligation : Obligation} (unmet : ¬ obligation.Met source) :
    Judged source (obligation :: further) (.error (obligation.diagnostic source) : Except _ α) := by
  rw [← List.nil_append (obligation :: further)]
  exact .error further (List.forall_mem_nil _) unmet

/-- The first obligation holds. -/
theorem cons {obligation : Obligation} (met : obligation.Met source)
    (rest : Judged source further outcome) : Judged source (obligation :: further) outcome := by
  cases rest with
  | ok value all => exact .ok value (List.forall_mem_cons.mpr ⟨met, all⟩)
  | error after all unmet =>
      rw [← List.cons_append]
      exact .error after (List.forall_mem_cons.mpr ⟨met, all⟩) unmet

/-- **Judgements join** like the steps they are about. -/
theorem bind {next : α → Except Diagnostic β} (first : Judged source obligations outcome)
    (second : ∀ value, outcome = .ok value → Judged source further (next value)) :
    Judged source (obligations ++ further) (outcome >>= next) := by
  cases first with
  | ok value met =>
      have judged := second value rfl
      show Judged source _ (next value)
      generalize next value = outcome at judged
      cases judged with
      | ok value met' => exact .ok value (List.forall_mem_append.mpr ⟨met, met'⟩)
      | error after met' unmet =>
          rw [← List.append_assoc]
          exact .error after (List.forall_mem_append.mpr ⟨met, met'⟩) unmet
  | error after met unmet =>
      rw [List.append_assoc, List.cons_append]
      exact .error (after ++ further) met unmet

/-- What is made of a value in the end has nothing more to fulfil. -/
theorem map (function : α → β) (judged : Judged source obligations outcome) :
    Judged source obligations (outcome >>= fun value => pure (function value)) := by
  rw [← List.append_nil obligations]
  exact judged.bind fun value _ => nothing (function value)

/-- An outcome is a success exactly when all obligations hold. -/
theorem exists_ok_iff (judged : Judged source obligations outcome) :
    (∃ value, outcome = .ok value) ↔ ∀ obligation ∈ obligations, obligation.Met source := by
  cases judged with
  | ok value met => exact ⟨fun _ => met, fun _ => ⟨value, rfl⟩⟩
  | error after met unmet =>
      refine ⟨nofun, fun all => ?_⟩
      exact absurd (all _ (List.mem_append_right _ List.mem_cons_self)) unmet

/-- There is only one first obligation that does not hold. -/
theorem first_unique {before before' after after' : List Obligation} {first first' : Obligation}
    (same : before ++ first :: after = before' ++ first' :: after')
    (met : ∀ obligation ∈ before, obligation.Met source) (unmet : ¬ first.Met source)
    (met' : ∀ obligation ∈ before', obligation.Met source) (unmet' : ¬ first'.Met source) :
    first = first' := by
  induction before generalizing before' with
  | nil =>
      cases before' with
      | nil => exact (List.cons.inj same).1
      | cons obligation before' =>
          rw [(List.cons.inj same).1] at unmet
          exact absurd (met' obligation List.mem_cons_self) unmet
  | cons obligation before ih =>
      cases before' with
      | nil =>
          rw [← (List.cons.inj same).1] at unmet'
          exact absurd (met obligation List.mem_cons_self) unmet'
      | cons obligation' before' =>
          exact ih (List.cons.inj same).2 (List.forall_mem_cons.mp met).2
            (List.forall_mem_cons.mp met').2

/-- A failure is about the first obligation that does not hold. -/
theorem eq_error_iff (judged : Judged source obligations outcome) (diagnostic : Diagnostic) :
    outcome = .error diagnostic ↔ ∃ before first after,
      obligations = before ++ first :: after ∧
        (∀ obligation ∈ before, obligation.Met source) ∧ ¬ first.Met source ∧
        diagnostic = first.diagnostic source := by
  cases judged with
  | ok value met =>
      refine ⟨nofun, ?_⟩
      rintro ⟨before, first, after, rfl, -, unmet, -⟩
      exact absurd (met _ (List.mem_append_right _ List.mem_cons_self)) unmet
  | error after met unmet =>
      constructor
      · intro same
        cases same
        exact ⟨_, _, after, rfl, met, unmet, rfl⟩
      · rintro ⟨before', first', after', same, met', unmet', rfl⟩
        rw [first_unique same met unmet met' unmet']

end Judged

/-- A diagnostic is about an obligation when it has the message and the place for it. -/
theorem Obligation.eq_diagnostic_iff (obligation : Obligation) (diagnostic : Diagnostic) :
    diagnostic = obligation.diagnostic source ↔
      diagnostic.message = obligation.message source ∧
        diagnostic.span = obligation.location := by
  have message : (obligation.diagnostic source).message = obligation.message source := by
    cases obligation with
    | assignable scope target => cases target <;> rfl
    | _ => rfl
  have span : (obligation.diagnostic source).span = obligation.location := by
    cases obligation with
    | assignable scope target => cases target <;> rfl
    | _ => rfl
  rw [← message, ← span, ← Prod.mk.injEq]
  exact Diagnostic.message_span_injective.eq_iff.symm

/-! ## Frames and scopes -/

/-- A frame has slots for the names of a scope and for no others. -/
def Frame.Knows (frame : Frame) (scope : List String) : Prop :=
  ∀ name, (frame.slotOf? name).isSome ↔ name ∈ scope

namespace Frame

variable {frame : Frame} {scope : List String}

namespace Knows

theorem empty : ({} : Frame).Knows [] := fun _ => ⟨nofun, nofun⟩

theorem bind (knows : frame.Knows scope) (name : String) (slot : Nat) :
    (frame.bind name slot).Knows (name :: scope) := by
  intro other
  rw [slotOf?_bind, List.mem_cons]
  split
  · rename_i same
    exact ⟨fun _ => .inl same, fun _ => rfl⟩
  · rename_i different
    rw [knows other, or_iff_right different]

/-- Only the bindings matter. -/
theorem congr {other : Frame} (knows : frame.Knows scope)
    (same : other.bindings = frame.bindings) : other.Knows scope := by
  intro name
  rw [slotOf?, same]
  exact knows name

theorem fresh (knows : frame.Knows scope) : frame.fresh.2.Knows scope := knows.congr rfl

/-- The order of names in a scope does not matter. -/
theorem of_mem_iff {scope' : List String} (knows : frame.Knows scope)
    (same : ∀ name, name ∈ scope ↔ name ∈ scope') : frame.Knows scope' :=
  fun name => (knows name).trans (same name)

theorem foldl_introduce (knows : frame.Knows scope) (parameters : List String) :
    (parameters.foldl (fun frame name => (frame.introduce name).2) frame).Knows
      (parameters ++ scope) := by
  induction parameters generalizing frame scope with
  | nil => exact knows
  | cons parameter parameters ih =>
      rw [List.foldl_cons]
      refine (ih (knows.fresh.bind parameter _)).of_mem_iff fun name => ?_
      rw [List.mem_append, List.mem_cons, List.cons_append, List.mem_cons, List.mem_append]
      exact or_left_comm

theorem ofParameters (parameters : List String) :
    (Frame.ofParameters parameters).Knows parameters := by
  have knows := empty.foldl_introduce parameters
  rwa [List.append_nil] at knows

end Knows

end Frame

/-! ## Names, targets and integers -/

/-- A name is looked up in a frame that knows the scope. -/
theorem Frame.Knows.name_iff {frame : Frame} {scope : List String} (knows : frame.Knows scope)
    (source : Source) (span : Span) :
    (frame.slotOf? (source.extract span)).isSome ↔ (Obligation.bound scope span).Met source :=
  knows _

/-- A target is resolved in a frame that knows the scope. -/
theorem Frame.Knows.target_iff {frame : Frame} {scope : List String} (knows : frame.Knows scope)
    (source : Source) (target : Expression) :
    (frame.targetOf? source target).isSome ↔
      (Obligation.assignable scope target).Met source := by
  cases target with
  | name span =>
      rw [Frame.targetOf?, knows]
      constructor
      · intro known
        exact ⟨span, rfl, known⟩
      · rintro ⟨_, same, known⟩
        cases same
        exact known
  | _ => exact ⟨nofun, nofun⟩

theorem IntegerLiteral.read?_iff (source : Source) (span : Span) :
    (read? (source.extract span)).isSome ↔ (Obligation.word span).Met source := by
  rw [← not_iff_not, Option.not_isSome_iff_eq_none, read?_eq_none_iff]
  rfl

/-! ## Judging a tree -/

/-- An expression leaves the scope alone. -/
theorem Frame.Knows.expression {index slot : Nat} {frame : Frame} {scope : List String}
    {expression : Expression} {fragment : Fragment} (knows : frame.Knows scope)
    (lowered : expression.lower source index frame slot = .ok fragment) :
    fragment.frame.Knows scope :=
  knows.congr (by rw [expression.frame_lower lowered])

/-- **The frame behind a statement knows the scope behind it.** -/
theorem Frame.Knows.statement {index : Nat} {frame : Frame} {scope : List String}
    {statement : Statement} {fragment : Fragment} (knows : frame.Knows scope)
    (lowered : statement.lower source index frame = .ok fragment) :
    fragment.frame.Knows (statement.scopeBehind scope) := by
  cases statement with
  | declare name initializer =>
      obtain ⟨value, first, rfl⟩ := Statement.lower_declare_ok lowered
      exact (knows.fresh.expression first).bind name _
  | «return» value =>
      obtain ⟨result, first, rfl⟩ := Statement.lower_return_ok lowered
      have behind := knows.fresh.expression first
      exact behind
  | assign target value =>
      obtain ⟨_, _, result, _, _, first, rfl⟩ := Statement.lower_assign_ok lowered
      have behind := knows.fresh.expression first
      exact behind
  | evaluate value => exact knows.fresh.expression (Statement.lower_evaluate_ok lowered)

mutual

/-- **Lowering an expression judges its obligations.** -/
theorem Expression.judged_lower : ∀ (expression : Expression) {index slot : Nat} {frame : Frame}
    {scope : List String}, frame.Knows scope →
    Judged source (expression.obligations scope) (expression.lower source index frame slot)
  | .name span, index, slot, frame, scope, knows => by
      rw [Expression.lower, Expression.obligations]
      have found := knows.name_iff source span
      split
      · rename_i known same
        rw [same] at found
        exact .one _ (found.mp rfl)
      · rename_i same
        rw [same] at found
        exact .refused fun met => nomatch found.mpr met
  | .integer span, index, slot, frame, scope, _ => by
      rw [Expression.lower, Expression.obligations]
      have found := IntegerLiteral.read?_iff source span
      split
      · rename_i word same
        rw [same] at found
        exact .one _ (found.mp rfl)
      · rename_i same
        rw [same] at found
        exact .refused fun met => nomatch found.mpr met
  | .null span, index, slot, frame, scope, _ => by
      rw [Expression.lower, Expression.obligations]
      exact .nothing _
  | .call callee arguments, index, slot, frame, scope, knows => by
      rw [Expression.lower, Expression.obligations]
      have block : (frame.freshBlock (1 + arguments.length)).2.Knows scope := knows.congr rfl
      refine .bind (callee.judged_lower block) fun called calledOk => ?_
      exact .map _ (judged_lowerArguments arguments (block.expression calledOk))
  | .unary operator operand mark, index, slot, frame, scope, knows => by
      rw [Expression.lower, Expression.obligations]
      exact .map _ (operand.judged_lower knows)
  | .binary operator left right mark, index, slot, frame, scope, knows => by
      rw [Expression.lower, Expression.obligations]
      refine .bind (left.judged_lower knows) fun first firstOk => ?_
      exact .map _ (right.judged_lower (knows.expression firstOk).fresh)
  | .function parameters body mark, index, slot, frame, scope, _ => by
      rw [Expression.lower, Expression.obligations]
      exact .map _ (judged_lowerStatements body (.ofParameters parameters))

theorem judged_lowerArguments : ∀ (arguments : List Expression) {index slot : Nat}
    {frame : Frame} {scope : List String}, frame.Knows scope →
    Judged source (argumentObligations scope arguments)
      (lowerArguments source index frame slot arguments)
  | [], index, slot, frame, scope, _ => by
      rw [lowerArguments, argumentObligations]
      exact .nothing _
  | argument :: arguments, index, slot, frame, scope, knows => by
      rw [lowerArguments, argumentObligations]
      refine .bind (argument.judged_lower knows) fun first firstOk => ?_
      exact .map _ (judged_lowerArguments arguments (knows.expression firstOk))

theorem Statement.judged_lower : ∀ (statement : Statement) {index : Nat} {frame : Frame}
    {scope : List String}, frame.Knows scope →
    Judged source (statement.obligations scope) (statement.lower source index frame)
  | .declare name initializer, index, frame, scope, knows => by
      rw [Statement.lower, Statement.obligations]
      exact .map _ (initializer.judged_lower knows.fresh)
  | .return value, index, frame, scope, knows => by
      rw [Statement.lower, Statement.obligations]
      exact .map _ (value.judged_lower knows.fresh)
  | .assign target value, index, frame, scope, knows => by
      rw [Statement.lower, Statement.obligations]
      have found := knows.target_iff source target
      split
      · rename_i same
        rw [same] at found
        exact .refused fun met => nomatch found.mpr met
      · rename_i known same
        rw [same] at found
        exact .cons (found.mp rfl) (.map _ (value.judged_lower knows.fresh))
  | .evaluate value, index, frame, scope, knows => by
      rw [Statement.lower, Statement.obligations]
      exact value.judged_lower knows.fresh

/-- Lowering some statements judges their obligations. -/
theorem judged_lowerStatements : ∀ (body : List Statement) {index : Nat} {frame : Frame}
    {scope : List String}, frame.Knows scope →
    Judged source (bodyObligations scope body) (lowerStatements source index frame body)
  | [], index, frame, scope, _ => by
      rw [lowerStatements, bodyObligations]
      exact .nothing _
  | statement :: body, index, frame, scope, knows => by
      rw [lowerStatements, bodyObligations]
      refine .bind (statement.judged_lower knows) fun first firstOk => ?_
      exact .map _ (judged_lowerStatements body (knows.statement firstOk))

end

/-- Lowering a tree judges its obligations. -/
theorem FunctionSource.judged_lower (source : Source) (tree : FunctionSource) :
    Judged source tree.obligations (tree.lower source) := by
  rw [FunctionSource.lower, FunctionSource.obligations]
  exact .map _ (judged_lowerStatements tree.body (.ofParameters tree.parameters))

/-! ## Constants -/

/-- The word that an instruction puts into a slot. -/
def Instruction.constant? : Instruction → Option UInt64
  | .setFromConstant _ word => some word
  | _ => none

/-- The words that a routine puts into slots, in the order of its code. -/
def Routine.constants (routine : Routine) : List UInt64 :=
  routine.code.filterMap Instruction.constant?

/-- Code that puts the constants of a piece of a tree into slots, and no other words. -/
def Stores (source : Source) (constants : List Constant) (code : List Instruction) : Prop :=
  List.Forall₂ (Constant.Denotes source) constants (code.filterMap Instruction.constant?)

namespace Stores

variable {constants further : List Constant} {code more : List Instruction}

theorem append (first : Stores source constants code) (second : Stores source further more) :
    Stores source (constants ++ further) (code ++ more) := by
  rw [Stores, List.filterMap_append]
  exact List.rel_append first second

/-- More code that puts no words into slots. -/
theorem emit (stores : Stores source constants code)
    (none : more.filterMap Instruction.constant? = []) :
    Stores source constants (code ++ more) := by
  rwa [Stores, List.filterMap_append, none, List.append_nil]

end Stores

theorem BinaryOperator.constants_code (operator : BinaryOperator) (left right : Nat) :
    (operator.code left right).filterMap Instruction.constant? = [] := by
  cases operator <;> rfl

/-- Only inverting takes a word. -/
theorem UnaryOperator.stores_lower (operator : UnaryOperator) {slot : Nat} {operand : Fragment}
    {constants : List Constant} (stores : Stores source constants operand.code) :
    Stores source (constants ++ if operator = .invert then [.greatest] else [])
      (operator.lower slot operand).code := by
  cases operator with
  | invert =>
      refine stores.append (.cons ?_ .nil)
      exact UInt64.toNat_ofNat_of_lt' (by decide)
  | _ => exact stores.append .nil

mutual

/-- **The constants of an expression are what its code puts into slots.** -/
theorem Expression.stores_lower : ∀ (expression : Expression) {index slot : Nat} {frame : Frame}
    {fragment : Fragment}, expression.lower source index frame slot = .ok fragment →
    Stores source expression.constants fragment.code
  | .name _, _, _, _, _, lowered => by
      obtain ⟨_, _, rfl⟩ := Expression.lower_name_ok lowered
      exact .nil
  | .integer _, _, _, _, _, lowered => by
      obtain ⟨word, read, rfl⟩ := Expression.lower_integer_ok lowered
      exact .cons (IntegerLiteral.read?_eq_some_iff.mp read) .nil
  | .null _, _, _, _, _, lowered => by
      rw [Expression.lower_null_ok lowered]
      exact .nil
  | .call callee arguments, _, _, _, _, lowered => by
      obtain ⟨called, passed, first, second, rfl⟩ := Expression.lower_call_ok lowered
      have stored :=
        (callee.stores_lower first).append (stores_lowerArguments arguments second)
      exact stored.emit rfl
  | .unary operator operand _, _, _, _, _, lowered => by
      obtain ⟨value, first, rfl⟩ := Expression.lower_unary_ok lowered
      exact operator.stores_lower (operand.stores_lower first)
  | .binary operator left right _, _, _, _, _, lowered => by
      obtain ⟨first, second, leftOk, rightOk, rfl⟩ := Expression.lower_binary_ok lowered
      have stored := (left.stores_lower leftOk).append (right.stores_lower rightOk)
      exact stored.emit (operator.constants_code _ _)
  | .function _ _ _, _, _, _, _, lowered => by
      obtain ⟨_, _, rfl⟩ := Expression.lower_function_ok lowered
      exact .nil

theorem stores_lowerArguments : ∀ (arguments : List Expression) {index slot : Nat}
    {frame : Frame} {fragment : Fragment},
    lowerArguments source index frame slot arguments = .ok fragment →
    Stores source (argumentConstants arguments) fragment.code
  | [], _, _, _, _, lowered => by
      rw [lowerArguments_nil_ok lowered]
      exact .nil
  | argument :: arguments, _, _, _, _, lowered => by
      obtain ⟨first, rest, firstOk, restOk, rfl⟩ := lowerArguments_cons_ok lowered
      exact (argument.stores_lower firstOk).append (stores_lowerArguments arguments restOk)

end

/-- The constants of a statement are what its code puts into slots. -/
theorem Statement.stores_lower {statement : Statement} {index : Nat} {frame : Frame}
    {fragment : Fragment} (lowered : statement.lower source index frame = .ok fragment) :
    Stores source statement.constants fragment.code := by
  cases statement with
  | declare name initializer =>
      obtain ⟨value, first, rfl⟩ := Statement.lower_declare_ok lowered
      have stored := initializer.stores_lower first
      exact stored
  | «return» value =>
      obtain ⟨result, first, rfl⟩ := Statement.lower_return_ok lowered
      exact (value.stores_lower first).emit rfl
  | assign target value =>
      obtain ⟨_, _, result, _, _, first, rfl⟩ := Statement.lower_assign_ok lowered
      exact (value.stores_lower first).emit rfl
  | evaluate value => exact value.stores_lower (Statement.lower_evaluate_ok lowered)

/-- The constants of some statements are what their code puts into slots. -/
theorem stores_lowerStatements {body : List Statement} {index : Nat} {frame : Frame}
    {fragment : Fragment} (lowered : lowerStatements source index frame body = .ok fragment) :
    Stores source (body.flatMap Statement.constants) fragment.code := by
  induction body generalizing index frame fragment with
  | nil =>
      rw [lowerStatements_nil_ok lowered]
      exact .nil
  | cons statement body ih =>
      obtain ⟨first, rest, firstOk, restOk, rfl⟩ := lowerStatements_cons_ok lowered
      rw [List.flatMap_cons]
      exact (Statement.stores_lower firstOk).append (ih restOk)

/-- Every routine of a unit puts the constants of its function into slots. -/
theorem Compiled.constants {index : Nat} {functions : List FunctionSource}
    {routines : List Routine} (compiled : Compiled source index functions routines) :
    List.Forall₂ (fun function routine =>
      List.Forall₂ (Constant.Denotes source) function.constants routine.constants)
      functions routines := by
  induction compiled with
  | nil => exact .nil
  | @cons index function body functions routines lowered rest ih =>
      refine .cons ?_ ih
      have none : [.deallocate (.ofNat body.frame.size)].filterMap Instruction.constant? = [] := rfl
      have stored := (stores_lowerStatements lowered).emit none
      exact stored

/-! ## Whole trees -/

/-- **Lowering accepts exactly the trees whose obligations hold**, and fails with the message about
the first obligation that does not hold, in the order of evaluation.  The words in the code of a
function are the values of its integers, in the same order. -/
theorem FunctionSource.lower_iff_obligations (source : Source) (tree : FunctionSource) :
    ((∃ unit, tree.lower source = .ok unit) ↔
        ∀ obligation ∈ tree.obligations, obligation.Met source) ∧
      (∀ diagnostic, tree.lower source = .error diagnostic ↔
        ∃ before first after, tree.obligations = before ++ first :: after ∧
          (∀ obligation ∈ before, obligation.Met source) ∧ ¬ first.Met source ∧
          diagnostic.message = first.message source ∧ diagnostic.span = first.location) ∧
      ∀ unit, tree.lower source = .ok unit →
        List.Forall₂ (fun function routine =>
          List.Forall₂ (Constant.Denotes source) function.constants routine.constants)
          tree.functions unit.functions := by
  have judged := tree.judged_lower source
  refine ⟨judged.exists_ok_iff, fun diagnostic => ?_, fun unit lowered => ?_⟩
  · rw [judged.eq_error_iff diagnostic]
    simp only [Obligation.eq_diagnostic_iff]
  · exact (FunctionSource.compiled_lower lowered).constants

end SlotCompiler
