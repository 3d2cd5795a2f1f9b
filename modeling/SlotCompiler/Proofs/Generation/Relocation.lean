import Mathlib.Data.Set.Function
import SlotCompiler.Proofs.Generation.Inversion
import SlotCompiler.Proofs.Parsing.Origins
import SlotCompiler.Proofs.Tree.Relocation

/-!
# Lowering a tree elsewhere

Lowering reads names and integers off the source, and of names it only uses which of them are the
same.  So a relocated tree has the code of the tree, if integers at relocated places have the same
values and names there are renamed without being confused (`Relocation.Carries`); and if it has
none, the message is about the relocated place (`FunctionSource.carried_lower`).
-/

set_option autoImplicit false

namespace SlotCompiler

/-! ## Renaming -/

/-- A problem, with the name in it renamed. -/
def Problem.rename (rename : String → String) : Problem → Problem
  | .unknownIdentifier name => .unknownIdentifier (rename name)
  | problem => problem

/-- A diagnostic about the relocated place, with the name in it renamed. -/
def Diagnostic.carry (move : Relocation) (diagnostic : Diagnostic) : Diagnostic :=
  ⟨diagnostic.problem.rename move.rename, move.place diagnostic.span⟩

/-- What stands at some tokens of one source stands at the relocated places in another source:
names renamed without being confused, and integers with the same values. -/
structure Relocation.Carries (move : Relocation) (tokens : List Token) (origin source : Source) :
    Prop where
  name : ∀ token ∈ tokens, token.kind = .identifier → origin.extract token.span = token.text ∧
    source.extract (move.place token.span) = move.rename token.text
  integer : ∀ token ∈ tokens, token.kind = .integer →
    IntegerLiteral.read? (source.extract (move.place token.span)) =
      IntegerLiteral.read? (origin.extract token.span)
  injective : Set.InjOn move.rename {name | Names tokens name}

namespace Frame

/-- A frame with its names renamed. -/
def rename (rename : String → String) (frame : Frame) : Frame :=
  { frame with bindings := frame.bindings.map fun binding => (rename binding.1, binding.2) }

/-- The names of a frame are from among some tokens. -/
def From (tokens : List Token) (frame : Frame) : Prop :=
  ∀ binding ∈ frame.bindings, Names tokens binding.1

variable {tokens : List Token} {rename : String → String} {frame : Frame}

/-- **Renamed names stand for the same slots.** -/
theorem slotOf?_rename (injective : Set.InjOn rename {name | Names tokens name})
    (origin : frame.From tokens) {name : String} (named : Names tokens name) :
    (frame.rename rename).slotOf? (rename name) = frame.slotOf? name := by
  obtain ⟨bindings, size⟩ := frame
  simp only [slotOf?, Frame.rename]
  induction bindings with
  | nil => rfl
  | cons binding bindings ih =>
      obtain ⟨first, rest⟩ := List.forall_mem_cons.mp origin
      rw [List.map_cons, List.lookup_cons, List.lookup_cons, ih rest]
      have same : (rename name == rename binding.1) = (name == binding.1) := by
        rw [Bool.eq_iff_iff, beq_iff_eq, beq_iff_eq]
        exact injective.eq_iff named first
      rw [same]

theorem From.bind (origin : frame.From tokens) {name : String} (named : Names tokens name)
    (slot : Nat) : (frame.bind name slot).From tokens :=
  List.forall_mem_cons.mpr ⟨named, origin⟩

theorem From.foldl_introduce (origin : frame.From tokens) {parameters : List String}
    (named : ∀ name ∈ parameters, Names tokens name) :
    (parameters.foldl (fun frame name => (frame.introduce name).2) frame).From tokens := by
  induction parameters generalizing frame with
  | nil => exact origin
  | cons parameter parameters ih =>
      rw [List.forall_mem_cons] at named
      have introduced : (frame.introduce parameter).2.From tokens :=
        List.forall_mem_cons.mpr ⟨named.1, origin⟩
      exact ih introduced named.2

theorem From.ofParameters {parameters : List String}
    (named : ∀ name ∈ parameters, Names tokens name) :
    (Frame.ofParameters parameters).From tokens := by
  have empty : ({} : Frame).From tokens := List.forall_mem_nil _
  exact empty.foldl_introduce named

theorem foldl_introduce_rename (rename : String → String) (frame : Frame)
    (parameters : List String) :
    (parameters.map rename).foldl (fun frame name => (frame.introduce name).2)
        (frame.rename rename) =
      (parameters.foldl (fun frame name => (frame.introduce name).2) frame).rename rename := by
  induction parameters generalizing frame with
  | nil => rfl
  | cons parameter parameters ih => exact ih (frame.introduce parameter).2

theorem ofParameters_rename (rename : String → String) (parameters : List String) :
    Frame.ofParameters (parameters.map rename) = (Frame.ofParameters parameters).rename rename :=
  foldl_introduce_rename rename {} parameters

end Frame

/-- A fragment with the names of its frame renamed. -/
def Fragment.rename (rename : String → String) (fragment : Fragment) : Fragment :=
  { fragment with frame := fragment.frame.rename rename }

/-! ## Outcomes elsewhere -/

/-- Two outcomes with the same code and renamed names, or with the same problem at a token and at
the relocated place. -/
inductive Carried (move : Relocation) (tokens : List Token) :
    Except Diagnostic Fragment → Except Diagnostic Fragment → Prop where
  | ok (fragment : Fragment) (origin : fragment.frame.From tokens) :
      Carried move tokens (.ok fragment) (.ok (fragment.rename move.rename))
  | error {diagnostic : Diagnostic} (located : Marks tokens diagnostic.span) :
      Carried move tokens (.error diagnostic) (.error (diagnostic.carry move))

namespace Carried

variable {move : Relocation} {tokens : List Token} {first second : Except Diagnostic Fragment}

/-- Outcomes elsewhere go on alike. -/
theorem bind {next next' : Fragment → Except Diagnostic Fragment}
    (carried : Carried move tokens first second)
    (further : ∀ fragment, fragment.frame.From tokens →
      Carried move tokens (next fragment) (next' (fragment.rename move.rename))) :
    Carried move tokens (first >>= next) (second >>= next') := by
  cases carried with
  | ok fragment origin => exact further fragment origin
  | error located => exact .error located

/-- What is made of the code in the end is the same. -/
theorem map {finish : Fragment → Fragment} (carried : Carried move tokens first second)
    (origin : ∀ fragment, fragment.frame.From tokens → (finish fragment).frame.From tokens)
    (same : ∀ fragment, (finish fragment).rename move.rename =
      finish (fragment.rename move.rename)) :
    Carried move tokens (first >>= fun fragment => pure (finish fragment))
      (second >>= fun fragment => pure (finish fragment)) := by
  refine carried.bind fun fragment names => ?_
  rw [← same fragment]
  exact .ok _ (origin fragment names)

end Carried

/-! ## Lowering elsewhere -/

theorem Expression.location_relocate (move : Relocation) (expression : Expression) :
    (expression.relocate move).location = move.place expression.location := by
  induction expression using Expression.location.induct with
  | case4 callee arguments ih =>
      rw [Expression.relocate, Expression.location, Expression.location, ih]
  | _ => rw [Expression.relocate, Expression.location, Expression.location]

theorem UnaryOperator.lower_rename (operator : UnaryOperator) (slot : Nat) (operand : Fragment)
    (rename : String → String) :
    (operator.lower slot operand).rename rename = operator.lower slot (operand.rename rename) := by
  cases operator <;> rfl

section Elsewhere

variable {move : Relocation} {tokens : List Token} {origin source : Source}

/-- A name is looked up alike. -/
theorem Relocation.Carries.slotOf?_eq (carries : move.Carries tokens origin source) {frame : Frame}
    (names : frame.From tokens) {span : Span} (marks : MarksKind tokens .identifier span) :
    source.extract (move.place span) = move.rename (origin.extract span) ∧
      (frame.rename move.rename).slotOf? (source.extract (move.place span)) =
        frame.slotOf? (origin.extract span) := by
  obtain ⟨token, member, identifier, rfl⟩ := marks
  obtain ⟨here, there⟩ := carries.name token member identifier
  rw [here, there]
  exact ⟨rfl, Frame.slotOf?_rename carries.injective names ⟨token, member, identifier, rfl⟩⟩

/-- A target is resolved alike. -/
theorem Relocation.Carries.targetOf?_eq (carries : move.Carries tokens origin source)
    {frame : Frame} (names : frame.From tokens) {target : Expression}
    (parts : target.From tokens) :
    (frame.rename move.rename).targetOf? source (target.relocate move) =
      frame.targetOf? origin target := by
  cases target with
  | name span => exact (carries.slotOf?_eq names parts).2
  | _ => rfl

theorem Relocation.Carries.unknownIdentifier_eq (carries : move.Carries tokens origin source)
    {span : Span} (marks : MarksKind tokens .identifier span) :
    Diagnostic.unknownIdentifier source (move.place span) =
      (Diagnostic.unknownIdentifier origin span).carry move := by
  obtain ⟨token, member, identifier, rfl⟩ := marks
  obtain ⟨here, there⟩ := carries.name token member identifier
  rw [Diagnostic.unknownIdentifier, there, ← here]
  rfl

/-- A target that cannot be assigned to is refused alike. -/
theorem Relocation.Carries.notAssignable_eq (carries : move.Carries tokens origin source)
    {target : Expression} (parts : target.From tokens) :
    Diagnostic.notAssignable source (target.relocate move) =
      (Diagnostic.notAssignable origin target).carry move := by
  have place := target.location_relocate move
  cases target with
  | name span => exact carries.unknownIdentifier_eq parts
  | _ => exact congrArg (Diagnostic.mk .notAssignable) place

theorem Diagnostic.marks_notAssignable {target : Expression} (parts : target.From tokens) :
    Marks tokens (notAssignable origin target).span := by
  have marks := parts.location
  cases target <;> exact marks

mutual

/-- **A relocated expression has the code of the expression**, or is refused alike. -/
theorem Expression.carried_lower (carries : move.Carries tokens origin source) :
    ∀ (expression : Expression) {index slot : Nat} {frame : Frame}, expression.From tokens →
      frame.From tokens →
      Carried move tokens (expression.lower origin index frame slot)
        ((expression.relocate move).lower source index (frame.rename move.rename) slot)
  | .name span, index, slot, frame, parts, names => by
      rw [Expression.relocate, Expression.lower, Expression.lower,
        (carries.slotOf?_eq names parts).2]
      split
      · exact .ok _ names
      · rw [carries.unknownIdentifier_eq parts]
        exact .error (MarksKind.marks parts)
  | .integer span, index, slot, frame, parts, names => by
      obtain ⟨token, member, digits, rfl⟩ := parts
      rw [Expression.relocate, Expression.lower, Expression.lower,
        carries.integer token member digits]
      split
      · exact .ok _ names
      · exact .error ⟨token, member, rfl⟩
  | .null span, index, slot, frame, parts, names => by
      rw [Expression.relocate, Expression.lower, Expression.lower]
      exact .ok _ names
  | .call callee arguments, index, slot, frame, parts, names => by
      have count : (relocateArguments move arguments).length = arguments.length := by
        rw [relocateArguments_eq_map, List.length_map]
      rw [Expression.relocate, Expression.lower, Expression.lower, count]
      have block : (frame.freshBlock (1 + arguments.length)).2.From tokens := names
      refine (callee.carried_lower carries parts.1 block).bind fun called calledNames => ?_
      exact (carried_lowerArguments carries arguments parts.2 calledNames).map
        (fun _ names => names) fun _ => rfl
  | .unary operator operand mark, index, slot, frame, parts, names => by
      rw [Expression.relocate, Expression.lower, Expression.lower]
      refine (operand.carried_lower carries parts.1 names).map (fun value names => ?_)
        fun value => operator.lower_rename slot value move.rename
      rw [operator.frame_lower]
      exact names
  | .binary operator left right mark, index, slot, frame, parts, names => by
      rw [Expression.relocate, Expression.lower, Expression.lower]
      refine (left.carried_lower carries parts.1 names).bind fun first firstNames => ?_
      have fresh : first.frame.fresh.2.From tokens := firstNames
      exact (right.carried_lower carries parts.2.1 fresh).map (fun _ names => names) fun _ => rfl
  | .function parameters body mark, index, slot, frame, parts, names => by
      rw [Expression.relocate, Expression.lower, Expression.lower, Frame.ofParameters_rename]
      have inner : Carried move tokens
          (lowerStatements origin (index + 1) (.ofParameters parameters) body)
          (lowerStatements source (index + 1) ((Frame.ofParameters parameters).rename move.rename)
            (relocateBody move body)) :=
        carried_lowerStatements carries body parts.2.1 (.ofParameters parts.1)
      exact inner.bind fun body _ => .ok ⟨frame, _, body.close⟩ names

theorem carried_lowerArguments (carries : move.Carries tokens origin source) :
    ∀ (arguments : List Expression) {index slot : Nat} {frame : Frame},
      ArgumentsFrom tokens arguments → frame.From tokens →
      Carried move tokens (lowerArguments origin index frame slot arguments)
        (lowerArguments source index (frame.rename move.rename) slot
          (relocateArguments move arguments))
  | [], index, slot, frame, parts, names => by
      rw [relocateArguments, lowerArguments, lowerArguments]
      exact .ok _ names
  | argument :: arguments, index, slot, frame, parts, names => by
      rw [relocateArguments, lowerArguments, lowerArguments]
      refine (argument.carried_lower carries parts.1 names).bind fun first firstNames => ?_
      exact (carried_lowerArguments carries arguments parts.2 firstNames).map (fun _ names => names)
        fun _ => rfl

theorem Statement.carried_lower (carries : move.Carries tokens origin source) :
    ∀ (statement : Statement) {index : Nat} {frame : Frame}, statement.From tokens →
      frame.From tokens →
      Carried move tokens (statement.lower origin index frame)
        ((statement.relocate move).lower source index (frame.rename move.rename))
  | .declare name initializer, index, frame, parts, names => by
      rw [Statement.relocate, Statement.lower, Statement.lower]
      have fresh : frame.fresh.2.From tokens := names
      refine (initializer.carried_lower carries parts.2 fresh).bind fun value valueNames => ?_
      exact .ok { value with frame := value.frame.bind name frame.size } (valueNames.bind parts.1 _)
  | .return value, index, frame, parts, names => by
      rw [Statement.relocate, Statement.lower, Statement.lower]
      have fresh : frame.fresh.2.From tokens := names
      exact (value.carried_lower carries parts fresh).map (fun _ names => names) fun _ => rfl
  | .assign target value, index, frame, parts, names => by
      rw [Statement.relocate, Statement.lower, Statement.lower,
        carries.targetOf?_eq names parts.1]
      have fresh : frame.fresh.2.From tokens := names
      split
      · rw [carries.notAssignable_eq parts.1]
        exact .error (Diagnostic.marks_notAssignable parts.1)
      · exact (value.carried_lower carries parts.2 fresh).map (fun _ names => names) fun _ => rfl
  | .evaluate value, index, frame, parts, names => by
      rw [Statement.relocate, Statement.lower, Statement.lower]
      have fresh : frame.fresh.2.From tokens := names
      exact value.carried_lower carries parts fresh

/-- Relocated statements have the code of the statements, or are refused alike. -/
theorem carried_lowerStatements (carries : move.Carries tokens origin source) :
    ∀ (body : List Statement) {index : Nat} {frame : Frame}, BodyFrom tokens body →
      frame.From tokens →
      Carried move tokens (lowerStatements origin index frame body)
        (lowerStatements source index (frame.rename move.rename) (relocateBody move body))
  | [], index, frame, parts, names => by
      rw [relocateBody, lowerStatements, lowerStatements]
      exact .ok _ names
  | statement :: body, index, frame, parts, names => by
      rw [relocateBody, lowerStatements, lowerStatements]
      refine (statement.carried_lower carries parts.1 names).bind fun first firstNames => ?_
      exact (carried_lowerStatements carries body parts.2 firstNames).map (fun _ names => names)
        fun _ => rfl

end

/-- **A tree elsewhere has the code of the tree**; if it has none, the problem of both is the same,
up to the renaming, at the same token. -/
theorem FunctionSource.carried_lower (carries : move.Carries tokens origin source)
    {tree : FunctionSource} (parts : tree.From tokens) :
    (∃ unit, tree.lower origin = .ok unit ∧ (tree.relocate move).lower source = .ok unit) ∨
      ∃ diagnostic, Marks tokens diagnostic.span ∧ tree.lower origin = .error diagnostic ∧
        (tree.relocate move).lower source = .error (diagnostic.carry move) := by
  have lowered : Carried move tokens
      (lowerStatements origin 1 (.ofParameters tree.parameters) tree.body)
      (lowerStatements source 1 ((Frame.ofParameters tree.parameters).rename move.rename)
        (relocateBody move tree.body)) :=
    carried_lowerStatements carries tree.body parts.2 (.ofParameters parts.1)
  rw [← Frame.ofParameters_rename] at lowered
  rw [FunctionSource.lower, FunctionSource.lower, FunctionSource.relocate]
  generalize lowerStatements origin _ _ _ = first at lowered ⊢
  generalize lowerStatements source _ _ _ = second at lowered ⊢
  cases lowered with
  | ok fragment _ => exact .inl ⟨⟨fragment.close⟩, rfl, rfl⟩
  | error located => exact .inr ⟨_, located, rfl, rfl⟩

end Elsewhere

end SlotCompiler
