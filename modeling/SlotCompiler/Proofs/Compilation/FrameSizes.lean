import Mathlib.Algebra.Order.BigOperators.Group.List
import Mathlib.Algebra.Order.Ring.Nat
import SlotCompiler.Proofs.Compilation.Extent
import SlotCompiler.Proofs.Generation.Inversion

/-!
# The size of frames

Every slot that a function takes is paid for by a token of the source: the slot of a parameter by
its name, the slot of a statement by a token of its expression, a block for a call by the keyword
and by a token of each argument, the slot of a right operand by the operator, and that of a mask by
its `~`.  So an expression has a token more than it and the functions inside it take slots
(`Expression.slots_lt_extent`), which leaves one for the slot that its value is wanted in.

Slots are words, and a compiler that adds words has to stay below 2^64.  `additions` are the sums
that lowering forms on its way, also if it gives up before the end.  None of them is larger than the
number of slots of the whole tree (`FunctionSource.sum_additions_le`), and so none is larger than
the source is long (`Source.frames_within_source`).
-/

set_option autoImplicit false

namespace SlotCompiler

/-! ## Slots are paid for by tokens -/

/-- The slots that some functions take together. -/
def slotSum (functions : List FunctionSource) : Nat := (functions.map FunctionSource.demand).sum

theorem slotSum_cons (function : FunctionSource) (functions : List FunctionSource) :
    slotSum (function :: functions) = function.demand + slotSum functions := List.sum_cons

theorem slotSum_append (functions others : List FunctionSource) :
    slotSum (functions ++ others) = slotSum functions + slotSum others := by
  rw [slotSum, List.map_append, List.sum_append]
  rfl

mutual

/-- **An expression has more tokens than slots are taken for it** and for the functions in it. -/
theorem Expression.slots_lt_extent : ∀ expression : Expression,
    expression.demand + slotSum expression.literals < expression.extent
  | .name _ => Nat.one_pos
  | .integer _ => Nat.one_pos
  | .null _ => Nat.one_pos
  | .call callee arguments => by
      have called := callee.slots_lt_extent
      have passed := argumentSlots_le_extent arguments
      rw [Expression.demand, Expression.literals, Expression.extent, slotSum_append]
      omega
  | .unary operator operand _ => by
      have inner := operand.slots_lt_extent
      rw [Expression.demand, Expression.literals, Expression.extent]
      split <;> omega
  | .binary _ left right _ => by
      have first := left.slots_lt_extent
      have second := right.slots_lt_extent
      rw [Expression.demand, Expression.literals, Expression.extent, slotSum_append]
      omega
  | .function parameters body _ => by
      have inner := bodySlots_le_extent body
      rw [Expression.demand, Expression.literals, Expression.extent, slotSum_cons]
      simp only [FunctionSource.demand]
      omega

/-- Arguments also pay for the slots that they are passed in. -/
theorem argumentSlots_le_extent : ∀ arguments : List Expression,
    arguments.length + argumentDemand arguments + slotSum (argumentLiterals arguments) ≤
      argumentExtent arguments
  | [] => Nat.le_refl 0
  | argument :: arguments => by
      have first := argument.slots_lt_extent
      have rest := argumentSlots_le_extent arguments
      rw [List.length_cons, argumentDemand, argumentLiterals, argumentExtent, slotSum_append]
      omega

theorem Statement.slots_le_extent : ∀ statement : Statement,
    statement.demand + slotSum statement.literals ≤ statement.extent
  | .declare _ initializer => by
      have value := initializer.slots_lt_extent
      rw [Statement.demand, Statement.literals, Statement.extent]
      omega
  | .return value => by
      have value := value.slots_lt_extent
      rw [Statement.demand, Statement.literals, Statement.extent]
      omega
  | .assign target value => by
      have assigned := target.slots_lt_extent
      have value := value.slots_lt_extent
      rw [Statement.demand, Statement.literals, Statement.extent, slotSum_append]
      omega
  | .evaluate value => by
      have value := value.slots_lt_extent
      rw [Statement.demand, Statement.literals, Statement.extent]
      omega

/-- A body has as many tokens as slots are taken for it and for the functions in it, or more. -/
theorem bodySlots_le_extent : ∀ body : List Statement,
    bodyDemand body + slotSum (bodyLiterals body) ≤ bodyExtent body
  | [] => Nat.le_refl 0
  | statement :: body => by
      have first := statement.slots_le_extent
      have rest := bodySlots_le_extent body
      rw [bodyDemand, bodyLiterals, bodyExtent, slotSum_append]
      omega

end

theorem FunctionSource.slotSum_functions (function : FunctionSource) :
    slotSum function.functions = function.parameters.length +
      (bodyDemand function.body + slotSum (bodyLiterals function.body)) := by
  rw [functions, slotSum_cons, demand, Nat.add_assoc]

/-! ## Additions -/

/-- An addition of two words. -/
structure Addition where
  first : Nat
  second : Nat
  deriving DecidableEq, Repr

namespace Addition

/-- The number that an addition comes to, if it does not overflow. -/
def sum (addition : Addition) : Nat := addition.first + addition.second

@[simp] theorem sum_mk (first second : Nat) : sum ⟨first, second⟩ = first + second := rfl

/-- What is added behind a piece of a tree.  Nothing is if lowering the piece fails. -/
def behind (piece : Except Diagnostic Fragment) (further : Fragment → List Addition) :
    List Addition :=
  match piece with
  | .ok fragment => further fragment
  | .error _ => []

theorem forall_mem_behind {piece : Except Diagnostic Fragment} {further : Fragment → List Addition}
    {holds : Addition → Prop}
    (each : ∀ fragment, piece = .ok fragment → ∀ addition ∈ further fragment, holds addition) :
    ∀ addition ∈ behind piece further, holds addition := by
  cases piece with
  | ok fragment => exact each fragment rfl
  | error diagnostic => exact List.forall_mem_nil _

end Addition

mutual

/-- The additions on the way of lowering an expression: the size of a block and what it is added to
where the block is handed out, the places of arguments in their block, and single slots. -/
def Expression.additions (source : Source) (index : Nat) (frame : Frame) (slot : Nat) :
    Expression → List Addition
  | .name _ => []
  | .integer _ => []
  | .null _ => []
  | .call callee arguments =>
    let (base, block) := frame.freshBlock (1 + arguments.length)
    ⟨1, arguments.length⟩ :: ⟨frame.size, 1 + arguments.length⟩ ::
      (callee.additions source index block base ++
        Addition.behind (callee.lower source index block base) fun called =>
          argumentAdditions source (index + called.functions.length) called.frame base 1 arguments)
  | .unary operator operand _ =>
    operand.additions source index frame slot ++
      Addition.behind (operand.lower source index frame slot) fun value =>
        if operator = .invert then [⟨value.frame.size, 1⟩] else []
  | .binary _ left right _ =>
    left.additions source index frame slot ++
      Addition.behind (left.lower source index frame slot) fun first =>
        ⟨first.frame.size, 1⟩ ::
          right.additions source (index + first.functions.length) first.frame.fresh.2
            first.frame.size
  | .function parameters body _ =>
    parameterAdditions 0 parameters ++
      bodyAdditions source (index + 1) (.ofParameters parameters) body

/-- The additions on the way of lowering arguments, the first of which has some place in the block
of a call. -/
def argumentAdditions (source : Source) (index : Nat) (frame : Frame) (base place : Nat) :
    List Expression → List Addition
  | [] => []
  | argument :: arguments =>
    ⟨base, place⟩ ::
      (argument.additions source index frame (base + place) ++
        Addition.behind (argument.lower source index frame (base + place)) fun first =>
          argumentAdditions source (index + first.functions.length) first.frame base (place + 1)
            arguments)

/-- The additions for the parameters of a function, the first of which goes into some slot. -/
def parameterAdditions (slot : Nat) : List String → List Addition
  | [] => []
  | _ :: parameters => ⟨slot, 1⟩ :: parameterAdditions (slot + 1) parameters

/-- The additions on the way of lowering a statement.  The target of an assignment comes first. -/
def Statement.additions (source : Source) (index : Nat) (frame : Frame) :
    Statement → List Addition
  | .declare _ initializer =>
    ⟨frame.size, 1⟩ :: initializer.additions source index frame.fresh.2 frame.size
  | .return value => ⟨frame.size, 1⟩ :: value.additions source index frame.fresh.2 frame.size
  | .assign target value =>
    match frame.targetOf? source target with
    | none => []
    | some _ => ⟨frame.size, 1⟩ :: value.additions source index frame.fresh.2 frame.size
  | .evaluate value => ⟨frame.size, 1⟩ :: value.additions source index frame.fresh.2 frame.size

/-- The additions on the way of lowering some statements. -/
def bodyAdditions (source : Source) (index : Nat) (frame : Frame) :
    List Statement → List Addition
  | [] => []
  | statement :: statements =>
    statement.additions source index frame ++
      Addition.behind (statement.lower source index frame) fun first =>
        bodyAdditions source (index + first.functions.length) first.frame statements

end

/-- The additions on the way of lowering a whole tree. -/
def FunctionSource.additions (source : Source) (function : FunctionSource) : List Addition :=
  parameterAdditions 0 function.parameters ++
    bodyAdditions source 1 (.ofParameters function.parameters) function.body

/-! ## No sum is larger than the slots of all functions -/

variable {source : Source}

theorem sum_parameterAdditions (slot : Nat) (parameters : List String) :
    ∀ addition ∈ parameterAdditions slot parameters, addition.sum ≤ slot + parameters.length := by
  induction parameters generalizing slot with
  | nil => exact List.forall_mem_nil _
  | cons parameter parameters ih =>
      rw [parameterAdditions, List.length_cons, List.forall_mem_cons]
      refine ⟨by rw [Addition.sum_mk]; omega, fun addition member => ?_⟩
      have further := ih (slot + 1) addition member
      omega

/-- A slot is handed out, and then there are more additions. -/
theorem sum_fresh {frame : Frame} {additions : List Addition} {demand further : Nat}
    (bound : ∀ addition ∈ additions, addition.sum ≤ frame.fresh.2.size + demand + further) :
    ∀ addition ∈ ⟨frame.size, 1⟩ :: additions,
      addition.sum ≤ frame.size + (1 + demand) + further := by
  simp only [Frame.fresh, Frame.freshBlock] at bound
  rw [List.forall_mem_cons]
  refine ⟨by rw [Addition.sum_mk]; omega, fun addition member => ?_⟩
  have behind := bound addition member
  omega

mutual

/-- **The additions for an expression come to no more** than the frame and the slots of the
expression and of the functions in it. -/
theorem Expression.sum_additions : ∀ (expression : Expression) (index slot : Nat) (frame : Frame),
    ∀ addition ∈ expression.additions source index frame slot,
      addition.sum ≤ frame.size + expression.demand + slotSum expression.literals
  | .name _, _, _, _ => List.forall_mem_nil _
  | .integer _, _, _, _ => List.forall_mem_nil _
  | .null _, _, _, _ => List.forall_mem_nil _
  | .call callee arguments, index, _, frame => by
      rw [Expression.additions, Expression.demand, Expression.literals, slotSum_append]
      refine List.forall_mem_cons.mpr ⟨?count, List.forall_mem_cons.mpr ⟨?block,
        List.forall_mem_append.mpr ⟨?called, Addition.forall_mem_behind ?passed⟩⟩⟩
      case count =>
        rw [Addition.sum_mk]
        omega
      case block =>
        rw [Addition.sum_mk]
        omega
      case called =>
        intro addition member
        have bound := callee.sum_additions index frame.size
          (frame.freshBlock (1 + arguments.length)).2 addition member
        simp only [Frame.freshBlock] at bound
        omega
      case passed =>
        intro called lowered addition member
        have grown : called.frame.size = frame.size + (1 + arguments.length) + callee.demand :=
          Expression.size_lower lowered
        have bound := sum_argumentAdditions arguments (index + called.functions.length) frame.size 1
          called.frame (by omega) addition member
        omega
  | .unary operator operand _, index, slot, frame => by
      rw [Expression.additions, Expression.demand, Expression.literals]
      refine List.forall_mem_append.mpr ⟨?inner, Addition.forall_mem_behind ?mask⟩
      case inner =>
        intro addition member
        have bound := operand.sum_additions index slot frame addition member
        omega
      case mask =>
        intro value lowered
        have grown := Expression.size_lower lowered
        split
        · rw [List.forall_mem_singleton, Addition.sum_mk]
          omega
        · exact List.forall_mem_nil _
  | .binary _ left right _, index, slot, frame => by
      rw [Expression.additions, Expression.demand, Expression.literals, slotSum_append]
      refine List.forall_mem_append.mpr ⟨?before, Addition.forall_mem_behind ?behind⟩
      case before =>
        intro addition member
        have bound := left.sum_additions index slot frame addition member
        omega
      case behind =>
        intro first lowered addition member
        have grown := Expression.size_lower lowered
        have bound := sum_fresh (right.sum_additions (index + first.functions.length)
          first.frame.size first.frame.fresh.2) addition member
        omega
  | .function parameters body _, index, _, frame => by
      rw [Expression.additions, Expression.demand, Expression.literals, slotSum_cons]
      refine List.forall_mem_append.mpr ⟨?entry, ?inside⟩
      case entry =>
        intro addition member
        have bound := sum_parameterAdditions 0 parameters addition member
        simp only [FunctionSource.demand]
        omega
      case inside =>
        intro addition member
        have bound := sum_bodyAdditions body (index + 1) (.ofParameters parameters) addition member
        rw [Frame.size_ofParameters] at bound
        simp only [FunctionSource.demand]
        omega

/-- Arguments are placed inside their block, which was handed out before. -/
theorem sum_argumentAdditions : ∀ (arguments : List Expression) (index base place : Nat)
    (frame : Frame), base + place + arguments.length ≤ frame.size →
    ∀ addition ∈ argumentAdditions source index frame base place arguments,
      addition.sum ≤ frame.size + argumentDemand arguments + slotSum (argumentLiterals arguments)
  | [], _, _, _, _, _ => List.forall_mem_nil _
  | argument :: arguments, index, base, place, frame, inside => by
      rw [List.length_cons] at inside
      rw [argumentAdditions, argumentDemand, argumentLiterals, slotSum_append]
      refine List.forall_mem_cons.mpr ⟨?here, List.forall_mem_append.mpr
        ⟨?head, Addition.forall_mem_behind ?tail⟩⟩
      case here =>
        rw [Addition.sum_mk]
        omega
      case head =>
        intro addition member
        have bound := argument.sum_additions index (base + place) frame addition member
        omega
      case tail =>
        intro first lowered addition member
        have grown := Expression.size_lower lowered
        have bound := sum_argumentAdditions arguments (index + first.functions.length) base
          (place + 1) first.frame (by omega) addition member
        omega

theorem Statement.sum_additions : ∀ (statement : Statement) (index : Nat) (frame : Frame),
    ∀ addition ∈ statement.additions source index frame,
      addition.sum ≤ frame.size + statement.demand + slotSum statement.literals
  | .declare _ initializer, index, frame =>
      sum_fresh (initializer.sum_additions index frame.size frame.fresh.2)
  | .return value, index, frame => sum_fresh (value.sum_additions index frame.size frame.fresh.2)
  | .assign target value, index, frame => by
      rw [Statement.additions, Statement.demand, Statement.literals, slotSum_append]
      split
      · exact List.forall_mem_nil _
      · intro addition member
        have bound := sum_fresh (value.sum_additions index frame.size frame.fresh.2) addition member
        omega
  | .evaluate value, index, frame => sum_fresh (value.sum_additions index frame.size frame.fresh.2)

/-- **The additions for some statements come to no more** than the frame and the slots of the
statements and of the functions in them. -/
theorem sum_bodyAdditions : ∀ (body : List Statement) (index : Nat) (frame : Frame),
    ∀ addition ∈ bodyAdditions source index frame body,
      addition.sum ≤ frame.size + bodyDemand body + slotSum (bodyLiterals body)
  | [], _, _ => List.forall_mem_nil _
  | statement :: body, index, frame => by
      rw [bodyAdditions, bodyDemand, bodyLiterals, slotSum_append]
      refine List.forall_mem_append.mpr ⟨?head, Addition.forall_mem_behind ?tail⟩
      case head =>
        intro addition member
        have bound := statement.sum_additions index frame addition member
        omega
      case tail =>
        intro first lowered addition member
        have grown := Statement.size_lower lowered
        have bound := sum_bodyAdditions body (index + first.functions.length) first.frame addition
          member
        omega

end

/-- **No sum on the way of lowering a tree is larger than the slots of all its functions.** -/
theorem FunctionSource.sum_additions_le (tree : FunctionSource) :
    ∀ addition ∈ tree.additions source, addition.sum ≤ slotSum tree.functions := by
  rw [slotSum_functions, additions]
  refine List.forall_mem_append.mpr ⟨fun addition member => ?parameters,
    fun addition member => ?body⟩
  case parameters =>
    have bound := sum_parameterAdditions 0 tree.parameters addition member
    omega
  case body =>
    have bound := sum_bodyAdditions tree.body 1 (.ofParameters tree.parameters) addition member
    rw [Frame.size_ofParameters] at bound
    omega

/-! ## Units and sources -/

/-- The frames of a unit are as large as its functions demand, as far as words can say so. -/
theorem Compiled.map_slotCount {index : Nat} {functions : List FunctionSource}
    {routines : List Routine} (compiled : Compiled source index functions routines) :
    routines.map Routine.slotCount =
      functions.map fun function => UInt64.ofNat function.demand := by
  induction compiled with
  | nil => rfl
  | @cons index function body functions routines lowered _ ih =>
      have size : body.frame.size = function.demand := by
        rw [size_lowerStatements lowered, Frame.size_ofParameters, FunctionSource.demand]
      rw [List.map_cons, List.map_cons, ih, ← size]
      rfl

/-- A unit takes no more slots than its tree. -/
theorem FunctionSource.sum_slotCount_le {tree : FunctionSource} {unit : CodeUnit}
    (lowered : tree.lower source = .ok unit) :
    (unit.functions.map fun routine => routine.slotCount.toNat).sum ≤ slotSum tree.functions := by
  have counts := congrArg (List.map UInt64.toNat)
    (FunctionSource.compiled_lower lowered).map_slotCount
  rw [List.map_map, List.map_map] at counts
  calc (unit.functions.map (UInt64.toNat ∘ Routine.slotCount)).sum
      = (tree.functions.map (UInt64.toNat ∘ fun function => .ofNat function.demand)).sum :=
        congrArg List.sum counts
    _ ≤ slotSum tree.functions :=
        List.sum_le_sum fun function _ => UInt64.toNat_ofNat'.trans_le (Nat.mod_le _ _)

namespace Source

theorem tokens_le_size (source : Source) : source.tokens.length ≤ source.size := by
  rw [source.size_eq]
  refine source.length_tokens_le.trans ?_
  induction source.text with
  | nil => exact Nat.le_refl 0
  | cons character text ih =>
      have positive := character.utf8Size_pos
      rw [List.length_cons, Utf8.size_cons]
      omega

/-- The tree of a source takes no more slots than the source has tokens. -/
theorem slotSum_le_tokens (smooth : (Parser.ofSource source).setbacks = []) :
    slotSum (FunctionSource.functions ⟨[], (Parser.ofSource source).found⟩) ≤
      source.tokens.length := by
  rw [FunctionSource.slotSum_functions, List.length_nil, Nat.zero_add]
  exact (bodySlots_le_extent _).trans (extent_le_tokens smooth)

/-- **Frames are within the source.**  The functions of a unit take no more slots together than the
source has tokens, which is no more than it has bytes.  So if the length of the source is a word,
then so is every sum that is formed while its tree is lowered, whether or not a unit comes of it. -/
theorem frames_within_source {σ : Type} [Listener σ] (source : Source) (listener : σ) :
    (∀ unit, (source.compile listener).1 = .ok unit →
      (unit.functions.map fun routine => routine.slotCount.toNat).sum ≤ source.tokens.length) ∧
      source.tokens.length ≤ source.size ∧
      (source.size < 2 ^ 64 → ∀ tree, (source.parse listener).1 = .ok tree →
        ∀ addition ∈ tree.additions source, addition.sum < 2 ^ 64) := by
  refine ⟨?units, source.tokens_le_size, ?sums⟩
  case units =>
    intro unit compiled
    have verdict := verdict_of_compile compiled
    rcases source.verdict_cases with ⟨setback, -, same⟩ | ⟨smooth, same⟩
    · cases same.symm.trans verdict
    · exact (FunctionSource.sum_slotCount_le (same.symm.trans verdict)).trans
        (slotSum_le_tokens smooth)
  case sums =>
    intro fits tree parsed addition member
    by_cases smooth : (Parser.ofSource source).setbacks = []
    · rw [parse_of_smooth listener smooth] at parsed
      cases parsed
      calc addition.sum
          ≤ slotSum (FunctionSource.functions ⟨[], (Parser.ofSource source).found⟩) :=
            FunctionSource.sum_additions_le _ addition member
        _ ≤ source.tokens.length := slotSum_le_tokens smooth
        _ ≤ source.size := source.tokens_le_size
        _ < 2 ^ 64 := fits
    · rw [fst_parse_of_setback listener smooth] at parsed
      cases parsed

/-- A source with a function, and a call among the arguments of another one. -/
def nestedCallsSource : Source :=
  .ofString "var f = function(a, b) \x7b return a \x7d\nreturn call f(1, call f(2, ~3))"

/-- What the nested calls are read as. -/
def nestedCalls : FunctionSource where
  parameters := []
  body :=
    [.declare "f" (.function ["a", "b"] [.return (.name ⟨32, 33⟩)] ⟨8, 16⟩),
      .return (.call (.name ⟨48, 49⟩)
        [.integer ⟨50, 51⟩,
          .call (.name ⟨58, 59⟩) [.integer ⟨60, 61⟩, .unary .invert (.integer ⟨64, 65⟩) ⟨63, 64⟩]])]

/-- The nested calls take nine slots and their function three, from 28 tokens. -/
theorem frames_within_nestedCalls :
    (∃ unit, (nestedCallsSource.compile (Transcript.always .stop)).1 = .ok unit ∧
        unit.functions.map (fun routine => routine.slotCount.toNat) = [9, 3] ∧
        [9, 3].sum ≤ nestedCallsSource.tokens.length) ∧
      nestedCallsSource.tokens.length = 28 ∧ nestedCallsSource.size < 2 ^ 64 ∧
      (nestedCallsSource.parse (Transcript.always .stop)).1 = .ok nestedCalls ∧
      (nestedCalls.additions nestedCallsSource).map Addition.sum =
        [1, 1, 2, 3, 2, 3, 5, 3, 4, 3, 8, 6, 7, 9] ∧
      ∀ addition ∈ nestedCalls.additions nestedCallsSource, addition.sum < 2 ^ 64 := by
  obtain ⟨units, -, sums⟩ := frames_within_source nestedCallsSource (Transcript.always .stop)
  have read : (nestedCallsSource.parse (Transcript.always .stop)).1 = .ok nestedCalls := by
    with_unfolding_all rfl
  obtain ⟨unit, compiled⟩ :
      ∃ unit, (nestedCallsSource.compile (Transcript.always .stop)).1 = .ok unit :=
    ⟨_, by with_unfolding_all rfl⟩
  have slots : unit.functions.map (fun routine => routine.slotCount.toNat) = [9, 3] := by
    have made : (nestedCallsSource.compile (Transcript.always .stop)).1.map
        (fun unit => unit.functions.map fun routine => routine.slotCount.toNat) = .ok [9, 3] := by
      decide +kernel
    rw [compiled] at made
    exact Except.ok.inj made
  have fits : nestedCallsSource.size < 2 ^ 64 := by decide +kernel
  refine ⟨⟨unit, compiled, slots, ?_⟩, by decide +kernel, fits, read, by decide +kernel,
    sums fits nestedCalls read⟩
  rw [← slots]
  exact units unit compiled

end Source

end SlotCompiler
