import Mathlib.Data.List.Perm.Basic
import SlotCompiler.Proofs.Tree.Literals

/-!
# Numbered literals

The literals of a tree are numbered in the order in which they begin, so a literal comes before the
literals inside it.  A piece of a tree contains some of its literals directly, outside of all others
(`Expression.outermost`), and every other literal is directly inside one of them or of the literals
in them: each literal is listed exactly once, with its number (`bodyOutermost_perm`).
-/

set_option autoImplicit false

namespace SlotCompiler

/-! ## Literals outside of all others -/

mutual

/-- The literals of an expression that are inside no other one, with their numbers.  The first
literal has the number `index`. -/
def Expression.outermost (index : Nat) : Expression → List (FunctionSource × Nat)
  | .name _ => []
  | .integer _ => []
  | .null _ => []
  | .call callee arguments =>
    callee.outermost index ++ argumentOutermost (index + callee.literals.length) arguments
  | .unary _ operand _ => operand.outermost index
  | .binary _ left right _ =>
    left.outermost index ++ right.outermost (index + left.literals.length)
  | .function parameters body _ => [(⟨parameters, body⟩, index)]

/-- The literals of some expressions that are inside no other one. -/
def argumentOutermost (index : Nat) : List Expression → List (FunctionSource × Nat)
  | [] => []
  | argument :: arguments =>
    argument.outermost index ++ argumentOutermost (index + argument.literals.length) arguments

end

/-- The literals of a statement that are inside no other one. -/
def Statement.outermost (index : Nat) : Statement → List (FunctionSource × Nat)
  | .declare _ initializer => initializer.outermost index
  | .return value => value.outermost index
  | .assign target value =>
    target.outermost index ++ value.outermost (index + target.literals.length)
  | .evaluate value => value.outermost index

/-- The literals of some statements that are inside no other one. -/
def bodyOutermost (index : Nat) : List Statement → List (FunctionSource × Nat)
  | [] => []
  | statement :: statements =>
    statement.outermost index ++ bodyOutermost (index + statement.literals.length) statements

/-- The literals directly inside a function with a number.  They come behind the function. -/
def FunctionSource.outermost (index : Nat) (function : FunctionSource) :
    List (FunctionSource × Nat) := bodyOutermost (index + 1) function.body

/-- The literals directly inside functions with consecutive numbers. -/
def innerLiterals (index : Nat) (functions : List FunctionSource) : List (FunctionSource × Nat) :=
  (functions.zipIdx index).flatMap fun literal => literal.1.outermost literal.2

/-! ## Every literal once -/

/-- Some literals and the literals directly inside all literals of a piece are these literals, each
of them once and with its number. -/
def ListsOnce (index : Nat) (outermost : List (FunctionSource × Nat))
    (literals : List FunctionSource) : Prop :=
  (outermost ++ innerLiterals index literals).Perm (literals.zipIdx index)

theorem listsOnce_nil (index : Nat) : ListsOnce index [] [] := .nil

/-- Pieces that stand one behind the other are numbered one behind the other. -/
theorem ListsOnce.append {index : Nat} {outermost further : List (FunctionSource × Nat)}
    {literals others : List FunctionSource} (first : ListsOnce index outermost literals)
    (second : ListsOnce (index + literals.length) further others) :
    ListsOnce index (outermost ++ further) (literals ++ others) := by
  have joined := List.Perm.append first second
  rw [← List.zipIdx_append] at joined
  refine List.Perm.trans ?_ joined
  rw [innerLiterals, List.zipIdx_append, List.flatMap_append, List.append_assoc,
    List.append_assoc]
  exact .append_left _ (List.perm_append_comm_assoc _ _ _)

/-- A literal is numbered in front of what is inside it. -/
theorem ListsOnce.literal {index : Nat} {function : FunctionSource}
    (inside : ListsOnce (index + 1) (function.outermost index) (bodyLiterals function.body)) :
    ListsOnce index [(function, index)] (function :: bodyLiterals function.body) :=
  inside.cons (function, index)

mutual

/-- **Every literal of an expression is listed once**: outside of all others, or directly inside one
literal of the expression. -/
theorem Expression.outermost_perm : ∀ (expression : Expression) (index : Nat),
    ListsOnce index (expression.outermost index) expression.literals
  | .name _, index => listsOnce_nil index
  | .integer _, index => listsOnce_nil index
  | .null _, index => listsOnce_nil index
  | .call callee arguments, index =>
      (callee.outermost_perm index).append (argumentOutermost_perm arguments _)
  | .unary _ operand _, index => operand.outermost_perm index
  | .binary _ left right _, index =>
      (left.outermost_perm index).append (right.outermost_perm _)
  | .function _ body _, index => .literal (bodyOutermost_perm body (index + 1))

theorem argumentOutermost_perm : ∀ (arguments : List Expression) (index : Nat),
    ListsOnce index (argumentOutermost index arguments) (argumentLiterals arguments)
  | [], index => listsOnce_nil index
  | argument :: arguments, index =>
      (argument.outermost_perm index).append (argumentOutermost_perm arguments _)

theorem Statement.outermost_perm : ∀ (statement : Statement) (index : Nat),
    ListsOnce index (statement.outermost index) statement.literals
  | .declare _ initializer, index => initializer.outermost_perm index
  | .return value, index => value.outermost_perm index
  | .assign target value, index =>
      (target.outermost_perm index).append (value.outermost_perm _)
  | .evaluate value, index => value.outermost_perm index

/-- Every literal of some statements is listed once. -/
theorem bodyOutermost_perm : ∀ (body : List Statement) (index : Nat),
    ListsOnce index (bodyOutermost index body) (bodyLiterals body)
  | [], index => listsOnce_nil index
  | statement :: body, index =>
      (statement.outermost_perm index).append (bodyOutermost_perm body _)

end

namespace FunctionSource

variable (tree : FunctionSource)

/-- **Every literal is directly inside one function of the tree**, where it is listed with its
number. -/
theorem innerLiterals_functions :
    (innerLiterals 0 tree.functions).Perm ((bodyLiterals tree.body).zipIdx 1) :=
  bodyOutermost_perm tree.body 1

/-- A literal directly inside a function of the tree is the function with its number. -/
theorem getElem?_of_mem_outermost {function : FunctionSource} {index : Nat}
    (found : tree.functions[index]? = some function) :
    ∀ literal ∈ function.outermost index, tree.functions[literal.2]? = some literal.1 := by
  intro literal member
  have listed : literal ∈ innerLiterals 0 tree.functions :=
    List.mem_flatMap.mpr ⟨(function, index), List.mem_zipIdx_iff_getElem?.mpr found, member⟩
  have inside := tree.innerLiterals_functions.mem_iff.mp listed
  refine List.mem_zipIdx_iff_getElem?.mp ?_
  rw [functions, List.zipIdx_cons]
  exact List.mem_cons_of_mem _ inside

end FunctionSource

end SlotCompiler
