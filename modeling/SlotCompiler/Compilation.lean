import SlotCompiler.Generation.Lowering
import SlotCompiler.Parsing.Parser

/-!
# Compilation

A source is parsed into a tree and the tree is lowered to a unit.  Every diagnostic on the way
goes to the listener, and there is a unit only if there was none: a tree with parts left out is
not lowered.  Lowering gives up at its first problem, whatever the listener answers.
-/

set_option autoImplicit false

namespace SlotCompiler

/-- The failure of a compilation, whose reasons went to the listener. -/
inductive Rejection where
  | problemsFound
  deriving DecidableEq, Repr

/-- The message about a failed compilation. -/
def Rejection.message : Rejection → String
  | .problemsFound => "compilation failed"

namespace Source

variable {σ : Type} [Listener σ]

/-- Parses a source, which must be free of problems. -/
def parse (source : Source) (listener : σ) : Except Rejection FunctionSource × σ :=
  match Parser.unit listener (.ofSource source) with
  | (.ok tree, parser, listener) =>
    (if parser.recovered = 0 then .ok tree else .error .problemsFound, listener)
  | (.error _, _, listener) => (.error .problemsFound, listener)

/-- Lowers the tree of a source. -/
def generate (source : Source) (tree : FunctionSource) (listener : σ) :
    Except Rejection CodeUnit × σ :=
  match tree.lower source with
  | .ok unit => (.ok unit, listener)
  | .error diagnostic => (.error .problemsFound, (Listener.tell listener diagnostic).2)

/-- Compiles a source. -/
def compile (source : Source) (listener : σ) : Except Rejection CodeUnit × σ :=
  match source.parse listener with
  | (.ok tree, listener) => source.generate tree listener
  | (.error rejection, listener) => (.error rejection, listener)

end Source

end SlotCompiler
