/-!
# Spans

A span names the bytes of a text from one offset up to another.  Spans are plain values:
nothing says that the offsets are in order, or that they lie in a given text.
-/

set_option autoImplicit false

namespace SlotCompiler

/-- The bytes from `start` up to but not including `stop`. -/
structure Span where
  start : Nat
  stop : Nat
  deriving DecidableEq, Repr, Inhabited

namespace Span

/-- The empty span at an offset. -/
def point (offset : Nat) : Span := ⟨offset, offset⟩

end Span

end SlotCompiler
