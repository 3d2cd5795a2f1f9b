import SlotCompiler.Source
import SlotCompiler.Tree.Basic

/-!
# Frames

The frame of a function during code generation: which slot each name stands for, and how many
slots have been handed out.  Slots are handed out in order and never taken back, and a frame
has no surrounding frame.
-/

set_option autoImplicit false

namespace SlotCompiler

/-- The names and the slots of a function. -/
structure Frame where
  /-- Slots by name; the latest binding of a name is the first. -/
  bindings : List (String × Nat) := []
  /-- The number of slots handed out, which is also the next slot. -/
  size : Nat := 0
  deriving DecidableEq, Repr

namespace Frame

/-- Hands out consecutive slots, and gives the first. -/
def freshBlock (count : Nat) (frame : Frame) : Nat × Frame :=
  (frame.size, { frame with size := frame.size + count })

/-- Hands out a slot. -/
def fresh (frame : Frame) : Nat × Frame := frame.freshBlock 1

/-- Lets a name stand for a slot, whatever it stood for before. -/
def bind (name : String) (slot : Nat) (frame : Frame) : Frame :=
  { frame with bindings := (name, slot) :: frame.bindings }

/-- Hands out a slot and lets a name stand for it. -/
def introduce (name : String) (frame : Frame) : Nat × Frame :=
  let (slot, frame) := frame.fresh
  (slot, frame.bind name slot)

/-- The slot that a name stands for. -/
def slotOf? (frame : Frame) (name : String) : Option Nat := frame.bindings.lookup name

/-- The frame of a function with parameters, before its body. -/
def ofParameters (parameters : List String) : Frame :=
  parameters.foldl (fun frame name => (frame.introduce name).2) {}

/-- The slot that an assignment to an expression changes; only names have one. -/
def targetOf? (frame : Frame) (source : Source) : Expression → Option Nat
  | .name span => frame.slotOf? (source.extract span)
  | _ => none

end Frame

end SlotCompiler
