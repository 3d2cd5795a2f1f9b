import SlotCompiler.Wire.Unit

/-!
# Writing a unit out

A writer takes bytes, perhaps only some of those that it is given.  Saving a unit writes what is
left again and again until all of it is taken or the writer fails, and then flushes the writer.

A sink is a writer that keeps what it takes; it takes only some bytes at a time and only so many in
all, if it is told to.
-/

set_option autoImplicit false

namespace SlotCompiler

/-- Places to write bytes to. -/
class Writer (σ : Type) where
  /-- Takes some of the bytes, from the front, and says how many, or fails. -/
  write : σ → List UInt8 → Option (Nat × σ)
  /-- Passes on what was taken, and says whether that went well. -/
  flush : σ → Bool × σ

/-- Why a unit was not written out. -/
inductive SaveFailure where
  | write
  deriving DecidableEq, Repr

/-- The message about a unit that was not written out. -/
def SaveFailure.message : SaveFailure → String
  | .write => "could not write unit"

namespace Writer

variable {σ : Type} [Writer σ]

/-- Writes bytes until all are taken, the writer fails, or it takes none. -/
def writeAll (writer : σ) (bytes : List UInt8) : Bool × σ :=
  if bytes = [] then (true, writer)
  else
    match write writer bytes with
    | none => (false, writer)
    | some (0, writer) => (false, writer)
    | some (count + 1, writer) => writeAll writer (bytes.drop (count + 1))
termination_by bytes.length
decreasing_by
  have := List.length_pos_iff.mpr ‹bytes ≠ []›
  rw [List.length_drop]
  omega

/-- Writes a unit out. -/
def save (writer : σ) (unit : CodeUnit) : Except SaveFailure Unit × σ :=
  match writeAll writer unit.encode with
  | (false, writer) => (.error .write, writer)
  | (true, writer) =>
    let (flushed, writer) := flush writer
    (if flushed then .ok () else .error .write, writer)

end Writer

/-- A writer that keeps the bytes that it takes. -/
structure Sink where
  /-- The most bytes taken at a time, if there is a bound. -/
  chunk : Option Nat := none
  /-- The most bytes taken in all, if there is a bound. -/
  limit : Option Nat := none
  /-- Whether flushing succeeds. -/
  flushes : Bool := true
  /-- The bytes taken so far. -/
  written : List UInt8 := []
  deriving DecidableEq, Repr

namespace Sink

/-- The smaller of a number and a bound, if there is one. -/
def within (bound : Option Nat) (count : Nat) : Nat :=
  match bound with
  | none => count
  | some bound => min bound count

/-- Takes some of the bytes and says how many, or fails when it is full. -/
def write (sink : Sink) (bytes : List UInt8) : Option (Nat × Sink) :=
  let room := sink.limit.map (· - sink.written.length)
  if room = some 0 then none
  else
    let count := within room (within sink.chunk bytes.length)
    some (count, { sink with written := sink.written ++ bytes.take count })

instance : Writer Sink where
  write := write
  flush sink := (sink.flushes, sink)

/-- Writes a unit out to a sink. -/
def save (sink : Sink) (unit : CodeUnit) : Except SaveFailure Unit × Sink :=
  Writer.save sink unit

end Sink

end SlotCompiler
