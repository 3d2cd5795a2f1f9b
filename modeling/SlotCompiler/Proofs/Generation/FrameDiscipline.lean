import SlotCompiler.Proofs.Generation.Verification

/-!
# Code for an expression keeps to its frame

An expression is generated in the middle of a function: names stand for slots, other slots hold
values that are still needed, code was emitted, and functions were completed.  What is generated for
the expression leaves all of it alone.  Its code writes the slot that the value is wanted in and
slots that were not handed out before, and reads nothing else but the slots of names; and it reads
what it does not find in a name only after it has written it (`Frame.KeptBy`).

That it fills these slots and is supplied by the slots of names was said before, for any slots that
hold something (`Expression.fills_lower`).  If these are no more than the slots of names, the reads
fall apart into the two sorts (`Fills.keptBy`).
-/

set_option autoImplicit false

namespace SlotCompiler

/-- The slots that names stand for. -/
def Frame.named (frame : Frame) : Set Nat := {slot | ∃ name, frame.slotOf? name = some slot}

/-- A frame is kept by code that leaves a value in a slot and hands out slots up to a size: the code
writes this slot and slots it has handed out, and reads the slots of names and what it has
written. -/
structure Frame.KeptBy (frame : Frame) (slot size : Nat) (code : List Instruction) : Prop where
  writes : ∀ instruction ∈ code, ∀ other ∈ instruction.writes,
    other = slot ∨ frame.size ≤ other ∧ other < size
  reads : ∀ earlier instruction later, code = earlier ++ instruction :: later →
    ∀ other ∈ instruction.reads, other ∈ frame.named ∧ other < frame.size ∧ other ≠ slot ∨
      (other = slot ∨ frame.size ≤ other ∧ other < size) ∧ other ∈ written earlier

variable {frame : Frame} {slot size : Nat} {code : List Instruction}

/-- What code reads before it writes it must be there from the beginning. -/
theorem Fills.keptBy (fills : Fills frame.named code (insert slot (Set.Ico frame.size size)))
    (handedOut : ∀ other ∈ frame.named, other < frame.size) (unnamed : slot ∉ frame.named) :
    frame.KeptBy slot size code := by
  have mem_iff (other : Nat) : other ∈ written code ↔
      other = slot ∨ frame.size ≤ other ∧ other < size := by
    rw [fills.written_eq, Set.mem_insert_iff, Set.mem_Ico]
  refine ⟨fun instruction member other wrote => (mem_iff other).mp ⟨instruction, member, wrote⟩, ?_⟩
  intro earlier instruction later split other read
  rcases fills.supplied earlier instruction later split other read with present | before
  · refine .inl ⟨present, handedOut other present, ?_⟩
    rintro rfl
    exact unnamed present
  · refine .inr ⟨(mem_iff other).mp ?_, before⟩
    rw [split, written_append]
    exact .inl before

/-- **Code for an expression keeps to its frame.**  Generation has come to some place in a function,
and an expression is wanted in a slot that was handed out and has no name.  If it is lowered, then
behind it the names stand for the same slots, no slot is given back, and the code and the functions
from before are still there, in front of those of the expression.  The code of the expression writes
only the slot and slots handed out for it; it reads only the slots of names, and these others after
it has written them.  Instructions say slots as words, so counting the slots must not overflow. -/
theorem Expression.lower_keeps_frame {source : Source} {expression : Expression} {index slot : Nat}
    {before fragment : Fragment}
    (lowered : expression.lower source index before.frame slot = .ok fragment)
    (small : fragment.frame.size < UInt64.size) (taken : slot < before.frame.size)
    (unnamed : ∀ name, before.frame.slotOf? name ≠ some slot)
    (handedOut : ∀ name other, before.frame.slotOf? name = some other →
      other < before.frame.size) :
    let after := before.append fragment
    after.frame.bindings = before.frame.bindings ∧ before.frame.size ≤ after.frame.size ∧
      before.functions <+: after.functions ∧
      ∃ code, after.code = before.code ++ code ∧
        before.frame.KeptBy slot after.frame.size code := by
  intro after
  have bound : ∀ other ∈ before.frame.named, other < before.frame.size := by
    rintro other ⟨word, found⟩
    exact handedOut word other found
  have names : before.frame.NamesIn before.frame.named :=
    fun word other found => ⟨⟨word, found⟩, handedOut word other found⟩
  have apart : slot ∉ before.frame.named := by
    rintro ⟨word, found⟩
    exact unnamed word found
  have same : after.frame.bindings = before.frame.bindings := by
    show fragment.frame.bindings = _
    rw [expression.frame_lower lowered]
  have grown : before.frame.size ≤ fragment.frame.size := Expression.size_le_lower lowered
  exact ⟨same, grown, List.prefix_append _ _, fragment.code, rfl,
    (expression.fills_lower lowered names taken small).keptBy bound apart⟩

/-! ## A call of a function literal -/

/-- A place in a function whose parameter is `a`, behind a slot that was handed out for a value. -/
def insideNestedLiterals : Fragment where
  frame := ⟨[("a", 0)], 2⟩
  code := [.setNull 1]
  functions := [⟨0, []⟩]

/-- The call of the inner one of the nested literals, with an argument that is computed of `a`. -/
def innerCall : Expression :=
  .call (.function ["b"] [.return (.unary .invert (.name ⟨56, 57⟩) ⟨55, 56⟩)] ⟨34, 42⟩)
    [.binary .subtract (.name ⟨60, 61⟩) (.integer ⟨64, 65⟩) ⟨62, 63⟩]

/-- The call takes slots 2 to 4 and leaves its value in slot 1. -/
theorem innerCall_keeps_frame : ∃ fragment,
    innerCall.lower nestedLiteralsSource 2 insideNestedLiterals.frame 1 = .ok fragment ∧
      fragment.frame.size < UInt64.size ∧ 1 < insideNestedLiterals.frame.size ∧
      (∀ name, insideNestedLiterals.frame.slotOf? name ≠ some 1) ∧
      (∀ name other, insideNestedLiterals.frame.slotOf? name = some other → other < 2) ∧
      (insideNestedLiterals.append fragment).frame = ⟨[("a", 0)], 5⟩ ∧
      ∃ code, (insideNestedLiterals.append fragment).code = [.setNull 1] ++ code ∧
        code = [.setFunction 2 2, .copy 3 0, .setFromConstant 4 1, .negate 4, .add 3 4, .call 2 1,
          .copy 1 2] ∧
        insideNestedLiterals.frame.KeptBy 1 5 code := by
  obtain ⟨fragment, lowered, frame, code⟩ : ∃ fragment,
      innerCall.lower nestedLiteralsSource 2 insideNestedLiterals.frame 1 = .ok fragment ∧
        fragment.frame = ⟨[("a", 0)], 5⟩ ∧
        fragment.code = [.setFunction 2 2, .copy 3 0, .setFromConstant 4 1, .negate 4, .add 3 4,
          .call 2 1, .copy 1 2] := ⟨_, rfl, rfl, rfl⟩
  have names : ∀ name other, insideNestedLiterals.frame.slotOf? name = some other → other = 0 := by
    intro name other found
    rw [Frame.slotOf?, insideNestedLiterals, List.lookup_cons] at found
    split at found
    · cases found
      rfl
    · cases found
  have small : fragment.frame.size < UInt64.size := by
    rw [frame]
    decide
  have unnamed : ∀ name, insideNestedLiterals.frame.slotOf? name ≠ some 1 :=
    fun name found => absurd (names name 1 found) (by decide)
  have handedOut : ∀ name other, insideNestedLiterals.frame.slotOf? name = some other →
      other < insideNestedLiterals.frame.size := by
    intro name other found
    rw [names name other found]
    decide
  obtain ⟨-, -, -, emitted, same, kept⟩ :=
    Expression.lower_keeps_frame lowered small (by decide) unnamed handedOut
  have emitted_eq : emitted = fragment.code := (List.append_cancel_left same).symm
  subst emitted_eq
  have kept : insideNestedLiterals.frame.KeptBy 1 fragment.frame.size fragment.code := kept
  rw [frame] at kept
  exact ⟨fragment, lowered, small, by decide, unnamed, handedOut, frame, fragment.code, rfl, code,
    kept⟩

end SlotCompiler
