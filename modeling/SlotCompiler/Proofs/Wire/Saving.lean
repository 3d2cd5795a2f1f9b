import SlotCompiler.Proofs.Wire.RoundTrip
import SlotCompiler.Proofs.Wire.Truncation
import SlotCompiler.Wire.Sink

/-!
# Torn writes

A writer of which only its room is known (`Writer.Takes`) may take as few bytes at a time as it
likes.  It has taken the bytes of a unit from the front when saving ends, without gap or repetition,
and stops short only where its room ends (`Writer.Takes.writeAll_eq`).  No proper beginning of a
unit file is itself a unit file.  So what is left of a unit that was not written out as a whole is
never loaded as a unit, whatever the sizes of the single writes were and whatever came of flushing
(`Writer.Takes.torn_save_detected`).
-/

set_option autoImplicit false

namespace SlotCompiler

/-! ## Bounds -/

namespace Sink

variable {bound : Option Nat} {count : Nat}

theorem within_le (bound : Option Nat) (count : Nat) : within bound count ≤ count := by
  cases bound with
  | none => exact Nat.le_refl count
  | some most => exact Nat.min_le_right most count

theorem within_mono (bound : Option Nat) {part : Nat} (le : part ≤ count) :
    within bound part ≤ within bound count := by
  cases bound with
  | none => exact le
  | some most =>
      simp only [within]
      omega

theorem within_eq_iff : within bound count = count ↔ ∀ most ∈ bound, count ≤ most := by
  cases bound with
  | none => simp [within]
  | some most =>
      simp only [within, Option.mem_some_iff, forall_eq']
      omega

theorem within_pos (some : bound ≠ some 0) (positive : 0 < count) : 0 < within bound count := by
  cases bound with
  | none => exact positive
  | some most =>
      have room : most ≠ 0 := by
        rintro rfl
        exact some rfl
      simp only [within]
      omega

/-- What has been taken is no longer to be taken, and takes as much room. -/
theorem within_sub {part : Nat} (inside : part ≤ within bound count) :
    part + within (bound.map (· - part)) (count - part) = within bound count := by
  cases bound with
  | none =>
      simp only [within, Option.map_none] at inside ⊢
      omega
  | some most =>
      simp only [within, Option.map_some] at inside ⊢
      omega

end Sink

namespace Writer

variable {σ : Type} [Writer σ]

/-- The writers of a kind take bytes as long as they have room, which is without bound for some:
`taken` is what a writer has taken.  A write takes the first few of the bytes that it is given, at
least one and no more than there is room for, and fails if there is no room left.  Flushing takes
nothing, and may fail. -/
structure Takes (kind : σ → Prop) (taken : σ → List UInt8) (room : σ → Option Nat) : Prop where
  takes : ∀ writer bytes, kind writer → bytes ≠ [] → room writer ≠ some 0 →
    ∃ count next, write writer bytes = some (count, next) ∧ kind next ∧ 0 < count ∧
      count ≤ Sink.within (room writer) bytes.length ∧
      taken next = taken writer ++ bytes.take count ∧ room next = (room writer).map (· - count)
  fails : ∀ writer bytes, kind writer → bytes ≠ [] → room writer = some 0 →
    write writer bytes = none
  flushes : ∀ writer, taken (flush writer).2 = taken writer

/-- Sinks that take any bytes at all at a time take bytes up to their limit. -/
theorem takes_sink : Takes (fun sink : Sink => sink.chunk ≠ some 0) Sink.written
    fun sink => sink.limit.map (· - sink.written.length) where
  takes := by
    intro sink bytes some more room
    have chunk := Sink.within_le sink.chunk bytes.length
    have inside := Sink.within_mono (sink.limit.map (· - sink.written.length)) chunk
    have le := Nat.le_trans inside (Sink.within_le _ _)
    refine ⟨_, _, if_neg room, some, ?_, inside, rfl, ?_⟩
    · exact Sink.within_pos room (Sink.within_pos some (List.length_pos_iff.mpr more))
    · simp [Function.comp_def, Nat.sub_add_eq, Nat.min_eq_left le]
  fails := by
    intro sink bytes _ _ full
    exact if_pos full
  flushes := fun _ => rfl

section WriteAll

variable {writer next : σ} {bytes : List UInt8}

theorem writeAll_nil (writer : σ) : writeAll writer [] = (true, writer) := by
  rw [writeAll, if_pos rfl]

theorem writeAll_of_none (more : bytes ≠ []) (full : write writer bytes = none) :
    writeAll writer bytes = (false, writer) := by
  rw [writeAll, if_neg more, full]

/-- A write that takes some bytes leaves the others to be written. -/
theorem writeAll_of_some {count : Nat} (more : bytes ≠ []) (positive : 0 < count)
    (took : write writer bytes = some (count, next)) :
    writeAll writer bytes = writeAll next (bytes.drop count) := by
  obtain ⟨count, rfl⟩ := Nat.exists_eq_succ_of_ne_zero (Nat.ne_of_gt positive)
  rw [writeAll, if_neg more, took]

end WriteAll

namespace Takes

variable {kind : σ → Prop} {taken : σ → List UInt8} {room : σ → Option Nat}

/-- **Writing takes the bytes from the front, as far as there is room**, and is complete if there is
room for all of them. -/
theorem writeAll_eq (takes : Takes kind taken room) (writer : σ) (bytes : List UInt8)
    (known : kind writer) :
    taken (writeAll writer bytes).2 =
        taken writer ++ bytes.take (Sink.within (room writer) bytes.length) ∧
      ((writeAll writer bytes).1 = true ↔
        Sink.within (room writer) bytes.length = bytes.length) := by
  -- every write leaves fewer bytes
  induction length : bytes.length using Nat.strongRecOn generalizing writer bytes with
  | ind total ih =>
      subst length
      by_cases more : bytes = []
      · subst more
        have none : Sink.within (room writer) 0 = 0 := Nat.le_zero.mp (Sink.within_le _ 0)
        simp [writeAll_nil, none]
      by_cases full : room writer = some 0
      · rw [writeAll_of_none more (takes.fails writer bytes known more full), full]
        simp [Sink.within, eq_comm, more]
      · obtain ⟨count, next, took, same, some, inside, behind, left⟩ :=
          takes.takes writer bytes known more full
        have shorter : (bytes.drop count).length < bytes.length := by
          have positive := List.length_pos_iff.mpr more
          rw [List.length_drop]
          omega
        obtain ⟨written, complete⟩ := ih _ shorter next (bytes.drop count) same rfl
        rw [left, List.length_drop] at written complete
        have total := Sink.within_sub inside
        have le := Nat.le_trans inside (Sink.within_le _ _)
        rw [writeAll_of_some more some took, complete, written, behind, ← total,
          List.append_assoc, List.take_add]
        refine ⟨rfl, ?_⟩
        omega

/-- **Saving a unit** takes its bytes from the front, as far as there is room.  It succeeds if there
is room for all of them and flushing succeeds, and fails otherwise. -/
theorem save_eq (takes : Takes kind taken room) {writer : σ} (known : kind writer)
    (fresh : taken writer = []) (unit : CodeUnit) :
    taken (save writer unit).2 =
        unit.encode.take (Sink.within (room writer) unit.encode.length) ∧
      (save writer unit).1 =
        if (∀ most ∈ room writer, unit.encode.length ≤ most) ∧
          (flush (writeAll writer unit.encode).2).1 = true then .ok () else .error .write := by
  obtain ⟨written, complete⟩ := takes.writeAll_eq writer unit.encode known
  rw [fresh, List.nil_append] at written
  rw [Sink.within_eq_iff] at complete
  unfold save
  cases ends : writeAll writer unit.encode with
  | mk whole behind =>
      rw [ends] at written complete
      cases whole with
      | false =>
          have cut := mt complete.mpr Bool.false_ne_true
          exact ⟨written, (if_neg fun both => cut both.1).symm⟩
      | true =>
          have flushed := takes.flushes behind
          refine ⟨flushed.trans written, ?_⟩
          simp only [and_iff_right (complete.mp rfl)]

/-- **Torn writes are detected.** Saving a unit to a writer that has taken nothing yet leaves there
as many of the first bytes of the unit as the writer has room for.  It succeeds exactly if there is
room for all of them and flushing succeeds.  The unit is loaded again from what was taken if saving
succeeded, and nothing is if some bytes were not taken: the file ends too early. -/
theorem torn_save_detected (takes : Takes kind taken room) {writer : σ} (known : kind writer)
    (fresh : taken writer = []) (unit : CodeUnit) :
    let (outcome, after) := save writer unit
    taken after = unit.encode.take (Sink.within (room writer) unit.encode.length) ∧
      (outcome = .ok () ↔ (∀ most ∈ room writer, unit.encode.length ≤ most) ∧
        (flush (writeAll writer unit.encode).2).1 = true) ∧
      (outcome ≠ .ok () → outcome = .error .write) ∧
      (unit.CountsFit →
        (outcome = .ok () → CodeUnit.load (taken after) = .ok unit) ∧
        (taken after ≠ unit.encode →
          CodeUnit.load (taken after) = .error (.malformed .endOfBuffer))) := by
  obtain ⟨written, outcome⟩ := takes.save_eq known fresh unit
  dsimp only
  rw [written, outcome]
  refine ⟨rfl, ?_, ?_, fun fit => ?_⟩
  · split
    · rename_i both
      exact ⟨fun _ => both, fun _ => rfl⟩
    · rename_i cut
      exact ⟨nofun, fun both => absurd both cut⟩
  · intro failed
    exact if_neg fun both => failed (if_pos both)
  · have loaded := CodeUnit.load_eq_ok_iff.mpr (CodeUnit.unitForm_encode fit)
    constructor
    · intro succeeded
      have all : ∀ most ∈ room writer, unit.encode.length ≤ most := by
        by_contra cut
        rw [if_neg fun both => cut both.1] at succeeded
        cases succeeded
      rw [Sink.within_eq_iff.mpr all, List.take_length]
      exact loaded
    · intro torn
      have whole := List.take_append_drop
        (Sink.within (room writer) unit.encode.length) unit.encode
      rw [← whole] at loaded
      refine CodeUnit.load_of_proper_prefix (fun none => torn ?_) loaded
      rw [none, List.append_nil] at whole
      exact whole

/-- A sink that takes three bytes at a time and ten in all is left with the first ten bytes, which
are no unit file.  A sink that has room for all and cannot be flushed is left with the unit file. -/
theorem torn_save_detected_sinks :
    let unit : CodeUnit := ⟨[⟨1, [.setNull 0, .return 0]⟩]⟩
    let narrow : Sink := ⟨some 3, some 10, true, []⟩
    let wide : Sink := ⟨some 3, some 36, false, []⟩
    narrow.chunk ≠ some 0 ∧ wide.chunk ≠ some 0 ∧ unit.CountsFit ∧
      (narrow.save unit).1 = .error .write ∧ (narrow.save unit).2.written = unit.encode.take 10 ∧
      CodeUnit.load (narrow.save unit).2.written = .error (.malformed .endOfBuffer) ∧
      (wide.save unit).1 = .error .write ∧ (wide.save unit).2.written = unit.encode := by
  intro unit narrow wide
  have length : unit.encode.length = 36 := by decide +kernel
  have fit : unit.CountsFit := ⟨by decide, by decide⟩
  obtain ⟨left, complete, failed, loads⟩ :=
    @torn_save_detected _ _ _ _ _ takes_sink narrow nofun rfl unit
  obtain ⟨leftWide, completeWide, failedWide, -⟩ :=
    @torn_save_detected _ _ _ _ _ takes_sink wide nofun rfl unit
  rw [length] at left complete leftWide completeWide
  have torn : (narrow.save unit).1 ≠ .ok () := fun whole =>
    absurd ((complete.mp whole).1 10 rfl) (by decide)
  have unflushed : (wide.save unit).1 ≠ .ok () := by decide +kernel
  have cut : unit.encode.take 10 ≠ unit.encode := by decide +kernel
  have early := (loads fit).2 (left ▸ cut)
  have whole : unit.encode.take 36 = unit.encode := List.take_of_length_le (Nat.le_of_eq length)
  exact ⟨nofun, nofun, fit, failed torn, left, early, failedWide unflushed,
    leftWide.trans whole⟩

end Takes

end Writer

end SlotCompiler
