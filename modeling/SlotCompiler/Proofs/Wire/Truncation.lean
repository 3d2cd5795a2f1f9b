import SlotCompiler.Proofs.Wire.RoundTrip

/-!
# Truncated and corrupted bytes

A reader goes through bytes from the front, and stops at the first fault.  So bytes behind a fault
change nothing; and where the bytes end too early, nothing was wrong with them, since some bytes
that could come next complete a value (`Incremental`).  A reader for which there is any value at
all is `Viable`, and viable readers can stand one behind the other (`Viable.bind`).

All readers of the wire form are viable.  Therefore a file that ends too early is told apart from
one that is wrong: the proper beginnings of unit files are exactly the bytes behind a correct header
at whose end more data is expected (`CodeUnit.load_truncated_iff`).
-/

set_option autoImplicit false

namespace SlotCompiler

namespace Wire

section Incremental

variable {α β : Type}

/-- A reader that goes through bytes from the front.  Bytes behind a fault make no difference, and
where bytes are missing, there are some that complete a value. -/
structure Incremental (reader : Reader α) : Prop where
  append_of_fault : ∀ {bytes : List UInt8} {cause : DecodeError}, reader bytes = .error cause →
    cause ≠ .endOfBuffer → ∀ more, reader (bytes ++ more) = .error cause
  completes : ∀ {bytes : List UInt8}, reader bytes = .error .endOfBuffer →
    ∃ more value, reader (bytes ++ more) = .ok (value, [])

/-- An incremental reader that takes some value. -/
structure Viable (reader : Reader α) : Prop extends Incremental reader where
  some : ∃ bytes value, reader bytes = .ok (value, [])

variable {reader : Reader α} {form : α → List UInt8 → Prop}

/-- Bytes behind a value stay where they are. -/
theorem Recognises.append_of_ok (recognises : Recognises reader form) {bytes rest : List UInt8}
    {value : α} (done : reader bytes = .ok (value, rest)) (more : List UInt8) :
    reader (bytes ++ more) = .ok (value, rest ++ more) := by
  obtain ⟨front, holds, rfl⟩ := (recognises bytes value rest).mp done
  exact (recognises _ value (rest ++ more)).mpr ⟨front, holds, List.append_assoc _ _ _⟩

/-- **Where a reader stands in front of the last part of its bytes**: it has taken its value
already, or it expects more. -/
theorem Incremental.of_append (incremental : Incremental reader)
    (recognises : Recognises reader form) {bytes more rest : List UInt8} {value : α}
    (done : reader (bytes ++ more) = .ok (value, rest)) :
    reader bytes = .error .endOfBuffer ∨
      ∃ left, reader bytes = .ok (value, left) ∧ left ++ more = rest := by
  cases early : reader bytes with
  | error cause =>
      left
      by_contra other
      have fault : cause ≠ .endOfBuffer := fun same => other (congrArg Except.error same)
      cases (incremental.append_of_fault early fault more).symm.trans done
  | ok found =>
      obtain ⟨value', left⟩ := found
      cases (recognises.append_of_ok early more).symm.trans done
      exact .inr ⟨left, rfl, rfl⟩

/-- A reader expects more data in front of the last part of a whole value. -/
theorem Incremental.endOfBuffer_of_append (incremental : Incremental reader)
    (recognises : Recognises reader form) {bytes more : List UInt8} {value : α} (cut : more ≠ [])
    (done : reader (bytes ++ more) = .ok (value, [])) : reader bytes = .error .endOfBuffer := by
  rcases incremental.of_append recognises done with early | ⟨left, -, rest⟩
  · exact early
  · exact absurd (List.append_eq_nil_iff.mp rest).2 cut

/-! ## Steps -/

theorem incremental_throw {cause : DecodeError} (fault : cause ≠ .endOfBuffer) :
    Incremental (throw cause : Reader α) where
  append_of_fault failed _ _ := failed
  completes {bytes} failed := by
    change Except.error cause = Except.error .endOfBuffer at failed
    cases failed
    exact absurd rfl fault

theorem viable_pure (value : α) : Viable (pure value : Reader α) where
  append_of_fault failed := by cases failed
  completes failed := by cases failed
  some := ⟨[], value, rfl⟩

/-- **One step after another is incremental** if both steps are, and if the second one goes on from
some completion of the first. -/
theorem Incremental.bind (first : Incremental reader) (recognises : Recognises reader form)
    {next : α → Reader β} (second : ∀ value, Incremental (next value))
    (goesOn : ∀ bytes, reader bytes = .error .endOfBuffer → ∃ more value,
      reader (bytes ++ more) = .ok (value, []) ∧
        ∃ behind result, next value behind = .ok (result, [])) :
    Incremental (reader >>= next) where
  append_of_fault {bytes cause} failed fault more := by
    change (reader bytes).bind (fun found => next found.1 found.2) = _ at failed
    change (reader (bytes ++ more)).bind (fun found => next found.1 found.2) = _
    cases early : reader bytes with
    | error other =>
        rw [early] at failed
        cases failed
        rw [first.append_of_fault early fault]
        rfl
    | ok found =>
        rw [early] at failed
        rw [recognises.append_of_ok early]
        exact (second found.1).append_of_fault failed fault more
  completes {bytes} failed := by
    change (reader bytes).bind (fun found => next found.1 found.2) = _ at failed
    cases early : reader bytes with
    | error other =>
        rw [early] at failed
        cases failed
        obtain ⟨more, value, done, behind, result, further⟩ := goesOn bytes early
        refine ⟨more ++ behind, result, ?_⟩
        change (reader (bytes ++ (more ++ behind))).bind (fun found => next found.1 found.2) = _
        rw [← List.append_assoc, recognises.append_of_ok done]
        exact further
    | ok found =>
        rw [early] at failed
        obtain ⟨more, result, done⟩ := (second found.1).completes failed
        refine ⟨more, result, ?_⟩
        change (reader (bytes ++ more)).bind (fun found => next found.1 found.2) = _
        rw [recognises.append_of_ok early]
        exact done

/-- One viable step after another, whatever the value of the first, is viable. -/
theorem Viable.bind (first : Viable reader) (recognises : Recognises reader form)
    {next : α → Reader β} (second : ∀ value, Viable (next value)) : Viable (reader >>= next) where
  toIncremental := by
    refine first.toIncremental.bind recognises (fun value => (second value).toIncremental) ?_
    intro bytes early
    obtain ⟨more, value, done⟩ := first.completes early
    exact ⟨more, value, done, (second value).some⟩
  some := by
    obtain ⟨bytes, value, done⟩ := first.some
    obtain ⟨behind, result, further⟩ := (second value).some
    refine ⟨bytes ++ behind, result, ?_⟩
    change (reader (bytes ++ behind)).bind (fun found => next found.1 found.2) = _
    rw [recognises.append_of_ok done]
    exact further

theorem viable_readByte : Viable readByte where
  append_of_fault {bytes cause} failed fault more := by
    cases bytes with
    | nil =>
        cases failed
        exact absurd rfl fault
    | cons byte bytes => cases failed
  completes {bytes} failed := by
    cases bytes with
    | nil => exact ⟨[0], 0, rfl⟩
    | cons byte bytes => cases failed
  some := ⟨[0], 0, rfl⟩

/-- Behind a byte some continuations may be faulty, as long as one of them is viable. -/
theorem viable_readByte_bind {next : UInt8 → Reader β} (byte : UInt8) (goesOn : Viable (next byte))
    (second : ∀ byte, Incremental (next byte)) : Viable (readByte >>= next) where
  toIncremental := by
    refine viable_readByte.toIncremental.bind recognises_readByte second ?_
    intro bytes early
    cases bytes with
    | nil => exact ⟨[byte], byte, rfl, goesOn.some⟩
    | cons first bytes => cases early
  some := by
    obtain ⟨behind, result, further⟩ := goesOn.some
    exact ⟨byte :: behind, result, further⟩

end Incremental

/-! ## The readers of the wire form -/

theorem viable_readFixed (width : Nat) : Viable (readFixed width) := by
  induction width with
  | zero => exact viable_pure 0
  | succ width ih =>
      exact viable_readByte.bind recognises_readByte fun byte =>
        ih.bind (recognises_readFixed width) fun high => viable_pure _

theorem viable_readWord : Viable readWord :=
  (viable_readFixed 8).bind (recognises_readFixed 8) fun _ => viable_pure _

theorem viable_readVarintWithin (further : Nat) : Viable (readVarintWithin further) := by
  induction further with
  | zero =>
      refine viable_readByte_bind 0 (viable_pure 0) fun byte => ?_
      split
      · exact (viable_pure _).toIncremental
      · exact incremental_throw (by decide)
  | succ further ih =>
      refine viable_readByte.bind recognises_readByte fun byte => ?_
      split
      · exact viable_pure _
      · exact ih.bind (recognises_readVarintWithin further) fun high => viable_pure _

theorem viable_readVarint : Viable readVarint := viable_readVarintWithin 9

section Sequences

variable {α : Type} {reader : Reader α} {form : α → List UInt8 → Prop}

theorem viable_readMany (single : Viable reader) (recognises : Recognises reader form)
    (count : Nat) : Viable (readMany reader count) := by
  induction count with
  | zero => exact viable_pure []
  | succ count ih =>
      exact single.bind recognises fun value =>
        ih.bind (recognises_readMany recognises count) fun values => viable_pure _

theorem viable_readCounted (single : Viable reader) (recognises : Recognises reader form) :
    Viable (readCounted reader) :=
  viable_readVarint.bind recognises_readVarint fun count => viable_readMany single recognises count

end Sequences

theorem viable_readUnary (build : UInt64 → Instruction) : Viable (readUnary build) :=
  viable_readWord.bind recognises_readWord fun _ => viable_pure _

theorem viable_readBinary (build : UInt64 → UInt64 → Instruction) : Viable (readBinary build) :=
  viable_readWord.bind recognises_readWord fun _ =>
    viable_readWord.bind recognises_readWord fun _ => viable_pure _

theorem viable_readArguments (opcode : Opcode) : Viable (readArguments opcode) := by
  cases opcode with
  | nothing => exact viable_pure _
  | «return» | allocate | deallocate | setNull | negate | not => exact viable_readUnary _
  | setFromConstant | setFunction | copy | add | mul | div | and | or | xor | equal | less
  | greater | call => exact viable_readBinary _

theorem viable_readInstruction : Viable readInstruction := by
  refine viable_readByte_bind 0 (viable_readArguments _) fun id => ?_
  split
  · exact (viable_readArguments _).toIncremental
  · exact incremental_throw nofun

theorem viable_readFunction : Viable readFunction :=
  viable_readWord.bind recognises_readWord fun _ =>
    (viable_readCounted viable_readInstruction recognises_readInstruction).bind
      (recognises_readCounted recognises_readInstruction) fun _ => viable_pure _

theorem viable_readBody : Viable readBody :=
  (viable_readCounted viable_readFunction recognises_readFunction).bind
    (recognises_readCounted recognises_readFunction) fun _ => viable_pure _

end Wire

namespace CodeUnit

open Wire

/-! ## Unit files -/

/-- Takes the header of a unit file, whatever it says. -/
def readHeader : Reader (Nat × Nat) := do
  let magic ← readFixed 4
  let version ← readFixed 4
  return (magic, version)

theorem viable_readHeader : Viable readHeader :=
  (viable_readFixed 4).bind (recognises_readFixed 4) fun _ =>
    (viable_readFixed 4).bind (recognises_readFixed 4) fun _ => viable_pure _

theorem recognises_readHeader : Recognises readHeader fun found bytes =>
    ∃ magicBytes versionBytes, FixedForm 4 found.1 magicBytes ∧ FixedForm 4 found.2 versionBytes ∧
      bytes = magicBytes ++ versionBytes := recognises_header

theorem load_eq (bytes : List UInt8) : load bytes =
    match readHeader bytes with
    | .error cause => .error (.malformed cause)
    | .ok ((found, number), body) =>
      if found ≠ magic then .error (.wrongMagic found)
      else if number ≠ version then .error (.otherVersion number)
      else loadBody body := rfl

theorem load_of_header_error {bytes : List UInt8} {cause : DecodeError}
    (failed : readHeader bytes = .error cause) : load bytes = .error (.malformed cause) := by
  rw [load_eq, failed]

/-- Behind a correct header, the body decides. -/
theorem load_of_header {bytes body : List UInt8}
    (read : readHeader bytes = .ok ((magic, version), body)) : load bytes = loadBody body := by
  rw [load_eq, read]
  rfl

/-- The header is cut short, or it is correct, or it is that of something else. -/
theorem header_cases (bytes : List UInt8) :
    (∃ cause, readHeader bytes = .error cause) ∨
      (∃ body, readHeader bytes = .ok ((magic, version), body)) ∨
      ∃ failure, load bytes = .error failure ∧ ∀ cause, failure ≠ .malformed cause := by
  rw [load_eq]
  cases readHeader bytes with
  | error cause => exact .inl ⟨cause, rfl⟩
  | ok read =>
      obtain ⟨⟨found, number⟩, body⟩ := read
      by_cases right : found = magic
      · by_cases current : number = version
        · exact .inr (.inl ⟨body, by rw [right, current]⟩)
        · refine .inr (.inr ⟨.otherVersion number, ?_, nofun⟩)
          simp only [right, current, ne_eq, not_true_eq_false, not_false_eq_true, if_false, if_true]
      · refine .inr (.inr ⟨.wrongMagic found, ?_, nofun⟩)
        simp only [right, ne_eq, not_false_eq_true, if_true]

theorem loadBody_eq_ok_iff_readBody {bytes : List UInt8} {unit : CodeUnit} :
    loadBody bytes = .ok unit ↔ readBody bytes = .ok (unit, []) := by
  rw [loadBody_eq_ok_iff, recognises_readBody bytes unit []]
  simp only [List.append_nil, exists_eq_right']

theorem loadBody_of_rest {bytes rest : List UInt8} {unit : CodeUnit}
    (read : readBody bytes = .ok (unit, rest)) (more : rest ≠ []) :
    loadBody bytes = .error (.leftover rest.length) := by
  rw [loadBody, read]
  cases rest with
  | nil => exact absurd rfl more
  | cons byte rest => rfl

theorem loadBody_eq_malformed_iff {bytes : List UInt8} {cause : DecodeError} :
    loadBody bytes = .error (.malformed cause) ↔ readBody bytes = .error cause := by
  rw [loadBody]
  split
  · rename_i other failed
    rw [failed]
    simp
  · rename_i unit read
    rw [read]
    simp
  · rename_i unit rest some read
    rw [read]
    simp

/-- What is loaded is a correct header and the functions of the unit. -/
theorem exists_body_of_load {bytes : List UInt8} {unit : CodeUnit}
    (loaded : load bytes = .ok unit) :
    ∃ body, readHeader bytes = .ok ((magic, version), body) ∧ readBody body = .ok (unit, []) := by
  rcases header_cases bytes with ⟨cause, failed⟩ | ⟨body, read⟩ | ⟨failure, failed, -⟩
  · cases loaded.symm.trans (load_of_header_error failed)
  · rw [load_of_header read] at loaded
    exact ⟨body, read, loadBody_eq_ok_iff_readBody.mp loaded⟩
  · cases loaded.symm.trans failed

/-- What is malformed ends inside the header or is so behind it. -/
theorem malformed_cases {bytes : List UInt8} {cause : DecodeError}
    (failed : load bytes = .error (.malformed cause)) :
    readHeader bytes = .error cause ∨
      ∃ body, readHeader bytes = .ok ((magic, version), body) ∧ readBody body = .error cause := by
  rcases header_cases bytes with ⟨other, early⟩ | ⟨body, read⟩ | ⟨failure, other, never⟩
  · cases failed.symm.trans (load_of_header_error early)
    exact .inl early
  · rw [load_of_header read] at failed
    exact .inr ⟨body, read, loadBody_eq_malformed_iff.mp failed⟩
  · cases failed.symm.trans other
    exact absurd rfl (never cause)

/-- More data is expected at the end of every proper beginning of a unit file. -/
theorem load_of_proper_prefix {front more : List UInt8} {unit : CodeUnit} (cut : more ≠ [])
    (loaded : load (front ++ more) = .ok unit) : load front = .error (.malformed .endOfBuffer) := by
  obtain ⟨body, header, whole⟩ := exists_body_of_load loaded
  rcases viable_readHeader.of_append recognises_readHeader header with early | ⟨left, early, rfl⟩
  · exact load_of_header_error early
  · rw [load_of_header early, loadBody_eq_malformed_iff]
    exact viable_readBody.endOfBuffer_of_append recognises_readBody cut whole

/-- What stands behind a unit file is counted. -/
theorem load_append_of_ok {bytes more : List UInt8} {unit : CodeUnit}
    (loaded : load bytes = .ok unit) (some : more ≠ []) :
    load (bytes ++ more) = .error (.leftover more.length) := by
  obtain ⟨body, header, whole⟩ := exists_body_of_load loaded
  rw [load_of_header (recognises_readHeader.append_of_ok header more)]
  exact loadBody_of_rest (recognises_readBody.append_of_ok whole more) some

/-- Where more data is expected behind the header, there is some that completes a unit file. -/
theorem exists_load_append {bytes body : List UInt8}
    (header : readHeader bytes = .ok ((magic, version), body))
    (early : load bytes = .error (.malformed .endOfBuffer)) :
    ∃ more unit, load (bytes ++ more) = .ok unit := by
  rw [load_of_header header, loadBody_eq_malformed_iff] at early
  obtain ⟨more, unit, whole⟩ := viable_readBody.completes early
  refine ⟨more, unit, ?_⟩
  rw [load_of_header (recognises_readHeader.append_of_ok header more)]
  exact loadBody_eq_ok_iff_readBody.mpr whole

/-- A fault in a file stays the same, whatever bytes are added. -/
theorem load_append_of_malformed {bytes : List UInt8} {cause : DecodeError}
    (failed : load bytes = .error (.malformed cause)) (fault : cause ≠ .endOfBuffer)
    (more : List UInt8) : load (bytes ++ more) = .error (.malformed cause) := by
  rcases malformed_cases failed with early | ⟨body, header, faulty⟩
  · exact load_of_header_error (viable_readHeader.append_of_fault early fault more)
  · rw [load_of_header (recognises_readHeader.append_of_ok header more), loadBody_eq_malformed_iff]
    exact viable_readBody.append_of_fault faulty fault more

/-- Bytes that begin with the header of unit files have a correct header. -/
theorem readHeader_of_prefix {bytes : List UInt8} (begins : header <+: bytes) :
    ∃ body, readHeader bytes = .ok ((magic, version), body) := by
  obtain ⟨body, rfl⟩ := begins
  have alone : readHeader header = .ok ((magic, version), []) := rfl
  exact ⟨body, recognises_readHeader.append_of_ok alone body⟩

/-- **Truncated files are told apart from corrupted ones.** Every proper beginning of a unit file
ends too early, and every continuation of one leaves its bytes over.  Behind a correct header, bytes
end too early exactly if they are a proper beginning of a unit file; and every other fault in bytes
is there whatever follows them. -/
theorem load_truncated_iff (bytes : List UInt8) :
    (∀ unit, load bytes = .ok unit →
      (∀ front, front <+: bytes → front ≠ bytes → load front = .error (.malformed .endOfBuffer)) ∧
        ∀ more, more ≠ [] → load (bytes ++ more) = .error (.leftover more.length)) ∧
      (header <+: bytes →
        (load bytes = .error (.malformed .endOfBuffer) ↔
          ∃ whole unit, bytes <+: whole ∧ bytes ≠ whole ∧ load whole = .ok unit)) ∧
      ∀ cause, load bytes = .error (.malformed cause) → cause ≠ .endOfBuffer →
        ∀ more, load (bytes ++ more) = .error (.malformed cause) := by
  refine ⟨fun unit loaded => ⟨?cut, fun more => load_append_of_ok loaded⟩, fun begins => ⟨?_, ?_⟩,
    fun cause => load_append_of_malformed⟩
  case cut =>
    rintro front ⟨more, rfl⟩ proper
    refine load_of_proper_prefix (fun none => proper ?_) loaded
    rw [none, List.append_nil]
  · intro early
    obtain ⟨body, header⟩ := readHeader_of_prefix begins
    obtain ⟨more, unit, loaded⟩ := exists_load_append header early
    refine ⟨bytes ++ more, unit, List.prefix_append _ _, fun same => ?_, loaded⟩
    rw [← same, early] at loaded
    cases loaded
  · rintro ⟨_, unit, ⟨more, rfl⟩, proper, loaded⟩
    refine load_of_proper_prefix (fun none => proper ?_) loaded
    rw [none, List.append_nil]

/-- A file with a padded count, cut inside that count, and a file that is wrong behind its count. -/
theorem load_truncated_padded :
    let bytes : List UInt8 := [67, 78, 68, 82, 1, 0, 0, 0, 129, 0, 2, 0, 0, 0, 0, 0, 0, 0, 128, 0]
    let wrong : List UInt8 := [67, 78, 68, 82, 1, 0, 0, 0, 1, 2, 0, 0, 0, 0, 0, 0, 0, 1, 99]
    load bytes = .ok ⟨[⟨2, []⟩]⟩ ∧ load (bytes.take 9) = .error (.malformed .endOfBuffer) ∧
      load (bytes ++ [7, 7]) = .error (.leftover 2) ∧
      (∃ whole unit, bytes.take 9 <+: whole ∧ bytes.take 9 ≠ whole ∧ load whole = .ok unit) ∧
      load wrong = .error (.malformed (.unknownOpcode 99)) ∧
      load (wrong ++ [0]) = .error (.malformed (.unknownOpcode 99)) := by
  intro bytes wrong
  have loaded : load bytes = .ok ⟨[⟨2, []⟩]⟩ := by rfl
  have faulty : load wrong = .error (.malformed (.unknownOpcode 99)) := by rfl
  obtain ⟨cut, further⟩ := (load_truncated_iff bytes).1 _ loaded
  have early := cut (bytes.take 9) (List.take_prefix 9 bytes) (by decide)
  exact ⟨loaded, early, further [7, 7] (by decide),
    ((load_truncated_iff (bytes.take 9)).2.1 ⟨[129], rfl⟩).mp early, faulty,
    (load_truncated_iff wrong).2.2 _ faulty nofun [0]⟩

end CodeUnit

end SlotCompiler
