import SlotCompiler.Proofs.CommandLine.CompileRun

/-!
# Which files a run touches

The target of a compile run is the only file that is ever written, and it is written last, when
nothing can go wrong any more.  So whatever fails leaves a directory as it was, and a run that
succeeds leaves all other files as they were, and in the target the unit of what the source held
before: the source may be the target (`touches_target_on_success`).
-/

set_option autoImplicit false

namespace SlotCompiler.CommandLine

/-! ## Directories -/

namespace Directory

theorem lookup_put_self (name : String) (bytes : List UInt8) (files : List (String × List UInt8)) :
    (put name bytes files).lookup name = some bytes := by
  induction files with
  | nil => rw [put, List.lookup_cons_self]
  | cons file files ih =>
      rw [put]
      split
      · rw [List.lookup_cons_self]
      · rename_i different
        rw [List.lookup_cons, beq_false_of_ne (Ne.symm different), ih]

theorem lookup_put_of_ne {name other : String} (different : other ≠ name) (bytes : List UInt8)
    (files : List (String × List UInt8)) :
    (put name bytes files).lookup other = files.lookup other := by
  induction files with
  | nil => rw [put, List.lookup_cons, beq_false_of_ne different]
  | cons file files ih =>
      rw [put]
      split
      · rename_i same
        rw [List.lookup_cons, List.lookup_cons, same, beq_false_of_ne different]
      · rw [List.lookup_cons, List.lookup_cons, ih]

variable {directory changed : Directory} {name : String} {bytes : List UInt8}

/-- Whether a file can be written does not depend on what is written. -/
theorem exists_write_iff (directory : Directory) (name : String) (bytes other : List UInt8) :
    (∃ changed, directory.write name bytes = .ok changed) ↔
      ∃ changed, directory.write name other = .ok changed := by
  rw [write, write]
  cases misnamed? name with
  | none => exact ⟨fun _ => ⟨_, rfl⟩, fun _ => ⟨_, rfl⟩⟩
  | some error => exact ⟨nofun, nofun⟩

theorem write_cases (written : directory.write name bytes = .ok changed) :
    misnamed? name = none ∧ changed = ⟨put name bytes directory.files⟩ := by
  rw [write] at written
  split at written
  · cases written
  · rename_i named
    cases written
    exact ⟨named, rfl⟩

/-- A file that is written holds what was written. -/
theorem read_write_self (written : directory.write name bytes = .ok changed) :
    changed.read name = .ok bytes := by
  obtain ⟨named, rfl⟩ := write_cases written
  rw [read, named]
  dsimp only
  rw [lookup_put_self]

/-- Writing a file leaves the others as they were. -/
theorem lookup_write_of_ne (written : directory.write name bytes = .ok changed) {other : String}
    (different : other ≠ name) : changed.files.lookup other = directory.files.lookup other := by
  obtain ⟨-, rfl⟩ := write_cases written
  exact lookup_put_of_ne different bytes directory.files

end Directory

/-! ## Runs -/

/-- A run that reads a file leaves the files as what it goes on with. -/
theorem directory_run_withFile {directory : Directory} {next : List UInt8 → Session}
    (keeps : ∀ bytes, ((next bytes).run directory).directory = directory) (name : String) :
    ((withFile name next).run directory).directory = directory := by
  cases read : directory.read name with
  | error error => rw [run_withFile_of_error next read]
  | ok bytes => rw [run_withFile_of_ok next read, keeps bytes]

/-- Listing a unit file leaves the files as they are. -/
theorem directory_run_inspect (directory : Directory) (name : String) :
    ((inspect name).run directory).directory = directory := by
  refine directory_run_withFile (fun bytes => ?_) name
  cases CodeUnit.load bytes <;> rfl

/-- **Only a compile run writes.** -/
theorem directory_run_of_not_compileRun {arguments : List String}
    (other : ¬ ∃ options name, CompileRun arguments options name) (directory : Directory) :
    ((session arguments).run directory).directory = directory := by
  rw [session]
  cases understood : Invocation.ofArguments arguments with
  | error error => rfl
  | ok invocation =>
      cases invocation with
      | help => rfl
      | version => rfl
      | run options =>
          dsimp only
          rw [perform]
          cases inspect : options.inspect with
          | some unit => exact directory_run_inspect directory unit
          | none =>
              cases source : options.source with
              | none => rfl
              | some name =>
                  cases tokens : options.tokens with
                  | true => exact directory_run_withFile (fun _ => rfl) name
                  | false => exact absurd ⟨options, name, understood, source, inspect, tokens⟩ other

/-- A compile run that fails leaves the files as they were. -/
theorem ComesTo.directory_of_failed {directory : Directory} {options : Options} {name : String}
    {outcome : Outcome} (comes : ComesTo directory options name outcome)
    (failed : outcome.code ≠ 0) : outcome.directory = directory := by
  cases comes with
  | unreadable => rfl
  | rejected => rfl
  | unwritable => rfl
  | written => exact absurd rfl failed

/-- A compile run succeeds exactly if its source can be read, nothing is reported about it and its
target can be created. -/
theorem ComesTo.code_eq_zero_iff {directory : Directory} {options : Options} {name : String}
    {outcome : Outcome} (comes : ComesTo directory options name outcome) :
    outcome.code = 0 ↔ ∃ bytes, directory.read name = .ok bytes ∧
      ((Source.ofBytes bytes).compile (options.report (.ofBytes bytes))).2.count = 0 ∧
      ∃ changed, directory.write options.targetName [] = .ok changed := by
  have silent : ∀ source : Source, (source.compile (options.report source)).2.count = 0 ↔
      ∃ unit, (source.compile (options.report source)).1 = .ok unit := fun source =>
    source.count_compile_eq_zero_iff (options.report source).policy
  simp only [silent]
  cases comes with
  | unreadable unread =>
      refine ⟨nofun, ?_⟩
      rintro ⟨bytes, read, -⟩
      cases unread.symm.trans read
  | rejected read compiled =>
      refine ⟨nofun, ?_⟩
      rintro ⟨bytes, again, ⟨unit, accepted⟩, -⟩
      cases read.symm.trans again
      rw [compiled] at accepted
      cases accepted
  | @unwritable _ unit _ _ read compiled unwritten =>
      refine ⟨nofun, ?_⟩
      rintro ⟨bytes, again, -, creatable⟩
      obtain ⟨changed, written⟩ := (Directory.exists_write_iff _ _ _ unit.encode).mp creatable
      cases unwritten.symm.trans written
  | @written bytes unit _ changed read compiled written =>
      refine ⟨fun _ => ⟨bytes, read, ⟨unit, congrArg Prod.fst compiled⟩, ?_⟩, fun _ => rfl⟩
      exact (Directory.exists_write_iff _ _ unit.encode _).mp ⟨changed, written⟩

/-- A compile run that succeeds has written its unit to its target, and nothing else. -/
theorem ComesTo.touches_target {directory : Directory} {options : Options} {name : String}
    {outcome : Outcome} (comes : ComesTo directory options name outcome)
    (succeeded : outcome.code = 0) :
    (∀ other, other ≠ options.targetName →
        outcome.directory.files.lookup other = directory.files.lookup other) ∧
      ∃ bytes unit, directory.read name = .ok bytes ∧
        ((Source.ofBytes bytes).compile (options.report (.ofBytes bytes))).1 = .ok unit ∧
        outcome.directory.read options.targetName = .ok unit.encode := by
  cases comes with
  | unreadable => cases succeeded
  | rejected => cases succeeded
  | unwritable => cases succeeded
  | @written bytes unit _ changed read compiled written =>
      refine ⟨fun other different => Directory.lookup_write_of_ne written different, ?_⟩
      exact ⟨bytes, unit, read, congrArg Prod.fst compiled, Directory.read_write_self written⟩

/-- **Files are touched only on success.** A run with another code than zero leaves all files as
they were, and so does a run that is not a compile run.  A compile run has the code zero exactly if
its source can be read, nothing is reported about it and its target can be created.  Then all files
but the target are as they were, and the target holds the unit of what the source held before. -/
theorem touches_target_on_success (arguments : List String) (directory : Directory) :
    let ending := (session arguments).run directory
    (ending.code ≠ 0 → ending.directory = directory) ∧
      ((¬ ∃ options name, CompileRun arguments options name) → ending.directory = directory) ∧
      ∀ options name, CompileRun arguments options name →
        let target := options.target.getD defaultTarget
        (ending.code = 0 ↔ ∃ bytes, directory.read name = .ok bytes ∧
          ((Source.ofBytes bytes).compile (options.report (.ofBytes bytes))).2.count = 0 ∧
          ∃ changed, directory.write target [] = .ok changed) ∧
        (ending.code = 0 →
          (∀ other, other ≠ target →
              ending.directory.files.lookup other = directory.files.lookup other) ∧
            ∃ bytes unit, directory.read name = .ok bytes ∧
              ((Source.ofBytes bytes).compile (options.report (.ofBytes bytes))).1 = .ok unit ∧
              ending.directory.read target = .ok unit.encode) := by
  intro ending
  have comes : ∀ {options name}, CompileRun arguments options name →
      ∃ outcome, ComesTo directory options name outcome ∧
        ending = outcome.ending options.tree options.listing := fun run => by
    obtain ⟨outcome, comes, ends⟩ := run.compiles.run_perform directory
    exact ⟨outcome, comes, (congrArg (Session.run directory) run.session_eq).trans ends⟩
  refine ⟨fun failed => ?_, fun other => ?_, fun options name run => ?_⟩
  · by_cases run : ∃ options name, CompileRun arguments options name
    · obtain ⟨options, name, run⟩ := run
      obtain ⟨outcome, came, same⟩ := comes run
      rw [same] at failed ⊢
      exact came.directory_of_failed failed
    · exact directory_run_of_not_compileRun run directory
  · exact directory_run_of_not_compileRun other directory
  · obtain ⟨outcome, came, same⟩ := comes run
    rw [same]
    exact ⟨came.code_eq_zero_iff, came.touches_target⟩

/-- A source that is its own target is replaced by its unit. -/
theorem touches_target_in_place :
    let directory : Directory :=
      ⟨[("other", [0]), ("source", [0x72, 0x65, 0x74, 0x75, 0x72, 0x6E, 0x20, 0x31])]⟩
    let ending := (session ["source", "--ast", "source"]).run directory
    ending.code = 0 ∧ ending.directory.files.lookup "other" = some [0] ∧
      ∃ bytes unit, directory.read "source" = .ok bytes ∧
        ((Source.ofBytes bytes).compile (Report.empty (.ofBytes bytes) .resume)).1 = .ok unit ∧
        ending.directory.read "source" = .ok unit.encode := by
  intro directory ending
  have run : CompileRun ["source", "--ast", "source"]
      { source := some "source", target := some "source", tree := true } "source" :=
    ⟨rfl, rfl, rfl, rfl⟩
  have succeeded : ending.code = 0 := by decide +kernel
  obtain ⟨-, -, compiles⟩ := touches_target_on_success ["source", "--ast", "source"] directory
  obtain ⟨others, target⟩ := (compiles _ _ run).2 succeeded
  exact ⟨succeeded, others "other" (by decide), target⟩

end SlotCompiler.CommandLine
