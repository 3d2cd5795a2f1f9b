import SlotCompiler.Proofs.CommandLine.Arguments
import SlotCompiler.Proofs.CommandLine.Files
import SlotCompiler.Proofs.Compilation.Size

/-!
# What a run prints

A compile run comes to an end that does not depend on what it prints, and prints the tree and the
listing it is asked for one behind the other.  So the printing options can be added to any arguments
without a difference but in the output.

A unit file that is listed was written and read in between, and reading undoes writing as long as
the source fits into memory (`Source.load_encode_ofBytes`).  So listing the target of a compile run
prints what that run could have printed itself (`printing_only_adds`).
-/

set_option autoImplicit false

namespace SlotCompiler.CommandLine

/-! ## Printing -/

/-- A printing option is added to a compile run. -/
theorem CompileRun.insert {before after : List String} {options : Options} {name : String}
    (run : CompileRun (before ++ after) options name) (front : "--" ∉ before)
    {printout : Printout} (new : printout.wanted options = false) :
    CompileRun (before ++ printout.option :: after) (printout.want options) name := by
  obtain ⟨understood, source, inspect, tokens⟩ := run
  have reads := Options.parse_run_iff.mp understood
  have further := printout.insert_reads reads inspect new front
  refine ⟨Options.parse_run_iff.mpr further, ?_⟩
  cases printout <;> exact ⟨source, inspect, tokens⟩

/-- What there is to print of a source: its tree exactly if parsing reports nothing, and its listing
exactly if there is a unit. -/
structure Printable (directory : Directory) (options : Options) (name outline listing : String) :
    Prop where
  outline_eq : ∀ bytes, directory.read name = .ok bytes →
    let parsed := (Source.ofBytes bytes).parse (options.report (.ofBytes bytes))
    if parsed.2.count = 0 then ∃ tree, parsed.1 = .ok tree ∧ outline = tree.render ++ "\n"
    else outline = ""
  listing_eq : ∀ bytes, directory.read name = .ok bytes →
    match ((Source.ofBytes bytes).compile (options.report (.ofBytes bytes))).1 with
    | .ok unit => listing = UnitListing.render unit
    | .error _ => listing = ""
  unreadable : ∀ error, directory.read name = .error error → outline = "" ∧ listing = ""

theorem printable_of_read {directory : Directory} {options : Options} {name listing : String}
    {bytes : List UInt8} {result : Except Rejection CodeUnit} {report : Report}
    (lists : match result with
      | .ok unit => listing = UnitListing.render unit
      | .error _ => listing = "")
    (read : directory.read name = .ok bytes)
    (compiled : (Source.ofBytes bytes).compile (options.report (.ofBytes bytes)) =
      (result, report)) :
    Printable directory options name
      (outline (.ofBytes bytes) (options.report (.ofBytes bytes))) listing := by
  refine ⟨fun other again => ?_, fun other again => ?_, fun error unread => ?_⟩
  · cases read.symm.trans again
    exact outline_eq _ options
  · cases read.symm.trans again
    rw [compiled]
    exact lists
  · cases read.symm.trans unread

/-- A compile run settles what there is to print. -/
theorem ComesTo.printable {directory : Directory} {options : Options} {name : String}
    {outcome : Outcome} (comes : ComesTo directory options name outcome) :
    Printable directory options name outcome.outline outcome.listing := by
  cases comes with
  | unreadable unread =>
      refine ⟨fun bytes read => ?_, fun bytes read => ?_, fun _ _ => ⟨rfl, rfl⟩⟩
      · cases unread.symm.trans read
      · cases unread.symm.trans read
  | rejected read compiled => exact printable_of_read rfl read compiled
  | unwritable read compiled => exact printable_of_read rfl read compiled
  | written read compiled => exact printable_of_read rfl read compiled

/-! ## Listing unit files -/

theorem run_inspect {directory : Directory} {name : String} {bytes : List UInt8} {unit : CodeUnit}
    (read : directory.read name = .ok bytes) (loaded : CodeUnit.load bytes = .ok unit) :
    (inspect name).run directory = ⟨0, UnitListing.render unit, "", directory⟩ := by
  rw [inspect, run_withFile_of_ok _ read, loaded]
  rfl

/-- Every file that has a name can be listed. -/
theorem ofArguments_inspect {name : String} (named : name ≠ "") :
    Invocation.ofArguments ["--inspect=" ++ name] = .ok (.run { inspect := some name }) := by
  have value : Options.inspectValue? ("--inspect=" ++ name) = some name := by
    rw [Options.inspectValue?, String.toList_append]
    rw [if_pos (List.isPrefixOf_iff_prefix.mpr (List.prefix_append _ _)), List.drop_left,
      String.ofList_toList]
  have taken : ({} : Options).setInspect name = .ok { inspect := some name } := if_neg named
  exact Options.parse_run_iff.mpr (.next (.inspect value taken) .none)

/-- A run that lists a unit file with a given name. -/
theorem session_inspect {arguments : List String} {options : Options} {name : String}
    (understood : Invocation.ofArguments arguments = .ok (.run options))
    (inspects : options.inspect = some name) : session arguments = inspect name := by
  rw [session, understood]
  dsimp only
  rw [perform, inspects]

/-- The target of a run that succeeded is listed as the unit of that run. -/
theorem ComesTo.run_inspect {directory : Directory} {options : Options} {name : String}
    {outcome : Outcome} (comes : ComesTo directory options name outcome)
    (succeeded : outcome.code = 0)
    (fits : ∀ bytes, directory.read name = .ok bytes → bytes.length < 2 ^ 63) :
    (inspect options.targetName).run outcome.directory =
      ⟨0, outcome.listing, "", outcome.directory⟩ := by
  cases comes with
  | unreadable => cases succeeded
  | rejected => cases succeeded
  | unwritable => cases succeeded
  | @written bytes unit report changed read compiled written =>
      have accepted := Source.verdict_of_compile (congrArg Prod.fst compiled)
      have loaded := Source.load_encode_ofBytes accepted (fits bytes read)
      exact CommandLine.run_inspect (Directory.read_write_self written) loaded

theorem ComesTo.targetName_ne_empty {directory : Directory} {options : Options} {name : String}
    {outcome : Outcome} (comes : ComesTo directory options name outcome)
    (succeeded : outcome.code = 0) : options.targetName ≠ "" := by
  obtain ⟨-, -, -, changed, written⟩ := comes.code_eq_zero_iff.mp succeeded
  intro nameless
  rw [nameless] at written
  cases written

/-- **Printing only adds to the output.** A compile run has a tree to print exactly if parsing
reports nothing, and a listing exactly if there is a unit.  With any printing options it comes to
the same code, errors and files, and its output is the tree and then the listing, each if it is
wanted; and a printing option can be added to its arguments anywhere in front of `--`.

If the run succeeds, a run that lists its target succeeds as well and prints just that listing.  For
this the source has to be shorter than 2^63 bytes, as every byte string in memory is. -/
theorem printing_only_adds {arguments : List String} {options : Options} {name : String}
    (run : CompileRun arguments options name) (directory : Directory) :
    let ending := (session arguments).run directory
    ∃ outline listing, Printable directory options name outline listing ∧
      (∀ others printsTree printsListing, Invocation.ofArguments others =
          .ok (.run { options with tree := printsTree, listing := printsListing }) →
        (session others).run directory = { ending with
          output := (if printsTree then outline else "") ++
            if printsListing then listing else "" }) ∧
      (∀ before after printout, arguments = before ++ after → "--" ∉ before →
        Printout.wanted options printout = false →
        Invocation.ofArguments (before ++ printout.option :: after) =
          .ok (.run (printout.want options))) ∧
      (ending.code = 0 → (∀ bytes, directory.read name = .ok bytes → bytes.length < 2 ^ 63) →
        Invocation.ofArguments ["--inspect=" ++ options.targetName] =
            .ok (.run { inspect := some options.targetName }) ∧
          ∀ inspection inspected, Invocation.ofArguments inspection = .ok (.run inspected) →
            inspected.inspect = some options.targetName →
            (session inspection).run ending.directory =
              ⟨0, listing, "", ending.directory⟩) := by
  intro ending
  obtain ⟨outcome, comes, ends⟩ := run.compiles.run_eq directory
  have same : ending = outcome.ending options.tree options.listing :=
    (congrArg (Session.run directory) run.session_eq).trans (ends options.tree options.listing)
  refine ⟨outcome.outline, outcome.listing, comes.printable, ?printing, ?adding, ?listing⟩
  case printing =>
    intro others printsTree printsListing understood
    rw [session, understood, same]
    exact ends printsTree printsListing
  case adding =>
    rintro before after printout rfl front new
    exact (run.insert front new).understood
  case listing =>
    intro succeeded fits
    rw [same] at succeeded ⊢
    refine ⟨ofArguments_inspect (comes.targetName_ne_empty succeeded), ?_⟩
    intro inspection inspected understood inspects
    rw [session_inspect understood inspects]
    exact comes.run_inspect succeeded fits

/-- A run prints its tree and its listing, and the listing again when its target is listed. -/
theorem printing_only_adds_both :
    let directory : Directory := ⟨[("source", [0x72, 0x65, 0x74, 0x75, 0x72, 0x6E, 0x20, 0x31])]⟩
    let ending := (session ["source"]).run directory
    ending.code = 0 ∧ ending.output = "" ∧ ∃ outline listing,
      (session ["--disasm", "source", "--ast"]).run directory =
        { ending with output := outline ++ listing } ∧
      (session ["--inspect=out.cbc"]).run ending.directory =
        ⟨0, listing, "", ending.directory⟩ := by
  intro directory ending
  have run : CompileRun ["source"] { source := some "source" } "source" := ⟨rfl, rfl, rfl, rfl⟩
  have both : Invocation.ofArguments ["--disasm", "source", "--ast"] =
      .ok (.run { source := some "source", tree := true, listing := true }) := rfl
  have succeeded : ending.code = 0 := by decide +kernel
  have fits : ∀ bytes, directory.read "source" = .ok bytes → bytes.length < 2 ^ 63 := by
    rintro _ ⟨⟩
    decide
  obtain ⟨outline, listing, -, printing, -, lists⟩ := printing_only_adds run directory
  obtain ⟨inspects, listed⟩ := lists succeeded fits
  exact ⟨succeeded, by decide +kernel, outline, listing, printing _ true true both,
    listed _ _ inspects rfl⟩

end SlotCompiler.CommandLine
