import SlotCompiler.CommandLine.Program
import SlotCompiler.Proofs.Compilation.Deliveries

/-!
# Compile runs

A run that names a source and asks for nothing but its unit comes to one of four ends: the source
is unreadable, it is rejected, the target cannot be created, or the unit is written
(`ComesTo`).  Each end settles what could be printed, the tree and the listing, and the options
only choose from that (`Options.Compiles.run_eq`).  This is so because both ways through the program
translate alike, with the tree printed between parsing and lowering or with a compilation in one go
(`translate_eq`).
-/

set_option autoImplicit false

namespace SlotCompiler.CommandLine

/-! ## Translating -/

/-- What is printed of a source before it is lowered. -/
def outline (source : Source) (report : Report) : String := (translate true source report).1

/-- **Printing the tree does not change the translation.** -/
theorem translate_eq (printsTree : Bool) (source : Source) (report : Report) :
    translate printsTree source report =
      (if printsTree then outline source report else "", source.compile report) := by
  cases printsTree with
  | false => rfl
  | true =>
      rw [outline, translate, if_pos rfl, if_pos rfl]
      cases parsed : source.parse report with
      | mk outcome after =>
          cases outcome with
          | ok tree => rw [source.compile_of_tree parsed]
          | error rejection => rw [source.compile_of_rejection parsed]

/-- The tree is printed exactly if parsing reports nothing. -/
theorem outline_eq (source : Source) (options : Options) :
    let parsed := source.parse (options.report source)
    if parsed.2.count = 0 then
      ∃ tree, parsed.1 = .ok tree ∧ outline source (options.report source) = tree.render ++ "\n"
    else outline source (options.report source) = "" := by
  have silent := source.count_parse_eq_zero_iff (options.report source).policy
  change (source.parse (options.report source)).2.count = 0 ↔
    ∃ tree, (source.parse (options.report source)).1 = .ok tree at silent
  rw [outline, translate, if_pos rfl]
  generalize source.parse (options.report source) = parsed at silent ⊢
  obtain ⟨outcome, after⟩ := parsed
  cases outcome with
  | ok tree =>
      rw [if_pos (silent.mpr ⟨tree, rfl⟩)]
      exact ⟨tree, rfl, rfl⟩
  | error rejection =>
      have some : after.count ≠ 0 := fun none => by
        obtain ⟨tree, same⟩ := silent.mp none
        cases same
      rw [if_neg some]

/-! ## Ends -/

/-- What a compile run comes to, and what it could print. -/
structure Outcome where
  code : UInt32
  outline : String
  listing : String
  errors : String
  directory : Directory

/-- The end of a compile run that prints its tree, its listing, both or neither. -/
def Outcome.ending (outcome : Outcome) (printsTree printsListing : Bool) : Ending where
  code := outcome.code
  output := (if printsTree then outcome.outline else "") ++
    if printsListing then outcome.listing else ""
  errors := outcome.errors
  directory := outcome.directory

/-- The name of the file that a unit is written to. -/
def Options.targetName (options : Options) : String := options.target.getD defaultTarget

/-- The ends of a compile run of a named source. -/
inductive ComesTo (directory : Directory) (options : Options) (name : String) : Outcome → Prop where
  | unreadable {error : FileError} (unread : directory.read name = .error error) :
      ComesTo directory options name
        ⟨1, "", "", failure ("could not open file '" ++ name ++ "'") error.message, directory⟩
  | rejected {bytes : List UInt8} {rejection : Rejection} {report : Report}
      (read : directory.read name = .ok bytes)
      (compiled : (Source.ofBytes bytes).compile (options.report (.ofBytes bytes)) =
        (.error rejection, report)) :
      ComesTo directory options name
        ⟨1, outline (.ofBytes bytes) (options.report (.ofBytes bytes)), "", report.close.output,
          directory⟩
  | unwritable {bytes : List UInt8} {unit : CodeUnit} {report : Report} {error : FileError}
      (read : directory.read name = .ok bytes)
      (compiled : (Source.ofBytes bytes).compile (options.report (.ofBytes bytes)) =
        (.ok unit, report))
      (unwritten : directory.write options.targetName unit.encode = .error error) :
      ComesTo directory options name
        ⟨1, outline (.ofBytes bytes) (options.report (.ofBytes bytes)), UnitListing.render unit,
          report.close.output ++
            failure ("could not create file '" ++ options.targetName ++ "'") error.message,
          directory⟩
  | written {bytes : List UInt8} {unit : CodeUnit} {report : Report} {changed : Directory}
      (read : directory.read name = .ok bytes)
      (compiled : (Source.ofBytes bytes).compile (options.report (.ofBytes bytes)) =
        (.ok unit, report))
      (written : directory.write options.targetName unit.encode = .ok changed) :
      ComesTo directory options name
        ⟨0, outline (.ofBytes bytes) (options.report (.ofBytes bytes)), UnitListing.render unit,
          report.close.output, changed⟩

/-! ## Running -/

/-- Options of a compile run: a source is named, and nothing else is asked for than its unit. -/
structure Options.Compiles (options : Options) (name : String) : Prop where
  source : options.source = some name
  inspect : options.inspect = none
  tokens : options.tokens = false

theorem run_withFile_of_error {directory : Directory} {name : String} {error : FileError}
    (next : List UInt8 → Session) (unread : directory.read name = .error error) :
    (withFile name next).run directory =
      ⟨1, "", failure ("could not open file '" ++ name ++ "'") error.message, directory⟩ := by
  rw [withFile, Session.run, unread]
  rfl

theorem run_withFile_of_ok {directory : Directory} {name : String} {bytes : List UInt8}
    (next : List UInt8 → Session) (read : directory.read name = .ok bytes) :
    (withFile name next).run directory = (next bytes).run directory := by
  rw [withFile, Session.run, read]

section Compile

variable {options : Options} {source : Source} {report : Report} {unit : CodeUnit}
  {directory : Directory}

theorem run_compile_of_rejection {rejection : Rejection}
    (compiled : source.compile (options.report source) = (.error rejection, report)) :
    (compile options source).run directory =
      ⟨1, if options.tree then outline source (options.report source) else "", report.close.output,
        directory⟩ := by
  rw [compile, translate_eq, compiled]
  rfl

theorem run_compile_of_unwritten {error : FileError}
    (compiled : source.compile (options.report source) = (.ok unit, report))
    (unwritten : directory.write options.targetName unit.encode = .error error) :
    (compile options source).run directory =
      ⟨1, (if options.tree then outline source (options.report source) else "") ++
          if options.listing then UnitListing.render unit else "",
        report.close.output ++
          failure ("could not create file '" ++ options.targetName ++ "'") error.message,
        directory⟩ := by
  rw [Options.targetName] at unwritten
  rw [compile, translate_eq, compiled]
  dsimp only
  rw [Session.run, unwritten]
  rfl

theorem run_compile_of_written {changed : Directory}
    (compiled : source.compile (options.report source) = (.ok unit, report))
    (written : directory.write options.targetName unit.encode = .ok changed) :
    (compile options source).run directory =
      ⟨0, (if options.tree then outline source (options.report source) else "") ++
          if options.listing then UnitListing.render unit else "",
        report.close.output, changed⟩ := by
  rw [Options.targetName] at written
  rw [compile, translate_eq, compiled]
  dsimp only
  rw [Session.run, written]
  rfl

end Compile

/-- **Every compile run comes to one of its ends**, the same one whatever it prints. -/
theorem Options.Compiles.run_eq {options : Options} {name : String}
    (compiles : options.Compiles name) (directory : Directory) :
    ∃ outcome, ComesTo directory options name outcome ∧
      ∀ printsTree printsListing,
        (perform { options with tree := printsTree, listing := printsListing }).run directory =
          outcome.ending printsTree printsListing := by
  obtain ⟨source, inspect, tokens⟩ := compiles
  unfold perform
  simp only [source, inspect, tokens]
  cases read : directory.read name with
  | error error =>
      refine ⟨_, .unreadable read, fun printsTree printsListing => ?_⟩
      rw [run_withFile_of_error _ read]
      cases printsTree <;> cases printsListing <;> rfl
  | ok bytes =>
      simp only [run_withFile_of_ok _ read, Bool.false_eq_true, if_false]
      cases compiled : (Source.ofBytes bytes).compile (options.report (.ofBytes bytes)) with
      | mk result report =>
          cases result with
          | error rejection =>
              refine ⟨_, .rejected read compiled, fun printsTree printsListing => ?_⟩
              rw [run_compile_of_rejection (by exact compiled)]
              cases printsTree <;> cases printsListing <;>
                simp only [Outcome.ending, Options.report, String.append_empty, ite_self]
          | ok unit =>
              cases written : directory.write options.targetName unit.encode with
              | error error =>
                  refine ⟨_, .unwritable read compiled written, fun printsTree printsListing => ?_⟩
                  rw [run_compile_of_unwritten (by exact compiled) (by exact written)]
                  rfl
              | ok changed =>
                  refine ⟨_, .written read compiled written, fun printsTree printsListing => ?_⟩
                  rw [run_compile_of_written (by exact compiled) (by exact written)]
                  rfl

/-- A run of given options is that of its own printing options. -/
theorem Options.Compiles.run_perform {options : Options} {name : String}
    (compiles : options.Compiles name) (directory : Directory) :
    ∃ outcome, ComesTo directory options name outcome ∧
      (perform options).run directory = outcome.ending options.tree options.listing := by
  obtain ⟨outcome, comes, ends⟩ := compiles.run_eq directory
  exact ⟨outcome, comes, ends options.tree options.listing⟩

/-- Arguments of a compile run, and what they say. -/
structure CompileRun (arguments : List String) (options : Options) (name : String) : Prop where
  understood : Invocation.ofArguments arguments = .ok (.run options)
  compiles : options.Compiles name

theorem CompileRun.session_eq {arguments : List String} {options : Options} {name : String}
    (run : CompileRun arguments options name) : session arguments = perform options := by
  rw [session, run.understood]

end SlotCompiler.CommandLine
