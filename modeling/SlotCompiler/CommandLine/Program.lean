import SlotCompiler.Bytecode.Listing
import SlotCompiler.CommandLine.Arguments
import SlotCompiler.CommandLine.Session
import SlotCompiler.Compilation
import SlotCompiler.Diagnostic.Report
import SlotCompiler.Token.Listing
import SlotCompiler.Tree.Outline
import SlotCompiler.Wire.Unit

/-!
# The command line

What the command does, as a session.  Listing a unit file comes before everything else; then,
without a source, the help text is printed.  A source is read and either listed token by token
or compiled.  The target is written last, and only if there is a unit to write.
-/

set_option autoImplicit false

namespace SlotCompiler.CommandLine

/-- The help text. -/
def help : String :=
  "Compiles a source file into a bytecode unit

Usage: cinder [OPTIONS] [SOURCE] [TARGET]

Arguments:
  [SOURCE]  Source file to compile
  [TARGET]  Output file [default: out.cbc]

Options:
      --tokens               Print the token stream and exit
      --no-color             Disable ANSI colors in --tokens output
      --ast                  Print the parsed syntax tree
      --disasm               Print a listing of the compiled unit
      --stop-on-first-error  Stop at the first error instead of recovering
      --inspect <UNIT>       Print a listing of an existing unit file and exit
  -h, --help                 Print help
  -V, --version              Print version
"

/-- The version text. -/
def version : String := "cinder 0.1.0\n"

/-- The message about a step that failed, and the cause of the failure. -/
def failure (step cause : String) : String :=
  "Error: " ++ step ++ "\n\nCaused by:\n    " ++ cause ++ "\n"

/-- Reads a file and goes on with its contents. -/
def withFile (name : String) (next : List UInt8 → Session) : Session :=
  .read name fun
    | .ok bytes => next bytes
    | .error error =>
      .exit 1 "" (failure ("could not open file '" ++ name ++ "'") error.message)

/-- Lists a unit file. -/
def inspect (name : String) : Session :=
  withFile name fun bytes =>
    match CodeUnit.load bytes with
    | .ok unit => .exit 0 (UnitListing.render unit) ""
    | .error error =>
      .exit 1 "" (failure ("could not load unit '" ++ name ++ "'") error.message)

/-- The report that options ask for. -/
def Options.report (options : Options) (source : Source) : Report where
  source := source
  policy := if options.stopOnFirstError then .stop else .resume

/-- Compiles a source.  If its tree is to be printed, that happens between parsing and lowering. -/
def translate (printsTree : Bool) (source : Source) (report : Report) :
    String × Except Rejection CodeUnit × Report :=
  if printsTree then
    match source.parse report with
    | (.ok tree, report) => (tree.render ++ "\n", source.generate tree report)
    | (.error rejection, report) => ("", .error rejection, report)
  else ("", source.compile report)

/-- Compiles a source that has been read, and writes the target. -/
def compile (options : Options) (source : Source) : Session :=
  let (outline, outcome, report) := translate options.tree source (options.report source)
  let errors := report.close.output
  match outcome with
  | .error _ => .exit 1 outline errors
  | .ok unit =>
    let output := outline ++ if options.listing then UnitListing.render unit else ""
    let target := options.target.getD defaultTarget
    .write target unit.encode fun
      | .ok () => .exit 0 output errors
      | .error error =>
        .exit 1 output
          (errors ++ failure ("could not create file '" ++ target ++ "'") error.message)

/-- What options ask for. -/
def perform (options : Options) : Session :=
  match options.inspect, options.source with
  | some unit, _ => inspect unit
  | none, none => .exit 0 help ""
  | none, some name =>
    withFile name fun bytes =>
      let source := Source.ofBytes bytes
      if options.tokens then .exit 0 (TokenListing.render (!options.noColour) source) ""
      else compile options source

/-- What arguments ask for. -/
def session (arguments : List String) : Session :=
  match Invocation.ofArguments arguments with
  | .error error => .exit 2 "" error.message
  | .ok .help => .exit 0 help ""
  | .ok .version => .exit 0 version ""
  | .ok (.run options) => perform options

end SlotCompiler.CommandLine
