/-!
# Command-line arguments

The arguments name at most two files, the source and the target, and set options.  The options are
those of section 10.4 of the specification, and arguments are read by the documented rules of the
option parser that it prescribes.  Options may stand anywhere; behind `--` every argument is a file.
The value of an option may be the next argument or follow an equals sign.  No option is given twice,
and no file has an empty name.  The options `--help` and `--version`, and `-h` and `-V` for short,
are that parser's own.

Behind its message about arguments that are not understood, that parser prints hints, the usage and
where to find help.  Here the message is shortened to what is wrong with which argument.
-/

set_option autoImplicit false

namespace SlotCompiler.CommandLine

/-- What the arguments ask for. -/
structure Options where
  source : Option String := none
  target : Option String := none
  /-- The unit file to list instead of compiling. -/
  inspect : Option String := none
  tokens : Bool := false
  noColour : Bool := false
  tree : Bool := false
  listing : Bool := false
  stopOnFirstError : Bool := false
  deriving DecidableEq, Repr

/-- The target when none is named. -/
def defaultTarget : String := "out.cbc"

/-- Why arguments are not understood. -/
inductive UsageError where
  | unexpected (argument : String)
  | missingValue (option : String)
  | repeated (option : String)
  deriving DecidableEq, Repr

/-- The message about arguments that are not understood, shortened from what the option parser of
the specification prints about them: one line, without its hints and the usage. -/
def UsageError.message : UsageError → String
  | .unexpected argument => "error: unexpected argument '" ++ argument ++ "' found\n"
  | .missingValue option => "error: a value is required for '" ++ option ++ "'\n"
  | .repeated option =>
    "error: the argument '" ++ option ++ "' cannot be used multiple times\n"

/-- What a run is for. -/
inductive Invocation where
  | help
  | version
  | run (options : Options)
  deriving DecidableEq, Repr

namespace Options

/-- Takes the name of a file. -/
def addFile (options : Options) (name : String) : Except UsageError Options :=
  if options.source = none then
    if name = "" then .error (.missingValue "[SOURCE]")
    else .ok { options with source := some name }
  else if options.target = none then
    if name = "" then .error (.missingValue "[TARGET]")
    else .ok { options with target := some name }
  else .error (.unexpected name)

/-- Takes the names of files. -/
def addFiles (options : Options) : List String → Except UsageError Options
  | [] => .ok options
  | name :: names => do (← options.addFile name).addFiles names

/-- Takes the unit file to list. -/
def setInspect (options : Options) (name : String) : Except UsageError Options :=
  if name = "" then .error (.missingValue "--inspect <UNIT>")
  else if options.inspect = none then .ok { options with inspect := some name }
  else .error (.repeated "--inspect <UNIT>")

/-- Takes an option without a value. -/
def setFlag (options : Options) (flag : String) : Except UsageError Options :=
  let once (already : Bool) (changed : Options) : Except UsageError Options :=
    if already then .error (.repeated flag) else .ok changed
  match flag with
  | "--tokens" => once options.tokens { options with tokens := true }
  | "--no-color" => once options.noColour { options with noColour := true }
  | "--ast" => once options.tree { options with tree := true }
  | "--disasm" => once options.listing { options with listing := true }
  | "--stop-on-first-error" =>
    once options.stopOnFirstError { options with stopOnFirstError := true }
  | _ => .error (.unexpected flag)

/-- Whether an argument is an option and not a file. -/
def isOption (argument : String) : Bool :=
  match argument.toList with
  | '-' :: _ :: _ => true
  | _ => false

/-- The text behind `--inspect=`, if an argument begins so. -/
def inspectValue? (argument : String) : Option String :=
  let option := "--inspect=".toList
  if option.isPrefixOf argument.toList then
    some (String.ofList (argument.toList.drop option.length))
  else none

/-- Takes arguments one after the other, by the rules of the option parser of the specification.  A
request for the help or the version ends the reading, whatever follows. -/
def parse (options : Options) : List String → Except UsageError Invocation
  | [] => .ok (.run options)
  | "--" :: names => do return .run (← options.addFiles names)
  | "--help" :: _ => .ok .help
  | "--version" :: _ => .ok .version
  | "--inspect" :: arguments =>
    match arguments with
    | [] => .error (.missingValue "--inspect <UNIT>")
    | name :: arguments => do
      if isOption name then throw (.missingValue "--inspect <UNIT>")
      (← options.setInspect name).parse arguments
  | argument :: arguments => do
    match inspectValue? argument with
    | some name => (← options.setInspect name).parse arguments
    | none =>
      match argument.toList with
      | '-' :: 'h' :: _ => return .help
      | '-' :: 'V' :: _ => return .version
      | '-' :: _ :: _ => (← options.setFlag argument).parse arguments
      | _ => (← options.addFile argument).parse arguments

end Options

/-- What arguments ask for, read by the rules of section 10.4 of the specification. -/
def Invocation.ofArguments (arguments : List String) : Except UsageError Invocation :=
  ({} : Options).parse arguments

end SlotCompiler.CommandLine
