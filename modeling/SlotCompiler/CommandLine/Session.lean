/-!
# Sessions

A session is what a program does with files, as a value: it reads a file and goes on with the
contents, or writes one and goes on with the outcome, until it exits with two texts and a code.

`run` carries a session out on a directory, a flat collection of named files.  A name with a
slash in it leads into a directory that does not exist.
-/

set_option autoImplicit false

namespace SlotCompiler.CommandLine

/-- Why a file cannot be read or written. -/
inductive FileError where
  | notFound
  | isDirectory
  /-- Any other reason, in the system's words. -/
  | other (description : String)
  deriving DecidableEq, Repr

/-- The system's message about a file. -/
def FileError.message : FileError → String
  | .notFound => "No such file or directory (os error 2)"
  | .isDirectory => "Is a directory (os error 21)"
  | .other description => description

/-- What a program does with files. -/
inductive Session where
  | exit (code : UInt32) (output errors : String)
  | read (name : String) (next : Except FileError (List UInt8) → Session)
  | write (name : String) (bytes : List UInt8) (next : Except FileError Unit → Session)

/-- A directory without further directories: files and their contents. -/
structure Directory where
  files : List (String × List UInt8)
  deriving DecidableEq, Repr

namespace Directory

/-- Why a name cannot be a file's, if it cannot. -/
def misnamed? (name : String) : Option FileError :=
  if name = "." ∨ name = ".." then some .isDirectory
  else if name = "" ∨ name.toList.contains '/' then some .notFound
  else none

/-- The contents of a file. -/
def read (directory : Directory) (name : String) : Except FileError (List UInt8) :=
  match misnamed? name with
  | some error => .error error
  | none =>
    match directory.files.lookup name with
    | some bytes => .ok bytes
    | none => .error .notFound

/-- Some files with the contents of one put in place, or behind the others if it is new. -/
def put (name : String) (bytes : List UInt8) :
    List (String × List UInt8) → List (String × List UInt8)
  | [] => [(name, bytes)]
  | file :: files =>
    if file.1 = name then (name, bytes) :: files else file :: put name bytes files

/-- The directory with new contents of a file. -/
def write (directory : Directory) (name : String) (bytes : List UInt8) :
    Except FileError Directory :=
  match misnamed? name with
  | some error => .error error
  | none => .ok ⟨put name bytes directory.files⟩

end Directory

/-- The end of a session: its exit code, its texts, and the files it leaves. -/
structure Ending where
  code : UInt32
  output : String
  errors : String
  directory : Directory
  deriving DecidableEq, Repr

/-- Carries a session out on a directory. -/
def Session.run (directory : Directory) : Session → Ending
  | .exit code output errors => ⟨code, output, errors, directory⟩
  | .read name next => (next (directory.read name)).run directory
  | .write name bytes next =>
    match directory.write name bytes with
    | .ok changed => (next (.ok ())).run changed
    | .error error => (next (.error error)).run directory

end SlotCompiler.CommandLine
