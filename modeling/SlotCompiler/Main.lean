import SlotCompiler.CommandLine.Program

/-!
# The executable

Carries the session of the command line out on the files of the system.
-/

set_option autoImplicit false

namespace SlotCompiler.CommandLine

/-- The reason behind an error of the system. -/
def FileError.ofSystem : IO.Error → FileError
  | .noFileOrDirectory .. => .notFound
  | .inappropriateType _ 21 _ => .isDirectory
  | .permissionDenied _ code _ => .other ("Permission denied (os error " ++ toString code ++ ")")
  | error => .other (toString error)

/-- Carries a session out on the files of the system. -/
def Session.perform : Session → IO UInt32
  | .exit code output errors => do
    (← IO.getStdout).putStr output
    (← IO.getStderr).putStr errors
    return code
  | .read name next => do
    let outcome ← (IO.FS.readBinFile name).toBaseIO
    match outcome with
    | .ok bytes => (next (.ok bytes.toList)).perform
    | .error error => (next (.error (.ofSystem error))).perform
  | .write name bytes next => do
    let outcome ← (IO.FS.writeBinFile name ⟨bytes.toArray⟩).toBaseIO
    match outcome with
    | .ok () => (next (.ok ())).perform
    | .error error => (next (.error (.ofSystem error))).perform

end SlotCompiler.CommandLine

/-- Runs the command line. -/
def main (arguments : List String) : IO UInt32 :=
  (SlotCompiler.CommandLine.session arguments).perform
