import MiniPascal.CommandLine.Command

/-!
# The command line program

Reads the arguments and the file they name, and puts out what the command responds.
-/

namespace MiniPascal.CommandLine

/-- The bytes of a file, if there is one, or the failure that its name is too long. -/
def readFile (path : String) : IO (Except Failure (Option (List UInt8))) := do
  try
    let bytes ← IO.FS.readBinFile path
    return .ok (some bytes.toList)
  catch
    | .invalidArgument .. => return .error (.nameTooLong path)
    | _ => return .ok none

/-- Puts out a failure and gives the exit status. -/
def putFailure (message : Text) : IO UInt32 := do
  (← IO.getStderr).putStrLn message.shown
  return 1

/-- Puts out a response and gives the exit status. -/
def putOut (r : Response) : IO UInt32 := do
  for (path, text) in r.writes do
    IO.FS.writeFile path.text text
  match r.stdout.encode with
  | .error fault => putFailure fault.message
  | .ok text =>
    (← IO.getStdout).putStr text
    (← IO.getStderr).putStr r.stderr.shown
    match r.result with
    | .ok status => return status.toUInt32
    | .error failure => putFailure failure.message

end MiniPascal.CommandLine

open MiniPascal.CommandLine in
/-- Runs a command line. A program may run for as long as it wants. -/
def main (arguments : List String) : IO UInt32 := do
  match Command.ofTexts arguments with
  | .error r => putOut r
  | .ok c =>
    match ← readFile c.path.text with
    | .ok bytes => putOut (c.respond (Nat.pow 2 62) bytes)
    | .error failure => putFailure failure.message
