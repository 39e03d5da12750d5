import RobotControl.CommandLine.Transcript

/-!
# The program

Reads the files that the command line names, and writes the transcript.
-/

namespace RobotControl

/-- The number of a system error, which is reported with either sign. -/
def errorNumber (code : UInt32) : UInt32 := min code (0 - code)

/-- The read error that a failed system call stands for. -/
def ReadError.ofSystem (e : IO.Error) : ReadError :=
  match e with
  | .noFileOrDirectory .. => .notFound
  | .inappropriateType _ code _ =>
    if errorNumber code = 20 then .notDirectory
    else if errorNumber code = 21 then .isDirectory
    else .other (toString e)
  | .invalidArgument _ code _ =>
    if errorNumber code = 36 then .nameTooLong else .other (toString e)
  | .permissionDenied .. => .other "Permission denied (os error 13)"
  | _ => .other (toString e)

/-- The text of a file. -/
def readTextFile (path : String) : IO (Except ReadError String) := do
  try
    return decodeText (← IO.FS.readBinFile path)
  catch e =>
    return .error (.ofSystem e)

end RobotControl

def main (args : List String) : IO UInt32 := do
  let t ← RobotControl.Transcript.answer RobotControl.readTextFile args
  IO.print t.stdout
  IO.eprint t.stderr
  return t.code
