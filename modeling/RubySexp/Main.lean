import RubySexp.Command.Run

namespace RubySexp.Command

/-- The problem that an error of the system stands for. -/
def FileProblem.ofError : IO.Error → FileProblem
  | .noFileOrDirectory .. => .missing
  | .inappropriateType .. => .isDirectory
  | .permissionDenied .. => .denied
  | .invalidArgument .. => .nameTooLong
  | _ => .missing

/-- Reads the file that the arguments name, if they name one. -/
def readSource (directory : String) (arguments : List String) :
    IO (Except FileProblem String) := do
  match Request.read arguments with
  | .ok (.run o) =>
    if o.text then return .error .missing
    else
      try return .ok (← IO.FS.readFile (fullPath directory o.source))
      catch e => return .error (.ofError e)
  | _ => return .error .missing

end RubySexp.Command

/-- Runs the command and writes what it has to say. -/
def main (arguments : List String) : IO UInt32 := do
  let directory := toString (← IO.currentDir)
  let content ← RubySexp.Command.readSource directory arguments
  match (RubySexp.Command.run directory (fun _ => content) arguments).result with
  | .ok e =>
    (← IO.getStdout).putStr e.out
    (← IO.getStderr).putStr e.err
    return UInt32.ofNat e.exitCode
  | .error fault =>
    (← IO.getStderr).putStr (fault.message ++ "\n")
    return 1
