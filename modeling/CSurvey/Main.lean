import CSurvey.CommandLine.Run

/-!
The command line program: it reads the file that the arguments name, and writes the answer.
-/

open CSurvey.CommandLine

/-- Reads a file as bytes. -/
def readSource (name : String) : IO (Except ReadFailure ByteArray) := do
  try
    let bytes ← IO.FS.readBinFile name
    pure (.ok bytes)
  catch
    | .noFileOrDirectory .. => pure (.error .notFound)
    | .permissionDenied .. => pure (.error .denied)
    | .inappropriateType .. => pure (.error .isDirectory)
    | e => pure (.error (.other (toString e)))

/-- Runs the command with the arguments of the program. -/
def main (arguments : List String) : IO UInt32 := do
  let result ← answer readSource arguments
  (← IO.getStdout).putStr result.output
  (← IO.getStderr).putStr result.errors
  pure result.code.toUInt32
