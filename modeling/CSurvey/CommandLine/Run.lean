import CSurvey.CommandLine.Arguments
import CSurvey.Listing

/-!
The answer to a command: an exit code and what the program writes to the two outputs. Reading the
file is left to the caller, and a failure of it is told apart by its cause. The explorer needs a
terminal, and the help and the complaints of the parser of arguments are not the program's own
words: there the answer is the exit code alone.
-/

namespace CSurvey.CommandLine

/-- Why a file cannot be read. -/
inductive ReadFailure where
  | notFound
  | isDirectory
  | notDirectory
  | denied
  | other (description : String)
  | notText
deriving DecidableEq, Repr

/-- The words for a cause. -/
def ReadFailure.message : ReadFailure → String
  | .notFound => "No such file or directory (os error 2)"
  | .denied => "Permission denied (os error 13)"
  | .notDirectory => "Not a directory (os error 20)"
  | .isDirectory => "Is a directory (os error 21)"
  | .other description => description
  | .notText => "stream did not contain valid UTF-8"

/-- The answer to a command. -/
structure Answer where
  code : Nat
  output : String := ""
  errors : String := ""
deriving DecidableEq, Repr

/-- The answer to arguments that cannot be taken. -/
def usageError : Answer :=
  { code := 2 }

/-- An examination in a format. Without a terminal the explorer fails. -/
def written (f : Findings) : Format → Answer
  | .report => { code := 0, output := f.reportText }
  | .json => { code := 0, output := f.jsonText }
  | .tokens => { code := 0, output := f.tokenListing }
  | .ast => { code := 0, output := f.treeListing }
  | .tui => { code := 1 }

/-- The text that bytes encode. -/
def decode (bytes : ByteArray) : Except ReadFailure String :=
  match String.fromUTF8? bytes with
  | some text => .ok text
  | none => .error .notText

/-- The answer for a file that has been read, or could not be. -/
def examineFile (file : String) (content : Except ReadFailure ByteArray) (format : Format)
    (settings : Settings) : Answer :=
  match content >>= decode with
  | .error e => { code := 1, errors := s!"Error: cannot read '{file}': " ++ e.message ++ "\n" }
  | .ok source =>
    match examine source settings with
    | .error e => { code := 1, errors := e.message ++ "\n" }
    | .ok f => written f format

/-- The answer to a request, when `read` reads a file. -/
def answer {m : Type → Type} [Monad m] (read : String → m (Except ReadFailure ByteArray))
    (arguments : List String) : m Answer :=
  match request? arguments with
  | none => pure usageError
  | some .version => pure { code := 0, output := "cinspect 0.1.0\n" }
  | some .help => pure { code := 0 }
  | some (.examine file format settings) => do
    let content ← read file
    pure (examineFile file content format settings)

end CSurvey.CommandLine
