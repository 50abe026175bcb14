import CSurvey.Findings
import CSurvey.Number.Reading

/-!
The arguments of a command. Options stand before or behind the file, in a long form or, for some, in
a short one; a short option takes the rest of its argument as its value, or else the argument that
follows. Two hyphens alone end the options. Arguments are taken from left to right, and the first
that cannot be taken decides, unless the version or the help has been asked for before.
-/

namespace CSurvey.CommandLine

/-- What is written out. -/
inductive Format where
  | tui | report | json | tokens | ast
deriving DecidableEq, Repr

/-- The name of a format. -/
def Format.name : Format → String
  | .tui => "tui"
  | .report => "report"
  | .json => "json"
  | .tokens => "tokens"
  | .ast => "ast"

/-- The formats. -/
def Format.all : List Format := [.tui, .report, .json, .tokens, .ast]

/-- The format of a given name. Letter case counts. -/
def Format.ofName? (name : String) : Option Format :=
  all.find? fun f => f.name = name

/-- The options that have a value. -/
inductive ValueOption where
  | format | maxBytes | maxNesting
deriving DecidableEq, Repr

/-- What has been read of a command. -/
structure Given where
  file : Option String := none
  format : Option Format := none
  maxBytes : Option Nat := none
  maxNesting : Option Nat := none
  noRecover : Bool := false
deriving DecidableEq, Repr

/-- What a command asks for. -/
inductive Request where
  | examine (file : String) (format : Format) (settings : Settings)
  | version
  | help
deriving DecidableEq, Repr

/-- A number of 64 bits: digits, perhaps with a plus sign before them. -/
def word? (text : String) : Option Nat :=
  let digits := match text.toList with
    | '+' :: digits => digits
    | digits => digits
  (Numeral.natural? digits).filter fun n => n < UInt64.size

/-- Takes the value of an option. An option that has been given before is refused. -/
def Given.setOption (g : Given) (o : ValueOption) (value : String) : Option Given :=
  match o with
  | .format =>
    if g.format.isSome then none
    else (Format.ofName? value).map fun f => { g with format := some f }
  | .maxBytes =>
    if g.maxBytes.isSome then none
    else (word? value).map fun n => { g with maxBytes := some n }
  | .maxNesting =>
    if g.maxNesting.isSome then none
    else (word? value).map fun n => { g with maxNesting := some n }

/-- Takes the file. There is one only, and its name is not empty. -/
def Given.setFile (g : Given) (name : String) : Option Given :=
  if g.file.isSome || name.isEmpty then none else some { g with file := some name }

/-- Takes the wish not to recover, which may be given once. -/
def Given.setNoRecover (g : Given) : Option Given :=
  if g.noRecover then none else some { g with noRecover := true }

/-- The request of a command whose arguments are all taken. The file has to be among them. -/
def Given.request? (g : Given) : Option Request :=
  let standard : Settings := {}
  g.file.map fun file =>
    .examine file (g.format.getD .tui)
      ⟨g.maxBytes.getD standard.maxBytes, g.maxNesting.getD standard.maxNesting,
        !g.noRecover⟩

/-- What one argument is. -/
inductive Argument where
  /-- The end of the options. -/
  | separator
  | file (name : String)
  | option (o : ValueOption) (value : Option String)
  | noRecover
  | version
  | help
  | unknown
deriving DecidableEq, Repr

/-- A long option, without its hyphens. -/
def longOption (cs : List Char) : Argument :=
  let value := match cs.dropWhile (· ≠ '=') with
    | _ :: value => some (String.ofList value)
    | [] => none
  match String.ofList (cs.takeWhile (· ≠ '=')), value with
  | "format", value => .option .format value
  | "max-source-len", value => .option .maxBytes value
  | "max-depth", value => .option .maxNesting value
  | "no-recover", none => .noRecover
  | "version", none => .version
  | "help", none => .help
  | _, _ => .unknown

/-- A short option, without its hyphen. An equals sign may stand before its value. -/
def shortOption (cs : List Char) : Argument :=
  match cs with
  | ['f'] => .option .format none
  | 'f' :: '=' :: value => .option .format (some (String.ofList value))
  | 'f' :: value => .option .format (some (String.ofList value))
  | 'V' :: _ => .version
  | 'h' :: _ => .help
  | _ => .unknown

/-- What an argument is while options may still come. A single hyphen is the name of a file. -/
def Argument.ofText (text : String) : Argument :=
  match text.toList with
  | ['-', '-'] => .separator
  | '-' :: '-' :: cs => longOption cs
  | ['-'] => .file text
  | '-' :: cs => shortOption cs
  | _ => .file text

/-- Whether an argument can be the value of the option before it. -/
def isValue (text : String) : Bool :=
  text = "-" || text.toList.head? ≠ some '-'

/-- Takes arguments behind the separator. All are files. -/
def takeFiles (g : Given) : List String → Option Request
  | [] => g.request?
  | name :: rest => do takeFiles (← g.setFile name) rest

/-- Takes arguments from left to right. -/
def takeArguments (g : Given) : List String → Option Request
  | [] => g.request?
  | text :: rest =>
    match Argument.ofText text with
    | .separator => takeFiles g rest
    | .file name => do takeArguments (← g.setFile name) rest
    | .option o (some value) => do takeArguments (← g.setOption o value) rest
    | .option o none =>
      match rest with
      | value :: rest =>
        if isValue value then do takeArguments (← g.setOption o value) rest
        else none
      | [] => none
    | .noRecover => do takeArguments (← g.setNoRecover) rest
    | .version => some .version
    | .help => some .help
    | .unknown => none

/-- The request that arguments make, if they can be taken. -/
def request? (arguments : List String) : Option Request :=
  takeArguments {} arguments

end CSurvey.CommandLine
