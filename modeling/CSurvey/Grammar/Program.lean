import CSurvey.Grammar.Statement

/-!
Whole files: a sequence of directive lines and declarations. An item that cannot be read becomes an
error node, and reading goes on behind it; or else, where recovery is not wanted, the first such
item ends everything. `parse` never fails.
-/

namespace CSurvey.Grammar

/-- The rules with `levels` constructs inside each other. -/
def Rules.level : Nat → Rules
  | 0 => .none
  | levels + 1 => {
      expression := fun s => Grammar.expression (level levels) s
      conditional := fun s => Grammar.conditional (level levels) s
      unary := fun s => Grammar.unary (level levels) s
      initializer := fun s => Grammar.initializer (level levels) s
      structSpecifier := fun s => Grammar.structSpecifier (level levels) s
      statement := fun s => Grammar.statement (level levels) s }

/-- As many levels as a list of tokens can need. Of two constructs directly inside each other one
takes a token, so no construct is nested deeper than twice the number of tokens. -/
def Rules.forTokens (tokens : List Token) : Rules :=
  .level (2 * tokens.length + 2)

/-- An item of a file. A token that opens none is passed over. -/
def item (r : Rules) : Parse (List Node) := do
  let kind ← frontKind
  if kind = .directive .inclusion then one inclusion
  else if kind = .directive .definition then one (macroDefinition r)
  else if kind.isDirective then one otherDirective
  else if kind.startsType then declaration r
  else
    let _ ← takeFront
    pure []

/-- The tokens behind a failed item, and the comments before them. An item that starts with a
directive ends before the newline; any other ends behind a semicolon outside braces, behind the
brace that closes its outermost one, or before the next directive outside braces. `first` says that
no token of the item has been passed yet. -/
def behindItem (isLine first : Bool) (braces : Nat) : List Token → List Node × List Token
  | [] => ([], [])
  | t :: rest =>
    let goOn (braces : Nat) := behindItem isLine false braces rest
    if t.kind = .newline && isLine then ([], t :: rest)
    else if t.kind.isComment then
      let (comments, left) := goOn braces
      (asComment t :: comments, left)
    else match t.kind with
      | .delimiter .leftBrace => goOn (braces + 1)
      | .delimiter .rightBrace => if braces ≤ 1 then ([], rest) else goOn (braces - 1)
      | .delimiter .semicolon => if braces = 0 then ([], rest) else goOn braces
      | .directive _ => if braces = 0 && !first then ([], t :: rest) else goOn braces
      | _ => goOn braces

/-- The state behind a failed item that started at `start`. Comments inside it are set aside, those
that the attempt had set aside are not. -/
def State.resume (failed : State) (start : List Token) : State :=
  let isLine := (start.head?.map fun t => t.kind.isDirective).getD false
  let (comments, rest) := behindItem isLine true 0 start
  { failed with rest, comments, depth := 0, onLine := false }

/-- The node for an item that could not be read. -/
def errorNode (f : Failure) : Node :=
  .texted .error f.message f.location []

/-- How far the reading of a file has come. Nodes and failures have the latest first. -/
structure Progress where
  nodes : List Node
  failures : List Failure
  state : State
deriving DecidableEq, Repr

/-- What the reading of a file comes to: all items, or the failure that ended it. -/
inductive Ending where
  | complete (progress : Progress)
  | stopped (failure : Failure) (state : State)
deriving DecidableEq, Repr

/-- Reads items up to the end. Each round but the last takes a token, so the tokens left at the
start bound the rounds. -/
def readItems (r : Rules) (recover : Bool) : List Token → Progress → Ending
  | fuel, ⟨nodes, failures, state⟩ =>
    let here := state.passTrivia
    let nodes := here.comments.reverse ++ nodes
    let here := { here with comments := [] }
    match here.rest, fuel with
    | [], _ | _, [] => .complete ⟨nodes, failures, here⟩
    | start, _ :: fuel =>
      match item r here with
      | .ok found next => readItems r recover fuel ⟨found.reverse ++ nodes, failures, next⟩
      | .error failure failed =>
        if recover then
          readItems r recover fuel
            ⟨errorNode failure :: nodes, failure :: failures, failed.resume start⟩
        else .stopped failure failed

/-- A parse that can be called again after it has ended. -/
structure Session where
  state : State
  recover : Bool
  diagnostics : List String
deriving DecidableEq, Repr

end Grammar

open Grammar

/-- The limits of a parse. -/
structure ParseSettings where
  /-- How deep constructs may nest. -/
  maxNesting : Nat := 48
  /-- Whether to go on behind an item that cannot be read. -/
  recover : Bool := true
deriving DecidableEq, Repr

namespace Grammar.Session

/-- The session before a list of tokens. -/
def ofTokens (tokens : List Token) (options : ParseSettings) : Session :=
  ⟨.ofTokens tokens options.maxNesting, options.recover, []⟩

/-- Reads from where the session stands to the end, or to the first failure if recovery is not
wanted. The result is a program node or the node of that failure. -/
def next (s : Session) : Node × Session :=
  let r := Rules.forTokens s.state.rest
  match readItems r s.recover s.state.rest ⟨[], [], s.state⟩ with
  | .complete p =>
    (.plain .program .start p.nodes.reverse,
      { s with
        state := p.state
        diagnostics := s.diagnostics ++ p.failures.reverse.map Failure.message })
  | .stopped failure state =>
    (errorNode failure,
      { s with state := state, diagnostics := s.diagnostics ++ [failure.message] })

/-- The notes of a session. -/
def warnings (s : Session) : List String :=
  s.state.warnings.map SkippedMember.message

end Grammar.Session

/-- A parsed file: its tree, what could not be read, and what was passed over. -/
structure Parsed where
  root : Node
  diagnostics : List String
  warnings : List String
deriving DecidableEq, Repr

namespace Parsed

/-- Whether all of the file could be read. -/
def isClean (p : Parsed) : Bool :=
  p.diagnostics.isEmpty

end Parsed

/-- Parses a list of tokens. -/
def parse (tokens : List Token) (options : ParseSettings) : Parsed :=
  let (root, session) := (Session.ofTokens tokens options).next
  ⟨root, session.diagnostics, session.warnings⟩

end CSurvey
