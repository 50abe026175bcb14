import CSurvey.Proofs.Grammar.Routine

/-! # Parsing by positions

A parse on a whole list of tokens, with the index of the next one: what stands behind the first end
of input is kept, and every step looks tokens up by their index. Where no token has that index, and
where a loop does not come to its end, the parse is stuck. Beside the position and the depth, the
greatest ones so far are kept in mind. -/

namespace CSurvey

/-- A token as it is looked at: of an end of input, only the place counts. -/
def Token.seen (x : Token) : Token :=
  if x.kind = .endOfInput then .endOfInput x.location else x

namespace Grammar

/-- The state of a parse by positions. -/
structure Tape where
  /-- All tokens, whether or not they can be come to. -/
  tokens : List Token
  /-- The index of the next token. -/
  position : Nat
  /-- The greatest index that the position had so far. -/
  highest : Nat
  limit : Nat
  depth : Nat
  /-- The greatest depth so far. -/
  deepest : Nat
  onLine : Bool
  comments : List Node
  warnings : List SkippedMember
deriving DecidableEq, Repr

/-- The list with an end of input at its end: where it has none there, one is added. -/
def closed (tokens : List Token) : List Token :=
  match tokens.getLast? with
  | some t => if t.kind = .endOfInput then tokens else tokens ++ [.endOfInput t.location]
  | none => [.endOfInput .start]

namespace Tape

/-- The tape before a list of tokens. -/
def ofTokens (tokens : List Token) (limit : Nat) : Tape :=
  ⟨closed tokens, 0, 0, limit, 0, 0, false, [], []⟩

/-- The token at an index, if the list has one. -/
def token? (t : Tape) (index : Nat) : Option Token :=
  t.tokens[index]?.map Token.seen

def moveTo (t : Tape) (position : Nat) : Tape :=
  { t with position, highest := max t.highest position }

def toDepth (t : Tape) (depth : Nat) : Tape :=
  { t with depth, deepest := max t.deepest depth }

/-! ## Single steps -/

/-- Whether a token is stepped over. -/
def isPassed (t : Tape) (x : Token) : Bool :=
  x.kind.isComment || (x.kind = .newline && !t.onLine)

/-- The index behind at most `left` tokens that are stepped over. -/
def overTrivia (t : Tape) : Nat → Nat → Option Nat
  | 0, index => some index
  | left + 1, index => do
    let x ← t.token? index
    if t.isPassed x then t.overTrivia left (index + 1) else some index

/-- The index of the first token from `start` on that counts. The last token of the list is taken
to count, and no index is greater than its index. -/
def settle (t : Tape) (start : Nat) : Option Nat :=
  match t.tokens.length with
  | 0 => none
  | last + 1 => t.overTrivia (last - min start last) (min start last)

/-- The tape behind so many tokens of trivia, with the comments among them set aside. -/
def pass : Nat → Tape → Option Tape
  | 0, t => some t
  | left + 1, t => do
    let x ← t.token? t.position
    let comments := if x.kind.isComment then t.comments ++ [asComment x] else t.comments
    pass left { t.moveTo (t.position + 1) with comments }

/-- The tape behind the trivia that comes first. -/
def passTrivia (t : Tape) : Option Tape := do
  let target ← t.settle t.position
  pass (target - t.position) t

/-- The next token that counts. -/
def front (t : Tape) : Option Token := do
  t.token? (← t.settle t.position)

/-- The index of the token that counts `n` tokens behind the one at an index; at an end of input it
stays. -/
def ahead (t : Tape) : Nat → Nat → Option Nat
  | 0, index => some index
  | n + 1, index => do
    let x ← t.token? index
    if x.kind = .endOfInput then some index else t.ahead n (← t.settle (index + 1))

/-- The token that counts `n` tokens behind the next one. -/
def frontAhead (t : Tape) (n : Nat) : Option Token := do
  t.token? (← t.ahead n (← t.settle t.position))

/-- The next token that counts, and the tape behind it. At an end of input the tape stays. -/
def takeFront (t : Tape) : Option (Token × Tape) := do
  let t ← t.passTrivia
  let x ← t.token? t.position
  if x.kind = .endOfInput then some (x, t) else some (x, t.moveTo (t.position + 1))

end Tape

/-! ## Routines -/

/-- What a run by positions comes to. -/
inductive Scanned (α : Type) where
  /-- A token was looked up where there is none, or a loop has come to no end. -/
  | stuck
  | ok (value : α) (tape : Tape)
  | error (failure : Failure) (tape : Tape)
deriving DecidableEq, Repr

namespace Scanned

/-- Goes on with a value. -/
def andThen {α β : Type} (x : Scanned α) (next : α → Tape → Scanned β) : Scanned β :=
  match x with
  | .stuck => .stuck
  | .ok a t => next a t
  | .error e t => .error e t

/-- Changes the tape at the end, whatever the run has come to. -/
def settling {α : Type} (x : Scanned α) (change : Tape → Tape) : Scanned α :=
  match x with
  | .stuck => .stuck
  | .ok a t => .ok a (change t)
  | .error e t => .error e (change t)

end Scanned

/-- Goes one level deeper, or fails at the limit. -/
def Tape.goDeeper (t : Tape) : Scanned Unit :=
  if t.depth < t.limit then .ok () (t.toDepth (t.depth + 1))
  else match t.front with
    | some x => .error ⟨.tooDeep t.limit, x.location⟩ t
    | none => .stuck

/-- Runs so many rounds at most, until one is the last. -/
def scanRounds {α : Type} (round : α → Tape → Scanned (Turn α)) : Nat → α → Tape → Scanned α
  | 0, _, _ => .stuck
  | budget + 1, value, t => (round value t).andThen fun turn u =>
    match turn with
    | .again next => scanRounds round budget next u
    | .done result => .ok result u

/-- What a routine does to a tape, with so many rounds for each of its loops. -/
def Routine.scan (budget : Nat) : {α : Type} → Routine α → Tape → Scanned α
  | _, .pure a, t => .ok a t
  | _, .bind first next, t => (first.scan budget t).andThen fun a u => (next a).scan budget u
  | _, .look f, t =>
    match t.front, t.frontAhead 1 with
    | some x, some y => .ok (f x y) t
    | _, _ => .stuck
  | _, .stop f, t =>
    match t.front with
    | some x => .error (f x) t
    | none => .stuck
  | _, .takeFront, t =>
    match t.takeFront with
    | some (x, u) => .ok x u
    | none => .stuck
  | _, .takeComments, t =>
    match t.passTrivia with
    | some u => .ok u.comments { u with comments := [] }
    | none => .stuck
  | _, .note w, t => .ok () { t with warnings := t.warnings ++ [w] }
  | _, .goDeeper, t => t.goDeeper
  | _, .oneDeeper inner, t => t.goDeeper.andThen fun _ u =>
    (inner.scan budget u).settling fun v => v.toDepth t.depth
  | _, .onDirectiveLine inner, t =>
    (inner.scan budget { t with onLine := true }).settling fun u => { u with onLine := t.onLine }
  | _, .loop round value, t => scanRounds (fun a u => (round a).scan budget u) budget value t

/-! ## Files -/

namespace Tape

/-- Moves on behind a failed item that starts at index `start`, by at most `left` tokens. The search
ends at the end of the list, too. -/
def overItem (isLine : Bool) (start : Nat) : Nat → Nat → Tape → Tape
  | 0, _, t => t
  | left + 1, braces, t =>
    match t.token? t.position with
    | none => t
    | some x =>
      let behind := t.moveTo (t.position + 1)
      let goOn (braces : Nat) := overItem isLine start left braces behind
      if x.kind = .newline && isLine then t
      else if x.kind.isComment then
        overItem isLine start left braces
          { behind with comments := behind.comments ++ [asComment x] }
      else match x.kind with
        | .endOfInput => t
        | .delimiter .leftBrace => goOn (braces + 1)
        | .delimiter .rightBrace => if braces - 1 = 0 then behind else goOn (braces - 1)
        | .delimiter .semicolon => if braces = 0 then behind else goOn braces
        | .directive _ => if braces = 0 && t.position > start then t else goOn braces
        | _ => goOn braces

/-- The tape behind a failed item that starts at index `start`. -/
def resume (t : Tape) (start : Nat) : Option Tape := do
  let x ← t.token? start
  let back := { (t.moveTo start).toDepth 0 with onLine := false, comments := [] }
  some (overItem x.kind.isDirective start (t.tokens.length - start) 0 back)

/-- Reads items up to the end of input, in so many rounds at most. Nodes and failures have the
latest first. The result is what the file comes to, and the tape at the end. -/
def readItems (budget : Nat) (item : Routine (List Node)) (recover : Bool) :
    Nat → List Node → List Failure → Tape → Option (Parsed × Tape)
  | 0, _, _, _ => none
  | rounds + 1, nodes, failures, t => do
    let t ← t.passTrivia
    let nodes := t.comments.reverse ++ nodes
    let t := { t with comments := [] }
    if (← t.front).kind = .endOfInput then
      some (⟨.plain .program .start nodes.reverse, failures.reverse.map Failure.message,
        t.warnings.map SkippedMember.message⟩, t)
    else match item.scan budget t with
      | .stuck => none
      | .ok found u => readItems budget item recover rounds (found.reverse ++ nodes) failures u
      | .error failure u =>
        if recover then do
          let u ← u.resume t.position
          readItems budget item recover rounds (errorNode failure :: nodes) (failure :: failures) u
        else some (⟨errorNode failure, [failure.message], u.warnings.map SkippedMember.message⟩, u)

end Tape

/-- Parses a list of tokens by positions. -/
def scanFile (budget : Nat) (item : Routine (List Node)) (tokens : List Token)
    (options : ParseSettings) : Option (Parsed × Tape) :=
  Tape.readItems budget item options.recover budget [] []
    (.ofTokens tokens options.maxNesting)

end Grammar

end CSurvey
