import CSurvey.Grammar.Failure
import CSurvey.Syntax.Node

/-!
The state of a parse and the steps that the grammar is made of. The state holds the tokens before
the first end of input; no step moves past them. Comments are always stepped over and set aside as
nodes, newlines only outside directive lines. A failure leaves the state as it is where it shows,
apart from the nesting depth and the line mode, which every construct gives back as it found them.
-/

namespace CSurvey.Grammar

/-- The state of a parse. -/
structure State where
  /-- The tokens not yet read, without the end of input and what may follow it. -/
  rest : List Token
  /-- The place of the end of input. -/
  stop : Position
  /-- How deep constructs may nest. -/
  limit : Nat
  /-- How deep the construct at hand is nested. -/
  depth : Nat
  /-- Whether a directive line is being read, so that a newline is a token to look at. -/
  onLine : Bool
  /-- The comments stepped over since comments were last collected. -/
  comments : List Node
  /-- The notes made so far. -/
  warnings : List SkippedMember
deriving DecidableEq, Repr

/-- A reader of some construct: it moves the state on and gives a result, or fails. -/
abbrev Parse := EStateM Failure State

/-- The node for a comment token. -/
def asComment (t : Token) : Node :=
  .texted .comment t.text t.location []

namespace State

/-- The state before a list of tokens. A list that does not close with an end of input ends where
its last token starts; the empty list at the start of a text. -/
def ofTokens (tokens : List Token) (limit : Nat) : State :=
  let closed : List Token := match tokens.getLast? with
    | some t => if t.kind = .endOfInput then tokens else tokens ++ [Token.endOfInput t.location]
    | none => [Token.endOfInput .start]
  let closing := closed.dropWhile fun t => t.kind ≠ .endOfInput
  { rest := closed.takeWhile fun t => t.kind ≠ .endOfInput
    stop := (closing.head?.map Token.location).getD .start
    limit, depth := 0, onLine := false, comments := [], warnings := [] }

/-- Whether a token is stepped over. -/
def isPassed (s : State) (t : Token) : Bool :=
  t.kind.isComment || (t.kind = .newline && !s.onLine)

/-- The tokens not yet read, from the first one on that counts. -/
def upcoming (s : State) : List Token :=
  s.rest.dropWhile s.isPassed

/-- The next token that counts. -/
def front (s : State) : Token :=
  s.upcoming.headD (.endOfInput s.stop)

/-- The token that counts after the next one. -/
def second (s : State) : Token :=
  ((s.upcoming.drop 1).dropWhile s.isPassed).headD (.endOfInput s.stop)

/-- The state with the trivia before the next token stepped over and its comments set aside. -/
def passTrivia (s : State) : State :=
  let passed := s.rest.takeWhile s.isPassed
  { s with
    rest := s.upcoming
    comments := s.comments ++ (passed.filter fun t => t.kind.isComment).map asComment }

/-- The state behind the next token; at the end it stays there. -/
def dropFront (s : State) : State :=
  let s := s.passTrivia
  { s with rest := s.rest.drop 1 }

/-- What comes first counts. -/
theorem isPassed_of_upcoming_cons {s : State} {t : Token} {ts : List Token}
    (h : s.upcoming = t :: ts) : s.isPassed t = false := by
  have := List.head?_dropWhile_not s.isPassed s.rest
  simp [upcoming] at h
  simp_all

@[simp] theorem upcoming_passTrivia (s : State) : s.passTrivia.upcoming = s.upcoming := by
  show s.upcoming.dropWhile s.isPassed = s.upcoming
  cases h : s.upcoming with
  | nil => rfl
  | cons t ts => simp [isPassed_of_upcoming_cons h]

@[simp] theorem front_passTrivia (s : State) : s.passTrivia.front = s.front := by
  simp only [front, upcoming_passTrivia]
  rfl

theorem length_upcoming_le (s : State) : s.upcoming.length ≤ s.rest.length :=
  (List.dropWhile_suffix s.isPassed).length_le

end State

/-- The next token, not taken. -/
def front : Parse Token := fun s => .ok s.front s

/-- The kind of the next token. -/
def frontKind : Parse Token.Kind := fun s => .ok s.front.kind s

/-- The kind of the token after the next one. -/
def secondKind : Parse Token.Kind := fun s => .ok s.second.kind s

/-- The place of the next token. -/
def here : Parse Position := fun s => .ok s.front.location s

/-- Takes the next token. The end of input stays. -/
def takeFront : Parse Token := fun s => .ok s.front s.dropFront

/-- Fails at the given place. -/
def failAt {α : Type} (location : Position) (cause : Cause) : Parse α :=
  fun s => .error ⟨cause, location⟩ s

/-- Fails at the next token. -/
def fail {α : Type} (cause : Cause) : Parse α := fun s => .error ⟨cause, s.front.location⟩ s

/-- Fails because of the next token. -/
def failFound {α : Type} (cause : Token → Cause) : Parse α :=
  fun s => .error ⟨cause s.front, s.front.location⟩ s

/-- Takes the next token if it is of the given kind, and says whether it was. -/
def accept (kind : Token.Kind) : Parse Bool := do
  if (← frontKind) = kind then
    let _ ← takeFront
    pure true
  else pure false

/-- Takes the next token, which has to be of the given kind. -/
def require (kind : Token.Kind) (place : Place) : Parse Token := do
  if (← frontKind) = kind then takeFront
  else failFound (.expected kind place)

/-- Takes a delimiter, which has to be next. -/
def requireMark (mark : Token.Delimiter) (place : Place) : Parse Token :=
  require (.delimiter mark) place

/-- Steps over trivia and hands out all comments set aside. -/
def takeComments : Parse (List Node) := fun s =>
  let s := s.passTrivia
  .ok s.comments { s with comments := [] }

/-- Makes a note. -/
def note (w : SkippedMember) : Parse Unit := fun s =>
  .ok () { s with warnings := s.warnings ++ [w] }

/-- Goes one level deeper for the rest of the enclosing construct, or fails at the limit. -/
def goDeeper : Parse Unit := fun s =>
  if s.depth < s.limit then .ok () { s with depth := s.depth + 1 }
  else .error ⟨.tooDeep s.limit, s.front.location⟩ s

/-- Reads a construct one level deeper, and comes back to the present level whatever happens. -/
def oneDeeper {α : Type} (p : Parse α) : Parse α := fun s =>
  match goDeeper s with
  | .error e s' => .error e s'
  | .ok _ s' =>
    match p s' with
    | .ok a t => .ok a { t with depth := s.depth }
    | .error e t => .error e { t with depth := s.depth }

/-- Reads what belongs to a directive line, and leaves the line mode whatever happens. -/
def onDirectiveLine {α : Type} (p : Parse α) : Parse α := fun s =>
  match p { s with onLine := true } with
  | .ok a t => .ok a { t with onLine := s.onLine }
  | .error e t => .error e { t with onLine := s.onLine }

/-- What a round of a loop comes to: another round, or the end. -/
inductive Turn (α : Type) where
  | again (value : α)
  | done (value : α)
deriving DecidableEq, Repr

/-- Runs rounds until one is the last, with at most one more round than `fuel` is long. -/
def rounds {α : Type} (round : α → Parse (Turn α)) : List Token → α → Parse α
  | [], value => do
    match ← round value with
    | .done result => pure result
    | .again _ => fail .exhausted
  | _ :: fuel, value => do
    match ← round value with
    | .done result => pure result
    | .again next => rounds round fuel next

/-- Runs rounds until one is the last. A round that asks for another has taken a token, so the
tokens left at the start bound the rounds. -/
def loop {α : Type} (round : α → Parse (Turn α)) (value : α) : Parse α := fun s =>
  rounds round s.rest value s

/-- One or more results, separated by commas. -/
def commaSeparated {α : Type} (p : Parse α) : Parse (List α) := do
  let found ← loop
    (fun found => do
      let next ← p
      if ← accept (.delimiter .comma) then pure (.again (next :: found))
      else pure (.done (next :: found)))
    []
  pure found.reverse

/-- The texts of the tokens up to the end of the line. -/
def lineTexts : Parse (List String) := do
  let found ← loop
    (fun found => do
      match ← frontKind with
      | .newline | .endOfInput => pure (.done found)
      | _ =>
        let token ← takeFront
        pure (.again (token.text :: found)))
    []
  pure found.reverse

end CSurvey.Grammar
