import CSurvey.Proofs.Members.Completeness

/-! # Braces in struct bodies

What a struct body passes over in braces is counted up at each opening brace and down at each
closing one. The count goes down only where a brace is open: the body is read in the same way,
whatever a count below zero would come to. -/

namespace CSurvey.Grammar

/-- One token of what is passed over, behind which `count` braces are open. Where a brace closes
and none is open, the reader goes on with `below`. -/
def exactRound (below : Parse (Turn (Nat × List Token))) (count : Nat) (passed : List Token) :
    Parse (Turn (Nat × List Token)) := do
  let token ← takeFront
  let goOn (count : Nat) : Parse (Turn (Nat × List Token)) :=
    if count = 0 then pure (.done (count, token :: passed))
    else pure (.again (count, token :: passed))
  match token.kind with
  | .endOfInput => pure (.done (count, passed))
  | .delimiter .leftBrace => goOn (count + 1)
  | .delimiter .rightBrace =>
    match count with
    | 0 => below
    | count + 1 => goOn count
  | _ => goOn count

/-- Passes over a left brace and all up to the brace that matches it, by exact counts. -/
def passBracesOr (below : Parse (Turn (Nat × List Token))) (passed : List Token) :
    Parse (List Token) := do
  let (_, passed) ← loop (fun (count, passed) => exactRound below count passed) (0, passed)
  pure passed

/-- The members of a struct, where `pass` passes over what stands in braces. -/
def structBodyWith (pass : List Token → Parse (List Token)) (r : Rules) (tag : String) :
    Parse (List Node) := do
  let body ← loop
    (fun body => do
      let kind ← frontKind
      if kind = .delimiter .rightBrace then pure (.done body)
      else if kind = .endOfInput then fail (.openStruct tag)
      else if kind.isMemberType then
        reportPassed tag body.passed
        let found ← structMembers r
        pure (.again ⟨found.reverse ++ body.members, []⟩)
      else if kind = .delimiter .leftBrace then
        let passed ← pass body.passed
        pure (.again ⟨body.members, passed⟩)
      else
        let token ← takeFront
        pure (.again ⟨body.members, token :: body.passed⟩))
    (StructBody.mk [] [])
  reportPassed tag body.passed
  pure body.members.reverse

theorem structBodyWith_passBraces (r : Rules) (tag : String) :
    structBodyWith passBraces r tag = structBody r tag := rfl

/-- Braces are passed over only where the first of them opens. -/
theorem structBodyWith_congr {pass pass' : List Token → Parse (List Token)}
    (h : ∀ passed (s : State), s.front.kind = .delimiter .leftBrace →
      pass passed s = pass' passed s) (r : Rules) (tag : String) :
    structBodyWith pass r tag = structBodyWith pass' r tag := by
  unfold structBodyWith
  refine congrArg (· >>= _) (congrArg (loop · _) (funext fun body => funext fun s => ?_))
  rw [bind_apply, bind_apply, frontKind_apply]
  dsimp only
  by_cases hopens : s.front.kind = .delimiter .leftBrace
  · simp [hopens, Token.Kind.isMemberType, bind_apply, h _ s hopens]
  · simp [hopens]

/-! ## Where the count stays above zero -/

/-- A brace is open, or the next token opens one. -/
def BraceOpen (progress : Nat × List Token) (s : State) : Prop :=
  0 < progress.1 ∨ s.front.kind = .delimiter .leftBrace

variable {below : Parse (Turn (Nat × List Token))} {progress next : Nat × List Token} {s t : State}

/-- Where a brace is open, no closing brace is one too many. -/
theorem exactRound_eq (h : BraceOpen progress s) :
    exactRound below progress.1 progress.2 s = braceRound progress s := by
  obtain ⟨count, passed⟩ := progress
  cases count with
  | zero =>
      have hopens : s.front.kind = .delimiter .leftBrace := h.resolve_left (Nat.lt_irrefl 0)
      simp [exactRound, braceRound, bind_apply, takeFront_apply, hopens]
  | succ count =>
      cases count with
      | zero => rfl
      | succ count => rfl

/-- Only behind the last of the braces is none open. -/
theorem pos_of_braceRound (hround : braceRound progress s = .ok (.again next) t) : 0 < next.1 := by
  obtain ⟨count, passed⟩ := progress
  simp only [braceRound, bind_apply, takeFront_apply] at hround
  generalize s.front.kind = kind at hround
  split at hround
  · cases hround
  · cases hround
    exact Nat.succ_pos _
  · split at hround
    · cases hround
    · cases hround
      show 0 < count - 1
      omega
  · split at hround
    · cases hround
    · cases hround
      show 0 < count
      omega

/-- Rounds that agree while an invariant holds come to the same, if the invariant is kept from round
to round. -/
theorem rounds_congr {α : Type} {round round' : α → Parse (Turn α)} {I : α → State → Prop}
    (hround : ∀ a s, I a s → round a s = round' a s)
    (hagain : ∀ a b s t, I a s → round' a s = .ok (.again b) t → I b t)
    {fuel : List Token} {a : α} {s : State} (h : I a s) :
    rounds round fuel a s = rounds round' fuel a s := by
  induction fuel generalizing a s with
  | nil => rw [rounds, rounds, bind_apply, bind_apply, hround a s h]
  | cons x fuel ih =>
      rw [rounds, rounds, bind_apply, bind_apply, hround a s h]
      cases hturn : round' a s with
      | ok turn t =>
          cases turn with
          | again b => exact ih (hagain a b s t h hturn)
          | done b => rfl
      | error e t => rfl

/-- From a left brace on, no closing brace is one too many. -/
theorem passBracesOr_eq (below : Parse (Turn (Nat × List Token))) (passed : List Token) (s : State)
    (hopens : s.front.kind = .delimiter .leftBrace) :
    passBracesOr below passed s = passBraces passed s := by
  have hrounds : rounds (fun (count, passed) => exactRound below count passed) s.rest (0, passed) s =
      rounds braceRound s.rest (0, passed) s :=
    rounds_congr (fun _ _ => exactRound_eq) (fun _ _ _ _ _ hagain => .inl (pos_of_braceRound hagain))
      (.inr hopens)
  show (loop _ _ >>= _) s = (loop braceRound _ >>= _) s
  rw [bind_apply, bind_apply, loop, loop, hrounds]

/-- In a struct body no brace is counted off below zero: what would be done there makes no
difference. -/
theorem structBodyWith_passBracesOr (below : Parse (Turn (Nat × List Token))) (r : Rules)
    (tag : String) : structBodyWith (passBracesOr below) r tag = structBody r tag :=
  (structBodyWith_congr (passBracesOr_eq below) r tag).trans (structBodyWith_passBraces r tag)

end CSurvey.Grammar
