import CSurvey.Proofs.Grammar.Joining
import CSurvey.Proofs.Grammar.Tape

/-! # Positions before the first end of input

A run by positions is a run on the tokens before the first end of input: the two take the same
steps, the position stays at or before that end, and every token that is looked up is there. -/

namespace CSurvey.Grammar

/-- What stays the same in the course of a parse: the tokens, cut at their first end of input, and
the limit of the depth. -/
structure Course where
  inner : List Token
  stop : Token
  behind : List Token
  limit : Nat
  stop_ends : stop.kind = .endOfInput
  inner_goesOn : ∀ x ∈ inner, x.kind ≠ .endOfInput

variable {c : Course} {t u : Tape} {s v : State} {x : Token} {a ts : List Token}

/-- The tape and the state stand at the same place of a parse. Neither the position nor the depth
of the tape has ever been out of bounds. -/
structure Course.Shows (c : Course) (t : Tape) (s : State) : Prop where
  tokens : t.tokens = c.inner ++ c.stop :: c.behind
  rest : s.rest = c.inner.drop t.position
  stop : s.stop = c.stop.location
  limit : t.limit = c.limit ∧ s.limit = c.limit
  depth : t.depth = s.depth
  onLine : t.onLine = s.onLine
  comments : t.comments = s.comments
  warnings : t.warnings = s.warnings
  position_le : t.position ≤ c.inner.length
  highest_le : t.highest ≤ c.inner.length
  depth_le : s.depth ≤ c.limit
  deepest_le : t.deepest ≤ c.limit

namespace State

theorem rest_eq_append_upcoming (s : State) :
    s.rest = s.rest.takeWhile s.isPassed ++ s.upcoming :=
  List.takeWhile_append_dropWhile.symm

theorem front_of_upcoming (h : s.upcoming = ts) : s.front = ts.headD (.endOfInput s.stop) := by
  rw [front, h]

theorem second_of_upcoming (h : s.upcoming = ts) :
    s.second = ((ts.drop 1).dropWhile s.isPassed).headD (.endOfInput s.stop) := by
  rw [second, h]

end State

namespace Course.Shows

/-! ## Tokens by their index -/

theorem length_rest (h : c.Shows t s) : t.position + s.rest.length = c.inner.length := by
  have hle := h.position_le
  rw [h.rest, List.length_drop]
  omega

theorem kind_ne (h : c.Shows t s) (hx : x ∈ s.rest) : x.kind ≠ .endOfInput := by
  rw [h.rest] at hx
  exact c.inner_goesOn x (List.mem_of_mem_drop hx)

/-- The token behind some of those left is the next one of the others, or the end. -/
theorem token?_eq (h : c.Shows t s) (hrest : s.rest = a ++ ts) :
    t.token? (t.position + a.length) = some (ts.headD (.endOfInput s.stop)) := by
  have hle : t.position + a.length ≤ c.inner.length := by
    have hlength := h.length_rest
    rw [hrest, List.length_append] at hlength
    omega
  have hdrop : t.tokens.drop (t.position + a.length) = ts ++ c.stop :: c.behind := by
    rw [h.tokens, List.drop_append_of_le_length hle, ← List.drop_drop, ← h.rest, hrest,
      List.drop_left]
  rw [Tape.token?, ← List.head?_drop, hdrop]
  cases ts with
  | nil => simp [Token.seen, c.stop_ends, h.stop]
  | cons x ts =>
      have hx : x.kind ≠ .endOfInput := h.kind_ne (by simp [hrest])
      simp [Token.seen, hx]

theorem isPassed_eq (h : c.Shows t s) (x : Token) : t.isPassed x = s.isPassed x := by
  rw [Tape.isPassed, State.isPassed, h.onLine]

theorem overTrivia_eq (h : c.Shows t s) {left : Nat} (hrest : s.rest = a ++ ts)
    (hleft : ts.length ≤ left) :
    t.overTrivia left (t.position + a.length) =
      some (t.position + a.length + (ts.takeWhile s.isPassed).length) := by
  induction ts generalizing a left with
  | nil =>
      cases left with
      | zero => rfl
      | succ left =>
          have hend : t.isPassed (.endOfInput s.stop) = false := rfl
          simp [Tape.overTrivia, h.token?_eq hrest, hend]
  | cons x ts ih =>
      obtain ⟨left, rfl⟩ := Nat.exists_eq_add_one_of_ne_zero (Nat.ne_zero_of_lt hleft)
      have hnext : t.overTrivia left (t.position + (a ++ [x]).length) =
          some (t.position + (a ++ [x]).length + (ts.takeWhile s.isPassed).length) :=
        ih (by simp [hrest]) (Nat.le_of_succ_le_succ hleft)
      rw [Tape.overTrivia, h.token?_eq hrest]
      by_cases hx : s.isPassed x = true
      · simp only [Option.bind_eq_bind, Option.bind_some, List.headD_cons, h.isPassed_eq, hx,
          if_true, List.takeWhile_cons_of_pos, List.length_cons]
        rw [List.length_append, List.length_singleton, ← Nat.add_assoc] at hnext
        rw [hnext]
        congr 1
        omega
      · simp [h.isPassed_eq, hx]

/-- Behind some of the tokens left, the next index that counts is the first one not passed over. -/
theorem settle_eq (h : c.Shows t s) (hrest : s.rest = a ++ ts) :
    t.settle (t.position + a.length) =
      some (t.position + a.length + (ts.takeWhile s.isPassed).length) := by
  have hlength := h.length_rest
  rw [hrest, List.length_append] at hlength
  have htokens : t.tokens.length = c.inner.length + c.behind.length + 1 := by
    rw [h.tokens, List.length_append, List.length_cons]
    omega
  rw [Tape.settle, htokens]
  dsimp only
  rw [Nat.min_eq_left (by omega)]
  exact h.overTrivia_eq hrest (by omega)

theorem settle_position (h : c.Shows t s) :
    t.settle t.position = some (t.position + (s.rest.takeWhile s.isPassed).length) :=
  h.settle_eq (a := []) rfl

/-- The index of the next token that counts. -/
theorem token?_front (h : c.Shows t s) :
    t.token? (t.position + (s.rest.takeWhile s.isPassed).length) = some s.front :=
  h.token?_eq s.rest_eq_append_upcoming

theorem front_eq (h : c.Shows t s) : t.front = some s.front := by
  simp [Tape.front, h.settle_position, h.token?_front]

theorem frontAhead_eq (h : c.Shows t s) : t.frontAhead 1 = some s.second := by
  have hsplit := s.rest_eq_append_upcoming
  cases hup : s.upcoming with
  | nil =>
      have hfront : s.front = .endOfInput s.stop := State.front_of_upcoming hup
      have hsecond : s.second = .endOfInput s.stop := State.second_of_upcoming hup
      have hends : (Token.endOfInput s.stop).kind = .endOfInput := rfl
      simp [Tape.frontAhead, Tape.ahead, h.settle_position, h.token?_front, hfront, hsecond, hends]
  | cons x ts =>
      rw [hup] at hsplit
      have hfront : s.front = x := State.front_of_upcoming hup
      have hx : x.kind ≠ .endOfInput := h.kind_ne (by rw [hsplit]; simp)
      have hbehind : s.rest = s.rest.takeWhile s.isPassed ++ [x] ++ ts := by
        rw [List.append_assoc]
        exact hsplit
      have hnext := h.settle_eq hbehind
      have hlast : s.rest = s.rest.takeWhile s.isPassed ++ [x] ++ ts.takeWhile s.isPassed ++
          ts.dropWhile s.isPassed := by
        rw [List.append_assoc, List.takeWhile_append_dropWhile]
        exact hbehind
      have hsecond := h.token?_eq hlast
      simp only [List.length_append, List.length_singleton, ← Nat.add_assoc] at hnext hsecond
      have hstate : s.second = (ts.dropWhile s.isPassed).headD (.endOfInput s.stop) :=
        State.second_of_upcoming hup
      simp [Tape.frontAhead, Tape.ahead, h.settle_position, h.token?_front, hfront, hx, hnext,
        hsecond, hstate]

/-! ## Moves -/

/-- The place behind some of the tokens left. -/
theorem moveTo (h : c.Shows t s) (hrest : s.rest = a ++ ts) :
    c.Shows (t.moveTo (t.position + a.length)) { s with rest := ts } := by
  have hlength := h.length_rest
  rw [hrest, List.length_append] at hlength
  have hle : t.position + a.length ≤ c.inner.length := by omega
  refine { h with rest := ?_, position_le := hle, highest_le := Nat.max_le.mpr ⟨h.highest_le, hle⟩ }
  show ts = c.inner.drop (t.position + a.length)
  rw [← List.drop_drop, ← h.rest, hrest, List.drop_left]

theorem withComments (h : c.Shows t s) (comments : List Node) :
    c.Shows { t with comments } { s with comments } :=
  { h with comments := rfl }

theorem toDepth (h : c.Shows t s) {depth : Nat} (hdepth : depth ≤ c.limit) :
    c.Shows (t.toDepth depth) { s with depth } :=
  { h with
    depth := rfl
    depth_le := hdepth
    deepest_le := Nat.max_le.mpr ⟨h.deepest_le, hdepth⟩ }

theorem withLine (h : c.Shows t s) (onLine : Bool) :
    c.Shows { t with onLine } { s with onLine } :=
  { h with onLine := rfl }

theorem exists_pass (h : c.Shows t s) (hrest : s.rest = a ++ ts) :
    ∃ u, Tape.pass a.length t = some u ∧
      c.Shows u { s with rest := ts, comments := s.comments ++ commentNodes a } := by
  induction a generalizing t s with
  | nil =>
      obtain rfl : s.rest = ts := hrest
      exact ⟨t, rfl, by simpa [commentNodes] using h⟩
  | cons x a ih =>
      have hx : t.token? t.position = some x := h.token?_eq (a := []) hrest
      let comments := if x.kind.isComment then t.comments ++ [asComment x] else t.comments
      have hcomments : comments = s.comments ++ commentNodes [x] := by
        by_cases hk : x.kind.isComment = true
        · simp [comments, commentNodes, hk, h.comments]
        · simp [comments, commentNodes, hk, h.comments]
      have hnext : c.Shows { t.moveTo (t.position + 1) with comments }
          { s with rest := a ++ ts, comments } :=
        (h.moveTo (a := [x]) hrest).withComments comments
      obtain ⟨u, hu, hshows⟩ := ih hnext rfl
      refine ⟨u, ?_, ?_⟩
      · rw [List.length_cons, Tape.pass, hx]
        exact hu
      · have hall : comments ++ commentNodes a = s.comments ++ commentNodes (x :: a) := by
          rw [hcomments, List.append_assoc, ← commentNodes_append, List.singleton_append]
        rwa [← hall]

theorem exists_passTrivia (h : c.Shows t s) :
    ∃ u, t.passTrivia = some u ∧ c.Shows u s.passTrivia := by
  obtain ⟨u, hu, hshows⟩ := h.exists_pass s.rest_eq_append_upcoming
  refine ⟨u, ?_, hshows⟩
  rw [Tape.passTrivia, h.settle_position]
  simpa using hu

theorem exists_takeFront (h : c.Shows t s) :
    ∃ u, t.takeFront = some (s.front, u) ∧ c.Shows u s.dropFront := by
  obtain ⟨u, hu, hshows⟩ := h.exists_passTrivia
  have hx : u.token? u.position = some s.front := by
    have hfirst := hshows.token?_eq (a := []) rfl
    exact hfirst
  cases hup : s.upcoming with
  | nil =>
      have hfront : s.front = .endOfInput s.stop := State.front_of_upcoming hup
      have hdrop : s.dropFront = s.passTrivia := by
        show { s.passTrivia with rest := s.upcoming.drop 1 } = s.passTrivia
        rw [hup]
        exact congrArg (fun rest => { s.passTrivia with rest }) hup.symm
      refine ⟨u, ?_, hdrop ▸ hshows⟩
      rw [Tape.takeFront, hu]
      simp only [Option.bind_eq_bind, Option.bind_some, hx]
      rw [hfront]
      rfl
  | cons x ts =>
      have hfront : s.front = x := State.front_of_upcoming hup
      have hrest : s.passTrivia.rest = [x] ++ ts := hup
      have hends : x.kind ≠ .endOfInput := hshows.kind_ne (by simp [hrest])
      have hnext : c.Shows (u.moveTo (u.position + 1)) { s.passTrivia with rest := ts } :=
        hshows.moveTo hrest
      refine ⟨u.moveTo (u.position + 1), ?_, ?_⟩
      · rw [Tape.takeFront, hu]
        simp [hx, hfront, hends]
      · have hdrop : s.dropFront = { s.passTrivia with rest := ts } := by
          show { s.passTrivia with rest := s.upcoming.drop 1 } = _
          rw [hup]
          rfl
        rwa [hdrop]

end Course.Shows

/-! ## Routines -/

/-- A run by positions comes to the same as a run on the tokens left. -/
inductive Course.Follows (c : Course) {α : Type} :
    Scanned α → EStateM.Result Failure State α → Prop where
  | ok {a : α} {t : Tape} {s : State} : c.Shows t s → Follows c (.ok a t) (.ok a s)
  | error {e : Failure} {t : Tape} {s : State} : c.Shows t s → Follows c (.error e t) (.error e s)

namespace Course.Follows

variable {α β : Type}

theorem bind {p : Parse α} {f : α → Parse β} {x : Scanned α} {next : α → Tape → Scanned β}
    (hx : ¬RunsOut (p s) → c.Follows x (p s))
    (hnext : ∀ a t u, c.Shows t u → ¬RunsOut (f a u) → c.Follows (next a t) (f a u))
    (hout : ¬RunsOut ((p >>= f) s)) : c.Follows (x.andThen next) ((p >>= f) s) := by
  rw [bind_apply] at hout ⊢
  cases hp : p s with
  | ok a u =>
      rw [hp] at hx hout
      cases hx fun h => h with
      | ok hshows => exact hnext a _ u hshows hout
  | error e u =>
      rw [hp] at hx hout
      cases hx hout with
      | error hshows => exact .error hshows

theorem goDeeper (h : c.Shows t s) : c.Follows t.goDeeper (goDeeper s) := by
  have hlimit : t.limit = s.limit := h.limit.1.trans h.limit.2.symm
  unfold Tape.goDeeper Grammar.goDeeper
  rw [h.depth, hlimit, h.front_eq]
  by_cases hroom : s.depth < s.limit
  · rw [if_pos hroom, if_pos hroom]
    exact .ok (h.toDepth (h.limit.2 ▸ hroom))
  · rw [if_neg hroom, if_neg hroom]
    exact .error h

theorem oneDeeper {p : Parse α} {inner : Tape → Scanned α} (h : c.Shows t s)
    (hinner : ∀ u v, c.Shows u v → ¬RunsOut (p v) → c.Follows (inner u) (p v))
    (hout : ¬RunsOut (oneDeeper p s)) :
    c.Follows (t.goDeeper.andThen fun _ u => (inner u).settling fun v => v.toDepth t.depth)
      (oneDeeper p s) := by
  have hdeeper := goDeeper h
  unfold Grammar.oneDeeper at hout ⊢
  generalize t.goDeeper = x at hdeeper ⊢
  generalize Grammar.goDeeper s = r at hdeeper hout ⊢
  cases hdeeper with
  | error hshows => exact .error hshows
  | @ok _ u v hshows =>
      have hrun := hinner u v hshows
      dsimp only [Scanned.andThen] at hout ⊢
      generalize inner u = y at hrun ⊢
      rw [h.depth]
      cases hp : p v with
      | ok a w =>
          rw [hp] at hrun
          cases hrun fun h => h with
          | ok hend => exact .ok (hend.toDepth h.depth_le)
      | error e w =>
          rw [hp] at hrun hout
          cases hrun hout with
          | error hend => exact .error (hend.toDepth h.depth_le)

theorem onDirectiveLine {p : Parse α} {inner : Tape → Scanned α} (h : c.Shows t s)
    (hinner : ∀ u v, c.Shows u v → ¬RunsOut (p v) → c.Follows (inner u) (p v))
    (hout : ¬RunsOut (onDirectiveLine p s)) :
    c.Follows ((inner { t with onLine := true }).settling fun u => { u with onLine := t.onLine })
      (onDirectiveLine p s) := by
  have hrun := hinner _ _ (h.withLine true)
  unfold Grammar.onDirectiveLine at hout ⊢
  generalize inner { t with onLine := true } = y at hrun ⊢
  rw [h.onLine]
  cases hp : p { s with onLine := true } with
  | ok a w =>
      rw [hp] at hrun
      cases hrun fun h => h with
      | ok hend => exact .ok (hend.withLine s.onLine)
  | error e w =>
      rw [hp] at hrun hout
      cases hrun hout with
      | error hend => exact .error (hend.withLine s.onLine)

/-- A loop that does not give up takes no more rounds than its tokens allow for. -/
theorem rounds {round : α → Parse (Turn α)} {scanned : α → Tape → Scanned (Turn α)}
    {fuel : List Token} {budget : Nat} {value : α} (hfuel : fuel.length < budget)
    (hround : ∀ a u v, c.Shows u v → ¬RunsOut (round a v) → c.Follows (scanned a u) (round a v))
    (h : c.Shows t s) (hout : ¬RunsOut (rounds round fuel value s)) :
    c.Follows (scanRounds scanned budget value t) (rounds round fuel value s) := by
  induction fuel generalizing budget value t s with
  | nil =>
      obtain ⟨budget, rfl⟩ := Nat.exists_eq_add_one_of_ne_zero (Nat.ne_zero_of_lt hfuel)
      refine bind (hround value t s h) ?_ hout
      intro turn u v hshows hout
      cases turn with
      | again next => exact absurd rfl hout
      | done result => exact .ok hshows
  | cons x fuel ih =>
      obtain ⟨budget, rfl⟩ := Nat.exists_eq_add_one_of_ne_zero (Nat.ne_zero_of_lt hfuel)
      refine bind (hround value t s h) ?_ hout
      intro turn u v hshows hout
      cases turn with
      | again next => exact ih (Nat.lt_of_succ_lt_succ hfuel) hshows hout
      | done result => exact .ok hshows

end Course.Follows

/-- A routine does by positions what its reading does, if the reading does not give up. -/
theorem Course.follows_scan {budget : Nat} (hbudget : c.inner.length < budget) {α : Type}
    (m : Routine α) (h : c.Shows t s) (hout : ¬RunsOut (m.read s)) :
    c.Follows (m.scan budget t) (m.read s) := by
  induction m generalizing t s with
  | pure a => exact .ok h
  | bind first next ihfirst ihnext =>
      exact .bind (ihfirst h) (fun a u v hshows hout => ihnext a hshows hout) hout
  | look f =>
      simp only [Routine.scan, h.front_eq, h.frontAhead_eq]
      exact .ok h
  | stop f =>
      simp only [Routine.scan, h.front_eq]
      exact .error h
  | takeFront =>
      obtain ⟨u, hu, hshows⟩ := h.exists_takeFront
      simp only [Routine.scan, hu]
      exact .ok hshows
  | takeComments =>
      obtain ⟨u, hu, hshows⟩ := h.exists_passTrivia
      simp only [Routine.scan, hu]
      rw [hshows.comments]
      exact .ok (hshows.withComments [])
  | note w => exact .ok { h with warnings := congrArg (· ++ [w]) h.warnings }
  | goDeeper => exact .goDeeper h
  | oneDeeper inner ih => exact .oneDeeper h (fun u v hshows hout => ih hshows hout) hout
  | onDirectiveLine inner ih =>
      exact .onDirectiveLine h (fun u v hshows hout => ih hshows hout) hout
  | loop round value ih =>
      have hlength := h.length_rest
      exact .rounds (by omega) (fun a u v hshows hout => ih a hshows hout) h hout

/-! ## Recovery -/

namespace Course.Shows

theorem stays (h : c.Shows t s) (hrest : s.rest = ts) :
    c.Shows t { s with rest := ts, comments := s.comments ++ [] } := by
  rw [List.append_nil, ← hrest]
  exact h

/-- The search behind a failed item that starts at index `start` takes the steps of `behindItem`. It
has passed no token of the item yet exactly if it stands at that index. -/
theorem overItem (isLine first : Bool) (start braces : Nat) {left : Nat} (h : c.Shows t s)
    (hrest : s.rest = ts) (hleft : ts.length ≤ left) (hstart : start ≤ t.position)
    (hfirst : first = true ↔ t.position = start) :
    c.Shows (Tape.overItem isLine start left braces t)
      { s with
        rest := (behindItem isLine first braces ts).2
        comments := s.comments ++ (behindItem isLine first braces ts).1 } := by
  induction ts generalizing t s left braces first with
  | nil =>
      have hstays := h.stays hrest
      cases left with
      | zero => exact hstays
      | succ left =>
          have hx : t.token? t.position = some (.endOfInput s.stop) := h.token?_eq (a := []) hrest
          rw [Tape.overItem, hx]
          exact hstays
  | cons x ts ih =>
      obtain ⟨left, rfl⟩ := Nat.exists_eq_add_one_of_ne_zero (Nat.ne_zero_of_lt hleft)
      have hx : t.token? t.position = some x := h.token?_eq (a := []) hrest
      have hends : x.kind ≠ .endOfInput := h.kind_ne (by simp [hrest])
      have hnext : c.Shows (t.moveTo (t.position + 1)) { s with rest := ts } :=
        h.moveTo (a := [x]) hrest
      have hstays := h.stays hrest
      have hleaves := hnext.stays rfl
      have hpast : start ≤ (t.moveTo (t.position + 1)).position := Nat.le_succ_of_le hstart
      have hlater : false = true ↔ (t.moveTo (t.position + 1)).position = start := by
        simp [Tape.moveTo]
        omega
      have hgoOn : ∀ braces, c.Shows
          (Tape.overItem isLine start left braces (t.moveTo (t.position + 1)))
          { s with
            rest := (behindItem isLine false braces ts).2
            comments := s.comments ++ (behindItem isLine false braces ts).1 } :=
        fun braces => ih (s := { s with rest := ts }) false braces hnext rfl
          (Nat.le_of_succ_le_succ hleft) hpast hlater
      rw [Tape.overItem, hx, behindItem]
      dsimp only
      by_cases hline : (x.kind = .newline && isLine) = true
      · rw [if_pos hline, if_pos hline]
        exact hstays
      · rw [if_neg hline, if_neg hline]
        by_cases hcomment : x.kind.isComment = true
        · rw [if_pos hcomment, if_pos hcomment]
          have hset := ih false braces (hnext.withComments (s.comments ++ [asComment x])) rfl
            (Nat.le_of_succ_le_succ hleft) hpast hlater
          have hcomments : (t.moveTo (t.position + 1)).comments = s.comments := h.comments
          rw [hcomments]
          simpa using hset
        · rw [if_neg hcomment, if_neg hcomment]
          cases hk : x.kind with
          | endOfInput => exact absurd hk hends
          | directive marker =>
              have hbehind : decide (t.position > start) = !first := by
                cases first <;> simp at hfirst ⊢ <;> omega
              dsimp only
              rw [hbehind]
              split
              · exact hstays
              · exact hgoOn braces
          | delimiter mark =>
              cases mark with
              | leftBrace => exact hgoOn (braces + 1)
              | rightBrace =>
                  dsimp only
                  by_cases hlast : braces ≤ 1
                  · rw [if_pos hlast, if_pos (by omega)]
                    exact hleaves
                  · rw [if_neg hlast, if_neg (by omega)]
                    exact hgoOn (braces - 1)
              | semicolon =>
                  dsimp only
                  split
                  · exact hleaves
                  · exact hgoOn braces
              | _ => exact hgoOn braces
          | _ => exact hgoOn braces

/-- Behind a failed item, the reading goes on where the item started. -/
theorem exists_resume {failed : State} (hgoes : s.rest ≠ []) (h : c.Shows t s)
    (hfailed : c.Shows u failed) :
    ∃ w, u.resume t.position = some w ∧ c.Shows w (failed.resume s.rest) := by
  obtain ⟨x, ts, hrest⟩ := List.exists_cons_of_ne_nil hgoes
  have hx : u.token? t.position = some x := by
    have hsame : t.token? t.position = some x := h.token?_eq (a := []) hrest
    rwa [Tape.token?, h.tokens, ← hfailed.tokens] at hsame
  have hback : c.Shows { (u.moveTo t.position).toDepth 0 with onLine := false, comments := [] }
      { failed with rest := s.rest, depth := 0, onLine := false, comments := [] } :=
    { hfailed with
      rest := h.rest
      depth := rfl
      onLine := rfl
      comments := rfl
      position_le := h.position_le
      highest_le := Nat.max_le.mpr ⟨hfailed.highest_le, h.position_le⟩
      depth_le := Nat.zero_le _
      deepest_le := Nat.max_le.mpr ⟨hfailed.deepest_le, Nat.zero_le _⟩ }
  have hleft : s.rest.length ≤ u.tokens.length - t.position := by
    have hlength := h.length_rest
    rw [hfailed.tokens, List.length_append]
    omega
  have hover := hback.overItem x.kind.isDirective true t.position 0 rfl hleft (Nat.le_refl _)
    (iff_of_true rfl rfl)
  refine ⟨_, by rw [Tape.resume, hx]; rfl, ?_⟩
  rw [List.nil_append] at hover
  rw [State.resume, hrest]
  rwa [hrest] at hover

end Course.Shows

/-! ## Files -/

namespace Course.Shows

/-- Before an item, the comments are passed by positions as well. -/
theorem exists_flush {p : Progress} (h : c.Shows t p.state) :
    ∃ u, t.passTrivia = some u ∧ u.comments.reverse ++ p.nodes = p.flush.nodes ∧
      c.Shows { u with comments := [] } p.flush.state := by
  obtain ⟨u, hu, hpassed⟩ := h.exists_passTrivia
  refine ⟨u, hu, ?_, hpassed.withComments []⟩
  rw [hpassed.comments]
  rfl

theorem front_ends_iff (h : c.Shows t s) (hsettled : s.Settled) :
    s.front.kind = .endOfInput ↔ s.rest = [] := by
  cases hrest : s.rest with
  | nil =>
      have hfront : s.front = .endOfInput s.stop := State.front_of_upcoming (hsettled.trans hrest)
      simp [hfront, Token.endOfInput]
  | cons x ts =>
      have hfront : s.front = x := State.front_of_upcoming (hsettled.trans hrest)
      simp [hfront, h.kind_ne (x := x) (by simp [hrest])]

end Course.Shows

/-- The state in which a reading ends. -/
def Ending.state : Ending → State
  | .complete progress => progress.state
  | .stopped _ state => state

/-- Reading items by positions comes to the same as reading them from the tokens left. -/
theorem Course.exists_readItems {budget rounds levels : Nat} {recover : Bool} {p : Progress}
    (m : Routine.For (item (.level levels))) (hbudget : c.inner.length < budget)
    (h : c.Shows t p.state) (hrounds : p.state.rest.length < rounds)
    (hlevels : p.state.rest.length < levels) :
    ∃ u, Tape.readItems budget m.1 recover rounds p.nodes p.failures t =
        some ((readOn (.level levels) recover p).parsed, u) ∧
      c.Shows u (readOn (.level levels) recover p).state := by
  have hr := Rules.level_composed levels
  induction rounds generalizing t p with
  | zero => exact absurd hrounds (Nat.not_lt_zero _)
  | succ rounds ih =>
      obtain ⟨u, hu, hnodes, hhere⟩ := h.exists_flush
      have hends := hhere.front_ends_iff p.settled_flush
      rw [Tape.readItems, hu]
      simp only [Option.bind_eq_bind, Option.bind_some, hnodes, hhere.front_eq]
      by_cases hend : p.flush.state.rest = []
      · rw [if_pos (hends.mpr hend), readOn_end hend]
        refine ⟨_, ?_, hhere⟩
        rw [Ending.parsed, ← hhere.warnings]
        rfl
      · rw [if_neg (hend ∘ hends.mp)]
        have hshort := p.length_flush_le
        have hfollows := follows_scan hbudget m.1 hhere
        rw [m.2] at hfollows
        replace hfollows := hfollows (not_runsOut_item (Nat.lt_of_le_of_lt hshort hlevels))
        generalize m.1.scan budget { u with comments := [] } = y at hfollows ⊢
        cases hitem : item (.level levels) p.flush.state with
        | ok found next =>
            rw [hitem] at hfollows
            cases hfollows with
            | ok hnext =>
                have hlt := length_item_lt hr hend hitem
                rw [readOn_ok hr hend hitem]
                exact ih (p := ⟨found.reverse ++ p.flush.nodes, p.failures, next⟩) hnext
                  (show next.rest.length < rounds by omega)
                  (show next.rest.length < levels by omega)
        | error failure failed =>
            rw [hitem] at hfollows
            cases hfollows with
            | error hfailed =>
                cases recover with
                | true =>
                    obtain ⟨w, hw, hresumed⟩ := Course.Shows.exists_resume hend hhere hfailed
                    let next := failed.resume p.flush.state.rest
                    have hlt : next.rest.length < _ := length_resume_flush_lt failed hend
                    rw [readOn_recovered hr hend hitem]
                    dsimp only at hw ⊢
                    rw [if_pos rfl, hw]
                    exact ih (p := ⟨errorNode failure :: p.flush.nodes, failure :: p.failures, next⟩)
                      hresumed (show next.rest.length < rounds by omega)
                      (show next.rest.length < levels by omega)
                | false =>
                    rw [readOn_stopped hr hend hitem]
                    refine ⟨_, ?_, hfailed⟩
                    dsimp only
                    rw [if_neg Bool.false_ne_true, hfailed.warnings]
                    rfl

end CSurvey.Grammar
