import CSurvey.Proofs.Grammar.Joining
import CSurvey.Proofs.Survey.Counting
import CSurvey.Proofs.Token.Joining

/-! # Sources put together

The survey of a tree does not show its places, and what one tree adds to it does not depend on
another. So the survey of a source that follows another one is added to that of the first. -/

namespace CSurvey

open Moves (move)

/-! ## Entries at other places -/

namespace Node

variable {f : Position → Position}

@[simp] theorem head?_move (ns : List Node) : (move f ns).head? = move f ns.head? := by
  cases ns <;> rfl

@[simp] theorem bind_text?_move (n : Option Node) : (move f n).bind text? = n.bind text? := by
  cases n with
  | none => rfl
  | some n => exact move_text? n

@[simp] theorem leading?_move (n : Node) (kind : Kind) :
    (move f n).leading? kind = move f (n.leading? kind) := by
  rw [leading?, leading?, move_children, head?_move]
  cases n.children.head? with
  | none => rfl
  | some c =>
      show (some (move f c)).filter _ = move f ((some c).filter _)
      rw [Option.filter_some, Option.filter_some, move_kind]
      by_cases hc : c.kind = kind
      · simp only [hc, decide_true, if_true]
        rfl
      · simp only [hc, decide_false, Bool.false_eq_true, if_false]
        rfl

@[simp] theorem textOrUnknown_move (n : Node) : (move f n).textOrUnknown = n.textOrUnknown := by
  rw [textOrUnknown, move_text?, textOrUnknown]

@[simp] theorem declaredName_move (n : Node) (kind : Kind) :
    (move f n).declaredName kind = n.declaredName kind := by
  rw [declaredName, leading?_move, bind_text?_move, declaredName]

theorem parameterEntry_move (n : Node) : (move f n).parameterEntry = n.parameterEntry := by
  rw [parameterEntry, textOrUnknown_move, move_children, head?_move, bind_text?_move,
    parameterEntry]

theorem filter_kind_move (ns : List Node) (kind : Kind) :
    (move f ns).filter (fun c => c.kind = kind) = move f (ns.filter fun c => c.kind = kind) := by
  show (ns.map (move f)).filter _ = (ns.filter _).map (move f)
  rw [List.filter_map]
  congr 2
  funext c
  simp

theorem parameterEntries_move (n : Node) : (move f n).parameterEntries = n.parameterEntries := by
  rw [parameterEntries, parameterEntries, leading?_move]
  cases n.leading? .functionDeclarator with
  | none => rfl
  | some d =>
      show ((move f d).children.filter fun c => c.kind = .parameter).map parameterEntry =
        (d.children.filter fun c => c.kind = .parameter).map parameterEntry
      rw [move_children, filter_kind_move]
      show (List.map (move f) _).map parameterEntry = _
      rw [List.map_map]
      exact List.map_congr_left fun c _ => parameterEntry_move c

theorem functionEntry_move (n : Node) : (move f n).functionEntry = n.functionEntry := by
  rw [functionEntry, declaredName_move, textOrUnknown_move, parameterEntries_move, move_kind,
    functionEntry]

theorem variableEntry_move (n : Node) : (move f n).variableEntry = n.variableEntry := by
  rw [variableEntry, declaredName_move, textOrUnknown_move, variableEntry]

theorem macroEntry_move (n : Node) : (move f n).macroEntry = n.macroEntry := by
  rw [macroEntry, macroEntry, textOrUnknown_move, move_children, head?_move]
  cases n.children.head? with
  | none => rfl
  | some c => exact congrArg (fun text => MacroEntry.mk _ (some text)) (render_move c)

theorem structEntry_move (n : Node) : (move f n).structEntry = n.structEntry := by
  rw [structEntry, textOrUnknown_move, move_children, length_move, structEntry]

end Node

namespace Survey

/-! ## Sums of surveys -/

/-- Two surveys as one. -/
def joined (a b : Survey) : Survey where
  functions := a.functions ++ b.functions
  variableEntries := a.variableEntries ++ b.variableEntries
  inclusions := a.inclusions ++ b.inclusions
  macros := a.macros ++ b.macros
  structs := a.structs ++ b.structs
  comments := a.comments ++ b.comments
  lines := a.lines + b.lines
  complexity := a.complexity + b.complexity

theorem joined_empty (a : Survey) : a.joined {} = a := by
  simp [joined]

/-- What a node adds does not depend on what was there. -/
theorem note_joined (a b : Survey) (n : Node) : (a.joined b).note n = a.joined (b.note n) := by
  unfold note
  split
  all_goals simp [joined, UInt64.add_assoc]

mutual

theorem add_joined (a b : Survey) : (n : Node) → (a.joined b).add n = a.joined (b.add n)
  | ⟨kind, value, children, location⟩ => by
    rw [add, add, note_joined, addAll_joined a _ children]

theorem addAll_joined (a b : Survey) :
    (ns : List Node) → (a.joined b).addAll ns = a.joined (b.addAll ns)
  | [] => rfl
  | n :: ns => by
    rw [addAll, addAll, add_joined a b n, addAll_joined a _ ns]

end

theorem addAll_eq_joined (a : Survey) (ns : List Node) :
    a.addAll ns = a.joined (({} : Survey).addAll ns) := by
  rw [← addAll_joined, joined_empty]

theorem toNat_complexity_joined {a b : Survey}
    (h : a.complexity.toNat + b.complexity.toNat < UInt64.size) :
    (a.joined b).complexity.toNat = a.complexity.toNat + b.complexity.toNat :=
  (UInt64.toNat_add ..).trans (Nat.mod_eq_of_lt h)

/-! ## Surveys at other places -/

variable {f : Position → Position}

/-- What a node adds does not show its place. -/
theorem note_move (a : Survey) (n : Node) : a.note (move f n) = a.note n := by
  unfold note
  simp only [Node.move_kind, Node.functionEntry_move, Node.variableEntry_move,
    Node.textOrUnknown_move, Node.macroEntry_move, Node.structEntry_move, Node.move_text?]

mutual

theorem add_moved (a : Survey) : (n : Node) → a.add (n.moved f) = a.add n
  | ⟨kind, value, children, location⟩ => by
    have hnote := note_move (f := f) a ⟨kind, value, children, location⟩
    rw [add, ← hnote, ← addAll_movedAll _ children]
    rfl

theorem addAll_movedAll (a : Survey) :
    (ns : List Node) → a.addAll (Node.movedAll f ns) = a.addAll ns
  | [] => rfl
  | n :: ns => by
    rw [Node.movedAll, addAll, addAll, add_moved a n, addAll_movedAll _ ns]

end

/-- The survey of the trees of a file does not show their places. -/
theorem addAll_movedTo {ns ms : List Node} (a : Survey)
    (h : List.Forall₂ (Grammar.MovedTo f) ns ms) : a.addAll ms = a.addAll ns := by
  induction h generalizing a with
  | nil => rfl
  | cons hn _ ih =>
      rw [addAll, addAll, ih]
      cases hn with
      | part hn => rw [show move f _ = Node.moved f _ from rfl, add_moved]
      | error e => rfl

theorem ofNode_program (children : List Node) :
    ofNode (.plain .program .start children) = ({} : Survey).addAll children := rfl

end Survey

/-! ## Sources -/

open Grammar

theorem endsOnce_of_tokenize {source : String} {tokens : List Token}
    (h : tokenize source = .ok tokens) : EndsOnce tokens := by
  obtain ⟨inner, rfl, hinner⟩ := (tiles_of_tokenize h).ending
  exact ⟨inner, _, rfl, rfl, fun t ht => (hinner t ht).kind_ne⟩

/-- The newline between two sources stands for the end of the first one. -/
theorem length_of_joined {above below : String} {ts us whole : List Token}
    (habove : tokenize above = .ok ts) (hbelow : tokenize below = .ok us)
    (hwhole : tokenize (above ++ "\n" ++ below) = .ok whole) :
    whole.length = ts.length + us.length := by
  obtain ⟨inner, last, rfl, -, hjoined⟩ := tokenize_joined habove hbelow
  obtain rfl := Except.ok.inj (hwhole.symm.trans hjoined)
  simp only [List.length_append, List.length_cons, length_move, List.length_nil]
  omega

/-- A source that is read without a failure keeps its nodes above another one, whose nodes follow on
lower lines. -/
theorem exists_lower {above below : String} {ts us : List Token} {options : ParseSettings}
    (habove : tokenize above = .ok ts) (hbelow : tokenize below = .ok us)
    (hrecover : options.recover = true) (hclean : (parse ts options).isClean = true) :
    ∃ whole lower, tokenize (above ++ "\n" ++ below) = .ok whole ∧
      (parse whole options).root =
        .plain .program .start ((parse ts options).root.children ++ lower) ∧
      List.Forall₂ (MovedTo (Position.lowered (above.toList.count '\n' + 1)))
        (parse us options).root.children lower := by
  obtain ⟨inner, last, rfl, hinner, hwhole⟩ := tokenize_joined habove hbelow
  obtain ⟨inner', rfl, hinner'⟩ := (tiles_of_tokenize hbelow).ending
  obtain ⟨lower, hroot, hlower⟩ := parse_joined _ ⟨.newline, "\n", last⟩ last _
    hinner (fun t ht => (hinner' t ht).kind_ne) rfl hrecover hclean
  exact ⟨_, lower, hwhole, hroot, hlower⟩

/-- A tree with the nodes of two has the survey of both. -/
theorem ofNode_of_lower {whole ts us : List Token} {options : ParseSettings} {lower : List Node}
    {f : Position → Position} (hrecover : options.recover = true)
    (hroot : (parse whole options).root =
      .plain .program .start ((parse ts options).root.children ++ lower))
    (hlower : List.Forall₂ (MovedTo f) (parse us options).root.children lower) :
    Survey.ofNode (parse whole options).root =
      (Survey.ofNode (parse ts options).root).joined (Survey.ofNode (parse us options).root) := by
  rw [hroot, Survey.ofNode_program, Survey.addAll_append, Survey.addAll_eq_joined,
    Survey.addAll_movedTo _ hlower, ← Survey.ofNode_program, ← Survey.ofNode_program,
    ← parse_root hrecover, ← parse_root hrecover]

/-- A source that is read without a failure may stand above another one. The tree of the whole has
the children of both, those of the second on lower lines, and its survey is that of both. The
complexities add up as words, and as numbers too if a word can count the tokens, as it can in a
memory of 64-bit addresses. -/
theorem parse_above {above below : String} {ts us : List Token} {options : ParseSettings}
    (habove : tokenize above = .ok ts) (hbelow : tokenize below = .ok us)
    (hrecover : options.recover = true) (hclean : (parse ts options).isClean = true) :
    ∃ whole lower, tokenize (above ++ "\n" ++ below) = .ok whole ∧
      (parse whole options).root =
        .plain .program .start ((parse ts options).root.children ++ lower) ∧
      List.Forall₂ (MovedTo (Position.lowered (above.toList.count '\n' + 1)))
        (parse us options).root.children lower ∧
      Survey.ofNode (parse whole options).root =
        (Survey.ofNode (parse ts options).root).joined (Survey.ofNode (parse us options).root) ∧
      (whole.length < UInt64.size →
        (Survey.ofNode (parse whole options).root).complexity.toNat =
          (Survey.ofNode (parse ts options).root).complexity.toNat +
            (Survey.ofNode (parse us options).root).complexity.toNat) := by
  obtain ⟨whole, lower, hwhole, hroot, hlower⟩ := exists_lower habove hbelow hrecover hclean
  have hsurvey := ofNode_of_lower hrecover hroot hlower
  refine ⟨whole, lower, hwhole, hroot, hlower, hsurvey, fun hsize => ?_⟩
  have hts := toNat_complexity_parse_le (endsOnce_of_tokenize habove) options
  have hus := toNat_complexity_parse_le (endsOnce_of_tokenize hbelow) options
  rw [length_of_joined habove hbelow hwhole] at hsize
  rw [hsurvey]
  exact Survey.toNat_complexity_joined (Nat.lt_of_le_of_lt (Nat.add_le_add hts hus) hsize)

/-- A line comment that ends a source does not run into the next one, whose error says its lower
line. -/
theorem parse_above_failure :
    let above : List Token := [⟨.keyword .intKw, "int", ⟨1, 1⟩⟩, ⟨.identifier, "n", ⟨1, 5⟩⟩,
      ⟨.delimiter .semicolon, ";", ⟨1, 6⟩⟩, ⟨.lineComment, "//a", ⟨1, 7⟩⟩, .endOfInput ⟨1, 10⟩]
    let below : List Token := [⟨.keyword .intKw, "int", ⟨1, 1⟩⟩,
      ⟨.operator .assign, "=", ⟨1, 5⟩⟩, ⟨.delimiter .semicolon, ";", ⟨1, 6⟩⟩, .endOfInput ⟨1, 7⟩]
    tokenize "int n;//a" = .ok above ∧ tokenize "int =;" = .ok below ∧
      (parse above {}).isClean = true ∧
      ∃ whole lower, tokenize ("int n;//a" ++ "\n" ++ "int =;") = .ok whole ∧
        (parse whole {}).root = .plain .program .start ((parse above {}).root.children ++ lower) ∧
        List.Forall₂ (MovedTo (Position.lowered 1)) (parse below {}).root.children lower ∧
        Survey.ofNode (parse whole {}).root =
          (Survey.ofNode (parse above {}).root).joined (Survey.ofNode (parse below {}).root) ∧
        (whole.length < UInt64.size →
          (Survey.ofNode (parse whole {}).root).complexity.toNat =
            (Survey.ofNode (parse above {}).root).complexity.toNat +
              (Survey.ofNode (parse below {}).root).complexity.toNat) := by
  intro above below
  have habove : tokenize "int n;//a" = .ok above := rfl
  have hbelow : tokenize "int =;" = .ok below := rfl
  have hclean : (parse above {}).isClean = true := by decide +kernel
  exact ⟨habove, hbelow, hclean, parse_above habove hbelow rfl hclean⟩

end CSurvey
