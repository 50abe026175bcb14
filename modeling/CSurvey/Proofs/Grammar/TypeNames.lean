import CSurvey.Proofs.Grammar.Words

/-! # The words of types

Which words a successful reading of a type has taken. The body of a struct is left open here: it is
no more than some words behind a brace. -/

namespace CSurvey

/-- The spelling of the kind of a word, or its text where the kind has no spelling of its own. -/
def Word.spelling (w : Word) : String :=
  w.1.spelling?.getD w.2

/-- The words of a base type or of a struct, and what they add to the words of a type's text.
`Body` says what may stand behind the tag of a struct. -/
inductive NamesBase (Body : List Word → Prop) : List String → List Word → Prop where
  | base {w : Word} (hw : w.1.isBaseType = true) : NamesBase Body [w.spelling] [w]
  | struct {k tag : Word} {body : List Word} (hk : k.1 = .keyword .structKw)
      (htag : tag.1 = .identifier) (hbody : Body body) :
      NamesBase Body ["struct " ++ tag.2] (k :: tag :: body)
  | absent : NamesBase Body [] []

/-- The words of a type without stars, and its text. -/
inductive NamesSpecifier (Body : List Word → Prop) : String → List Word → Prop where
  | intro {modifiers base : List Word} {names : List String}
      (hmodifiers : ∀ w ∈ modifiers, w.1.isTypeModifier = true)
      (hbase : NamesBase Body names base) (hsome : modifiers ++ base ≠ []) :
      NamesSpecifier Body (" ".intercalate (modifiers.map Word.spelling ++ names))
        (modifiers ++ base)

/-- The words of a type with its stars, and its text. -/
inductive NamesType (Body : List Word → Prop) : String → List Word → Prop where
  | plain {text : String} {ws : List Word} : NamesSpecifier Body text ws → NamesType Body text ws
  | star {text : String} {ws : List Word} {w : Word} (hw : w.1 = .operator .star) :
      NamesType Body text ws → NamesType Body (text ++ "*") (ws ++ [w])

/-- The first word of a type is one that opens types. -/
theorem NamesType.head {Body : List Word → Prop} {text : String} {ws : List Word}
    (h : NamesType Body text ws) : ∃ w ws', ws = w :: ws' ∧ w.1.startsType = true := by
  induction h with
  | plain h =>
      obtain ⟨hmodifiers, hbase, hsome⟩ := h
      rename_i modifiers base names
      cases modifiers with
      | nil =>
          cases hbase with
          | base hw => exact ⟨_, _, rfl, by simp [Token.Kind.startsType, hw]⟩
          | struct hk => exact ⟨_, _, rfl, by simp [Token.Kind.startsType, hk]⟩
          | absent => contradiction
      | cons w modifiers =>
          have hw := hmodifiers w (List.mem_cons_self ..)
          exact ⟨w, _, rfl, by simp [Token.Kind.startsType, hw]⟩
  | star _ _ ih =>
      obtain ⟨w, ws, rfl, hw⟩ := ih
      exact ⟨w, _, rfl, hw⟩

/-- So many pointer stars. -/
def starsText (n : Nat) : String :=
  String.ofList (List.replicate n '*')

theorem append_star_starsText (text : String) (n : Nat) :
    text ++ "*" ++ starsText n = text ++ starsText (n + 1) := by
  rw [starsText, starsText, List.replicate_succ, String.append_assoc, ← List.singleton_append,
    String.ofList_append]

theorem starsText_append_star (n : Nat) : starsText n ++ "*" = starsText (n + 1) := by
  rw [starsText, starsText, List.replicate_succ', String.ofList_append]

/-- The stars of a type stand behind all its other words. -/
theorem NamesType.split {Body : List Word → Prop} {text : String} {ws : List Word}
    (h : NamesType Body text ws) :
    ∃ base ts stars, NamesSpecifier Body base ts ∧ (∀ w ∈ stars, w.1 = .operator .star) ∧
      ws = ts ++ stars ∧ text = base ++ starsText stars.length := by
  induction h with
  | @plain text ws h => exact ⟨text, ws, [], h, by simp, by simp, by simp [starsText]⟩
  | @star text ws w hw _ ih =>
      obtain ⟨base, ts, stars, hts, hstars, rfl, rfl⟩ := ih
      refine ⟨base, ts, stars ++ [w], hts, ?_, by simp, ?_⟩
      · exact List.forall_mem_append.mpr ⟨hstars, by simpa using hw⟩
      · rw [String.append_assoc, starsText_append_star, List.length_append, List.length_singleton]

/-- Nothing, or something behind a brace. -/
def Braced (body : List Word) : Prop :=
  ∀ w ∈ body.head?, w.1 = .delimiter .leftBrace

namespace Grammar

variable {Body : List Word → Prop} {s t : State} {k : Token.Kind}

/-! ## Single steps -/

theorem State.script_of_front (h : s.front.kind ≠ .endOfInput) :
    s.script = s.front.word :: s.dropFront.script := by
  cases hs : s.script with
  | nil =>
      rw [s.front_kind, hs] at h
      exact absurd rfl h
  | cons w ws =>
      rw [s.front_word hs, s.script_dropFront hs]

theorem takeFront_eq_ok {token : Token} :
    takeFront s = .ok token t ↔ s.front = token ∧ s.dropFront = t := by
  show EStateM.Result.ok s.front s.dropFront = .ok token t ↔ _
  simp

theorem frontKind_eq_ok : frontKind s = .ok k t ↔ s.front.kind = k ∧ s = t := by
  show EStateM.Result.ok s.front.kind s = .ok k t ↔ _
  simp

theorem accept_apply (k : Token.Kind) (s : State) :
    accept k s = if s.front.kind = k then .ok true s.dropFront else .ok false s := by
  show (if s.front.kind = k then _ else _ : Parse Bool) s = _
  split
  · rfl
  · rfl

theorem accept_ite_apply {α : Type} (k : Token.Kind) (p q : Parse α) (s : State) :
    (do if ← accept k then p else q) s = if s.front.kind = k then p s.dropFront else q s := by
  rw [bind_apply, accept_apply]
  by_cases hk : s.front.kind = k
  · rw [if_pos hk, if_pos hk]
    rfl
  · rw [if_neg hk, if_neg hk]
    rfl

theorem require_apply (k : Token.Kind) (place : Place) (s : State) :
    require k place s =
      if s.front.kind = k then .ok s.front s.dropFront
      else .error ⟨.expected k place s.front, s.front.location⟩ s := by
  show (if s.front.kind = k then _ else _ : Parse Token) s = _
  split
  · rfl
  · rfl

/-- A token of the kind looked for has been taken, or none. -/
theorem accept_eq_ok {b : Bool} :
    accept k s = .ok b t ↔
      s.front.kind = k ∧ b = true ∧ s.dropFront = t ∨ s.front.kind ≠ k ∧ b = false ∧ s = t := by
  rw [accept_apply]
  by_cases hk : s.front.kind = k
  · simp [hk, eq_comm]
  · simp [hk, eq_comm]

/-- The required token has been taken. -/
theorem require_eq_ok {place : Place} {token : Token} :
    require k place s = .ok token t ↔ s.front.kind = k ∧ s.front = token ∧ s.dropFront = t := by
  rw [require_apply]
  by_cases hk : s.front.kind = k
  · simp [hk]
  · simp [hk]

/-- The tokens between two states of a run, and the words of those that count. -/
theorem State.Leads.passed (h : s.Leads t) :
    ∃ passed, s.rest = passed ++ t.rest ∧
      s.script = (passed.filter fun x => !s.isPassed x).map Token.word ++ t.script := by
  obtain ⟨passed, hrest⟩ := h.rest
  refine ⟨passed, hrest.symm, ?_⟩
  have hpassed : t.isPassed = s.isPassed := by
    funext x
    simp [State.isPassed, h.onLine]
  rw [State.script, State.script, State.words, State.words, ← hrest, hpassed, List.filter_append,
    List.map_append]

/-- What lies between two states of a run are words. -/
theorem State.Leads.script (h : s.Leads t) : ∃ ws, s.script = ws ++ t.script := by
  obtain ⟨passed, -, hscript⟩ := h.passed
  exact ⟨_, hscript⟩

/-! ## Types -/

theorem typeModifiers_words {words : List String} (h : typeModifiers s = .ok words t) :
    ∃ ws, s.script = ws ++ t.script ∧ words = ws.map Word.spelling ∧
      ∀ w ∈ ws, w.1.isTypeModifier = true := by
  obtain ⟨found, u, hfound, h⟩ := bind_eq_ok.mp h
  obtain ⟨rfl, rfl⟩ := pure_eq_ok.mp h
  let reads : List String → State → Prop := fun found u =>
    ∃ ws, s.script = ws ++ u.script ∧ found.reverse = ws.map Word.spelling ∧
      ∀ w ∈ ws, w.1.isTypeModifier = true
  refine loop_ok (I := reads) (D := reads) ?_ ⟨[], rfl, rfl, by simp⟩ hfound
  rintro found u turn v ⟨ws, hs, hfound, hws⟩ hturn
  obtain ⟨kind, u', hkind, hturn⟩ := bind_eq_ok.mp hturn
  obtain ⟨rfl, rfl⟩ := frontKind_eq_ok.mp hkind
  split at hturn
  · rename_i hmodifier
    obtain ⟨token, v', htoken, hturn⟩ := bind_eq_ok.mp hturn
    obtain ⟨rfl, rfl⟩ := takeFront_eq_ok.mp htoken
    obtain ⟨rfl, rfl⟩ := pure_eq_ok.mp hturn
    have hfront : u.front.kind ≠ .endOfInput := by
      rintro hend
      rw [hend] at hmodifier
      contradiction
    refine ⟨ws ++ [u.front.word], ?_, ?_, ?_⟩
    · rw [hs, State.script_of_front hfront, List.append_assoc]
      rfl
    · rw [List.reverse_cons, hfound, List.map_append]
      rfl
    · exact List.forall_mem_append.mpr ⟨hws, List.forall_mem_singleton.mpr hmodifier⟩
  · obtain ⟨rfl, rfl⟩ := pure_eq_ok.mp hturn
    exact ⟨ws, hs, hfound, hws⟩

/-- Between the states stand the keyword for a struct, the tag of the node and what `Body` says may
follow a tag. -/
def ReadsStruct (Body : List Word → Prop) (s : State) (node : Node) (t : State) : Prop :=
  ∃ k tag body, s.script = k :: tag :: body ++ t.script ∧ node.text? = some tag.2 ∧
    k.1 = .keyword .structKw ∧ tag.1 = .identifier ∧ Body body

/-- A struct takes its keyword, its tag and perhaps a body, which opens with a brace. -/
theorem structSpecifier_words {r : Rules} {node : Node} (habsent : Body [])
    (hbody : ∀ {u v : State} {tag : String} {members : List Node},
      u.front.kind = .delimiter .leftBrace → structBody r tag u.dropFront = .ok members v →
      v.front.kind = .delimiter .rightBrace →
      ∃ body, u.script = body ++ v.dropFront.script ∧ Body body)
    (hs : s.front.kind = .keyword .structKw) (h : structSpecifier r s = .ok node t) :
    ReadsStruct Body s node t := by
  obtain ⟨keyword, u, hkeyword, h⟩ := bind_eq_ok.mp h
  obtain ⟨rfl, rfl⟩ := takeFront_eq_ok.mp hkeyword
  obtain ⟨kind, u, hkind, h⟩ := bind_eq_ok.mp h
  obtain ⟨rfl, rfl⟩ := frontKind_eq_ok.mp hkind
  split at h
  · rename_i htag
    obtain ⟨tag, u, htoken, h⟩ := bind_eq_ok.mp h
    obtain ⟨rfl, rfl⟩ := takeFront_eq_ok.mp htoken
    obtain ⟨b, v, haccept, h⟩ := bind_eq_ok.mp h
    have hfront := State.script_of_front (s := s) (by simp [hs])
    rw [State.script_of_front (s := s.dropFront) (by simp [htag])] at hfront
    rcases accept_eq_ok.mp haccept with ⟨hbrace, rfl, rfl⟩ | ⟨-, rfl, rfl⟩
    · obtain ⟨members, v, hmembers, h⟩ := bind_eq_ok.mp h
      obtain ⟨close, w, hclose, h⟩ := bind_eq_ok.mp h
      obtain ⟨rfl, rfl⟩ := pure_eq_ok.mp h
      obtain ⟨hc, rfl, rfl⟩ := require_eq_ok.mp hclose
      obtain ⟨body, hscript, hwords⟩ := hbody hbrace hmembers hc
      refine ⟨s.front.word, s.dropFront.front.word, body, ?_, rfl, hs, htag, hwords⟩
      rw [hfront, hscript]
      rfl
    · obtain ⟨rfl, rfl⟩ := pure_eq_ok.mp h
      exact ⟨s.front.word, s.dropFront.front.word, [], hfront, rfl, hs, htag, habsent⟩
  · simp [failFound] at h

/-- Whatever a body in braces is, it opens with a brace. -/
theorem structBody_braced {r : Rules} (hr : r.Composed) {u v : State} {tag : String}
    {members : List Node} (hbrace : u.front.kind = .delimiter .leftBrace)
    (h : structBody r tag u.dropFront = .ok members v)
    (hclose : v.front.kind = .delimiter .rightBrace) :
    ∃ body, u.script = body ++ v.dropFront.script ∧ Braced body := by
  obtain ⟨ws, hws⟩ := ((Composed.structBody hr _).toTrue.leads h).script
  refine ⟨u.front.word :: (ws ++ [v.front.word]), ?_, ?_⟩
  · rw [State.script_of_front (s := u) (by simp [hbrace]), hws,
      State.script_of_front (s := v) (by simp [hclose])]
    simp
  · rintro w hw
    obtain rfl : u.front.word = w := by simpa using hw
    exact hbrace

theorem typeSpecifier_words {r : Rules} {type : TypeSpecifier}
    (hr : ∀ s t node, s.front.kind = .keyword .structKw → r.structSpecifier s = .ok node t →
      ReadsStruct Body s node t)
    (h : typeSpecifier r s = .ok type t) :
    ∃ ws, s.script = ws ++ t.script ∧ NamesSpecifier Body type.text ws := by
  obtain ⟨words, u, hwords, h⟩ := bind_eq_ok.mp h
  obtain ⟨ws, hs, rfl, hws⟩ := typeModifiers_words hwords
  obtain ⟨kind, u, hkind, h⟩ := bind_eq_ok.mp h
  obtain ⟨rfl, rfl⟩ := frontKind_eq_ok.mp hkind
  split at h
  · rename_i hbase
    obtain ⟨token, v, htoken, h⟩ := bind_eq_ok.mp h
    obtain ⟨rfl, rfl⟩ := takeFront_eq_ok.mp htoken
    obtain ⟨rfl, rfl⟩ := pure_eq_ok.mp h
    have hfront : u.front.kind ≠ .endOfInput := by
      rintro hend
      rw [hend] at hbase
      contradiction
    have hnames : NamesBase Body [u.front.word.spelling] [u.front.word] := .base hbase
    refine ⟨ws ++ [u.front.word], ?_, .intro hws hnames (by simp)⟩
    rw [hs, State.script_of_front hfront, List.append_assoc]
    rfl
  · split at h
    · rename_i hstruct
      obtain ⟨node, v, hnode, h⟩ := bind_eq_ok.mp h
      obtain ⟨rfl, rfl⟩ := pure_eq_ok.mp h
      obtain ⟨k, tag, body, hu, htext, hk, htag, hbody⟩ := hr u v node hstruct hnode
      refine ⟨ws ++ k :: tag :: body, ?_, ?_⟩
      · rw [hs, hu, List.append_assoc]
      · have hbase : NamesBase Body ["struct " ++ tag.2] (k :: tag :: body) :=
          .struct hk htag hbody
        have hnames := NamesSpecifier.intro hws hbase (by simp)
        simpa [htext] using hnames
    · split at h
      · simp [failFound] at h
      · rename_i hsome
        obtain ⟨rfl, rfl⟩ := pure_eq_ok.mp h
        have hne : ws ≠ [] := by
          rintro rfl
          simp at hsome
        have hbase : NamesBase Body [] [] := .absent
        have hnames := NamesSpecifier.intro hws hbase (by simpa using hne)
        exact ⟨ws, hs, by simpa using hnames⟩

/-- A type with its stars takes the words of such a type. -/
theorem typeName_words {r : Rules} {text : String}
    (hr : ∀ s t node, s.front.kind = .keyword .structKw → r.structSpecifier s = .ok node t →
      ReadsStruct Body s node t)
    (h : typeName r s = .ok text t) :
    ∃ ws, s.script = ws ++ t.script ∧ NamesType Body text ws := by
  obtain ⟨type, u, htype, h⟩ := bind_eq_ok.mp h
  obtain ⟨ws, hs, hws⟩ := typeSpecifier_words hr htype
  let reads : String → State → Prop := fun text u =>
    ∃ ws, s.script = ws ++ u.script ∧ NamesType Body text ws
  refine loop_ok (I := reads) (D := reads) ?_ ⟨ws, hs, .plain hws⟩ h
  rintro text u turn v ⟨ws, hs, hws⟩ hturn
  obtain ⟨b, u', haccept, hturn⟩ := bind_eq_ok.mp hturn
  rcases accept_eq_ok.mp haccept with ⟨hstar, rfl, rfl⟩ | ⟨-, rfl, rfl⟩
  · obtain ⟨rfl, rfl⟩ := pure_eq_ok.mp hturn
    refine ⟨ws ++ [u.front.word], ?_, .star hstar hws⟩
    rw [hs, State.script_of_front (by simp [hstar]), List.append_assoc]
    rfl
  · obtain ⟨rfl, rfl⟩ := pure_eq_ok.mp hturn
    exact ⟨ws, hs, hws⟩

end Grammar

end CSurvey
