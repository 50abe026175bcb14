import CSurvey.Proofs.Grammar.Comments
import CSurvey.Proofs.Grammar.TypeNames
import CSurvey.Proofs.Syntax.Listed

/-! # The order of what is read

Where the tokens of a state stand behind each other, the listed nodes that a reader comes to stand
between the token that was next before it and the one that is next behind it. So nodes that are read
one after the other stand in this order in the text. -/

namespace CSurvey.Grammar

open Node (Fits Kind KeepsOrder Laid listed listed_append othersOf structsOf)

/-! ## Places of a state -/

/-- The tokens not yet read stand behind each other, and the end behind all of them. -/
def State.Rising (s : State) : Prop :=
  (s.rest.map Token.location ++ [s.stop]).Pairwise (· < ·)

theorem suffix_dropWhile {α : Type} {p : α → Bool} {xs ys : List α} (h : xs <:+ ys) :
    xs.dropWhile p <:+ ys.dropWhile p := by
  obtain ⟨zs, rfl⟩ := h
  induction zs with
  | nil => exact List.suffix_refl _
  | cons z zs ih =>
      by_cases hz : p z = true
      · rw [List.cons_append, List.dropWhile_cons_of_pos hz]
        exact ih
      · rw [List.cons_append, List.dropWhile_cons_of_neg hz]
        exact (List.dropWhile_suffix _).trans ((List.suffix_append zs xs).trans
          (List.suffix_cons z _))

namespace State

variable {s t : State}

theorem Rising.of_suffix (hs : s.Rising) (hrest : t.rest <:+ s.rest) (hstop : t.stop = s.stop) :
    t.Rising := by
  obtain ⟨passed, hpassed⟩ := hrest
  rw [Rising, ← hpassed, List.map_append, List.append_assoc] at hs
  rw [Rising, hstop]
  exact (List.pairwise_append.mp hs).2.1

theorem Rising.leads (hs : s.Rising) (h : s.Leads t) : t.Rising :=
  hs.of_suffix h.rest h.stop

/-- The next token stands behind no place that is still to come. -/
theorem Rising.front_le (hs : s.Rising) :
    ∀ p ∈ s.upcoming.map Token.location ++ [s.stop], s.front.location ≤ p := by
  have hup : (s.upcoming.map Token.location ++ [s.stop]).Pairwise (· < ·) :=
    hs.of_suffix (t := s.passTrivia) (List.dropWhile_suffix _) rfl
  unfold State.front
  cases hu : s.upcoming with
  | nil => simp [Token.endOfInput]
  | cons a ts =>
      rw [hu] at hup
      exact List.forall_mem_cons.mpr ⟨le_rfl, fun p hp => (List.rel_of_pairwise_cons hup hp).le⟩

theorem front_mem (s : State) :
    s.front.location ∈ s.upcoming.map Token.location ++ [s.stop] := by
  unfold State.front
  cases s.upcoming with
  | nil => simp [Token.endOfInput]
  | cons a ts => simp

theorem Rising.front_le_front (hs : s.Rising) (hrest : t.rest <:+ s.rest)
    (hline : t.onLine = s.onLine) (hstop : t.stop = s.stop) :
    s.front.location ≤ t.front.location := by
  have hpassed : t.isPassed = s.isPassed := by
    funext x
    rw [isPassed, isPassed, hline]
  have hup : t.upcoming <:+ s.upcoming := by
    rw [upcoming, upcoming, hpassed]
    exact suffix_dropWhile hrest
  apply hs.front_le
  have hmem := t.front_mem
  rw [hstop] at hmem
  rcases List.mem_append.mp hmem with hmem | hmem
  · exact List.mem_append_left _ ((hup.map _).mem hmem)
  · exact List.mem_append_right _ hmem

theorem Leads.front_le (h : s.Leads t) (hs : s.Rising) : s.front.location ≤ t.front.location :=
  hs.front_le_front h.rest h.onLine h.stop

/-- Behind a token that is taken all tokens stand behind it. -/
theorem Rising.lt_dropFront (hs : s.Rising) (hopen : s.Open) :
    s.front.location < s.dropFront.front.location := by
  have hup : (s.upcoming.map Token.location ++ [s.stop]).Pairwise (· < ·) :=
    hs.of_suffix (t := s.passTrivia) (List.dropWhile_suffix _) rfl
  obtain ⟨a, ts, hu⟩ := List.exists_cons_of_ne_nil hopen
  have hfront : s.front = a := by rw [State.front, hu, List.headD_cons]
  have hrest : s.dropFront.rest = ts := by
    show s.upcoming.drop 1 = ts
    rw [hu]
    rfl
  rw [hu] at hup
  have hmem := s.dropFront.front_mem
  have hsub : s.dropFront.upcoming <:+ ts := hrest ▸ List.dropWhile_suffix _
  rw [hfront]
  apply List.rel_of_pairwise_cons hup
  rcases List.mem_append.mp hmem with hmem | hmem
  · exact List.mem_append_left _ ((hsub.map _).mem hmem)
  · exact List.mem_append_right _ hmem

end State

/-! ## Readers -/

/-- The reader goes on from nodes already listed; its result has these and those that it lists
itself, from the token that was next to the one that is next. -/
def Gathers {α : Type} (before : List Node) (p : Parse α) (nodes : α → List Node) : Prop :=
  ∀ ⦃s t : State⦄ ⦃a : α⦄, s.Within Anywhere → s.Rising → p s = .ok a t →
    t.Within Anywhere ∧ s.Leads t ∧ ∃ given, nodes a = before ++ given ∧
      Laid s.front.location t.front.location given

/-- Rules whose statements list nodes in order, and whose structs stand where they begin. -/
structure Rules.Gathers (r : Rules) : Prop where
  yields : r.Yields Anywhere
  statement : Grammar.Gathers [] r.statement listed
  structSpecifier : ∀ ⦃s t : State⦄ ⦃n : Node⦄, s.Rising → r.structSpecifier s = .ok n t →
    n.location = s.front.location ∧ s.front.location < t.front.location

namespace Gathers

variable {before : List Node} {r : Rules}

theorem pure {α : Type} {a : α} {nodes : α → List Node} (h : nodes a = before) :
    Gathers before (pure a) nodes := by
  intro s t b hs _ hb
  obtain ⟨rfl, rfl⟩ := pure_eq_ok.mp hb
  exact ⟨hs, .refl s, [], by simpa using h, .nil⟩

theorem bind {α β : Type} {p : Parse α} {f : α → Parse β} {nodes : α → List Node}
    {nodes' : β → List Node} (hp : Gathers [] p nodes)
    (hf : ∀ a, Gathers (before ++ nodes a) (f a) nodes') : Gathers before (p >>= f) nodes' := by
  intro s t b hs hrising hb
  obtain ⟨a, u, ha, hb⟩ := bind_eq_ok.mp hb
  obtain ⟨hu, hsu, given, hgiven, hlaid⟩ := hp hs hrising ha
  obtain ⟨ht, hut, given', hgiven', hlaid'⟩ := hf a hu (hrising.leads hsu) hb
  refine ⟨ht, hsu.trans hut, given ++ given', by simpa [hgiven] using hgiven', ?_⟩
  exact hlaid.append hlaid' (hsu.front_le hrising) (hut.front_le (hrising.leads hsu))

/-- A part that lists nothing, of whose result something is known. -/
theorem bindSilent {α β : Type} {p : Parse α} {f : α → Parse β} {Q : α → Prop}
    {nodes : β → List Node} (hc : Composed true true p) (hp : Yields Anywhere p Q)
    (hf : ∀ a, Q a → Gathers before (f a) nodes) : Gathers before (p >>= f) nodes := by
  intro s t b hs hrising hb
  obtain ⟨a, u, ha, hb⟩ := bind_eq_ok.mp hb
  obtain ⟨hu, hQ⟩ := hp hs ha
  have hsu := hc.leads ha
  obtain ⟨ht, hut, given, hgiven, hlaid⟩ := hf a hQ hu (hrising.leads hsu) hb
  exact ⟨ht, hsu.trans hut, given, hgiven, hlaid.mono (hsu.front_le hrising) le_rfl⟩

/-- A part that lists nothing and of whose result nothing need be known. -/
theorem bindPlain {α β : Type} {p : Parse α} {f : α → Parse β} {nodes : β → List Node}
    (hc : Composed true true p) (hf : ∀ a, Gathers before (f a) nodes) :
    Gathers before (p >>= f) nodes :=
  bindSilent hc hc.yields fun a _ => hf a

theorem stop {α : Type} {f : State → Failure} {nodes : α → List Node} :
    Gathers before (fun s => .error (f s) s) nodes := by
  intro s t a hs _ ha
  simp at ha

theorem ite {α : Type} {c : Prop} [Decidable c] {p q : Parse α} {nodes : α → List Node}
    (hp : c → Gathers before p nodes) (hq : ¬c → Gathers before q nodes) :
    Gathers before (if c then p else q) nodes := by
  split
  · exact hp ‹c›
  · exact hq ‹¬c›

theorem oneDeeper {α : Type} {p : Parse α} {nodes : α → List Node}
    (hp : Gathers before p nodes) : Gathers before (oneDeeper p) nodes := by
  intro s t a hs hrising ha
  obtain ⟨-, u, hu, rfl⟩ := oneDeeper_eq_ok.mp ha
  have hdeep : State.Within { s with depth := s.depth + 1 } Anywhere :=
    ⟨hs.rest, hs.stop, hs.comments⟩
  obtain ⟨hwithin, hleads, given, hgiven, hlaid⟩ := hp hdeep hrising hu
  exact ⟨⟨hwithin.rest, hwithin.stop, hwithin.comments⟩, .oneDeeper hleads, given, hgiven, hlaid⟩

/-- Every round goes on from the nodes of the value so far. -/
theorem loop {α : Type} {round : α → Parse (Turn α)} {N : α → List Node} {value : α}
    (hround : ∀ a, Gathers (N a) (round a) fun
      | .again b => N b
      | .done b => N b)
    (h : N value = before) : Gathers before (loop round value) N := by
  intro s t a hs hrising ha
  let I := fun (b : α) (u : State) => u.Within Anywhere ∧ s.Leads u ∧
    ∃ given, N b = before ++ given ∧ Laid s.front.location u.front.location given
  refine loop_ok (I := I) (D := I) ?_ ⟨hs, .refl s, [], by simpa using h, .nil⟩ ha
  rintro b u turn v ⟨hu, hsu, given, hgiven, hlaid⟩ hv
  obtain ⟨hwithin, huv, given', hgiven', hlaid'⟩ := hround b hu (hrising.leads hsu) hv
  have hall : I (match turn with | .again b => b | .done b => b) v := by
    have hboth := hlaid.append hlaid' (hsu.front_le hrising) (huv.front_le (hrising.leads hsu))
    cases turn with
    | again _ =>
        exact ⟨hwithin, hsu.trans huv, given ++ given', by simpa [hgiven] using hgiven', hboth⟩
    | done _ =>
        exact ⟨hwithin, hsu.trans huv, given ++ given', by simpa [hgiven] using hgiven', hboth⟩
  cases turn with
  | again _ => exact hall
  | done _ => exact hall

theorem takeComments : Gathers [] takeComments listed := by
  intro s t a hs hrising ha
  obtain ⟨rfl, rfl⟩ := EStateM.Result.ok.inj ha
  refine ⟨⟨hs.passTrivia.rest, hs.stop, by simp⟩, .takeComments s, [], ?_, .nil⟩
  exact Node.listed_of_comments hs.passTrivia.comments

/-! ## Declarations -/

variable {kinds : Kind → Bool}

theorem listed_eq_nil {ns : List Node} (h : ∀ n ∈ ns, IsOf Anywhere kinds n)
    (hk : ∀ k, kinds k = true → k.isSilent = true) : listed ns = [] :=
  Node.listed_of_isSilent fun n hn => (h n hn).mono hk

theorem listed_of_isOf {n : Node} (h : IsOf Anywhere kinds n)
    (hk : ∀ k, kinds k = true → k.isSilent = true) : listed [n] = [] :=
  listed_eq_nil (by simpa using h) hk

theorem block (h : Gathers [] r.statement listed) :
    Gathers [] (block r) fun n => listed [n] := by
  refine bindPlain (.requireMark _ _) fun brace => ?_
  refine bind (.loop (N := fun found => listed found.reverse) ?_ rfl) fun found =>
    bindPlain (.requireMark _ _) fun _ => .pure ?_
  · intro found
    refine bind takeComments fun comments => bindPlain .frontKind fun kind => ?_
    split
    · exact .pure (by simp [listed_append])
    · exact .stop
    · exact bind h fun nodes => .pure (by simp [listed_append])
  · exact Node.listed_plain rfl

theorem block_kind {s t : State} {n : Node} (h : Grammar.block r s = .ok n t) :
    n.kind = .block := by
  obtain ⟨brace, u, -, h⟩ := bind_eq_ok.mp h
  obtain ⟨found, v, -, h⟩ := bind_eq_ok.mp h
  obtain ⟨close, w, -, h⟩ := bind_eq_ok.mp h
  obtain ⟨rfl, -⟩ := pure_eq_ok.mp h
  rfl

/-- What the struct of a type stands for in the list of nodes. -/
def StructAt (low high : Position) (body : Option Node) : Prop :=
  ∀ n ∈ body, listed [n] = [n] ∧ n.kind = .structDefinition ∧ low ≤ n.location ∧ n.location < high

theorem StructAt.listed_toList {low high : Position} {body : Option Node}
    (h : StructAt low high body) : listed body.toList = body.toList := by
  cases body with
  | none => rfl
  | some n => exact (h n rfl).1

theorem StructAt.mono {low high high' : Position} {body : Option Node} (h : StructAt low high body)
    (hle : high ≤ high') : StructAt low high' body := by
  intro n hn
  obtain ⟨hlisted, hk, hlow, hhigh⟩ := h n hn
  exact ⟨hlisted, hk, hlow, hhigh.trans_le hle⟩

/-- Only the first name of a declaration carries the struct of its type. -/
theorem StructAt.first {low high : Position} {body : Option Node} (h : StructAt low high body)
    (b : Bool) : StructAt low high (if b then body else none) := by
  intro n hn
  split at hn
  · exact h n hn
  · contradiction

theorem declared_listed (hy : r.Yields Anywhere) {location : Position} {type : String}
    {d : Declarator} {body : Option Node} {s t : State} {n : Node} (hs : s.Within Anywhere)
    (hd : listed [d.node] = []) (hbody : listed body.toList = body.toList)
    (h : declared r location type d body s = .ok n t) :
    listed [n] = n :: body.toList ∧ n.location = location ∧ n.kind ≠ .functionDefinition ∧
      n.kind ≠ .structDefinition := by
  have hchildren : listed (d.node :: body.toList) = body.toList := by
    rw [Node.listed_cons, hd, hbody]
    rfl
  unfold declared at h
  split at h
  · obtain ⟨rfl, -⟩ := pure_eq_ok.mp h
    exact ⟨(Node.listed_of_isListed rfl).trans (congrArg _ hchildren), rfl, by simp [Node.texted],
      by simp [Node.texted]⟩
  · obtain ⟨b, u, haccept, h⟩ := bind_eq_ok.mp h
    have hu := (Yields.accept _ hs haccept).1
    split at h
    · obtain ⟨value, v, hvalue, h⟩ := bind_eq_ok.mp h
      obtain ⟨rfl, -⟩ := pure_eq_ok.mp h
      have hsilent := listed_of_isOf (Yields.initializer hy hu hvalue).2
        Kind.isSilent_of_isExpression
      have hall : listed (d.node :: value :: body.toList) = body.toList := by
        rw [Node.listed_cons_cons, hd, Node.listed_cons, hsilent, hbody]
        rfl
      exact ⟨(Node.listed_of_isListed rfl).trans (congrArg _ hall), rfl, by simp [Node.texted],
        by simp [Node.texted]⟩
    · obtain ⟨rfl, -⟩ := pure_eq_ok.mp h
      exact ⟨(Node.listed_of_isListed rfl).trans (congrArg _ hchildren), rfl,
        by simp [Node.texted], by simp [Node.texted]⟩

/-- What is listed of a declaration before a function body closes it: all nodes stand where it
begins, but for the struct of its type. -/
structure Opened (location : Position) (body : Option Node) (names : DeclaredNames) : Prop where
  kinds : ∀ n ∈ listed names.nodes.reverse, n.kind ≠ .functionDefinition
  others : ∀ n ∈ othersOf (listed names.nodes.reverse), n.location = location
  structs : structsOf (listed names.nodes.reverse) =
    if names.nodes.isEmpty then [] else body.toList

theorem Opened.start (location : Position) (body : Option Node) :
    Opened location body ⟨[], false⟩ :=
  ⟨by simp, by simp [othersOf], rfl⟩

/-- More names are declared where the declaration begins. -/
theorem Opened.laid {location high : Position} {body : Option Node} {names : DeclaredNames}
    (h : Opened location body names) (hbody : StructAt location high body)
    (hle : location ≤ high) (more : List Node)
    (hmore : ∀ n ∈ more, n.kind ≠ .structDefinition ∧ n.location = location ∧ n.KeepsOrder) :
    Laid location high (listed names.nodes.reverse ++ more) := by
  have hstructs : structsOf (listed names.nodes.reverse ++ more) =
      if names.nodes.isEmpty then [] else body.toList := by
    rw [Node.structsOf_append, Node.structsOf_of_others fun n hn => (hmore n hn).1,
      List.append_nil, h.structs]
  have hothers : ∀ n ∈ othersOf (listed names.nodes.reverse ++ more), n.location = location := by
    rw [Node.othersOf_append]
    exact List.forall_mem_append.mpr
      ⟨h.others, fun n hn => (hmore n (Node.mem_othersOf.mp hn).1).2.1⟩
  refine .ofStart (fun n hn => ?_) hothers ?_ (List.forall_mem_append.mpr
    ⟨fun n hn => Node.keepsOrder_of_kind (h.kinds n hn), fun n hn => (hmore n hn).2.2⟩)
  · by_cases hk : n.kind = .structDefinition
    · have hmem := Node.mem_structsOf.mpr ⟨hn, hk⟩
      rw [hstructs] at hmem
      split at hmem
      · contradiction
      · obtain ⟨-, -, hlow, hhigh⟩ := hbody n (Option.mem_toList.mp hmem)
        exact ⟨hlow, hhigh.le⟩
    · have hat := hothers n (Node.mem_othersOf.mpr ⟨hn, hk⟩)
      exact ⟨hat.ge, hat.le.trans hle⟩
  · rw [hstructs]
    split
    · simp
    · cases body <;> simp

/-- One more name that no function body follows. -/
theorem Opened.next {location : Position} {body : Option Node} {names : DeclaredNames} {n : Node}
    (h : Opened location body names) (hbody : ∀ b ∈ body, b.kind = .structDefinition)
    (hn : listed [n] = n :: (if names.nodes.isEmpty then body else none).toList)
    (hlocation : n.location = location) (hfunction : n.kind ≠ .functionDefinition)
    (hstruct : n.kind ≠ .structDefinition) : Opened location body ⟨n :: names.nodes, false⟩ := by
  have hlisted : listed (n :: names.nodes).reverse = listed names.nodes.reverse ++
      n :: (if names.nodes.isEmpty then body else none).toList := by
    rw [List.reverse_cons, listed_append, hn]
  have hmore : ∀ b ∈ (if names.nodes.isEmpty then body else none).toList,
      b.kind = .structDefinition := by
    intro b hb
    split at hb
    · exact hbody b (Option.mem_toList.mp hb)
    · contradiction
  refine ⟨?_, ?_, ?_⟩
  · rw [hlisted]
    refine List.forall_mem_append.mpr ⟨h.kinds, List.forall_mem_cons.mpr ⟨hfunction, ?_⟩⟩
    intro b hb
    rw [hmore b hb]
    simp
  · rw [hlisted, Node.othersOf_append, Node.othersOf_cons_of_ne hstruct,
      Node.othersOf_of_structs hmore]
    exact List.forall_mem_append.mpr ⟨h.others, by simpa using hlocation⟩
  · rw [hlisted, Node.structsOf_append, Node.structsOf_cons_of_ne hstruct,
      Node.structsOf_of_structs hmore, h.structs]
    split
    · simp
    · simp

/-- A function body closes the declaration, with the struct of the type where no name stands before
it. -/
theorem Opened.closed {location middle high : Position} {body : Option Node}
    {names : DeclaredNames} {d code : Node} {type : String} (h : Opened location body names)
    (hbody : StructAt location middle body) (hd : listed [d] = [])
    (hkind : d.kind ≠ .structDefinition) (hblock : code.kind = .block) (hlow : location ≤ middle)
    (hhigh : middle ≤ high) (hcode : Laid middle high (listed [code])) :
    Laid location high (listed (.texted .functionDefinition type location
      (d :: code :: (if names.nodes.isEmpty then body else none).toList) ::
        names.nodes).reverse) := by
  have hnode : listed [.texted .functionDefinition type location
        (d :: code :: (if names.nodes.isEmpty then body else none).toList)] =
      .texted .functionDefinition type location
        (d :: code :: (if names.nodes.isEmpty then body else none).toList) ::
          (listed [code] ++ (if names.nodes.isEmpty then body else none).toList) := by
    refine (Node.listed_of_isListed rfl).trans (congrArg _ ?_)
    show listed (d :: code :: _) = _
    rw [Node.listed_cons_cons, hd, Node.listed_cons code, (hbody.first _).listed_toList]
    rfl
  rw [List.reverse_cons, listed_append, hnode]
  cases hcarried : (if names.nodes.isEmpty then body else none) with
  | none =>
      have hkeeps : KeepsOrder (.texted .functionDefinition type location [d, code]) :=
        Node.keepsOrder_of_none hkind (by simp [hblock])
      have hbefore := h.laid hbody hlow _ (List.forall_mem_singleton.mpr
        ⟨by simp [Node.texted], rfl, hkeeps⟩)
      simpa using hbefore.append hcode hlow hhigh
  | some carried =>
      split at hcarried
      · rename_i hempty
        obtain ⟨hone, hk, hplace, hplace'⟩ := hbody carried hcarried
        rw [List.isEmpty_iff.mp hempty]
        exact .functionDefinition hd hone hk hplace hplace' hhigh hcode
      · contradiction

theorem declaredNames (hr : r.Gathers) {location : Position} {type : TypeSpecifier}
    {body : Option Node} {s t : State} {names : DeclaredNames} (hs : s.Within Anywhere)
    (hrising : s.Rising) (hle : location ≤ s.front.location)
    (hbody : StructAt location s.front.location body)
    (h : declaredNames r location type body s = .ok names t) :
    t.Within Anywhere ∧ s.Leads t ∧
      Laid location t.front.location (listed names.nodes.reverse) := by
  let I := fun (names : DeclaredNames) (u : State) =>
    u.Within Anywhere ∧ s.Leads u ∧ Opened location body names
  let D := fun (names : DeclaredNames) (u : State) => u.Within Anywhere ∧ s.Leads u ∧
    Laid location u.front.location (listed names.nodes.reverse)
  have hdone : ∀ {names u}, I names u → D names u := by
    rintro names u ⟨hu, hsu, hopened⟩
    have hfront := hsu.front_le hrising
    have hlaid := (hopened.laid hbody hle [] (by simp)).mono le_rfl hfront
    exact ⟨hu, hsu, by simpa using hlaid⟩
  refine loop_ok (I := I) (D := D) ?_ ⟨hs, .refl s, .start location body⟩ h
  rintro names u turn v ⟨hu, hsu, hopened⟩ hturn
  obtain ⟨d, w, hd, hturn⟩ := bind_eq_ok.mp hturn
  obtain ⟨hw, hdeclarator⟩ := Yields.declarator hr.yields hu hd
  have hsilent := listed_of_isOf hdeclarator Kind.isSilent_of_isDeclarator
  have hsw := hsu.trans ((Composed.declarator hr.yields.composed).toTrue.leads hd)
  obtain ⟨kind, x, hkind, hturn⟩ := bind_eq_ok.mp hturn
  obtain ⟨-, rfl⟩ := frontKind_eq_ok.mp hkind
  split at hturn
  · obtain ⟨code, x, hcode, hturn⟩ := bind_eq_ok.mp hturn
    obtain ⟨rfl, rfl⟩ := pure_eq_ok.mp hturn
    obtain ⟨hx, hwx, given, hgiven, hlaid⟩ :=
      block hr.statement hw (hrising.leads hsw) hcode
    obtain rfl : listed [code] = given := hgiven
    have hfront := hsw.front_le hrising
    have hkind : d.node.kind ≠ .structDefinition := by
      rintro hk
      have hkind := hdeclarator.2
      rw [hk] at hkind
      contradiction
    exact ⟨hx, hsw.trans hwx, hopened.closed (hbody.mono hfront) hsilent hkind (block_kind hcode)
      (hle.trans hfront) (hwx.front_le (hrising.leads hsw)) hlaid⟩
  · obtain ⟨n, x, hn, hturn⟩ := bind_eq_ok.mp hturn
    obtain ⟨hlisted, hlocation, hfunction, hother⟩ :=
      declared_listed hr.yields hw hsilent (hbody.first _).listed_toList hn
    have hnext := hopened.next (fun b hb => (hbody b hb).2.1) hlisted hlocation hfunction hother
    obtain ⟨hx, -⟩ := (Composed.declared hr.yields.composed _ _ _ _).toTrue.yields hw hn
    have hsx := hsw.trans ((Composed.declared hr.yields.composed _ _ _ _).toTrue.leads hn)
    obtain ⟨b, y, haccept, hturn⟩ := bind_eq_ok.mp hturn
    obtain ⟨hy, -⟩ := Yields.accept _ hx haccept
    have hsy := hsx.trans ((Composed.accept _).leads haccept)
    split at hturn
    · obtain ⟨rfl, rfl⟩ := pure_eq_ok.mp hturn
      exact ⟨hy, hsy, hnext⟩
    · obtain ⟨rfl, rfl⟩ := pure_eq_ok.mp hturn
      exact hdone ⟨hy, hsy, hnext⟩

/-- A struct stands where its keyword does, before all that is still to come. -/
theorem structSpecifier (hc : r.Composed) {s t : State} {n : Node} (hrising : s.Rising)
    (h : Grammar.structSpecifier r s = .ok n t) :
    n.location = s.front.location ∧ s.front.location < t.front.location := by
  obtain ⟨keyword, u, hkeyword, h⟩ := bind_eq_ok.mp h
  obtain ⟨rfl, rfl⟩ := takeFront_eq_ok.mp hkeyword
  obtain ⟨kind, u, hkind, h⟩ := bind_eq_ok.mp h
  obtain ⟨rfl, rfl⟩ := frontKind_eq_ok.mp hkind
  split at h
  · rename_i hidentifier
    have hopen : s.Open := by
      intro hup
      have hrest : s.dropFront.rest = [] := by
        show s.upcoming.drop 1 = []
        rw [hup]
        rfl
      have hnext : s.dropFront.Open := State.open_of_front (by simp [hidentifier])
      exact hnext (by rw [State.upcoming, hrest]; rfl)
    have hleads : s.dropFront.Leads t := by
      refine Composed.leads (.bind .takeFront fun _ => .bind (.accept _) fun _ => .ite
        (.bind ?_ fun _ => .bind (.requireMark _ _) fun _ => .pure _) (.pure _)) h
      exact (Composed.structBody hc _).toTrue
    have hrising' := hrising.leads (.dropFront s)
    refine ⟨?_, (hrising.lt_dropFront hopen).trans_le (hleads.front_le hrising')⟩
    obtain ⟨tag, u, -, h⟩ := bind_eq_ok.mp h
    obtain ⟨b, v, -, h⟩ := bind_eq_ok.mp h
    split at h
    · obtain ⟨members, w, -, h⟩ := bind_eq_ok.mp h
      obtain ⟨close, x, -, h⟩ := bind_eq_ok.mp h
      obtain ⟨rfl, -⟩ := pure_eq_ok.mp h
      rfl
    · obtain ⟨rfl, -⟩ := pure_eq_ok.mp h
      rfl
  · simp [failFound] at h

theorem typeSpecifier (hr : r.Gathers) {s t : State} {type : TypeSpecifier}
    (hrising : s.Rising) (h : Grammar.typeSpecifier r s = .ok type t) :
    ∀ n ∈ type.structNode,
      s.front.location ≤ n.location ∧ n.location < t.front.location := by
  obtain ⟨words, u, hwords, h⟩ := bind_eq_ok.mp h
  have hsu := Composed.typeModifiers.leads hwords
  obtain ⟨kind, v, hkind, h⟩ := bind_eq_ok.mp h
  obtain ⟨rfl, rfl⟩ := frontKind_eq_ok.mp hkind
  split at h
  · obtain ⟨token, v, -, h⟩ := bind_eq_ok.mp h
    obtain ⟨rfl, -⟩ := pure_eq_ok.mp h
    simp
  · split at h
    · obtain ⟨n, v, hn, h⟩ := bind_eq_ok.mp h
      obtain ⟨rfl, rfl⟩ := pure_eq_ok.mp h
      obtain ⟨hlocation, hlt⟩ := hr.structSpecifier (hrising.leads hsu) hn
      have hle := hsu.front_le hrising
      rintro _ ⟨⟩
      exact ⟨hlocation ▸ hle, hlocation ▸ hlt⟩
    · split at h
      · simp [failFound] at h
      · obtain ⟨rfl, -⟩ := pure_eq_ok.mp h
        simp

theorem declaration (hr : r.Gathers) : Gathers [] (declaration r) listed := by
  intro s t nodes hs hrising h
  obtain ⟨location, u, hhere, h⟩ := bind_eq_ok.mp h
  obtain ⟨rfl, rfl⟩ := EStateM.Result.ok.inj hhere
  obtain ⟨type, u, htype, h⟩ := bind_eq_ok.mp h
  obtain ⟨hu, hkinds⟩ := Yields.typeSpecifier hr.yields hs htype
  have hsu := (Composed.typeSpecifier hr.yields.composed).toTrue.leads htype
  have hplaces := typeSpecifier hr hrising htype
  have hstruct : ∀ n ∈ type.structNode, n.kind = .structDefinition → listed [n] = [n] :=
    fun n hn hk => Node.listed_of_leaf (hkinds n hn).1 (.inr (.inr hk))
  obtain ⟨b, v, haccept, h⟩ := bind_eq_ok.mp h
  obtain ⟨hv, -⟩ := Yields.accept _ hu haccept
  have huv := (Composed.accept _).leads haccept
  have hle := hsu.front_le hrising
  have hle' := huv.front_le (hrising.leads hsu)
  split at h
  · obtain ⟨rfl, rfl⟩ := pure_eq_ok.mp h
    refine ⟨hv, hsu.trans huv, listed type.structNode.toList, rfl, ?_⟩
    cases hnode : type.structNode with
    | none => exact .nil
    | some n =>
        obtain ⟨hlow, hhigh⟩ := hplaces n hnode
        have hkind := (hkinds n hnode).2
        simp only [Bool.or_eq_true, decide_eq_true_eq] at hkind
        rcases hkind with hk | hk
        · rw [Option.toList_some, hstruct n hnode hk]
          exact .single (by simp [hk]) hlow (hhigh.le.trans hle')
        · have hfits : ∀ m ∈ [n], m.Fits Anywhere ∧ m.kind.isSilent = true := by
            simpa [hk] using ⟨(hkinds n hnode).1, rfl⟩
          rw [Option.toList_some, Node.listed_of_isSilent hfits]
          exact .nil
  · have hbody : StructAt s.front.location v.front.location
        (type.structNode.filter fun n => n.kind = .structDefinition) := by
      intro n hn
      obtain ⟨hn, hk⟩ := Option.filter_eq_some_iff.mp hn
      obtain ⟨hlow, hhigh⟩ := hplaces n hn
      have hk : n.kind = .structDefinition := of_decide_eq_true hk
      exact ⟨hstruct n hn hk, hk, hlow, hhigh.trans_le hle'⟩
    obtain ⟨names, w, hnames, h⟩ := bind_eq_ok.mp h
    have hrising' := hrising.leads (hsu.trans huv)
    obtain ⟨hw, hvw, hlaid⟩ :=
      declaredNames hr hv hrising' (hle.trans hle') hbody hnames
    have hsw := (hsu.trans huv).trans hvw
    split at h
    · obtain ⟨rfl, rfl⟩ := pure_eq_ok.mp h
      exact ⟨hw, hsw, _, rfl, hlaid⟩
    · obtain ⟨stop, x, hstop, h⟩ := bind_eq_ok.mp h
      obtain ⟨rfl, rfl⟩ := pure_eq_ok.mp h
      have hwx := (Composed.requireMark _ _).leads hstop
      obtain ⟨hx, -⟩ := Yields.requireMark _ _ hw hstop
      exact ⟨hx, hsw.trans hwx, _, rfl,
        hlaid.mono le_rfl (hwx.front_le (hrising.leads hsw))⟩

/-! ## Statements -/

/-- The only node of a statement. -/
theorem one {p : Parse Node} (h : Gathers [] p fun n => listed [n]) : Gathers [] (one p) listed :=
  bind h fun _ => .pure rfl

/-- A statement whose only node lists nothing. -/
theorem oneSilent {p : Parse Node} (hc : Composed true true p)
    (hp : Yields Anywhere p (IsOf Anywhere kinds))
    (hk : ∀ k, kinds k = true → k.isSilent = true) : Gathers [] (Grammar.one p) listed :=
  bindSilent hc hp fun _ hn => .pure (listed_of_isOf hn hk)

/-- A directive line that is listed where it begins. -/
theorem oneLine {p : Parse Node} (hc : Composed true true p)
    (hp : Yields Anywhere p (IsOf Anywhere Kind.isDirective))
    (hplace : ∀ ⦃s t n⦄, p s = .ok n t → n.location = s.front.location ∧
      (n.kind = .inclusion ∨ n.kind = .macroDefinition)) :
    Gathers [] (Grammar.one p) listed := by
  intro s t nodes hs hrising h
  obtain ⟨n, u, hn, h⟩ := bind_eq_ok.mp h
  obtain ⟨rfl, rfl⟩ := pure_eq_ok.mp h
  obtain ⟨hu, hfits, -⟩ := hp hs hn
  obtain ⟨hlocation, hkinds⟩ := hplace hn
  have hleads := hc.leads hn
  have hsingle : listed [n] = [n] := Node.listed_of_leaf hfits (hkinds.imp_right Or.inl)
  have hfunction : n.kind ≠ .functionDefinition := by
    rcases hkinds with hk | hk
    · simp [hk]
    · simp [hk]
  refine ⟨hu, hleads, [n], hsingle, .single hfunction hlocation.ge ?_⟩
  exact hlocation.le.trans (hleads.front_le hrising)

theorem oneInclusion : Gathers [] (Grammar.one inclusion) listed := by
  apply oneLine .inclusion .inclusion
  intro s t n h
  obtain ⟨marker, u, hmarker, h⟩ := bind_eq_ok.mp h
  obtain ⟨rfl, rfl⟩ := takeFront_eq_ok.mp hmarker
  obtain ⟨target, v, -, h⟩ := bind_eq_ok.mp h
  obtain ⟨rfl, -⟩ := pure_eq_ok.mp h
  exact ⟨rfl, .inl rfl⟩

theorem oneMacroDefinition (hr : r.Gathers) :
    Gathers [] (Grammar.one (macroDefinition r)) listed := by
  apply oneLine (.relax (.macroDefinition hr.yields.composed)) (.macroDefinition hr.yields)
  intro s t n h
  obtain ⟨marker, u, hmarker, h⟩ := bind_eq_ok.mp h
  obtain ⟨rfl, rfl⟩ := takeFront_eq_ok.mp hmarker
  obtain ⟨v, h, -⟩ := onDirectiveLine_eq_ok.mp h
  obtain ⟨name, w, -, h⟩ := bind_eq_ok.mp h
  obtain ⟨value, w, -, h⟩ := bind_eq_ok.mp h
  obtain ⟨words, w, -, h⟩ := bind_eq_ok.mp h
  obtain ⟨rfl, -⟩ := pure_eq_ok.mp h
  exact ⟨rfl, .inr rfl⟩

/-- Other directive lines are not listed. -/
theorem otherDirective : Gathers [] otherDirective fun n => listed [n] :=
  bindPlain .here fun _ => bindPlain (.onDirectiveLine rfl .lineTexts) fun _ =>
    .pure (Node.listed_texted rfl)

theorem singleStatement (h : Gathers [] r.statement listed) :
    Gathers [] (singleStatement r) fun n => listed [n] := by
  refine bindPlain .here fun location => bind h fun nodes => .pure ?_
  match nodes with
  | [] => rfl
  | [_] => rfl
  | _ :: _ :: _ => exact Node.listed_plain rfl

theorem ifStatement (hr : r.Gathers) : Gathers [] (ifStatement r) fun n => listed [n] := by
  refine bindPlain .takeFront fun keyword =>
    bindSilent (.relax (.condition hr.yields.composed _ _)) (.condition hr.yields _ _)
    fun test ht => bind (singleStatement hr.statement) fun whenTrue =>
    bindPlain (.accept _) fun _ => .ite (fun _ => ?_) fun _ => .pure ?_
  · have htest := listed_of_isOf ht Kind.isSilent_of_isTerm
    refine bind (singleStatement hr.statement) fun whenFalse => .pure ?_
    rw [Node.listed_texted rfl]
    simp [htest]
  · have htest := listed_of_isOf ht Kind.isSilent_of_isTerm
    rw [Node.listed_texted rfl]
    simp [htest]

theorem forStart (hr : r.Gathers) : Gathers [] (forStart r) fun n => listed [n] := by
  refine bindPlain .here fun location => bindPlain (.accept _) fun _ => .ite (fun _ => .pure rfl)
    fun _ => bindPlain .frontKind fun _ => .ite (fun _ => ?_) fun _ => ?_
  · refine bind (declaration hr) fun nodes => ?_
    split
    · exact .pure rfl
    · exact .pure (Node.listed_plain rfl)
  · refine bindSilent (.relax hr.yields.composed.expression) hr.yields.expression fun value hv =>
      bindPlain (.requireMark _ _) fun _ => .pure ?_
    exact listed_of_isOf hv Kind.isSilent_of_isTerm

theorem forStatement (hr : r.Gathers) : Gathers [] (forStatement r) fun n => listed [n] := by
  refine bindPlain .takeFront fun keyword => bindPlain (.requireMark _ _) fun _ =>
    bind (forStart hr) fun start =>
    bindSilent (.relax (.optionalBefore hr.yields.composed _)) (.optionalBefore hr.yields _)
      fun test ht => bindPlain (.requireMark _ _) fun _ =>
    bindSilent (.relax (.optionalBefore hr.yields.composed _)) (.optionalBefore hr.yields _)
      fun step hs => bindPlain (.requireMark _ _) fun _ =>
    bind (singleStatement hr.statement) fun body => .pure ?_
  have htest := listed_of_isOf ht Kind.isSilent_of_isOptionalTerm
  have hstep := listed_of_isOf hs Kind.isSilent_of_isOptionalTerm
  rw [Node.listed_texted rfl]
  simp [htest, hstep]

theorem whileStatement (hr : r.Gathers) : Gathers [] (whileStatement r) fun n => listed [n] := by
  refine bindPlain .takeFront fun keyword =>
    bindSilent (.relax (.condition hr.yields.composed _ _)) (.condition hr.yields _ _)
    fun test ht => bind (singleStatement hr.statement) fun body => .pure ?_
  have htest := listed_of_isOf ht Kind.isSilent_of_isTerm
  rw [Node.listed_texted rfl]
  simp [htest]

theorem doWhileStatement (hr : r.Gathers) :
    Gathers [] (doWhileStatement r) fun n => listed [n] := by
  refine bindPlain .takeFront fun keyword => bind (singleStatement hr.statement) fun body =>
    bindPlain (.require _ _) fun _ =>
    bindSilent (.relax (.condition hr.yields.composed _ _)) (.condition hr.yields _ _)
    fun test ht => bindPlain (.requireMark _ _) fun _ => .pure ?_
  have htest := listed_of_isOf ht Kind.isSilent_of_isTerm
  rw [Node.listed_texted rfl]
  simp [htest]

theorem switchStatement (hr : r.Gathers) :
    Gathers [] (switchStatement r) fun n => listed [n] := by
  refine bindPlain .takeFront fun keyword =>
    bindSilent (.relax (.condition hr.yields.composed _ _)) (.condition hr.yields _ _)
    fun value hv => bind (singleStatement hr.statement) fun body => .pure ?_
  have hvalue := listed_of_isOf hv Kind.isSilent_of_isTerm
  rw [Node.listed_texted rfl]
  simp [hvalue]

theorem openStatement (hr : r.Gathers) (kind : Token.Kind) :
    Gathers [] (openStatement r kind) listed :=
  bindPlain .labelAhead fun _ => .ite (fun _ => oneSilent .label .label (by decide)) fun _ =>
    .ite (fun _ => declaration hr) fun _ =>
    .ite (fun _ => oneSilent (.relax (.expressionStatement hr.yields.composed))
      (.expressionStatement hr.yields) (by decide)) fun _ =>
    .ite (fun _ => .stop) fun _ => bindPlain .takeFront fun _ => .pure rfl

theorem statementOf (hr : r.Gathers) (kind : Token.Kind) :
    Gathers [] (statementOf r kind) listed := by
  unfold Grammar.statementOf
  split
  · exact one (ifStatement hr)
  · exact one (forStatement hr)
  · exact one (whileStatement hr)
  · exact one (doWhileStatement hr)
  · exact one (switchStatement hr)
  · exact oneSilent (.relax (.caseLabel hr.yields.composed)) (.caseLabel hr.yields) (by decide)
  · exact oneSilent .defaultLabel .defaultLabel (by decide)
  · exact oneSilent (.relax (.returnStatement hr.yields.composed)) (.returnStatement hr.yields)
      (by decide)
  · exact oneSilent (.jump _ _) (.jump _ rfl) (by decide)
  · exact oneSilent (.jump _ _) (.jump _ rfl) (by decide)
  · exact oneSilent .gotoStatement .gotoStatement (by decide)
  · exact one (block hr.statement)
  · exact oneInclusion
  · exact oneMacroDefinition hr
  · exact one otherDirective
  · exact openStatement hr _

theorem statement (hr : r.Gathers) : Gathers [] (statement r) listed :=
  oneDeeper <| bindPlain .frontKind fun _ => statementOf hr _

/-! ## Items -/

theorem item (hr : r.Gathers) : Gathers [] (item r) listed :=
  bindPlain .frontKind fun _ =>
    .ite (fun _ => oneInclusion) fun _ => .ite (fun _ => oneMacroDefinition hr) fun _ =>
    .ite (fun _ => one otherDirective) fun _ => .ite (fun _ => declaration hr) fun _ =>
    bindPlain .takeFront fun _ => .pure rfl

end Gathers

theorem Rules.level_gathers (levels : Nat) : (Rules.level levels).Gathers := by
  induction levels with
  | zero => exact ⟨Rules.level_yields 0, .stop, fun s t n _ h => by simp [Rules.level, Rules.none,
      fail] at h⟩
  | succ levels ih =>
      exact ⟨Rules.level_yields (levels + 1), .statement ih,
        fun _ _ _ => Grammar.Gathers.structSpecifier ih.yields.composed⟩

/-! ## Whole files -/

/-- A reading has gone in order from its start to the token that is next, and `due` are the comments
of the whole file. -/
structure Progress.InOrder (start : Position) (due : List Node) (p : Progress) : Prop where
  within : p.state.Within Anywhere
  onLine : p.state.onLine = false
  rising : p.state.Rising
  behind : start ≤ p.state.front.location
  comments : p.commentsDue = due
  laid : Laid start p.state.front.location (listed p.nodes.reverse)

namespace Progress.InOrder

variable {start : Position} {due : List Node} {p : Progress} {levels : Nat}

theorem flush (h : p.InOrder start due) : p.flush.InOrder start due := by
  have hleads : p.state.Leads p.flush.state := .takeComments p.state
  have hle := hleads.front_le h.rising
  have hcomments : listed p.state.passTrivia.comments = [] :=
    Node.listed_of_comments h.within.passTrivia.comments
  have hnodes : listed p.flush.nodes.reverse = listed p.nodes.reverse := by
    simp [Progress.flush, listed_append, hcomments]
  refine ⟨flush_within h.within, hleads.onLine.trans h.onLine, h.rising.leads hleads,
    h.behind.trans hle, (commentsDue_flush h.within).trans h.comments, ?_⟩
  rw [hnodes]
  exact h.laid.mono le_rfl hle

theorem read (h : p.flush.InOrder start due) {found : List Node} {next : State}
    (hitem : Grammar.item (.level levels) p.flush.state = .ok found next) :
    InOrder start due ⟨found.reverse ++ p.flush.nodes, p.failures, next⟩ := by
  obtain ⟨hwithin, hleads, given, hgiven, hlaid⟩ :=
    Gathers.item (Rules.level_gathers levels) h.within h.rising hitem
  obtain ⟨-, _, hcomments, haccounts⟩ :=
    Carries.item (Rules.level_yields levels) (Rules.level_carries levels) h.within hitem
  rw [List.nil_append] at hgiven hcomments
  rw [← hcomments] at haccounts
  rw [← hgiven] at hlaid
  have hle := hleads.front_le h.rising
  refine ⟨hwithin, hleads.onLine.trans h.onLine, h.rising.leads hleads, h.behind.trans hle,
    (commentsDue_step rfl haccounts p.failures).trans h.comments, ?_⟩
  simpa [listed_append] using h.laid.append hlaid h.behind hle

theorem recovered (h : p.flush.InOrder start due) {failure : Failure} {failed : State}
    (hitem : Grammar.item (.level levels) p.flush.state = .error failure failed) :
    InOrder start due ⟨errorNode failure :: p.flush.nodes, failure :: p.failures,
      failed.resume p.flush.state.rest⟩ := by
  have hfailed := (Composed.item (Rules.level_composed levels)).leads_error hitem
  have haccounts := State.accounts_resume failed (s := p.flush.state) rfl
  have hrest : (failed.resume p.flush.state.rest).rest <:+ p.flush.state.rest := by
    obtain ⟨passed, hpassed, -⟩ := haccounts
    exact ⟨passed, hpassed.symm⟩
  have hnone : listed [errorNode failure] = [] := Node.listed_texted rfl
  have hle := h.rising.front_le_front hrest h.onLine.symm hfailed.stop
  have haccounted : Accounts p.flush.state (failed.resume p.flush.state.rest)
      (Node.commentsIn [errorNode failure]) := haccounts
  refine ⟨h.within.resume hfailed, rfl, h.rising.of_suffix hrest hfailed.stop, h.behind.trans hle,
    (commentsDue_step rfl haccounted _).trans h.comments, ?_⟩
  simpa [listed_append, hnone] using h.laid.mono le_rfl hle

end Progress.InOrder

/-- A reading that goes on in order does so to its end. -/
theorem readItems_inOrder {levels : Nat} {recover : Bool} {fuel : List Token} {p : Progress}
    {start : Position} {due : List Node} (h : p.InOrder start due) :
    (readItems (.level levels) recover fuel p).Ends (Progress.InOrder start due)
      fun _ _ => True := by
  refine readItems_keeps (fun p hp => hp.flush) (fun p hp _ found next hitem => ?_)
    (fun p hp _ failure failed hitem => ⟨fun _ => ?_, fun _ => trivial⟩) h
  · exact hp.read hitem
  · exact hp.recovered hitem

end CSurvey.Grammar
