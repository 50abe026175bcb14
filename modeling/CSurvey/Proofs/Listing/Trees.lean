import CSurvey.Proofs.Listing.Rows
import CSurvey.Proofs.Syntax.Outline

/-! # The listing of a tree

From the listing of a tree its shape, its kinds and its values as they are shown can be told. The
kind of a node ends at the first blank of its label, no value breaks a line, and the rows of a
subtree end where a row is not indented more than its root. -/

namespace CSurvey

/-! ## What a listing shows -/

/-- A value as it is shown on one line. -/
def Node.Value.onLine (v : Node.Value) : String :=
  Text.markNewlines v.shown

/-- A tree as its listing shows it: without places, and with its values as texts on one line. -/
structure Node.Sketch where
  kind : Node.Kind
  value : Option String
  children : List Sketch
deriving Repr

namespace Node

mutual

/-- A tree as its listing shows it. -/
def sketch : Node → Sketch
  | ⟨kind, value, children, _⟩ => ⟨kind, value.map Value.onLine, sketchAll children⟩

/-- Several trees as their listing shows them. -/
def sketchAll : List Node → List Sketch
  | [] => []
  | n :: ns => n.sketch :: sketchAll ns

end

/-! ## Labels -/

theorem Kind.names_plain : ∀ k ∈ Kind.all, k.name.toList.all (fun c => c ≠ ' ' && c ≠ '\n') ∧
    k.name.toList ≠ [] ∧ Kind.ofName? k.name = some k := by
  decide +kernel

theorem Kind.name_plain (k : Kind) : ∀ c ∈ k.name.toList, c ≠ ' ' ∧ c ≠ '\n' := by
  simpa using (names_plain k k.mem_all).1

theorem Kind.name_ne_nil (k : Kind) : k.name.toList ≠ [] :=
  (names_plain k k.mem_all).2.1

theorem Kind.name_inj {k k' : Kind} (h : k.name = k'.name) : k = k' := by
  have hk := (names_plain k k.mem_all).2.2
  rw [h, (names_plain k' k'.mem_all).2.2] at hk
  exact (Option.some.inj hk).symm

/-- What a label shows behind the kind. -/
def labelRest (value : Option Value) : List Char :=
  (value.map Value.onLine).elim [] fun text => ' ' :: text.toList

theorem toList_label (kind : Kind) (value : Option Value) :
    (label kind value).toList = kind.name.toList ++ labelRest value := by
  cases value with
  | none => simp [label, labelRest]
  | some v => simp [label, labelRest, Value.onLine]

theorem newline_not_mem_onLine (v : Value) : '\n' ∉ v.onLine.toList := by
  simp only [Value.onLine, Text.markNewlines, String.toList_ofList, List.mem_map, not_exists,
    not_and]
  intro c _
  split
  · decide
  · assumption

theorem newline_not_mem_label (kind : Kind) (value : Option Value) :
    '\n' ∉ (label kind value).toList := by
  rw [toList_label, List.mem_append, not_or]
  refine ⟨fun h => (kind.name_plain _ h).2 rfl, ?_⟩
  cases value with
  | none => simp [labelRest]
  | some v => simpa [labelRest] using newline_not_mem_onLine v

/-- A label determines the kind and the value as it is shown. -/
theorem label_inj {kind kind' : Kind} {value value' : Option Value}
    (h : label kind value = label kind' value') :
    kind = kind' ∧ value.map Value.onLine = value'.map Value.onLine := by
  have hname : ∀ kind : Kind, ∀ c ∈ kind.name.toList, decide (c ≠ ' ') = true := fun kind c hc =>
    decide_eq_true (kind.name_plain c hc).1
  have hrest : ∀ value, ∀ c ∈ (labelRest value).head?, decide (c ≠ ' ') = false := by
    rintro (- | v) <;> simp [labelRest]
  have hlists := congrArg String.toList h
  rw [toList_label, toList_label] at hlists
  obtain ⟨hkinds, hvalues⟩ := Text.append_inj_of_head (hname kind) (hname kind') (hrest value)
    (hrest value') hlists
  refine ⟨Kind.name_inj (String.toList_inj.mp hkinds), ?_⟩
  cases value with
  | none =>
      cases value' with
      | none => rfl
      | some v' => simp [labelRest] at hvalues
  | some v =>
      cases value' with
      | none => simp [labelRest] at hvalues
      | some v' =>
          exact congrArg some (String.toList_inj.mp (List.cons.inj hvalues).2)

/-! ## Rows -/

/-- How many blanks a line begins with. -/
def indentation (line : String) : Nat :=
  (line.toList.takeWhile (· = ' ')).length

theorem toList_text (row : OutlineLine) :
    row.text.toList = List.replicate (2 * row.depth) ' ' ++ row.label.toList := by
  have hindent : ∀ depth, (Text.repeated "  " depth).toList = List.replicate (2 * depth) ' ' := by
    intro depth
    induction depth with
    | zero => rfl
    | succ depth ih =>
        rw [Text.repeated, String.toList_join] at ih ⊢
        rw [List.replicate_succ, List.flatMap_cons, ih, Nat.mul_succ, Nat.add_comm,
          List.replicate_add]
        rfl
  rw [OutlineLine.text, String.toList_append, OutlineLine.indent, hindent]

theorem head?_label {kind : Kind} {value : Option Value} :
    ∀ c ∈ (label kind value).toList.head?, decide (c = ' ') = false := by
  intro c hc
  rw [toList_label, List.head?_append_of_ne_nil _ kind.name_ne_nil] at hc
  exact decide_eq_false (kind.name_plain c (List.mem_of_head? hc)).1

/-- The row of a node. -/
def rowText (depth : Nat) (kind : Kind) (value : Option Value) (line : Nat) : String :=
  OutlineLine.text ⟨depth, kind, label kind value, line⟩

theorem indentation_rowText (depth : Nat) (kind : Kind) (value : Option Value) (line : Nat) :
    indentation (rowText depth kind value line) = 2 * depth := by
  have hblanks : ∀ c ∈ List.replicate (2 * depth) ' ', decide (c = ' ') = true := by
    intro c hc
    simp [List.eq_of_mem_replicate hc]
  rw [indentation, rowText, toList_text,
    (Token.Lexeme.takeWhile_append hblanks head?_label).1, List.length_replicate]

/-- Of rows of one depth the text determines the label. -/
theorem rowText_inj {depth line line' : Nat} {kind kind' : Kind} {value value' : Option Value}
    (h : rowText depth kind value line = rowText depth kind' value' line') :
    kind = kind' ∧ value.map Value.onLine = value'.map Value.onLine := by
  have hlists := congrArg String.toList h
  rw [rowText, rowText, toList_text, toList_text] at hlists
  exact label_inj (String.toList_inj.mp (List.append_cancel_left hlists))

/-! ## Trees from rows -/

/-- The rows of trees of one depth end where a line is not indented as much, so that they are told
apart from the lines behind them: first those of a tree, then those of a list of trees. -/
def EndsAbove (depth : Nat) (lines : List String) : Prop :=
  ∀ line ∈ lines.head?, indentation line < 2 * depth

mutual

theorem outlineFrom_inj {depth : Nat} :
    (n m : Node) → (lines lines' : List String) → EndsAbove (depth + 1) lines →
      EndsAbove (depth + 1) lines' →
      (n.outlineFrom depth).map OutlineLine.text ++ lines =
        (m.outlineFrom depth).map OutlineLine.text ++ lines' →
      n.sketch = m.sketch ∧ lines = lines'
  | ⟨kind, value, children, location⟩, ⟨kind', value', children', location'⟩, lines, lines',
      hlines, hlines', h => by
    obtain ⟨hrow, hrows⟩ := List.cons.inj h
    obtain ⟨hchildren, hbehind⟩ :=
      outlineAll_inj children children' lines lines' hlines hlines' hrows
    obtain ⟨rfl, hvalue⟩ := rowText_inj hrow
    exact ⟨by rw [sketch, sketch, hvalue, hchildren], hbehind⟩

theorem outlineAll_inj {depth : Nat} :
    (ns ms : List Node) → (lines lines' : List String) → EndsAbove depth lines →
      EndsAbove depth lines' →
      (outlineAll depth ns).map OutlineLine.text ++ lines =
        (outlineAll depth ms).map OutlineLine.text ++ lines' →
      sketchAll ns = sketchAll ms ∧ lines = lines'
  | [], [], _, _, _, _, h => ⟨rfl, h⟩
  | [], ⟨kind, value, children, location⟩ :: ms, lines, lines', hlines, _, h => by
    have hfirst : lines.head? = some (rowText depth kind value location.line) :=
      congrArg List.head? h
    have habove := hlines _ hfirst
    rw [indentation_rowText] at habove
    omega
  | ⟨kind, value, children, location⟩ :: ns, [], lines, lines', _, hlines', h => by
    have hfirst : lines'.head? = some (rowText depth kind value location.line) :=
      congrArg List.head? h.symm
    have habove := hlines' _ hfirst
    rw [indentation_rowText] at habove
    omega
  | n :: ns, m :: ms, lines, lines', hlines, hlines', h => by
    have hbehind : ∀ (ns : List Node) (lines : List String), EndsAbove depth lines →
        EndsAbove (depth + 1) ((outlineAll depth ns).map OutlineLine.text ++ lines) := by
      rintro (- | ⟨⟨kind, value, children, location⟩, ns⟩) lines hlines line hline
      · have habove := hlines line hline
        omega
      · obtain rfl : rowText depth kind value location.line = line := Option.some.inj hline
        rw [indentation_rowText]
        omega
    rw [outlineAll, outlineAll, List.map_append, List.map_append, List.append_assoc,
      List.append_assoc] at h
    obtain ⟨hn, h⟩ :=
      outlineFrom_inj n m _ _ (hbehind ns lines hlines) (hbehind ms lines' hlines') h
    obtain ⟨hns, h⟩ := outlineAll_inj ns ms lines lines' hlines hlines' h
    exact ⟨by rw [sketchAll, sketchAll, hn, hns], h⟩

end

/-! ## Rows from what is shown -/

mutual

theorem map_text_outlineFrom {depth : Nat} :
    (n m : Node) → n.sketch = m.sketch →
      (n.outlineFrom depth).map OutlineLine.text = (m.outlineFrom depth).map OutlineLine.text
  | ⟨kind, value, children, location⟩, ⟨kind', value', children', location'⟩, h => by
    rw [sketch, sketch, Sketch.mk.injEq] at h
    obtain ⟨rfl, hvalue, hchildren⟩ := h
    have hlabel : label kind value = label kind value' := by
      rw [← String.toList_inj, toList_label, toList_label, labelRest, labelRest, hvalue]
    rw [outlineFrom, outlineFrom, hlabel, List.map_cons, List.map_cons,
      map_text_outlineAll children children' hchildren]
    rfl

theorem map_text_outlineAll {depth : Nat} :
    (ns ms : List Node) → sketchAll ns = sketchAll ms →
      (outlineAll depth ns).map OutlineLine.text = (outlineAll depth ms).map OutlineLine.text
  | [], [], _ => rfl
  | n :: ns, m :: ms, h => by
    obtain ⟨hn, hns⟩ := List.cons.inj h
    rw [outlineAll, outlineAll, List.map_append, List.map_append, map_text_outlineFrom n m hn,
      map_text_outlineAll ns ms hns]

end

theorem newline_not_mem_outline (n : Node) :
    ∀ line ∈ n.outline.map OutlineLine.text, '\n' ∉ line.toList := by
  intro line hline
  obtain ⟨row, hrow, rfl⟩ := List.mem_map.mp hline
  obtain ⟨m, -, -, -, hlabel⟩ := mem_outlineFrom n hrow
  rw [toList_text, hlabel, List.mem_append, not_or]
  exact ⟨fun h => absurd (List.eq_of_mem_replicate h) (by decide), newline_not_mem_label _ _⟩

end Node

/-- The listing of a tree says no less and no more than its shape, its kinds and its values as they
are shown, newlines marked. Its lines are the rows of the outline, one for each node; the first row
is not indented, and each other row is indented by one level at least and by one level more than
the row before it at most. -/
theorem treeListing_sketch (f g : Findings) :
    (f.treeListing = g.treeListing ↔ f.root.sketch = g.root.sketch) ∧
      f.treeListing.toList.splitOn '\n' =
        f.root.outline.map (fun row => row.text.toList) ++ [[]] ∧
      f.root.outline.length = f.root.count ∧
      ∃ depths, f.root.outline.map OutlineLine.depth = 0 :: depths ∧
        List.IsChain Node.StepsTo (0 :: depths) := by
  have hlines := f.root.newline_not_mem_outline
  obtain ⟨depths, hdepths, hchain, -⟩ := f.root.depths_outlineFrom 0
  refine ⟨⟨fun h => ?_, fun h => ?_⟩, ?_, f.root.length_outline, depths, hdepths, hchain⟩
  · have hrows := Findings.asLines_inj hlines g.root.newline_not_mem_outline h
    have hends : Node.EndsAbove (0 + 1) [] := by simp [Node.EndsAbove]
    exact (Node.outlineFrom_inj f.root g.root [] [] hends hends (congrArg (· ++ []) hrows)).1
  · exact congrArg Findings.asLines (Node.map_text_outlineFrom f.root g.root h)
  · exact (Findings.splitOn_asLines hlines).trans (congrArg (· ++ [[]]) List.map_map)

end CSurvey
