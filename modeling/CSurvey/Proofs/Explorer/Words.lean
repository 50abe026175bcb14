import Mathlib.Data.List.Forall2
import CSurvey.Proofs.Explorer.Keys

/-! # Keys on words of 64 bits

The rows and lines that keys change are words of 64 bits, whose sums and differences may wrap. Here
keys are followed on such words, and a run ends without a result as soon as one wraps. It never does
where the lists in the panes and their lines can be counted in 64 bits, and the words are then the
numbers of the explorer. -/

namespace CSurvey.Explorer

/-! ## Sums and differences -/

/-- A number as a word, if there is a word for it. -/
def word? (n : Nat) : Option UInt64 :=
  if n < UInt64.size then some (UInt64.ofNat n) else none

/-- The difference of two words, if it does not wrap. -/
def checkedSub (a b : UInt64) : Option UInt64 :=
  if b ≤ a then some (a - b) else none

/-- The sum of two words, if it does not wrap. -/
def checkedAdd (a b : UInt64) : Option UInt64 :=
  if a ≤ a + b then some (a + b) else none

/-- The difference of two words, or zero. -/
def saturatingSub (a b : UInt64) : UInt64 :=
  (checkedSub a b).getD 0

/-- The sum of two words, or the greatest word. -/
def saturatingAdd (a b : UInt64) : UInt64 :=
  (checkedAdd a b).getD (.ofNat greatestRow)

theorem toNat_min (a b : UInt64) : (min a b).toNat = min a.toNat b.toNat := by
  show (if a ≤ b then a else b).toNat = _
  simp only [UInt64.le_iff_toNat_le, Nat.min_def]
  split <;> rfl

theorem word?_of_lt {n : Nat} (h : n < UInt64.size) : ∃ w, word? n = some w ∧ w.toNat = n :=
  ⟨_, if_pos h, UInt64.toNat_ofNat_of_lt h⟩

theorem checkedSub_of_le {a b : UInt64} (h : b.toNat ≤ a.toNat) :
    ∃ c, checkedSub a b = some c ∧ c.toNat = a.toNat - b.toNat :=
  have hle := UInt64.le_iff_toNat_le.mpr h
  ⟨_, if_pos hle, UInt64.toNat_sub_of_le _ _ hle⟩

theorem checkedSub_of_lt {a b : UInt64} (h : a.toNat < b.toNat) : checkedSub a b = none :=
  if_neg fun hle => Nat.not_le_of_lt h (UInt64.le_iff_toNat_le.mp hle)

theorem checkedAdd_of_lt {a b : UInt64} (h : a.toNat + b.toNat < UInt64.size) :
    ∃ c, checkedAdd a b = some c ∧ c.toNat = a.toNat + b.toNat := by
  have hsum : (a + b).toNat = a.toNat + b.toNat := by
    rw [UInt64.toNat_add]
    exact Nat.mod_eq_of_lt h
  refine ⟨_, if_pos (UInt64.le_iff_toNat_le.mpr ?_), hsum⟩
  rw [hsum]
  exact Nat.le_add_right ..

theorem checkedAdd_of_le {a b : UInt64} (h : UInt64.size ≤ a.toNat + b.toNat) :
    checkedAdd a b = none := by
  have ha := a.toNat_lt_size
  have hb := b.toNat_lt_size
  refine if_neg fun hle => ?_
  have hle := UInt64.le_iff_toNat_le.mp hle
  rw [UInt64.toNat_add] at hle
  simp only [UInt64.size] at h ha hb
  omega

theorem toNat_saturatingSub (a b : UInt64) : (saturatingSub a b).toNat = a.toNat - b.toNat := by
  by_cases h : b.toNat ≤ a.toNat
  · obtain ⟨c, hc, hsub⟩ := checkedSub_of_le h
    rw [saturatingSub, hc]
    exact hsub
  · rw [saturatingSub, checkedSub_of_lt (Nat.lt_of_not_le h)]
    exact (Nat.sub_eq_zero_of_le (Nat.le_of_not_le h)).symm

theorem toNat_saturatingAdd (a b : UInt64) :
    (saturatingAdd a b).toNat = min (a.toNat + b.toNat) greatestRow := by
  by_cases h : a.toNat + b.toNat < UInt64.size
  · obtain ⟨c, hc, hadd⟩ := checkedAdd_of_lt h
    have hle : a.toNat + b.toNat ≤ greatestRow := Nat.le_pred_of_lt h
    rw [saturatingAdd, hc, Nat.min_eq_left hle]
    exact hadd
  · have hle : greatestRow ≤ a.toNat + b.toNat :=
      Nat.le_trans (Nat.pred_le UInt64.size) (Nat.le_of_not_lt h)
    rw [saturatingAdd, checkedAdd_of_le (Nat.le_of_not_lt h), Nat.min_eq_right hle]
    rfl

/-! ## Moves -/

/-- The size of a signed word has a word, that of the least one included. -/
theorem toNat_abs_toUInt64 (d : Int64) : d.abs.toUInt64.toNat = d.toInt.natAbs := by
  have hsize := d.toBitVec.isLt
  show d.toBitVec.abs.toNat = d.toBitVec.toInt.natAbs
  rw [BitVec.toNat_abs, BitVec.toInt_eq_msb_cond]
  split <;> omega

theorem toNat_toUInt64 {d : Int64} (h : ¬d < 0) : d.toUInt64.toNat = d.toInt.toNat := by
  rw [Int64.toNat_toUInt64_of_le (Int64.not_lt.mp h)]
  rfl

/-- The row that lies `delta` rows from `row` among `count` rows, or the end that is nearest. -/
def stepWord (row : UInt64) (delta : Int64) (count : UInt64) : UInt64 :=
  let moved :=
    if delta < 0 then saturatingSub row delta.abs.toUInt64 else saturatingAdd row delta.toUInt64
  min moved (saturatingSub count 1)

/-- A step on words is the step of the explorer, from any row and over any signed word. -/
theorem toNat_stepWord (row : UInt64) (delta : Int64) (count : UInt64) :
    (stepWord row delta count).toNat = moveRow row.toNat delta.toInt count.toNat := by
  have hlast : (saturatingSub count 1).toNat = count.toNat - 1 := toNat_saturatingSub count 1
  have hneg : delta < 0 ↔ delta.toInt < 0 := Int64.lt_iff_toInt_lt
  rw [stepWord, moveRow]
  by_cases h : delta < 0
  · simp only [if_pos h, if_pos (hneg.mp h), toNat_min, hlast, toNat_saturatingSub,
      toNat_abs_toUInt64]
  · simp only [if_neg h, if_neg (mt hneg.mpr h), toNat_min, hlast, toNat_saturatingAdd,
      toNat_toUInt64 h]

/-- The rows that a key moves over, as a signed word. -/
def Key.delta? : Key → Option Int64
  | .up => some (-1)
  | .down => some 1
  | .pageUp => some (-10)
  | .pageDown => some 10
  | .home => some Int64.minValue
  | .toEnd => some Int64.maxValue
  | _ => none

theorem Key.map_delta? (key : Key) : key.delta?.map Int64.toInt = key.move? := by
  cases key <;> rfl

/-! ## The machine -/

/-- The focus, and the words that keys change. -/
structure Registers where
  focus : Pane
  line : UInt64
  token : Option UInt64
  node : Option UInt64
  scroll : UInt64

namespace Registers

/-- The registers before the first key. -/
def start : Registers :=
  ⟨.source, 1, some 0, some 0, 0⟩

/-- The row that a move selects in a list, and the line that is marked then: that on which the row
stands, or the one as before if the list has no row. -/
def select (lines : List Nat) (row : Option UInt64) (line : UInt64) (delta : Int64) :
    Option (UInt64 × UInt64) := do
  let count ← word? lines.length
  let row := stepWord (row.getD 0) delta count
  match lines[row.toNat]? with
  | some line => return (row, ← word? line)
  | none => return (row, line)

/-- Moves the marked row of the pane that has the focus. -/
def move (lists : Lists) (r : Registers) (delta : Int64) : Option Registers :=
  match r.focus with
  | .source => do
    let row ← checkedSub r.line 1
    let count ← word? lists.painted
    let line ← checkedAdd (stepWord row delta count) 1
    return { r with line }
  | .tokens => do
    let (row, line) ← select lists.tokenLines r.token r.line delta
    return { r with token := some row, line }
  | .tree => do
    let (row, line) ← select lists.rowLines r.node r.line delta
    return { r with node := some row, line }
  | .survey => return { r with scroll := stepWord r.scroll delta (.ofNat greatestRow) }

/-- On a line counted from zero the keys of the source pane would wrap. -/
example (lists : Lists) : ({ start with line := 0 } : Registers).move lists (-1) = none := rfl

/-- The registers after a key. -/
def press (lists : Lists) (r : Registers) (key : Key) : Option Registers :=
  match key.delta? with
  | some delta => r.move lists delta
  | none => some { r with focus := key.focusAfter r.focus }

/-- The registers before the first key and after each key. -/
def run (lists : Lists) (r : Registers) : List Key → Option (List Registers)
  | [] => some [r]
  | key :: keys => do
    let next ← r.press lists key
    let later ← next.run lists keys
    return r :: later

end Registers

/-! ## Words and numbers -/

/-- Lists that can be counted with words, and whose lines have words. -/
structure Lists.Fit (lists : Lists) : Prop where
  painted : lists.painted < UInt64.size
  tokens : lists.tokenLines.length < UInt64.size
  tokenLines : ∀ line ∈ lists.tokenLines, line < UInt64.size
  rows : lists.rowLines.length < UInt64.size
  rowLines : ∀ line ∈ lists.rowLines, line < UInt64.size

/-- A selection in a list that fits does not fail, and comes to the numbers of the explorer. -/
theorem Registers.select_of_fit {lines : List Nat} (hlength : lines.length < UInt64.size)
    (hlines : ∀ line ∈ lines, line < UInt64.size) (row : Option UInt64) (line : UInt64)
    (delta : Int64) :
    ∃ selected marked, select lines row line delta = some (selected, marked) ∧
      selected.toNat = moveRow ((row.map UInt64.toNat).getD 0) delta.toInt lines.length ∧
      marked.toNat = lines[selected.toNat]?.getD line.toNat := by
  obtain ⟨count, hcount, hcounts⟩ := word?_of_lt hlength
  have hstep := toNat_stepWord (row.getD 0) delta count
  have hrow : (row.getD 0).toNat = (row.map UInt64.toNat).getD 0 := by cases row <;> rfl
  rw [hrow, hcounts] at hstep
  cases hfound : lines[(stepWord (row.getD 0) delta count).toNat]? with
  | none =>
      refine ⟨_, line, ?_, hstep, by rw [hfound, Option.getD_none]⟩
      simp [select, hcount, hfound]
  | some found =>
      obtain ⟨marked, hword, hmarked⟩ := word?_of_lt (hlines found (List.mem_of_getElem? hfound))
      refine ⟨_, marked, ?_, hstep, by rw [hfound, hmarked, Option.getD_some]⟩
      simp [select, hcount, hfound, hword]

/-- The words of the registers are the numbers of the state. -/
structure State.InWords (s : State) (r : Registers) : Prop where
  focus : r.focus = s.focus
  line : r.line.toNat = s.line
  token : r.token.map UInt64.toNat = s.tokenPlace.selected
  node : r.node.map UInt64.toNat = s.treePlace.selected
  scroll : r.scroll.toNat = s.surveyScroll

theorem State.start_inWords (shown : String) (findings : Findings) :
    (State.start shown findings).InWords .start :=
  ⟨rfl, rfl, rfl, rfl, rfl⟩

namespace State.InWords

variable {s : State} {r : Registers}

/-- The line of the source counts from one, so that its row is no difference that wraps. -/
theorem moveLine (h : s.InWords r) (hfocus : s.focus = .source) (hfit : s.lists.Fit)
    (hline : 1 ≤ s.line) (delta : Int64) :
    ∃ next, r.move s.lists delta = some next ∧ (s.moveLine delta.toInt).InWords next := by
  obtain ⟨row, hsub, hrow⟩ := checkedSub_of_le (a := r.line) (b := 1) (h.line ▸ hline)
  obtain ⟨count, hcount, hcounts⟩ := word?_of_lt hfit.painted
  have hstep := toNat_stepWord row delta count
  have hle := moveRow_le row.toNat delta.toInt count.toNat
  obtain ⟨line, hadd, hmarked⟩ := checkedAdd_of_lt (a := stepWord row delta count) (b := 1) (by
    have hpainted := hfit.painted
    have hone : (1 : UInt64).toNat = 1 := rfl
    simp only [UInt64.size] at hpainted ⊢
    omega)
  refine ⟨{ r with line }, ?_, h.focus, ?_, h.token, h.node, h.scroll⟩
  · simp [Registers.move, h.focus, hfocus, hsub, hcount, hadd]
  · rw [hmarked, hstep, hrow, hcounts, h.line]
    rfl

theorem moveToken (h : s.InWords r) (hfocus : s.focus = .tokens) (hfit : s.lists.Fit)
    (delta : Int64) :
    ∃ next, r.move s.lists delta = some next ∧ (s.moveToken delta.toInt).InWords next := by
  obtain ⟨row, status, hrow, hmove⟩ := s.moveToken_eq delta.toInt
  obtain ⟨selected, marked, hselect, hselected, hmarked⟩ :=
    Registers.select_of_fit hfit.tokens hfit.tokenLines r.token r.line delta
  rw [h.token, ← hrow] at hselected
  rw [hselected, h.line] at hmarked
  refine ⟨{ r with token := some selected, line := marked }, ?_, ?_⟩
  · simp [Registers.move, h.focus, hfocus, hselect]
  · rw [hmove]
    exact ⟨h.focus, hmarked, congrArg some hselected, h.node, h.scroll⟩

theorem moveNode (h : s.InWords r) (hfocus : s.focus = .tree) (hfit : s.lists.Fit)
    (delta : Int64) :
    ∃ next, r.move s.lists delta = some next ∧ (s.moveNode delta.toInt).InWords next := by
  obtain ⟨row, status, hrow, hmove⟩ := s.moveNode_eq delta.toInt
  obtain ⟨selected, marked, hselect, hselected, hmarked⟩ :=
    Registers.select_of_fit hfit.rows hfit.rowLines r.node r.line delta
  rw [h.node, ← hrow] at hselected
  rw [hselected, h.line] at hmarked
  refine ⟨{ r with node := some selected, line := marked }, ?_, ?_⟩
  · simp [Registers.move, h.focus, hfocus, hselect]
  · rw [hmove]
    exact ⟨h.focus, hmarked, h.token, congrArg some hselected, h.scroll⟩

theorem scrollSurvey (h : s.InWords r) (hfocus : s.focus = .survey) (delta : Int64) :
    ∃ next, r.move s.lists delta = some next ∧ (s.scrollSurvey delta.toInt).InWords next := by
  refine ⟨{ r with scroll := stepWord r.scroll delta (.ofNat greatestRow) }, ?_, h.focus, h.line,
    h.token, h.node, ?_⟩
  · simp [Registers.move, h.focus, hfocus]
  · rw [toNat_stepWord, h.scroll]
    rfl

/-- A key wraps no word, and the words stay the numbers of the state. -/
theorem press (h : s.InWords r) (hfit : s.lists.Fit) (hline : 1 ≤ s.line) (key : Key) :
    ∃ next, r.press s.lists key = some next ∧ (s.press key).InWords next := by
  have hmap := key.map_delta?
  obtain ⟨moved, hmoved, hpress⟩ | ⟨hmoved, quit, hpress⟩ := s.press_cases key
  · rw [hmoved] at hmap
    obtain ⟨delta, hdelta, rfl⟩ := Option.map_eq_some_iff.mp hmap
    rw [hpress, Registers.press, hdelta, State.move]
    cases hfocus : s.focus with
    | source => exact h.moveLine hfocus hfit hline delta
    | tokens => exact h.moveToken hfocus hfit delta
    | tree => exact h.moveNode hfocus hfit delta
    | survey => exact h.scrollSurvey hfocus delta
  · rw [hmoved] at hmap
    rw [hpress, Registers.press, Option.map_eq_none_iff.mp hmap]
    exact ⟨_, rfl, congrArg key.focusAfter h.focus, h.line, h.token, h.node, h.scroll⟩

/-- No key of a run wraps a word, if every line that is marked on the way is counted from one. -/
theorem run (h : s.InWords r) (hfit : s.lists.Fit) (keys : List Key)
    (hlines : ∀ t ∈ s.run keys, 1 ≤ t.line) :
    ∃ registers, r.run s.lists keys = some registers ∧
      List.Forall₂ State.InWords (s.run keys) registers := by
  induction keys generalizing s r with
  | nil => exact ⟨[r], rfl, .cons h .nil⟩
  | cons key keys ih =>
      rw [State.run, List.forall_mem_cons] at hlines
      obtain ⟨next, hnext, hwords⟩ := h.press hfit hlines.1 key
      have hlists := s.lists_press key
      obtain ⟨later, hlater, hall⟩ := ih hwords (hlists ▸ hfit) hlines.2
      rw [hlists] at hlater
      refine ⟨r :: later, ?_, .cons h hall⟩
      simp [Registers.run, hnext, hlater]

end State.InWords

end CSurvey.Explorer
