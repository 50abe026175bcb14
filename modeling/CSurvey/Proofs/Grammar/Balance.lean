import Mathlib.Logic.Function.Iterate
import CSurvey.Proofs.Grammar.FirstEnd

/-! # Balanced modes

The modes of a parse are the depth of nesting and whether a directive line is being read. A
production gives both back as it found them, whether it is read or fails. So a parse ends as it
starts, outside all constructs and all directive lines, and in its course the depth stays within its
limit. -/

namespace CSurvey.Grammar

/-- A reader that leaves the modes as they were, whatever it comes to. -/
def Balanced {α : Type} (p : Parse α) : Prop :=
  ∀ s : State, (finalState (p s)).depth = s.depth ∧ (finalState (p s)).onLine = s.onLine

/-- Rules by which every production leaves the modes as they were. -/
structure Rules.Balanced (r : Rules) : Prop where
  expression : Grammar.Balanced (Grammar.expression r)
  statement : Grammar.Balanced (Grammar.statement r)
  declaration : Grammar.Balanced (Grammar.declaration r)
  inclusion : Grammar.Balanced Grammar.inclusion
  macroDefinition : Grammar.Balanced (Grammar.macroDefinition r)
  otherDirective : Grammar.Balanced Grammar.otherDirective
  item : Grammar.Balanced (Grammar.item r)

/-! ## Productions -/

theorem Composed.leads_finalState {α : Type} {p : Parse α} (hp : Composed true true p) (s : State) :
    s.Leads (finalState (p s)) := by
  cases h : p s with
  | ok a t => exact hp.leads h
  | error e t => exact hp.leads_error h

/-- What is put together from single steps leaves the line mode as it was. -/
theorem Balanced.ofFlat {α : Type} {p : Parse α} (hp : Composed true true p) (h : Flat p) :
    Balanced p :=
  fun s => ⟨h s, (hp.leads_finalState s).onLine⟩

theorem Rules.level_balanced (levels : Nat) : (Rules.level levels).Balanced := by
  have hr := Rules.level_composed levels
  have hflat := (Rules.level_flat levels).assembled
  constructor
  · exact .ofFlat (.relax (.expression hr)) (.oneDeeper _)
  · exact .ofFlat (.statement hr) (.oneDeeper _)
  · exact .ofFlat (.declaration hr) (.ofAssembled (.declaration hflat))
  · exact .ofFlat .inclusion (.ofAssembled .inclusion)
  · exact .ofFlat (.relax (.macroDefinition hr)) (.ofAssembled (.macroDefinition hflat))
  · exact .ofFlat .otherDirective (.ofAssembled .otherDirective)
  · exact .ofFlat (.item hr) (.ofAssembled (.item hflat))

/-! ## Files -/

/-- Outside all constructs and all directive lines. -/
def State.AtRest (s : State) : Prop :=
  s.depth = 0 ∧ s.onLine = false

theorem State.AtRest.ofTokens (tokens : List Token) (limit : Nat) :
    (State.ofTokens tokens limit).AtRest :=
  ⟨rfl, rfl⟩

theorem State.AtRest.final {α : Type} {p : Parse α} {s : State} (hp : Balanced p) (h : s.AtRest) :
    (finalState (p s)).AtRest :=
  ⟨(hp s).1.trans h.1, (hp s).2.trans h.2⟩

/-- A reading that starts at rest ends at rest, also where it stops at a failure. -/
theorem Ending.atRest {r : Rules} (hr : r.Balanced) {recover : Bool} {fuel : List Token}
    {p : Progress} (h : p.state.AtRest) : (readItems r recover fuel p).state.AtRest := by
  have hends : (readItems r recover fuel p).Ends (fun p => p.state.AtRest) fun _ s => s.AtRest := by
    refine readItems_keeps (fun _ h => h) ?_ ?_ h
    · intro p hp _ found next hitem
      have hfinal := hp.final hr.item
      rw [hitem] at hfinal
      exact hfinal
    · intro p hp _ failure failed hitem
      have hfinal := hp.final hr.item
      rw [hitem] at hfinal
      exact ⟨fun _ => ⟨rfl, rfl⟩, fun _ => hfinal⟩
  generalize readItems r recover fuel p = ending at hends ⊢
  cases ending with
  | complete p => exact hends
  | stopped failure s => exact hends

theorem Session.state_next (s : Session) :
    s.next.2.state =
      (readItems (.forTokens s.state.rest) s.recover s.state.rest ⟨[], [], s.state⟩).state := by
  unfold next
  dsimp only
  split
  · rename_i p hread
    rw [hread]
    rfl
  · rename_i failure t hread
    rw [hread]
    rfl

/-- A session is at rest after any number of parses. -/
theorem Session.atRest_iterate (tokens : List Token) (options : ParseSettings) (calls : Nat) :
    ((fun s : Session => s.next.2)^[calls] (.ofTokens tokens options)).state.AtRest := by
  induction calls with
  | zero => exact .ofTokens tokens options.maxNesting
  | succ calls ih =>
      rw [Function.iterate_succ_apply', state_next]
      exact Ending.atRest (Rules.level_balanced _) ih

/-- Every production gives the modes back, on success and on failure. So after any number of parses
a session is at rest; and in the course of a parse, which by positions takes the same steps, the
depth is never greater than the settings allow. -/
theorem modes_balanced :
    (∀ levels, (Rules.level levels).Balanced) ∧
      (∀ tokens options calls,
        ((fun s : Session => s.next.2)^[calls] (.ofTokens tokens options)).state.AtRest) ∧
      ∀ (tokens : List Token) (options : ParseSettings),
        Nonempty (Routine.For
          (item (.forTokens (State.ofTokens tokens options.maxNesting).rest))) ∧
        ∀ (m : Routine.For (item (.forTokens (State.ofTokens tokens options.maxNesting).rest)))
          (spare : Nat), ∃ final,
            scanFile (tokens.length + 1 + spare) m.1 tokens options =
              some (parse tokens options, final) ∧
            final.depth = 0 ∧ final.onLine = false ∧ final.deepest ≤ options.maxNesting := by
  refine ⟨Rules.level_balanced, Session.atRest_iterate, ?_⟩
  intro tokens options
  refine ⟨Routine.nonempty_for_item _, ?_⟩
  intro m spare
  obtain ⟨c, hlimit, hclosed⟩ := exists_course options.maxNesting (exists_end_closed tokens)
  have hbudget : c.inner.length < tokens.length + 1 + spare := by
    have hle := c.length_inner_le hclosed
    omega
  obtain ⟨final, hscan, hshows⟩ := c.exists_scanFile hclosed hlimit m hbudget
  have hrest : (readFile (.forTokens (State.ofTokens tokens options.maxNesting).rest) tokens
      options).state.AtRest :=
    Ending.atRest (Rules.level_balanced _) (.ofTokens tokens options.maxNesting)
  exact ⟨final, hscan, hshows.depth.trans hrest.1, hshows.onLine.trans hrest.2,
    hlimit ▸ hshows.deepest_le⟩

end CSurvey.Grammar
