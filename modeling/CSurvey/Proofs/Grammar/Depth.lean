import CSurvey.Proofs.Grammar.Assembled
import CSurvey.Proofs.Grammar.Readers

/-! # The depth of nesting

Constructs that are read one level deeper come back to the level before, whether they are read or
fail. Only the operators of an expression go deeper for the rest of it, and the expression as a
whole comes back. So an item of a file leaves the depth as it was. -/

namespace CSurvey.Grammar

/-- The state in which a run ends, whatever it comes to. -/
def finalState {α : Type} : EStateM.Result Failure State α → State
  | .ok _ t => t
  | .error _ t => t

/-- The depth is the same behind the reader as before it, whatever it comes to. -/
def Flat {α : Type} (p : Parse α) : Prop :=
  ∀ s : State, (finalState (p s)).depth = s.depth

/-- Rules that leave the depth as it was. -/
structure Rules.Flat (r : Rules) : Prop where
  expression : Grammar.Flat r.expression
  initializer : Grammar.Flat r.initializer
  structSpecifier : Grammar.Flat r.structSpecifier
  statement : Grammar.Flat r.statement

namespace Flat

variable {α β : Type} {r : Rules} {p : Parse α}

theorem ok {s t : State} {a : α} (hp : Flat p) (h : p s = .ok a t) : t.depth = s.depth := by
  have hdepth := hp s
  rw [h] at hdepth
  exact hdepth

theorem error {s t : State} {e : Failure} (hp : Flat p) (h : p s = .error e t) :
    t.depth = s.depth := by
  have hdepth := hp s
  rw [h] at hdepth
  exact hdepth

/-! ## Composed readers -/

theorem pure (a : α) : Flat (pure a) :=
  fun _ => rfl

theorem bind {f : α → Parse β} (hp : Flat p) (hf : ∀ a, Flat (f a)) : Flat (p >>= f) := by
  intro s
  rw [bind_apply]
  cases h : p s with
  | ok a t => exact (hf a t).trans (hp.ok h)
  | error e t => exact hp.error h

theorem ite {c : Prop} [Decidable c] {q : Parse α} (hp : Flat p) (hq : Flat q) :
    Flat (if c then p else q) := by
  split
  · exact hp
  · exact hq

theorem look (g : State → α) : Flat fun s => .ok (g s) s :=
  fun _ => rfl

theorem stop (f : State → Failure) : Flat (α := α) fun s => .error (f s) s :=
  fun _ => rfl

/-- What goes deeper inside comes back. -/
theorem oneDeeper (p : Parse α) : Flat (oneDeeper p) := by
  intro s
  cases h : Grammar.oneDeeper p s with
  | ok a t =>
      obtain ⟨-, u, -, rfl⟩ := oneDeeper_eq_ok.mp h
      rfl
  | error e t =>
      obtain ⟨-, -, rfl⟩ | ⟨-, u, -, rfl⟩ := oneDeeper_eq_error.mp h
      · rfl
      · rfl

theorem onDirectiveLine (hp : Flat p) : Flat (onDirectiveLine p) := by
  intro s
  cases h : Grammar.onDirectiveLine p s with
  | ok a t =>
      obtain ⟨u, hu, rfl⟩ := onDirectiveLine_eq_ok.mp h
      have hdepth := hp.ok hu
      exact hdepth
  | error e t =>
      obtain ⟨u, hu, rfl⟩ := onDirectiveLine_eq_error.mp h
      have hdepth := hp.error hu
      exact hdepth

theorem rounds {round : α → Parse (Turn α)} (hround : ∀ a, Flat (round a)) (fuel : List Token)
    (value : α) : Flat (rounds round fuel value) := by
  induction fuel generalizing value with
  | nil =>
      apply bind (hround value)
      intro turn
      cases turn with
      | again _ => exact stop _
      | done result => exact pure result
  | cons _ fuel ih =>
      apply bind (hround value)
      intro turn
      cases turn with
      | again next => exact ih next
      | done result => exact pure result

theorem loop {round : α → Parse (Turn α)} {value : α} (hround : ∀ a, Flat (round a)) :
    Flat (loop round value) :=
  fun s => rounds hround s.rest value s

theorem takeFront : Flat takeFront :=
  fun _ => rfl

theorem takeComments : Flat takeComments :=
  fun _ => rfl

theorem note (w : SkippedMember) : Flat (note w) :=
  fun _ => rfl

/-- What is put together from parts that leave the depth as it was leaves it so. -/
theorem ofAssembled (h : Assembled (fun _ => Flat) p) : Flat p := by
  induction h with
  | part hp => exact hp
  | pure a => exact .pure a
  | bind _ _ ihp ihf => exact .bind ihp ihf
  | look f => exact .look f
  | stop f => exact .stop f
  | takeFront => exact .takeFront
  | takeComments => exact .takeComments
  | oneDeeper _ _ => exact .oneDeeper _
  | onDirectiveLine _ ih => exact .onDirectiveLine ih
  | loop _ ih => exact .loop ih

end Flat

theorem Rules.Flat.assembled {r : Rules} (h : r.Flat) : r.Assembled fun _ => Grammar.Flat :=
  ⟨.part h.expression, .part h.initializer, .part h.structSpecifier, .part h.statement⟩

namespace Flat

variable {r : Rules}

/-! ## Struct bodies -/

theorem reportPassed (tag : String) (passed : List Token) : Flat (reportPassed tag passed) := by
  unfold Grammar.reportPassed
  split
  · exact pure _
  · exact note _

theorem passBraces (passed : List Token) : Flat (passBraces passed) := by
  refine bind (loop fun (depth, passed) => bind takeFront fun token => ?_) fun _ => pure _
  split
  · exact pure _
  · exact pure _
  · exact ite (pure _) (pure _)
  · exact ite (pure _) (pure _)

theorem structBody (h : r.Flat) (tag : String) : Flat (structBody r tag) := by
  have hmembers : Flat (structMembers r) := ofAssembled (.structMembers h.assembled)
  refine bind (loop fun body => bind (look _) fun kind => ?_) fun _ =>
    bind (reportPassed _ _) fun _ => pure _
  refine ite (pure _) <| ite (stop _) <| ite ?_ <| ite ?_ ?_
  · exact bind (reportPassed _ _) fun _ => bind hmembers fun _ => pure _
  · exact bind (passBraces _) fun _ => pure _
  · exact bind takeFront fun _ => pure _

/-! ## Items -/

theorem item (h : r.Flat) : Flat (item r) :=
  ofAssembled (.item h.assembled)

end Flat

/-- The rules of the grammar leave the depth as it was. -/
theorem Rules.level_flat (levels : Nat) : (Rules.level levels).Flat := by
  induction levels with
  | zero => exact ⟨.stop _, .stop _, .stop _, .stop _⟩
  | succ levels ih =>
      refine ⟨.oneDeeper _, ?_, ?_, .oneDeeper _⟩
      · exact .ofAssembled (.initializer ih.assembled)
      · exact .ofAssembled (.structSpecifier fun tag => .structBody ih tag)

end CSurvey.Grammar
