import Mathlib.Tactic.Choose
import CSurvey.Proofs.Grammar.Composed

/-! # Readers as routines

A routine writes down which single steps a reader is put together from, and how. Every reader of the
grammar is the reading of a routine, so that it can be followed step by step, also where the steps
are taken by other means than those of `State`. -/

namespace CSurvey.Grammar

/-- Single steps, put together. -/
inductive Routine : Type → Type 1 where
  | pure {α : Type} (a : α) : Routine α
  | bind {α β : Type} (first : Routine α) (next : α → Routine β) : Routine β
  /-- The next two tokens that count are looked at. -/
  | look {α : Type} (f : Token → Token → α) : Routine α
  | stop {α : Type} (f : Token → Failure) : Routine α
  | takeFront : Routine Token
  | takeComments : Routine (List Node)
  | note (w : SkippedMember) : Routine Unit
  | goDeeper : Routine Unit
  | oneDeeper {α : Type} (inner : Routine α) : Routine α
  | onDirectiveLine {α : Type} (inner : Routine α) : Routine α
  | loop {α : Type} (round : α → Routine (Turn α)) (value : α) : Routine α

namespace Routine

/-- What a routine does to the state of a parse. -/
def read : {α : Type} → Routine α → Parse α
  | _, .pure a => Pure.pure a
  | _, .bind first next => first.read >>= fun a => (next a).read
  | _, .look f => fun s => .ok (f s.front s.second) s
  | _, .stop f => fun s => .error (f s.front) s
  | _, .takeFront => Grammar.takeFront
  | _, .takeComments => Grammar.takeComments
  | _, .note w => Grammar.note w
  | _, .goDeeper => Grammar.goDeeper
  | _, .oneDeeper inner => Grammar.oneDeeper inner.read
  | _, .onDirectiveLine inner => Grammar.onDirectiveLine inner.read
  | _, .loop round value => Grammar.loop (fun a => (round a).read) value

/-- The routines whose reading is a given reader. -/
def For {α : Type} (p : Parse α) : Type 1 :=
  { m : Routine α // m.read = p }

end Routine

/-- What is put together from single steps is the reading of a routine. -/
theorem Composed.exists_routine {collects lines : Bool} {α : Type} {p : Parse α}
    (h : Composed collects lines p) : ∃ m : Routine α, m.read = p := by
  induction h with
  | pure a => exact ⟨.pure a, rfl⟩
  | bind _ _ ihp ihf =>
      obtain ⟨first, rfl⟩ := ihp
      choose next hnext using ihf
      exact ⟨.bind first next, congrArg (first.read >>= ·) (funext hnext)⟩
  | look f => exact ⟨.look f, rfl⟩
  | stop f => exact ⟨.stop f, rfl⟩
  | takeFront => exact ⟨.takeFront, rfl⟩
  | note w => exact ⟨.note w, rfl⟩
  | goDeeper => exact ⟨.goDeeper, rfl⟩
  | oneDeeper _ ih =>
      obtain ⟨inner, rfl⟩ := ih
      exact ⟨.oneDeeper inner, rfl⟩
  | onDirectiveLine _ _ ih =>
      obtain ⟨inner, rfl⟩ := ih
      exact ⟨.onDirectiveLine inner, rfl⟩
  | @loop _ _ value _ ih =>
      choose round hround using ih
      exact ⟨.loop round value, congrArg (Grammar.loop · value) (funext hround)⟩
  | takeComments _ => exact ⟨.takeComments, rfl⟩

theorem Routine.nonempty_for_item (levels : Nat) : Nonempty (For (item (.level levels))) := by
  obtain ⟨m, hm⟩ := (Composed.item (Rules.level_composed levels)).exists_routine
  exact ⟨m, hm⟩

end CSurvey.Grammar
