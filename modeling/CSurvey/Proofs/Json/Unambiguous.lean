import Mathlib.Logic.Function.Basic
import CSurvey.Json.Export
import CSurvey.Proofs.Json.Pieces

/-! # What compact text determines

The pieces of a plain value tell where each of its parts ends, so that they determine it, and so
does its compact text, which is read as these pieces. A survey is such a value, and its members say
all that it holds. -/

namespace CSurvey

namespace Json

/-! ## Values and their pieces -/

theorem itemPieces_eq_map (items : List Json) : itemPieces items = items.map pieces := by
  induction items with
  | nil => rfl
  | cons item items ih => rw [itemPieces, ih, List.map_cons]

/-- The pieces of a member of an object. -/
def memberPiece (member : String × Json) : List Lexeme :=
  .string (some member.1.toList) :: .colon :: member.2.pieces

theorem memberPieces_eq_map (members : List (String × Json)) :
    memberPieces members = members.map memberPiece := by
  induction members with
  | nil => rfl
  | cons member members ih => rw [memberPieces, ih, List.map_cons]; rfl

/-- A value begins with no piece that closes an array. -/
theorem pieces_head (v : Json) :
    ∃ piece more, v.pieces = piece :: more ∧ piece ≠ .closeBracket := by
  cases v <;> exact ⟨_, _, by rw [pieces], by simp⟩

section

variable {α : Type} {f : α → List Lexeme} {closing : Lexeme} {xs : List α}

/-- The pieces of a part tell which part it is, and where they end. -/
def SelfEnding (f : α → List Lexeme) (x : α) : Prop :=
  ∀ {y r s}, f x ++ r = f y ++ s → x = y ∧ r = s

/-- Self-ending parts behind a comma each tell where they all end. -/
theorem flatMap_inj (hcomma : closing ≠ .comma)
    (hpart : ∀ x ∈ xs, SelfEnding f x) {ys : List α} {r s : List Lexeme}
    (h : (xs.map f).flatMap (.comma :: ·) ++ closing :: r =
      (ys.map f).flatMap (.comma :: ·) ++ closing :: s) : xs = ys ∧ r = s := by
  induction xs generalizing ys with
  | nil =>
      cases ys with
      | nil => exact ⟨rfl, (List.cons.inj h).2⟩
      | cons y ys => exact absurd (List.cons.inj h).1 hcomma
  | cons x xs ih =>
      rw [List.forall_mem_cons] at hpart
      cases ys with
      | nil => exact absurd (List.cons.inj h).1.symm hcomma
      | cons y ys =>
          simp only [List.map_cons, List.flatMap_cons, List.append_assoc, List.cons_append,
            List.cons.injEq, true_and] at h
          obtain ⟨rfl, hrest⟩ := hpart.1 h
          obtain ⟨rfl, rfl⟩ := ih hpart.2 hrest
          exact ⟨rfl, rfl⟩

/-- Self-ending parts with commas between them tell where they all end, if none begins with what
closes them. -/
theorem separated_inj (hcomma : closing ≠ .comma)
    (hhead : ∀ x, ∃ piece more, f x = piece :: more ∧ piece ≠ closing)
    (hpart : ∀ x ∈ xs, SelfEnding f x) {ys : List α} {r s : List Lexeme}
    (h : separated (xs.map f) ++ closing :: r = separated (ys.map f) ++ closing :: s) :
    xs = ys ∧ r = s := by
  cases xs with
  | nil =>
      cases ys with
      | nil => exact ⟨rfl, (List.cons.inj h).2⟩
      | cons y ys =>
          obtain ⟨piece, more, hcons, hne⟩ := hhead y
          simp only [List.map_cons, separated, hcons, List.cons_append] at h
          exact absurd (List.cons.inj h).1.symm hne
  | cons x xs =>
      cases ys with
      | nil =>
          obtain ⟨piece, more, hcons, hne⟩ := hhead x
          simp only [List.map_cons, separated, hcons, List.cons_append] at h
          exact absurd (List.cons.inj h).1 hne
      | cons y ys =>
          rw [List.forall_mem_cons] at hpart
          simp only [List.map_cons, separated, List.append_assoc] at h
          obtain ⟨rfl, hrest⟩ := hpart.1 h
          obtain ⟨rfl, rfl⟩ := flatMap_inj hcomma hpart.2 hrest
          exact ⟨rfl, rfl⟩

end

/-- The pieces of a plain value determine it, and where they end. -/
theorem IsPlain.selfEnding {v : Json} (hv : v.IsPlain) : SelfEnding pieces v := by
  -- The first piece tells what kind of value it is.
  induction hv with
  | null =>
      intro w r s h
      cases w <;> simp_all [pieces]
  | bool b =>
      intro w r s h
      cases w <;> simp_all [pieces]
  | natural n =>
      intro w r s h
      cases w <;> simp_all [pieces]
  | string text =>
      intro w r s h
      cases w <;> simp_all [pieces, String.toList_inj]
  | array _ ih =>
      intro w r s h
      cases w with
      | array items =>
          simp only [pieces, itemPieces_eq_map, List.cons_append, List.append_assoc,
            List.nil_append, List.cons.injEq, true_and] at h
          obtain ⟨rfl, rfl⟩ := separated_inj (by decide) pieces_head ih h
          exact ⟨rfl, rfl⟩
      | _ => simp [pieces] at h
  | @object members _ ih =>
      intro w r s h
      have hmember : ∀ m ∈ members, SelfEnding memberPiece m := by
        intro m hm m' r s h
        simp only [memberPiece, List.cons_append, List.cons.injEq, Lexeme.string.injEq,
          Option.some.injEq, String.toList_inj, true_and] at h
        obtain ⟨hkey, hvalue⟩ := h
        have hends := ih m hm hvalue
        exact ⟨Prod.ext hkey hends.1, hends.2⟩
      cases w with
      | object members' =>
          simp only [pieces, memberPieces_eq_map, List.cons_append, List.append_assoc,
            List.nil_append, List.cons.injEq, true_and] at h
          obtain ⟨rfl, rfl⟩ :=
            separated_inj (by decide) (fun m => ⟨_, _, rfl, by simp⟩) hmember h
          exact ⟨rfl, rfl⟩
      | _ => simp [pieces] at h

/-- Plain values with one compact text are one value. -/
theorem IsPlain.compact_inj {v w : Json} (hv : v.IsPlain) (hw : w.IsPlain)
    (h : v.compact = w.compact) : v = w := by
  have hpieces : v.pieces = w.pieces := by
    rw [← Option.some_inj, ← hv.lexemes?_compact, ← hw.lexemes?_compact, h]
  exact (hv.selfEnding (r := []) (s := []) (by rw [hpieces])).1

/-! ## Absent texts and lists -/

attribute [simp] IsPlain.bool IsPlain.natural IsPlain.string

@[simp]
theorem isPlain_object {members : List (String × Json)} :
    (Json.object members).IsPlain ↔ ∀ member ∈ members, member.2.IsPlain :=
  ⟨fun | .object h => h, .object⟩

@[simp]
theorem isPlain_array {items : List Json} :
    (Json.array items).IsPlain ↔ ∀ item ∈ items, item.IsPlain :=
  ⟨fun | .array h => h, .array⟩

@[simp]
theorem isPlain_ofText? (text : Option String) : (ofText? text).IsPlain := by
  cases text with
  | none => exact .null
  | some text => exact .string text

@[simp]
theorem isPlain_ofTexts (texts : List String) : (ofTexts texts).IsPlain := by
  simp [ofTexts]

/-- An absent text is no text that is there, be it empty or `null`. -/
@[simp]
theorem ofText?_inj {s t : Option String} : ofText? s = ofText? t ↔ s = t := by
  cases s <;> cases t <;> simp [ofText?]

@[simp]
theorem ofTexts_inj {texts texts' : List String} :
    ofTexts texts = ofTexts texts' ↔ texts = texts' := by
  simp [ofTexts, List.map_inj_right]

end Json

/-! ## Surveys -/

@[simp]
theorem ParameterEntry.isPlain_toJson (p : ParameterEntry) : p.toJson.IsPlain := by
  simp [toJson]

@[simp]
theorem FunctionEntry.isPlain_toJson (f : FunctionEntry) : f.toJson.IsPlain := by
  simp [toJson]

@[simp]
theorem VariableEntry.isPlain_toJson (v : VariableEntry) : v.toJson.IsPlain := by
  simp [toJson]

@[simp]
theorem MacroEntry.isPlain_toJson (m : MacroEntry) : m.toJson.IsPlain := by
  simp [toJson]

@[simp]
theorem StructEntry.isPlain_toJson (s : StructEntry) : s.toJson.IsPlain := by
  simp [toJson]

theorem Survey.isPlain_toJson (a : Survey) : a.toJson.IsPlain := by
  simp [toJson]

@[simp]
theorem ParameterEntry.toJson_inj {p q : ParameterEntry} : p.toJson = q.toJson ↔ p = q := by
  cases p; cases q
  simp [toJson]

@[simp]
theorem FunctionEntry.toJson_inj {f g : FunctionEntry} : f.toJson = g.toJson ↔ f = g := by
  cases f; cases g
  simp [toJson, List.map_inj_right]

@[simp]
theorem VariableEntry.toJson_inj {v w : VariableEntry} : v.toJson = w.toJson ↔ v = w := by
  cases v; cases w
  simp [toJson]

@[simp]
theorem MacroEntry.toJson_inj {m n : MacroEntry} : m.toJson = n.toJson ↔ m = n := by
  cases m; cases n
  simp [toJson]

@[simp]
theorem StructEntry.toJson_inj {s t : StructEntry} : s.toJson = t.toJson ↔ s = t := by
  cases s; cases t
  simp [toJson]

/-- The members of a survey say all that it holds. -/
theorem Survey.toJson_inj {a b : Survey} : a.toJson = b.toJson ↔ a = b := by
  cases a; cases b
  simp [toJson, List.map_inj_right, UInt64.toNat_inj]

/-- Two surveys with one compact text are one survey, whatever their texts hold. -/
theorem Survey.compact_injective : Function.Injective fun a : Survey => a.toJson.compact :=
  fun a b h => toJson_inj.mp (a.isPlain_toJson.compact_inj b.isPlain_toJson h)

end CSurvey
