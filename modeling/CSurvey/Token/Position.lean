/-!
Places in a source text. Lines and columns count from one, and a column is a character.
-/

namespace CSurvey

/-- A line and a column, both counted from one. -/
structure Position where
  line : Nat
  column : Nat
deriving DecidableEq, Repr, Inhabited

namespace Position

/-- Where a text starts. -/
def start : Position := ⟨1, 1⟩

/-- The place after a character: a newline opens the next line. -/
def next (p : Position) (c : Char) : Position :=
  if c = '\n' then ⟨p.line + 1, 1⟩ else ⟨p.line, p.column + 1⟩

/-- The place after a text. -/
def after (p : Position) (text : List Char) : Position :=
  text.foldl next p

@[simp] theorem after_nil (p : Position) : p.after [] = p := rfl

@[simp] theorem after_cons (p : Position) (c : Char) (cs : List Char) :
    p.after (c :: cs) = (p.next c).after cs := rfl

@[simp] theorem after_append (p : Position) (xs ys : List Char) :
    p.after (xs ++ ys) = (p.after xs).after ys :=
  List.foldl_append

/-- Line and column with a colon between them. -/
def text (p : Position) : String :=
  s!"{p.line}:{p.column}"

end Position

end CSurvey
