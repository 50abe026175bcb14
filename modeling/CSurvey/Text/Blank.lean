import CSurvey.Text.Ranges

/-!
Blanks: the characters with the property White_Space, U+0085 and the separators included.
-/

namespace CSurvey.Text

/-- All white space. -/
def blankRanges : Ranges :=
  [ (0x9, 0xd), (0x20, 0x20), (0x85, 0x85), (0xa0, 0xa0), (0x1680, 0x1680), (0x2000, 0x200a),
    (0x2028, 0x2029), (0x202f, 0x202f), (0x205f, 0x205f), (0x3000, 0x3000) ]

/-- A white space character of any kind, newline included. -/
def isBlank (c : Char) : Bool :=
  blankRanges.contains c

theorem isBlank_newline : isBlank '\n' = true := rfl

theorem ne_newline_of_isBlank {c : Char} (h : isBlank c = false) : c ≠ '\n' := by
  rintro rfl
  rw [isBlank_newline] at h
  contradiction

end CSurvey.Text
