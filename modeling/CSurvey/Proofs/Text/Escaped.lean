import CSurvey.Text.Escaped

/-! # Reading an escaped text

The escaped form of each character can be told from what follows it: only escapes begin with a
backslash, and a code point ends with its brace. So the text is read back, whatever characters were
written as they are. -/

namespace CSurvey.Text

/-! ## Hexadecimal numbers -/

/-- The value of a hexadecimal digit in lower case. -/
def hexDigit (c : Char) : Nat :=
  if c.isDigit then c.toNat - '0'.toNat else c.toNat - 'a'.toNat + 10

/-- The number that hexadecimal digits write. -/
def hexValue (digits : List Char) : Nat :=
  digits.foldl (fun n c => 16 * n + hexDigit c) 0

theorem digitChar_hex : ∀ n ∈ List.range 16, hexDigit n.digitChar = n ∧
    n.digitChar ∈ "0123456789abcdef".toList := by
  decide

theorem hexValue_toDigits (n : Nat) : hexValue (Nat.toDigits 16 n) = n := by
  induction n using Nat.strongRecOn with
  | ind n ih =>
      rw [Nat.toDigits_eq_if (by decide)]
      split
      · exact (Nat.zero_add _).trans (digitChar_hex n (List.mem_range.mpr ‹_›)).1
      · have hrest := ih (n / 16) (Nat.div_lt_self (by omega) (by decide))
        have hlast := (digitChar_hex (n % 16) (List.mem_range.mpr (Nat.mod_lt n (by decide)))).1
        rw [hexValue] at hrest ⊢
        rw [List.foldl_append, hrest, List.foldl_cons, List.foldl_nil, hlast]
        exact Nat.div_add_mod n 16

theorem mem_toDigits_hex {n : Nat} {c : Char} (h : c ∈ Nat.toDigits 16 n) :
    c ∈ "0123456789abcdef".toList := by
  induction n using Nat.strongRecOn with
  | ind n ih =>
      rw [Nat.toDigits_eq_if (by decide)] at h
      split at h
      · rw [List.mem_singleton.mp h]
        exact (digitChar_hex n (List.mem_range.mpr ‹_›)).2
      · rcases List.mem_append.mp h with h | h
        · exact ih (n / 16) (Nat.div_lt_self (by omega) (by decide)) h
        · rw [List.mem_singleton.mp h]
          exact (digitChar_hex _ (List.mem_range.mpr (Nat.mod_lt n (by decide)))).2

/-! ## Escapes -/

/-- The character that stands behind the backslash of a short escape. -/
def shortEscape (c : Char) : Char :=
  match c with
  | '0' => '\x00'
  | 't' => '\t'
  | 'n' => '\n'
  | 'r' => '\r'
  | c => c

/-- The text that an escaped form stands for. -/
def unescaped : List Char → List Char
  | '\\' :: 'u' :: '{' :: cs =>
    Char.ofNat (hexValue (cs.takeWhile (· ≠ '}'))) :: unescaped ((cs.dropWhile (· ≠ '}')).drop 1)
  | '\\' :: c :: cs => shortEscape c :: unescaped cs
  | c :: cs => c :: unescaped cs
  | [] => []
termination_by cs => cs.length
decreasing_by
  · have hle := (List.dropWhile_suffix (fun c => decide (c ≠ '}')) (l := cs)).length_le
    simp only [List.length_drop, List.length_cons]
    omega
  · exact Nat.lt_succ_of_lt (Nat.lt_succ_self _)
  · exact Nat.lt_succ_self _

theorem unescaped_plain {c : Char} (h : c ≠ '\\') (cs : List Char) :
    unescaped (c :: cs) = c :: unescaped cs := by
  rw [unescaped] <;> simp [h]

theorem unescaped_short {c : Char} (h : c ≠ 'u') (cs : List Char) :
    unescaped ('\\' :: c :: cs) = shortEscape c :: unescaped cs := by
  rw [unescaped]
  simp [h]

theorem unescaped_codePoint (c : Char) (cs : List Char) :
    unescaped (codePointEscape c ++ cs) = c :: unescaped cs := by
  have hdigits : ∀ d ∈ Nat.toDigits 16 c.toNat, decide (d ≠ '}') = true := by
    intro d hd
    refine decide_eq_true ?_
    rintro rfl
    exact absurd (mem_toDigits_hex hd) (by decide)
  have htext : codePointEscape c ++ cs =
      '\\' :: 'u' :: '{' :: (Nat.toDigits 16 c.toNat ++ '}' :: cs) := by
    simp [codePointEscape]
  rw [htext, unescaped, List.takeWhile_append_of_pos hdigits, List.dropWhile_append_of_pos hdigits]
  simp [hexValue_toDigits]

theorem unescaped_escapeChar (first : Bool) (c : Char) (cs : List Char) :
    unescaped (escapeChar first c ++ cs) = c :: unescaped cs := by
  unfold escapeChar
  split
  all_goals first
    | exact unescaped_short (by decide) cs
    | skip
  rename_i hplain
  split
  · exact unescaped_codePoint c cs
  · exact unescaped_plain hplain cs

/-- A text can be read from its escaped form. -/
theorem unescaped_escapeChars (cs : List Char) : unescaped (escapeChars cs) = cs := by
  have htail : ∀ cs : List Char, unescaped (cs.flatMap (escapeChar false)) = cs := by
    intro cs
    induction cs with
    | nil => rw [List.flatMap_nil, unescaped]
    | cons c cs ih => rw [List.flatMap_cons, unescaped_escapeChar, ih]
  cases cs with
  | nil => rw [escapeChars, unescaped]
  | cons c cs => rw [escapeChars, unescaped_escapeChar, htail]

theorem newline_not_mem_escapeChar (first : Bool) (c : Char) : '\n' ∉ escapeChar first c := by
  have hpoint : '\n' ∉ codePointEscape c := by
    have hdigits : '\n' ∉ Nat.toDigits 16 c.toNat := fun h =>
      absurd (mem_toDigits_hex h) (by decide)
    simp [codePointEscape, hdigits]
  unfold escapeChar
  split
  all_goals first
    | decide
    | skip
  split
  · exact hpoint
  · simpa using Ne.symm ‹_›

/-- An escaped form is on one line. -/
theorem newline_not_mem_escapeChars (cs : List Char) : '\n' ∉ escapeChars cs := by
  cases cs with
  | nil => exact List.not_mem_nil
  | cons c cs =>
      rw [escapeChars, List.mem_append, not_or]
      refine ⟨newline_not_mem_escapeChar true c, fun h => ?_⟩
      obtain ⟨d, -, hd⟩ := List.mem_flatMap.mp h
      exact newline_not_mem_escapeChar false d hd

end CSurvey.Text
