import Mathlib.Algebra.Group.Nat.Defs
import Mathlib.Data.List.TakeWhile
import CSurvey.Number.Positional
import CSurvey.Number.Reading

/-! # Numbers that read back

The plain text of a finite number is a numeral, and the numeral is read as the number. -/

namespace CSurvey

namespace Binary64

variable {n d n' d' k r : Nat}

/-! ## Rounding -/

theorem le_roundHalfEven (n d : Nat) : n / d ≤ roundHalfEven n d := by
  unfold roundHalfEven
  dsimp only
  split
  · exact Nat.le_refl _
  · split
    · exact Nat.le_succ _
    · exact Nat.le_add_right _ _

theorem roundHalfEven_mul (hk : 0 < k) (n d : Nat) :
    roundHalfEven (k * n) (k * d) = roundHalfEven n d := by
  have hlow : 2 * (k * (n % d)) < k * d ↔ 2 * (n % d) < d := by
    rw [Nat.mul_left_comm, Nat.mul_lt_mul_left hk]
  have hhigh : k * d < 2 * (k * (n % d)) ↔ d < 2 * (n % d) := by
    rw [Nat.mul_left_comm, Nat.mul_lt_mul_left hk]
  simp only [roundHalfEven, Nat.mul_div_mul_left _ _ hk, Nat.mul_mod_mul_left, hlow, hhigh]

theorem roundHalfEven_exact (q : Nat) (hd : 0 < d) : roundHalfEven (q * d) d = q := by
  simp [roundHalfEven, Nat.mul_div_cancel _ hd, Nat.mul_mod_left, hd]

theorem rankOfRatio_mul (hk : 0 < k) (n d : Nat) :
    rankOfRatio (k * n) (k * d) = rankOfRatio n d := by
  simp only [rankOfRatio, Nat.mul_assoc, Nat.mul_div_mul_left _ _ hk, roundHalfEven_mul hk]

/-- Equal quotients have the same rank. -/
theorem rankOfRatio_congr (hd : 0 < d) (hd' : 0 < d') (h : n * d' = n' * d) :
    rankOfRatio n d = rankOfRatio n' d' := by
  rw [← rankOfRatio_mul hd', ← rankOfRatio_mul hd n', Nat.mul_comm d' n, h, Nat.mul_comm n' d,
    Nat.mul_comm d' d]

/-! ## Powers of ten -/

/-- A quotient of some size has at least the rank of its block. -/
theorem le_rankOfRatio {up : Nat} (h : 2 ^ (52 + up) ≤ n * scale) :
    (up + 1) * block ≤ rankOfRatio n 1 := by
  have hne : n * scale ≠ 0 := by
    have hpos := Nat.two_pow_pos (52 + up)
    omega
  obtain ⟨more, hmore⟩ := Nat.exists_eq_add_of_le ((Nat.le_log2 hne).mpr h)
  have hround : block ≤ roundHalfEven (n * scale) (Nat.pow 2 (up + more)) := by
    refine Nat.le_trans ?_ (le_roundHalfEven _ _)
    have hlog := Nat.log2_self_le hne
    rw [hmore, Nat.add_assoc, Nat.pow_add] at hlog
    rw [Nat.pow_eq, Nat.le_div_iff_mul_le (Nat.two_pow_pos _), block, Nat.pow_eq]
    exact hlog
  have hup : (n * scale).log2 - 52 = up + more := by omega
  simp only [rankOfRatio, Nat.div_one, hup, Nat.one_mul]
  have hblock : (up + 1) * block ≤ (up + more) * block + block := by
    rw [Nat.add_mul, Nat.one_mul]
    exact Nat.add_le_add_right (Nat.mul_le_mul_right _ (Nat.le_add_right _ _)) _
  omega

/-- The least magnitude is a power of two. -/
theorem exists_scale_eq : ∃ m, scale = Nat.pow 2 m ∧ m = 1074 := by
  unfold scale
  exact ⟨_, rfl, rfl⟩

theorem scale_pos : 0 < scale := by
  obtain ⟨m, hscale, -⟩ := exists_scale_eq
  rw [hscale, Nat.pow_eq]
  exact Nat.two_pow_pos m

theorem two_pow_le_ten_pow (k : Nat) : 2 ^ (93 * k + 1) ≤ 10 ^ (28 * k + 1) := by
  rw [Nat.pow_succ, Nat.pow_succ, Nat.pow_mul, Nat.pow_mul]
  exact Nat.mul_le_mul (Nat.pow_le_pow_left (by decide) k) (by decide)

/-- Great powers of ten are beyond the finite numbers. -/
theorem overflow_le_rankOfRatio {e : Nat} (hn : n ≠ 0) (he : 310 < e) :
    overflow ≤ rankOfRatio (n * 10 ^ e) 1 := by
  obtain ⟨m, hscale, hm⟩ := exists_scale_eq
  obtain ⟨k, hk⟩ : ∃ k, k = 11 := ⟨11, rfl⟩
  have hpower : 2 ^ (93 * k + 1) ≤ n * 10 ^ e := by
    calc 2 ^ (93 * k + 1) ≤ 10 ^ (28 * k + 1) := two_pow_le_ten_pow k
      _ ≤ 10 ^ e := Nat.pow_le_pow_right (by decide) (by omega)
      _ ≤ n * 10 ^ e := Nat.le_mul_of_pos_left _ (Nat.pos_of_ne_zero hn)
  have hunits : 2 ^ (93 * k + 1 + m) ≤ n * 10 ^ e * scale := by
    rw [Nat.pow_add, hscale, Nat.pow_eq]
    exact Nat.mul_le_mul_right _ hpower
  have hunits : 2 ^ (52 + (93 * k + 1 + m - 52)) ≤ n * 10 ^ e * scale := by
    rwa [Nat.add_sub_cancel' (by omega)]
  have hrank := le_rankOfRatio hunits
  rw [overflow, show 2047 = 93 * k + 1 + m - 52 + 1 by omega]
  exact hrank

/-- Small quotients are rounded to zero. -/
theorem rankOfRatio_eq_zero {e : Nat} (h : n.log2 + 1101 < 3 * e) :
    rankOfRatio n (10 ^ e) = 0 := by
  obtain ⟨m, hscale, hm⟩ := exists_scale_eq
  have hsmall : 2 * (n * scale) < 10 ^ e := by
    calc 2 * (n * scale) < 2 * (2 ^ (n.log2 + 1) * scale) := by
          have hlog := Nat.lt_log2_self (n := n)
          have hmul := (Nat.mul_lt_mul_right scale_pos).mpr hlog
          omega
      _ = 2 ^ (n.log2 + 1 + m + 1) := by
          rw [hscale, Nat.pow_eq, ← Nat.pow_add, Nat.mul_comm, ← Nat.pow_succ]
      _ ≤ 2 ^ (3 * e) := Nat.pow_le_pow_right (by decide) (by omega)
      _ = 8 ^ e := by rw [Nat.pow_mul]
      _ ≤ 10 ^ e := Nat.pow_le_pow_left (by decide) e
  have hdiv : n * scale / 10 ^ e = 0 := Nat.div_eq_of_lt (by omega)
  have hmod : n * scale % 10 ^ e = n * scale := Nat.mod_eq_of_lt (by omega)
  have hlog : Nat.log2 0 = 0 := by decide
  simp [rankOfRatio, roundHalfEven, hdiv, hmod, hlog, hsmall]

/-- The exponents that are settled at once come out as all others. -/
theorem ofDecimal_eq (negative : Bool) {digits : Nat} (hdigits : digits ≠ 0) (e : Int) :
    ofDecimal negative digits e =
      ofRatio negative (digits * 10 ^ e.toNat) (10 ^ (-e).toNat) := by
  unfold ofDecimal
  rw [if_neg hdigits]
  cases e with
  | ofNat e =>
      have hnone : (-Int.ofNat e).toNat = 0 := by simp
      have hsome : (Int.ofNat e).toNat = e := rfl
      rw [hnone, hsome, Nat.pow_zero]
      dsimp only
      split
      · rename_i he
        have hover := overflow_le_rankOfRatio hdigits he
        rw [ofRatio, if_neg (by omega)]
      · rfl
  | negSucc e =>
      have hsome : (-Int.negSucc e).toNat = e + 1 := rfl
      have hnone : (Int.negSucc e).toNat = 0 := rfl
      rw [hnone, hsome, Nat.pow_zero, Nat.mul_one]
      dsimp only
      split
      · rename_i he
        rw [ofRatio, rankOfRatio_eq_zero he, if_pos (by decide)]
      · rfl

/-- Zeros behind the digits of a decimal count as a power of ten. -/
theorem ofDecimal_scale (negative : Bool) (digits k : Nat) (e : Int) :
    ofDecimal negative (digits * 10 ^ k) e = ofDecimal negative digits (e + k) := by
  by_cases hdigits : digits = 0
  · simp [ofDecimal, hdigits]
  · have hpower : ∀ m : Nat, 0 < 10 ^ m := fun m => Nat.pow_pos (by decide)
    have hne : digits * 10 ^ k ≠ 0 := Nat.mul_ne_zero hdigits (hpower k).ne'
    rw [ofDecimal_eq negative hne, ofDecimal_eq negative hdigits]
    unfold ofRatio
    rw [rankOfRatio_congr (hpower _) (hpower _)]
    rw [Nat.mul_assoc, Nat.mul_assoc, Nat.mul_assoc, ← Nat.pow_add, ← Nat.pow_add, ← Nat.pow_add]
    congr 2
    omega

theorem ofRatio_eq_finite {negative negative' : Bool}
    (h : ofRatio negative n d = .finite negative' r) : negative' = negative ∧ r < overflow := by
  unfold ofRatio at h
  dsimp only at h
  split at h
  · rename_i hover
    obtain ⟨rfl, rfl⟩ := Binary64.finite.inj h
    exact ⟨rfl, hover⟩
  · contradiction

/-- A finite number that a decimal is nearest to has its sign and a rank of a finite number. -/
theorem ofDecimal_eq_finite {negative negative' : Bool} {digits : Nat} {e : Int}
    (h : ofDecimal negative digits e = .finite negative' r) :
    negative' = negative ∧ r < overflow := by
  by_cases hdigits : digits = 0
  · unfold ofDecimal at h
    rw [if_pos hdigits] at h
    obtain ⟨rfl, rfl⟩ := Binary64.finite.inj h
    exact ⟨rfl, by decide⟩
  · rw [ofDecimal_eq negative hdigits] at h
    exact ofRatio_eq_finite h

/-! ## Shortest decimals -/

/-- The number nearest to a decimal. -/
def nearest (d : Decimal) : Binary64 :=
  ofDecimal false d.digits d.exponent

theorem nearest_strip (fuel : Nat) (d : Decimal) : nearest (d.strip fuel) = nearest d := by
  induction fuel generalizing d with
  | zero => rfl
  | succ fuel ih =>
      rw [Decimal.strip]
      split
      · rename_i h
        have hscale := ofDecimal_scale false (d.digits / 10) 1 d.exponent
        rw [show d.digits / 10 * 10 ^ 1 = d.digits by omega] at hscale
        rw [ih]
        exact hscale.symm
      · rfl

/-- Only a neighbour that fits is chosen. -/
theorem choose_fits {rule : TieRule} {low part whole digits : Nat} (fits : Nat → Bool)
    (h : rule.choose low part whole (fits low) (fits (low + 1)) = some digits) :
    fits digits = true := by
  unfold TieRule.choose at h
  split at h
  · rename_i hboth
    obtain ⟨hlow, hhigh⟩ := Bool.and_eq_true_iff.mp hboth
    have heven : fits (low + low % 2) = true := by
      rcases Nat.mod_two_eq_zero_or_one low with hmod | hmod
      · rwa [hmod]
      · rwa [hmod]
    split at h
    · exact Option.some.inj h ▸ hlow
    · split at h
      · exact Option.some.inj h ▸ hhigh
      · cases rule with
        | upward => exact Option.some.inj h ▸ hhigh
        | even => exact Option.some.inj h ▸ heven
  · split at h
    · rename_i hlow
      exact Option.some.inj h ▸ hlow
    · split at h
      · rename_i hhigh
        exact Option.some.inj h ▸ hhigh
      · contradiction

theorem nearest_onGrid {rule : TieRule} {place : Int} {d : Decimal}
    (h : onGrid rule r place = some d) : nearest d = .finite false r := by
  simp only [onGrid, Option.map_eq_some_iff] at h
  obtain ⟨digits, hchoose, rfl⟩ := h
  exact of_decide_eq_true
    (choose_fits (fun n => decide (ofDecimal false n place = .finite false r)) hchoose)

/-- A rank is made up of the blocks below it and of steps in its own block. In all blocks but the
first two there are as many steps below its own as a block has. -/
theorem exists_steps (r : Nat) : ∃ steps, r = shift r * block + steps ∧ steps < 2 * block ∧
    (shift r = 0 ∨ block ≤ steps) := by
  have hdiv := Nat.div_add_mod r block
  have hpos : 0 < block := by decide
  have hmod := Nat.mod_lt r hpos
  unfold shift
  cases hq : r / block with
  | zero =>
      rw [hq, Nat.mul_zero] at hdiv
      exact ⟨r, by simp, by omega, .inl rfl⟩
  | succ q =>
      rw [hq, Nat.mul_succ, Nat.mul_comm] at hdiv
      exact ⟨block + r % block, by rw [Nat.add_sub_cancel]; omega, by omega, .inr (by omega)⟩

/-- The logarithm of a magnitude says by how much its steps exceed the least one. -/
theorem log2_magnitude {steps : Nat} (hr : r ≠ 0) (hsteps : r = shift r * block + steps)
    (hlt : steps < 2 * block) (hge : shift r = 0 ∨ block ≤ steps) :
    magnitude r = steps * 2 ^ shift r ∧ magnitude r ≠ 0 ∧
      (magnitude r).log2 - 52 = shift r := by
  have hmagnitude : magnitude r = steps * 2 ^ shift r := by
    rw [magnitude, Nat.pow_eq]
    congr 1
    omega
  have hblock : block = 2 ^ 52 := Nat.pow_eq
  have hne : steps ≠ 0 := by
    rintro rfl
    rcases hge with hzero | hle
    · exact hr (by simpa [hzero] using hsteps)
    · exact absurd hle (by decide)
  have hpos := Nat.two_pow_pos (shift r)
  have hmul : steps * 2 ^ shift r ≠ 0 := Nat.mul_ne_zero hne hpos.ne'
  have hupper : (steps * 2 ^ shift r).log2 < 53 + shift r := by
    rw [Nat.log2_lt hmul, Nat.pow_add, Nat.mul_lt_mul_right hpos]
    omega
  rw [hmagnitude]
  refine ⟨rfl, hmul, ?_⟩
  rcases hge with hzero | hle
  · omega
  · have hlower : 52 + shift r ≤ (steps * 2 ^ shift r).log2 := by
      rw [Nat.le_log2 hmul, Nat.pow_add]
      exact Nat.mul_le_mul_right _ (hblock ▸ hle)
    omega

/-- A magnitude has its rank. -/
theorem rankOfRatio_magnitude (hr : r ≠ 0) (hd : 0 < d) (hn : n * scale = magnitude r * d) :
    rankOfRatio n d = r := by
  obtain ⟨steps, hsteps, hlt, hge⟩ := exists_steps r
  obtain ⟨hmagnitude, -, hlog⟩ := log2_magnitude hr hsteps hlt hge
  have hround : roundHalfEven (magnitude r * d) (d * Nat.pow 2 (shift r)) = steps := by
    rw [hmagnitude, Nat.pow_eq, Nat.mul_assoc, Nat.mul_comm _ d]
    exact roundHalfEven_exact _ (Nat.mul_pos hd (Nat.two_pow_pos _))
  simp only [rankOfRatio, hn, Nat.mul_div_cancel _ hd, hlog, hround]
  exact hsteps.symm

theorem nearest_exactDecimal (hr : r ≠ 0) (hover : r < overflow) :
    nearest (exactDecimal r) = .finite false r := by
  obtain ⟨m, hdecimal, hscale⟩ : ∃ m : Nat,
      exactDecimal r = ⟨magnitude r * Nat.pow 5 m, -m⟩ ∧ scale = Nat.pow 2 m := by
    unfold exactDecimal scale
    exact ⟨_, rfl, rfl⟩
  obtain ⟨steps, hsteps, hlt, hge⟩ := exists_steps r
  obtain ⟨-, hne, -⟩ := log2_magnitude hr hsteps hlt hge
  have hdigits : magnitude r * Nat.pow 5 m ≠ 0 := Nat.mul_ne_zero hne (Nat.pow_pos (by decide)).ne'
  have hrank : rankOfRatio (magnitude r * Nat.pow 5 m) (10 ^ m) = r := by
    refine rankOfRatio_magnitude hr (Nat.pow_pos (by decide)) ?_
    rw [hscale, Nat.pow_eq, Nat.pow_eq, Nat.mul_assoc, ← Nat.mul_pow]
  have hexponent : (-(m : Int)).toNat = 0 ∧ (- -(m : Int)).toNat = m := by omega
  rw [nearest, hdecimal, ofDecimal_eq false hdigits, hexponent.1, hexponent.2, Nat.pow_zero,
    Nat.mul_one, ofRatio, hrank, if_pos hover]

/-- The shortest decimal of a rank is nearest to the number of that rank. -/
theorem nearest_shortest (rule : TieRule) (hover : r < overflow) :
    nearest (shortest rule r) = .finite false r := by
  unfold shortest
  split
  · rename_i hr
    rw [hr]
    rfl
  · rename_i hr
    dsimp only
    split
    · rename_i d hd
      obtain ⟨n, -, hgrid⟩ := List.exists_of_findSome?_eq_some hd
      rw [nearest_strip, nearest_onGrid hgrid]
    · rw [nearest_strip, nearest_exactDecimal hr hover]

end Binary64

/-! ## Reading digits -/

namespace Numeral

theorem digitsValue_eq (cs : List Char) : digitsValue cs = Nat.ofDigitChars 10 cs 0 := by
  rw [digitsValue, Nat.ofDigitChars_eq_foldl]

theorem digitsValue_naturalText (n : Nat) : digitsValue (naturalText n) = n := by
  rw [digitsValue_eq, naturalText, Nat.ofDigitChars_ten_toDigits]

/-- Digits, a point and more digits are read as one number with so many places. -/
theorem decimal?_point {whole fraction : List Char} (hwhole : ∀ c ∈ whole, c.isDigit = true)
    (hfraction : ∀ c ∈ fraction, c.isDigit = true) (hne : whole ≠ []) :
    decimal? (whole ++ '.' :: fraction) =
      some (digitsValue (whole ++ fraction), -(fraction.length : Int)) := by
  have hpoint : Char.isDigit '.' = false := by decide
  have htake : (whole ++ '.' :: fraction).takeWhile Char.isDigit = whole := by
    simp [List.takeWhile_append_of_pos hwhole, hpoint]
  have hdrop : (whole ++ '.' :: fraction).dropWhile Char.isDigit = '.' :: fraction := by
    simp [List.dropWhile_append_of_pos hwhole, hpoint]
  have htail : fraction.takeWhile Char.isDigit = fraction ∧
      fraction.dropWhile Char.isDigit = [] := by
    rw [List.takeWhile_eq_self_iff, List.dropWhile_eq_nil_iff]
    exact ⟨hfraction, hfraction⟩
  simp [decimal?, htake, hdrop, htail, hne, exponent?]

theorem decimal?_digits {whole : List Char} (hwhole : ∀ c ∈ whole, c.isDigit = true)
    (hne : whole ≠ []) : decimal? whole = some (digitsValue whole, 0) := by
  have htake : whole.takeWhile Char.isDigit = whole := List.takeWhile_eq_self_iff.mpr hwhole
  have hdrop : whole.dropWhile Char.isDigit = [] := List.dropWhile_eq_nil_iff.mpr hwhole
  simp [decimal?, htake, hdrop, hne, exponent?]

theorem splitSign_of_isDigit {c : Char} (cs : List Char) (h : c.isDigit = true) :
    splitSign (c :: cs) = (false, c :: cs) := by
  have hplus : Char.isDigit '+' = false := by decide
  have hminus : Char.isDigit '-' = false := by decide
  unfold splitSign
  split
  · simp_all
  · simp_all
  · rfl

end Numeral

theorem isDigit_of_mem_naturalText {n : Nat} {c : Char} (h : c ∈ naturalText n) :
    c.isDigit = true :=
  Nat.isDigit_of_mem_toDigits (by decide) (by decide) h

theorem isDigit_of_mem_zeros {n : Nat} {c : Char} (h : c ∈ List.replicate n '0') :
    c.isDigit = true := by
  rw [List.eq_of_mem_replicate h]
  decide

namespace Decimal

/-- The places of a decimal are digits and more digits, perhaps with a point between them, that
have its value. -/
theorem positional_cases (d : Decimal) :
    (∃ whole, d.positional = whole ∧ whole ≠ [] ∧ (∀ c ∈ whole, c.isDigit = true) ∧
      Binary64.ofDecimal false (Numeral.digitsValue whole) 0 = Binary64.nearest d) ∨
    ∃ whole fraction, d.positional = whole ++ '.' :: fraction ∧ whole ≠ [] ∧
      (∀ c ∈ whole, c.isDigit = true) ∧ (∀ c ∈ fraction, c.isDigit = true) ∧
      Binary64.ofDecimal false (Numeral.digitsValue (whole ++ fraction))
        (-(fraction.length : Int)) = Binary64.nearest d := by
  obtain ⟨digits, exponent⟩ := d
  have hvalue := Numeral.digitsValue_naturalText digits
  have hne : naturalText digits ≠ [] := Nat.toDigits_ne_nil
  have hdigits : ∀ c ∈ naturalText digits, c.isDigit = true := fun _ =>
    isDigit_of_mem_naturalText
  cases exponent with
  | ofNat e =>
      have htext : positional ⟨digits, .ofNat e⟩ = naturalText digits ++ List.replicate e '0' := rfl
      rw [htext]
      refine .inl ⟨_, rfl, by simp [hne], ?_, ?_⟩
      · intro c hc
        rcases List.mem_append.mp hc with hc | hc
        · exact hdigits c hc
        · exact isDigit_of_mem_zeros hc
      · have hscale := Binary64.ofDecimal_scale false digits e 0
        rw [Numeral.digitsValue_eq, Nat.ofDigitChars_append, ← Numeral.digitsValue_eq, hvalue,
          Nat.ofDigitChars_replicate_zero, Nat.mul_comm, hscale, Int.zero_add]
        rfl
  | negSucc e =>
      have hplaced : positional ⟨digits, .negSucc e⟩ =
          if e + 1 < (naturalText digits).length then
            (naturalText digits).take ((naturalText digits).length - (e + 1)) ++
              '.' :: (naturalText digits).drop ((naturalText digits).length - (e + 1))
          else '0' :: '.' ::
            (List.replicate (e + 1 - (naturalText digits).length) '0' ++ naturalText digits) := rfl
      rw [hplaced]
      generalize naturalText digits = text at hvalue hne hdigits
      right
      split
      · rename_i hplaces
        refine ⟨_, _, rfl, ?_, fun c hc => hdigits c (List.mem_of_mem_take hc),
          fun c hc => hdigits c (List.mem_of_mem_drop hc), ?_⟩
        · rw [ne_eq, List.take_eq_nil_iff, not_or]
          exact ⟨by omega, hne⟩
        · have hplace : -((text.drop (text.length - (e + 1))).length : Int) = .negSucc e := by
            rw [List.length_drop]
            omega
          rw [List.take_append_drop, hvalue, hplace]
          rfl
      · rename_i hplaces
        refine ⟨['0'], _, rfl, by simp, by simp, ?_, ?_⟩
        · intro c hc
          rcases List.mem_append.mp hc with hc | hc
          · exact isDigit_of_mem_zeros hc
          · exact hdigits c hc
        · have hplace : -((List.replicate (e + 1 - text.length) '0' ++ text).length : Int) =
              .negSucc e := by
            rw [List.length_append, List.length_replicate]
            omega
          have hzeros : Nat.ofDigitChars 10 (List.replicate (e + 1 - text.length + 1) '0') 0 =
              10 ^ (e + 1 - text.length + 1) * 0 := Nat.ofDigitChars_replicate_zero
          have hdrop : Numeral.digitsValue
              (['0'] ++ (List.replicate (e + 1 - text.length) '0' ++ text)) = digits := by
            rw [← List.append_assoc, Numeral.digitsValue_eq, Nat.ofDigitChars_append,
              List.singleton_append, ← List.replicate_succ, hzeros, Nat.mul_zero,
              ← Numeral.digitsValue_eq, hvalue]
          rw [hdrop, hplace]
          rfl

/-- The places of a decimal are read as a decimal of the same value. -/
theorem decimal?_positional (d : Decimal) : ∃ digits exponent,
    Numeral.decimal? d.positional = some (digits, exponent) ∧
      Binary64.ofDecimal false digits exponent = Binary64.nearest d := by
  rcases d.positional_cases with ⟨whole, h, hne, hwhole, hvalue⟩ |
    ⟨whole, fraction, h, hne, hwhole, hfraction, hvalue⟩
  · rw [h]
    exact ⟨_, _, Numeral.decimal?_digits hwhole hne, hvalue⟩
  · rw [h]
    exact ⟨_, _, Numeral.decimal?_point hwhole hfraction hne, hvalue⟩

/-- The places of a decimal begin with a digit, and there is at most a point among the others. -/
theorem positional_eq_cons (d : Decimal) : ∃ c cs, d.positional = c :: cs ∧ c.isDigit = true ∧
    ∀ x ∈ cs, x.isDigit = true ∨ x = '.' := by
  rcases d.positional_cases with ⟨whole, h, hne, hwhole, -⟩ |
    ⟨whole, fraction, h, hne, hwhole, hfraction, -⟩
  · obtain ⟨c, cs, rfl⟩ := List.exists_cons_of_ne_nil hne
    obtain ⟨hc, hcs⟩ := List.forall_mem_cons.mp hwhole
    exact ⟨c, cs, h, hc, fun x hx => .inl (hcs x hx)⟩
  · obtain ⟨c, cs, rfl⟩ := List.exists_cons_of_ne_nil hne
    obtain ⟨hc, hcs⟩ := List.forall_mem_cons.mp hwhole
    refine ⟨c, cs ++ '.' :: fraction, h, hc, fun x hx => ?_⟩
    rcases List.mem_append.mp hx with hx | hx
    · exact .inl (hcs x hx)
    · rcases List.mem_cons.mp hx with rfl | hx
      · exact .inr rfl
      · exact .inl (hfraction x hx)

end Decimal

/-- A finite number that is read from a digit on is not negative. -/
theorem Numeral.read_eq_finite {c : Char} {cs : List Char} {negative : Bool} {r : Nat}
    (hc : c.isDigit = true) (h : read (String.ofList (c :: cs)) = some (.finite negative r)) :
    negative = false ∧ r < Binary64.overflow := by
  rw [read, String.toList_ofList, splitSign_of_isDigit cs hc] at h
  dsimp only at h
  split at h
  · exact Binary64.ofDecimal_eq_finite (Option.some.inj h)
  · unfold named? at h
    dsimp only at h
    split at h
    · simp at h
    · split at h <;> simp at h

/-- The text of a finite number that is not negative is read as the number. -/
theorem Numeral.read_text {r : Nat} (h : r < Binary64.overflow) :
    read (Binary64.finite false r).text = some (.finite false r) := by
  obtain ⟨c, cs, htext, hc, -⟩ := (Binary64.shortest .upward r).positional_eq_cons
  obtain ⟨digits, exponent, hread, hvalue⟩ := (Binary64.shortest .upward r).decimal?_positional
  rw [htext] at hread
  have hlist : (Binary64.finite false r).text.toList = c :: cs := by
    simp [Binary64.text, signed, htext]
  rw [read, hlist, splitSign_of_isDigit cs hc]
  dsimp only
  rw [hread]
  dsimp only
  rw [hvalue, Binary64.nearest_shortest .upward h]

end CSurvey
