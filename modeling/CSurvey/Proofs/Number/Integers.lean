import CSurvey.Proofs.Number.ReadBack

/-! # Integers among the numbers

An integer below two to the 53rd is a number itself, so that its digits are read as the integer and
are the text of what is read. -/

namespace CSurvey

variable {n k r : Nat}

namespace Decimal

theorem digitCount_le {fuel digits : Nat} (h : n < 10 ^ digits) :
    digitCount fuel n ≤ digits := by
  induction fuel generalizing n digits with
  | zero => exact Nat.zero_le _
  | succ fuel ih =>
      rw [digitCount]
      split
      · exact Nat.zero_le _
      · rename_i hn
        cases digits with
        | zero => omega
        | succ digits =>
            have hlow : n / 10 < 10 ^ digits := by omega
            exact Nat.succ_le_succ (ih hlow)

/-- Without its last zeros, a whole number keeps its value and is whole. -/
theorem strip_natCast (fuel digits e : Nat) : ∃ digits' e' : Nat,
    strip fuel ⟨digits, e⟩ = ⟨digits', e'⟩ ∧ digits' * 10 ^ e' = digits * 10 ^ e := by
  induction fuel generalizing digits e with
  | zero => exact ⟨digits, e, rfl, rfl⟩
  | succ fuel ih =>
      rw [strip]
      dsimp only
      split
      · rename_i h
        obtain ⟨digits', e', hstrip, hvalue⟩ := ih (digits / 10) (e + 1)
        refine ⟨digits', e', hstrip, hvalue.trans ?_⟩
        rw [Nat.pow_succ', ← Nat.mul_assoc, Nat.div_mul_cancel (Nat.dvd_of_mod_eq_zero h.2)]
      · exact ⟨digits, e, rfl, rfl⟩

end Decimal

namespace Binary64

/-- The number nearest to a natural number. Below two to the 53rd it is the number itself. -/
def ofNat (n : Nat) : Binary64 :=
  ofRatio false n 1

/-! ## Ranks -/

/-- An integer of at most 53 bits is the magnitude of a rank in the blocks for such integers. -/
theorem exists_magnitude_eq (hn : n ≠ 0) (h : n < 2 ^ 53) :
    ∃ r, magnitude r = n * scale ∧ r < 1076 * block := by
  obtain ⟨m, hscale, hm⟩ := exists_scale_eq
  have hblock : block = 2 ^ 52 := Nat.pow_eq
  have hlog : n.log2 < 53 := (Nat.log2_lt hn).mpr h
  have hlow := Nat.log2_self_le hn
  have hhigh := Nat.lt_log2_self (n := n)
  generalize n.log2 = l at hlog hlow hhigh
  -- With `52 - l` zeros behind them, the bits of the integer fill the steps of a block.
  obtain ⟨zeros, hzeros⟩ : ∃ zeros, l + zeros = 52 := ⟨52 - l, by omega⟩
  obtain ⟨up, hup⟩ : ∃ up, zeros + up = m := ⟨m - zeros, by omega⟩
  have hge : block ≤ n * 2 ^ zeros := by
    calc block = 2 ^ l * 2 ^ zeros := by rw [hblock, ← Nat.pow_add, hzeros]
      _ ≤ n * 2 ^ zeros := Nat.mul_le_mul_right _ hlow
  have hlt : n * 2 ^ zeros < 2 * block := by
    calc n * 2 ^ zeros < 2 ^ (l + 1) * 2 ^ zeros :=
          (Nat.mul_lt_mul_right (Nat.two_pow_pos _)).mpr hhigh
      _ = 2 * block := by rw [hblock, ← Nat.pow_add, Nat.add_right_comm, hzeros, Nat.pow_succ']
  generalize hsteps : n * 2 ^ zeros = steps at hge hlt
  have hshift : shift (up * block + steps) = up := by
    have hdiv : steps / block = 1 := Nat.div_eq_of_lt_le (by omega) (by omega)
    rw [shift, Nat.add_comm, Nat.add_mul_div_right _ _ (by decide), hdiv, Nat.add_sub_cancel_left]
  refine ⟨up * block + steps, ?_, ?_⟩
  · rw [magnitude, hshift, Nat.add_sub_cancel_left, Nat.pow_eq, hscale, Nat.pow_eq, ← hsteps,
      Nat.mul_assoc, ← Nat.pow_add, hup]
  · have hle : up * block ≤ 1074 * block := Nat.mul_le_mul_right _ (by omega)
    omega

theorem rankOfRatio_zero : rankOfRatio 0 1 = 0 := by
  have hlog : Nat.log2 0 = 0 := by decide
  simp [rankOfRatio, roundHalfEven, hlog]

theorem magnitude_zero : magnitude 0 = 0 := by
  decide

theorem magnitude_rankOfRatio (h : n < 2 ^ 53) :
    magnitude (rankOfRatio n 1) = n * scale ∧ rankOfRatio n 1 < 1076 * block := by
  by_cases hn : n = 0
  · have hfew : 0 < 1076 * block := by decide
    rw [hn, rankOfRatio_zero, magnitude_zero, Nat.zero_mul]
    exact ⟨rfl, hfew⟩
  · obtain ⟨r, hr, hlt⟩ := exists_magnitude_eq hn h
    have hne : r ≠ 0 := by
      rintro rfl
      exact Nat.mul_ne_zero hn scale_pos.ne' (hr.symm.trans magnitude_zero)
    have hrank : rankOfRatio n 1 = r :=
      rankOfRatio_magnitude hne Nat.one_pos (hr.symm.trans (Nat.mul_one _).symm)
    rw [hrank]
    exact ⟨hr, hlt⟩

theorem ofNat_eq (h : n < 2 ^ 53) : ofNat n = .finite false (rankOfRatio n 1) := by
  have hlt : 1076 * block < overflow := by decide
  exact if_pos ((magnitude_rankOfRatio h).2.trans hlt)

/-- Only the integer itself is rounded to it. -/
theorem eq_of_ofNat_eq (h : n < 2 ^ 53) (hk : ofNat k = ofNat n) : k = n := by
  obtain ⟨hmagnitude, hlow⟩ := magnitude_rankOfRatio h
  have hrank : rankOfRatio k 1 = rankOfRatio n 1 := by
    rw [ofNat_eq h, ofNat, ofRatio] at hk
    split at hk
    · exact (Binary64.finite.inj hk).2
    · simp at hk
  have hlt : k < 2 ^ 53 := by
    by_contra hge
    obtain ⟨m, hscale, hm⟩ := exists_scale_eq
    have hunits : 2 ^ (52 + (m + 1)) ≤ k * scale := by
      rw [hscale, Nat.pow_eq, ← Nat.add_assoc, Nat.add_right_comm, Nat.pow_add]
      exact Nat.mul_le_mul_right _ (Nat.not_lt.mp hge)
    have hhigh := le_rankOfRatio hunits
    rw [hrank, hm] at hhigh
    exact Nat.not_le_of_lt hlow hhigh
  refine Nat.eq_of_mul_eq_mul_right scale_pos ?_
  rw [← hmagnitude, ← (magnitude_rankOfRatio hlt).1, hrank]

/-- A decimal without places behind the point is rounded as an integer. -/
theorem ofDecimal_natCast (digits e : Nat) :
    ofDecimal false digits e = ofNat (digits * 10 ^ e) := by
  by_cases hdigits : digits = 0
  · rw [hdigits, Nat.zero_mul, ofNat_eq (by decide), rankOfRatio_zero]
    exact if_pos rfl
  · rw [ofDecimal_eq false hdigits, Int.toNat_natCast, Int.toNat_neg_natCast, Nat.pow_zero, ofNat]

/-! ## Shortest decimals -/

variable {rule : TieRule}

theorem exponent_onGrid {place : Int} {d : Decimal} (h : onGrid rule r place = some d) :
    d.exponent = place := by
  simp only [onGrid, Option.map_eq_some_iff] at h
  obtain ⟨digits, -, rfl⟩ := h
  rfl

theorem shortest_of_hit {d : Decimal} (hr : r ≠ 0)
    (h : (List.range 17).findSome? (fun i => onGrid rule r (decimalTop r - (i + 1 : Nat))) =
      some d) : shortest rule r = d.strip 20 := by
  unfold shortest
  rw [if_neg hr]
  dsimp only
  rw [h]

section

variable (hn : n ≠ 0) (h : n < 2 ^ 53)
include h

/-- On the grid of the integers, an integer is hit. -/
theorem onGrid_zero : onGrid rule (rankOfRatio n 1) 0 = some ⟨n, 0⟩ := by
  have hnum : magnitude (rankOfRatio n 1) * Nat.pow 10 0 = n * (scale * Nat.pow 10 0) := by
    rw [(magnitude_rankOfRatio h).1, Nat.mul_assoc]
  have hpos : 0 < scale * Nat.pow 10 0 := Nat.mul_pos scale_pos Nat.one_pos
  have hfits : ofDecimal false n 0 = .finite false (rankOfRatio n 1) := by
    rw [← ofNat_eq h]
    exact (ofDecimal_natCast n 0).trans (by rw [Nat.pow_zero, Nat.mul_one])
  simp only [onGrid, Int.neg_zero, Int.toNat_zero, hnum, Nat.mul_div_cancel _ hpos,
    Nat.mul_mod_left, hfits, decide_true, TieRule.choose]
  cases decide (ofDecimal false (n + 1) 0 = .finite false (rankOfRatio n 1)) with
  | false => rfl
  | true => simp [scale_pos.ne']

/-- What is hit on the grid of the integers or a coarser one is the integer. -/
theorem onGrid_natCast {e : Nat} {d : Decimal}
    (hd : onGrid rule (rankOfRatio n 1) e = some d) :
    ∃ digits : Nat, d = ⟨digits, e⟩ ∧ digits * 10 ^ e = n := by
  obtain ⟨digits, exponent⟩ := d
  obtain rfl : exponent = e := exponent_onGrid hd
  have hnearest := nearest_onGrid hd
  rw [nearest, ofDecimal_natCast, ← ofNat_eq h] at hnearest
  exact ⟨digits, rfl, eq_of_ofNat_eq h hnearest⟩

include hn

theorem decimalTop_rankOfRatio : ∃ count : Nat, decimalTop (rankOfRatio n 1) = (count + 1 : Nat) ∧
    count < 17 := by
  have hle : scale ≤ n * scale := Nat.le_mul_of_pos_left _ (Nat.pos_of_ne_zero hn)
  have htop : decimalTop (rankOfRatio n 1) = (Decimal.digitCount 310 n : Nat) := by
    simp only [decimalTop, (magnitude_rankOfRatio h).1, if_pos hle, Nat.mul_div_cancel _ scale_pos]
  have hcount : Decimal.digitCount 310 n = Decimal.digitCount 309 (n / 10) + 1 := by
    rw [Decimal.digitCount, if_neg hn]
  have hsmall : n / 10 < 10 ^ 16 := by omega
  refine ⟨Decimal.digitCount 309 (n / 10), by rw [htop, hcount], ?_⟩
  exact Nat.lt_succ_of_le (Decimal.digitCount_le hsmall)

variable (rule) in
/-- The shortest decimal of an integer is whole and has its value. -/
theorem shortest_rankOfRatio : ∃ digits e : Nat,
    shortest rule (rankOfRatio n 1) = ⟨digits, e⟩ ∧ digits * 10 ^ e = n := by
  have hne : rankOfRatio n 1 ≠ 0 := by
    intro hzero
    have hmagnitude := (magnitude_rankOfRatio h).1
    rw [hzero, magnitude_zero] at hmagnitude
    exact Nat.mul_ne_zero hn scale_pos.ne' hmagnitude.symm
  obtain ⟨count, htop, hcount⟩ := decimalTop_rankOfRatio hn h
  -- The first grids are no finer than the integers, and the last of them is theirs.
  let grid (i : Nat) := onGrid rule (rankOfRatio n 1) ((count + 1 : Nat) - (i + 1 : Nat))
  have hplace : ∀ i ≤ count, grid i = onGrid rule (rankOfRatio n 1) (count - i : Nat) := by
    intro i hi
    refine congrArg (onGrid rule (rankOfRatio n 1)) ?_
    omega
  obtain ⟨d, hd⟩ : ∃ d, (List.range (count + 1)).findSome? grid = some d := by
    refine Option.isSome_iff_exists.mp (List.findSome?_isSome_iff.mpr ⟨count, by simp, ?_⟩)
    rw [hplace count (Nat.le_refl _), Nat.sub_self]
    exact Option.isSome_of_eq_some (onGrid_zero h)
  obtain ⟨i, hi, hgrid⟩ := List.exists_of_findSome?_eq_some hd
  rw [hplace i (Nat.le_of_lt_succ (List.mem_range.mp hi))] at hgrid
  obtain ⟨digits, rfl, hvalue⟩ := onGrid_natCast h hgrid
  obtain ⟨digits', e', hstrip, hvalue'⟩ := Decimal.strip_natCast 20 digits (count - i)
  have hfirst : (List.range 17).findSome? grid = some ⟨digits, (count - i : Nat)⟩ := by
    rw [show 17 = count + 1 + (16 - count) by omega, List.range_add, List.findSome?_append, hd]
    rfl
  refine ⟨digits', e', ?_, hvalue'.trans hvalue⟩
  rw [← hstrip]
  exact shortest_of_hit hne (htop ▸ hfirst)

end

end Binary64

/-! ## Texts -/

theorem naturalText_append_zeros (hn : n ≠ 0) (e : Nat) :
    naturalText n ++ List.replicate e '0' = naturalText (n * 10 ^ e) := by
  induction e with
  | zero => simp
  | succ e ih =>
      have hpos : 0 < n * 10 ^ e := Nat.mul_pos (Nat.pos_of_ne_zero hn) (Nat.pow_pos (by decide))
      have hzero : naturalText 0 = ['0'] := by decide
      calc naturalText n ++ List.replicate (e + 1) '0'
          = naturalText (n * 10 ^ e) ++ naturalText 0 := by
            rw [List.replicate_succ', ← List.append_assoc, ih, hzero]
        _ = naturalText (10 * (n * 10 ^ e) + 0) :=
            Nat.toDigits_append_toDigits (by decide) hpos (by decide)
        _ = naturalText (n * 10 ^ (e + 1)) := by
            rw [Nat.add_zero, Nat.mul_left_comm, Nat.pow_succ']

/-- The text of an integer are its decimal digits. -/
theorem Binary64.text_ofNat (h : n < 2 ^ 53) :
    (ofNat n).text = String.ofList (naturalText n) := by
  have hplaces : (shortest .upward (rankOfRatio n 1)).positional = naturalText n := by
    by_cases hn : n = 0
    · rw [hn, rankOfRatio_zero]
      rfl
    · obtain ⟨digits, e, hshortest, rfl⟩ := shortest_rankOfRatio .upward hn h
      rw [hshortest]
      exact naturalText_append_zeros (Nat.ne_zero_of_mul_ne_zero_left hn) e
  rw [ofNat_eq h, text, hplaces]
  rfl

/-- The decimal digits of an integer are read as the number nearest to it. -/
theorem Numeral.read_naturalText (n : Nat) :
    read (String.ofList (naturalText n)) = some (.ofNat n) := by
  have hdigits : ∀ c ∈ naturalText n, c.isDigit = true := fun _ => isDigit_of_mem_naturalText
  have hne : naturalText n ≠ [] := Nat.toDigits_ne_nil
  have hread := decimal?_digits hdigits hne
  obtain ⟨c, cs, htext⟩ := List.exists_cons_of_ne_nil hne
  have hsign : splitSign (naturalText n) = (false, naturalText n) := by
    rw [htext]
    exact splitSign_of_isDigit cs (hdigits c (htext ▸ List.mem_cons_self ..))
  have hvalue : Binary64.ofDecimal false n 0 = .ofNat n :=
    (Binary64.ofDecimal_natCast n 0).trans (by rw [Nat.pow_zero, Nat.mul_one])
  rw [read, String.toList_ofList, hsign]
  dsimp only
  rw [hread, digitsValue_naturalText]
  simp only [hvalue]

end CSurvey
