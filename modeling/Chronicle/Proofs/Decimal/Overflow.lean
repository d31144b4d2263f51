import Chronicle.Proofs.Decimal.Shortest

/-!
# Numbers that there are no doubles for

A number is rounded to infinity when it is not less than the middle between the largest double and
the next power of two, which is `2 ^ 1024`.

* `twoTo_le_roundUnits_iff`: the numbers that are rounded up to a power of two or further;
* `ofDecimal_eq_infinite_iff`: the decimals that are read as infinite.
-/

namespace Chronicle.Decimal

/-! ## Rounding up to a power of two -/

section Rounding

variable {num den k : Nat}

/-- A quotient is rounded up to an even number from a half before it on. -/
theorem le_roundHalfEven_iff {q : Nat} (hd : 0 < den) (hq : q % 2 = 0) :
    q ≤ roundHalfEven num den ↔ 2 * (q * den) ≤ 2 * num + den := by
  obtain ⟨w, r, hmod, rfl, hround⟩ := exists_roundHalfEven num hd
  rw [hround]
  rcases Nat.lt_or_ge (w + 1) q with hfar | hnear
  · have hnext : (w + 2) * den ≤ q * den := Nat.mul_le_mul_right den hfar
    rw [Nat.add_mul] at hnext
    split
    · omega
    · split <;> omega
  · rcases Nat.lt_or_eq_of_le hnear with hbelow | rfl
    · have hbefore := Nat.mul_le_mul_right den (Nat.le_of_lt_succ hbelow)
      split
      · omega
      · split <;> omega
    · rw [Nat.add_mul]
      split
      · omega
      · split <;> omega

theorem two_pow_le_of_bitLength {n b : Nat} (h : bitLength n = b + 1) : 2 ^ b ≤ n := by
  rcases Nat.eq_zero_or_pos n with rfl | hpos
  · cases h
  · obtain ⟨j, hj, hlow, -⟩ := exists_bitLength hpos
    obtain rfl : j = b := by omega
    exact hlow

/-- Rounding does not lead below the power of two that a number is not below. -/
theorem two_pow_le_roundUnits {b : Nat} (h : bitLength (num / den) = b + 53) :
    2 ^ (b + 52) ≤ roundUnits num den := by
  have hgap : spacing (b + 53) = 2 ^ b := by rw [spacing, twoTo_eq, Nat.add_sub_cancel]
  have hwhole : 2 ^ 52 ≤ num / (den * 2 ^ b) := by
    rw [← Nat.div_div_eq_div_mul, Nat.le_div_iff_mul_le (Nat.two_pow_pos b), ← Nat.pow_add,
      Nat.add_comm]
    exact two_pow_le_of_bitLength h
  unfold roundUnits
  dsimp only
  rw [h, hgap, Nat.add_comm b, Nat.pow_add]
  exact Nat.mul_le_mul_right _ (hwhole.trans (le_roundHalfEven _ _))

/-- Rounding does not lead further than to the next double. -/
theorem roundUnits_le : roundUnits num den ≤ num / den + spacing (bitLength (num / den)) := by
  have hle := Nat.mul_le_mul_right (spacing (bitLength (num / den)))
    (roundHalfEven_le num (den * spacing (bitLength (num / den))))
  rw [← Nat.div_div_eq_div_mul, Nat.add_mul, Nat.one_mul] at hle
  exact hle.trans (Nat.add_le_add_right (Nat.div_mul_le_self _ _) _)

/-- Where the doubles below a power of two have the spacing `2 ^ (k + 1)`, a number is rounded to
the power of two or above from a half of the spacing before it on. -/
theorem twoTo_le_roundUnits_iff (hd : 0 < den) :
    twoTo (k + 54) ≤ roundUnits num den ↔ (2 ^ 54 - 1) * twoTo k * den ≤ num := by
  rw [← Nat.le_div_iff_mul_le hd, twoTo_eq, twoTo_eq]
  have hk := Nat.two_pow_pos k
  have hpower : 2 ^ (k + 54) = 2 ^ 54 * 2 ^ k := by rw [Nat.pow_add, Nat.mul_comm]
  rcases Nat.lt_trichotomy (bitLength (num / den)) (k + 54) with hlt | heq | hgt
  · -- too small to come near
    have hsmall := (lt_two_pow_bitLength (num / den)).trans_le
      (Nat.pow_le_pow_right (by decide) (Nat.le_of_lt_succ hlt))
    have hgap : spacing (bitLength (num / den)) ≤ 2 ^ k := by
      rw [spacing, twoTo_eq]
      exact Nat.pow_le_pow_right (by decide) (by omega)
    have hround : roundUnits num den ≤ num / den + spacing (bitLength (num / den)) := roundUnits_le
    have hhalf : 2 ^ (k + 53) = 2 ^ 53 * 2 ^ k := by rw [Nat.pow_add, Nat.mul_comm]
    change num / den < 2 ^ (k + 53) at hsmall
    omega
  · have hgap : spacing (bitLength (num / den)) = 2 ^ (k + 1) := by
      rw [heq, spacing, twoTo_eq]
      congr 1
    have hpower' : 2 ^ (k + 54) = 2 ^ 53 * 2 ^ (k + 1) := by
      rw [← Nat.pow_add, show 53 + (k + 1) = k + 54 by omega]
    have heven : 2 ^ 53 % 2 = 0 := by norm_num
    have hpos : 0 < den * 2 ^ (k + 1) := Nat.mul_pos hd (Nat.two_pow_pos _)
    have hround : roundUnits num den = roundHalfEven num (den * 2 ^ (k + 1)) * 2 ^ (k + 1) := by
      rw [roundUnits, hgap]
    have hscale : den * 2 ^ (k + 1) = 2 * (den * 2 ^ k) := by rw [Nat.pow_succ]; ring
    have hproduct : (2 ^ 54 - 1) * 2 ^ k * den = (2 ^ 54 - 1) * (den * 2 ^ k) := by ring
    rw [hround, hpower', Nat.mul_le_mul_right_iff (Nat.two_pow_pos _),
      le_roundHalfEven_iff hpos heven, hscale, Nat.le_div_iff_mul_le hd, hproduct]
    generalize den * 2 ^ k = unit
    omega
  · -- already above
    obtain ⟨b, hb⟩ := Nat.exists_eq_add_of_le' (show 53 ≤ bitLength (num / den) by omega)
    have hround := two_pow_le_roundUnits hb
    have hwhole := two_pow_le_of_bitLength hb
    have hle : 2 ^ (k + 54) ≤ 2 ^ (b + 52) := Nat.pow_le_pow_right (by decide) (by omega)
    omega

end Rounding

/-! ## Reading decimals -/

/-- From here on numbers are infinite: the middle between the largest double, `2 ^ 1024 - 2 ^ 971`,
and the next power of two. -/
def overflow : ℚ := twoTo 1024 - twoTo 970

theorem overflow_eq : overflow = ((2 ^ 54 - 1) * twoTo 970 : Nat) := by
  rw [overflow, show 1024 = 54 + 970 from rfl, twoTo_add, twoTo_eq 54]
  push_cast
  ring

theorem one_le_overflow : 1 ≤ overflow := by
  have hpower : 1 ≤ twoTo 970 := twoTo_pos 970
  have hscale : twoTo 970 ≤ (2 ^ 54 - 1) * twoTo 970 := Nat.le_mul_of_pos_left _ (by norm_num)
  rw [overflow_eq]
  exact Nat.one_le_cast.mpr (hpower.trans hscale)

theorem overflow_le_tenTo : overflow ≤ tenTo 400 := by
  rw [overflow_eq]
  exact Nat.cast_le.mpr (by decide +kernel)

section Reading

variable {negative : Bool} {num den digits : Nat} {exponent : Int}

/-- The quotients that are infinite as doubles. -/
theorem ofQuotient_eq_infinite_iff (hd : 0 < den) :
    Binary64.ofQuotient negative num den = .infinite negative ↔ overflow ≤ num / den := by
  have hlimit : Binary64.limit = twoTo (2044 + 54) := rfl
  have hone : (2 ^ 54 - 1) * twoTo 2044 * den = (2 ^ 54 - 1) * twoTo 970 * den * Binary64.one := by
    rw [Binary64.one, show 2044 = 970 + 1074 from rfl, twoTo_add]
    ring
  have hround : Binary64.ofQuotient negative num den = .infinite negative ↔
      Binary64.limit ≤ roundUnits (num * Binary64.one) den := by
    unfold Binary64.ofQuotient Binary64.ofUnits
    dsimp only
    rcases Nat.lt_or_ge (roundUnits (num * Binary64.one) den) Binary64.limit with hlt | hge
    · rw [if_pos hlt]
      exact iff_of_false (fun h => nomatch h) hlt.not_ge
    · rw [if_neg hge.not_gt]
      exact iff_of_true rfl hge
  rw [hround, hlimit, twoTo_le_roundUnits_iff hd, hone, Nat.mul_le_mul_right_iff one_pos,
    overflow_eq, le_div_iff₀ (Nat.cast_pos.mpr hd), ← Nat.cast_mul, Nat.cast_le]

/-- The decimals that are read as infinite. -/
theorem ofDecimal_eq_infinite_iff :
    Binary64.ofDecimal negative digits exponent = .infinite negative ↔
      overflow ≤ digits * 10 ^ exponent := by
  unfold Binary64.ofDecimal
  dsimp only
  split
  · next hzero =>
    rw [hzero, Nat.cast_zero, zero_mul]
    exact iff_of_false (fun h => nomatch h) ((zero_lt_one' ℚ).trans_le one_le_overflow).not_ge
  · next hdigits =>
    obtain ⟨hfirst, hnext⟩ := pow_le_value exponent hdigits
    split
    · next hbig =>
      have hpow : (tenTo 400 : ℚ) ≤ 10 ^ (exponent + (Nat.toDigits 10 digits).length - 1) := by
        rw [tenTo_cast, ← zpow_natCast]
        exact zpow_le_zpow_right₀ (by norm_num) (by omega)
      exact iff_of_true rfl (overflow_le_tenTo.trans (hpow.trans hfirst))
    · split
      · next hsmall =>
        have hpow : (10 : ℚ) ^ (exponent + (Nat.toDigits 10 digits).length) ≤ 10 ^ (0 : Int) :=
          zpow_le_zpow_right₀ (by norm_num) (by omega)
        rw [zpow_zero] at hpow
        exact iff_of_false (fun h => nomatch h) ((hnext.trans_le hpow).trans_le one_le_overflow).not_ge
      · split
        · next hexp =>
          rw [ofQuotient_eq_infinite_iff Nat.one_pos]
          push_cast
          rw [tenTo_toNat hexp, div_one]
        · next hexp =>
          rw [ofQuotient_eq_infinite_iff (tenTo_pos _), tenTo_toNat (by omega), zpow_neg,
            div_inv_eq_mul]

/-- A decimal is read as a finite double or as an infinite one, with its sign. -/
theorem ofDecimal_cases (negative : Bool) (digits : Nat) (exponent : Int) :
    (∃ units, Binary64.ofDecimal negative digits exponent = .finite negative units) ∨
      Binary64.ofDecimal negative digits exponent = .infinite negative := by
  have hquotient : ∀ num den : Nat,
      (∃ units, Binary64.ofQuotient negative num den = .finite negative units) ∨
        Binary64.ofQuotient negative num den = .infinite negative := by
    intro num den
    unfold Binary64.ofQuotient Binary64.ofUnits
    dsimp only
    split
    · exact Or.inl ⟨_, rfl⟩
    · exact Or.inr rfl
  unfold Binary64.ofDecimal
  dsimp only
  split
  · exact Or.inl ⟨0, rfl⟩
  · split
    · exact Or.inr rfl
    · split
      · exact Or.inl ⟨0, rfl⟩
      · split <;> exact hquotient _ _

/-- The sign of a decimal is the sign of the double that is read. -/
theorem ofDecimal_not (negative : Bool) (digits : Nat) (exponent : Int) :
    Binary64.ofDecimal (!negative) digits exponent =
      (Binary64.ofDecimal negative digits exponent).neg := by
  have hquotient : ∀ num den : Nat, Binary64.ofQuotient (!negative) num den =
      (Binary64.ofQuotient negative num den).neg := by
    intro num den
    unfold Binary64.ofQuotient Binary64.ofUnits
    dsimp only
    split <;> rfl
  unfold Binary64.ofDecimal
  dsimp only
  split
  · rfl
  · split
    · rfl
    · split
      · rfl
      · split <;> exact hquotient _ _

end Reading

end Chronicle.Decimal
