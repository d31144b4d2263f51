import Mathlib.Algebra.Order.Field.Power
import Mathlib.Data.Rat.Cast.Order
import Mathlib.Tactic.FieldSimp
import Mathlib.Tactic.NormNum
import Mathlib.Tactic.Positivity
import Chronicle.Proofs.Decimal.Doubles

/-!
# The shortest decimal of a double

On the grid of seventeen significant digits the nearest neighbour of a double lies in its interval,
so the search for the fewest digits ends with a decimal from which the double is read again.

* `Interval.Contains`, `Digits.value`: intervals and decimals as rational numbers;
* `ofDecimal_of_contains`: a decimal in the interval of a double denotes it;
* `contains_shortest`: the shortest decimal lies in the interval.
-/

namespace Chronicle.Decimal

/-! ## Rational numbers -/

theorem tenTo_cast (n : Nat) : ((tenTo n : Nat) : ℚ) = 10 ^ n := by
  rw [show tenTo n = 10 ^ n from rfl]
  push_cast
  rfl

theorem one_pos : 0 < Binary64.one := twoTo_pos _

theorem tenTo_toNat {e : Int} (h : 0 ≤ e) : ((tenTo e.toNat : Nat) : ℚ) = 10 ^ e := by
  rw [tenTo_cast, ← zpow_natCast, Int.toNat_of_nonneg h]

/-- The number of digits of a number gives its size. -/
theorem pow_le_of_toDigits {n : Nat} (h : n ≠ 0) : 10 ^ ((Nat.toDigits 10 n).length - 1) ≤ n := by
  by_contra hlt
  push Not at hlt
  rcases Nat.eq_zero_or_pos ((Nat.toDigits 10 n).length - 1) with hz | hpos
  · rw [hz] at hlt
    omega
  · have := (Nat.length_toDigits_le_iff (by decide : 1 < 10) hpos).mpr hlt
    omega

theorem lt_pow_toDigits (n : Nat) : n < 10 ^ (Nat.toDigits 10 n).length :=
  (Nat.length_toDigits_le_iff (by decide) (Nat.length_toDigits_pos)).mp (Nat.le_refl _)

namespace Interval

/-- A rational number of half units lies in the interval. -/
def Contains (i : Interval) (x : ℚ) : Prop :=
  if i.closed then (i.low : ℚ) ≤ x ∧ x ≤ i.high else (i.low : ℚ) < x ∧ x < i.high

theorem holds_iff {i : Interval} {num den : Nat} (hd : 0 < den) :
    i.holds num den = true ↔ i.Contains (num / den) := by
  have hpos : (0 : ℚ) < den := Nat.cast_pos.mpr hd
  unfold holds Contains
  split
  · rw [Bool.and_eq_true, decide_eq_true_eq, decide_eq_true_eq, le_div_iff₀ hpos,
      div_le_iff₀ hpos]
    norm_cast
  · rw [Bool.and_eq_true, decide_eq_true_eq, decide_eq_true_eq, lt_div_iff₀ hpos,
      div_lt_iff₀ hpos]
    norm_cast

theorem Contains.le {i : Interval} {x : ℚ} (h : i.Contains x) : (i.low : ℚ) ≤ x ∧ x ≤ i.high := by
  unfold Contains at h
  split at h
  · exact h
  · exact ⟨h.1.le, h.2.le⟩

theorem contains_of_lt {i : Interval} {x : ℚ} (hlow : (i.low : ℚ) < x) (hhigh : x < i.high) :
    i.Contains x := by
  unfold Contains
  split
  · exact ⟨hlow.le, hhigh.le⟩
  · exact ⟨hlow, hhigh⟩

/-- The spacing of doubles is not more than the smaller one of them. -/
theorem spacing_le {u : Nat} (h : 0 < u) : spacing (bitLength u) ≤ u := by
  obtain ⟨k, -, hlow, hhigh⟩ := exists_bitLength h
  rw [spacing_of_between hlow hhigh]
  exact (Nat.pow_le_pow_right (by decide) (by omega)).trans hlow

theorem spacingBelow_le (u : Nat) : spacingBelow u ≤ spacing (bitLength u) := by
  have := spacing_pos (bitLength u)
  unfold spacingBelow
  dsimp only
  split <;> omega

/-- Doubles have fifty-three binary digits. -/
theorem le_spacingBelow {u : Nat} (h : 0 < u) : u ≤ 2 ^ 53 * spacingBelow u := by
  obtain ⟨k, hk, hlow, hhigh⟩ := exists_bitLength h
  unfold spacingBelow
  dsimp only
  rw [hk, Nat.add_sub_cancel, twoTo_eq, spacing, twoTo_eq]
  rcases Nat.lt_or_ge k 53 with hsmall | hlarge
  · have hle : 2 ^ (k + 1) ≤ 2 ^ 53 := Nat.pow_le_pow_right (by decide) (by omega)
    split
    · omega
    · rw [Nat.sub_eq_zero_of_le (by omega)]
      omega
  · obtain ⟨j, rfl⟩ := Nat.exists_eq_add_of_le hlarge
    have hgap : 53 + j + 1 - 53 = j + 1 := by omega
    rw [hgap, Nat.pow_succ 2 j, Nat.mul_div_cancel _ (by decide)]
    have hnext : 2 ^ (53 + j + 1) = 2 ^ 53 * (2 ^ j * 2) := by rw [Nat.pow_add, Nat.pow_add]; ring
    split
    · next heq =>
      rw [heq, Nat.pow_add]
      exact Nat.mul_le_mul_left _ (Nat.le_max_right _ _)
    · omega

/-- The double is in its interval, and so is all that is closer to it than the next one. -/
theorem contains_of_near {u : Nat} {x : ℚ} (hu : 0 < u) (h : |x - 2 * u| < spacingBelow u) :
    (ofUnits u).Contains x := by
  have hle : spacingBelow u ≤ 2 * u := (spacingBelow_le u).trans ((spacing_le hu).trans (by omega))
  have hgap : (spacingBelow u : ℚ) ≤ spacing (bitLength u) := Nat.cast_le.mpr (spacingBelow_le u)
  obtain ⟨hlow, hhigh⟩ := abs_lt.mp h
  refine contains_of_lt ?_ ?_
  · rw [ofUnits, Nat.cast_sub hle]
    push_cast
    linarith
  · rw [ofUnits]
    push_cast
    linarith

end Interval

/-! ## Decimals as numbers -/

namespace Digits

/-- The number a decimal stands for. -/
def value (d : Digits) : ℚ := d.digits * 10 ^ d.exponent

theorem halfUnits_eq (d : Digits) :
    0 < d.halfUnits.2 ∧ (d.halfUnits.1 : ℚ) / d.halfUnits.2 = d.value * (2 * Binary64.one) := by
  unfold halfUnits value
  split
  · next h =>
    refine ⟨Nat.one_pos, ?_⟩
    push_cast
    rw [tenTo_toNat h, div_one]
  · next h =>
    refine ⟨tenTo_pos _, ?_⟩
    push_cast
    rw [tenTo_toNat (by omega), zpow_neg, div_inv_eq_mul]
    ring

theorem value_trimFuel (fuel : Nat) (d : Digits) : (trimFuel fuel d).value = d.value := by
  induction fuel generalizing d with
  | zero => rfl
  | succ fuel ih =>
    rw [trimFuel]
    split
    · next h =>
      rw [ih]
      have hten : (10 : ℚ) * (d.digits / 10 : Nat) = d.digits := by
        exact_mod_cast Nat.mul_div_cancel' (Nat.dvd_of_mod_eq_zero h.2)
      unfold value
      dsimp only
      rw [zpow_add_one₀ (by norm_num), ← hten]
      ring
    · rfl

theorem value_trim (d : Digits) : d.trim.value = d.value := value_trimFuel _ d

end Digits

/-! ## The search -/

theorem le_leadingZeros {den : Nat} (fuel num : Nat) (h : den ≤ num * 10 ^ fuel) :
    den ≤ num * 10 ^ leadingZeros fuel num den := by
  induction fuel generalizing num with
  | zero => exact h
  | succ fuel ih =>
    rw [leadingZeros]
    split
    · next hle => rwa [Nat.pow_zero, Nat.mul_one]
    · rw [Nat.pow_succ', ← Nat.mul_assoc]
      refine ih _ ?_
      rwa [Nat.mul_assoc, ← Nat.pow_succ']

/-- The first digit of a double is not zero. -/
theorem pow_decimalExponent_le {u : Nat} (h : 0 < u) :
    (10 : ℚ) ^ decimalExponent u * Binary64.one ≤ u := by
  unfold decimalExponent
  split
  · next hone =>
    have hq : u / Binary64.one ≠ 0 := Nat.div_ne_zero_iff.mpr ⟨one_pos.ne', hone⟩
    have hlen := Nat.length_toDigits_pos (b := 10) (n := u / Binary64.one)
    have hpow := Nat.mul_le_mul_right Binary64.one (pow_le_of_toDigits hq)
    have hle := hpow.trans (Nat.div_mul_le_self u Binary64.one)
    have hcast : (((Nat.toDigits 10 (u / Binary64.one)).length : Int) - 1) =
        ((Nat.toDigits 10 (u / Binary64.one)).length - 1 : Nat) := by omega
    rw [hcast, zpow_natCast]
    exact_mod_cast hle
  · have hone : Binary64.one ≤ u * 10 ^ 400 := by
      have hten : Binary64.one ≤ 10 ^ 400 := by decide +kernel
      exact hten.trans (Nat.le_mul_of_pos_left _ h)
    have hle := le_leadingZeros 400 u hone
    have hcast : (Binary64.one : ℚ) ≤ u * 10 ^ leadingZeros 400 u Binary64.one := by
      exact_mod_cast hle
    rw [zpow_neg, zpow_natCast, inv_mul_le_iff₀ (by positivity), mul_comm]
    exact hcast

/-- The value on the grid of `10 ^ exponent`, as `neighbours` computes it. -/
theorem exists_scaled (u : Nat) (e : Int) :
    ∃ num den : Nat, 0 < den ∧ (u : ℚ) = num / den * (10 ^ e * Binary64.one) ∧
      (if 0 ≤ e then (u, Binary64.one * tenTo e.toNat)
        else (u * tenTo (-e).toNat, Binary64.one)) = (num, den) := by
  have hone : (Binary64.one : ℚ) ≠ 0 := Nat.cast_ne_zero.mpr one_pos.ne'
  have hten : (10 : ℚ) ^ e ≠ 0 := zpow_ne_zero _ (by norm_num)
  split
  · next h =>
    refine ⟨_, _, Nat.mul_pos one_pos (tenTo_pos _), ?_, rfl⟩
    push_cast
    rw [tenTo_toNat h]
    field_simp
  · next h =>
    refine ⟨_, _, one_pos, ?_, rfl⟩
    push_cast
    rw [tenTo_toNat (by omega), zpow_neg]
    field_simp

/-- The nearer neighbour is not further away than half of the width of the grid. -/
theorem abs_neighbours_le (u : Nat) (e : Int) :
    |(neighbours u e).1.value * (2 * Binary64.one) - 2 * u| ≤ 10 ^ e * Binary64.one := by
  obtain ⟨num, den, hden, hu, hpair⟩ := exists_scaled u e
  have hwidth : (0 : ℚ) < 10 ^ e * Binary64.one :=
    mul_pos (by positivity) (Nat.cast_pos.mpr one_pos)
  have hpos : (0 : ℚ) < den := Nat.cast_pos.mpr hden
  have hnum : (num : ℚ) = den * (num / den : Nat) + (num % den : Nat) := by
    exact_mod_cast (Nat.div_add_mod num den).symm
  have hmod : ((num % den : Nat) : ℚ) < den := Nat.cast_lt.mpr (Nat.mod_lt num hden)
  have hnonneg : (0 : ℚ) ≤ (num % den : Nat) := Nat.cast_nonneg _
  -- the distance in widths of the grid
  have hclose : ∀ q : Nat, |2 * ((q : ℚ) * den - num)| ≤ den →
      |(⟨q, e⟩ : Digits).value * (2 * Binary64.one) - 2 * u| ≤ 10 ^ e * Binary64.one := by
    intro q hq
    have hdistance : (⟨q, e⟩ : Digits).value * (2 * Binary64.one) - 2 * u =
        2 * ((q : ℚ) * den - num) / den * (10 ^ e * Binary64.one) := by
      rw [hu, Digits.value]
      generalize (Binary64.one : ℚ) = o
      field_simp
    rw [hdistance, abs_mul, abs_div, abs_of_pos hpos, abs_of_pos hwidth]
    exact mul_le_of_le_one_left hwidth.le ((div_le_one hpos).mpr hq)
  unfold neighbours
  rw [hpair]
  dsimp only
  split
  · next h =>
    have hhalf : 2 * ((num % den : Nat) : ℚ) ≤ den := by
      have : 2 * (num % den) ≤ den := by
        rcases Bool.or_eq_true _ _ ▸ h with h | h
        · exact (of_decide_eq_true h).le
        · exact (beq_iff_eq.mp (Bool.and_eq_true _ _ ▸ h).1).le
      exact_mod_cast this
    refine hclose _ (abs_le.mpr ⟨?_, ?_⟩) <;> linarith
  · next h =>
    have hhalf : (den : ℚ) ≤ 2 * (num % den : Nat) := by
      have : den ≤ 2 * (num % den) := by
        rw [Bool.or_eq_true, decide_eq_true_eq] at h
        omega
      exact_mod_cast this
    refine hclose _ (abs_le.mpr ⟨?_, ?_⟩) <;> push_cast <;> linarith

/-- With seventeen digits the search has a hit. -/
theorem exists_hit {u : Nat} (h : 0 < u) : (hit? u (decimalExponent u - 16)).isSome = true := by
  have hcontains : (Interval.ofUnits u).holds (neighbours u (decimalExponent u - 16)).1.halfUnits.1
      (neighbours u (decimalExponent u - 16)).1.halfUnits.2 = true := by
    obtain ⟨hden, hvalue⟩ := (neighbours u (decimalExponent u - 16)).1.halfUnits_eq
    rw [Interval.holds_iff hden, hvalue]
    refine Interval.contains_of_near h ((abs_neighbours_le u _).trans_lt ?_)
    have hlow := pow_decimalExponent_le h
    have hbelow : (u : ℚ) ≤ 2 ^ 53 * Interval.spacingBelow u := by
      exact_mod_cast Interval.le_spacingBelow h
    have hpos : (0 : ℚ) < Interval.spacingBelow u := Nat.cast_pos.mpr (Interval.spacingBelow_pos u)
    -- the grid is a number like any other here, not a power of two to be worked out
    generalize (Binary64.one : ℚ) = o at hlow ⊢
    have hgrid : (10 : ℚ) ^ (decimalExponent u - 16) * o * 10 ^ 16 = 10 ^ decimalExponent u * o := by
      rw [zpow_sub₀ (by norm_num), zpow_ofNat]
      field_simp
    norm_num at hgrid hbelow
    linarith
  unfold hit?
  dsimp only
  rw [if_pos hcontains]
  rfl

/-- The search ends on the last grid at the latest, with a decimal in the interval. -/
theorem exists_searchDigits {u : Nat} (leading : Int) (fuel count : Nat)
    (h : ∃ j < fuel, (hit? u (leading - (count + j : Nat) + 1)).isSome = true) :
    ∃ d e, searchDigits u leading fuel count = some d ∧ hit? u e = some d ∧
      e ≤ leading - count + 1 := by
  induction fuel generalizing count with
  | zero => exact absurd h (by simp)
  | succ fuel ih =>
    rw [searchDigits]
    cases hfirst : hit? u (leading - count + 1) with
    | some d => exact ⟨d, _, rfl, hfirst, le_refl _⟩
    | none =>
      obtain ⟨j, hj, hhit⟩ := h
      rcases Nat.eq_zero_or_pos j with rfl | hpos
      · rw [Nat.add_zero, hfirst] at hhit
        cases hhit
      · obtain ⟨d, e, hd, he, hle⟩ := ih (count + 1) ⟨j - 1, by omega, by
          rwa [show count + 1 + (j - 1) = count + j by omega]⟩
        exact ⟨d, e, hd, he, by omega⟩

/-- The shortest decimal is a hit on a grid that is not coarser than its first digit. -/
theorem exists_hit_shortest {u : Nat} (h : 0 < u) : ∃ d e, (shortest u).value = d.value ∧
    hit? u e = some d ∧ e ≤ decimalExponent u := by
  obtain ⟨d, e, hd, hhit, hle⟩ := exists_searchDigits (u := u) (decimalExponent u) 17 1
    ⟨16, by decide, by
      rw [show decimalExponent u - (1 + 16 : Nat) + 1 = decimalExponent u - 16 by omega]
      exact exists_hit h⟩
  refine ⟨d, e, ?_, hhit, by omega⟩
  rw [shortest, hd, Option.getD_some, Digits.value_trim]

/-- The shortest decimal of a double lies in its interval. -/
theorem contains_shortest {u : Nat} (h : 0 < u) :
    (Interval.ofUnits u).Contains ((shortest u).value * (2 * Binary64.one)) := by
  obtain ⟨d, e, hvalue, hhit, -⟩ := exists_hit_shortest h
  obtain ⟨hden, hhalf⟩ := d.halfUnits_eq
  have hholds := hit?_holds hhit
  rw [Interval.holds_iff hden, hhalf] at hholds
  rwa [hvalue]

/-! ## Reading a decimal -/

section Reading

variable {u digits : Nat} {exponent : Int}

/-- A decimal in the interval of a double is between half of it and twice of it. -/
theorem value_bounds (hu : 0 < u)
    (h : (Interval.ofUnits u).Contains (digits * 10 ^ exponent * (2 * Binary64.one))) :
    (u : ℚ) ≤ digits * 10 ^ exponent * (2 * Binary64.one) ∧
      digits * 10 ^ exponent * (2 * Binary64.one) ≤ 3 * (u : ℚ) := by
  obtain ⟨hlow, hhigh⟩ := h.le
  have hspacing := Interval.spacing_le hu
  have hbelow := Interval.spacingBelow_le u
  refine ⟨le_trans ?_ hlow, hhigh.trans ?_⟩
  · rw [Interval.ofUnits]
    exact_mod_cast (by omega : u ≤ 2 * u - Interval.spacingBelow u)
  · rw [Interval.ofUnits]
    exact_mod_cast (by omega : 2 * u + spacing (bitLength u) ≤ 3 * u)

/-- The place of the first digit and the number of digits of a positive decimal. -/
theorem pow_le_value {digits : Nat} (e : Int) (h : digits ≠ 0) :
    (10 : ℚ) ^ (e + (Nat.toDigits 10 digits).length - 1) ≤ digits * 10 ^ e ∧
      (digits * 10 ^ e : ℚ) < 10 ^ (e + (Nat.toDigits 10 digits).length) := by
  have hten : (10 : ℚ) ≠ 0 := by norm_num
  have hpos : (0 : ℚ) < 10 ^ e := by positivity
  have hlen := Nat.length_toDigits_pos (b := 10) (n := digits)
  have hlow : ((10 ^ ((Nat.toDigits 10 digits).length - 1) : Nat) : ℚ) ≤ digits :=
    Nat.cast_le.mpr (pow_le_of_toDigits h)
  have hhigh : (digits : ℚ) < ((10 ^ (Nat.toDigits 10 digits).length : Nat) : ℚ) :=
    Nat.cast_lt.mpr (lt_pow_toDigits digits)
  push_cast at hlow hhigh
  constructor
  · rw [show e + (Nat.toDigits 10 digits).length - 1 =
      ((Nat.toDigits 10 digits).length - 1 : Nat) + e by omega, zpow_add₀ hten, zpow_natCast]
    exact mul_le_mul_of_nonneg_right hlow hpos.le
  · rw [add_comm, zpow_add₀ hten, zpow_natCast]
    exact mul_lt_mul_of_pos_right hhigh hpos

/-- A decimal in the interval of a double is in the range in which powers are computed. -/
theorem exponent_bounds (hu : 0 < u) (hlimit : u < Binary64.limit) (hdigits : digits ≠ 0)
    (h : (Interval.ofUnits u).Contains (digits * 10 ^ exponent * (2 * Binary64.one))) :
    ¬ exponent + (Nat.toDigits 10 digits).length > 400 ∧
      ¬ exponent + (Nat.toDigits 10 digits).length < -400 := by
  obtain ⟨hlow, hhigh⟩ := value_bounds hu h
  obtain ⟨hfirst, hnext⟩ := pow_le_value exponent hdigits
  have hone : (0 : ℚ) < 2 * Binary64.one := by
    have : (0 : ℚ) < Binary64.one := Nat.cast_pos.mpr one_pos
    linarith
  constructor
  · intro hbig
    have hpow : (tenTo 400 : ℚ) ≤ digits * 10 ^ exponent := by
      refine le_trans ?_ hfirst
      rw [tenTo_cast, ← zpow_natCast]
      exact zpow_le_zpow_right₀ (by norm_num) (by omega)
    have hroom : ((3 * Binary64.limit : Nat) : ℚ) < (tenTo 400 * (2 * Binary64.one) : Nat) :=
      Nat.cast_lt.mpr (by decide +kernel)
    have hscaled := mul_le_mul_of_nonneg_right hpow hone.le
    have hcast : (3 : ℚ) * u < 3 * Binary64.limit :=
      mul_lt_mul_of_pos_left (Nat.cast_lt.mpr hlimit) (by norm_num)
    push_cast at hroom
    exact lt_asymm hcast (hroom.trans_le (hscaled.trans hhigh))
  · intro hsmall
    have hpow : (digits * 10 ^ exponent : ℚ) * tenTo 400 < 1 := by
      have hle : (10 : ℚ) ^ (exponent + (Nat.toDigits 10 digits).length) ≤
          10 ^ (-(400 : Nat) : Int) := zpow_le_zpow_right₀ (by norm_num) (by omega)
      have htenth := hnext.trans_le hle
      rwa [zpow_neg, zpow_natCast, ← tenTo_cast, ← one_div,
        lt_div_iff₀ (Nat.cast_pos.mpr (tenTo_pos _))] at htenth
    have hroom : ((2 * Binary64.one : Nat) : ℚ) < tenTo 400 :=
      Nat.cast_lt.mpr (by decide +kernel)
    have hupos : (1 : ℚ) ≤ u := Nat.one_le_cast.mpr hu
    have hvalue : (0 : ℚ) ≤ digits * 10 ^ exponent :=
      mul_nonneg (Nat.cast_nonneg _) (zpow_nonneg (by norm_num) _)
    have hscaled := mul_le_mul_of_nonneg_left hroom.le hvalue
    push_cast at hscaled
    linarith

/-- A decimal in the interval of a double denotes it. -/
theorem ofDecimal_of_contains (negative : Bool) (hu : 0 < u) (hdouble : IsDouble u)
    (hlimit : u < Binary64.limit)
    (h : (Interval.ofUnits u).Contains (digits * 10 ^ exponent * (2 * Binary64.one))) :
    Binary64.ofDecimal negative digits exponent = .finite negative u := by
  have hdigits : digits ≠ 0 := by
    rintro rfl
    have hlow := (value_bounds hu h).1
    have hupos : (1 : ℚ) ≤ u := Nat.one_le_cast.mpr hu
    rw [Nat.cast_zero, zero_mul, zero_mul] at hlow
    linarith
  obtain ⟨hbig, hsmall⟩ := exponent_bounds hu hlimit hdigits h
  -- what is rounded lies in the interval
  have hround : ∀ num den : Nat, 0 < den → (num : ℚ) / den = digits * 10 ^ exponent →
      Binary64.ofQuotient negative num den = .finite negative u := by
    intro num den hden hvalue
    have hholds : (Interval.ofUnits u).holds (2 * (num * Binary64.one)) den = true := by
      rw [Interval.holds_iff hden]
      convert h using 1
      rw [← hvalue]
      push_cast
      ring
    unfold Binary64.ofQuotient Binary64.ofUnits
    dsimp only
    rw [roundUnits_of_holds hden hu hdouble hholds, if_pos hlimit]
  unfold Binary64.ofDecimal
  dsimp only
  rw [if_neg hdigits, if_neg hbig, if_neg hsmall]
  split
  · next hexp =>
    refine hround _ _ Nat.one_pos ?_
    push_cast
    rw [tenTo_toNat hexp, div_one]
  · next hexp =>
    refine hround _ _ (tenTo_pos _) ?_
    rw [tenTo_toNat (by omega), zpow_neg, div_inv_eq_mul]

end Reading

end Chronicle.Decimal
