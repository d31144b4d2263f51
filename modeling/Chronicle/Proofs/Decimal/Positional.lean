import Chronicle.Proofs.Decimal.Written

/-!
# Doubles that are written with a point

A double that is no whole number is written with digits on both sides of a point, unless it is less
than a ten thousandth: then it is written with an exponent.

* `pow_decimalExponent_le_value`, `value_shortest_lt`: the place of the first digit that is written;
* `Binary64.exists_point_text`: digits around a point, which denote the double;
* `Binary64.mem_textChars_of_isTiny`: doubles with an exponent.
-/

namespace Chronicle.Decimal

open Chronicle.Text

/-! ## The first digit -/

theorem leadingZeros_le {den k : Nat} (fuel num : Nat) (h : den ≤ num * 10 ^ k) :
    leadingZeros fuel num den ≤ k := by
  induction fuel generalizing num k with
  | zero => exact Nat.zero_le k
  | succ fuel ih =>
    rw [leadingZeros]
    split
    · exact Nat.zero_le k
    · next hlt =>
      cases k with
      | zero => exact absurd (by simpa using h) hlt
      | succ k =>
        refine Nat.succ_le_succ (ih (num * 10) ?_)
        rwa [Nat.mul_assoc, ← Nat.pow_succ']

/-- From a ten thousandth on the first digit is the fourth behind the point, or an earlier one. -/
theorem neg_four_le_decimalExponent {u : Nat} (h : Binary64.one ≤ u * 10 ^ 4) :
    -4 ≤ decimalExponent u := by
  unfold decimalExponent
  split
  · omega
  · have hzeros := leadingZeros_le 400 u h
    omega

section Grid

variable {u : Nat} {e k : Int}

/-- A power of ten that is not finer than the grid is not jumped over by the neighbours of a value
above it. -/
theorem pow_le_neighbours (hk : e ≤ k) (h : (10 : ℚ) ^ k * Binary64.one ≤ u) :
    (10 : ℚ) ^ k ≤ (neighbours u e).1.value ∧ (10 : ℚ) ^ k ≤ (neighbours u e).2.value := by
  obtain ⟨num, den, hden, hu, hpair⟩ := exists_scaled u e
  have hwidth : (0 : ℚ) < 10 ^ e * Binary64.one :=
    mul_pos (by positivity) (Nat.cast_pos.mpr one_pos)
  obtain ⟨n, rfl⟩ := Int.le.dest hk
  have hsplit : (10 : ℚ) ^ (e + n) = 10 ^ n * 10 ^ e := by
    rw [zpow_add₀ (by norm_num), zpow_natCast, mul_comm]
  have hquotient : 10 ^ n ≤ num / den := by
    rw [hsplit, hu, mul_assoc, mul_le_mul_iff_left₀ hwidth, le_div_iff₀ (Nat.cast_pos.mpr hden)] at h
    exact (Nat.le_div_iff_mul_le hden).mpr (by exact_mod_cast h)
  have hvalue : ∀ q : Nat, 10 ^ n ≤ q → (10 : ℚ) ^ (e + n) ≤ (⟨q, e⟩ : Digits).value := by
    intro q hq
    rw [hsplit, Digits.value]
    exact mul_le_mul_of_nonneg_right (by exact_mod_cast hq) (by positivity)
  unfold neighbours
  rw [hpair]
  dsimp only
  split
  · exact ⟨hvalue _ hquotient, hvalue _ (hquotient.trans (Nat.le_succ _))⟩
  · exact ⟨hvalue _ (hquotient.trans (Nat.le_succ _)), hvalue _ hquotient⟩

theorem pow_le_of_hit {d : Digits} (hk : e ≤ k) (h : (10 : ℚ) ^ k * Binary64.one ≤ u)
    (hhit : hit? u e = some d) : (10 : ℚ) ^ k ≤ d.value := by
  obtain ⟨hfirst, hsecond⟩ := pow_le_neighbours hk h
  unfold hit? at hhit
  dsimp only at hhit
  split at hhit
  · cases hhit
    exact hfirst
  · split at hhit
    · cases hhit
      exact hsecond
    · cases hhit

end Grid

/-- The shortest decimal begins where the double does, or one place further up. -/
theorem pow_decimalExponent_le_value {u : Nat} (h : 0 < u) :
    (10 : ℚ) ^ decimalExponent u ≤ (shortest u).value := by
  obtain ⟨d, e, hvalue, hhit, hle⟩ := exists_hit_shortest h
  rw [hvalue]
  exact pow_le_of_hit hle (pow_decimalExponent_le h) hhit

/-! ## Doubles that are no whole numbers -/

theorem twoTo_dvd_spacing {n k : Nat} (h : twoTo (53 + k) ≤ n) :
    twoTo k ∣ spacing (bitLength n) := by
  have hpow := h.trans_lt (lt_two_pow_bitLength n)
  rw [twoTo_eq] at hpow
  have hbits := (Nat.pow_lt_pow_iff_right (by decide)).mp hpow
  exact Nat.pow_dvd_pow 2 (by omega)

theorem spacing_le_twoTo {n k : Nat} (h : n < twoTo (53 + k)) : spacing (bitLength n) ≤ twoTo k := by
  have hbits : bitLength n ≤ 53 + k := bitLength_le h
  exact Nat.pow_le_pow_right (by decide) (by omega)

/-- From `2 ^ 53` on all doubles are whole numbers. -/
theorem lt_of_isDouble {u : Nat} (hdouble : IsDouble u) (h : u % Binary64.one ≠ 0) :
    u < twoTo (53 + 1074) := by
  by_contra hlarge
  have hdvd : Binary64.one ∣ u := (twoTo_dvd_spacing (not_lt.mp hlarge)).trans hdouble
  exact h (Nat.mod_eq_zero_of_dvd hdvd)

theorem value_shortest_lt {u : Nat} (hu : 0 < u) (h : u < twoTo (53 + 1074)) :
    (shortest u).value < 10 ^ (16 : Int) := by
  have hgap : spacing (bitLength u) ≤ Binary64.one := spacing_le_twoTo h
  have hhigh := (contains_shortest hu).le.2
  have hroom : (Interval.ofUnits u).high < 10 ^ 16 * (2 * Binary64.one) := by
    have hone := one_pos
    have hpow : twoTo 53 = 9007199254740992 := by decide
    have hbound : u < 9007199254740992 * Binary64.one := by
      rw [← hpow, Binary64.one, ← twoTo_add]
      exact h
    have hends : (Interval.ofUnits u).high = 2 * u + spacing (bitLength u) := rfl
    omega
  have hone : (0 : ℚ) < 2 * Binary64.one := by exact_mod_cast Nat.mul_pos (by decide) one_pos
  refine lt_of_mul_lt_mul_right (hhigh.trans_lt ?_) hone.le
  exact_mod_cast hroom

/-! ## Doubles that are very small -/

namespace Interval

theorem contains_self {u : Nat} (h : 0 < u) : (ofUnits u).Contains (2 * u) := by
  have hholds := holds_own_value h Nat.one_pos
  rw [holds_iff Nat.one_pos] at hholds
  simpa using hholds

theorem contains_of_between {i : Interval} {x y z : ℚ} (hx : i.Contains x) (hz : i.Contains z)
    (hxy : x ≤ y) (hyz : y ≤ z) : i.Contains y := by
  unfold Contains at hx hz ⊢
  split
  · next hclosed =>
    rw [if_pos hclosed] at hx hz
    exact ⟨hx.1.trans hxy, hyz.trans hz.2⟩
  · next hopen =>
    rw [if_neg hopen] at hx hz
    exact ⟨hx.1.trans_le hxy, hyz.trans_lt hz.2⟩

end Interval

/-- A double less than a ten thousandth is not the nearest one to it, so all numbers that round to
the double are less. -/
theorem value_shortest_lt_tenThousandth {u : Nat} (hu : 0 < u) (hdouble : IsDouble u)
    (h : 10000 * u < Binary64.one) : (shortest u).value < 10 ^ (-4 : Int) := by
  by_contra hlarge
  have hone : (0 : ℚ) < 2 * Binary64.one := by exact_mod_cast Nat.mul_pos (by decide) one_pos
  have hcontains : (Interval.ofUnits u).Contains ((2 * Binary64.one : Nat) / (10000 : Nat)) := by
    refine Interval.contains_of_between (Interval.contains_self hu) (contains_shortest hu) ?_ ?_
    · rw [le_div_iff₀ (by norm_num)]
      exact_mod_cast (by omega : 2 * u * 10000 ≤ 2 * Binary64.one)
    · have hvalue := mul_le_mul_of_nonneg_right (not_lt.mp hlarge) hone.le
      refine le_trans (le_of_eq ?_) hvalue
      push_cast
      generalize (Binary64.one : ℚ) = o
      norm_num
      ring
  have hround : roundUnits Binary64.one 10000 = u :=
    roundUnits_of_holds (by decide) hu hdouble ((Interval.holds_iff (by decide)).mpr hcontains)
  have hnear : Binary64.one ≤ 10000 * roundUnits Binary64.one 10000 := by decide +kernel
  rw [hround] at hnear
  omega

/-! ## Texts -/

namespace Digits

variable {d : Digits} {k : Int}

theorem digits_ne_zero (h : (10 : ℚ) ^ k ≤ d.value) : d.digits ≠ 0 := by
  intro hzero
  have hpos : (0 : ℚ) < 10 ^ k := by positivity
  rw [value, hzero, Nat.cast_zero, zero_mul] at h
  exact absurd h hpos.not_ge

/-- Bounds for a decimal are bounds for the place of its first digit. -/
theorem le_leading (h : (10 : ℚ) ^ k ≤ d.value) : k ≤ d.exponent + d.text.length - 1 := by
  have hnext := (pow_le_value d.exponent (digits_ne_zero h)).2
  have hlt := (zpow_lt_zpow_iff_right₀ (by norm_num)).mp (h.trans_lt hnext)
  rw [text]
  omega

theorem leading_lt (hd : d.digits ≠ 0) (h : d.value < (10 : ℚ) ^ k) :
    d.exponent + d.text.length - 1 < k :=
  (zpow_lt_zpow_iff_right₀ (by norm_num)).mp ((pow_le_value d.exponent hd).1.trans_lt h)

end Digits

namespace Binary64

/-- Not zero, and less than a ten thousandth. -/
def IsTiny : Binary64 → Prop
  | finite _ units => units ≠ 0 ∧ 10000 * units < one
  | _ => False

instance : DecidablePred IsTiny
  | finite _ units => inferInstanceAs (Decidable (units ≠ 0 ∧ 10000 * units < one))
  | infinite _ => inferInstanceAs (Decidable False)
  | nan => inferInstanceAs (Decidable False)

section Finite

variable {negative : Bool} {units : Nat}

theorem textChars_of_ne_zero (h : units ≠ 0) : (finite negative units).textChars =
    signChars negative ++ plainLayout.layOut (shortest units).text
      ((shortest units).exponent + (shortest units).text.length - 1) := by
  rw [textChars, if_neg h]
  rfl

/-- A double that is no whole number is written with digits on both sides of a point, which denote
it, unless it is very small. -/
theorem exists_point_text (h : (finite negative units).IsProper) (hfraction : units % one ≠ 0)
    (hlarge : ¬ (finite negative units).IsTiny) :
    ∃ whole fraction, (finite negative units).textChars =
        signChars negative ++ (whole ++ '.' :: fraction) ∧ whole ≠ [] ∧ fraction ≠ [] ∧
      (∀ c ∈ whole, isAsciiDigit c = true) ∧ (∀ c ∈ fraction, isAsciiDigit c = true) ∧
      ofDecimal negative (digitsValue (whole ++ fraction)) (-fraction.length) =
        finite negative units := by
  obtain ⟨hdouble, hlimit⟩ := h negative units rfl
  have hne : units ≠ 0 := by
    rintro rfl
    exact hfraction (Nat.zero_mod _)
  have hpos : 0 < units := Nat.pos_of_ne_zero hne
  have hfirst := pow_decimalExponent_le_value hpos
  have hleast : -4 ≤ decimalExponent units :=
    neg_four_le_decimalExponent (Nat.le_of_not_lt fun hsmall => hlarge ⟨hne, by omega⟩)
  have hbound : (shortest units).exponent + (shortest units).text.length - 1 < 16 :=
    Digits.leading_lt (Digits.digits_ne_zero hfirst)
      (value_shortest_lt hpos (lt_of_isDouble hdouble hfraction))
  obtain ⟨whole, fraction, hchars, hwhole, hbehind, hwholes, hfractions, hvalue⟩ :=
    exists_point_layOut (shortest units) negative false
      ⟨hleast.trans (Digits.le_leading hfirst), hbound⟩ rfl
  refine ⟨whole, fraction, ?_, hwhole, hbehind, hwholes, hfractions, ?_⟩
  · rw [textChars_of_ne_zero hne, hchars]
  · refine ofDecimal_of_contains negative hpos hdouble hlimit ?_
    have hcontains := contains_shortest hpos
    rw [← hvalue, Numeral.magnitude, zero_sub] at hcontains
    exact hcontains

/-- A double that is a whole number is the nearest one to this number. -/
theorem ofDecimal_of_toInt? {n : Int} (h : (finite negative units).IsProper) (hne : units ≠ 0)
    (hn : (finite negative units).toInt? = some n) :
    ofDecimal (decide (n < 0)) n.natAbs 0 = finite negative units := by
  obtain ⟨hdouble, hlimit⟩ := h negative units rfl
  have hpos : 0 < units := Nat.pos_of_ne_zero hne
  have hwhole : units % one = 0 := by
    by_contra hfraction
    rw [toInt?, if_neg hfraction] at hn
    cases hn
  have hvalue : (if negative then -((units / one : Nat) : Int) else (units / one : Nat)) = n := by
    rw [toInt?, if_pos hwhole] at hn
    exact Option.some.inj hn
  have hsplit : units / one * one = units := Nat.div_mul_cancel (Nat.dvd_of_mod_eq_zero hwhole)
  generalize units / one = q at hvalue hsplit
  have hq : 0 < q := by
    refine Nat.pos_of_ne_zero fun hzero => hne ?_
    rw [← hsplit, hzero, Nat.zero_mul]
  have hsigned : decide (n < 0) = negative ∧ n.natAbs = q := by
    cases negative with
    | false =>
      rw [if_neg Bool.false_ne_true] at hvalue
      exact ⟨decide_eq_false (by omega), by omega⟩
    | true =>
      rw [if_pos rfl] at hvalue
      exact ⟨decide_eq_true (by omega), by omega⟩
  have hself : (q : ℚ) * 10 ^ (0 : Int) * (2 * one) = 2 * units := by
    rw [← hsplit, Nat.cast_mul, zpow_zero]
    ring
  rw [hsigned.1, hsigned.2]
  refine ofDecimal_of_contains negative hpos hdouble hlimit ?_
  rw [hself]
  exact Interval.contains_self hpos

/-- A very small double is written with an exponent. -/
theorem mem_textChars_of_isTiny (h : (finite negative units).IsProper)
    (htiny : (finite negative units).IsTiny) : 'e' ∈ (finite negative units).textChars := by
  obtain ⟨hdouble, -⟩ := h negative units rfl
  obtain ⟨hne, hsmall⟩ := htiny
  have hpos : 0 < units := Nat.pos_of_ne_zero hne
  have hleading : (shortest units).exponent + (shortest units).text.length - 1 < -4 :=
    Digits.leading_lt (Digits.digits_ne_zero (pow_decimalExponent_le_value hpos))
      (value_shortest_lt_tenThousandth hpos hdouble hsmall)
  have hrange : ¬ (plainLayout.least ≤ (shortest units).exponent + (shortest units).text.length - 1 ∧
      (shortest units).exponent + (shortest units).text.length - 1 < plainLayout.bound) :=
    fun hrange => absurd hrange.1 (not_le.mpr hleading)
  rw [textChars_of_ne_zero hne, layOut_exponent _ hrange, exponentChars]
  simp

end Finite

end Binary64

end Chronicle.Decimal
