import Mathlib.Data.Nat.Log
import Mathlib.Tactic.Linarith
import Mathlib.Tactic.Ring
import Chronicle.Decimal.Shortest

/-!
# Doubles among the numbers

A number of units is that of a double if it is a multiple of the spacing of doubles of its size.
Rounding leads to such numbers, and to each of them from all of its interval.

* `IsDouble`: a whole number of spacings;
* `isDouble_roundUnits`: what rounding leads to;
* `roundUnits_of_holds`: the numbers that round to a double.
-/

namespace Chronicle.Decimal

/-! ## Binary digits -/

theorem twoTo_eq (n : Nat) : twoTo n = 2 ^ n := rfl

theorem bitLength_eq {n k : Nat} (h : 2 ^ k ≤ n) (h' : n < 2 ^ (k + 1)) : bitLength n = k + 1 := by
  have hn : n ≠ 0 := by
    have := Nat.two_pow_pos k
    omega
  rw [bitLength, if_neg hn, (Nat.log2_eq_iff hn).mpr ⟨h, h'⟩]

/-- A positive number lies between two powers of two. -/
theorem exists_bitLength {n : Nat} (h : 0 < n) :
    ∃ k, bitLength n = k + 1 ∧ 2 ^ k ≤ n ∧ n < 2 ^ (k + 1) := by
  have hn : n ≠ 0 := by omega
  obtain ⟨hle, hlt⟩ := (Nat.log2_eq_iff hn).mp rfl
  exact ⟨n.log2, if_neg hn, hle, hlt⟩

theorem lt_two_pow_bitLength (n : Nat) : n < 2 ^ bitLength n := by
  rcases Nat.eq_zero_or_pos n with rfl | h
  · decide
  · obtain ⟨k, hk, -, hlt⟩ := exists_bitLength h
    rw [hk]
    exact hlt

theorem bitLength_le {n k : Nat} (h : n < 2 ^ k) : bitLength n ≤ k := by
  rcases Nat.eq_zero_or_pos n with rfl | hn
  · exact Nat.zero_le _
  · obtain ⟨j, hj, hle, -⟩ := exists_bitLength hn
    have hlt : 2 ^ j < 2 ^ k := Nat.lt_of_le_of_lt hle h
    have := (Nat.pow_lt_pow_iff_right (by decide : 1 < 2)).mp hlt
    omega

/-! ## Multiples of the spacing -/

/-- The number of units of a double. -/
def IsDouble (units : Nat) : Prop := spacing (bitLength units) ∣ units

instance (units : Nat) : Decidable (IsDouble units) := inferInstanceAs (Decidable (_ ∣ _))

theorem spacing_pos (bits : Nat) : 0 < spacing bits := twoTo_pos _

theorem spacing_of_le {bits : Nat} (h : bits ≤ 53) : spacing bits = 1 := by
  rw [spacing, Nat.sub_eq_zero_of_le h, twoTo_zero]

theorem isDouble_mul_two_pow {q k : Nat} (hq : q ≤ 2 ^ 53) : IsDouble (q * 2 ^ k) := by
  unfold IsDouble spacing
  rw [twoTo_eq]
  rcases Nat.lt_or_eq_of_le hq with hlt | rfl
  · have hbits : bitLength (q * 2 ^ k) ≤ 53 + k := by
      refine bitLength_le ?_
      rw [Nat.pow_add]
      exact Nat.mul_lt_mul_of_pos_right hlt (Nat.two_pow_pos k)
    exact Dvd.dvd.mul_left (Nat.pow_dvd_pow 2 (by omega)) q
  · rw [← Nat.pow_add]
    refine Nat.pow_dvd_pow 2 ?_
    rw [bitLength_eq (Nat.le_refl _) (Nat.pow_lt_pow_right (by decide) (Nat.lt_succ_self _))]
    omega

/-- What a quotient is rounded to is a double. -/
theorem isDouble_roundUnits (num den : Nat) : IsDouble (roundUnits num den) := by
  have hgap : 0 < spacing (bitLength (num / den)) := spacing_pos _
  have hwhole : num / (den * spacing (bitLength (num / den))) < 2 ^ 53 := by
    rw [← Nat.div_div_eq_div_mul, Nat.div_lt_iff_lt_mul hgap, spacing, twoTo_eq, ← Nat.pow_add]
    exact Nat.lt_of_lt_of_le (lt_two_pow_bitLength _) (Nat.pow_le_pow_right (by decide) (by omega))
  have hq := roundHalfEven_le num (den * spacing (bitLength (num / den)))
  unfold roundUnits
  dsimp only
  exact isDouble_mul_two_pow (by omega)

/-! ## The numbers that round to a double -/

/-- How a quotient is rounded is told by its whole part and by what is left of it. -/
theorem exists_roundHalfEven (num : Nat) {den : Nat} (hd : 0 < den) :
    ∃ w r, r < den ∧ num = w * den + r ∧ roundHalfEven num den =
      if 2 * r < den then w else if den < 2 * r then w + 1 else w + w % 2 :=
  ⟨num / den, num % den, Nat.mod_lt num hd, by rw [Nat.mul_comm, Nat.div_add_mod], rfl⟩

/-- A whole number is what a quotient is rounded to if it is not more than a half away, and even if
it is just a half. -/
theorem roundHalfEven_eq {num den q : Nat} (hd : 0 < den) (hlow : 2 * (q * den) ≤ 2 * num + den)
    (hhigh : 2 * num ≤ 2 * (q * den) + den)
    (htie : 2 * (q * den) = 2 * num + den ∨ 2 * num = 2 * (q * den) + den → q % 2 = 0) :
    roundHalfEven num den = q := by
  obtain ⟨w, r, hmod, rfl, hround⟩ := exists_roundHalfEven num hd
  rw [hround]
  rcases Nat.lt_trichotomy w q with hw | rfl | hw
  · obtain ⟨d, rfl⟩ := Nat.exists_eq_add_of_lt hw
    have hexpand : (w + d + 1) * den = w * den + d * den + den := by ring
    rw [hexpand] at hlow hhigh htie
    obtain rfl : d = 0 := by
      rcases Nat.eq_zero_or_pos d with h | h
      · exact h
      · have := Nat.le_mul_of_pos_left den h
        omega
    rw [if_neg (by omega)]
    split
    · rfl
    · have := htie (Or.inl (by omega))
      omega
  · split
    · rfl
    · have := htie (Or.inr (by omega))
      rw [if_neg (by omega)]
      omega
  · obtain ⟨d, rfl⟩ := Nat.exists_eq_add_of_lt hw
    have hexpand : (q + d + 1) * den = q * den + d * den + den := by ring
    rw [hexpand] at hhigh
    omega

/-- Where the doubles around a number have a given spacing, the number is rounded to the multiple of
the spacing that is not more than a half away. -/
theorem roundUnits_eq {num den q k : Nat} (hd : 0 < den)
    (hk : spacing (bitLength (num / den)) = 2 ^ k)
    (hlow : 2 * (q * 2 ^ k * den) ≤ 2 * num + 2 ^ k * den)
    (hhigh : 2 * num ≤ 2 * (q * 2 ^ k * den) + 2 ^ k * den)
    (htie : 2 * (q * 2 ^ k * den) = 2 * num + 2 ^ k * den ∨
      2 * num = 2 * (q * 2 ^ k * den) + 2 ^ k * den → q % 2 = 0) :
    roundUnits num den = q * 2 ^ k := by
  have hassoc : q * 2 ^ k * den = q * (den * 2 ^ k) := by ring
  rw [hassoc, Nat.mul_comm (2 ^ k) den] at hlow hhigh htie
  unfold roundUnits
  dsimp only
  rw [hk, roundHalfEven_eq (Nat.mul_pos hd (Nat.two_pow_pos k)) hlow hhigh htie]

theorem spacing_of_between {n k : Nat} (h : 2 ^ k ≤ n) (h' : n < 2 ^ (k + 1)) :
    spacing (bitLength n) = 2 ^ (k - 52) := by
  rw [bitLength_eq h h', spacing, twoTo_eq]
  congr 1

section Interval

variable {u num den : Nat}

/-- A number in the interval of a double is not further away than to a half of the spacing; at the
ends of the interval the double is even. -/
theorem Interval.le_of_holds (h : (ofUnits u).holds (2 * num) den = true) :
    2 * (u * den) ≤ 2 * num + spacingBelow u * den ∧
      2 * num ≤ 2 * (u * den) + spacing (bitLength u) * den ∧
      (2 * (u * den) = 2 * num + spacingBelow u * den ∨
        2 * num = 2 * (u * den) + spacing (bitLength u) * den →
          u / spacing (bitLength u) % 2 = 0) := by
  have hlow : (2 * u - spacingBelow u) * den = 2 * (u * den) - spacingBelow u * den := by
    rw [Nat.sub_mul, Nat.mul_assoc]
  have hhigh : (2 * u + spacing (bitLength u)) * den =
      2 * (u * den) + spacing (bitLength u) * den := by ring
  unfold holds ofUnits at h
  dsimp only at h
  rw [hlow, hhigh] at h
  split at h
  · next hclosed =>
    simp only [Bool.and_eq_true, decide_eq_true_eq] at h
    exact ⟨by omega, by omega, fun _ => beq_iff_eq.mp hclosed⟩
  · simp only [Bool.and_eq_true, decide_eq_true_eq] at h
    exact ⟨by omega, by omega, fun htie => absurd htie (by omega)⟩

/-- The numbers above a double that are in its interval round to it. -/
theorem roundUnits_of_ge (hd : 0 < den) (hu : 0 < u) (hdouble : IsDouble u)
    (h : (Interval.ofUnits u).holds (2 * num) den = true) (hge : u * den ≤ num) :
    roundUnits num den = u := by
  obtain ⟨-, hhigh, htie⟩ := Interval.le_of_holds h
  obtain ⟨k, -, hlow, hlt⟩ := exists_bitLength hu
  have hspacing := spacing_of_between hlow hlt
  rw [IsDouble, hspacing] at hdouble
  rw [hspacing] at hhigh htie
  obtain ⟨q, rfl⟩ := hdouble
  rw [Nat.mul_comm (2 ^ (k - 52)) q] at *
  have hgap : 0 < 2 ^ (k - 52) * den := Nat.mul_pos (Nat.two_pow_pos _) hd
  -- the next double is at most the next power of two
  have hroom : (q + 1) * 2 ^ (k - 52) ≤ 2 ^ (k + 1) := by
    have hsplit : 2 ^ (k + 1) = 2 ^ (k + 1 - (k - 52)) * 2 ^ (k - 52) := by
      rw [← Nat.pow_add]
      congr 1
      omega
    rw [hsplit] at hlt ⊢
    exact Nat.mul_le_mul_right _ (Nat.lt_of_mul_lt_mul_right hlt)
  refine roundUnits_eq hd (spacing_of_between ?_ ?_) (by omega) hhigh fun hor => ?_
  · rw [Nat.le_div_iff_mul_le hd]
    exact (Nat.mul_le_mul_right den hlow).trans hge
  · rw [Nat.div_lt_iff_lt_mul hd]
    have hscaled := Nat.mul_le_mul_right den hroom
    rw [Nat.add_mul, Nat.add_mul, Nat.one_mul] at hscaled
    omega
  · have heven := htie (Or.inr (by omega))
    rwa [Nat.mul_div_cancel _ (Nat.two_pow_pos _)] at heven

/-- Small doubles have the spacing one on both sides. -/
theorem roundUnits_of_lt_small (hd : 0 < den) (hsmall : u < 2 ^ 53)
    (h : (Interval.ofUnits u).holds (2 * num) den = true) (hlt : num < u * den) :
    roundUnits num den = u := by
  obtain ⟨hbelow, -, htie⟩ := Interval.le_of_holds h
  have hspacing := spacing_of_le (bitLength_le hsmall)
  have hsame : Interval.spacingBelow u = 1 := by
    unfold Interval.spacingBelow
    dsimp only
    rw [hspacing]
    split <;> rfl
  have hfloor : num / den < 2 ^ 53 :=
    Nat.lt_trans ((Nat.div_lt_iff_lt_mul hd).mpr hlt) hsmall
  rw [hsame] at hbelow htie
  rw [hspacing, Nat.div_one] at htie
  have hround := roundUnits_eq (q := u) (k := 0) hd (spacing_of_le (bitLength_le hfloor))
  rw [Nat.pow_zero, Nat.mul_one] at hround
  exact hround hbelow (by omega) fun hor => htie (Or.inl (by omega))

/-- The doubles below a power of two lie closer to each other. -/
theorem roundUnits_of_lt_power {k : Nat} (hd : 0 < den)
    (h : (Interval.ofUnits (2 ^ (k + 53))).holds (2 * num) den = true)
    (hlt : num < 2 ^ (k + 53) * den) : roundUnits num den = 2 ^ (k + 53) := by
  obtain ⟨hbelow, -, -⟩ := Interval.le_of_holds h
  have hbits : bitLength (2 ^ (k + 53)) = k + 53 + 1 :=
    bitLength_eq (Nat.le_refl _) (Nat.pow_lt_pow_right (by decide) (Nat.lt_succ_self _))
  have hsame : Interval.spacingBelow (2 ^ (k + 53)) = 2 ^ k := by
    unfold Interval.spacingBelow
    dsimp only
    rw [hbits, Nat.add_sub_cancel, twoTo_eq, if_pos rfl, spacing, twoTo_eq,
      show k + 53 + 1 - 53 = k + 1 by omega, Nat.pow_succ, Nat.mul_div_cancel _ (by decide)]
    exact Nat.max_eq_right (Nat.two_pow_pos k)
  rw [hsame] at hbelow
  have hpower : 2 ^ (k + 53) * den = 2 ^ 53 * 2 ^ k * den := by rw [Nat.pow_add]; ring
  have hgap : 0 < 2 ^ k * den := Nat.mul_pos (Nat.two_pow_pos _) hd
  have hspacing : spacing (bitLength (num / den)) = 2 ^ k := by
    refine spacing_of_between (k := k + 52) ?_ ((Nat.div_lt_iff_lt_mul hd).mpr hlt)
    rw [Nat.le_div_iff_mul_le hd]
    have hhalf : 2 ^ (k + 52) * den = 2 ^ 52 * (2 ^ k * den) := by rw [Nat.pow_add]; ring
    have hwhole : 2 ^ (k + 53) * den = 2 ^ 53 * (2 ^ k * den) := by rw [Nat.pow_add]; ring
    omega
  have hround : roundUnits num den = 2 ^ 53 * 2 ^ k :=
    roundUnits_eq hd hspacing (by omega) (by omega) fun _ => by decide
  rw [hround, Nat.pow_add, Nat.mul_comm]

/-- Between powers of two the doubles have the same spacing on both sides. -/
theorem roundUnits_of_lt_between {k : Nat} (hd : 0 < den) (hdouble : IsDouble u)
    (hlow : 2 ^ (k + 53) < u) (hhigh : u < 2 ^ (k + 53 + 1))
    (h : (Interval.ofUnits u).holds (2 * num) den = true) (hlt : num < u * den) :
    roundUnits num den = u := by
  obtain ⟨hbelow, -, htie⟩ := Interval.le_of_holds h
  have hspacing := spacing_of_between (Nat.le_of_lt hlow) hhigh
  have hbits := bitLength_eq (Nat.le_of_lt hlow) hhigh
  have hsame : Interval.spacingBelow u = 2 ^ (k + 1) := by
    unfold Interval.spacingBelow
    dsimp only
    rw [hbits, Nat.add_sub_cancel, twoTo_eq, if_neg (Nat.ne_of_gt hlow), ← hbits, hspacing]
    congr 1
  have hk : k + 53 - 52 = k + 1 := by omega
  rw [hk] at hspacing
  rw [IsDouble, hspacing] at hdouble
  rw [hsame] at hbelow htie
  rw [hspacing] at htie
  obtain ⟨q, rfl⟩ := hdouble
  rw [Nat.mul_comm (2 ^ (k + 1)) q] at *
  have hgap : 0 < 2 ^ (k + 1) * den := Nat.mul_pos (Nat.two_pow_pos _) hd
  -- the double before is at least the power of two
  have hroom : (2 ^ 52 + 1) * 2 ^ (k + 1) ≤ q * 2 ^ (k + 1) := by
    refine Nat.mul_le_mul_right _ ?_
    have hsplit : 2 ^ (k + 53) = 2 ^ 52 * 2 ^ (k + 1) := by
      rw [← Nat.pow_add]
      congr 1
      omega
    rw [hsplit] at hlow
    exact Nat.lt_of_mul_lt_mul_right hlow
  have hfloor : spacing (bitLength (num / den)) = 2 ^ (k + 1) := by
    refine (spacing_of_between (k := k + 53) ?_ ?_).trans (by rw [hk])
    · rw [Nat.le_div_iff_mul_le hd]
      have hscaled := Nat.mul_le_mul_right den hroom
      have hpower : 2 ^ (k + 53) * den = 2 ^ 52 * (2 ^ (k + 1) * den) := by
        rw [Nat.pow_add, Nat.pow_succ]
        ring
      have hnext : (2 ^ 52 + 1) * 2 ^ (k + 1) * den =
          2 ^ 52 * (2 ^ (k + 1) * den) + 2 ^ (k + 1) * den := by ring
      omega
    · exact Nat.lt_trans ((Nat.div_lt_iff_lt_mul hd).mpr hlt) hhigh
  refine roundUnits_eq hd hfloor hbelow (by omega) fun hor => ?_
  have heven := htie (Or.inl (by omega))
  rwa [Nat.mul_div_cancel _ (Nat.two_pow_pos _)] at heven

/-- What is in the interval of a double rounds to it. -/
theorem roundUnits_of_holds (hd : 0 < den) (hu : 0 < u) (hdouble : IsDouble u)
    (h : (Interval.ofUnits u).holds (2 * num) den = true) : roundUnits num den = u := by
  rcases Nat.lt_or_ge num (u * den) with hlt | hge
  · rcases Nat.lt_or_ge u (2 ^ 53) with hsmall | hlarge
    · exact roundUnits_of_lt_small hd hsmall h hlt
    · obtain ⟨j, -, hlow, hhigh⟩ := exists_bitLength hu
      have hj : 53 ≤ j := by
        have hpower := (Nat.pow_lt_pow_iff_right (by decide : 1 < 2)).mp
          (Nat.lt_of_le_of_lt hlarge hhigh)
        omega
      obtain ⟨k, rfl⟩ := Nat.exists_eq_add_of_le' hj
      rcases Nat.lt_or_eq_of_le hlow with hbetween | rfl
      · exact roundUnits_of_lt_between hd hdouble hbetween hhigh h hlt
      · exact roundUnits_of_lt_power hd h hlt
  · exact roundUnits_of_ge hd hu hdouble h hge

end Interval

end Chronicle.Decimal
