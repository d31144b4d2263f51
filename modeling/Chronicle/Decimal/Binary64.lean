import Chronicle.Decimal.Power

/-!
# Double precision numbers

A finite double is a whole number of units of `2 ^ -1074`, so its value is kept as a sign and a
natural number and every operation is exact integer arithmetic followed by one rounding.

* `roundUnits`: the nearest multiple of the spacing of doubles, a tie going to the even one;
* `roundUnits_of_lt`: whole numbers of units below `2 ^ 53` are kept as they are;
* `roundUnits_mul_right`: rounding depends on the value of the quotient alone.
-/

namespace Chronicle.Decimal

/-! ## Rounding a quotient -/

/-- `num / den` to the nearest whole number, a half to the even one. -/
def roundHalfEven (num den : Nat) : Nat :=
  let q := num / den
  let r := num % den
  if 2 * r < den then q
  else if den < 2 * r then q + 1
  else q + q % 2

theorem roundHalfEven_one (n : Nat) : roundHalfEven n 1 = n := by
  simp [roundHalfEven, Nat.mod_one]

theorem roundHalfEven_le (num den : Nat) : roundHalfEven num den ≤ num / den + 1 := by
  unfold roundHalfEven
  dsimp only
  split
  · omega
  · split <;> omega

theorem le_roundHalfEven (num den : Nat) : num / den ≤ roundHalfEven num den := by
  unfold roundHalfEven
  dsimp only
  split
  · omega
  · split <;> omega

/-- The number of binary digits; zero has none. -/
def bitLength (n : Nat) : Nat := if n = 0 then 0 else n.log2 + 1

/-- The distance between neighbouring doubles, in units, where the whole part has `bits` binary
digits. -/
def spacing (bits : Nat) : Nat := twoTo (bits - 53)

/-- `num / den` units to the nearest double, in units. -/
def roundUnits (num den : Nat) : Nat :=
  let gap := spacing (bitLength (num / den))
  roundHalfEven num (den * gap) * gap

theorem roundUnits_of_lt {n : Nat} (h : n < twoTo 53) : roundUnits n 1 = n := by
  have hb : bitLength n - 53 = 0 := by
    unfold bitLength
    split
    · rfl
    · next h0 =>
      have := (Nat.log2_lt h0).2 h
      omega
  simp [roundUnits, spacing, hb, roundHalfEven_one, twoTo_zero]

theorem roundHalfEven_mul_right (num den : Nat) {k : Nat} (hk : 0 < k) :
    roundHalfEven (num * k) (den * k) = roundHalfEven num den := by
  have hdiv : num * k / (den * k) = num / den := Nat.mul_div_mul_right _ _ hk
  have hmod : num * k % (den * k) = num % den * k := Nat.mul_mod_mul_right _ _ _
  unfold roundHalfEven
  simp only [hdiv, hmod]
  have e : 2 * (num % den * k) = 2 * (num % den) * k := by rw [Nat.mul_assoc]
  simp only [e, Nat.mul_lt_mul_right hk]

theorem roundUnits_mul_right (num den : Nat) {k : Nat} (hk : 0 < k) :
    roundUnits (num * k) (den * k) = roundUnits num den := by
  unfold roundUnits
  have hdiv : num * k / (den * k) = num / den := Nat.mul_div_mul_right _ _ hk
  simp only [hdiv]
  rw [Nat.mul_right_comm den k, roundHalfEven_mul_right _ _ hk]

/-! ## The type -/

/-- A double; the value of `finite negative units` is `± units * 2 ^ -1074`. -/
inductive Binary64
  | finite (negative : Bool) (units : Nat)
  | infinite (negative : Bool)
  | nan
  deriving DecidableEq, Repr, Inhabited

namespace Binary64

/-- The number of units in one. -/
def one : Nat := twoTo 1074

/-- Magnitudes from here on, in units, are infinite. -/
def limit : Nat := twoTo 2098

/-- The double nearest to `± num / den` units. -/
def ofUnits (negative : Bool) (num den : Nat) : Binary64 :=
  let units := roundUnits num den
  if units < limit then finite negative units else infinite negative

/-- The double nearest to `± num / den`. -/
def ofQuotient (negative : Bool) (num den : Nat) : Binary64 := ofUnits negative (num * one) den

def ofInt (i : Int) : Binary64 := ofQuotient (i < 0) i.natAbs 1

/-- The double nearest to `± digits * 10 ^ exponent`.  Exponents that are out of all range are
answered without computing the power. -/
def ofDecimal (negative : Bool) (digits : Nat) (exponent : Int) : Binary64 :=
  let width : Int := (Nat.toDigits 10 digits).length
  if digits = 0 then finite negative 0
  else if exponent + width > 400 then infinite negative
  else if exponent + width < -400 then finite negative 0
  else if 0 ≤ exponent then ofQuotient negative (digits * tenTo exponent.toNat) 1
  else ofQuotient negative digits (tenTo (-exponent).toNat)

def zero : Binary64 := finite false 0

def isZero : Binary64 → Bool
  | finite _ units => units == 0
  | _ => false

def isNegative : Binary64 → Bool
  | finite negative _ => negative
  | infinite negative => negative
  | nan => false

def neg : Binary64 → Binary64
  | finite negative units => finite (!negative) units
  | infinite negative => infinite (!negative)
  | nan => nan

/-- The value in units, where there is one. -/
def units? : Binary64 → Option Int
  | finite negative units => some (if negative then -(units : Int) else units)
  | _ => none

/-- The whole number a double is, if it is one. -/
def toInt? : Binary64 → Option Int
  | finite negative units =>
    if units % one = 0 then
      some (if negative then -((units / one : Nat) : Int) else (units / one : Nat))
    else none
  | _ => none

/-- The value without its fraction. -/
def truncate? : Binary64 → Option Int
  | finite negative units =>
    some (if negative then -((units / one : Nat) : Int) else (units / one : Nat))
  | _ => none

def ofSigned (units : Int) (den : Nat) : Binary64 := ofUnits (units < 0) units.natAbs den

def mul : Binary64 → Binary64 → Binary64
  | finite s a, finite t b => ofUnits (s != t) (a * b) one
  | infinite s, finite t b => if b = 0 then nan else infinite (s != t)
  | finite s a, infinite t => if a = 0 then nan else infinite (s != t)
  | infinite s, infinite t => infinite (s != t)
  | nan, _ => nan
  | _, nan => nan

def add : Binary64 → Binary64 → Binary64
  | finite s a, finite t b =>
    if s = t then ofUnits s (a + b) 1
    else if a = b then zero
    else if a < b then ofUnits t (b - a) 1
    else ofUnits s (a - b) 1
  | infinite s, infinite t => if s = t then infinite s else nan
  | infinite s, finite _ _ => infinite s
  | finite _ _, infinite t => infinite t
  | nan, _ => nan
  | _, nan => nan

/-- The order of two doubles; there is none with a `nan`. -/
def compare? : Binary64 → Binary64 → Option Ordering
  | nan, _ => none
  | _, nan => none
  | infinite s, infinite t => some (if s = t then .eq else if s then .lt else .gt)
  | infinite s, finite _ _ => some (if s then .lt else .gt)
  | finite _ _, infinite t => some (if t then .gt else .lt)
  | x@(finite _ _), y@(finite _ _) => some (compare (x.units?.getD 0) (y.units?.getD 0))

/-- The order of a double and a whole number, without rounding the number. -/
def compareInt? (x : Binary64) (i : Int) : Option Ordering :=
  match x with
  | nan => none
  | infinite s => some (if s then .lt else .gt)
  | finite s a => some (compare (if s then -(a : Int) else a) (i * one))

def equals (x y : Binary64) : Bool := x.compare? y == some .eq

def equalsInt (x : Binary64) (i : Int) : Bool := x.compareInt? i == some .eq

theorem neg_neg (x : Binary64) : x.neg.neg = x := by
  cases x <;> simp [neg]

theorem equals_nan (x : Binary64) : x.equals nan = false := by
  cases x <;> rfl

theorem toInt?_neg (x : Binary64) : x.neg.toInt? = x.toInt?.map (- ·) := by
  cases x with
  | finite s a =>
    simp only [neg, toInt?]
    split
    · cases s <;> simp only [Option.map_some, Bool.not_true, Bool.not_false, Int.neg_neg,
        if_true, Bool.false_eq_true, if_false]
    · rfl
  | infinite s => rfl
  | nan => rfl

end Binary64

end Chronicle.Decimal
