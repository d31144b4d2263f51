import Chronicle.Decimal.Binary64

/-!
# The fewest digits that read back

A finite double owns the interval of values that round to it.  Its shortest decimal is looked for
on the grids of 1, 2, … 17 significant digits: on each grid only the two neighbours of the value
can lie in the interval, and the first grid with a hit wins.

* `Interval.holds_own_value`: a double's own value lies in its interval;
* `hit?_holds`: what the search returns lies in the interval, so it reads back.
-/

namespace Chronicle.Decimal

/-! ## The interval of a double -/

/-- The values, in half units, that round to one double; the ends belong to it or not. -/
structure Interval where
  low : Nat
  high : Nat
  closed : Bool
  deriving Repr

namespace Interval

/-- `num / den` half units lie in the interval. -/
def holds (i : Interval) (num den : Nat) : Bool :=
  if i.closed then i.low * den ≤ num && num ≤ i.high * den
  else i.low * den < num && num < i.high * den

/-- The distance to the next smaller double: below a power of two the doubles lie closer. -/
def spacingBelow (units : Nat) : Nat :=
  let gap := spacing (bitLength units)
  if units = twoTo (bitLength units - 1) then max 1 (gap / 2) else gap

theorem spacingBelow_pos (units : Nat) : 0 < spacingBelow units := by
  have hgap : 0 < spacing (bitLength units) := twoTo_pos _
  unfold spacingBelow
  dsimp only
  split
  · omega
  · exact hgap

/-- The interval of the double of `units`. -/
def ofUnits (units : Nat) : Interval :=
  let gap := spacing (bitLength units)
  ⟨2 * units - spacingBelow units, 2 * units + gap, units / gap % 2 == 0⟩

theorem holds_own_value {units den : Nat} (hu : 0 < units) (hd : 0 < den) :
    (ofUnits units).holds (2 * units * den) den = true := by
  have hgap : 0 < spacing (bitLength units) := twoTo_pos _
  have hbelow := spacingBelow_pos units
  have h1 : (2 * units - spacingBelow units) * den < 2 * units * den :=
    Nat.mul_lt_mul_of_pos_right (by omega) hd
  have h2 : 2 * units * den < (2 * units + spacing (bitLength units)) * den :=
    Nat.mul_lt_mul_of_pos_right (by omega) hd
  unfold ofUnits holds
  dsimp only
  split
  · simp [Nat.le_of_lt h1, Nat.le_of_lt h2]
  · simp [h1, h2]

end Interval

/-! ## The search -/

/-- A positive decimal `digits * 10 ^ exponent`. -/
structure Digits where
  digits : Nat
  exponent : Int
  deriving DecidableEq, Repr

namespace Digits

/-- The decimal in half units, as a quotient. -/
def halfUnits (d : Digits) : Nat × Nat :=
  if 0 ≤ d.exponent then (d.digits * tenTo d.exponent.toNat * (2 * Binary64.one), 1)
  else (d.digits * (2 * Binary64.one), tenTo (-d.exponent).toNat)

/-- Without the zeros at the end. -/
def trimFuel : Nat → Digits → Digits
  | 0, d => d
  | fuel + 1, d =>
    if d.digits ≠ 0 ∧ d.digits % 10 = 0 then trimFuel fuel ⟨d.digits / 10, d.exponent + 1⟩ else d

def trim (d : Digits) : Digits := trimFuel (Nat.toDigits 10 d.digits).length d

def text (d : Digits) : List Char := Nat.toDigits 10 d.digits

end Digits

/-- How many powers of ten a value below one has to be raised to reach it; `num < den`. -/
def leadingZeros : Nat → Nat → Nat → Nat
  | 0, _, _ => 0
  | fuel + 1, num, den => if den ≤ num then 0 else leadingZeros fuel (num * 10) den + 1

/-- The exponent of the first decimal digit of `units`. -/
def decimalExponent (units : Nat) : Int :=
  if Binary64.one ≤ units then ((Nat.toDigits 10 (units / Binary64.one)).length : Int) - 1
  else -(leadingZeros 400 units Binary64.one : Nat)

/-- The two neighbours of a value on the grid of `10 ^ exponent`, the nearer one first and of two
equally near the even one. -/
def neighbours (units : Nat) (exponent : Int) : Digits × Digits :=
  let (num, den) :=
    if 0 ≤ exponent then (units, Binary64.one * tenTo exponent.toNat)
    else (units * tenTo (-exponent).toNat, Binary64.one)
  let q := num / den
  let r := num % den
  let below : Digits := ⟨q, exponent⟩
  let above : Digits := ⟨q + 1, exponent⟩
  if 2 * r < den || (2 * r == den && q % 2 == 0) then (below, above) else (above, below)

/-- A neighbour of the value that reads back. -/
def hit? (units : Nat) (exponent : Int) : Option Digits :=
  let i := Interval.ofUnits units
  let (first, second) := neighbours units exponent
  if i.holds first.halfUnits.1 first.halfUnits.2 then some first
  else if i.holds second.halfUnits.1 second.halfUnits.2 then some second
  else none

theorem hit?_holds {units : Nat} {exponent : Int} {d : Digits} (h : hit? units exponent = some d) :
    (Interval.ofUnits units).holds d.halfUnits.1 d.halfUnits.2 = true := by
  unfold hit? at h
  dsimp only at h
  split at h
  · next h1 => cases h; exact h1
  · split at h
    · next h2 => cases h; exact h2
    · cases h

/-- The first grid, from `count` digits on, with a hit. -/
def searchDigits (units : Nat) (leading : Int) : Nat → Nat → Option Digits
  | 0, _ => none
  | fuel + 1, count =>
    (hit? units (leading - count + 1)).or (searchDigits units leading fuel (count + 1))

/-- The shortest decimal of a positive double. -/
def shortest (units : Nat) : Digits :=
  ((searchDigits units (decimalExponent units) 17 1).getD ⟨units, 0⟩).trim

/-! ## Layout -/

/-- How a decimal is laid out: where the point stands positionally, and what an exponent looks
like. -/
structure Layout where
  /-- Positional for first digits from `10 ^ least` on … -/
  least : Int
  /-- … and below `10 ^ bound`. -/
  bound : Int
  /-- A point and a zero also before an exponent. -/
  pointBeforeExponent : Bool

namespace Layout

def pad2 (n : Nat) : List Char :=
  if n < 10 then '0' :: Nat.toDigits 10 n else Nat.toDigits 10 n

/-- Digits `ds` whose first one stands for `10 ^ leading`. -/
def layOut (l : Layout) (ds : List Char) (leading : Int) : List Char :=
  if l.least ≤ leading ∧ leading < l.bound then
    if leading < 0 then
      ['0', '.'] ++ List.replicate (-leading - 1).toNat '0' ++ ds
    else
      let whole := leading.toNat + 1
      if ds.length ≤ whole then
        ds ++ List.replicate (whole - ds.length) '0' ++ ['.', '0']
      else ds.take whole ++ '.' :: ds.drop whole
  else
    let mantissa := match ds with
      | [] => []
      | [d] => if l.pointBeforeExponent then [d, '.', '0'] else [d]
      | d :: rest => d :: '.' :: rest
    mantissa ++ 'e' :: (if leading < 0 then '-' else '+') :: pad2 leading.natAbs

end Layout

/-- Positional from `0.0001` to below `10 ^ 16`, always with a point; no point is needed before an
exponent, which has at least two digits. -/
def plainLayout : Layout := ⟨-4, 16, false⟩

namespace Binary64

def textChars : Binary64 → List Char
  | nan => ['n', 'a', 'n']
  | infinite s => (if s then ['-'] else []) ++ ['i', 'n', 'f']
  | finite s units =>
    let sign := if s then ['-'] else []
    if units = 0 then sign ++ ['0', '.', '0']
    else
      let d := shortest units
      sign ++ plainLayout.layOut d.text (d.exponent + d.text.length - 1)

/-- The shortest text that reads back as the same double. -/
def text (x : Binary64) : String := String.ofList x.textChars

end Binary64

/-! ## A fixed number of digits -/

/-- Positional below `10 ^ 15`, and a point in every number. -/
def storedLayout : Layout := ⟨-4, 15, true⟩

/-- The value rounded to fifteen significant digits. -/
def fifteenDigits (units : Nat) : Digits :=
  let exponent := decimalExponent units - 14
  let (num, den) :=
    if 0 ≤ exponent then (units, Binary64.one * tenTo exponent.toNat)
    else (units * tenTo (-exponent).toNat, Binary64.one)
  Digits.trim ⟨(2 * num + den) / (2 * den), exponent⟩

namespace Binary64

/-- How a stored number is written where a text is wanted: fifteen significant digits. -/
def storedText : Binary64 → String
  | nan => ""
  | infinite s => if s then "-Inf" else "Inf"
  | finite s units =>
    if units = 0 then "0.0"
    else
      let d := fifteenDigits units
      String.ofList ((if s then ['-'] else []) ++
        storedLayout.layOut d.text (d.exponent + d.text.length - 1))

end Binary64

example : (Binary64.ofDecimal false 1 (-1)).text = "0.1" := by decide +kernel
example : (Binary64.ofDecimal false 15 (-7)).text = "1.5e-06" := by decide +kernel
example : (Binary64.ofInt (tenTo 16)).text = "1e+16" := by decide +kernel
example : (Binary64.finite false 1).text = "5e-324" := by decide +kernel

end Chronicle.Decimal
