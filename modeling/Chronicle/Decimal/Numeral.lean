import Chronicle.Decimal.Binary64
import Chronicle.Text.Digit

/-!
# Reading numbers

Whole numbers and decimals with a point and an exponent, in ASCII digits.  A reader returns what it
has read and the rest of the text.
-/

namespace Chronicle.Decimal

open Chronicle.Text

/-- A decimal as written: a sign, digits, digits after the point, and an exponent. -/
structure Numeral where
  negative : Bool
  whole : List Char
  fraction : List Char
  exponent : Int
  /-- Neither point nor exponent was written. -/
  plain : Bool
  deriving DecidableEq, Repr

namespace Numeral

def toInt (n : Numeral) : Int :=
  if n.negative then -(digitsValue n.whole : Int) else digitsValue n.whole

def toBinary64 (n : Numeral) : Binary64 :=
  Binary64.ofDecimal n.negative (digitsValue (n.whole ++ n.fraction))
    (n.exponent - n.fraction.length)

/-- An exponent, if a whole one is there: a letter, a sign that may be missing, and digits. -/
def takeExponent : List Char → Option (Int × List Char)
  | c :: cs =>
    if c == 'e' || c == 'E' then
      let (negative, cs) := takeSign cs
      let ds := cs.takeWhile isAsciiDigit
      if ds.isEmpty then none
      else
        let n : Int := digitsValue ds
        some (if negative then -n else n, cs.dropWhile isAsciiDigit)
    else none
  | [] => none

/-- The longest numeral at the start of a text; it needs a digit before or after the point. -/
def take (cs : List Char) : Option (Numeral × List Char) :=
  let (negative, cs) := takeSign cs
  let whole := cs.takeWhile isAsciiDigit
  let rest := cs.dropWhile isAsciiDigit
  let (point, fraction, rest) := match rest with
    | '.' :: more => (true, more.takeWhile isAsciiDigit, more.dropWhile isAsciiDigit)
    | rest => (false, [], rest)
  if whole.isEmpty && fraction.isEmpty then none
  else match takeExponent rest with
    | some (e, rest) => some (⟨negative, whole, fraction, e, false⟩, rest)
    | none => some (⟨negative, whole, fraction, 0, !point⟩, rest)

/-- A numeral that is the whole text. -/
def ofChars? (cs : List Char) : Option Numeral :=
  match take cs with
  | some (n, []) => some n
  | _ => none

end Numeral

namespace Binary64

/-- The double a text denotes: a numeral, `inf` or `nan`, with a sign. -/
def ofText? (s : String) : Option Binary64 :=
  match Numeral.ofChars? s.toList with
  | some n => some n.toBinary64
  | none =>
    if s == "inf" then some (.infinite false)
    else if s == "-inf" then some (.infinite true)
    else if s == "nan" then some .nan
    else none

end Binary64

example : Binary64.ofText? "25e-1" = some (Binary64.ofQuotient false 5 2) := by decide +kernel

end Chronicle.Decimal
