import Chronicle.Calendar.Iso
import Chronicle.Record.Reading

/-!
# Moments in plain data

In plain data a moment is itself, a date, a count of seconds or milliseconds since 1970, or a text
after RFC 3339.

* `momentOfCount`: a count, of seconds up to a watershed and of milliseconds beyond it;
* `timedMoment?`: a date and a time of day with hours and minutes at least;
* `moment`: any of these forms.
-/

namespace Chronicle.Record

open Chronicle.Calendar Chronicle.Decimal Chronicle.Text

/-! ## Counts -/

/-- The largest number that counts seconds; beyond it milliseconds are counted. -/
def secondsWatershed : Nat := 20000000000

/-- Microseconds from the beginning of the year 1 to that of 1970. -/
def epochMicros : Int := 719162 * microsPerDay

/-- The first and the last second that a count can be of: the years 1600 to 9999. -/
def firstSecond : Int := -11676096000
def lastSecond : Int := 253402300799

/-- A moment by its seconds since 1970 and microseconds after these. -/
def momentOfSeconds (seconds micros : Int) : Checked Moment :=
  let whole := seconds + micros / microsPerSecond
  if firstSecond ≤ whole ∧ whole ≤ lastSecond then
    (Moment.ofWallMicros? (epochMicros + seconds * microsPerSecond + micros) (some 0)).elim
      (refuse "datetime_parsing") .ok
  else refuse "datetime_parsing"

/-- A moment by its count since 1970 and microseconds after that. -/
def momentOfCount (count micros : Int) : Checked Moment :=
  if secondsWatershed < count.natAbs then
    momentOfSeconds (count / 1000) (count % 1000 * 1000 + micros)
  else momentOfSeconds count micros

/-- The fraction of a float in microseconds, with a half rounded up. -/
def fractionMicros (units : Nat) : Nat :=
  let product := Binary64.ofQuotient false (units % Binary64.one * microsPerSecond) Binary64.one
  match product with
  | .finite _ u => (2 * u + Binary64.one) / (2 * Binary64.one)
  | _ => 0

def momentOfFloat : Binary64 → Checked Moment
  | .finite negative units =>
    let value : Int := if negative then -(units : Int) else units
    momentOfCount (value / Binary64.one) (fractionMicros units)
  | _ => refuse "datetime_parsing"

/-! ## Texts -/

/-- A count in a text: digits after at most one sign. -/
def countOfText? (cs : List Char) : Option Int :=
  let (negative, ds) := takeSign cs
  if ds.isEmpty || !ds.all isAsciiDigit then none
  else
    let i : Int := if negative then -(digitsValue ds : Int) else digitsValue ds
    if isShort i then some i else none

/-- A count with decimals after a point: six of them for seconds, three for milliseconds. -/
def momentOfCountText? (cs : List Char) : Option (Checked Moment) := do
  let count ← countOfText? (cs.takeWhile (· != '.'))
  match (cs.dropWhile (· != '.')).drop 1 with
  | [] => return momentOfCount count 0
  | decimals =>
    let fraction ← countOfText? decimals
    let places := if (secondsWatershed : Int) < count then 3 else 6
    let scaled := 2 * fraction.toNat * tenTo places + tenTo decimals.length
    return momentOfCount count ((scaled / (2 * tenTo decimals.length) : Nat) : Int)

/-- The character, taken from the front. -/
def takeChar? (accepts : Char → Bool) : List Char → Option (List Char)
  | c :: cs => if accepts c then some cs else none
  | [] => none

/-- Two digits, whose number is below a bound. -/
def takeTwo? (bound : Nat) (cs : List Char) : Option (Nat × List Char) := do
  let (n, rest) ← takeNumber 2 cs
  if n < bound then return (n, rest) else none

theorem takeTwo?_lt {bound n : Nat} {cs rest : List Char}
    (h : takeTwo? bound cs = some (n, rest)) : n < bound ∧ rest.length + 2 = cs.length := by
  unfold takeTwo? at h
  cases hn : takeNumber 2 cs with
  | none => simp [hn] at h
  | some p =>
    obtain ⟨m, r⟩ := p
    by_cases hb : m < bound
    · simp [hn, hb] at h
      obtain ⟨rfl, rfl⟩ := h
      exact ⟨hb, takeNumber_length hn⟩
    · simp [hn, hb] at h

/-- Seconds and microseconds, which need not be there; digits after the sixth are dropped. -/
def takeSeconds? : List Char → Option (Nat × List Char)
  | ':' :: cs => do
    let (seconds, rest) ← takeTwo? 60 cs
    match rest with
    | c :: decimals =>
      if c == '.' || c == ',' then
        let ds := decimals.takeWhile isAsciiDigit
        if ds.isEmpty then none
        else
          let six := ds.take 6
          return (seconds * microsPerSecond + digitsValue six * tenTo (6 - six.length),
            decimals.dropWhile isAsciiDigit)
      else return (seconds * microsPerSecond, rest)
    | [] => return (seconds * microsPerSecond, [])
  | cs => some (0, cs)

/-- The microseconds of a time of day. -/
def takeTime? (cs : List Char) : Option (Nat × List Char) := do
  let (hours, cs) ← takeTwo? 24 cs
  let (minutes, cs) ← takeTwo? 60 (← takeChar? (· == ':') cs)
  let (micros, cs) ← takeSeconds? cs
  return ((hours * 60 + minutes) * 60 * microsPerSecond + micros, cs)

/-- An offset that fills the text: none, `Z`, or a sign with hours and minutes. -/
def offsetOfText? : List Char → Option (Option Int)
  | [] => some none
  | ['Z'] | ['z'] => some (some 0)
  | c :: cs => do
    let sign : Int ← if c == '+' then some 1 else if c == '-' || c == '−' then some (-1) else none
    let (hours, cs) ← takeTwo? 24 cs
    let cs := (takeChar? (· == ':') cs).getD cs
    let (minutes, rest) ← takeTwo? 60 cs
    if rest.isEmpty then return some (sign * ((hours * 60 + minutes) * 60 * microsPerSecond : Nat))
    else none

/-- The date at the front of a text, with hyphens. -/
def takeDate? (cs : List Char) : Option (Date × List Char) := do
  let (year, cs) ← takeNumber 4 cs
  let (month, cs) ← takeNumber 2 (← takeChar? (· == '-') cs)
  let (day, cs) ← takeNumber 2 (← takeChar? (· == '-') cs)
  return ((← Date.ofFields? year month day), cs)

/-- The character between a date and a time. -/
def isTimeMark (c : Char) : Bool := c == 'T' || c == 't' || c == ' ' || c == '_'

/-- A date and a time of day, with an offset or without. -/
def timedMoment? (cs : List Char) : Option Moment := do
  let (date, cs) ← takeDate? cs
  let (micros, cs) ← takeTime? (← takeChar? isTimeMark cs)
  let offset ← offsetOfText? cs
  if h : micros < microsPerDay then return ⟨date, micros, offset, h⟩ else none

/-- A date alone is the beginning of its day. -/
def dateMoment? (cs : List Char) : Option Moment := do
  let (date, rest) ← takeDate? cs
  if rest.isEmpty then return ⟨date, 0, none, microsPerDay_pos⟩ else none

def momentOfText (cs : List Char) : Checked Moment :=
  match timedMoment? cs with
  | some m => .ok m
  | none =>
    match momentOfCountText? cs with
    | some (.ok m) => .ok m
    | _ => (dateMoment? cs).elim (refuse "datetime_from_date_parsing") .ok

/-! ## Any form -/

/-- A moment, also as a date, a count or a text. -/
def moment : Value → Checked Moment
  | .scalar (.moment m) => .ok m
  | .scalar (.date d) => .ok ⟨d, 0, none, microsPerDay_pos⟩
  | .scalar (.int i) => if isShort i then momentOfCount i 0 else refuse "datetime_parsing"
  | .scalar (.float x) => momentOfFloat x
  | .scalar (.text s) => momentOfText s.toList
  | _ => refuse "datetime_type"

end Chronicle.Record
