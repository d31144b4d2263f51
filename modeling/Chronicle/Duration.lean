import Chronicle.Calendar.Moment
import Chronicle.Decimal.Numeral
import Chronicle.Decimal.Shortest
import Chronicle.Failure

/-!
# Durations

A duration has signed components, from years down to seconds, and is read and written after
ISO 8601 (`P1Y2M`, `-P1D`, `PT0.5S`).  Years and months are kept apart from days because they
have no fixed length.

* `Duration.read`: the grammar, as one pass over the units in their order;
* `Duration.text`: the components that are not zero;
* `Duration.apply`: months first, at the end of a month that is too short, then the rest as a
  fixed span.
-/

namespace Chronicle

open Chronicle.Calendar Chronicle.Decimal Chronicle.Text

/-! ## The type -/

/-- Seconds are a whole number or a double. -/
inductive Seconds
  | whole (n : Int)
  | decimal (x : Binary64)
  deriving DecidableEq, Repr, Inhabited

namespace Seconds

def isZero : Seconds → Bool
  | whole n => n == 0
  | decimal x => x.isZero

/-- The whole number the seconds are, if they are one. -/
def toInt? : Seconds → Option Int
  | whole n => some n
  | decimal x => x.toInt?

/-- The reason why seconds cannot be counted. -/
def failure? : Seconds → Option Failure
  | decimal (.infinite _) => some .outOfCalendar
  | decimal .nan => some .notANumber
  | _ => none

def text (s : Seconds) : String :=
  match s.toInt?, s with
  | some n, _ => toString n
  | none, decimal x => x.text
  | none, whole n => toString n

/-- In units of `2 ^ -1074` microseconds.  The whole seconds are exact and only the fraction is
rounded to a double when it is scaled. -/
def microUnits : Seconds → Int
  | whole n => n * microsPerSecond * Binary64.one
  | decimal (.finite negative units) =>
    let fraction := roundUnits (units % Binary64.one * microsPerSecond) 1
    let total : Int := units / Binary64.one * microsPerSecond * Binary64.one + fraction
    if negative then -total else total
  | decimal _ => 0

end Seconds

structure Duration where
  years : Int
  months : Int
  weeks : Int
  days : Int
  hours : Int
  minutes : Int
  seconds : Seconds
  deriving DecidableEq, Repr, Inhabited

namespace Duration

def zero : Duration := ⟨0, 0, 0, 0, 0, 0, .decimal .zero⟩

def isZero (d : Duration) : Bool :=
  d.years == 0 && d.months == 0 && d.weeks == 0 && d.days == 0 && d.hours == 0 &&
    d.minutes == 0 && d.seconds.isZero

/-! ## Writing -/

def component (value : Int) (unit : String) : String :=
  if value = 0 then "" else toString value ++ unit

/-- The components in their order, those that are zero left out; the date part may be empty, and
the time part is announced by a `T`. -/
def text (d : Duration) : String :=
  let time := component d.hours "H" ++ component d.minutes "M" ++
    (if d.seconds.isZero then "" else d.seconds.text ++ "S")
  "P" ++ component d.years "Y" ++ component d.months "M" ++ component d.weeks "W" ++
    component d.days "D" ++ (if time = "" then "" else "T" ++ time)

/-! ## Reading -/

/-- A numeral directly followed by `unit`; only seconds may have a fraction. -/
def takeComponent (unit : Char) (fractional : Bool) (cs : List Char) :
    Option (Numeral × List Char) :=
  let (negative, body) := takeSign cs
  let whole := body.takeWhile isDigit
  let rest := body.dropWhile isDigit
  if whole.isEmpty then none
  else match rest with
    | [] => none
    | c :: rest =>
      if c == unit then some (⟨negative, whole, [], 0, true⟩, rest)
      else if fractional && c == '.' then
        let fraction := rest.takeWhile isDigit
        match rest.dropWhile isDigit with
        | u :: rest =>
          if u == unit && !fraction.isEmpty then some (⟨negative, whole, fraction, 0, false⟩, rest) else none
        | [] => none
      else none

/-- The components of the given units, each at most once and in this order. -/
def takeComponents : List Char → List Char → List (Option Numeral) × List Char
  | [], cs => ([], cs)
  | unit :: units, cs =>
    match takeComponent unit (unit == 'S') cs with
    | some (n, rest) =>
      let (found, rest) := takeComponents units rest
      (some n :: found, rest)
    | none =>
      let (found, rest) := takeComponents units cs
      (none :: found, rest)

/-- Numbers with more digits than this are not read. -/
def maxDigits : Nat := 4300

/-- A component as a whole number with the overall sign. -/
def wholeComponent (negative : Bool) : Option Numeral → Except Failure Int
  | none => .ok 0
  | some n =>
    if maxDigits < n.whole.length then .error .numberTooLong
    else .ok (if negative then -n.toInt else n.toInt)

def secondsComponent (negative : Bool) : Option Numeral → Seconds
  | none => .decimal .zero
  | some n => .decimal (if negative then n.toBinary64.neg else n.toBinary64)

/-- What follows the components: nothing, or one line end. -/
def isEnd (cs : List Char) : Bool := cs == [] || cs == ['\n']

/-- The overall sign and the seven components, if the text follows the grammar. -/
def scan (cs : List Char) : Option (Bool × List (Option Numeral)) :=
  let (negative, cs) := takeSign cs
  match cs with
  | 'P' :: cs =>
    let (date, cs) := takeComponents ['Y', 'M', 'W', 'D'] cs
    let (time, cs) := match cs with
      | 'T' :: cs => takeComponents ['H', 'M', 'S'] cs
      | cs => ([none, none, none], cs)
    if isEnd cs && (date ++ time).any Option.isSome then some (negative, date ++ time) else none
  | _ => none

/-- A duration in the grammar of ISO 8601, in capital letters. -/
def read (text : String) : Except Failure Duration := do
  let cs := text.toList
  match scan cs with
  | some (negative, [years, months, weeks, days, hours, minutes, seconds]) =>
    if cs.getLast? == some 'T' then throw (.invalidDuration text)
    return {
      years := ← wholeComponent negative years
      months := ← wholeComponent negative months
      weeks := ← wholeComponent negative weeks
      days := ← wholeComponent negative days
      hours := ← wholeComponent negative hours
      minutes := ← wholeComponent negative minutes
      seconds := secondsComponent negative seconds }
  | _ => throw (.invalidDuration text)

/-! ## Applying -/

/-- Years beyond this range cannot even be named. -/
def isNameableYear (year : Int) : Bool := -2147483648 ≤ year && year ≤ 2147483647

/-- As many months later; a month that is too short gives its last day. -/
def shiftMonths (m : Moment) (months : Int) : Except Failure Moment :=
  if months = 0 then .ok m
  else match m.date.shiftMonths? months with
    | some date => .ok { m with date := date }
    | none =>
      if isNameableYear ((m.date.monthNumber + months) / 12) then .error .yearOutOfRange
      else .error .outOfCalendar

/-- A quotient to the nearest whole number, a half to the even one. -/
def roundInt (num : Int) (den : Nat) : Int :=
  if num < 0 then -(roundHalfEven num.natAbs den : Int) else roundHalfEven num.natAbs den

/-- Weeks to seconds as a span of microseconds. -/
def span (d : Duration) : Int :=
  let minutes := (d.weeks * 7 + d.days) * 1440 + d.hours * 60 + d.minutes
  roundInt (minutes * 60 * microsPerSecond * Binary64.one + d.seconds.microUnits) Binary64.one

/-- The longest span there is, in days. -/
def maxSpanDays : Int := 999999999

def fitsSpan (micros : Int) : Bool :=
  -maxSpanDays ≤ micros / microsPerDay && micros / microsPerDay ≤ maxSpanDays

/-- The moment a duration later, on the same clock. -/
def apply (d : Duration) (m : Moment) : Except Failure Moment := do
  let m ← shiftMonths m (d.years * 12 + d.months)
  if let some f := d.seconds.failure? then throw f
  if !fitsSpan d.span then throw .outOfCalendar
  match Moment.ofWallMicros? (m.wallMicros + d.span) m.offset with
  | some m => return m
  | none => throw .outOfCalendar

theorem shiftMonths_zero (m : Moment) : shiftMonths m 0 = .ok m := by
  simp [shiftMonths]

example : (read "-P1Y2MT0.5S").toOption.map text = some "P-1Y-2MT-0.5S" := by decide +kernel

end Duration

end Chronicle
