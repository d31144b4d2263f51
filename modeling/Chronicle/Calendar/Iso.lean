import Chronicle.Calendar.Moment
import Chronicle.Decimal.Power
import Chronicle.Text.Digit

/-!
# Reading moments written after ISO 8601

Dates are written with or without hyphens, as year, month and day or as year, week and day; a time
of day follows after one character of any kind, and an offset from UTC after the time.

* `readDate`: the date, which has to fill its text;
* `readClock`: hours, minutes, seconds and a fraction, each part optional from the minutes on;
* `Moment.ofIso?`: all together.
-/

namespace Chronicle.Calendar

open Chronicle.Text

/-! ## Numbers of fixed width -/

/-- The number in the first `width` characters, which all have to be ASCII digits. -/
def takeNumber (width : Nat) (cs : List Char) : Option (Nat × List Char) :=
  let ds := cs.take width
  if ds.length = width ∧ ds.all isAsciiDigit then some (digitsValue ds, cs.drop width) else none

theorem takeNumber_length {width : Nat} {cs rest : List Char} {n : Nat}
    (h : takeNumber width cs = some (n, rest)) : rest.length + width = cs.length := by
  unfold takeNumber at h
  dsimp only at h
  split at h
  · next hw =>
    cases h
    have := hw.1
    simp only [List.length_take, List.length_drop] at *
    omega
  · cases h

/-! ## Dates -/

/-- The number of the Monday that begins the first week of a year: the week of its first
Thursday.  It may lie before the first day of the year 1. -/
def firstMonday (year : Nat) : Int :=
  let first : Int := (Date.daysBeforeYear year + 1 : Nat)
  let weekday := (first + 6) % 7
  if weekday > 3 then first - weekday + 7 else first - weekday

/-- Whether a year has a week 53: it begins with a Thursday, or with a Wednesday and is leap. -/
def hasWeek53 (year : Nat) : Bool :=
  let weekday := (Date.daysBeforeYear year) % 7
  weekday == 3 || (weekday == 2 && isLeap year)

/-- The date of a day, 1 to 7 from Monday on, in a week of a year. -/
def ofWeek? (year week day : Nat) : Option Date :=
  if minYear ≤ year ∧ 1 ≤ week ∧ (week < 53 ∨ week = 53 ∧ hasWeek53 year) ∧ 1 ≤ day ∧ day ≤ 7 then
    let number := firstMonday year + (week - 1) * 7 + (day - 1)
    if 0 < number then Date.ofOrdinal? number.toNat else none
  else none

/-- A date that fills the text. -/
def readDate (cs : List Char) : Option Date := do
  let (year, cs) ← takeNumber 4 cs
  let hyphens := cs.head? == some '-'
  let cs := if hyphens then cs.tail else cs
  if cs.head? == some 'W' then
    let (week, cs) ← takeNumber 2 cs.tail
    if cs.isEmpty then ofWeek? year week 1
    else
      let cs ← if hyphens then (if cs.head? == some '-' then some cs.tail else none) else some cs
      let (day, cs) ← takeNumber 1 cs
      if cs.isEmpty then ofWeek? year week day else none
  else
    let (month, cs) ← takeNumber 2 cs
    let cs ← if hyphens then (if cs.head? == some '-' then some cs.tail else none) else some cs
    let (day, cs) ← takeNumber 2 cs
    if cs.isEmpty then Date.ofFields? year month day else none

/-- How many characters the date takes.  A week date may or may not name the day, and what follows
then decides: after hyphens a single digit is a day, two digits are an hour; without hyphens the
parity of the digits tells. -/
def dateLength (cs : List Char) : Option Nat :=
  let n := cs.length
  if n = 7 then some 7
  else if cs[4]? == some '-' then
    if cs[5]? == some 'W' then
      if n < 8 then none
      else if 8 < n ∧ cs[8]? == some '-' then
        if n = 9 then none
        else if 10 < n ∧ (cs[10]?).elim false isAsciiDigit then some 8
        else some 10
      else some 8
    else some 10
  else if cs[4]? == some 'W' then
    let pos := 7 + ((cs.drop 7).takeWhile isAsciiDigit).length
    if pos < 9 then some pos else if pos % 2 = 0 then some 7 else some 8
  else some 8

/-! ## Times of day -/

/-- What is read of a time of day, and whether that was all. -/
structure Clock where
  fields : List Nat
  micros : Nat
  complete : Bool
  deriving DecidableEq, Repr

namespace Clock

def hour (c : Clock) : Nat := (c.fields[0]?).getD 0
def minute (c : Clock) : Nat := (c.fields[1]?).getD 0
def second (c : Clock) : Nat := (c.fields[2]?).getD 0
def seconds (c : Clock) : Nat := c.hour * 3600 + c.minute * 60 + c.second

/-- A clock shows hours below 24, minutes and seconds below 60. -/
def isTimeOfDay (c : Clock) : Bool := c.hour < 24 && c.minute < 60 && c.second < 60

end Clock

/-- A text ends with its characters or with a zero character. -/
def atEnd : List Char → Bool
  | [] => true
  | c :: _ => c == '\x00'

/-- The decimals after the seconds: six of them count, further digits are dropped. -/
def readFraction (fields : List Nat) (cs : List Char) : Option Clock :=
  let ds := cs.take 6
  if ds.all isAsciiDigit then
    some ⟨fields, digitsValue ds * Decimal.tenTo (6 - ds.length), atEnd ((cs.drop 6).dropWhile isAsciiDigit)⟩
  else none

def isAscii (c : Char) : Bool := c.toNat < 128

/-- Up to `count` more fields of two digits.  Colons between all of them or none; a point or comma
ends them, and so does the third one.  One more character after them is left over if it is ASCII. -/
def readFields : Nat → Option Bool → List Nat → List Char → Option Clock
  | 0, _, fields, cs => readFraction fields cs
  | count + 1, colons, fields, cs => do
    let (value, rest) ← takeNumber 2 cs
    let fields := fields ++ [value]
    match rest with
    | [] => some ⟨fields, 0, true⟩
    | [c] => if isAscii c then some ⟨fields, 0, c == '\x00'⟩ else none
    | c :: rest' =>
      let colons := colons.getD (c == ':')
      if colons && c == ':' then readFields count (some colons) fields rest'
      else if c == '.' || c == ',' then readFraction fields rest'
      else if colons then none
      else readFields count (some colons) fields rest

def readClock (cs : List Char) : Option Clock := readFields 3 none [] cs

/-! ## Offsets -/

def isOffsetMark (c : Char) : Bool := c == '+' || c == '-' || c == 'Z'

/-- The offset in microseconds; an offset of less than a second is none at all, and one of a day
or more does not exist. -/
def readOffset (mark : Char) (cs : List Char) : Option Int := do
  if mark == 'Z' then
    if atEnd cs then some 0 else none
  else
    let c ← readClock cs
    let micros := c.seconds * microsPerSecond + c.micros
    if !c.complete || microsPerDay ≤ micros then none
    else if c.seconds = 0 then some 0
    else some (if mark == '-' then -(micros : Int) else micros)

/-- Time of day and offset. -/
def readTime (cs : List Char) : Option (Clock × Option Int) := do
  let c ← readClock (cs.takeWhile (!isOffsetMark ·))
  match cs.dropWhile (!isOffsetMark ·) with
  | [] => if c.complete then some (c, none) else none
  | mark :: rest => some (c, some (← readOffset mark rest))

namespace Moment

def ofClock? (date : Date) (c : Clock) (offset : Option Int) : Option Moment :=
  let micros := c.seconds * microsPerSecond + c.micros
  if h : micros < microsPerDay then
    if c.isTimeOfDay then some ⟨date, micros, offset, h⟩ else none
  else none

/-- The moment a text denotes after ISO 8601. -/
def ofIso? (cs : List Char) : Option Moment := do
  if cs.length < 7 then none
  let n ← dateLength cs
  let date ← readDate (cs.take n)
  match cs.drop n with
  | [] => ofClock? date ⟨[], 0, true⟩ none
  | _ :: time =>
    let (c, offset) ← readTime time
    ofClock? date c offset

end Moment

example : (Moment.ofIso? "2022-W01-1".toList).map Moment.text = some "2022-01-03T00:00:00" := by
  decide +kernel
example : (Moment.ofIso? "20220101T123456,5-0030".toList).map Moment.text =
    some "2022-01-01T12:34:56.500000-00:30" := by decide +kernel

end Chronicle.Calendar
