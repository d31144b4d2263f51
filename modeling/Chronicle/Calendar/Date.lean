/-!
# Calendar dates

Dates of the Gregorian calendar, carried back before its introduction, in the years 1 to 9999.

* `Date`: year, month and day, with the proof that the calendar has them;
* `Date.ordinal`: days counted from the first of January of the year 1, which is day 1;
* `Date.ofOrdinal?`: the date of a count of days;
* `Date.shiftMonths?`: as many months later or earlier, at the end of a month that is too short.
-/

namespace Chronicle.Calendar

def minYear : Nat := 1
def maxYear : Nat := 9999

def isLeap (year : Nat) : Bool := year % 4 == 0 && (year % 100 != 0 || year % 400 == 0)

/-- Days of a month; zero for a month that does not exist. -/
def daysInMonth (year month : Nat) : Nat :=
  match month with
  | 1 => 31
  | 2 => if isLeap year then 29 else 28
  | 3 => 31
  | 4 => 30
  | 5 => 31
  | 6 => 30
  | 7 => 31
  | 8 => 31
  | 9 => 30
  | 10 => 31
  | 11 => 30
  | 12 => 31
  | _ => 0

theorem daysInMonth_le (year month : Nat) : daysInMonth year month ≤ 31 := by
  unfold daysInMonth
  split <;> try omega
  split <;> omega

theorem daysInMonth_ge (year : Nat) {month : Nat} (h1 : 1 ≤ month) (h2 : month ≤ 12) :
    28 ≤ daysInMonth year month := by
  have : month = 1 ∨ month = 2 ∨ month = 3 ∨ month = 4 ∨ month = 5 ∨ month = 6 ∨ month = 7 ∨
      month = 8 ∨ month = 9 ∨ month = 10 ∨ month = 11 ∨ month = 12 := by omega
  rcases this with h | h | h | h | h | h | h | h | h | h | h | h <;> subst h <;>
    simp only [daysInMonth] <;> try omega
  split <;> omega

/-! ## The type -/

structure Date where
  year : Nat
  month : Nat
  day : Nat
  year_range : minYear ≤ year ∧ year ≤ maxYear
  month_range : 1 ≤ month ∧ month ≤ 12
  day_range : 1 ≤ day ∧ day ≤ daysInMonth year month
  deriving DecidableEq, Repr

namespace Date

instance : Inhabited Date := ⟨⟨1, 1, 1, by decide, by decide, by decide⟩⟩

/-- The date of a year, month and day, where the calendar has it. -/
def ofFields? (year month day : Nat) : Option Date :=
  if hy : minYear ≤ year ∧ year ≤ maxYear then
    if hm : 1 ≤ month ∧ month ≤ 12 then
      if hd : 1 ≤ day ∧ day ≤ daysInMonth year month then
        some ⟨year, month, day, hy, hm, hd⟩
      else none
    else none
  else none

theorem ofFields?_self (d : Date) : ofFields? d.year d.month d.day = some d := by
  simp [ofFields?, d.year_range, d.month_range, d.day_range]

theorem fields_of_ofFields? {y m n : Nat} {d : Date} (h : ofFields? y m n = some d) :
    d.year = y ∧ d.month = m ∧ d.day = n := by
  unfold ofFields? at h
  split at h <;> try cases h
  split at h <;> try cases h
  split at h <;> try cases h
  exact ⟨rfl, rfl, rfl⟩

/-! ## Counting days -/

def daysBeforeYear (year : Nat) : Nat :=
  (year - 1) * 365 + (year - 1) / 4 - (year - 1) / 100 + (year - 1) / 400

/-- Days of the year before the first of a month. -/
def daysBeforeMonth (year : Nat) : Nat → Nat
  | 0 => 0
  | 1 => 0
  | month + 1 => daysBeforeMonth year month + daysInMonth year month

/-- The number of the day, from 1 for the first day of the year 1. -/
def ordinal (d : Date) : Nat := daysBeforeYear d.year + daysBeforeMonth d.year d.month + d.day

/-- The number of the last day there is. -/
def maxOrdinal : Nat := 3652059

/-- The month and day in which the day `rest`, counted from zero in `month` on, falls; at most
`fuel` months later. -/
def monthOfDay (year : Nat) : Nat → Nat → Nat → Nat × Nat
  | 0, month, rest => (month, rest)
  | fuel + 1, month, rest =>
    if rest < daysInMonth year month then (month, rest)
    else monthOfDay year fuel (month + 1) (rest - daysInMonth year month)

/-- The date of a day's number.  Whole cycles of 400, 100, 4 and 1 years are split off; the last
day of a leap year would begin a fourth century, or a fourth year, and stays in the third. -/
def ofOrdinal? (n : Nat) : Option Date :=
  if n = 0 then none
  else
    let days := n - 1
    let c400 := days / 146097
    let r400 := days % 146097
    let c100 := min (r400 / 36524) 3
    let r100 := r400 - c100 * 36524
    let c4 := r100 / 1461
    let r4 := r100 % 1461
    let c1 := min (r4 / 365) 3
    let rest := r4 - c1 * 365
    let year := c400 * 400 + c100 * 100 + c4 * 4 + c1 + 1
    let (month, day) := monthOfDay year 11 1 rest
    ofFields? year month (day + 1)

example : (ofFields? 9999 12 31).map ordinal = some maxOrdinal := by decide +kernel
example : ((ofFields? 2024 2 29).map ordinal).bind ofOrdinal? = ofFields? 2024 2 29 := by
  decide +kernel

/-- Monday is 0. -/
def weekday (d : Date) : Nat := (d.ordinal + 6) % 7

/-! ## Order -/

/-- Calendar order, as the order of one number. -/
def key (d : Date) : Nat := (d.year * 13 + d.month) * 32 + d.day

theorem key_inj {a b : Date} (h : a.key = b.key) : a = b := by
  obtain ⟨y, m, d, hy, hm, hd⟩ := a
  obtain ⟨y', m', d', hy', hm', hd'⟩ := b
  have h1 := daysInMonth_le y m
  have h2 := daysInMonth_le y' m'
  simp only [key] at h
  have hd2 : d = d' := by omega
  have hm2 : m = m' := by omega
  have hy2 : y = y' := by omega
  subst hd2 hm2 hy2
  rfl

/-! ## Shifting by months -/

/-- Months counted from January of the year 0. -/
def monthNumber (d : Date) : Int := 12 * d.year + (d.month - 1)

/-- The same day `months` later, or the last day of that month if it is shorter.  There is no
result outside the calendar. -/
def shiftMonths? (d : Date) (months : Int) : Option Date :=
  let number := d.monthNumber + months
  let year := number / 12
  let month := (number % 12).toNat + 1
  if 0 ≤ year then
    ofFields? year.toNat month (min d.day (daysInMonth year.toNat month))
  else none

theorem shiftMonths?_zero (d : Date) : d.shiftMonths? 0 = some d := by
  have hy := d.year_range
  have hm := d.month_range
  have hd := d.day_range
  have e1 : (d.monthNumber + 0) / 12 = d.year := by
    simp only [monthNumber]; omega
  have e2 : ((d.monthNumber + 0) % 12).toNat + 1 = d.month := by
    simp only [monthNumber]; omega
  unfold shiftMonths?
  simp only [e1, e2, Int.toNat_natCast]
  rw [if_pos (by omega), Nat.min_eq_left hd.2, ofFields?_self]

/-! ## Text -/

def padded (width n : Nat) : List Char :=
  let digits := Nat.toDigits 10 n
  List.replicate (width - digits.length) '0' ++ digits

/-- Year, month and day with four, two and two digits, parted by hyphens. -/
def textChars (d : Date) : List Char :=
  padded 4 d.year ++ '-' :: padded 2 d.month ++ '-' :: padded 2 d.day

def text (d : Date) : String := String.ofList d.textChars

end Date

end Chronicle.Calendar
