import Chronicle.Calendar.Date

/-!
# Moments and instants

A moment is what a clock on a wall shows, with or without the offset of that clock from UTC; an
instant is a point in time.  A moment without an offset is taken to be in UTC already.

* `Moment.instant?`: the point in time of a moment, if it lies within the years 1 to 9999;
* `Instant.moment`: an instant as a clock in UTC shows it;
* `Moment.text`, `Instant.key`: both written after ISO 8601.
-/

namespace Chronicle.Calendar

def microsPerSecond : Nat := 1000000
def microsPerDay : Nat := 86400 * microsPerSecond

theorem microsPerDay_pos : 0 < microsPerDay := by decide

/-- The time shown by a clock. -/
structure Moment where
  date : Date
  /-- Microseconds since midnight. -/
  micros : Nat
  /-- Microseconds that the clock is ahead of UTC, if that is known. -/
  offset : Option Int
  micros_lt : micros < microsPerDay
  deriving DecidableEq, Repr

instance : Inhabited Moment := ⟨⟨default, 0, none, microsPerDay_pos⟩⟩

/-- A point in time: microseconds since the beginning of the year 1 in UTC. -/
structure Instant where
  micros : Nat
  deriving DecidableEq, Repr, Inhabited, Ord

namespace Instant

/-- The number of instants. -/
def bound : Nat := Date.maxOrdinal * microsPerDay

/-- The instant of a count of microseconds, if it lies within the calendar. -/
def ofMicros? (micros : Int) : Option Instant :=
  if 0 ≤ micros ∧ micros < (bound : Int) then some ⟨micros.toNat⟩ else none

theorem ofMicros?_eq_some {m : Int} {i : Instant} (h : ofMicros? m = some i) :
    (i.micros : Int) = m ∧ i.micros < bound := by
  unfold ofMicros? at h
  split at h
  · next hm =>
    cases h
    simp only
    omega
  · cases h

theorem ofMicros?_natCast {n : Nat} (h : n < bound) : ofMicros? n = some ⟨n⟩ := by
  simp [ofMicros?, h]

instance : LT Instant := ⟨fun a b => a.micros < b.micros⟩
instance : LE Instant := ⟨fun a b => a.micros ≤ b.micros⟩

instance (a b : Instant) : Decidable (a < b) := inferInstanceAs (Decidable (a.micros < b.micros))
instance (a b : Instant) : Decidable (a ≤ b) := inferInstanceAs (Decidable (a.micros ≤ b.micros))

theorem lt_iff (a b : Instant) : a < b ↔ a.micros < b.micros := Iff.rfl

theorem le_iff (a b : Instant) : a ≤ b ↔ a.micros ≤ b.micros := Iff.rfl

theorem not_lt_iff (a b : Instant) : ¬ a < b ↔ b ≤ a := by
  rw [lt_iff, le_iff]; omega

end Instant

namespace Moment

/-- Microseconds from the beginning of the year 1 to what the clock shows. -/
def wallMicros (m : Moment) : Nat := (m.date.ordinal - 1) * microsPerDay + m.micros

/-- What a clock shows a number of microseconds after the beginning of the year 1. -/
def ofWallMicros? (micros : Int) (offset : Option Int) : Option Moment :=
  if 0 ≤ micros then
    (Date.ofOrdinal? (micros.toNat / microsPerDay + 1)).map fun date =>
      ⟨date, micros.toNat % microsPerDay, offset, Nat.mod_lt _ (by decide)⟩
  else none

/-- The point in time; a clock of unknown offset is in UTC. -/
def instant? (m : Moment) : Option Instant :=
  Instant.ofMicros? (m.wallMicros - m.offset.getD 0)

def isNaive (m : Moment) : Bool := m.offset.isNone

/-- Two clocks show the same time: by the instant if both offsets are known, by the wall if none
is, never if only one is. -/
def equals (a b : Moment) : Bool :=
  match a.offset, b.offset with
  | some x, some y => a.wallMicros - x == b.wallMicros - y
  | none, none => a.wallMicros == b.wallMicros
  | _, _ => false

def hour (m : Moment) : Nat := m.micros / 3600000000
def minute (m : Moment) : Nat := m.micros / 60000000 % 60
def second (m : Moment) : Nat := m.micros / 1000000 % 60
def microsecond (m : Moment) : Nat := m.micros % 1000000

/-! ## Text -/

/-- Hours and minutes, then seconds and microseconds, the last two only where asked for. -/
def clockChars (micros : Nat) (seconds : Bool) : List Char :=
  Date.padded 2 (micros / 3600000000) ++ ':' :: Date.padded 2 (micros / 60000000 % 60) ++
    (if seconds then ':' :: Date.padded 2 (micros / 1000000 % 60) else []) ++
    (if micros % 1000000 = 0 then [] else '.' :: Date.padded 6 (micros % 1000000))

/-- An offset from UTC; seconds are written only when there are any. -/
def offsetChars (offset : Int) : List Char :=
  (if offset < 0 then '-' else '+') ::
    clockChars offset.natAbs (offset.natAbs % 60000000 != 0)

def textChars (m : Moment) : List Char :=
  m.date.textChars ++ 'T' :: clockChars m.micros true ++ m.offset.elim [] offsetChars

/-- ISO 8601, with microseconds only when there are any. -/
def text (m : Moment) : String := String.ofList m.textChars

/-- How a moment is stored: no offset, and always six decimals. -/
def storedText (m : Moment) : String :=
  String.ofList (m.date.textChars ++ ' ' :: clockChars (m.micros - m.micros % 1000000) true ++
    '.' :: Date.padded 6 (m.micros % 1000000))

/-- A span of whole seconds and microseconds, the way the fields of a span are named. -/
def describeSpan (micros : Int) : String :=
  let days := micros / microsPerDay
  let seconds := micros % microsPerDay / microsPerSecond
  let rest := micros % microsPerSecond
  let parts := (if days = 0 then [] else ["days=" ++ toString days]) ++
    (if seconds = 0 then [] else ["seconds=" ++ toString seconds]) ++
    (if rest = 0 then [] else ["microseconds=" ++ toString rest])
  "datetime.timedelta(" ++ (if parts.isEmpty then "0" else String.intercalate ", " parts) ++ ")"

def describeOffset (offset : Int) : String :=
  if offset = 0 then "datetime.timezone.utc"
  else "datetime.timezone(" ++ describeSpan offset ++ ")"

/-- The fields one by one; seconds and microseconds only as far as they are needed. -/
def describe (m : Moment) : String :=
  let fields := [m.date.year, m.date.month, m.date.day, m.hour, m.minute] ++
    (if m.second = 0 ∧ m.microsecond = 0 then [] else [m.second]) ++
    (if m.microsecond = 0 then [] else [m.microsecond])
  "datetime.datetime(" ++ String.intercalate ", " (fields.map toString) ++
    m.offset.elim "" (", tzinfo=" ++ describeOffset ·) ++ ")"

end Moment

namespace Date

def describe (d : Date) : String :=
  "datetime.date(" ++ String.intercalate ", " ([d.year, d.month, d.day].map toString) ++ ")"

end Date

namespace Instant

/-- The instant on a clock in UTC. -/
def moment (i : Instant) : Moment :=
  (Moment.ofWallMicros? i.micros (some 0)).getD default

/-- The instant on a clock in UTC that does not say so. -/
def wall (i : Instant) : Moment := { i.moment with offset := none }

/-- ISO 8601 with a `Z` for UTC. -/
def key (i : Instant) : String := String.ofList (i.wall.textChars ++ ['Z'])

end Instant

example : (Instant.mk 0).key = "0001-01-01T00:00:00Z" := by decide +kernel

end Chronicle.Calendar
