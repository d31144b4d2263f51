import Chronicle.Calendar.Iso
import Chronicle.Duration
import Chronicle.Text.Blank
import Chronicle.Text.Case

/-!
# Timestamps

A timestamp is a point in time, or a duration relative to the moment at which it is evaluated; the
zero duration stands for that moment itself.

* `Timestamp.key`: the canonical text, by which timestamps are told apart;
* `Timestamp.resolve`: the point in time at a given present;
* `Timestamp.before`: the order at a given present, which need not agree with equality of keys.
-/

namespace Chronicle

open Chronicle.Calendar Chronicle.Text

inductive Timestamp
  | absolute (instant : Instant)
  | relative (duration : Duration)
  deriving DecidableEq, Repr, Inhabited

namespace Calendar.Moment

/-- The point in time of a moment, which may lie outside the calendar. -/
def toInstant (m : Moment) : Except Failure Instant :=
  match m.instant? with
  | some i => .ok i
  | none => .error .outOfCalendar

/-- A stored moment has to say its offset. -/
def toStored (m : Moment) : Except Failure Instant :=
  if m.isNaive then .error (.naiveMoment m.describe) else m.toInstant

end Calendar.Moment

namespace Timestamp

/-- The text of the zero duration. -/
def nowKey : String := "PT0S"

/-- The relative timestamp of the present. -/
def now : Timestamp := .relative .zero

def isRelative : Timestamp → Bool
  | absolute _ => false
  | relative _ => true

def isNow : Timestamp → Bool
  | absolute _ => false
  | relative d => d.isZero

/-- Every timestamp but the present reads the past or the future. -/
def isHistoric (t : Timestamp) : Bool := !t.isNow

/-- The canonical text: an instant in UTC, or the components of a duration. -/
def key : Timestamp → String
  | absolute i => i.key
  | relative d => if d.isZero then nowKey else d.text

theorem key_of_isNow {t : Timestamp} (h : t.isNow = true) : t.key = nowKey := by
  cases t with
  | absolute i => cases h
  | relative d => simp [key, show d.isZero = true from h]

/-! ## Construction -/

/-- A duration can be kept as a timestamp if its seconds can be counted. -/
def ofDuration (d : Duration) : Except Failure Timestamp :=
  match d.seconds.failure? with
  | some f => .error f
  | none => .ok (.relative d)

def ofMoment (m : Moment) : Except Failure Timestamp := m.toInstant.map .absolute

/-- Exactly one of the two has to be given. -/
def ofParts (moment : Option Moment) (duration : Option Duration) : Except Failure Timestamp :=
  match moment, duration with
  | some m, none => ofMoment m
  | none, some d => ofDuration d
  | _, _ => .error .neitherInstantNorDuration

/-! ## Reading -/

/-- A text for a duration begins with a `P` after any signs. -/
def isDurationText (cs : List Char) : Bool :=
  (upper (cs.dropWhile fun c => c == '+' || c == '-')).head? == some 'P'

/-- A final `Z` stands for the offset zero. -/
def expandZulu (cs : List Char) : List Char :=
  if cs.getLast? == some 'Z' || cs.getLast? == some 'z' then
    cs.dropLast ++ ['+', '0', '0', ':', '0', '0']
  else cs

def readInstant (cs : List Char) : Except Failure Instant :=
  match Moment.ofIso? (expandZulu cs) with
  | some m => m.toInstant
  | none => .error (.invalidTimestamp (String.ofList cs))

/-- A timestamp written after ISO 8601, blanks around it and the case of a duration aside. -/
def read (text : String) : Except Failure Timestamp :=
  let cs := trimBlanks text.toList
  if isDurationText cs then (Duration.read (String.ofList (upper cs))).bind ofDuration
  else (readInstant cs).map .absolute

/-! ## Resolving and comparing -/

/-- The point in time, seen from the present instant. -/
def resolve (t : Timestamp) (present : Instant) : Except Failure Instant :=
  match t with
  | absolute i => .ok i
  | relative d => (d.apply present.moment).bind Moment.toInstant

/-- The point in time seen from a given moment, or from the clock if none is given. -/
def resolveAt (t : Timestamp) (moment : Option Moment) (clock : Instant) :
    Except Failure Instant :=
  match t with
  | absolute i => .ok i
  | relative _ =>
    match moment with
    | some m => m.toInstant.bind t.resolve
    | none => t.resolve clock

theorem resolveAt_none (t : Timestamp) (clock : Instant) :
    t.resolveAt none clock = t.resolve clock := by
  cases t <;> rfl

theorem resolveAt_some (t : Timestamp) (m : Moment) (c₁ c₂ : Instant) :
    t.resolveAt (some m) c₁ = t.resolveAt (some m) c₂ := by
  cases t <;> rfl

/-- Timestamps are the same when their canonical texts are. -/
def same (a b : Timestamp) : Bool := a.key == b.key

/-- A text is compared as the timestamp it denotes; a text that denotes none is different. -/
def sameAsText (a : Timestamp) (text : String) : Except Failure Bool :=
  match read text with
  | .ok b => .ok (a.same b)
  | .error f => if f.isBadValue then .ok false else .error f

def before (present : Instant) (a b : Timestamp) : Except Failure Bool := do
  let x ← a.resolve present
  let y ← b.resolve present
  return x < y

/-- Later: neither before nor the same. -/
def after (present : Instant) (a b : Timestamp) : Except Failure Bool := do
  return !(← before present a b) && !a.same b

def notAfter (present : Instant) (a b : Timestamp) : Except Failure Bool := do
  return (← before present a b) || a.same b

def notBefore (present : Instant) (a b : Timestamp) : Except Failure Bool := do
  return !(← before present a b)

/-! ## Sorting -/

/-- Puts a timestamp with its instant behind all that are not later. -/
def insertSorted (i : Instant) (t : Timestamp) :
    List (Instant × Timestamp) → List (Instant × Timestamp)
  | [] => [(i, t)]
  | (j, u) :: rest => if i < j then (i, t) :: (j, u) :: rest else (j, u) :: insertSorted i t rest

def resolvePair (present : Instant) (t : Timestamp) : Except Failure (Instant × Timestamp) :=
  (t.resolve present).map fun i => (i, t)

/-- By point in time; timestamps of one instant keep their order.  A single timestamp is not
resolved, and the second one is looked at before the first. -/
def sort (present : Instant) : List Timestamp → Except Failure (List Timestamp)
  | [] => .ok []
  | [t] => .ok [t]
  | t₀ :: t₁ :: rest => do
    let p₁ ← resolvePair present t₁
    let p₀ ← resolvePair present t₀
    let ps ← rest.mapM (resolvePair present)
    return ((p₀ :: p₁ :: ps).foldl (fun sorted p => insertSorted p.1 p.2 sorted) []).map (·.2)

end Timestamp

end Chronicle
