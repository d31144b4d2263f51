import Chronicle.Store.Cell

/-!
# Values in the store

A value becomes a cell in one of several ways, depending on the type of the place it is put into or
compared with.

* `Binding.ofValue`, `Binding.ofColumn`: the way for a value;
* `Binding.bind`: the cell, or why there is none: a value may not have the type it should have, or
  may be one that the store has no room for;
* `Cell.toScalar`: the value of a cell of a column.
-/

namespace Chronicle

open Chronicle.Calendar Chronicle.Decimal

/-- How a value becomes a cell. -/
inductive Binding
  /-- As it is. -/
  | plain
  /-- As a truth value. -/
  | truth
  /-- As what the clock shows, whatever its offset. -/
  | clock
  /-- As a day. -/
  | day
  /-- As a moment in UTC. -/
  | instant
  deriving DecidableEq, Repr, Inhabited

/-- A value that is to be stored or compared. -/
inductive Bound
  | cell (c : Cell)
  /-- It does not have the right type. -/
  | mistyped (cause : Failure)
  /-- The store does not take it. -/
  | refused (cause : Failure)
  deriving Repr, Inhabited

namespace Binding

/-- The way for a value that is compared with something of unknown type. -/
def ofValue : Value → Binding
  | .scalar (.bool _) => truth
  | .scalar (.moment _) => clock
  | .scalar (.date _) => day
  | _ => plain

/-- The way for a value that is compared with a column. -/
def ofColumn (t : ColumnType) (s : Scalar) : Binding :=
  match t with
  | .text => plain
  | .instant => instant
  | .boolean => if s.isNull then truth else ofValue (.scalar s)
  | .integer => ofValue (.scalar s)

/-- The way for a value that is put into a column. -/
def intoColumn : ColumnType → Binding
  | .text | .integer => plain
  | .boolean => truth
  | .instant => instant

/-- A value as it is: moments and days as texts. -/
def bindPlain : Value → Bound
  | .scalar .null => .cell .null
  | .scalar (.bool b) => .cell (.int (Scalar.ofBool b))
  | .scalar (.int i) => if Cell.isStorable i then .cell (.int i) else .refused .integerOutOfRange
  | .scalar (.float .nan) => .cell .null
  | .scalar (.float x) => .cell (.real x)
  | .scalar (.text s) => .cell (.text s)
  | .scalar s => .cell (.text s.plain)
  | _ => .refused .unbindableValue

/-- A truth value, which may be given as one or zero. -/
def bindTruth : Value → Bound
  | .scalar .null => .cell .null
  | .scalar (.bool b) => .cell (.int (Scalar.ofBool b))
  | .scalar (.int i) => if i = 0 ∨ i = 1 then .cell (.int i) else .mistyped .notABoolean
  | .scalar (.float x) =>
    if x.equalsInt 0 then .cell (.int 0)
    else if x.equalsInt 1 then .cell (.int 1)
    else .mistyped .notABooleanType
  | _ => .mistyped .notABooleanType

def bindClock : Value → Bound
  | .scalar .null => .cell .null
  | .scalar (.moment m) => .cell (.text m.storedText)
  | .scalar (.date d) => .cell (.text (Moment.storedText ⟨d, 0, none, microsPerDay_pos⟩))
  | _ => .mistyped .badArgument

def bindDay : Value → Bound
  | .scalar .null => .cell .null
  | .scalar (.moment m) => .cell (.text m.date.text)
  | .scalar (.date d) => .cell (.text d.text)
  | _ => .mistyped .badArgument

def bindInstant : Value → Bound
  | .scalar .null => .cell .null
  | .scalar (.moment m) =>
    match m.toStored with
    | .ok i => .cell (.instant i)
    | .error f => .mistyped f
  | _ => .mistyped .notAMoment

def bind : Binding → Value → Bound
  | plain, v => bindPlain v
  | truth, v => bindTruth v
  | clock, v => bindClock v
  | day, v => bindDay v
  | instant, v => bindInstant v

end Binding

namespace Bound

/-- The cell, or nothing. -/
def toCell : Bound → Cell
  | cell c => c
  | _ => .null

/-- All values have their types, and the store takes all of them; the first is asked of all values
before the second. -/
def check (bs : List Bound) : Except Failure Unit := do
  for b in bs do
    if let mistyped cause := b then throw (.cannotBind cause)
  for b in bs do
    if let refused cause := b then throw cause

end Bound

namespace Cell

/-- The value of a cell of a column; truth values and moments are told by the type of the
column. -/
def toScalar (t : ColumnType) : Cell → Scalar
  | null => .null
  | instant i => .moment i.moment
  | text s => .text s
  | real x => if t = .boolean then .bool (!x.isZero) else .float x
  | int i => if t = .boolean then .bool (i != 0) else .int i

end Cell

end Chronicle
