import Chronicle.Timestamp

/-!
# Values

The values that attributes, conditions and parameters can have.

* `Scalar`: what a single column can be compared with;
* `Value`: also lists, records, column references and timestamps, as they occur in input that has
  not been checked yet;
* `Scalar.equals`: equality by meaning: numbers of all types by value, moments by the instant;
* `Value.shown`, `Value.plain`: how a value is written in descriptions and in patterns.
-/

namespace Chronicle

open Chronicle.Calendar Chronicle.Decimal Chronicle.Text

inductive Scalar
  | null
  | bool (b : Bool)
  | int (i : Int)
  | float (x : Binary64)
  | text (s : String)
  | moment (m : Moment)
  | date (d : Date)
  deriving DecidableEq, Repr, Inhabited

/-- A column of a relation of a query, which is named by its table or alias. -/
structure ColumnRef where
  table : String
  name : String
  deriving DecidableEq, Repr, Inhabited

namespace ColumnRef

def qualifiedName (c : ColumnRef) : String := c.table ++ "." ++ c.name

end ColumnRef

inductive Value
  | scalar (s : Scalar)
  | list (items : List Value)
  | object (fields : List (String × Value))
  | column (ref : ColumnRef)
  | timestamp (t : Timestamp)
  deriving Repr, Inhabited

namespace Scalar

/-- The number a truth value stands for among numbers. -/
def ofBool (b : Bool) : Int := if b then 1 else 0

def isNull : Scalar → Bool
  | null => true
  | _ => false

/-- Equality by meaning. -/
def equals : Scalar → Scalar → Bool
  | null, null => true
  | bool a, bool b => a == b
  | bool a, int b => ofBool a == b
  | bool a, float b => b.equalsInt (ofBool a)
  | int a, bool b => a == ofBool b
  | int a, int b => a == b
  | int a, float b => b.equalsInt a
  | float a, bool b => a.equalsInt (ofBool b)
  | float a, int b => a.equalsInt b
  | float a, float b => a.equals b
  | text a, text b => a == b
  | moment a, moment b => a.equals b
  | date a, date b => a == b
  | _, _ => false

/-- The name of a type in messages. -/
def typeName : Scalar → String
  | null => "NoneType"
  | bool _ => "bool"
  | int _ => "int"
  | float _ => "float"
  | text _ => "str"
  | moment _ => "datetime"
  | date _ => "date"

/-- As shown in descriptions, texts in quotes. -/
def shown : Scalar → String
  | null => "None"
  | bool b => if b then "True" else "False"
  | int i => toString i
  | float x => x.text
  | text s => quoted s
  | moment m => m.describe
  | date d => d.describe

/-- As text on its own. -/
def plain : Scalar → String
  | text s => s
  | moment m => String.ofList (m.date.textChars ++ ' ' :: m.textChars.drop 11)
  | date d => d.text
  | s => s.shown

theorem equals_float_nan (s : Scalar) : s.equals (.float .nan) = false := by
  cases s <;> simp [equals, Binary64.equals_nan, Binary64.equalsInt, Binary64.compareInt?]

end Scalar

namespace Value

def null : Value := .scalar .null
def bool (b : Bool) : Value := .scalar (.bool b)
def int (i : Int) : Value := .scalar (.int i)
def text (s : String) : Value := .scalar (.text s)
def moment (m : Moment) : Value := .scalar (.moment m)
def instant (i : Instant) : Value := .scalar (.moment i.moment)

def isNull : Value → Bool
  | .scalar s => s.isNull
  | _ => false

def toScalar? : Value → Option Scalar
  | .scalar s => some s
  | _ => none

def typeName : Value → String
  | .scalar s => s.typeName
  | .list _ => "list"
  | .object _ => "dict"
  | .column _ => "ColumnRef"
  | .timestamp _ => "TimestampValue"

/-! ## Descriptions -/

mutual

def shown : Value → String
  | .scalar s => s.shown
  | .list items => "[" ++ String.intercalate ", " (shownItems items) ++ "]"
  | .object fields => "\x7b" ++ String.intercalate ", " (shownFields fields) ++ "\x7d"
  | .column ref => "ColumnRef(table=" ++ quoted ref.table ++ ", name=" ++ quoted ref.name ++ ")"
  | .timestamp t => "TimestampValue(" ++ quoted t.key ++ ")"

def shownItems : List Value → List String
  | [] => []
  | v :: vs => shown v :: shownItems vs

def shownFields : List (String × Value) → List String
  | [] => []
  | (k, v) :: fs => (quoted k ++ ": " ++ shown v) :: shownFields fs

end

def plain : Value → String
  | .scalar s => s.plain
  | .column ref => "table=" ++ quoted ref.table ++ " name=" ++ quoted ref.name
  | .timestamp t => t.key
  | v => v.shown

/-! ## Equality by meaning -/

/-- A timestamp equals the texts that denote it. -/
def isSameAsText (t : Timestamp) (text : String) : Bool := (t.sameAsText text).toOption == some true

mutual

def equals : Value → Value → Bool
  | .scalar a, .scalar b => a.equals b
  | .list as, .list bs => equalItems as bs
  | .object as, .object bs => as.length == bs.length && equalFields as bs
  | .column a, .column b => a == b
  | .timestamp a, .timestamp b => a.same b
  | .timestamp a, .scalar (.text s) => isSameAsText a s
  | .scalar (.text s), .timestamp b => isSameAsText b s
  | _, _ => false

def equalItems : List Value → List Value → Bool
  | [], [] => true
  | a :: as, b :: bs => equals a b && equalItems as bs
  | _, _ => false

/-- Every field of the first has an equal in the second. -/
def equalFields : List (String × Value) → List (String × Value) → Bool
  | [], _ => true
  | (k, a) :: as, bs => (bs.lookup k).elim false (equals a) && equalFields as bs

end

mutual

/-- The same value, or an equal one at every place. -/
def agrees : Value → Value → Bool
  | .scalar a, .scalar b => a == b || a.equals b
  | .list as, .list bs => agreeItems as bs
  | .object as, .object bs => as.length == bs.length && agreeFields as bs
  | .column a, .column b => a == b
  | .timestamp a, .timestamp b => a.same b
  | _, _ => false

def agreeItems : List Value → List Value → Bool
  | [], [] => true
  | a :: as, b :: bs => agrees a b && agreeItems as bs
  | _, _ => false

def agreeFields : List (String × Value) → List (String × Value) → Bool
  | [], _ => true
  | (k, a) :: as, bs => (bs.lookup k).elim false (agrees a) && agreeFields as bs

end

/-! ## Timestamps -/

/-- The timestamp a value denotes. -/
def toTimestamp : Value → Except Failure Timestamp
  | .timestamp t => .ok t
  | .scalar (.moment m) => Timestamp.ofMoment m
  | .scalar (.text s) => Timestamp.read s
  | v => .error (.notATimestamp v.typeName)

end Value

end Chronicle
