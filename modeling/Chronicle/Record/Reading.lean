import Chronicle.Text.Blank
import Chronicle.Value

/-!
# Reading plain data

Plain data is read field by field, and everything that is wrong with it is reported at once, each
issue with the way to it.

* `Checked`: a result, or all issues in the order of the fields;
* `Checked.both`: two readings of which each may have issues;
* `required`, `optional`: the fields of a record;
* `text`, `truth`, `whole`, …: single values, some of which are also accepted in another form.
-/

namespace Chronicle.Record

open Chronicle.Calendar Chronicle.Decimal Chronicle.Text

/-! ## Results with issues -/

abbrev Checked (α : Type) := Except (List Issue) α

/-- A value is refused for one reason. -/
def refuse {α : Type} (kind : String) : Checked α := .error [⟨[], kind, none⟩]

namespace Checked

/-- Both results, or the issues of both. -/
def both {α β : Type} : Checked α → Checked β → Checked (α × β)
  | .ok a, .ok b => .ok (a, b)
  | .ok _, .error is => .error is
  | .error is, .ok _ => .error is
  | .error is, .error js => .error (is ++ js)

/-- The issues as seen from one step further out. -/
def under {α : Type} (s : Step) : Checked α → Checked α
  | .ok a => .ok a
  | .error is => .error (is.map (·.under s))

/-- Another reading for data that has no reading of the first kind; the issues of both are
reported when both fail. -/
def orElse {α : Type} (a : Checked α) (b : Checked α) : Checked α :=
  match a, b with
  | .ok x, _ => .ok x
  | .error _, .ok y => .ok y
  | .error is, .error js => .error (is ++ js)

theorem both_ok {α β : Type} (a : α) (b : β) : both (.ok a) (.ok b) = .ok (a, b) := rfl

theorem under_ok {α : Type} (s : Step) (a : α) : under s (.ok a) = .ok a := rfl

theorem both_eq_ok {α β : Type} {x : Checked α} {y : Checked β} {a : α} {b : β}
    (h : both x y = .ok (a, b)) : x = .ok a ∧ y = .ok b := by
  cases x <;> cases y <;> simp_all [both]

end Checked

/-! ## Single values -/

def text : Value → Checked String
  | .scalar (.text s) => .ok s
  | _ => refuse "string_type"

def truthWords : List String := ["1", "on", "t", "true", "y", "yes"]
def falsityWords : List String := ["0", "off", "f", "false", "n", "no"]

/-- A truth value in words, of any case. -/
def truthOfText? (s : String) : Option Bool :=
  let s := s.toLower
  if truthWords.contains s then some true
  else if falsityWords.contains s then some false
  else none

/-- Whole numbers that have room in sixty-four bits. -/
def isShort (i : Int) : Bool := -9223372036854775808 ≤ i && i ≤ 9223372036854775807

def truthOfInt (i : Int) : Checked Bool :=
  if i = 1 then .ok true
  else if i = 0 then .ok false
  else refuse (if isShort i then "bool_parsing" else "bool_type")

/-- A truth value, also as one or zero, or in words. -/
def truth : Value → Checked Bool
  | .scalar (.bool b) => .ok b
  | .scalar (.int i) => truthOfInt i
  | .scalar (.float x) => (x.toInt?).elim (refuse "bool_type") truthOfInt
  | .scalar (.text s) => (truthOfText? s).elim (refuse "bool_parsing") .ok
  | _ => refuse "bool_type"

/-- Digits, among which single underscores may stand. -/
def takeGroupedDigits : List Char → Option (List Char)
  | [] => none
  | [c] => if isAsciiDigit c then some [c] else none
  | c :: '_' :: d :: rest =>
    if isAsciiDigit c && isAsciiDigit d then (takeGroupedDigits (d :: rest)).map (c :: ·) else none
  | c :: rest => if isAsciiDigit c then (takeGroupedDigits rest).map (c :: ·) else none

/-- A whole number in a text; decimals are allowed as long as they are zeros. -/
def wholeOfText? (s : String) : Option Int :=
  let cs := trimBlanks s.toList
  let (negative, cs) := takeSign cs
  let whole := cs.takeWhile (· != '.')
  let fraction := (cs.dropWhile (· != '.')).drop 1
  if fraction.all (· == '0') then
    (takeGroupedDigits whole).map fun ds =>
      if negative then -(digitsValue ds : Int) else digitsValue ds
  else none

/-- A whole number, also as a truth value, a float without fraction, or a text. -/
def whole : Value → Checked Int
  | .scalar (.int i) => .ok i
  | .scalar (.bool b) => .ok (Scalar.ofBool b)
  | .scalar (.float (.finite s u)) =>
    ((Binary64.finite s u).toInt?).elim (refuse "int_from_float") fun i =>
      if isShort i then .ok i else refuse "int_parsing_size"
  | .scalar (.float _) => refuse "finite_number"
  | .scalar (.text s) => (wholeOfText? s).elim (refuse "int_parsing") .ok
  | _ => refuse "int_type"

/-- One of a few words. -/
def oneOf {α : Type} (words : List (String × α)) : Value → Checked α
  | .scalar (.text s) => (words.lookup s).elim (refuse "literal_error") .ok
  | _ => refuse "literal_error"

/-- Null or a value. -/
def nullable {α : Type} (read : Value → Checked α) (v : Value) : Checked (Option α) :=
  if v.isNull then .ok none else (read v).map some

/-- The types of a single value, with the reason for refusing anything else. -/
def scalarTypes : List (String × String) :=
  [("bool", "bool_type"), ("int", "int_type"), ("float", "float_type"), ("str", "string_type"),
    ("datetime", "datetime_type"), ("date", "date_type")]

def scalarIssues : List Issue := scalarTypes.map fun (name, kind) => ⟨[.field name], kind, none⟩

/-- A single value of any type. -/
def scalar : Value → Checked Scalar
  | .scalar s => .ok s
  | _ => .error scalarIssues

/-! ## Records and lists -/

/-- The fields of a record. -/
def fields : Value → Checked (List (String × Value))
  | .object fs => .ok fs
  | _ => refuse "model_type"

/-- A field that has to be there. -/
def required {α : Type} (fs : List (String × Value)) (name : String) (read : Value → Checked α) :
    Checked α :=
  Checked.under (.field name) (match fs.lookup name with
    | some v => read v
    | none => refuse "missing")

/-- A field with a value for its absence. -/
def optional {α : Type} (fs : List (String × Value)) (name : String) (absent : α)
    (read : Value → Checked α) : Checked α :=
  match fs.lookup name with
  | some v => Checked.under (.field name) (read v)
  | none => .ok absent

/-- Every item, with the issues of all of them. -/
def readItems {α : Type} (read : Value → Checked α) : Nat → List Value → Checked (List α)
  | _, [] => .ok []
  | n, v :: vs =>
    (Checked.both (Checked.under (.index n) (read v)) (readItems read (n + 1) vs)).map
      fun (x, xs) => x :: xs

/-- A list; `kind` says what is expected in its place. -/
def listOf {α : Type} (kind : String) (read : Value → Checked α) : Value → Checked (List α)
  | .list vs => readItems read 0 vs
  | _ => refuse kind

theorem readItems_map {α : Type} (read : Value → Checked α) (write : α → Value)
    (h : ∀ a, read (write a) = .ok a) (n : Nat) (xs : List α) :
    readItems read n (xs.map write) = .ok xs := by
  induction xs generalizing n with
  | nil => rfl
  | cons x xs ih => simp [readItems, h, ih, Checked.under, Checked.both, Except.map]

end Chronicle.Record
