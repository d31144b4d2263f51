import Chronicle.Kind
import Chronicle.Record.Reading

/-!
# Filters

A filter is a named list of conditions on the attributes of one kind, all of which have to hold.

* `Operator.accepts`: how many values an operator goes with;
* `Condition`, `Filter`: conditions with a fitting number of values, filters whose conditions are
  on attributes of the kind;
* `Filter.ofRecord`, `Filter.toRecord`: filters as plain data;
* `Filter.add`: one more condition.
-/

namespace Chronicle

open Chronicle.Record Chronicle.Text

/-- What an attribute is compared by. -/
inductive Operator
  | equals
  | differs
  | contains
  | lacks
  | atLeast
  | atMost
  | isPresent
  | isMissing
  deriving DecidableEq, Repr, Inhabited

namespace Operator

def symbol : Operator → String
  | equals => "="
  | differs => "!"
  | contains => "~"
  | lacks => "!~"
  | atLeast => ">="
  | atMost => "<="
  | isPresent => "*"
  | isMissing => "!*"

def all : List Operator :=
  [equals, differs, contains, lacks, atLeast, atMost, isPresent, isMissing]

def bySymbol : List (String × Operator) := all.map fun o => (o.symbol, o)

/-- Presence needs no value, equality any number of them, everything else exactly one. -/
def accepts (o : Operator) (count : Nat) : Bool :=
  match o with
  | isPresent | isMissing => count == 0
  | equals | differs => 0 < count
  | contains | lacks | atLeast | atMost => count == 1

/-- What an operator expects, for those who gave another number of values. -/
def expectation (o : Operator) : String :=
  "Operator " ++ quoted o.symbol ++
    (match o with
      | isPresent | isMissing => " takes no values"
      | equals | differs => " needs at least one value"
      | contains | lacks | atLeast | atMost => " takes exactly one value")

theorem mem_all (o : Operator) : o ∈ all := by cases o <;> decide

theorem bySymbol_symbol (o : Operator) : bySymbol.lookup o.symbol = some o := by
  cases o <;> decide

end Operator

/-- A condition on one attribute. -/
structure Condition where
  field : String
  operator : Operator
  values : List Value
  fits : operator.accepts values.length = true
  deriving Repr

namespace Condition

/-- A condition, if the operator goes with so many values. -/
def build (field : String) (operator : Operator) (values : List Value) : Checked Condition :=
  if h : operator.accepts values.length = true then .ok ⟨field, operator, values, h⟩
  else .error [⟨[], "value_error", some operator.expectation⟩]

def ofRecord (v : Value) : Checked Condition := do
  let fs ← fields v
  let (field, operator, values) ←
    Checked.both (required fs "field" text)
      (Checked.both (required fs "operator" (oneOf Operator.bySymbol))
        (optional fs "values" [] (listOf "list_type" .ok)))
  build field operator values

def toRecord (c : Condition) : Value :=
  .object [("field", .text c.field), ("operator", .text c.operator.symbol),
    ("values", .list c.values)]

theorem build_self (c : Condition) : build c.field c.operator c.values = .ok c := by
  simp [build, c.fits]

end Condition

structure Filter where
  name : String
  kind : Kind
  conditions : List Condition
  known : ∀ c ∈ conditions, kind.hasAttribute c.field = true
  deriving Repr

namespace Filter

def defaultName : String := "unnamed"
def defaultKind : Kind := .workPackage

/-- The filter without conditions, which everything passes. -/
def empty : Filter := ⟨defaultName, defaultKind, [], by simp⟩

/-- A filter, if its conditions are on attributes of the kind. -/
def build (name : String) (kind : Kind) (conditions : List Condition) : Checked Filter :=
  match h : conditions.find? fun c => !kind.hasAttribute c.field with
  | some c =>
    .error [⟨[], "value_error", some (kind.name ++ " has no attribute " ++ quoted c.field)⟩]
  | none => .ok ⟨name, kind, conditions, by simpa using h⟩

/-- The kind a record asks for; an unknown one is not an issue of the record but a failure. -/
def kindOfRecord (v : Value) : Except Failure (Checked Kind) :=
  match v with
  | .scalar (.text name) => (Kind.ofName name).map .ok
  | _ => .ok (refuse "string_type")

def ofRecord (v : Value) : Except Failure (Checked Filter) :=
  match v with
  | .object fs => do
    let kind ← (fs.lookup "entity_kind").elim (.ok (.ok defaultKind)) kindOfRecord
    return do
      let (name, kind, conditions) ←
        Checked.both (optional fs "name" defaultName text)
          (Checked.both (Checked.under (.field "entity_kind") kind)
            (optional fs "conditions" [] (listOf "list_type" Condition.ofRecord)))
      build name kind conditions
  | _ => .ok (refuse "model_type")

def toRecord (f : Filter) : Value :=
  .object [("name", .text f.name), ("entity_kind", .text f.kind.name),
    ("conditions", .list (f.conditions.map Condition.toRecord))]

/-- The filter with one more condition at the end. -/
def add (f : Filter) (c : Condition) : Checked Filter := build f.name f.kind (f.conditions ++ [c])

/-- Filters are the same when they read the same. -/
def same (f g : Filter) : Bool := f.toRecord.equals g.toRecord

theorem build_self (f : Filter) : build f.name f.kind f.conditions = .ok f := by
  unfold build
  split
  · next c h =>
    have hm := List.mem_of_find?_eq_some h
    have hc := List.find?_some h
    simp [f.known c hm] at hc
  · rfl

theorem add_conditions {f g : Filter} {c : Condition} (h : f.add c = .ok g) :
    g.conditions = f.conditions ++ [c] := by
  unfold add build at h
  split at h
  · cases h
  · cases h; rfl

end Filter

end Chronicle
