import Chronicle.Value

/-!
# Snapshots

The attributes of an entity at one timestamp.  An attribute is absent, or present with a value that
may be null.

* `Snapshot.ofFields`: only single values can be attributes;
* `Snapshot.changedFrom`: the attributes that differ from other values;
* `mem_changedFrom_iff`: which attributes these are.
-/

namespace Chronicle

structure Snapshot where
  timestamp : Timestamp
  values : List (String × Scalar)
  deriving Repr, Inhabited

namespace Snapshot

def names (s : Snapshot) : List String := s.values.map (·.1)

def size (s : Snapshot) : Nat := s.values.length

/-- The value of an attribute; `none` where it is absent. -/
def get? (s : Snapshot) (name : String) : Option Scalar := s.values.lookup name

def contains (s : Snapshot) (name : String) : Bool := (s.get? name).isSome

def isAbsent (s : Snapshot) (name : String) : Bool := !s.contains name

/-! ## Construction -/

def checkField (field : String × Value) : Except Failure (String × Scalar) :=
  match field.2.toScalar? with
  | some s => .ok (field.1, s)
  | none => .error (.unsupportedAttribute field.1 field.2.typeName)

/-- A snapshot of named values, none of which may be a list or a record. -/
def ofFields (timestamp : Timestamp) (fields : List (String × Value)) : Except Failure Snapshot :=
  (fields.mapM checkField).map fun values => ⟨timestamp, values⟩

/-! ## Access -/

/-- What can be asked of a snapshot by a name. -/
inductive Member
  | value (s : Scalar)
  | timestamp (t : Timestamp)
  | fields (values : List (String × Scalar))
  /-- An operation of snapshots, which hides an attribute of its name. -/
  | operation
  deriving Repr

/-- The operations of snapshots. -/
def operations : List String :=
  ["get", "items", "keys", "values", "is_absent", "changed_from", "to_dict"]

/-- Access by item: the value or a failure. -/
def item (s : Snapshot) (name : String) : Except Failure Scalar :=
  match s.get? name with
  | some v => .ok v
  | none => .error .missingItem

/-- Access by name: names of operations come first, names with an underscore are private. -/
def member (s : Snapshot) (name : String) : Except Failure Member :=
  if name == "timestamp" then .ok (.timestamp s.timestamp)
  else if name == "_values" then .ok (.fields s.values)
  else if operations.contains name then .ok .operation
  else if name.startsWith "_" then .error (.privateAttribute name)
  else match s.get? name with
    | some v => .ok (.value v)
    | none => .error (.absentAttribute name s.timestamp.key)

/-! ## Differences -/

/-- An attribute differs from other values that lack it or have an unequal value for it. -/
def differs (current : List (String × Value)) (field : String × Scalar) : Bool :=
  match current.lookup field.1 with
  | none => true
  | some v => !v.equals (.scalar field.2)

/-- The attributes that differ from other values. -/
def changedFrom (s : Snapshot) (current : List (String × Value)) : Snapshot :=
  { s with values := s.values.filter (differs current) }

theorem mem_changedFrom_iff (s : Snapshot) (current : List (String × Value))
    (field : String × Scalar) :
    field ∈ (s.changedFrom current).values ↔ field ∈ s.values ∧ differs current field = true := by
  simp [changedFrom]

theorem changedFrom_nil (s : Snapshot) : s.changedFrom [] = s := by
  have : s.values.filter (differs []) = s.values := by
    rw [List.filter_eq_self]
    intro field _
    rfl
  simp [changedFrom, this]

/-- Two values are the same or equal by meaning. -/
def agree (a b : Scalar) : Bool := a == b || a.equals b

/-- The same attributes with agreeing values, in any order. -/
def sameAs (a b : Snapshot) : Bool :=
  a.size == b.size && a.values.all fun (name, v) => (b.get? name).elim false (agree v)

/-! ## Description -/

def shown (s : Snapshot) : String :=
  "AttributeSnapshot(" ++ Text.quoted s.timestamp.key ++ ", " ++
    (Value.object (s.values.map fun (n, v) => (n, .scalar v))).shown ++ ")"

end Snapshot

end Chronicle
