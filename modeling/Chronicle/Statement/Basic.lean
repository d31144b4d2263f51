import Chronicle.Query.Basic
import Chronicle.Schema

/-!
# Statements

A statement is a query whose names have been resolved: every column knows its relation and its
type, joins have their conditions, and conditions have the grouping with which they are written.
-/

namespace Chronicle

open Chronicle.Calendar

/-- A table in the list of relations of a statement. -/
structure Source where
  table : Table
  givenName : Option String
  /-- Tells aliases of one name apart; zero for tables under their own name. -/
  place : Nat
  deriving DecidableEq, Repr, Inhabited

namespace Source

/-- The name of the relation. -/
def name (s : Source) : String := s.givenName.getD s.table.name

end Source

/-- A column of a relation of a statement. -/
structure SourceColumn where
  source : Source
  column : Column
  deriving DecidableEq, Repr, Inhabited

namespace Source

def columns (s : Source) : List SourceColumn := s.table.columns.map fun c => ⟨s, c⟩

def column? (s : Source) (name : String) : Option SourceColumn :=
  (s.table.column? name).map fun c => ⟨s, c⟩

end Source

/-- The six comparisons. -/
inductive Relator
  | eq
  | ne
  | lt
  | le
  | gt
  | ge
  deriving DecidableEq, Repr, Inhabited

namespace Relator

def negate : Relator → Relator
  | eq => ne
  | ne => eq
  | lt => ge
  | le => gt
  | gt => le
  | ge => lt

theorem negate_negate (r : Relator) : r.negate.negate = r := by cases r <;> rfl

def symbol : Relator → String
  | eq => "="
  | ne => "!="
  | lt => "<"
  | le => "<="
  | gt => ">"
  | ge => ">="

end Relator

/-- What a column is compared with. -/
inductive Term
  | column (c : SourceColumn)
  /-- A parameter. -/
  | value (s : Scalar)
  /-- A truth value written out. -/
  | truth (b : Bool)
  deriving DecidableEq, Repr, Inhabited

/-- A column of the result. -/
inductive OutputColumn
  | column (c : SourceColumn) (label : Option String)
  | constant (value : Scalar) (label : String)
  deriving DecidableEq, Repr, Inhabited

inductive OrderExpr
  | column (c : SourceColumn)
  | raw (fragment : RawFragment)
  deriving Repr, Inhabited

mutual

inductive Clause
  | compare (op : Relator) (column : SourceColumn) (term : Term)
  | isNull (column : SourceColumn) (negated : Bool)
  | amongValues (column : SourceColumn) (values : List Scalar) (negated : Bool)
  | amongRows (column : SourceColumn) (rows : Select) (negated : Bool)
  | raw (fragment : RawFragment)
  /-- Any number of parts but one. -/
  | parts (conjunction : Conjunction) (parts : List Clause)
  /-- In parentheses. -/
  | group (inner : Clause)
  /-- A group that has been negated; twice negated it is the group again. -/
  | truthOf (inner : Clause) (negated : Bool)
  | inverse (inner : Clause)
  | hasRows (rows : Select)
  /-- The entry of the journal joined to a payload row: of the given kind, for that row, and the
  last version recorded at the instant or before. -/
  | validAt (journals data : Source) (entityType : String) (instant : Instant)

inductive JoinedSource
  | mk (source : Source) (on : Clause) (outer : Bool)

structure Select where
  columns : List OutputColumn
  base : Source
  joins : List JoinedSource
  conditions : List Clause
  orders : List (OrderExpr × Bool)
  limit : Option Int

end

instance : Inhabited Clause := ⟨.parts .and []⟩
instance : Inhabited Select := ⟨⟨[], default, [], [], [], none⟩⟩

namespace JoinedSource

def source : JoinedSource → Source
  | .mk s _ _ => s

def on : JoinedSource → Clause
  | .mk _ c _ => c

def outer : JoinedSource → Bool
  | .mk _ _ o => o

end JoinedSource

namespace Select

/-- The relations in their order. -/
def sources (s : Select) : List Source := s.base :: s.joins.map JoinedSource.source

end Select

namespace Clause

/-! ## Grouping -/

/-- As a part of a larger condition a condition is put in parentheses, except where it has them or
is text, which is taken as it is. -/
def grouped : Clause → Clause
  | raw r => raw r
  | group c => group c
  | truthOf c n => truthOf c n
  | parts op [] => parts op []
  | c => group c

/-- The conjunction of parts, seen through parentheses. -/
def conjunction? : Clause → Option (Conjunction × List Clause)
  | parts op cs => some (op, cs)
  | group (parts op cs) => some (op, cs)
  | _ => none

/-- The parts that a condition contributes to a list with a given conjunction: those of a list of
the same conjunction, else the condition itself. -/
def flattened (op : Conjunction) (c : Clause) : List Clause :=
  match c.conjunction? with
  | some (op', cs) => if op' = op then cs else [c]
  | none => [c]

/-- Inside a list, comparisons need no parentheses. -/
def groupedIn (c : Clause) : Clause :=
  match c with
  | hasRows q => group (hasRows q)
  | inverse c => group (inverse c)
  | c => c

/-- Conditions joined by a conjunction; a single one stays itself. -/
def combine (op : Conjunction) : List Clause → Clause
  | [c] => c
  | cs => parts op ((cs.flatMap (flattened op)).map groupedIn)

/-- The negation; text on its own has none. -/
def negate : Clause → Except Failure Clause
  | compare op c t => .ok (compare op.negate c t)
  | isNull c n => .ok (isNull c (!n))
  | amongValues c vs n => .ok (amongValues c vs (!n))
  | amongRows c q n => .ok (amongRows c q (!n))
  | raw _ => .error .negatedRawText
  | parts op cs => .ok (inverse (grouped (parts op cs)))
  | group c => .ok (truthOf (group c) true)
  | truthOf c n => .ok (truthOf c (!n))
  | inverse c => .ok (inverse (group (inverse c)))
  | hasRows q => .ok (inverse (group (hasRows q)))
  | validAt j d k i => .ok (inverse (group (validAt j d k i)))

end Clause

end Chronicle
