import Chronicle.Value

/-!
# Queries

A query selects rows of one table.  It has joins in their order, conditions that all have to hold,
projections, an order, and a limit; a query that reads historic data carries the key of its
timestamp.

Conditions and joins refer to columns by the name of a relation: the table, or the alias under
which it is joined.  Input may put things that are no conditions or projections in their places;
they are kept as `foreign` and refused where a meaning is needed.
-/

namespace Chronicle

open Chronicle.Calendar

/-! ## Parts -/

/-- What a column is compared with. -/
inductive Operand
  | column (ref : ColumnRef)
  | value (s : Scalar)
  deriving DecidableEq, Repr, Inhabited

/-- The comparisons by order. -/
inductive Comparator
  | lt
  | lte
  | gt
  | gte
  deriving DecidableEq, Repr, Inhabited

inductive Conjunction
  | and
  | or
  deriving DecidableEq, Repr, Inhabited

/-- A condition or an order written in SQL, with named parameters. -/
structure RawFragment where
  sql : String
  params : List (String × Value)
  deriving Repr, Inhabited

/-- At most so many rows. -/
inductive Limit
  | all
  | rows (n : Int)
  | foreign (value : Value)
  deriving Repr, Inhabited

inductive Projection
  | column (ref : ColumnRef) (label : Option String)
  | constant (value : Scalar) (label : String)
  | allColumns (table : String)
  | foreign (value : Value)
  deriving Repr, Inhabited

inductive OrderTarget
  | column (ref : ColumnRef)
  | raw (fragment : RawFragment)
  deriving Repr, Inhabited

structure OrderBy where
  target : OrderTarget
  descending : Bool := false
  deriving Repr, Inhabited

/-! ## Conditions and queries -/

mutual

inductive Predicate
  /-- Equal; with null, is null. -/
  | equality (column : ColumnRef) (value : Operand)
  /-- Not equal; with null, is not null. -/
  | notEqual (column : ColumnRef) (value : Operand)
  | comparison (column : ColumnRef) (op : Comparator) (value : Operand)
  /-- Among values, or among the rows of a subquery if there is one. -/
  | membership (column : ColumnRef) (values : List Scalar) (subquery : Option Query)
      (negated : Bool)
  | raw (fragment : RawFragment)
  | grouping (predicates : List Predicate) (conjunction : Conjunction)
  | negation (predicate : Predicate)
  /-- Whether a subquery has rows. -/
  | existence (subquery : Query) (negated : Bool)
  | foreign (value : Value)

inductive Join
  | table (name : String) (givenName : Option String) (on : List Predicate) (outer : Bool)
  /-- Per entity, the one entry of the journal that was valid at a time. -/
  | asOf (entityType dataTable : String) (timestamp : Moment)

structure Query where
  table : String
  joins : List Join
  conditions : List Predicate
  projections : List Projection
  orders : List OrderBy
  limit : Limit
  /-- The key of the timestamp, once the query reads historic data. -/
  asOf : Option String
  readonly : Bool

end

instance : Inhabited Query := ⟨⟨"", [], [], [], [], .all, none, false⟩⟩
instance : Inhabited Predicate := ⟨.grouping [] .and⟩
instance : Inhabited Join := ⟨.table "" none [] false⟩

namespace Join

/-- The name by which the other clauses refer to the relation; an empty alias is none. -/
def relation : Join → String
  | .table name given _ _ => match given with
    | some a => if a = "" then name else a
    | none => name
  | .asOf _ _ _ => "journals"

def isAsOf : Join → Bool
  | .asOf _ _ _ => true
  | .table _ _ _ _ => false

end Join

namespace Projection

/-- The name of the column in the result. -/
def outputName : Projection → String
  | .column ref label => match label with
    | some l => if l = "" then ref.name else l
    | none => ref.name
  | .constant _ label => label
  | _ => ""

end Projection

namespace Predicate

/-- The name of a kind of condition in messages. -/
def kindName : Predicate → String
  | .equality _ _ => "Equality"
  | .notEqual _ _ => "NotEqual"
  | .comparison _ _ _ => "Comparison"
  | .membership _ _ _ _ => "Membership"
  | .raw _ => "RawFragment"
  | .grouping _ _ => "Grouping"
  | .negation _ => "Negation"
  | .existence _ _ => "Exists"
  | .foreign v => v.typeName

end Predicate

namespace Query

/-- All columns of all rows of a table. -/
def ofTable (table : String) : Query := ⟨table, [], [], [], [], .all, none, false⟩

def filterBy (q : Query) (ps : List Predicate) : Query :=
  { q with conditions := q.conditions ++ ps }

def joined (q : Query) (js : List Join) : Query := { q with joins := q.joins ++ js }

def selecting (q : Query) (ps : List Projection) : Query := { q with projections := ps }

def orderedBy (q : Query) (os : List OrderBy) : Query := { q with orders := q.orders ++ os }

def limited (q : Query) (limit : Limit) : Query := { q with limit := limit }

theorem filterBy_nil (q : Query) : q.filterBy [] = q := by cases q; simp [filterBy]

theorem filterBy_filterBy (q : Query) (ps rs : List Predicate) :
    (q.filterBy ps).filterBy rs = q.filterBy (ps ++ rs) := by
  simp [filterBy]

theorem joined_joined (q : Query) (js ks : List Join) :
    (q.joined js).joined ks = q.joined (js ++ ks) := by
  simp [joined]

end Query

end Chronicle
