import Chronicle.Statement.Basic
import Chronicle.Statement.Fragment

/-!
# From queries to statements

Relations are resolved in the order of the joins, so a join may refer only to relations before it
and to itself; the other clauses see all of them, and a subquery sees its own.
-/

namespace Chronicle

open Chronicle.Calendar

/-- The relations known so far by name; a later one hides an earlier one of its name. -/
abbrev Scope := List (String × Source)

namespace Scope

def column (scope : Scope) (ref : ColumnRef) : Except Failure SourceColumn :=
  match scope.lookup ref.table with
  | none => .error (.notARelation ref.table ref.qualifiedName)
  | some s => match s.column? ref.name with
    | some c => .ok c
    | none => .error (.unknownColumn ref.qualifiedName)

end Scope

def findTable (name : String) : Except Failure Table :=
  match Schema.table? name with
  | some t => .ok t
  | none => .error (.unknownTable name)

namespace Clause

/-- Truth values are written out where the column is not of a type with its own way to bind
values. -/
def writesTruth (c : SourceColumn) : Bool :=
  c.column.type == .integer || c.column.type == .boolean

def comparator : Comparator → Relator
  | .lt => .lt
  | .lte => .le
  | .gt => .gt
  | .gte => .ge

/-- Moments are compared in UTC. -/
def inUtc : Scalar → Except Failure Scalar
  | .moment m => m.toInstant.map fun i => .moment i.moment
  | s => .ok s

def equation (op : Relator) (c : SourceColumn) (s : Scalar) : Except Failure Clause :=
  match s with
  | .null => .ok (isNull c (op == .ne))
  | .bool b => .ok (compare op c (if writesTruth c then .truth b else .value (.bool b)))
  | s => (inUtc s).map fun s => compare op c (.value s)

def ordering (op : Relator) (c : SourceColumn) (s : Scalar) : Except Failure Clause :=
  match s with
  | .null => .error .orderedAgainstNothing
  | .bool b =>
    if writesTruth c then .error .orderedAgainstNothing
    else .ok (compare op c (.value (.bool b)))
  | s => (inUtc s).map fun s => compare op c (.value s)

end Clause

/-- A fragment may only give values to parameters that occur in its text, and to none with a
reserved name. -/
def checkFragment (r : RawFragment) : Except Failure RawFragment :=
  if r.params.any fun p => Fragment.reserved.contains p.1 then .error .badArgument
  else if r.params.all fun p => (Fragment.declared r.sql).contains p.1 then .ok r
  else .error .parameterNotInText

namespace Limit

/-- The number of rows a limit stands for. -/
def count : Limit → Except Failure (Option Int)
  | all => .ok none
  | rows n => .ok (some n)
  | foreign (.scalar (.bool b)) => .ok (some (Scalar.ofBool b))
  | foreign (.scalar (.float x)) =>
    match x.truncate?, x with
    | some n, _ => .ok (some n)
    | none, .nan => .error .notANumber
    | none, _ => .error .outOfCalendar
  | foreign (.scalar (.text s)) =>
    match Fragment.wholeNumber? s with
    | some n => .ok (some n)
    | none => .error .notANumber
  | foreign _ => .error .badArgument

end Limit

namespace OutputColumn

def ofProjection (scope : Scope) : Projection → Except Failure (List OutputColumn)
  | .column ref label => do
    let c ← scope.column ref
    return [.column c (label.filter (· ≠ ""))]
  | .constant value label => .ok [.constant value label]
  | .allColumns table =>
    match scope.lookup table with
    | some s => .ok (s.columns.map fun c => .column c none)
    | none => .error (.relationNotInQuery table)
  | .foreign v => .error (.unknownProjection v.typeName)

end OutputColumn

namespace OrderExpr

def ofOrder (scope : Scope) (o : OrderBy) : Except Failure (OrderExpr × Bool) :=
  match o.target with
  | .column ref => (scope.column ref).map fun c => (.column c, o.descending)
  | .raw r => (checkFragment r).map fun r => (.raw r, o.descending)

end OrderExpr

/-- The columns of a result: those asked for, or all of the base table. -/
def outputColumns (scope : Scope) (table : String) (ps : List Projection) :
    Except Failure (List OutputColumn) :=
  match ps with
  | [] => match scope.lookup table with
    | some s => .ok (s.columns.map fun c => .column c none)
    | none => .error (.relationNotInQuery table)
  | ps => (ps.mapM (OutputColumn.ofProjection scope)).map List.flatten

mutual

def Predicate.compile (scope : Scope) : Predicate → Except Failure Clause
  | .equality ref v => do
    let c ← scope.column ref
    match v with
    | .column r => return .compare .eq c (.column (← scope.column r))
    | .value s => Clause.equation .eq c s
  | .notEqual ref v => do
    let c ← scope.column ref
    match v with
    | .column r => return .compare .ne c (.column (← scope.column r))
    | .value s => Clause.equation .ne c s
  | .comparison ref op v => do
    let c ← scope.column ref
    match v with
    | .column r => return .compare (Clause.comparator op) c (.column (← scope.column r))
    | .value s => Clause.ordering (Clause.comparator op) c s
  | .membership ref values none negated => do
    let c ← scope.column ref
    return .amongValues c (← values.mapM Clause.inUtc) negated
  | .membership ref _ (some q) negated => do
    let c ← scope.column ref
    return .amongRows c (← q.compile) negated
  | .raw r => (checkFragment r).map .raw
  | .grouping ps conjunction => do
    let cs ← Predicate.compileAll scope ps
    return (Clause.combine conjunction cs).grouped
  | .negation p => do
    let c ← p.compile scope
    c.negate
  | .existence q negated => do
    let s ← q.compile
    if negated then (Clause.hasRows s).negate else return .hasRows s
  | .foreign v => .error (.unknownPredicate v.typeName)

def Predicate.compileAll (scope : Scope) : List Predicate → Except Failure (List Clause)
  | [] => .ok []
  | p :: ps => do
    let c ← p.compile scope
    let cs ← Predicate.compileAll scope ps
    return c :: cs

/-- The join at a place, and the relations known after it. -/
def Join.compile (scope : Scope) (place : Nat) : Join → Except Failure (JoinedSource × Scope)
  | .table name given on outer => do
    let table ← findTable name
    let given := given.filter (· ≠ "")
    let source : Source := ⟨table, given, if given.isSome then place else 0⟩
    let scope := (source.name, source) :: scope
    let cs ← Predicate.compileAll scope on
    return (.mk source (Clause.combine .and cs) outer, scope)
  | .asOf entityType dataTable timestamp => do
    let source : Source := ⟨Schema.journals, none, 0⟩
    let scope := (source.name, source) :: scope
    match scope.lookup dataTable with
    | none => throw (.missingDataTable dataTable)
    | some data =>
      let instant ← timestamp.toInstant
      return (.mk source (.validAt source data entityType instant) false, scope)

def Join.compileAll (scope : Scope) (place : Nat) :
    List Join → Except Failure (List JoinedSource × Scope)
  | [] => .ok ([], scope)
  | j :: js => do
    let (s, scope) ← j.compile scope place
    let (ss, scope) ← Join.compileAll scope (place + 1) js
    return (s :: ss, scope)

def Query.compile : Query → Except Failure Select
  | ⟨table, joins, conditions, projections, orders, limit, _, _⟩ => do
    let base : Source := ⟨← findTable table, none, 0⟩
    let (joins, scope) ← Join.compileAll [(table, base)] 1 joins
    let columns ← outputColumns scope table projections
    let conditions ← Predicate.compileAll scope conditions
    let orders ← orders.mapM (OrderExpr.ofOrder scope)
    let limit ← limit.count
    return ⟨columns, base, joins, conditions, orders, limit⟩

end

end Chronicle
