import Chronicle.Query.ToRecord
import Chronicle.Record.Moment

/-!
# Queries from plain data

The reading of what `Query.toRecord` writes, and of all records with the same fields: fields that
may be left out have a value for that, unknown ones are passed over, and everything that is wrong
is reported with its place.

The reading of nested parts is bounded by the depth of the data.
-/

namespace Chronicle

open Chronicle.Record

namespace Value

mutual

/-- How deep lists and records are nested. -/
def depth : Value → Nat
  | .list items => itemsDepth items + 1
  | .object fs => fieldsDepth fs + 1
  | _ => 0

def itemsDepth : List Value → Nat
  | [] => 0
  | v :: vs => max (depth v) (itemsDepth vs)

def fieldsDepth : List (String × Value) → Nat
  | [] => 0
  | (_, v) :: fs => max (depth v) (fieldsDepth fs)

end

end Value

/-! ## Parts without nesting -/

namespace ColumnRef

def ofRecord : Value → Checked ColumnRef
  | .column ref => .ok ref
  | v => (Record.fields v).bind fun fs =>
    (Checked.both (required fs "table" Record.text) (required fs "name" Record.text)).map
      fun (table, name) => ⟨table, name⟩

theorem ofRecord_toRecord (c : ColumnRef) : ofRecord c.toRecord = .ok c := rfl

end ColumnRef

namespace Operand

/-- A column reference or a single value; anything else is refused as each of them. -/
def ofRecord : Value → Checked Operand
  | .scalar s => .ok (.value s)
  | v => match ColumnRef.ofRecord v with
    | .ok ref => .ok (.column ref)
    | .error issues => .error (issues.map (·.under (.field "ColumnRef")) ++ scalarIssues)

theorem ofRecord_toRecord (o : Operand) : ofRecord o.toRecord = .ok o := by
  cases o <;> rfl

end Operand

/-- A record that says its kind says the right one. -/
def named (fs : List (String × Value)) (kind : String) : Checked Unit :=
  optional fs "kind" () (oneOf [(kind, ())])

namespace RawFragment

def ofRecord (v : Value) : Checked RawFragment :=
  (Record.fields v).bind fun fs =>
    (Checked.both (named fs "raw")
      (Checked.both (required fs "sql" Record.text)
        (optional fs "params" [] fun p => match p with
          | .object ps => .ok ps
          | _ => refuse "dict_type"))).map
      fun (_, sql, params) => ⟨sql, params⟩

theorem ofRecord_toRecord (r : RawFragment) : ofRecord r.toRecord = .ok r := rfl

end RawFragment

namespace OrderTarget

/-- A record names all fields of a fragment. -/
def isWholeFragment : Value → Bool
  | .object fs => ["kind", "sql", "params"].all fun n => (fs.lookup n).isSome
  | _ => false

/-- A column reference or a fragment of SQL.  What could be either is a fragment if it names all
fields of one, which are more than those of a reference. -/
def ofRecord (v : Value) : Checked OrderTarget :=
  let asColumn := Checked.under (.field "ColumnRef") ((ColumnRef.ofRecord v).map column)
  let asFragment := Checked.under (.field "RawFragment") ((RawFragment.ofRecord v).map raw)
  match isWholeFragment v, asFragment with
  | true, .ok target => .ok target
  | _, _ => Checked.orElse asColumn asFragment

end OrderTarget

namespace OrderBy

def ofRecord (v : Value) : Checked OrderBy :=
  (Record.fields v).bind fun fs =>
    (Checked.both (required fs "target" OrderTarget.ofRecord)
      (optional fs "descending" false truth)).map
      fun (target, descending) => ⟨target, descending⟩

end OrderBy

/-! ## Parts told apart by their kind -/

/-- Reads a record by the reader for the kind that it names. -/
def ofKind {α : Type} (readers : List (String × (Value → Checked α))) : Value → Checked α
  | .object fs => match fs.lookup "kind" with
    | some (.scalar (.text kind)) => match readers.lookup kind with
      | some read => Checked.under (.field kind) (read (.object fs))
      | none => refuse "union_tag_invalid"
    | some _ => refuse "union_tag_invalid"
    | none => refuse "union_tag_not_found"
  | .column _ => refuse "union_tag_not_found"
  | .timestamp _ => refuse "union_tag_not_found"
  | _ => refuse "model_attributes_type"

namespace Projection

def columnOfRecord (v : Value) : Checked Projection :=
  (Record.fields v).bind fun fs =>
    (Checked.both (required fs "ref" ColumnRef.ofRecord)
      (optional fs "label" none (nullable Record.text))).map
      fun (ref, label) => .column ref label

def constantOfRecord (v : Value) : Checked Projection :=
  (Record.fields v).bind fun fs =>
    (Checked.both (required fs "value" scalar) (required fs "label" Record.text)).map
      fun (value, label) => .constant value label

def allColumnsOfRecord (v : Value) : Checked Projection :=
  (Record.fields v).bind fun fs => (required fs "table" Record.text).map .allColumns

def ofRecord : Value → Checked Projection :=
  ofKind [("column", columnOfRecord), ("constant", constantOfRecord),
    ("all_columns", allColumnsOfRecord)]

end Projection

namespace Limit

def ofRecord (v : Value) : Checked Limit :=
  (nullable whole v).map fun n => n.elim .all .rows

end Limit

namespace Predicate

def equalityOfRecord (v : Value) : Checked Predicate :=
  (Record.fields v).bind fun fs =>
    (Checked.both (required fs "column" ColumnRef.ofRecord)
      (optional fs "value" (.value .null) Operand.ofRecord)).map
      fun (column, value) => .equality column value

def notEqualOfRecord (v : Value) : Checked Predicate :=
  (Record.fields v).bind fun fs =>
    (Checked.both (required fs "column" ColumnRef.ofRecord)
      (optional fs "value" (.value .null) Operand.ofRecord)).map
      fun (column, value) => .notEqual column value

def comparisonOfRecord (v : Value) : Checked Predicate :=
  (Record.fields v).bind fun fs =>
    (Checked.both (required fs "column" ColumnRef.ofRecord)
      (Checked.both (required fs "op" (oneOf Comparator.words))
        (required fs "value" Operand.ofRecord))).map
      fun (column, op, value) => .comparison column op value

def rawOfRecord (v : Value) : Checked Predicate := (RawFragment.ofRecord v).map .raw

def groupingOfRecord (readPredicate : Value → Checked Predicate) (v : Value) : Checked Predicate :=
  (Record.fields v).bind fun fs =>
    (Checked.both (named fs "grouping")
      (Checked.both (required fs "predicates" (listOf "tuple_type" readPredicate))
        (optional fs "conjunction" .and (oneOf Conjunction.words)))).map
      fun (_, ps, conjunction) => .grouping ps conjunction

def negationOfRecord (readPredicate : Value → Checked Predicate) (v : Value) : Checked Predicate :=
  (Record.fields v).bind fun fs => (required fs "predicate" readPredicate).map .negation

def membershipOfRecord (readQuery : Value → Checked Query) (v : Value) : Checked Predicate :=
  (Record.fields v).bind fun fs =>
    (Checked.both (required fs "column" ColumnRef.ofRecord)
      (Checked.both (optional fs "values" [] (listOf "tuple_type" scalar))
        (Checked.both (optional fs "subquery" none (nullable readQuery))
          (optional fs "negated" false truth)))).map
      fun (column, values, subquery, negated) => .membership column values subquery negated

def existenceOfRecord (readQuery : Value → Checked Query) (v : Value) : Checked Predicate :=
  (Record.fields v).bind fun fs =>
    (Checked.both (required fs "subquery" readQuery) (optional fs "negated" false truth)).map
      fun (subquery, negated) => .existence subquery negated

end Predicate

namespace Join

def tableOfRecord (readPredicate : Value → Checked Predicate) (v : Value) : Checked Join :=
  (Record.fields v).bind fun fs =>
    (Checked.both (named fs "join")
      (Checked.both (required fs "table" Record.text)
        (Checked.both (optional fs "alias" none (nullable Record.text))
          (Checked.both (required fs "on" (listOf "tuple_type" readPredicate))
            (optional fs "outer" false truth))))).map
      fun (_, name, given, on, outer) => .table name given on outer

def asOfOfRecord (v : Value) : Checked Join :=
  (Record.fields v).bind fun fs =>
    (Checked.both (named fs "as_of_join")
      (Checked.both (required fs "entity_type" Record.text)
        (Checked.both (required fs "data_table" Record.text)
          (required fs "timestamp" Record.moment)))).map
      fun (_, entityType, dataTable, timestamp) => .asOf entityType dataTable timestamp

end Join

/-! ## The whole -/

mutual

/-- A condition in data at most `fuel` levels deep. -/
def predicateOfRecord : Nat → Value → Checked Predicate
  | 0, _ => .error []
  | fuel + 1, v =>
    ofKind [("equality", Predicate.equalityOfRecord),
      ("not_equal", Predicate.notEqualOfRecord),
      ("comparison", Predicate.comparisonOfRecord),
      ("membership", Predicate.membershipOfRecord (queryOfRecord fuel)),
      ("raw", Predicate.rawOfRecord),
      ("grouping", Predicate.groupingOfRecord (predicateOfRecord fuel)),
      ("negation", Predicate.negationOfRecord (predicateOfRecord fuel)),
      ("exists", Predicate.existenceOfRecord (queryOfRecord fuel))] v

/-- A join in data at most `fuel` levels deep. -/
def joinOfRecord : Nat → Value → Checked Join
  | 0, _ => .error []
  | fuel + 1, v =>
    ofKind [("join", Join.tableOfRecord (predicateOfRecord fuel)), ("as_of_join", Join.asOfOfRecord)]
      v

/-- A query in data at most `fuel` levels deep. -/
def queryOfRecord : Nat → Value → Checked Query
  | 0, _ => .error []
  | fuel + 1, v =>
    (Record.fields v).bind fun fs =>
      (Checked.both (required fs "table" Record.text)
        (Checked.both (optional fs "joins" [] (listOf "tuple_type" (joinOfRecord fuel)))
          (Checked.both (optional fs "where" [] (listOf "tuple_type" (predicateOfRecord fuel)))
            (Checked.both (optional fs "projections" [] (listOf "tuple_type" Projection.ofRecord))
              (Checked.both (optional fs "order_by" [] (listOf "tuple_type" OrderBy.ofRecord))
                (Checked.both (optional fs "limit" .all Limit.ofRecord)
                  (Checked.both (optional fs "as_of" none (nullable Record.text))
                    (optional fs "readonly" false truth)))))))).map
        fun (table, joins, conditions, projections, orders, limit, asOf, readonly) =>
          ⟨table, joins, conditions, projections, orders, limit, asOf, readonly⟩

end

namespace Predicate

def ofRecord (v : Value) : Checked Predicate := predicateOfRecord (v.depth + 1) v

end Predicate

namespace Query

def ofRecord (v : Value) : Checked Query := queryOfRecord (v.depth + 1) v

end Query

end Chronicle
