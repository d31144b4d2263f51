import Chronicle.Query.Basic

/-!
# Queries as plain data

Every part of a query is written as a record that names its kind, with all fields present.
-/

namespace Chronicle

namespace ColumnRef

def toRecord (c : ColumnRef) : Value := .object [("table", .text c.table), ("name", .text c.name)]

end ColumnRef

namespace Operand

def toRecord : Operand → Value
  | column ref => ref.toRecord
  | value s => .scalar s

end Operand

namespace Comparator

def word : Comparator → String
  | lt => "lt"
  | lte => "lte"
  | gt => "gt"
  | gte => "gte"

/-- All comparisons under their words. -/
def words : List (String × Comparator) := [("lt", lt), ("lte", lte), ("gt", gt), ("gte", gte)]

theorem lookup_word (c : Comparator) : words.lookup c.word = some c := by cases c <;> decide

end Comparator

namespace Conjunction

def word : Conjunction → String
  | and => "and"
  | or => "or"

def words : List (String × Conjunction) := [("and", and), ("or", or)]

theorem lookup_word (c : Conjunction) : words.lookup c.word = some c := by cases c <;> decide

end Conjunction

namespace RawFragment

def toRecord (r : RawFragment) : Value :=
  .object [("kind", .text "raw"), ("sql", .text r.sql), ("params", .object r.params)]

end RawFragment

def optionalText : Option String → Value
  | some s => .text s
  | none => .null

namespace Projection

def toRecord : Projection → Value
  | column ref label =>
    .object [("kind", .text "column"), ("ref", ref.toRecord), ("label", optionalText label)]
  | constant value label =>
    .object [("kind", .text "constant"), ("value", .scalar value), ("label", .text label)]
  | allColumns table => .object [("kind", .text "all_columns"), ("table", .text table)]
  | foreign v => v

end Projection

namespace OrderTarget

def toRecord : OrderTarget → Value
  | column ref => ref.toRecord
  | raw fragment => fragment.toRecord

end OrderTarget

namespace OrderBy

def toRecord (o : OrderBy) : Value :=
  .object [("target", o.target.toRecord), ("descending", .bool o.descending)]

end OrderBy

namespace Limit

def toRecord : Limit → Value
  | all => .null
  | rows n => .int n
  | foreign v => v

end Limit

mutual

def Predicate.toRecord : Predicate → Value
  | .equality column value =>
    .object [("kind", .text "equality"), ("column", column.toRecord), ("value", value.toRecord)]
  | .notEqual column value =>
    .object [("kind", .text "not_equal"), ("column", column.toRecord), ("value", value.toRecord)]
  | .comparison column op value =>
    .object [("kind", .text "comparison"), ("column", column.toRecord), ("op", .text op.word),
      ("value", value.toRecord)]
  | .membership column values none negated =>
    .object [("kind", .text "membership"), ("column", column.toRecord),
      ("values", .list (values.map .scalar)), ("subquery", .null), ("negated", .bool negated)]
  | .membership column values (some q) negated =>
    .object [("kind", .text "membership"), ("column", column.toRecord),
      ("values", .list (values.map .scalar)), ("subquery", q.toRecord), ("negated", .bool negated)]
  | .raw fragment => fragment.toRecord
  | .grouping ps conjunction =>
    .object [("kind", .text "grouping"), ("predicates", .list (Predicate.toRecords ps)),
      ("conjunction", .text conjunction.word)]
  | .negation p => .object [("kind", .text "negation"), ("predicate", p.toRecord)]
  | .existence q negated =>
    .object [("kind", .text "exists"), ("subquery", q.toRecord), ("negated", .bool negated)]
  | .foreign v => v

def Predicate.toRecords : List Predicate → List Value
  | [] => []
  | p :: ps => p.toRecord :: Predicate.toRecords ps

def Join.toRecord : Join → Value
  | .table name given on outer =>
    .object [("kind", .text "join"), ("table", .text name), ("alias", optionalText given),
      ("on", .list (Predicate.toRecords on)), ("outer", .bool outer)]
  | .asOf entityType dataTable timestamp =>
    .object [("kind", .text "as_of_join"), ("entity_type", .text entityType),
      ("data_table", .text dataTable), ("timestamp", .moment timestamp)]

def Join.toRecords : List Join → List Value
  | [] => []
  | j :: js => j.toRecord :: Join.toRecords js

def Query.toRecord : Query → Value
  | ⟨table, joins, conditions, projections, orders, limit, asOf, readonly⟩ =>
    .object [("table", .text table), ("joins", .list (Join.toRecords joins)),
      ("where", .list (Predicate.toRecords conditions)),
      ("projections", .list (projections.map Projection.toRecord)),
      ("order_by", .list (orders.map OrderBy.toRecord)), ("limit", limit.toRecord),
      ("as_of", optionalText asOf), ("readonly", .bool readonly)]

end

theorem Predicate.toRecords_eq_map (ps : List Predicate) :
    Predicate.toRecords ps = ps.map Predicate.toRecord := by
  induction ps with
  | nil => rfl
  | cons p ps ih => simp [Predicate.toRecords, ih]

theorem Join.toRecords_eq_map (js : List Join) : Join.toRecords js = js.map Join.toRecord := by
  induction js with
  | nil => rfl
  | cons j js ih => simp [Join.toRecords, ih]

end Chronicle
