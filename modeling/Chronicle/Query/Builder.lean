import Chronicle.Query.OfRecord

/-!
# Building queries

Constructors that take values which have not been checked yet.  What does not fit is reported with
its place, as it is for plain data.
-/

namespace Chronicle

open Chronicle.Record

/-- The result of a construction, with its issues as the cause of a failure. -/
def Record.Checked.orFail {α : Type} : Checked α → Except Failure α
  | .ok a => .ok a
  | .error issues => .error (.invalidData issues)

namespace ColumnRef

/-- A reference from a qualified name: what stands before the first point is the relation. -/
def ofName (s : String) : Except Failure ColumnRef :=
  let cs := s.toList
  let table := cs.takeWhile (· != '.')
  match cs.dropWhile (· != '.') with
  | [] => .error (.notQualified s)
  | _ :: name =>
    if table.isEmpty || name.isEmpty then .error (.notQualified s)
    else .ok ⟨String.ofList table, String.ofList name⟩

end ColumnRef

namespace Predicate

def equal (column : ColumnRef) (v : Value) : Except Failure Predicate :=
  (Checked.orFail (Checked.under (.field "value") (Operand.ofRecord v))).map (.equality column)

def unequal (column : ColumnRef) (v : Value) : Except Failure Predicate :=
  (Checked.orFail (Checked.under (.field "value") (Operand.ofRecord v))).map (.notEqual column)

def compared (column : ColumnRef) (op : Comparator) (v : Value) : Except Failure Predicate :=
  (Checked.orFail (Checked.under (.field "value") (Operand.ofRecord v))).map
    (.comparison column op)

/-- What a value yields when it is gone through item by item. -/
def itemsOf : Value → Except Failure (List Value)
  | .list vs => .ok vs
  | .object fs => .ok (fs.map fun f => .text f.1)
  | .scalar (.text s) => .ok (s.toList.map fun c => .text c.toString)
  | .column ref =>
    .ok [.list [.text "table", .text ref.table], .list [.text "name", .text ref.name]]
  | _ => .error .notIterable

/-- Among the items of a value. -/
def among (column : ColumnRef) (v : Value) (negated : Bool) : Except Failure Predicate := do
  let items ← itemsOf v
  let values ← Checked.orFail (Checked.under (.field "values") (readItems scalar 0 items))
  return .membership column values none negated

/-- Among the rows of a subquery. -/
def amongRows (column : ColumnRef) (q : Query) (negated : Bool) : Predicate :=
  .membership column [] (some q) negated

/-- A part of a larger condition; something else has to be the data of one. -/
def part : Predicate → Checked Predicate
  | .foreign v => Predicate.ofRecord v
  | p => .ok p

def parts : Nat → List Predicate → Checked (List Predicate)
  | _, [] => .ok []
  | n, p :: ps =>
    (Checked.both (Checked.under (.index n) (part p)) (parts (n + 1) ps)).map fun (x, xs) => x :: xs

def group (ps : List Predicate) (conjunction : Conjunction) : Except Failure Predicate :=
  (Checked.orFail (Checked.under (.field "predicates") (parts 0 ps))).map (.grouping · conjunction)

def negated (p : Predicate) : Except Failure Predicate :=
  (Checked.orFail (Checked.under (.field "predicate") (part p))).map .negation

/-- Whether a subquery has rows. -/
def hasRows (q : Except Value Query) (negated : Bool) : Except Failure Predicate :=
  match q with
  | .ok q => .ok (.existence q negated)
  | .error v =>
    (Checked.orFail (Checked.under (.field "subquery") (Query.ofRecord v))).map (.existence · negated)

/-- A fragment of SQL; its text has to be one. -/
def fragment (sql : Value) (params : List (String × Value)) : Except Failure RawFragment :=
  (Checked.orFail (Checked.under (.field "sql") (Record.text sql))).map fun sql => ⟨sql, params⟩

end Predicate

namespace Join

def build (table given : Value) (on : List Predicate) (outer : Value) : Except Failure Join :=
  (Checked.orFail
    (Checked.both (Checked.under (.field "table") (Record.text table))
      (Checked.both (Checked.under (.field "alias") (nullable Record.text given))
        (Checked.both (Checked.under (.field "on") (Predicate.parts 0 on))
          (Checked.under (.field "outer") (truth outer)))))).map
    fun (name, given, on, outer) => .table name given on outer

def buildAsOf (fields : List (String × Value)) : Except Failure Join :=
  Checked.orFail (asOfOfRecord (.object fields))

end Join

namespace Projection

def buildColumn (ref : ColumnRef) (label : Value) : Except Failure Projection :=
  (Checked.orFail (Checked.under (.field "label") (nullable Record.text label))).map (.column ref)

def buildConstant (value label : Value) : Except Failure Projection :=
  (Checked.orFail (Checked.both (Checked.under (.field "value") (scalar value))
    (Checked.under (.field "label") (Record.text label)))).map fun (v, l) => .constant v l

def buildAll (table : Value) : Except Failure Projection :=
  (Checked.orFail (Checked.under (.field "table") (Record.text table))).map .allColumns

end Projection

namespace Limit

/-- Null is no limit; anything but a whole number is kept as it is. -/
def ofValue : Value → Limit
  | .scalar .null => .all
  | .scalar (.int n) => .rows n
  | v => .foreign v

end Limit

namespace Query

def build (table : Value) : Except Failure Query :=
  (Checked.orFail (Checked.under (.field "table") (Record.text table))).map ofTable

/-- Fields of built queries are never assigned again. -/
def assign (field : String) : Failure := .invalidData [⟨[.field field], "frozen_instance", none⟩]

end Query

end Chronicle
