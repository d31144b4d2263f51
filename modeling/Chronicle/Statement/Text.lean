import Chronicle.Statement.Compile
import Chronicle.Statement.Name

/-!
# The text of statements

A statement is written as SQL with named parameters.  Parameters are named for the column they are
compared with and are numbered in the order in which they appear.

* `Select.render`: the text, and the parameters with their values;
* `Select.keys`: the names under which the columns of the result are known.
-/

namespace Chronicle

open Chronicle.Calendar Chronicle.Statement

/-! ## Parameters -/

/-- What a parameter stands for. -/
inductive ParamValue
  | one (v : Value)
  /-- The values of a list, which is spread out when the statement runs. -/
  | many (vs : List Scalar)
  deriving Repr, Inhabited

structure Param where
  name : String
  value : ParamValue
  /-- Named by the library, and not to be confused with one of the same name. -/
  generated : Bool
  deriving Repr, Inhabited

namespace ParamValue

def toValue : ParamValue → Value
  | one v => v
  | many vs => .list (vs.map .scalar)

end ParamValue

/-- What is known while a statement is written: the next numbers and the parameters so far. -/
structure Naming where
  counters : Counters
  params : List Param
  deriving Inhabited

/-- A piece of text that may name parameters. -/
abbrev Written (α : Type) := StateT Naming (Except Failure) α

namespace Naming

def empty : Naming := ⟨[], []⟩

/-- The parameters of a finished statement; of several with one name the last one counts. -/
def values (n : Naming) : List (String × Value) :=
  n.params.foldl
    (fun known p => (known.filter fun k => k.1 != p.name) ++ [(p.name, p.value.toValue)]) []

end Naming

def freshName (s : String) : Written String := fun n =>
  let (name, counters) := n.counters.fresh s
  .ok (name, { n with counters := counters })

/-- Two parameters of one name are refused if either name was generated. -/
def addParam (p : Param) : Written Unit := fun n =>
  if n.params.any fun q => q.name == p.name && (p.generated || q.generated) then
    .error .clashingParameters
  else .ok ((), { n with params := n.params ++ [p] })

/-- A generated parameter, written with its colon. -/
def generated (s : String) (v : ParamValue) : Written String := do
  let name ← freshName s
  addParam ⟨name, v, true⟩
  return ":" ++ name

/-! ## Pieces -/

namespace Source

def writtenName (s : Source) : String := written s.name

def definition (s : Source) : String :=
  match s.givenName with
  | some a => s.table.name ++ " AS " ++ written a
  | none => s.table.name

end Source

namespace SourceColumn

def writtenName (c : SourceColumn) : String := c.source.writtenName ++ "." ++ c.column.name

end SourceColumn

namespace RawFragment

def writePieces (params : List (String × Value)) : List Fragment.Piece → Written String
  | [] => return ""
  | .text c :: rest => return c.toString ++ (← writePieces params rest)
  | .param name :: rest => do
    addParam ⟨name, .one ((params.lookup name).getD .null), false⟩
    return ":" ++ name ++ (← writePieces params rest)

def write (r : RawFragment) : Written String := writePieces r.params (Fragment.pieces r.sql)

end RawFragment

def Conjunction.separator : Conjunction → String
  | and => " AND "
  | or => " OR "

/-- Joined by a separator, with empty texts left out. -/
def joinTexts (separator : String) (texts : List String) : String :=
  String.intercalate separator (texts.filter (· ≠ ""))

/-! ## Columns of the result -/

/-- Tells output columns apart: the column itself, or the place of a label. -/
inductive Identity
  | column (c : SourceColumn)
  | place (n : Nat)
  deriving DecidableEq, Repr

namespace OutputColumn

/-- The label that is written, if one was asked for. -/
def label? : OutputColumn → Option String
  | column _ label => label
  | constant _ label => if label = "" then none else some label

/-- The name before anything is done about repetitions; a constant may have none. -/
def plainName? : OutputColumn → Option String
  | column c none => some c.column.name
  | column _ (some l) => some l
  | constant _ label => if label = "" then none else some label

def identity (place : Nat) : OutputColumn → Identity
  | column c none => .column c
  | _ => .place place

end OutputColumn

/-- What is known while the columns are written: names in use, and the names that were made for
repeated ones. -/
structure Labels where
  inUse : List (String × Identity)
  made : List (Identity × String)

namespace Labels

def empty : Labels := ⟨[], []⟩

end Labels

/-- The label for a column whose name is in use: one for another column of the name, or one more
for the same column again. -/
def repeatedLabel (labels : Labels) (name : String) (id : Identity) : Written (String × Labels) := do
  if labels.inUse.lookup name == some id then
    return (← freshName (stem name ++ "_"), labels)
  else
    match labels.made.lookup id with
    | some _ => return (← freshName (stem name ++ "_"), labels)
    | none =>
      let label ← freshName (stem name)
      return (label, ⟨(label, id) :: labels.inUse, (id, label) :: labels.made⟩)

def writeColumn (place : Nat) (labels : Labels) (c : OutputColumn) :
    Written (String × String × Labels) := do
  let id := c.identity place
  let text ← match c with
    | .column sc _ => pure sc.writtenName
    | .constant v _ => generated "param" (.one (.scalar v))
  match c.label? with
  | some l => return (text ++ " AS " ++ written l, l, ⟨labels.inUse ++ [(l, id)], labels.made⟩)
  | none =>
    match c.plainName? with
    | none =>
      let l ← freshName "anon"
      return (text ++ " AS " ++ l, l, labels)
    | some name =>
      if (labels.inUse.lookup name).isSome then
        let (l, labels) ← repeatedLabel labels name id
        return (text ++ " AS " ++ l, l, labels)
      else return (text, name, { labels with inUse := labels.inUse ++ [(name, id)] })

/-- The texts of the columns, each with the name it has in a row. -/
def writeColumns : Nat → Labels → List OutputColumn → Written (List (String × String))
  | _, _, [] => return []
  | place, labels, c :: cs => do
    let (text, name, labels) ← writeColumn place labels c
    return (text, name) :: (← writeColumns (place + 1) labels cs)

/-! ## Conditions and statements -/

def writeTerm (c : SourceColumn) : Term → Written String
  | .column d => return d.writtenName
  | .value s => generated (stem c.column.name) (.one (.scalar s))
  | .truth b => return if b then "true" else "false"

/-- The entry valid at an instant; the instant is one parameter in two places. -/
def writeValidAt (data : Source) (entityType : String) (instant : Instant) : Written String := do
  let kind ← generated "entity_type" (.one (.text entityType))
  let moment ← generated "param" (.one (.instant instant))
  let latest ← freshName "max"
  return "journals.entity_type = " ++ kind ++ " AND journals.data_id = " ++ data.writtenName ++
    ".id AND journals.recorded_at <= " ++ moment ++
    " AND journals.version = (SELECT max(journals_before.version) AS " ++ latest ++
    " \nFROM journals AS journals_before \nWHERE journals_before.entity_type = " ++
    "journals.entity_type AND journals_before.entity_id = journals.entity_id AND " ++
    "journals_before.recorded_at <= " ++ moment ++ ")"

mutual

def Clause.write : Clause → Written String
  | .compare op c t => do
    let term ← writeTerm c t
    return c.writtenName ++ " " ++ op.symbol ++ " " ++ term
  | .isNull c negated =>
    return c.writtenName ++ (if negated then " IS NOT NULL" else " IS NULL")
  | .amongValues c vs negated => do
    let name ← freshName (stem c.column.name)
    addParam ⟨name, .many vs, true⟩
    let text := c.writtenName ++ (if negated then " NOT IN " else " IN ") ++
      "(__[POSTCOMPILE_" ++ name ++ "])"
    return if negated then "(" ++ text ++ ")" else text
  | .amongRows c q negated => do
    let rows ← q.write
    let text := c.writtenName ++ (if negated then " NOT IN (" else " IN (") ++ rows ++ ")"
    return if negated then "(" ++ text ++ ")" else text
  | .raw r => r.write
  | .parts op cs => do
    let texts ← Clause.writeAll cs
    return joinTexts op.separator texts
  | .group c => return "(" ++ (← c.write) ++ ")"
  | .truthOf c negated => do
    let text ← c.write
    return if negated then "NOT " ++ text else text
  | .inverse c => return "NOT " ++ (← c.write)
  | .hasRows q => return "EXISTS (" ++ (← q.write) ++ ")"
  | .validAt _ data kind instant => writeValidAt data kind instant

def Clause.writeAll : List Clause → Written (List String)
  | [] => return []
  | c :: cs => do
    let text ← c.write
    let texts ← Clause.writeAll cs
    return text :: texts

def JoinedSource.write : JoinedSource → Written String
  | .mk source on outer => do
    let condition ← on.write
    return (if outer then " LEFT OUTER JOIN " else " JOIN ") ++ source.definition ++ " ON " ++
      condition

def JoinedSource.writeAll : List JoinedSource → Written String
  | [] => return ""
  | j :: js => do
    let text ← j.write
    let texts ← JoinedSource.writeAll js
    return text ++ texts

def Select.write : Select → Written String
  | ⟨columns, base, joins, conditions, orders, limit⟩ => do
    let columns ← writeColumns 0 Labels.empty columns
    let joins ← JoinedSource.writeAll joins
    let conditions ← Clause.writeAll conditions
    let condition := joinTexts " AND " conditions
    let orders ← orders.mapM fun (e, descending) => do
      let text ← match e with
        | .column c => pure c.writtenName
        | .raw r => r.write
      return text ++ (if descending then " DESC" else " ASC")
    let limit ← match limit with
      | none => pure ""
      | some n => do
        let p ← generated "param" (.one (.int n))
        pure ("\n LIMIT " ++ p)
    return "SELECT " ++ String.intercalate ", " (columns.map (·.1)) ++ " \nFROM " ++
      base.definition ++ joins ++ (if condition = "" then "" else " \nWHERE " ++ condition) ++
      (if orders.isEmpty then "" else " ORDER BY " ++ String.intercalate ", " orders) ++ limit

end

namespace Select

/-- The text of a statement and its parameters. -/
def render (s : Select) : Except Failure (String × List (String × Value)) :=
  (s.write.run Naming.empty).map fun (text, naming) => (text, naming.values)

/-! ## Keys of the result -/

/-- The key for a name that is in use: one per column, the same for each repetition of it. -/
def repeatedKey (counters : Counters) (made : List ((Identity × String) × String)) (name : String)
    (id : Identity) : String × Counters × List ((Identity × String) × String) :=
  match made.lookup (id, name) with
  | some key => (key, counters, made)
  | none =>
    let (key, counters) := counters.fresh (stem name)
    (key, counters, ((id, name), key) :: made)

def keysFrom : Nat → List String → Counters → List ((Identity × String) × String) →
    List OutputColumn → List String
  | _, _, _, _, [] => []
  | place, inUse, counters, made, c :: cs =>
    let name := c.plainName?.getD "_no_label"
    if inUse.contains name then
      let (key, counters, made) := repeatedKey counters made name (c.identity place)
      key :: keysFrom (place + 1) inUse counters made cs
    else name :: keysFrom (place + 1) (name :: inUse) counters made cs

/-- The names under which the columns of a statement are known. -/
def keys (s : Select) : List String := keysFrom 0 [] [] [] s.columns

end Select

end Chronicle
