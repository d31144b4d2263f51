import Chronicle.Store.Cell
import Chronicle.Text.Digit

/-!
# Rows

A row gives the columns of a table their cells.  Expressions see one row of every relation of the
statement they stand in, and of the statements around it.

* `Row.cell`: the cell of a column, empty if the row has none;
* `Env.find`: what a name means, the innermost statement first; names are alike in both cases.
-/

namespace Chronicle

abbrev Row := List (String × Cell)

namespace Row

def cell (r : Row) (column : String) : Cell := (r.lookup column).getD .null

/-- The number in the column `id`. -/
def id (r : Row) : Int :=
  match r.cell "id" with
  | .int i => i
  | _ => 0

/-- The row with another cell in a column. -/
def set (r : Row) (column : String) (c : Cell) : Row :=
  r.map fun (n, d) => if n = column then (n, c) else (n, d)

theorem cell_nil (column : String) : cell [] column = .null := rfl

end Row

/-- A relation of a statement with the row that is looked at. -/
structure Relation where
  name : String
  table : Table
  row : Row
  deriving Repr, Inhabited

/-- The relations of a statement, then those of the statements around it. -/
abbrev Env := List (List Relation)

/-- What a name of a column means. -/
inductive Meaning
  | missing
  | ambiguous
  | found (column : Column) (cell : Cell)
  deriving Repr, Inhabited

namespace Env

def sameName (a b : String) : Bool := a.toLower == b.toLower

/-- The columns of one name in the relations of one name, or in all. -/
def candidates (rs : List Relation) (relation : Option String) (column : String) :
    List (Column × Cell) :=
  rs.flatMap fun r =>
    if relation.all (sameName r.name) then
      (r.table.columns.filter fun c => sameName c.name column).map fun c => (c, r.row.cell c.name)
    else []

def find (env : Env) (relation : Option String) (column : String) : Meaning :=
  match env with
  | [] => .missing
  | rs :: outer =>
    match candidates rs relation column with
    | [] => find outer relation column
    | [(c, x)] => .found c x
    | _ => .ambiguous

end Env

end Chronicle
