import Chronicle.Store.Binding
import Chronicle.Store.Row

/-!
# The store

The rows of all tables.  A row is only taken in if it keeps the rules of its table: columns that
need a cell have one, numbers are given once, and references lead somewhere.

* `Database.insert`: a new row;
* `Database.update`: other cells in a row;
* `Action`: what reads and changes the store.  A failure keeps the changes before it.
-/

namespace Chronicle

open Chronicle.Calendar

/-- All rows, those of a table in the order of their numbers.  References are checked once the
store has been opened for it. -/
structure Database where
  rows : String → List Row
  checksReferences : Bool

namespace Database

def empty : Database := ⟨fun _ => [], false⟩

instance : Inhabited Database := ⟨empty⟩

def tableRows (db : Database) (t : Table) : List Row := db.rows t.name

def find? (db : Database) (t : Table) (id : Int) : Option Row :=
  (db.tableRows t).find? fun r => r.cell "id" == .int id

/-- The store with other rows in one table. -/
def setRows (db : Database) (t : Table) (rows : List Row) : Database :=
  { db with rows := fun n => if n = t.name then rows else db.rows n }

/-- The same store without rows. -/
def cleared (db : Database) : Database := { db with rows := fun _ => [] }

theorem tableRows_setRows (db : Database) (t : Table) (rows : List Row) :
    (db.setRows t rows).tableRows t = rows := by
  simp [setRows, tableRows]

theorem tableRows_setRows_of_ne (db : Database) {t u : Table} (rows : List Row)
    (h : u.name ≠ t.name) : (db.setRows t rows).tableRows u = db.tableRows u := by
  simp [setRows, tableRows, h]

end Database

/-! ## Rules of tables -/

namespace Table

/-- Columns that no two rows share all cells of. -/
def uniques (t : Table) : List (List String) :=
  if t.name = Schema.projects.name then [["identifier"]]
  else if t.name = Schema.journals.name then [["entity_type", "entity_id", "version"]]
  else []

/-- Columns with the number of a row in another table. -/
def references (t : Table) : List (String × Table) :=
  if t.name = Schema.workPackages.name then [("project_id", Schema.projects)] else []

end Table

namespace Column

/-- What a column holds if nothing is said about it. -/
def usual (c : Column) (clock : Instant) : Scalar :=
  match c.type with
  | .instant => .moment clock.moment
  | .boolean => .bool true
  | .text =>
    if c.name = "status" then .text "new"
    else if c.name = "priority" then .text "normal"
    else .null
  | .integer => .null

end Column

namespace Database

def qualified (t : Table) (columns : List String) : String :=
  String.intercalate ", " (columns.map fun c => t.name ++ "." ++ c)

/-- No column that needs a cell is empty. -/
def checkFilled (t : Table) (r : Row) : Except Failure Unit :=
  match t.columns.find? fun c => !c.nullable && c.name != "id" && (r.cell c.name).isNull with
  | some c => .error (.constraint ("NOT NULL constraint failed: " ++ qualified t [c.name]))
  | none => .ok ()

/-- The row shares some columns with another one. -/
def collides (columns : List String) (r other : Row) : Bool :=
  columns.all fun c => !(r.cell c).isNull && (r.cell c).compare (other.cell c) == .eq

/-- No other row is like the row in columns where none may be. -/
def checkUnique (t : Table) (others : List Row) (r : Row) : Except Failure Unit :=
  match (["id"] :: t.uniques).find? fun columns => others.any (collides columns r) with
  | some columns => .error (.constraint ("UNIQUE constraint failed: " ++ qualified t columns))
  | none => .ok ()

/-- References in some columns lead to rows. -/
def checkReferences (db : Database) (t : Table) (columns : List String) (r : Row) :
    Except Failure Unit :=
  let dangles (ref : String × Table) : Bool :=
    columns.contains ref.1 && !(r.cell ref.1).isNull &&
      !(db.tableRows ref.2).any fun p => p.cell "id" == (r.cell ref.1).under .numeric
  if db.checksReferences && t.references.any dangles then
    .error (.constraint "FOREIGN KEY constraint failed")
  else .ok ()

/-! ## Changes -/

/-- Puts a row at its place in the order of numbers. -/
def place (r : Row) : List Row → List Row
  | [] => [r]
  | s :: rest => if r.id < s.id then r :: s :: rest else s :: place r rest

theorem mem_place (r s : Row) (rows : List Row) : s ∈ place r rows ↔ s = r ∨ s ∈ rows := by
  induction rows with
  | nil => simp [place]
  | cons t rows ih =>
    unfold place
    split
    · exact List.mem_cons
    · rw [List.mem_cons, ih, List.mem_cons]
      exact or_left_comm

theorem length_place (r : Row) (rows : List Row) :
    (place r rows).length = rows.length + 1 := by
  induction rows with
  | nil => rfl
  | cons t rows ih =>
    unfold place
    split
    · rfl
    · simp [ih]

/-- The number for the next row: one more than the largest. -/
def nextId (rows : List Row) : Int :=
  match rows.map Row.id with
  | [] => 1
  | i :: is => is.foldl max i + 1

/-- The number that a row is given, or the next one. -/
def idCell (rows : List Row) (given : Cell) : Except Failure Cell :=
  match given.under .numeric with
  | .null => .ok (.int (nextId rows))
  | .int i => .ok (.int i)
  | _ => .error (.constraint "datatype mismatch")

/-- The cells of some columns of a table. -/
def bindColumns (columns : List Column) (values : String → Value) :
    Except Failure (List (String × Cell)) := do
  let bound := columns.map fun c => (c, (Binding.intoColumn c.type).bind (values c.name))
  Bound.check (bound.map (·.2))
  return bound.map fun (c, b) => (c.name, b.toCell.under c.type.affinity)

/-- A new row, and the store with it.  Columns without a value hold what they usually do. -/
def insert (db : Database) (t : Table) (values : List (String × Value)) (clock : Instant) :
    Except Failure (Row × Database) := do
  let valueOf (name : String) : Value :=
    match values.lookup name with
    | some v => v
    | none => ((t.column? name).map fun c => Value.scalar (c.usual clock)).getD .null
  let cells ← bindColumns t.columns valueOf
  let rows := db.tableRows t
  let id ← idCell rows (Row.cell cells "id")
  let r := Row.set cells "id" id
  checkFilled t r
  checkUnique t rows r
  checkReferences db t t.columnNames r
  return (r, db.setRows t (place r rows))

/-- Other values for columns of the row with a number. -/
def update (db : Database) (t : Table) (old : Row) (values : List (String × Value)) :
    Except Failure (Row × Database) := do
  let columns := t.columns.filter fun c => (values.lookup c.name).isSome
  let cells ← bindColumns columns fun name => (values.lookup name).getD .null
  let r := cells.foldl (fun r (n, c) => Row.set r n c) old
  let others := (db.tableRows t).filter fun s => s.cell "id" != old.cell "id"
  checkFilled t r
  checkUnique t others r
  checkReferences db t (columns.map (·.name)) r
  return (r, db.setRows t ((db.tableRows t).map fun s =>
    if s.cell "id" == old.cell "id" then r else s))

end Database

/-! ## Actions -/

/-- What reads and changes the store. -/
abbrev Action (α : Type) := ExceptT Failure (StateM Database) α

namespace Action

/-- Opens the store for journals and queries; from then on references are checked. -/
def openCore : Action Unit := modify fun db => { db with checksReferences := true }

/-- A change that is made whole or not at all. -/
def change {α : Type} (f : Database → Except Failure (α × Database)) : Action α := do
  match f (← get) with
  | .ok (a, db) => set db; return a
  | .error e => throw e

def read {α : Type} (f : Database → Except Failure α) : Action α := do
  match f (← get) with
  | .ok a => return a
  | .error e => throw e

theorem run_change {α : Type} (f : Database → Except Failure (α × Database)) (db : Database) :
    (change f).run db = match f db with
      | .ok (a, db') => (.ok a, db')
      | .error e => (.error e, db) := by
  have steps : (change f).run db = (match f db with
      | .ok (a, db') => (do set db'; return a : Action α)
      | .error e => throw e).run db := rfl
  rw [steps]
  cases f db with
  | ok p => rfl
  | error e => rfl

/-- A number that is asked for has to be one that the store has room for. -/
def checkNumber (i : Int) : Action Unit :=
  if Cell.isStorable i then pure () else throw .integerOutOfRange

end Action

end Chronicle
