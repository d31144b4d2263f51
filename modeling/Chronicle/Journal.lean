import Chronicle.Kind
import Chronicle.Store.Database

/-!
# Journals

The journal of an entity is the list of its versions, each with the time from which it holds.  It
only grows at its end.

* `Journal.record`: a new entry, not earlier than the last one;
* `Journal.entries`: all entries, oldest version first;
* `Journal.entryAt`: the entry that holds at an instant;
* `Journal.count`: how many entries there are.
-/

namespace Chronicle

open Chronicle.Calendar

/-- One version of an entity. -/
structure Entry where
  id : Int
  kind : Kind
  entityId : Int
  version : Int
  recordedAt : Instant
  payload : List (String × Value)
  deriving Repr, Inhabited

namespace Journal

def intCell : Cell → Int
  | .int i => i
  | _ => 0

def instantCell : Cell → Instant
  | .instant i => i
  | _ => default

/-! ## Rows of the journal -/

/-- The rows of the journal of an entity. -/
def rowsOf (db : Database) (kind : Kind) (id : Int) : List Row :=
  (db.tableRows Schema.journals).filter fun r =>
    r.cell "entity_type" == .text kind.name && r.cell "entity_id" == .int id

/-- The last version and the latest time in some rows of a journal. -/
def latestOf (rows : List Row) : Option (Int × Instant) :=
  match rows.map fun r => (intCell (r.cell "version"), instantCell (r.cell "recorded_at")) with
  | [] => none
  | p :: ps => some (ps.foldl
      (fun (v, i) (w, j) => (max v w, if i.micros < j.micros then j else i)) p)

/-- An entry from its row and the row with its payload. -/
def entryOfRows (kind : Kind) (r data : Row) : Entry where
  id := r.id
  kind := kind
  entityId := intCell (r.cell "entity_id")
  version := intCell (r.cell "version")
  recordedAt := instantCell (r.cell "recorded_at")
  payload := (kind.journal.columns.filter fun c => c.name != "id").map fun c =>
    (c.name, .scalar ((data.cell c.name).toScalar c.type))

/-- The entry of a row, if its payload is there. -/
def entryOf? (db : Database) (kind : Kind) (r : Row) : Option Entry :=
  (db.find? kind.journal (intCell (r.cell "data_id"))).map (entryOfRows kind r)

/-- The entries of an entity by version. -/
def entriesIn (db : Database) (kind : Kind) (id : Int) : List Entry :=
  ((rowsOf db kind id).filterMap (entryOf? db kind)).mergeSort fun a b => a.version ≤ b.version

/-- The last entry recorded at an instant or before. -/
def entryAtIn (db : Database) (kind : Kind) (id : Int) (i : Instant) : Option Entry :=
  ((entriesIn db kind id).filter fun e => e.recordedAt.micros ≤ i.micros).getLast?

theorem length_entriesIn (db : Database) (kind : Kind) (id : Int) :
    (entriesIn db kind id).length = ((rowsOf db kind id).filterMap (entryOf? db kind)).length := by
  simp [entriesIn]

theorem mem_entriesIn_iff (db : Database) (kind : Kind) (id : Int) (e : Entry) :
    e ∈ entriesIn db kind id ↔ ∃ r ∈ rowsOf db kind id, entryOf? db kind r = some e := by
  simp [entriesIn, List.mem_filterMap]

/-! ## Recording -/

/-- Attributes that a payload names and the kind does not have. -/
def unknownNames (kind : Kind) (payload : List (String × Value)) : List String :=
  ((payload.map (·.1)).filter fun n => !kind.payload.contains n).mergeSort fun a b => decide (a ≤ b)

/-- The store with one more entry. -/
def append (kind : Kind) (id : Int) (payload : List (String × Value)) (at_ : Instant)
    (clock : Instant) (db : Database) : Except Failure (Entry × Database) := do
  let latest := latestOf (rowsOf db kind id)
  if let some (version, last) := latest then
    if at_.micros < last.micros then
      throw (.entryOutOfOrder kind.name id at_.moment.text version last.moment.text)
  let (data, db) ← db.insert kind.journal payload clock
  let version := (latest.map (·.1)).getD 0 + 1
  let (r, db) ← db.insert Schema.journals [("entity_type", .text kind.name),
    ("entity_id", .int id), ("version", .int version), ("data_id", .int data.id),
    ("recorded_at", .instant at_)] clock
  return (⟨r.id, kind, id, version, at_, kind.payload.filterMap fun n =>
    (payload.lookup n).map fun v => (n, v)⟩, db)

/-- Records an entry, by default at the present.  Entries are recorded in order. -/
def record (kind : Kind) (id : Int) (payload : List (String × Value)) (recordedAt : Option Moment)
    (clock : Instant) : Action Entry := do
  let unknown := unknownNames kind payload
  if !unknown.isEmpty then throw (.unknownAttributes kind.name unknown)
  let at_ ← match recordedAt with
    | some m => liftM m.toInstant
    | none => pure clock
  Action.openCore
  Action.checkNumber id
  Action.change (append kind id payload at_ clock)

/-! ## Reading -/

def entries (kind : Kind) (id : Int) : Action (List Entry) := do
  Action.openCore
  Action.checkNumber id
  return entriesIn (← get) kind id

/-- The entry that holds at a timestamp, seen from a given moment or from the clock. -/
def entryAt (kind : Kind) (id : Int) (timestamp : Value) (now : Option Moment) (clock : Instant) :
    Action (Option Entry) := do
  let t ← liftM timestamp.toTimestamp
  let i ← liftM (t.resolveAt now clock)
  Action.openCore
  Action.checkNumber id
  return entryAtIn (← get) kind id i

def latest (kind : Kind) (id : Int) : Action (Option Entry) := do
  return (← entries kind id).getLast?

/-- The number of entries, of one kind or entity if these are given. -/
def count (kind : Option Kind) (id : Option Int) : Action Nat := do
  Action.openCore
  if let some i := id then Action.checkNumber i
  let rows := (← get).tableRows Schema.journals
  return (rows.filter fun r =>
    kind.all (fun k => r.cell "entity_type" == .text k.name) &&
      id.all fun i => r.cell "entity_id" == .int i).length

/-- A row for the journal as it is, without an entry being recorded. -/
def insertRow (values : List (String × Value)) (clock : Instant) : Action Row :=
  Action.change fun db => db.insert Schema.journals (values.filter fun f => !f.2.isNull) clock

end Journal

end Chronicle
