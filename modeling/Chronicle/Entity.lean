import Chronicle.Journal

/-!
# Entities

Entities as they are now.  An entity in hand is a copy: it is changed first, and then its values
are brought into the store, together with an entry in its journal.

* `Entity.create`, `Entity.update`: new and changed entities;
* `Entity.get`, `Entity.list`, `Entity.creationTimes`: entities from the store.
-/

namespace Chronicle

open Chronicle.Calendar

/-- An entity in hand; an attribute that it needs may not have been given yet. -/
structure Entity where
  kind : Kind
  values : List (String × Value)
  deriving Repr, Inhabited

namespace Entity

def get? (e : Entity) (name : String) : Option Value := e.values.lookup name

/-- The number of the entity, if it has one. -/
def id? (e : Entity) : Option Int :=
  match e.get? "id" with
  | some (.scalar (.int i)) => some i
  | _ => none

def toRecord (e : Entity) : Value := .object e.values

def ofRow (kind : Kind) (r : Row) : Entity :=
  ⟨kind, kind.table.columns.map fun c => (c.name, .scalar ((r.cell c.name).toScalar c.type))⟩

/-- An attribute that has to be given. -/
def isRequired (c : Column) (clock : Instant) : Bool :=
  !c.nullable && c.name != "id" && (c.usual clock).isNull

/-- An entity that is not in the store yet.  Names that are no attributes are passed over. -/
def new (kind : Kind) (values : List (String × Value)) (clock : Instant) : Entity :=
  ⟨kind, kind.table.columns.filterMap fun c =>
    match values.lookup c.name with
    | some v => some (c.name, v)
    | none => if isRequired c clock then none else some (c.name, .scalar (c.usual clock))⟩

/-- What goes into the journal. -/
def payload (e : Entity) : List (String × Value) :=
  e.kind.payload.filterMap fun n => (e.get? n).map fun v => (n, v)

/-! ## Changes -/

/-- The entity with another value of an attribute. -/
def set (e : Entity) (name : String) (v : Value) : Entity :=
  if (e.get? name).isSome then
    { e with values := e.values.map fun f => if f.1 == name then (name, v) else f }
  else { e with values := e.values ++ [(name, v)] }

def immutableNames : List String := ["created_at", "id"]

/-- Gives attributes their values, one after the other, and stops at a name that is no attribute.
Private names are passed over. -/
def setAll (e : Entity) : List (String × Value) → Entity × Option Failure
  | [] => (e, none)
  | (n, v) :: rest =>
    if (e.kind.table.column? n).isSome then setAll (e.set n v) rest
    else if n.startsWith "_" then setAll e rest
    else (e, some .noSuchAttribute)

/-- The entity in hand after a change of attributes, which need not succeed. -/
def assign (e : Entity) (values : List (String × Value)) (recordedAt : Option Moment)
    (clock : Instant) : Entity × Option Failure :=
  match immutableNames.filter fun n => (values.lookup n).isSome with
  | n :: ns => (e, some (.immutableAttributes (n :: ns)))
  | [] =>
    match e.setAll values with
    | (e, some f) => (e, some f)
    | (e, none) =>
      match recordedAt with
      | none => (e.set "updated_at" (.instant clock), none)
      | some m =>
        match m.toInstant with
        | .ok i => (e.set "updated_at" (.instant i), none)
        | .error f => (e, some f)

theorem assign_kind (e : Entity) (values : List (String × Value)) (recordedAt : Option Moment)
    (clock : Instant) : (e.assign values recordedAt clock).1.kind = e.kind := by
  have hset : ∀ (e : Entity) (n : String) (v : Value), (e.set n v).kind = e.kind := by
    intro e n v; unfold set; split <;> rfl
  have hall : ∀ (vs : List (String × Value)) (e : Entity), (e.setAll vs).1.kind = e.kind := by
    intro vs
    induction vs with
    | nil => intro e; rfl
    | cons f vs ih =>
      intro e
      unfold setAll
      split
      · rw [ih, hset]
      · split
        · exact ih e
        · rfl
  have := hall values e
  unfold assign
  split
  · rfl
  · split
    · next h => rw [h] at this; exact this
    · next h =>
      rw [h] at this
      split
      · simpa [hset] using this
      · split
        · simpa [hset] using this
        · exact this

/-! ## The store -/

/-- The row that an entity belongs to. -/
def row? (e : Entity) (db : Database) : Except Failure (Option Row) :=
  match (e.get? "id").getD .null with
  | .scalar .null => .ok none
  | v => do
    let b := Binding.plain.bind v
    Bound.check [b]
    return (db.tableRows e.kind.table).find? fun r => r.cell "id" == b.toCell.under .numeric

/-- A new row with the values of an entity; what is missing or empty is as usual. -/
def insertInto (e : Entity) (clock : Instant) (db : Database) :
    Except Failure (Entity × Database) := do
  let (r, db) ← db.insert e.kind.table (e.values.filter fun f => !f.2.isNull) clock
  return (ofRow e.kind r, db)

/-- Brings the values of an entity into its row, or into a new one. -/
def saveInto (e : Entity) (clock : Instant) (db : Database) :
    Except Failure (Entity × Database) := do
  match ← e.row? db with
  | none => e.insertInto clock db
  | some old =>
    let stored := ofRow e.kind old
    let changes := e.values.filter fun (n, v) => !((stored.get? n).any v.equals) && n != "id"
    if changes.isEmpty then return (stored, db)
    else
      let (r, db) ← db.update e.kind.table old changes
      return (ofRow e.kind r, db)

/-- The time at which an entity was changed last. -/
def updatedAt (e : Entity) : Option Moment :=
  match e.get? "updated_at" with
  | some (.scalar (.moment m)) => some m
  | _ => none

/-- Records the present values, at a given time or at that of the last change. -/
def journal (e : Entity) (recordedAt : Option Moment) (clock : Instant) : Action Unit := do
  let _ ← Journal.record e.kind ((e.id?).getD 0) e.payload (recordedAt.or e.updatedAt) clock

/-- A time that is given is kept in UTC. -/
def normalizeTime (values : List (String × Value)) (name : String) :
    Except Failure (List (String × Value)) :=
  match values.lookup name with
  | none | some (.scalar .null) => .ok values
  | some (.scalar (.moment m)) => do
    let i ← m.toInstant
    return values.map fun f => if f.1 == name then (name, .instant i) else f
  | some _ => .error .notAMoment

/-- Creates an entity, and the first entry of its journal if that is wanted. -/
def create (kind : Kind) (journaled : Bool) (recordedAt : Option Moment)
    (values : List (String × Value)) (clock : Instant) : Action Entity := do
  let values ← liftM (normalizeTime values "created_at")
  let values ← liftM (normalizeTime values "updated_at")
  let e ← Action.change ((new kind values clock).insertInto clock)
  if journaled then e.journal recordedAt clock
  return e

/-- Changes attributes of an entity, and records that if it is wanted. -/
def update (e : Entity) (journaled : Bool) (recordedAt : Option Moment)
    (values : List (String × Value)) (clock : Instant) : Action Entity := do
  match e.assign values recordedAt clock with
  | (_, some f) => throw f
  | (e, none) =>
    let e ← Action.change (e.saveInto clock)
    if journaled then e.journal recordedAt clock
    return e

def get (kind : Kind) (id : Int) : Action (Option Entity) := do
  Action.checkNumber id
  return ((← MonadState.get).find? kind.table id).map (ofRow kind)

/-- The entities of a kind by number, all or those with certain numbers. -/
def list (kind : Kind) (ids : Option (List Int)) : Action (List Entity) := do
  if let some is := ids then
    for i in is do Action.checkNumber i
  let rows := (← MonadState.get).tableRows kind.table
  return (rows.filter fun r => ids.all fun is => is.any fun i => r.cell "id" == .int i).map
    (ofRow kind)

/-- The times at which entities were created, by their numbers. -/
def creationTimes (kind : Kind) (ids : List Int) : Action (List (Int × Value)) := do
  let es ← list kind (some ids)
  return es.filterMap fun e => do
    return ((← e.id?), (← e.get? "created_at"))

end Entity

end Chronicle
