import Chronicle.Entity
import Chronicle.Filter.Match
import Chronicle.History.Snapshot

/-!
# Entities at several timestamps

An entity in hand together with its attributes at some timestamps.  If the last timestamp is one in
the past, the entity is shown as it was then.

* `EntityView.ofSubjects`: views of entities of one kind, by one query for each timestamp;
* `EntityView.currentValues`: the attributes as they are shown;
* `EntityView.valueOf`: one of them by its name.
-/

namespace Chronicle

open Chronicle.Calendar

/-- What is given where an entity is asked for. -/
inductive Subject
  | entity (e : Entity)
  | other (v : Value)
  deriving Repr, Inhabited

namespace Subject

def toEntity : Subject → Except Failure Entity
  | entity e => .ok e
  | other v => .error (.notJournaled v.typeName)

end Subject

/-- The attributes of an entity in an answer of the store. -/
abbrev Attributes := List (String × Scalar)

/-- An entity and what is known of it at its timestamps.  Snapshots are found by the keys of their
timestamps. -/
structure EntityView where
  entity : Entity
  timestamps : List Timestamp
  differencesOnly : Bool
  past : Option Attributes
  snapshots : List (String × Snapshot)
  matchedAt : List Timestamp
  deriving Repr, Inhabited

namespace EntityView

def kind (v : EntityView) : Kind := v.entity.kind

/-- The number of the entity, as it was given. -/
def id (v : EntityView) : Value := (v.entity.get? "id").getD .null

/-- The entity is shown as it was. -/
def isHistoric (v : EntityView) : Bool := v.past.isSome

/-- The values that take the place of those of the entity. -/
def overrides (v : EntityView) : List (String × Value) :=
  (v.past.getD []).map fun (n, s) => (n, .scalar s)

/-- Named values, with those of `others` in place of values of the same names. -/
def overlay (values others : List (String × Value)) : List (String × Value) :=
  values.map (fun (n, v) => (n, (others.lookup n).getD v)) ++
    others.filter fun (n, _) => (values.lookup n).isNone

/-- The attributes as they are shown. -/
def currentValues (v : EntityView) : List (String × Value) := overlay v.entity.values v.overrides

/-- The view of an entity before anything is known about the past. -/
def start (subject : Subject) (timestamps : List Value) (filter : Option Filter)
    (differencesOnly : Bool) : Except Failure EntityView := do
  let e ← subject.toEntity
  if filter.isSome && !e.kind.supportsFilters then
    throw (.filtersNotSupported ((Kind.all.filter (·.supportsFilters)).map (·.name)) e.kind.name)
  return ⟨e, ← timestamps.mapM Value.toTimestamp, differencesOnly, none, [], []⟩

/-! ## What is known -/

/-- The name of the timestamp in an answer, which is no attribute. -/
def timestampName : String := "timestamp"

def attributesOf (row : Attributes) : Attributes := row.filter fun (n, _) => n != timestampName

/-- The row with a number. -/
def rowOf (rows : List Attributes) (id : Value) : Option Attributes :=
  rows.reverse.find? fun r => (r.lookup "id").any fun s => (Value.scalar s).equals id

/-- The view as of a row; without one there is nothing older to show. -/
def showPast (v : EntityView) (row : Option Attributes) : EntityView :=
  { v with past := row.map attributesOf }

/-- The view with the snapshot that a row holds. -/
def addSnapshot (v : EntityView) (t : Timestamp) : Option Attributes → EntityView
  | none => v
  | some row =>
    let whole : Snapshot := ⟨t, attributesOf row⟩
    let s := if v.differencesOnly then whole.changedFrom v.currentValues else whole
    { v with snapshots := v.snapshots.filter (fun p => p.1 != t.key) ++ [(t.key, s)] }

/-- The view with one more timestamp at which the filter matched; each is noted once. -/
def addMatch (v : EntityView) (t : Timestamp) : EntityView :=
  if v.matchedAt.any t.same then v else { v with matchedAt := v.matchedAt ++ [t] }

theorem entity_addSnapshot (v : EntityView) (t : Timestamp) (row : Option Attributes) :
    (v.addSnapshot t row).entity = v.entity := by
  cases row <;> rfl

theorem entity_addMatch (v : EntityView) (t : Timestamp) : (v.addMatch t).entity = v.entity := by
  unfold addMatch; split <;> rfl

/-! ## Views of many entities -/

/-- The rows of some entities at a timestamp, by one query. -/
def rowsAt (kind : Kind) (ids : List Value) (moment : Option Moment) (clock : Instant)
    (t : Timestamp) : Action (List Attributes) := do
  let live ← liftM do
    let among ← Predicate.among ⟨kind.table.name, "id"⟩ (.list ids) false
    return (← Query.build (.text kind.table.name)).filterBy [among]
  (← liftM (live.asOfTimestamp (.timestamp t) moment clock)).run

/-- Timestamps by key, each once. -/
def distinct : List Timestamp → List Timestamp
  | [] => []
  | t :: ts => t :: (distinct ts).filter fun u => !t.same u

theorem mem_of_mem_distinct {t : Timestamp} {ts : List Timestamp} (h : t ∈ distinct ts) :
    t ∈ ts := by
  induction ts with
  | nil => exact h
  | cons u us ih =>
    rcases List.mem_cons.mp h with rfl | h
    · exact List.mem_cons_self
    · exact List.mem_cons_of_mem _ (ih (List.mem_filter.mp h).1)

/-- Every timestamp has its like among the distinct ones. -/
theorem exists_same_mem_distinct {t : Timestamp} {ts : List Timestamp} (h : t ∈ ts) :
    ∃ u ∈ distinct ts, u.same t = true := by
  induction ts with
  | nil => cases h
  | cons v vs ih =>
    by_cases hv : v.same t = true
    · exact ⟨v, List.mem_cons_self, hv⟩
    · rcases List.mem_cons.mp h with rfl | h
      · exact absurd (by simp [Timestamp.same]) hv
      · obtain ⟨u, hu, hut⟩ := ih h
        refine ⟨u, List.mem_cons_of_mem _ (List.mem_filter.mpr ⟨hu, ?_⟩), hut⟩
        simp only [Timestamp.same, beq_iff_eq] at hv hut ⊢
        simpa [hut] using hv

/-- What the store answers for some entities at a timestamp. -/
structure Finding where
  rows : List Attributes
  matched : List Scalar
  deriving Repr, Inhabited

/-- The view with what was found at its timestamps, in their order. -/
def addFindings (v : EntityView) (findings : List (String × Finding)) : EntityView :=
  let found (t : Timestamp) : Finding := (findings.lookup t.key).getD default
  let v := match v.timestamps.getLast? with
    | some t => if t.isHistoric then v.showPast (rowOf (found t).rows v.id) else v
    | none => v
  v.timestamps.foldl (fun w t =>
    let w := w.addSnapshot t (rowOf (found t).rows v.id)
    if (found t).matched.any fun i => (Value.scalar i).equals v.id then w.addMatch t else w) v

/-- Views of entities of one kind, and the number of queries that were needed. -/
def ofSubjects (subjects : List Subject) (timestamps : List Value) (filter : Option Filter)
    (differencesOnly : Bool) (moment : Option Moment) (clock : Instant) :
    Action (List EntityView × Nat) := do
  let views ← liftM (subjects.mapM fun s => start s timestamps filter differencesOnly)
  match views with
  | [] => return ([], 0)
  | first :: _ =>
    let names := (views.map (·.kind.name)).eraseDups
    if names.length > 1 then
      throw (.mixedKinds (names.mergeSort fun a b => decide (a ≤ b)))
    if first.timestamps.isEmpty then return (views, 0)
    let ids := views.map id
    let ts := distinct first.timestamps
    Action.openCore
    let rows ← ts.mapM (rowsAt first.kind ids moment clock)
    let matched ← match filter with
      | some f => ts.mapM fun t => f.matching ids (.timestamp t) moment clock
      | none => pure (ts.map fun _ => [])
    let findings := (ts.map Timestamp.key).zip (List.zipWith Finding.mk rows matched)
    return (views.map (·.addFindings findings),
      ts.length + (if filter.isSome then ts.length else 0))

/-! ## What is shown -/

def baseline? (v : EntityView) : Option Timestamp := v.timestamps.head?

def current? (v : EntityView) : Option Timestamp := v.timestamps.getLast?

/-- The attributes at a timestamp, if there were any. -/
def snapshotAt? (v : EntityView) (t : Option Timestamp) : Option Snapshot :=
  t.bind fun t => v.snapshots.lookup t.key

def hasMatchedAt (v : EntityView) (t : Option Timestamp) : Bool :=
  t.any fun t => v.matchedAt.any t.same

/-- An attribute as it is shown, which is empty if it has not been given; names with an underscore
are private. -/
def valueOf (v : EntityView) (name : String) : Except Failure Value :=
  if name.startsWith "_" then .error (.privateAttribute name)
  else match v.currentValues.lookup name with
    | some x => .ok x
    | none => if (v.kind.table.column? name).isSome then .ok .null else .error .missingAttribute

def shown (v : EntityView) : String :=
  "<HistoricAttributes " ++ v.kind.name ++ " " ++ v.id.plain ++ " at [" ++
    String.intercalate ", " (v.timestamps.map Timestamp.key) ++ "]>"

end EntityView

end Chronicle
