import Mathlib.Logic.Relation
import Chronicle.Entity
import Chronicle.Proofs.Outcome
import Chronicle.Proofs.Calendar.Ordinal

/-!
# Calls and the stores they lead to

Whatever is called, and whether it succeeds or fails, the store is changed by a few kinds of steps
only, each of which is made whole or not at all.

* `Call`: one call of the journals or the entities, with any arguments;
* `Database.after`: the store after some calls, from the empty one on;
* `Change`: what can happen to the store at once;
* `Call.after_changes`: a call is a sequence of changes.
-/

namespace Chronicle

open Chronicle.Calendar

/-- What the clock on the wall can show. -/
structure WallClock where
  instant : Instant
  inCalendar : instant.micros < Instant.bound

/-- A call with its arguments and with the clock at that time. -/
inductive Call
  | record (kind : Kind) (id : Int) (payload : List (String × Value)) (recordedAt : Option Moment)
      (clock : WallClock)
  | create (kind : Kind) (journaled : Bool) (recordedAt : Option Moment)
      (values : List (String × Value)) (clock : WallClock)
  | update (e : Entity) (journaled : Bool) (recordedAt : Option Moment)
      (values : List (String × Value)) (clock : WallClock)
  | entries (kind : Kind) (id : Int)
  | entryAt (kind : Kind) (id : Int) (timestamp : Value) (now : Option Moment) (clock : WallClock)
  | latest (kind : Kind) (id : Int)
  | count (kind : Option Kind) (id : Option Int)
  | get (kind : Kind) (id : Int)
  | list (kind : Kind) (ids : Option (List Int))
  | creationTimes (kind : Kind) (ids : List Int)

namespace Call

/-- What a call does, its answer aside. -/
def action : Call → Action Unit
  | record kind id payload recordedAt clock => do
    let _ ← Journal.record kind id payload recordedAt clock.instant
  | create kind journaled recordedAt values clock => do
    let _ ← Entity.create kind journaled recordedAt values clock.instant
  | update e journaled recordedAt values clock => do
    let _ ← e.update journaled recordedAt values clock.instant
  | entries kind id => do let _ ← Journal.entries kind id
  | entryAt kind id timestamp now clock => do
    let _ ← Journal.entryAt kind id timestamp now clock.instant
  | latest kind id => do let _ ← Journal.latest kind id
  | count kind id => do let _ ← Journal.count kind id
  | get kind id => do let _ ← Entity.get kind id
  | list kind ids => do let _ ← Entity.list kind ids
  | creationTimes kind ids => do let _ ← Entity.creationTimes kind ids

/-- The store after a call, which may have failed. -/
def after (c : Call) (db : Database) : Database := (c.action.run db).2

end Call

namespace Database

/-- The store after some calls on an empty one. -/
def after (calls : List Call) : Database := calls.foldl (fun db c => c.after db) empty

/-- The stores that calls lead to. -/
def Reached (db : Database) : Prop := ∃ calls, db = after calls

theorem after_append (calls more : List Call) :
    after (calls ++ more) = more.foldl (fun db c => c.after db) (after calls) := by
  simp [after]

end Database

/-! ## Changes -/

/-- What happens to the store at once. -/
inductive Change : Database → Database → Prop
  | opened (db : Database) : Change db db.opened
  | inserted {e e' : Entity} {clock : Instant} {db db' : Database} :
      e.insertInto clock db = .ok (e', db') → Change db db'
  | saved {e e' : Entity} {clock : Instant} {db db' : Database} :
      e.saveInto clock db = .ok (e', db') → Change db db'
  | appended {kind : Kind} {id : Int} {payload : List (String × Value)} {time clock : Instant}
      {entry : Entry} {db db' : Database} :
      (Journal.unknownNames kind payload).isEmpty = true → time.micros < Instant.bound →
        Journal.append kind id payload time clock db = .ok (entry, db') → Change db db'

/-- An action takes the store through a sequence of changes. -/
def Action.Walks {α : Type} (a : Action α) : Prop :=
  ∀ db, Relation.ReflTransGen Change db (a.run db).2

namespace Action

variable {α β : Type}

theorem walks_of_same {a : Action α} (h : ∀ db, (a.run db).2 = db) : a.Walks := by
  intro db
  rw [h]

theorem walks_bind {a : Action α} {f : α → Action β} (ha : a.Walks)
    (hf : ∀ x db db', a.run db = (.ok x, db') → (f x).Walks) : (a >>= f).Walks := by
  intro db
  have h := ha db
  rw [run_bind]
  rcases e : a.run db with ⟨r, db'⟩
  rw [e] at h
  cases r with
  | ok x => exact h.trans (hf x db db' e db')
  | error f => exact h

theorem walks_pure (x : α) : (pure x : Action α).Walks := walks_of_same fun _ => rfl

theorem walks_throw (e : Failure) : (throw e : Action α).Walks := walks_of_same fun _ => rfl

theorem walks_lift (x : Except Failure α) : (liftM x : Action α).Walks := walks_of_same fun _ => rfl

theorem walks_get : (get : Action Database).Walks := walks_of_same fun _ => rfl

theorem walks_openCore : openCore.Walks := fun db => .single (.opened db)

theorem walks_checkNumber (i : Int) : (checkNumber i).Walks :=
  walks_of_same fun db => by rw [run_checkNumber]

theorem walks_change {f : Database → Except Failure (α × Database)}
    (h : ∀ {db x db'}, f db = .ok (x, db') → Change db db') : (change f).Walks := by
  intro db
  rw [run_change]
  split
  · next e => exact .single (h e)
  · exact .refl

theorem walks_forIn {γ : Type} (xs : List γ) {f : γ → PUnit → Action (ForInStep PUnit)}
    (h : ∀ x u, (f x u).Walks) : (forIn xs PUnit.unit f).Walks := by
  induction xs with
  | nil => exact walks_pure _
  | cons x xs ih =>
    rw [List.forIn_cons]
    refine walks_bind (h x _) fun s _ _ _ => ?_
    cases s with
    | done u => exact walks_pure u
    | yield u => exact ih

end Action

/-! ## Calls in changes -/

namespace Journal

open Chronicle.Action

theorem record_walks (kind : Kind) (id : Int) (payload : List (String × Value))
    (recordedAt : Option Moment) {clock : Instant} (hc : clock.micros < Instant.bound) :
    (record kind id payload recordedAt clock).Walks := by
  have hrest : (unknownNames kind payload).isEmpty = true →
      ∀ time : Instant, time.micros < Instant.bound → (do
      Action.openCore
      Action.checkNumber id
      Action.change (append kind id payload time clock) : Action Entry).Walks := by
    intro hu time ht
    refine walks_bind walks_openCore fun _ _ _ _ => ?_
    refine walks_bind (walks_checkNumber id) fun _ _ _ _ => ?_
    exact walks_change (.appended hu ht)
  unfold record
  dsimp only
  cases hu : (unknownNames kind payload).isEmpty with
  | false => exact walks_throw _
  | true =>
    cases recordedAt with
    | none => exact hrest hu clock hc
    | some m =>
      refine walks_bind (walks_lift _) fun time db db' h => hrest hu time ?_
      rw [run_lift] at h
      exact Moment.toInstant_lt (Prod.mk.inj h).1

theorem entries_walks (kind : Kind) (id : Int) : (entries kind id).Walks := by
  refine walks_bind walks_openCore fun _ _ _ _ => ?_
  refine walks_bind (walks_checkNumber id) fun _ _ _ _ => ?_
  exact walks_bind walks_get fun _ _ _ _ => walks_pure _

theorem entryAt_walks (kind : Kind) (id : Int) (timestamp : Value) (now : Option Moment)
    (clock : Instant) : (entryAt kind id timestamp now clock).Walks := by
  refine walks_bind (walks_lift _) fun _ _ _ _ => ?_
  refine walks_bind (walks_lift _) fun _ _ _ _ => ?_
  refine walks_bind walks_openCore fun _ _ _ _ => ?_
  refine walks_bind (walks_checkNumber id) fun _ _ _ _ => ?_
  exact walks_bind walks_get fun _ _ _ _ => walks_pure _

theorem count_walks (kind : Option Kind) (id : Option Int) : (count kind id).Walks := by
  refine walks_bind walks_openCore fun _ _ _ _ => ?_
  cases id with
  | none => exact walks_bind walks_get fun _ _ _ _ => walks_pure _
  | some i =>
    refine walks_bind (walks_checkNumber i) fun _ _ _ _ => ?_
    exact walks_bind walks_get fun _ _ _ _ => walks_pure _

end Journal

namespace Entity

open Chronicle.Action

theorem journal_walks (e : Entity) (recordedAt : Option Moment) {clock : Instant}
    (hc : clock.micros < Instant.bound) : (e.journal recordedAt clock).Walks :=
  walks_bind (Journal.record_walks _ _ _ _ hc) fun _ _ _ _ => walks_pure _

/-- A change of the live tables, and what the journal makes of it. -/
theorem walks_journaled {f : Database → Except Failure (Entity × Database)}
    (hf : ∀ {db x db'}, f db = .ok (x, db') → Change db db') (journaled : Bool)
    (recordedAt : Option Moment) {clock : Instant} (hc : clock.micros < Instant.bound) :
    (do
      let e ← Action.change f
      if journaled then e.journal recordedAt clock
      return e : Action Entity).Walks := by
  refine walks_bind (walks_change hf) fun e _ _ _ => ?_
  cases journaled with
  | true => exact walks_bind (journal_walks e recordedAt hc) fun _ _ _ _ => walks_pure _
  | false => exact walks_pure _

theorem create_walks (kind : Kind) (journaled : Bool) (recordedAt : Option Moment)
    (values : List (String × Value)) {clock : Instant} (hc : clock.micros < Instant.bound) :
    (create kind journaled recordedAt values clock).Walks := by
  refine walks_bind (walks_lift _) fun _ _ _ _ => ?_
  refine walks_bind (walks_lift _) fun _ _ _ _ => ?_
  exact walks_journaled .inserted journaled recordedAt hc

theorem update_walks (e : Entity) (journaled : Bool) (recordedAt : Option Moment)
    (values : List (String × Value)) {clock : Instant} (hc : clock.micros < Instant.bound) :
    (e.update journaled recordedAt values clock).Walks := by
  unfold update
  split
  · exact walks_throw _
  · exact walks_journaled .saved journaled recordedAt hc

theorem get_walks (kind : Kind) (id : Int) : (get kind id).Walks := by
  refine walks_bind (walks_checkNumber id) fun _ _ _ _ => ?_
  exact walks_bind walks_get fun _ _ _ _ => walks_pure _

theorem list_walks (kind : Kind) (ids : Option (List Int)) : (list kind ids).Walks := by
  cases ids with
  | none => exact walks_bind walks_get fun _ _ _ _ => walks_pure _
  | some is =>
    refine walks_bind (walks_forIn is fun i _ => ?_) fun _ _ _ _ => ?_
    · exact walks_bind (walks_checkNumber i) fun _ _ _ _ => walks_pure _
    · exact walks_bind walks_get fun _ _ _ _ => walks_pure _

end Entity

/-- A call is a sequence of changes. -/
theorem Call.after_changes (c : Call) (db : Database) :
    Relation.ReflTransGen Change db (c.after db) := by
  have walks : c.action.Walks := by
    cases c with
    | record kind id payload recordedAt clock =>
      exact Action.walks_bind (Journal.record_walks _ _ _ _ clock.inCalendar)
        fun _ _ _ _ => Action.walks_pure _
    | create kind journaled recordedAt values clock =>
      exact Action.walks_bind (Entity.create_walks _ _ _ _ clock.inCalendar)
        fun _ _ _ _ => Action.walks_pure _
    | update e journaled recordedAt values clock =>
      exact Action.walks_bind (Entity.update_walks _ _ _ _ clock.inCalendar)
        fun _ _ _ _ => Action.walks_pure _
    | entries kind id =>
      exact Action.walks_bind (Journal.entries_walks kind id) fun _ _ _ _ => Action.walks_pure _
    | entryAt kind id timestamp now clock =>
      exact Action.walks_bind (Journal.entryAt_walks _ _ _ _ _) fun _ _ _ _ => Action.walks_pure _
    | latest kind id =>
      refine Action.walks_bind ?_ fun _ _ _ _ => Action.walks_pure _
      exact Action.walks_bind (Journal.entries_walks kind id) fun _ _ _ _ => Action.walks_pure _
    | count kind id =>
      exact Action.walks_bind (Journal.count_walks kind id) fun _ _ _ _ => Action.walks_pure _
    | get kind id =>
      exact Action.walks_bind (Entity.get_walks kind id) fun _ _ _ _ => Action.walks_pure _
    | list kind ids =>
      exact Action.walks_bind (Entity.list_walks kind ids) fun _ _ _ _ => Action.walks_pure _
    | creationTimes kind ids =>
      refine Action.walks_bind ?_ fun _ _ _ _ => Action.walks_pure _
      exact Action.walks_bind (Entity.list_walks kind _) fun _ _ _ _ => Action.walks_pure _
  exact walks db

namespace Database

/-- What changes keep, calls keep. -/
theorem foldl_after_induction {p : Database → Prop} (hp : ∀ {db db'}, p db → Change db db' → p db')
    (calls : List Call) {db : Database} (h : p db) :
    p (calls.foldl (fun db c => c.after db) db) := by
  induction calls generalizing db with
  | nil => exact h
  | cons c calls ih =>
    rw [List.foldl_cons]
    apply ih
    have hwalk := c.after_changes db
    generalize c.after db = db' at hwalk
    induction hwalk with
    | refl => exact h
    | tail _ hchange ih => exact hp ih hchange

/-- What holds of the empty store and is kept by every change holds of every store that is
reached. -/
theorem Reached.induction {p : Database → Prop} (h0 : p empty)
    (hp : ∀ {db db'}, p db → Change db db' → p db') {db : Database} (h : Reached db) : p db := by
  obtain ⟨calls, rfl⟩ := h
  exact foldl_after_induction hp calls h0

end Database

end Chronicle
