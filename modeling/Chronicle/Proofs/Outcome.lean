import Chronicle.Store.Database

/-!
# Outcomes

How results that may be failures are taken apart, and what the steps of actions do to the store.

* `bind_eq_ok_iff`: a sequence succeeds where both of its parts do;
* `Action.run_bind` and its companions: an action step by step, with the store after each step;
* `Database.opened`: the store once it has been opened for journals and queries.
-/

namespace Chronicle

theorem bind_eq_ok_iff {ε α β : Type} {x : Except ε α} {f : α → Except ε β} {b : β} :
    (x >>= f) = .ok b ↔ ∃ a, x = .ok a ∧ f a = .ok b := by
  cases x with
  | error e => simp [bind, Except.bind]
  | ok a => simp [bind, Except.bind]

theorem bind_eq_error_iff {ε α β : Type} {x : Except ε α} {f : α → Except ε β} {e : ε} :
    (x >>= f) = .error e ↔ x = .error e ∨ ∃ a, x = .ok a ∧ f a = .error e := by
  cases x with
  | error e => simp [bind, Except.bind]
  | ok a => simp [bind, Except.bind]

theorem map_eq_ok_iff {ε α β : Type} {x : Except ε α} {f : α → β} {b : β} :
    x.map f = .ok b ↔ ∃ a, x = .ok a ∧ f a = b := by
  cases x with
  | error e => simp [Except.map]
  | ok a => simp [Except.map]

theorem mapM_cons_eq_ok_iff {ε α β : Type} {f : α → Except ε β} {x : α} {xs : List α}
    {ys : List β} :
    (x :: xs).mapM f = .ok ys ↔ ∃ y zs, f x = .ok y ∧ xs.mapM f = .ok zs ∧ ys = y :: zs := by
  rw [List.mapM_cons]
  constructor
  · intro h
    obtain ⟨y, hy, h⟩ := bind_eq_ok_iff.mp h
    obtain ⟨zs, hzs, h⟩ := bind_eq_ok_iff.mp h
    cases h
    exact ⟨y, zs, hy, hzs, rfl⟩
  · rintro ⟨y, zs, hy, hzs, rfl⟩
    exact bind_eq_ok_iff.mpr ⟨y, hy, bind_eq_ok_iff.mpr ⟨zs, hzs, rfl⟩⟩

theorem mapM_singleton_eq_ok_iff {ε α β : Type} {f : α → Except ε β} {x : α} {ys : List β} :
    [x].mapM f = .ok ys ↔ ∃ y, f x = .ok y ∧ ys = [y] := by
  rw [mapM_cons_eq_ok_iff]
  constructor
  · rintro ⟨y, zs, hy, hzs, rfl⟩
    cases hzs
    exact ⟨y, hy, rfl⟩
  · rintro ⟨y, hy, rfl⟩
    exact ⟨y, [], hy, rfl, rfl⟩

theorem mapM_congr {ε α β : Type} {f g : α → Except ε β} {xs : List α}
    (h : ∀ x ∈ xs, f x = g x) : xs.mapM f = xs.mapM g := by
  induction xs with
  | nil => rfl
  | cons x xs ih =>
    obtain ⟨hx, hxs⟩ := List.forall_mem_cons.mp h
    rw [List.mapM_cons, List.mapM_cons, hx, ih hxs]

/-- What comes out of a list comes from one of its members. -/
theorem exists_of_mem_mapM {ε α β : Type} {f : α → Except ε β} {xs : List α} {ys : List β}
    (h : xs.mapM f = .ok ys) {y : β} (hy : y ∈ ys) : ∃ x ∈ xs, f x = .ok y := by
  induction xs generalizing ys with
  | nil =>
    cases h
    cases hy
  | cons x xs ih =>
    obtain ⟨z, zs, hz, hzs, rfl⟩ := mapM_cons_eq_ok_iff.mp h
    rcases List.mem_cons.mp hy with rfl | hy
    · exact ⟨x, List.mem_cons_self, hz⟩
    · obtain ⟨x', hx', hf⟩ := ih hzs hy
      exact ⟨x', List.mem_cons_of_mem _ hx', hf⟩

/-- Something comes out of each member of a list. -/
theorem exists_mem_of_mapM {ε α β : Type} {f : α → Except ε β} {xs : List α} {ys : List β}
    (h : xs.mapM f = .ok ys) {x : α} (hx : x ∈ xs) : ∃ y ∈ ys, f x = .ok y := by
  induction xs generalizing ys with
  | nil => cases hx
  | cons z xs ih =>
    obtain ⟨y, zs, hy, hzs, rfl⟩ := mapM_cons_eq_ok_iff.mp h
    rcases List.mem_cons.mp hx with rfl | hx
    · exact ⟨y, List.mem_cons_self, hy⟩
    · obtain ⟨y', hy', hf⟩ := ih hzs hx
      exact ⟨y', List.mem_cons_of_mem _ hy', hf⟩

theorem length_of_mapM {ε α β : Type} {f : α → Except ε β} {xs : List α} {ys : List β}
    (h : xs.mapM f = .ok ys) : ys.length = xs.length := by
  induction xs generalizing ys with
  | nil =>
    rw [List.mapM_nil] at h
    cases h
    rfl
  | cons x xs ih =>
    obtain ⟨y, zs, -, hzs, rfl⟩ := mapM_cons_eq_ok_iff.mp h
    rw [List.length_cons, List.length_cons, ih hzs]

/-- The members of a list succeed one by one. -/
theorem exists_mapM_eq_ok_iff {ε α β : Type} {f : α → Except ε β} {xs : List α} :
    (∃ ys, xs.mapM f = .ok ys) ↔ ∀ x ∈ xs, ∃ y, f x = .ok y := by
  induction xs with
  | nil => exact ⟨fun _ _ hx => (nomatch hx), fun _ => ⟨[], rfl⟩⟩
  | cons x xs ih =>
    rw [List.forall_mem_cons, ← ih]
    constructor
    · rintro ⟨ys, hys⟩
      obtain ⟨y, zs, hy, hzs, -⟩ := mapM_cons_eq_ok_iff.mp hys
      exact ⟨⟨y, hy⟩, zs, hzs⟩
    · rintro ⟨⟨y, hy⟩, zs, hzs⟩
      exact ⟨y :: zs, mapM_cons_eq_ok_iff.mpr ⟨y, zs, hy, hzs, rfl⟩⟩

/-- What every member of a list becomes when it is written in another form. -/
theorem mapM_map_eq_ok {ε α β γ : Type} {f : α → β} {g : β → Except ε γ} {k : α → γ} {xs : List α}
    (h : ∀ x ∈ xs, g (f x) = .ok (k x)) : (xs.map f).mapM g = .ok (xs.map k) := by
  induction xs with
  | nil => rfl
  | cons x xs ih =>
    obtain ⟨hx, hxs⟩ := List.forall_mem_cons.mp h
    rw [List.map_cons]
    exact mapM_cons_eq_ok_iff.mpr ⟨_, _, hx, ih hxs, rfl⟩

namespace Database

def opened (db : Database) : Database := { db with checksReferences := true }

end Database

namespace Action

variable {α β : Type}

theorem run_bind (a : Action α) (f : α → Action β) (db : Database) :
    (a >>= f).run db = match a.run db with
      | (.ok x, db') => (f x).run db'
      | (.error e, db') => (.error e, db') := by
  have steps : (a >>= f).run db = (ExceptT.bindCont f (a.run db).1).run (a.run db).2 := rfl
  rw [steps]
  rcases a.run db with ⟨r, db'⟩
  cases r <;> rfl

theorem run_lift (x : Except Failure α) (db : Database) :
    (liftM x : Action α).run db = (x, db) := rfl

theorem run_get (db : Database) : (get : Action Database).run db = (.ok db, db) := rfl

theorem run_read (f : Database → Except Failure α) (db : Database) :
    (read f).run db = (f db, db) := by
  unfold read
  rw [run_bind, run_get]
  dsimp only
  cases f db with
  | ok a => rfl
  | error e => rfl

theorem run_openCore (db : Database) : openCore.run db = (.ok (), db.opened) := rfl

theorem run_checkNumber (i : Int) (db : Database) :
    (checkNumber i).run db =
      (if Cell.isStorable i then .ok () else .error .integerOutOfRange, db) := by
  unfold checkNumber
  split <;> rfl

/-- What asks for a number opens the store first, and goes on if there is room for the number. -/
theorem run_openCore_checkNumber (i : Int) (a : Action α) (db : Database) :
    (do
      openCore
      checkNumber i
      a : Action α).run db =
      if Cell.isStorable i then a.run db.opened else (.error .integerOutOfRange, db.opened) := by
  simp only [run_bind, run_openCore, run_checkNumber]
  by_cases hi : Cell.isStorable i = true
  · simp only [hi, if_true]
  · simp only [hi, Bool.false_eq_true, if_false]

end Action

end Chronicle
