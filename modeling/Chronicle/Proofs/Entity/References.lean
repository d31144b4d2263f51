import Chronicle.Proofs.Entity.Current
import Chronicle.Proofs.Entity.Dangling

/-!
# References of work packages

A work package may name its project by a number that no project has: references are checked from the
first call on that opens the store for journals, and a store that has only been written to by calls
that do not is not checked.

* `Entity.Write.rechecks_live`: what checking makes of the first step of a write;
* `Change.gainsDangling_eq_false`: no change of a store that checks adds a reference that leads
  nowhere;
* `Database.references_kept_iff`: references stay sound exactly where they are and are checked, and
  what is refused where.
-/

namespace Chronicle

open Chronicle.Calendar

/-! ## Writes that are not checked -/

namespace Entity

/-- What checking makes of a write that succeeds or fails where nothing is checked: it is refused if
it adds a reference that leads nowhere, and only if what it writes has one. -/
structure Rechecks (db : Database) (free checked : Except Failure (Entity × Database)) : Prop where
  taken : ∀ e db', checked = .ok (e, db') → ∃ db₁, free = .ok (e, db₁) ∧ db₁.rows = db'.rows
  gains : ∀ e db', free = .ok (e, db') → db.checksReferences = true →
    db.gainsDangling db' = true → checked = .error .missingReference
  missing : checked = .error .missingReference → db.checksReferences = true ∧ ∃ r db',
    free = .ok (ofRow .workPackage r, db') ∧ r ∈ db'.tableRows Schema.workPackages ∧
      db.refers (r.cell "project_id") = false

variable {e : Entity} {clock : Instant} {db : Database}

theorem rechecks_insertInto (hs : db.Sound) :
    Rechecks db (e.insertInto clock db.unchecked) (e.insertInto clock db) := by
  constructor
  · intro e' db' hchecked
    obtain ⟨r, hi, rfl⟩ := insertInto_eq_ok_iff.mp hchecked
    rw [Database.insert_eq_unchecked] at hi
    obtain ⟨⟨r', db₁⟩, hfree, hlast⟩ := bind_eq_ok_iff.mp hi
    obtain ⟨_, -, hret⟩ := bind_eq_ok_iff.mp hlast
    cases hret
    exact ⟨db₁, insertInto_eq_ok_iff.mpr ⟨r', hfree, rfl⟩, rfl⟩
  · intro e' db' hfree hchecks hgains
    obtain ⟨r, hi, -⟩ := insertInto_eq_ok_iff.mp hfree
    exact bind_eq_error_iff.mpr (Or.inl (Database.insert_of_gains hs hi hchecks hgains))
  · intro hchecked
    rcases bind_eq_error_iff.mp hchecked with hinsert | ⟨_, -, hret⟩
    · obtain ⟨hchecks, hkind, r, db', hi, hr, hdangles⟩ := Database.insert_missingReference hinsert
      rw [hkind] at hr
      exact ⟨hchecks, r, db', insertInto_eq_ok_iff.mpr ⟨r, hi, by rw [hkind]⟩, hr, hdangles⟩
    · cases hret

/-- A save looks for the row of the entity, and then for what has changed. -/
theorem saveInto_eq (e : Entity) (clock : Instant) (db : Database) :
    e.saveInto clock db = (do
      match ← e.row? db with
      | none => e.insertInto clock db
      | some old =>
        if (e.changes old).isEmpty then return (ofRow e.kind old, db)
        else
          let p ← db.update e.kind.table old (e.changes old)
          return (ofRow e.kind p.1, p.2)) := rfl

theorem row?_ne_missingReference {f : Failure} (h : e.row? db = .error f) :
    f ≠ .missingReference := by
  unfold row? at h
  split at h
  · cases h
  · rcases bind_eq_error_iff.mp h with h | ⟨_, -, h⟩
    · refine Bound.ne_missingReference (fun cause hc => ?_) h
      exact Binding.ne_missingReference (List.mem_singleton.mp hc).symm
    · cases h

/-- A change of a row that there is. -/
theorem rechecks_update (hs : db.Sound) {old : Row} (hold : old ∈ db.tableRows e.kind.table) :
    Rechecks db
      (do
        let p ← db.unchecked.update e.kind.table old (e.changes old)
        return (ofRow e.kind p.1, p.2))
      (do
        let p ← db.update e.kind.table old (e.changes old)
        return (ofRow e.kind p.1, p.2)) := by
  have hid := lookup_id_changes e old
  constructor
  · intro e' db' hchecked
    obtain ⟨⟨r, db₁⟩, hu, hret⟩ := bind_eq_ok_iff.mp hchecked
    cases hret
    rw [Database.update_eq_unchecked] at hu
    obtain ⟨⟨r', db₂⟩, hfree, hlast⟩ := bind_eq_ok_iff.mp hu
    obtain ⟨_, -, hret⟩ := bind_eq_ok_iff.mp hlast
    cases hret
    exact ⟨db₂, bind_eq_ok_iff.mpr ⟨(r', db₂), hfree, rfl⟩, rfl⟩
  · intro e' db' hfree hchecks hgains
    obtain ⟨⟨r, db₁⟩, hu, hret⟩ := bind_eq_ok_iff.mp hfree
    cases hret
    exact bind_eq_error_iff.mpr
      (Or.inl (Database.update_of_gains hs hold hid hu hchecks hgains))
  · intro hchecked
    rcases bind_eq_error_iff.mp hchecked with hupdate | ⟨_, -, hret⟩
    · obtain ⟨hchecks, hkind, r, db', hu, hr, hdangles⟩ :=
        Database.update_missingReference hs hold hid hupdate
      rw [hkind] at hr
      exact ⟨hchecks, r, db', bind_eq_ok_iff.mpr ⟨(r, db'), hu, by rw [hkind]; rfl⟩, hr,
        hdangles⟩
    · cases hret

theorem rechecks_saveInto (hs : db.Sound) :
    Rechecks db (e.saveInto clock db.unchecked) (e.saveInto clock db) := by
  have hrow : e.row? db.unchecked = e.row? db := rfl
  rw [saveInto_eq, saveInto_eq, hrow]
  cases hfound : e.row? db with
  | error f =>
    exact ⟨fun _ _ h => (nomatch h), fun _ _ hfree => (nomatch hfree), fun hchecked =>
      absurd (Except.error.inj hchecked) (row?_ne_missingReference hfound)⟩
  | ok found =>
    cases found with
    | none => exact rechecks_insertInto hs
    | some old =>
      change Rechecks db (if (e.changes old).isEmpty then _ else _)
        (if (e.changes old).isEmpty then _ else _)
      split
      · refine ⟨fun e' db' hchecked => ?_, fun e' db' hfree _ hgains => ?_,
          fun hchecked => (nomatch hchecked)⟩
        · cases hchecked
          exact ⟨db.unchecked, rfl, rfl⟩
        · cases hfree
          cases (Database.gainsDangling_of_same rfl).symm.trans hgains
      · exact rechecks_update hs (mem_of_row? hfound)

end Entity

/-! ## Other failures -/

theorem Calendar.Moment.toInstant_ne_missingReference {m : Moment} {f : Failure}
    (h : m.toInstant = .error f) : f ≠ .missingReference := by
  unfold Moment.toInstant at h
  split at h <;> cases h
  exact fun h => nomatch h

namespace Journal

variable {kind : Kind} {id : Int} {payload : List (String × Value)} {clock : Instant}
  {db : Database} {f : Failure}

/-- The tables of journals refer to nothing. -/
theorem append_ne_missingReference {time : Instant}
    (h : append kind id payload time clock db = .error f) : f ≠ .missingReference := by
  by_cases hlate : IsLate db kind id time
  · obtain ⟨version, last, hl, hlt⟩ := hlate
    rw [append_of_late hl hlt] at h
    cases h
    exact fun h => nomatch h
  · rw [append_of_not_late hlate] at h
    rcases bind_eq_error_iff.mp h with h | ⟨⟨data, db₁⟩, -, h⟩
    · exact Database.insert_ne_missingReference
        (fun _ => Database.checkReferences_of_none kind.journal_references _ _ _) h
    · rcases bind_eq_error_iff.mp h with h | ⟨_, -, h⟩
      · exact Database.insert_ne_missingReference
          (fun _ => Database.checkReferences_of_none rfl _ _ _) h
      · cases h

theorem record_ne_missingReference {recordedAt : Option Moment}
    (h : (record kind id payload recordedAt clock).answer db = .error f) :
    f ≠ .missingReference := by
  rw [Action.answer, record_eq] at h
  split at h
  · rw [Action.run_bind, Action.run_lift] at h
    cases ht : recordingTime recordedAt clock with
    | error f' =>
      rw [ht] at h
      cases h
      cases recordedAt with
      | none => cases ht
      | some m => exact Moment.toInstant_ne_missingReference ht
    | ok time =>
      rw [ht] at h
      simp only [run_recordAt, Action.run_change] at h
      split at h
      · split at h
        · cases h
        · next happend =>
          cases h
          exact append_ne_missingReference happend
      · cases h
        intro h
        cases h
  · cases h
    intro h
    cases h

end Journal

namespace Entity

variable {f : Failure}

theorem normalizeTime_ne_missingReference {values : List (String × Value)} {name : String}
    (h : normalizeTime values name = .error f) : f ≠ .missingReference := by
  unfold normalizeTime at h
  split at h
  · cases h
  · cases h
  · rcases bind_eq_error_iff.mp h with h | ⟨_, -, h⟩
    · exact Moment.toInstant_ne_missingReference h
    · cases h
  · cases h
    exact fun h => nomatch h

theorem setAll_ne_missingReference {e : Entity} {values : List (String × Value)}
    (h : (e.setAll values).2 = some f) : f ≠ .missingReference := by
  induction values generalizing e with
  | nil => cases h
  | cons v values ih =>
    unfold setAll at h
    split at h
    · exact ih h
    · split at h
      · exact ih h
      · cases h
        intro h
        cases h

theorem assign_ne_missingReference {e : Entity} {values : List (String × Value)}
    {recordedAt : Option Moment} {clock : Instant}
    (h : (e.assign values recordedAt clock).2 = some f) : f ≠ .missingReference := by
  unfold assign at h
  split at h
  · cases h
    exact fun h => nomatch h
  · split at h
    · next hall =>
      cases h
      exact setAll_ne_missingReference (congrArg Prod.snd hall)
    · split at h
      · cases h
      · split at h
        · cases h
        · next hm =>
          cases h
          exact Moment.toInstant_ne_missingReference hm

/-! ## The two steps -/

namespace Write

variable {w : Write} {recordedAt : Option Moment} {clock : Instant} {db : Database}

/-- The call with which an entity is written, journaled or not. -/
def call (journaled : Bool) (recordedAt : Option Moment) (clock : Instant) : Write → Action Entity
  | create kind values => Entity.create kind journaled recordedAt values clock
  | update e values => e.update journaled recordedAt values clock

theorem call_true (w : Write) (recordedAt : Option Moment) (clock : Instant) :
    w.call true recordedAt clock = w.action recordedAt clock := by
  cases w <;> rfl

/-- A write is its first step, and what follows if that succeeds. -/
theorem run_call (w : Write) (journaled : Bool) (recordedAt : Option Moment) (clock : Instant)
    (db : Database) : (w.call journaled recordedAt clock).run db =
      match w.live recordedAt clock db with
      | .error f => (.error f, db)
      | .ok (e, db₁) => (finish journaled recordedAt clock e).run db₁ := by
  cases w with
  | create kind values => exact run_create journaled recordedAt clock kind values db
  | update e values => exact run_update journaled recordedAt clock e values db

/-- A write that is not journaled is its first step. -/
theorem run_call_false (w : Write) (recordedAt : Option Moment) (clock : Instant) (db : Database) :
    (w.call false recordedAt clock).run db = match w.live recordedAt clock db with
      | .error f => (.error f, db)
      | .ok (e, db₁) => (.ok e, db₁) := by
  rw [run_call]
  cases w.live recordedAt clock db <;> rfl

theorem live_of_run_false {e : Entity} {db' : Database}
    (h : (w.call false recordedAt clock).run db = (.ok e, db')) :
    w.live recordedAt clock db = .ok (e, db') := by
  rw [run_call_false] at h
  cases hl : w.live recordedAt clock db with
  | error f =>
    rw [hl] at h
    cases h
  | ok p =>
    rw [hl] at h
    cases h
    rfl

/-- A write whose first step fails changes nothing. -/
theorem run_call_of_error {f : Failure} (journaled : Bool)
    (h : w.live recordedAt clock db = .error f) :
    (w.call journaled recordedAt clock).run db = (.error f, db) := by
  rw [run_call, h]

theorem rechecks_live (hs : db.Sound) :
    Rechecks db (w.live recordedAt clock db.unchecked) (w.live recordedAt clock db) := by
  have herror : ∀ {f : Failure}, f ≠ .missingReference → Rechecks db (.error f) (.error f) :=
    fun hf => ⟨fun _ _ h => (nomatch h), fun _ _ h => (nomatch h),
      fun h => absurd (Except.error.inj h) hf⟩
  cases w with
  | create kind values =>
    simp only [live]
    cases h₁ : normalizeTime values "created_at" with
    | error f => exact herror (normalizeTime_ne_missingReference h₁)
    | ok values₁ =>
      simp only [bind, Except.bind]
      cases h₂ : normalizeTime values₁ "updated_at" with
      | error f => exact herror (normalizeTime_ne_missingReference h₂)
      | ok values₂ => exact rechecks_insertInto hs
  | update e values =>
    simp only [live]
    rcases ha : e.assign values recordedAt clock with ⟨e', _ | f⟩
    · exact rechecks_saveInto hs
    · exact herror (assign_ne_missingReference (congrArg Prod.snd ha))

/-- The second step of a write fails for other reasons. -/
theorem live_of_missingReference {journaled : Bool}
    (h : (w.call journaled recordedAt clock).answer db = .error .missingReference) :
    w.live recordedAt clock db = .error .missingReference := by
  rw [Action.answer] at h
  cases hl : w.live recordedAt clock db with
  | error f =>
    rw [run_call_of_error journaled hl] at h
    exact congrArg Except.error (Except.error.inj h)
  | ok p =>
    obtain ⟨e, db₁⟩ := p
    cases journaled with
    | false =>
      rw [run_call_false, hl] at h
      cases h
    | true =>
      rw [call_true, run_action, hl] at h
      dsimp only at h
      rcases hentry : (entry recordedAt clock e).run db₁ with ⟨f | x, db₂⟩
      · rw [hentry] at h
        exact absurd (Except.error.inj h)
          (Journal.record_ne_missingReference (congrArg Prod.fst hentry))
      · rw [hentry] at h
        cases h

end Write

end Entity

/-! ## Stores that check -/

variable {db db' : Database}

/-- A project that is referred to stays one, as projects keep their numbers. -/
theorem Database.refers_of_keepsNumbers (hs : db.Sound) (hs' : db'.Sound)
    (h : db.KeepsNumbers db') {c : Cell} (hc : db.refers c = true) : db'.refers c = true := by
  rw [refers, Bool.or_eq_true, List.any_eq_true] at hc ⊢
  refine hc.imp_right ?_
  rintro ⟨p, hp, heq⟩
  obtain ⟨q, hq, hid⟩ := h .project p hp
  have hnumber := (hs.fits _ (Kind.project).table_mem p hp).number
  have hnumber' := (hs'.fits _ (Kind.project).table_mem q hq).number
  exact ⟨q, hq, by rw [hnumber', hid, ← hnumber]; exact heq⟩

namespace Entity

theorem Rechecks.gainsDangling_eq_false {free checked : Except Failure (Entity × Database)}
    (h : Rechecks db free checked) (hchecks : db.checksReferences = true) {e : Entity}
    (hok : checked = .ok (e, db')) : db.gainsDangling db' = false := by
  obtain ⟨db₁, hfree, hrows⟩ := h.taken e db' hok
  by_contra hgains
  rw [← Database.gainsDangling_congr hrows, Bool.not_eq_false] at hgains
  rw [h.gains e db₁ hfree hchecks hgains] at hok
  cases hok

end Entity

namespace Change

/-- No change of a store that checks adds a reference that leads nowhere. -/
theorem gainsDangling_eq_false (h : Journal.Regular db) (hchecks : db.checksReferences = true)
    (hc : Change db db') : db.gainsDangling db' = false := by
  cases hc with
  | opened => exact Database.gainsDangling_of_same rfl
  | inserted hi => exact (Entity.rechecks_insertInto h.sound).gainsDangling_eq_false hchecks hi
  | saved hi => exact (Entity.rechecks_saveInto h.sound).gainsDangling_eq_false hchecks hi
  | appended hu ht ha =>
    obtain ⟨-, -, -, -, -, rfl⟩ := (Journal.append_eq_ok_iff h.sound h.counted (h.payloads _)
      ((Journal.unknownNames_isEmpty_iff _ _).mp hu) ht).mp ha
    exact Database.gainsDangling_of_same (Journal.tableRows_appended_of_ne _ _ _ _ _ _
      (Kind.workPackage).table_mem (Kind.workPackage).table_ne_journals
      ((Kind.workPackage).table_ne_journal _))

/-- A store that checks goes on checking. -/
theorem checksReferences (h : Journal.Regular db) (hchecks : db.checksReferences = true)
    (hc : Change db db') : db'.checksReferences = true := by
  cases hc with
  | opened => rfl
  | inserted hi =>
    obtain ⟨-, rows, rfl⟩ := Entity.sound_of_insertInto h.sound hi
    exact hchecks
  | saved hi =>
    obtain ⟨-, rfl | ⟨rows, rfl⟩⟩ := Entity.sound_of_saveInto h.sound hi
    · exact hchecks
    · exact hchecks
  | appended hu ht ha =>
    obtain ⟨-, -, -, -, -, rfl⟩ := (Journal.append_eq_ok_iff h.sound h.counted (h.payloads _)
      ((Journal.unknownNames_isEmpty_iff _ _).mp hu) ht).mp ha
    exact hchecks

/-- References stay sound, as projects stay. -/
theorem refersSoundly (h : Journal.Regular db) (hchecks : db.checksReferences = true)
    (hsound : db.RefersSoundly) (hc : Change db db') : db'.RefersSoundly := by
  intro r hr
  by_contra hdangles
  rw [Bool.not_eq_true] at hdangles
  have hnone := gainsDangling_eq_false h hchecks hc
  rw [← Bool.not_eq_true, Database.gainsDangling_eq_true_iff] at hnone
  refine hnone ⟨r, hr, hdangles, fun s hs _ hsame => ?_⟩
  have hkeeps := Database.refers_of_keepsNumbers h.sound (h.change hc).sound (.change h hc)
    (hsound s hs)
  rw [hsame, hdangles] at hkeeps
  cases hkeeps

end Change

namespace Database

/-- Every store that calls lead to from one that checks and is sound is sound again. -/
theorem refersSoundly_after (h : Journal.Regular db) (hchecks : db.checksReferences = true)
    (hsound : db.RefersSoundly) (calls : List Call) :
    (calls.foldl (fun db c => c.after db) db).RefersSoundly := by
  have hall := foldl_after_induction
    (p := fun db => Journal.Regular db ∧ db.checksReferences = true ∧ db.RefersSoundly)
    (fun hp hc => ⟨hp.1.change hc, hc.checksReferences hp.1 hp.2.1,
      hc.refersSoundly hp.1 hp.2.1 hp.2.2⟩) calls ⟨h, hchecks, hsound⟩
  exact hall.2.2

/-! ## Stores that do not check -/

/-- A new row without a number of its own is taken in where nothing is checked, if its cells are as
they have to be and no columns but the number are unique. -/
theorem exists_insert_next (hs : db.Sound) (hchecks : db.checksReferences = false) {t : Table}
    (ht : t ∈ Schema.tables) (huniques : t.uniques = []) {values : List (String × Value)}
    {clock : Instant} {cells : List (String × Cell)}
    (hbound : bindColumns t.columns (valueOf t values clock) = .ok cells)
    (hid : valueOf t values clock "id" = .null)
    (hfilled : ∀ c ∈ t.columns, c.name ≠ "id" → c.nullable = false →
      (draft t values clock).cell c.name ≠ .null) :
    db.insert t values clock = .ok (counted t values clock (nextId (db.tableRows t)),
      db.setRows t (place (counted t values clock (nextId (db.tableRows t))) (db.tableRows t))) := by
  have hnumber : (counted t values clock (nextId (db.tableRows t))).id = nextId (db.tableRows t) :=
    id_counted ht _
  refine insert_eq_ok_iff.mpr ⟨(bindColumns_eq_ok_iff.mp hbound).1,
    ⟨_, idCell_draft ht hid _, rfl⟩, ?_, ?_, ?_, rfl⟩
  · refine checkFilled_eq_ok_iff.mpr fun c hc hne hnull => ?_
    rw [counted, Row.cell_set_of_ne hne]
    exact hfilled c hc hne hnull
  · refine checkUnique_eq_ok_iff.mpr fun columns hcolumns s hmem => ?_
    rw [huniques, List.mem_singleton] at hcolumns
    subst hcolumns
    refine (collides_id ?_ (hs.fits t ht s hmem).number).mpr ?_
    · rw [hnumber]
      exact cell_set_draft ht values clock _
    · rw [hnumber]
      exact Int.ne_of_lt (lt_nextId hmem)
  · unfold checkReferences
    rw [hchecks]
    rfl

/-- The values of a work package of a project that cannot be. -/
def strayValues : List (String × Value) :=
  [("subject", .text "Stray"), ("project_id", .text "none")]

/-- A call that creates it, and does not journal it. -/
def stray : Call := .create .workPackage false none strayValues Journal.firstDay

/-- What is stored of it. -/
def strayStored : List (String × Value) :=
  (Entity.new .workPackage strayValues Journal.firstDay.instant).values.filter fun f => !f.2.isNull

/-- In a store that does not check, it is taken in. -/
theorem not_refersSoundly_stray (hs : db.Sound) (hchecks : db.checksReferences = false) :
    ¬ (stray.after db).RefersSoundly := by
  have ht : Schema.workPackages ∈ Schema.tables := by decide
  obtain ⟨cells, hbound⟩ : ∃ cells, bindColumns Schema.workPackages.columns
      (valueOf Schema.workPackages strayStored Journal.firstDay.instant) = .ok cells := by
    have hok : (bindColumns Schema.workPackages.columns (valueOf Schema.workPackages strayStored
      Journal.firstDay.instant)).toOption.isSome = true := by decide +kernel
    cases h : bindColumns Schema.workPackages.columns (valueOf Schema.workPackages strayStored
      Journal.firstDay.instant) with
    | ok cells => exact ⟨cells, rfl⟩
    | error f =>
      rw [h] at hok
      cases hok
  have hfilled : ∀ c ∈ Schema.workPackages.columns, c.name ≠ "id" → c.nullable = false →
      (draft Schema.workPackages strayStored Journal.firstDay.instant).cell c.name ≠ .null := by
    decide +kernel
  have hinsert := exists_insert_next hs hchecks ht rfl hbound rfl hfilled
  set r := counted Schema.workPackages strayStored Journal.firstDay.instant
    (nextId (db.tableRows Schema.workPackages)) with hr
  have hproject : r.cell "project_id" = .text "none" := by
    rw [hr, counted, Row.cell_set_of_ne (by decide)]
    decide +kernel
  have hafter : stray.after db = db.setRows Schema.workPackages
      (place r (db.tableRows Schema.workPackages)) := by
    have hlive : (Entity.Write.create .workPackage strayValues).live none
        Journal.firstDay.instant db = .ok (Entity.ofRow .workPackage r, db.setRows
          Schema.workPackages (place r (db.tableRows Schema.workPackages))) :=
      Entity.insertInto_eq_ok_iff.mpr ⟨r, hinsert, rfl⟩
    have hrun : stray.after db = (((Entity.Write.create .workPackage strayValues).call false none
        Journal.firstDay.instant).run db).2 := Action.run_discarded _ db
    rw [hrun, Entity.Write.run_call_false, hlive]
  intro hsound
  rw [hafter] at hsound
  have hrefers := hsound r (by
    rw [tableRows_setRows]
    exact (mem_place r r _).mpr (Or.inl rfl))
  rw [refers_setRows_workPackages, hproject, refers, Bool.or_eq_true, List.any_eq_true] at hrefers
  rcases hrefers with hnull | ⟨p, hp, heq⟩
  · cases hnull
  · rw [(hs.fits _ (Kind.project).table_mem p hp).number] at heq
    cases heq

/-- References stay sound whatever is called exactly where they are sound and are checked.  A write is
refused for its reference only in a store that checks, and only if what it would write leads nowhere;
and in such a store it is refused whenever it would add a reference that leads nowhere, with nothing
changed. -/
theorem references_kept_iff (hdb : db.Reached) :
    ((∀ calls : List Call, (calls.foldl (fun db c => c.after db) db).RefersSoundly) ↔
      db.checksReferences = true ∧ db.RefersSoundly) ∧
    ∀ (w : Entity.Write) (journaled : Bool) (recordedAt : Option Moment) (clock : WallClock),
      ((w.call journaled recordedAt clock.instant).answer db = .error .missingReference →
        db.checksReferences = true ∧ ∃ r db',
          (w.call false recordedAt clock.instant).run db.unchecked =
            (.ok (Entity.ofRow .workPackage r), db') ∧
          r ∈ db'.tableRows Schema.workPackages ∧ db.refers (r.cell "project_id") = false) ∧
      (db.checksReferences = true → ∀ e db',
        (w.call false recordedAt clock.instant).run db.unchecked = (.ok e, db') →
        db.gainsDangling db' = true →
        (w.call journaled recordedAt clock.instant).run db = (.error .missingReference, db)) := by
  have hregular := hdb.regular
  refine ⟨⟨fun hall => ⟨?_, hall []⟩, fun h => refersSoundly_after hregular h.1 h.2⟩, ?_⟩
  · by_contra hchecks
    exact not_refersSoundly_stray hregular.sound (Bool.not_eq_true _ ▸ hchecks) (hall [stray])
  intro w journaled recordedAt clock
  obtain ⟨-, hgains, hmissing⟩ : Entity.Rechecks db (w.live recordedAt clock.instant db.unchecked)
      (w.live recordedAt clock.instant db) := Entity.Write.rechecks_live hregular.sound
  refine ⟨fun hrefused => ?_, fun hchecks e db' hfree hdangles => ?_⟩
  · obtain ⟨hchecks, r, db', hfree, hr, hdangles⟩ :=
      hmissing (Entity.Write.live_of_missingReference hrefused)
    refine ⟨hchecks, r, db', ?_, hr, hdangles⟩
    rw [Entity.Write.run_call_false, hfree]
  · exact Entity.Write.run_call_of_error journaled
      (hgains e db' (Entity.Write.live_of_run_false hfree) hchecks hdangles)

/-- A store that has been asked for the number of its entries, and so checks. -/
def asked : Database := .after [.count none none]

/-- A work package of a project that is not there. -/
def orphan : Entity.Write :=
  .create .workPackage [("subject", .text "Orphan"), ("project_id", .int 99)]

theorem references_kept_asked :
    (empty.Reached ∧ ¬ ∀ calls : List Call,
      (calls.foldl (fun db c => c.after db) empty).RefersSoundly) ∧
    asked.Reached ∧
    (∀ calls : List Call, (calls.foldl (fun db c => c.after db) asked).RefersSoundly) ∧
    (orphan.call true none Journal.firstDay.instant).run asked =
      (.error .missingReference, asked) := by
  have hempty : empty.Reached := ⟨[], rfl⟩
  have hasked : asked.Reached := ⟨_, rfl⟩
  obtain ⟨hkept, hwrites⟩ := references_kept_iff hasked
  have hchecks : asked.checksReferences = true := rfl
  rcases hfree : (orphan.call false none Journal.firstDay.instant).run asked.unchecked with
    ⟨answer, db'⟩
  have hok : ((orphan.call false none Journal.firstDay.instant).run
    asked.unchecked).1.toOption.isSome = true := by decide +kernel
  have hdangles : asked.gainsDangling ((orphan.call false none Journal.firstDay.instant).run
    asked.unchecked).2 = true := by decide +kernel
  rw [hfree] at hok hdangles
  cases answer with
  | error f => cases hok
  | ok e =>
    refine ⟨⟨hempty, fun hall => ?_⟩, hasked, hkept.mpr ⟨hchecks, fun r hr => nomatch hr⟩, ?_⟩
    · exact Bool.false_ne_true ((references_kept_iff hempty).1.mp hall).1
    · exact (hwrites orphan true none Journal.firstDay).2 hchecks e db' hfree hdangles

end Database

end Chronicle
