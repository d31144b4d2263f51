import Chronicle.Proofs.Entity.Journaled

/-!
# Entities in hand

An entity in hand is a copy of a row, which later calls leave as it is: the row may change under it,
and an update that fails leaves what was assigned to it.  The next update brings the whole copy into
the store, what has become stale included.

* `Entity.Held`: the entities that calls have handed out, as they are now;
* `Entity.Held.row`: there is still a row of the number of such an entity;
* `Entity.IsStale`: an attribute in hand is not what is stored;
* `Entity.update_keeps_iff`: what an update changes.
-/

namespace Chronicle

open Chronicle.Calendar

theorem Kind.table_injective {k l : Kind} (h : k.table = l.table) : k = l := by
  revert h
  cases k <;> cases l <;> decide

/-! ## Stores that are reached -/

namespace Action

variable {α : Type}

/-- The store after an action does not depend on what becomes of the answer. -/
theorem run_discarded (a : Action α) (db : Database) :
    ((do let _ ← a : Action Unit).run db).2 = (a.run db).2 := by
  rw [run_bind]
  rcases a.run db with ⟨r, db'⟩
  cases r <;> rfl

end Action

namespace Database

theorem Reached.call {db : Database} (h : db.Reached) (c : Call) : (c.after db).Reached := by
  obtain ⟨calls, rfl⟩ := h
  exact ⟨calls ++ [c], (after_append calls [c]).symm⟩

/-- Every number of a live row is still the number of a row. -/
def KeepsNumbers (db db' : Database) : Prop :=
  ∀ kind : Kind, ∀ r ∈ db.tableRows kind.table, ∃ s ∈ db'.tableRows kind.table, s.id = r.id

theorem KeepsNumbers.of_same {db db' : Database}
    (h : ∀ kind : Kind, db'.tableRows kind.table = db.tableRows kind.table) :
    db.KeepsNumbers db' := fun kind r hr => ⟨r, h kind ▸ hr, rfl⟩

theorem KeepsNumbers.trans {db db' db'' : Database} (h : db.KeepsNumbers db')
    (h' : db'.KeepsNumbers db'') : db.KeepsNumbers db'' := by
  intro kind r hr
  obtain ⟨s, hs, hid⟩ := h kind r hr
  obtain ⟨u, hu, hid'⟩ := h' kind s hs
  exact ⟨u, hu, hid'.trans hid⟩

/-- Other rows in one live table that have all the numbers of those before. -/
theorem KeepsNumbers.setRows {db : Database} {kind : Kind} {rows : List Row}
    (h : ∀ r ∈ db.tableRows kind.table, ∃ s ∈ rows, s.id = r.id) :
    db.KeepsNumbers (db.setRows kind.table rows) := by
  intro k r hr
  rw [tableRows_setRows_of_mem rows kind.table_mem k.table_mem]
  split
  · next e => exact h r (e ▸ hr)
  · exact ⟨r, hr, rfl⟩

end Database

namespace Entity

variable {e e' : Entity} {clock : Instant} {db db' : Database}

theorem keepsNumbers_of_insertInto (h : e.insertInto clock db = .ok (e', db')) :
    db.KeepsNumbers db' := by
  obtain ⟨r, hi, -⟩ := insertInto_eq_ok_iff.mp h
  rw [Database.tableRows_of_insert hi]
  exact .setRows fun s hs => ⟨s, (Database.mem_place r s _).mpr (Or.inr hs), rfl⟩

/-- Rows in which one has been replaced by a row of its number. -/
theorem exists_of_mem_replaced {rows : List Row} {old r : Row}
    (hfits : ∀ s ∈ rows, ∃ t : Table, t.Fits s) (hold : ∃ t : Table, t.Fits old)
    (hid : r.id = old.id) :
    ∀ s ∈ rows, ∃ u ∈ rows.map (fun s => if s.cell "id" == old.cell "id" then r else s),
      u.id = s.id := by
  intro s hs
  refine ⟨_, List.mem_map_of_mem hs, ?_⟩
  split
  · next e =>
    obtain ⟨t, ht⟩ := hfits s hs
    obtain ⟨t', ht'⟩ := hold
    rw [beq_iff_eq, ht.number, ht'.number] at e
    exact hid.trans (Cell.int.inj e).symm
  · rfl

theorem keepsNumbers_of_saveInto (hs : db.Sound) (h : e.saveInto clock db = .ok (e', db')) :
    db.KeepsNumbers db' := by
  rcases saveInto_cases h with ⟨-, hi⟩ | ⟨old, -, -, -, rfl⟩ | ⟨old, r, hfound, hu, -⟩
  · exact keepsNumbers_of_insertInto hi
  · exact .of_same fun _ => rfl
  · have hfits := hs.fits _ e.kind.table_mem
    have hold := hfits old (mem_of_row? hfound)
    obtain ⟨-, hid⟩ := Database.fits_of_update e.kind.table_mem hold (lookup_id_changes e old) hu
    obtain ⟨-, -, -, -, -, rfl⟩ := Database.update_eq_ok_iff.mp hu
    exact .setRows (exists_of_mem_replaced (fun s hs => ⟨_, hfits s hs⟩) ⟨_, hold⟩ hid)

end Entity

namespace Database

variable {db db' : Database}

theorem KeepsNumbers.change (h : Journal.Regular db) (hc : Change db db') :
    db.KeepsNumbers db' := by
  cases hc with
  | opened => exact .of_same fun _ => rfl
  | inserted hi => exact Entity.keepsNumbers_of_insertInto hi
  | saved hi => exact Entity.keepsNumbers_of_saveInto h.sound hi
  | appended hu ht ha =>
    obtain ⟨-, -, -, -, -, rfl⟩ := (Journal.append_eq_ok_iff h.sound h.counted (h.payloads _)
      ((Journal.unknownNames_isEmpty_iff _ _).mp hu) ht).mp ha
    exact .of_same fun k => Journal.tableRows_appended_of_ne _ _ _ _ _ _ k.table_mem
      k.table_ne_journals (k.table_ne_journal _)

/-- No call removes a live row or gives it another number. -/
theorem Reached.keepsNumbers (h : db.Reached) (c : Call) : db.KeepsNumbers (c.after db) := by
  have hboth : Journal.Regular (c.after db) ∧ db.KeepsNumbers (c.after db) :=
    foldl_after_induction (p := fun db' => Journal.Regular db' ∧ db.KeepsNumbers db')
      (fun hp hc => ⟨hp.1.change hc, hp.2.trans (.change hp.1 hc)⟩) [c]
      ⟨h.regular, .of_same fun _ => rfl⟩
  exact hboth.2

end Database

/-! ## Reading -/

namespace Action

/-- The numbers are looked at one after the other. -/
theorem run_checkNumbers (is : List Int) (db : Database) :
    (forIn is PUnit.unit fun i _ => do
      checkNumber i
      pure (ForInStep.yield PUnit.unit) : Action PUnit).run db =
      (if is.all Cell.isStorable then .ok PUnit.unit else .error .integerOutOfRange, db) := by
  induction is with
  | nil => rfl
  | cons i is ih =>
    rw [List.forIn_cons, run_bind, run_bind, run_checkNumber, List.all_cons]
    cases hi : Cell.isStorable i with
    | false => rfl
    | true => exact ih

end Action

namespace Entity

theorem run_get (kind : Kind) (id : Int) (db : Database) : (get kind id).run db =
    (if Cell.isStorable id then .ok ((db.find? kind.table id).map (ofRow kind))
      else .error .integerOutOfRange, db) := by
  rw [get, Action.run_bind, Action.run_checkNumber]
  by_cases hi : Cell.isStorable id = true
  · rw [if_pos hi, if_pos hi]
    rfl
  · rw [if_neg hi, if_neg hi]

theorem run_list (kind : Kind) (ids : Option (List Int)) (db : Database) :
    (list kind ids).run db =
      (if ids.all (·.all Cell.isStorable) then .ok (((db.tableRows kind.table).filter fun r =>
        ids.all fun is => is.any fun i => r.cell "id" == .int i).map (ofRow kind))
      else .error .integerOutOfRange, db) := by
  cases ids with
  | none => rfl
  | some is =>
    unfold list
    dsimp only
    rw [Action.run_bind, Action.run_checkNumbers, Option.all_some]
    cases is.all Cell.isStorable <;> rfl

end Entity

/-! ## Writes that succeed -/

namespace Entity

variable {e e' : Entity} {kind : Kind} {values : List (String × Value)} {journaled : Bool}
  {recordedAt : Option Moment} {clock : Instant} {db db₁ db' : Database}

/-- What follows the first step of a write that succeeds. -/
def Completes (journaled : Bool) (recordedAt : Option Moment) (clock : Instant) (e : Entity)
    (db₁ db' : Database) : Prop :=
  if journaled then ∃ x, (Write.entry recordedAt clock e).run db₁ = (.ok x, db') else db' = db₁

theorem completes_of_run {stepped : Except Failure (Entity × Database)}
    (hrun : (match stepped with
      | .error f => (.error f, db)
      | .ok (e, db₁) => (Write.finish journaled recordedAt clock e).run db₁) = (.ok e, db')) :
    ∃ db₁, stepped = .ok (e, db₁) ∧ Completes journaled recordedAt clock e db₁ db' := by
  cases stepped with
  | error f => cases hrun
  | ok p =>
    obtain ⟨e₁, db₁⟩ := p
    cases journaled with
    | false =>
      cases hrun
      exact ⟨_, rfl, rfl⟩
    | true =>
      dsimp only at hrun
      rw [Write.run_finish_true] at hrun
      rcases hentry : (Write.entry recordedAt clock e₁).run db₁ with ⟨given, db₂⟩
      rw [hentry] at hrun
      cases given with
      | error g => cases hrun
      | ok x =>
        cases hrun
        exact ⟨db₁, rfl, x, hentry⟩

theorem live_of_create (hrun : (create kind journaled recordedAt values clock).run db =
    (.ok e, db')) : ∃ db₁, (Write.create kind values).live recordedAt clock db = .ok (e, db₁) ∧
      Completes journaled recordedAt clock e db₁ db' :=
  completes_of_run ((Write.run_create journaled recordedAt clock kind values db).symm.trans hrun)

theorem live_of_update (hrun : (e.update journaled recordedAt values clock).run db =
    (.ok e', db')) : ∃ db₁, (Write.update e values).live recordedAt clock db = .ok (e', db₁) ∧
      Completes journaled recordedAt clock e' db₁ db' :=
  completes_of_run ((Write.run_update journaled recordedAt clock e values db).symm.trans hrun)

/-- The journal of a store with the same journals. -/
theorem journals_of_same {r : Row} {time : Instant}
    (hj : db₁.tableRows Schema.journals = db.tableRows Schema.journals)
    (hp : ∀ k : Kind, db₁.tableRows k.journal = db.tableRows k.journal)
    (h : db₁.Journals db' kind r time) : db.Journals db' kind r time := by
  obtain ⟨hstored, hothers, line, data, hline, hdata, hcells⟩ := h
  exact ⟨hstored, fun k hk => (hothers k hk).trans (hp k), line, data, hline.trans (by rw [hj]),
    hdata.trans (by rw [hp]), hcells⟩

/-- A write that succeeds answers its row, which is stored with the live tables of the first step
and, if that is wanted, journaled. -/
theorem row_of_completes {w : Write} {clock : WallClock} (h : Journal.Regular db)
    (hl : w.live recordedAt clock.instant db = .ok (e, db₁))
    (hc : Completes journaled recordedAt clock.instant e db₁ db') :
    (∀ k : Kind, db'.tableRows k.table = db₁.tableRows k.table) ∧
    ∃ r ∈ db'.tableRows e.kind.table, e = ofRow e.kind r ∧ e.kind.table.Fits r ∧
      (journaled = true → ∃ time,
        Journal.recordingTime (recordedAt.or e.updatedAt) clock.instant = .ok time ∧
        db.Journals db' e.kind r time) := by
  obtain ⟨⟨hreg, hj, hp⟩, r, hr, he⟩ := Write.live_spec h hl
  have hfits := hreg.sound.fits _ e.kind.table_mem r hr
  cases journaled with
  | false =>
    cases hc
    exact ⟨fun _ => rfl, r, hr, he, hfits, fun hno => nomatch hno⟩
  | true =>
    obtain ⟨x, hx⟩ := hc
    generalize e.kind = kind at hr he hfits
    subst he
    obtain ⟨-, -, hwhole⟩ := Write.entry_spec hreg hr hx
    obtain ⟨hlive, time, ht, hjournals⟩ := hwhole x rfl
    exact ⟨hlive, r, hlive kind ▸ hr, rfl, hfits,
      fun _ => ⟨time, ht, journals_of_same hj hp hjournals⟩⟩

end Entity

/-! ## Assignments -/

namespace Entity

variable {e : Entity}

/-- All attributes of the kind are there, in the order of the columns. -/
def IsComplete (e : Entity) : Prop := e.values.map (·.1) = e.kind.table.columnNames

theorem isComplete_ofRow (kind : Kind) (r : Row) : (ofRow kind r).IsComplete := by
  simp [IsComplete, ofRow, Table.columnNames]

theorem IsComplete.isSome_get? (h : e.IsComplete) {name : String}
    (hn : name ∈ e.kind.table.columnNames) : (e.get? name).isSome = true := by
  rw [← h, List.mem_map] at hn
  obtain ⟨f, hf, rfl⟩ := hn
  exact List.lookup_isSome_iff.mpr ⟨f, hf, beq_self_eq_true _⟩

theorem kind_set (e : Entity) (name : String) (v : Value) : (e.set name v).kind = e.kind := by
  unfold set
  split <;> rfl

theorem IsComplete.set (h : e.IsComplete) {name : String}
    (hn : name ∈ e.kind.table.columnNames) (v : Value) : (e.set name v).IsComplete := by
  rw [IsComplete, kind_set, ← h, Entity.set, if_pos (h.isSome_get? hn)]
  simp only [List.map_map]
  congr 1
  funext f
  simp only [Function.comp]
  split
  · next hf => exact (beq_iff_eq.mp hf).symm
  · rfl

theorem get?_set_of_ne {name n : String} (hne : n ≠ name) (e : Entity) (v : Value) :
    (e.set name v).get? n = e.get? n := by
  have hmap : ∀ fs : List (String × Value),
      (fs.map fun f => if f.1 == name then (name, v) else f).lookup n = fs.lookup n := by
    intro fs
    induction fs with
    | nil => rfl
    | cons f fs ih =>
      obtain ⟨m, w⟩ := f
      rw [List.map_cons]
      by_cases hm : m = name
      · have hb : (n == name) = false := by simpa using hne
        rw [if_pos (by simpa using hm), hm, List.lookup_cons, List.lookup_cons, hb, ih]
      · rw [if_neg (by simpa using hm), List.lookup_cons, List.lookup_cons, ih]
  unfold set get?
  split
  · exact hmap e.values
  · have hb : (n == name) = false := by simpa using hne
    simp [List.lookup_append, List.lookup_cons, hb]

theorem lookup_cons_eq_none_iff {f : String × Value} {values : List (String × Value)} {n : String} :
    (f :: values).lookup n = none ↔ n ≠ f.1 ∧ values.lookup n = none := by
  rw [List.lookup_eq_none_iff, List.lookup_eq_none_iff, List.forall_mem_cons]
  simp

/-- Giving attributes their values leaves the others as they are. -/
theorem setAll_keeps (h : e.IsComplete) (values : List (String × Value)) :
    (e.setAll values).1.IsComplete ∧
      ∀ n, values.lookup n = none → (e.setAll values).1.get? n = e.get? n := by
  induction values generalizing e with
  | nil => exact ⟨h, fun _ _ => rfl⟩
  | cons f values ih =>
    obtain ⟨name, v⟩ := f
    unfold setAll
    split
    · next hcol =>
      obtain ⟨c, hc⟩ := Option.isSome_iff_exists.mp hcol
      have hname : name ∈ e.kind.table.columnNames := by
        rw [← Table.column?_name hc]
        exact List.mem_map_of_mem (Table.column?_mem hc)
      obtain ⟨hcomplete, hget⟩ := ih (h.set hname v)
      refine ⟨hcomplete, fun n hn => ?_⟩
      obtain ⟨hne, hn⟩ := lookup_cons_eq_none_iff.mp hn
      rw [hget n hn, get?_set_of_ne hne]
    · split
      · exact ⟨(ih h).1, fun n hn => (ih h).2 n (lookup_cons_eq_none_iff.mp hn).2⟩
      · exact ⟨h, fun _ _ => rfl⟩

theorem updatedAt_mem (k : Kind) : "updated_at" ∈ k.table.columnNames := by
  cases k <;> decide

/-- So does a change of an entity in hand, apart from the time of the last change. -/
theorem assign_keeps (h : e.IsComplete) (values : List (String × Value))
    (recordedAt : Option Moment) (clock : Instant) :
    (e.assign values recordedAt clock).1.IsComplete ∧
      ∀ n, values.lookup n = none → n ≠ "updated_at" →
        (e.assign values recordedAt clock).1.get? n = e.get? n := by
  obtain ⟨hcomplete, hget⟩ := setAll_keeps h values
  unfold assign
  split
  · exact ⟨h, fun _ _ _ => rfl⟩
  · split
    · next hall =>
      rw [hall] at hcomplete hget
      exact ⟨hcomplete, fun n hn _ => hget n hn⟩
    · next e₁ hall =>
      rw [hall] at hcomplete hget
      have hset : ∀ v, (e₁.set "updated_at" v).IsComplete ∧
          ∀ n, values.lookup n = none → n ≠ "updated_at" →
            (e₁.set "updated_at" v).get? n = e.get? n := fun v =>
        ⟨hcomplete.set (updatedAt_mem _) v, fun n hn hne =>
          (get?_set_of_ne hne e₁ v).trans (hget n hn)⟩
      split
      · exact hset _
      · split
        · exact hset _
        · exact ⟨hcomplete, fun n hn _ => hget n hn⟩

/-- The number stays, whatever is assigned. -/
theorem get?_id_assign (h : e.IsComplete) (values : List (String × Value))
    (recordedAt : Option Moment) (clock : Instant) :
    (e.assign values recordedAt clock).1.get? "id" = e.get? "id" := by
  cases hid : values.lookup "id" with
  | none => exact (assign_keeps h values recordedAt clock).2 "id" hid (by decide)
  | some v =>
    unfold assign
    split
    · rfl
    · next hfilter =>
      rw [List.filter_eq_nil_iff] at hfilter
      exact absurd (by rw [hid]; rfl) (hfilter "id" (by decide))

end Entity

/-! ## Entities in hand -/

namespace Entity

variable {e e' : Entity} {kind : Kind} {values : List (String × Value)} {journaled : Bool}
  {recordedAt : Option Moment} {db db' : Database}

/-- An entity with all attributes of its kind, whose number is that of a row. -/
structure IsCopy (db : Database) (e : Entity) : Prop where
  complete : e.IsComplete
  row : ∃ r ∈ db.tableRows e.kind.table, e.get? "id" = some (.int r.id)

theorem get?_id_ofRow {r : Row} (hr : kind.table.Fits r) :
    (ofRow kind r).get? "id" = some (.int r.id) := by
  have hid : (ofRow kind r).get? Schema.idColumn.name = _ :=
    get?_ofRow (Schema.idColumn_mem kind.table_mem) r
  rw [show Schema.idColumn.name = "id" from rfl, hr.number] at hid
  exact hid

namespace IsCopy

theorem ofRow (hs : db.Sound) {r : Row} (hr : r ∈ db.tableRows kind.table) :
    IsCopy db (ofRow kind r) :=
  ⟨isComplete_ofRow kind r, r, hr, get?_id_ofRow (hs.fits _ kind.table_mem r hr)⟩

theorem keeps (h : IsCopy db e) (hk : db.KeepsNumbers db') : IsCopy db' e := by
  obtain ⟨hcomplete, r, hr, hid⟩ := h
  obtain ⟨s, hs, hsame⟩ := hk e.kind r hr
  exact ⟨hcomplete, s, hs, hsame ▸ hid⟩

theorem assign (h : IsCopy db e) (values : List (String × Value)) (recordedAt : Option Moment)
    (clock : Instant) : IsCopy db (e.assign values recordedAt clock).1 := by
  obtain ⟨hcomplete, r, hr, hid⟩ := h
  refine ⟨(assign_keeps hcomplete _ _ _).1, r, ?_, (get?_id_assign hcomplete _ _ _).trans hid⟩
  rw [assign_kind]
  exact hr

end IsCopy

/-- The entities that calls have handed out, as they are now: what is assigned in an update stays
assigned, whether or not the update succeeds, and no other call changes them. -/
inductive Held : Database → Entity → Prop
  | created {db db' : Database} {kind : Kind} {journaled : Bool} {recordedAt : Option Moment}
      {values : List (String × Value)} {clock : WallClock} {e : Entity} : db.Reached →
      (create kind journaled recordedAt values clock.instant).run db = (.ok e, db') → Held db' e
  | found {db db' : Database} {kind : Kind} {id : Int} {e : Entity} : db.Reached →
      (get kind id).run db = (.ok (some e), db') → Held db' e
  | listed {db db' : Database} {kind : Kind} {ids : Option (List Int)} {es : List Entity}
      {e : Entity} : db.Reached → (list kind ids).run db = (.ok es, db') → e ∈ es → Held db' e
  | updated {db db' : Database} {e e' : Entity} {journaled : Bool} {recordedAt : Option Moment}
      {values : List (String × Value)} {clock : WallClock} : Held db e →
      (e.update journaled recordedAt values clock.instant).run db = (.ok e', db') → Held db' e'
  | assigned {db db' : Database} {e : Entity} {journaled : Bool} {recordedAt : Option Moment}
      {values : List (String × Value)} {clock : WallClock} {answer : Except Failure Entity} :
      Held db e → (e.update journaled recordedAt values clock.instant).run db = (answer, db') →
      Held db' (e.assign values recordedAt clock.instant).1
  | kept {db : Database} {e : Entity} : Held db e → (c : Call) → Held (c.after db) e

/-- What a write that succeeds answers is a copy. -/
theorem isCopy_of_completes {w : Write} {clock : WallClock} {db₁ : Database} (h : db.Reached)
    (h' : db'.Reached) (hl : w.live recordedAt clock.instant db = .ok (e, db₁))
    (hc : Completes journaled recordedAt clock.instant e db₁ db') : IsCopy db' e := by
  obtain ⟨-, r, hr, he, -⟩ := row_of_completes h.regular hl hc
  rw [he]
  exact .ofRow h'.regular.sound hr

theorem reached_create (h : db.Reached) (kind : Kind) (journaled : Bool)
    (recordedAt : Option Moment) (values : List (String × Value)) (clock : WallClock) :
    Database.Reached ((create kind journaled recordedAt values clock.instant).run db).2 :=
  Action.run_discarded _ _ ▸ h.call (.create kind journaled recordedAt values clock)

theorem reached_update (h : db.Reached) (e : Entity) (journaled : Bool)
    (recordedAt : Option Moment) (values : List (String × Value)) (clock : WallClock) :
    Database.Reached ((e.update journaled recordedAt values clock.instant).run db).2 ∧
      db.KeepsNumbers ((e.update journaled recordedAt values clock.instant).run db).2 :=
  Action.run_discarded _ _ ▸ ⟨h.call (.update e journaled recordedAt values clock),
    h.keepsNumbers (.update e journaled recordedAt values clock)⟩

/-- Whatever has been called since, an entity in hand has all attributes of its kind, and there is
still a row of its number. -/
theorem Held.isCopy (h : Held db e) : db.Reached ∧ IsCopy db e := by
  induction h with
  | @created db db' kind journaled recordedAt values clock e hdb hrun =>
    have hdb' := reached_create hdb kind journaled recordedAt values clock
    rw [hrun] at hdb'
    obtain ⟨db₁, hl, hc⟩ := live_of_create hrun
    exact ⟨hdb', isCopy_of_completes hdb hdb' hl hc⟩
  | @found db db' kind id e hdb hrun =>
    rw [run_get] at hrun
    obtain ⟨hanswer, rfl⟩ := Prod.mk.inj hrun
    split at hanswer
    · obtain ⟨r, hr, rfl⟩ := Option.map_eq_some_iff.mp (Except.ok.inj hanswer)
      exact ⟨hdb, .ofRow hdb.regular.sound (List.mem_of_find?_eq_some hr)⟩
    · cases hanswer
  | @listed db db' kind ids es e hdb hrun he =>
    rw [run_list] at hrun
    obtain ⟨hanswer, rfl⟩ := Prod.mk.inj hrun
    split at hanswer
    · cases hanswer
      obtain ⟨r, hr, rfl⟩ := List.mem_map.mp he
      exact ⟨hdb, .ofRow hdb.regular.sound (List.mem_filter.mp hr).1⟩
    · cases hanswer
  | @updated db db' e e' journaled recordedAt values clock he hrun ih =>
    have hdb' := (reached_update ih.1 e journaled recordedAt values clock).1
    rw [hrun] at hdb'
    obtain ⟨db₁, hl, hc⟩ := live_of_update hrun
    exact ⟨hdb', isCopy_of_completes ih.1 hdb' hl hc⟩
  | @assigned db db' e journaled recordedAt values clock answer he hrun ih =>
    obtain ⟨hdb', hkeeps⟩ := reached_update ih.1 e journaled recordedAt values clock
    rw [hrun] at hdb' hkeeps
    exact ⟨hdb', (ih.2.keeps hkeeps).assign _ _ _⟩
  | kept he c ih => exact ⟨ih.1.call c, ih.2.keeps (ih.1.keepsNumbers c)⟩

/-- There is still a row of the number of an entity in hand. -/
theorem Held.row (h : Held db e) :
    ∃ r ∈ db.tableRows e.kind.table, e.get? "id" = some (.int r.id) := h.isCopy.2.row

/-! ## What an update changes -/

/-- An attribute in hand is not what is stored: its value is another one, and so is the cell that it
leaves. -/
def IsStale (e : Entity) (old : Row) (c : Column) : Prop :=
  ∃ v, e.get? c.name = some v ∧ ((ofRow e.kind old).get? c.name).any v.equals = false ∧
    ((Binding.intoColumn c.type).bind v).toCell.under c.type.affinity ≠ old.cell c.name

/-- A copy of a row as it is stored has nothing stale. -/
theorem not_isStale_ofRow {old : Row} (hold : kind.table.Fits old) {c : Column}
    (hc : c ∈ kind.table.columns) : ¬(ofRow kind old).IsStale old c := by
  rintro ⟨v, hv, hdiffers, hcell⟩
  rw [get?_ofRow hc] at hv
  cases hv
  by_cases hid : c.name = "id"
  · have hnumber : (ofRow kind old).get? "id" = some (.int old.id) := get?_id_ofRow hold
    rw [← hid, get?_ofRow hc] at hnumber
    rw [show (ofRow kind old).kind = kind from rfl, get?_ofRow hc, Option.some.inj hnumber]
      at hdiffers
    simp [Value.int, Value.equals, Scalar.equals] at hdiffers
  · obtain ⟨d, hd, hunder⟩ := Binding.bind_toScalar (hold.takes c hc hid)
    rw [hd] at hcell
    exact hcell hunder

/-- The row that an entity in hand with a number belongs to. -/
theorem IsCopy.row?_eq (hs : db.Sound) (h : IsCopy db e) {found : Option Row}
    (hf : e.row? db = .ok found) : ∃ old ∈ db.tableRows e.kind.table, found = some old ∧
      e.get? "id" = some (.int old.id) := by
  obtain ⟨-, r, hr, hid⟩ := h
  have hnumber := fun s hs' => (hs.fits _ e.kind.table_mem s hs').number
  rw [row?, hid] at hf
  obtain ⟨⟨⟩, hcheck, hf⟩ := bind_eq_ok_iff.mp hf
  obtain ⟨x, hx⟩ := (Bound.check_eq_ok_iff _).mp hcheck _ (List.mem_singleton_self _)
  have hcell : x = .int r.id := by
    change (if Cell.isStorable r.id then Bound.cell (.int r.id) else _) = _ at hx
    split at hx
    · exact (Bound.cell.inj hx).symm
    · cases hx
  rw [hx, hcell] at hf
  have hfound : (db.tableRows e.kind.table).find? (fun s => s.cell "id" == .int r.id) = found :=
    Except.ok.inj hf
  cases found with
  | none => exact absurd (by simp [hnumber r hr]) (List.find?_eq_none.mp hfound r hr)
  | some old =>
    have hold := List.mem_of_find?_eq_some hfound
    have hsame := List.find?_some hfound
    rw [beq_iff_eq, hnumber old hold] at hsame
    exact ⟨old, hold, rfl, hid.trans (by rw [Cell.int.inj hsame])⟩

/-- What is found under a name once some entries have been left out. -/
theorem lookup_filter {fs : List (String × Value)} (hn : (fs.map (·.1)).Nodup)
    (p : String × Value → Bool) {n : String} {v : Value} (h : fs.lookup n = some v) :
    (fs.filter p).lookup n = if p (n, v) then some v else none := by
  induction fs with
  | nil => cases h
  | cons f fs ih =>
    obtain ⟨m, w⟩ := f
    rw [List.map_cons, List.nodup_cons] at hn
    by_cases hm : n = m
    · subst hm
      rw [List.lookup_cons_self] at h
      cases h
      have hrest : (fs.filter p).lookup n = none := by
        rw [List.lookup_eq_none_iff]
        intro f hf
        have hne : n ≠ f.1 := by
          rintro rfl
          exact hn.1 (List.mem_map.mpr ⟨f, (List.mem_filter.mp hf).1, rfl⟩)
        simpa using hne
      rw [List.filter_cons]
      split
      · rw [List.lookup_cons_self]
      · exact hrest
    · have hb : (n == m) = false := by simpa using hm
      rw [List.lookup_cons, hb] at h
      rw [List.filter_cons]
      split
      · rw [List.lookup_cons, hb]
        exact ih hn.2 h
      · exact ih hn.2 h

/-- The row of an entity in hand after a save. -/
def savedRow (e : Entity) (old : Row) : Row :=
  Database.revised e.kind.table old (e.changes old)

/-- A save leaves the cell of an attribute unless the attribute is stale. -/
theorem cell_savedRow_iff {old : Row} (hold : e.kind.table.Fits old) (h : e.IsComplete)
    (hid : e.get? "id" = some (.int old.id)) {c : Column} (hc : c ∈ e.kind.table.columns) :
    (e.savedRow old).cell c.name = old.cell c.name ↔ ¬e.IsStale old c := by
  have hname : c.name ∈ e.kind.table.columnNames := List.mem_map_of_mem hc
  obtain ⟨v, hv⟩ := Option.isSome_iff_exists.mp (h.isSome_get? hname)
  have hlookup : (e.changes old).lookup c.name =
      if (!(((ofRow e.kind old).get? c.name).any v.equals) && c.name != "id") = true
      then some v else none :=
    lookup_filter (h ▸ Schema.columnNames_nodup e.kind.table_mem) _ hv
  have hstale : e.IsStale old c ↔ ((ofRow e.kind old).get? c.name).any v.equals = false ∧
      ((Binding.intoColumn c.type).bind v).toCell.under c.type.affinity ≠ old.cell c.name := by
    rw [IsStale, hv]
    exact ⟨fun ⟨_, hw, h⟩ => Option.some.inj hw ▸ h, fun h => ⟨v, rfl, h⟩⟩
  rw [hstale, savedRow]
  split at hlookup
  · next hchanged =>
    rw [Bool.and_eq_true, Bool.not_eq_true'] at hchanged
    rw [Database.cell_revised_of_some e.kind.table_mem hold hc hlookup]
    exact ⟨fun he hs => hs.2 he, fun hs => not_not.mp fun he => hs ⟨hchanged.1, he⟩⟩
  · next hsame =>
    rw [Database.cell_revised_of_none hlookup]
    refine iff_of_true rfl fun hs => hsame ?_
    rw [Bool.and_eq_true, Bool.not_eq_true']
    refine ⟨hs.1, bne_iff_ne.mpr fun hid' => ?_⟩
    rw [hid'] at hv hs
    rw [hid] at hv
    cases hv
    rw [get?_id_ofRow hold] at hs
    simp [Value.int, Value.equals, Scalar.equals] at hs

/-- A save of an entity in hand replaces its row and leaves all other live rows alone. -/
theorem saveInto_of_isCopy {clock : Instant} (hs : db.Sound) (h : IsCopy db e)
    (hsave : e.saveInto clock db = .ok (e', db')) :
    ∃ old ∈ db.tableRows e.kind.table, e.get? "id" = some (.int old.id) ∧
      (e.savedRow old).id = old.id ∧ e' = ofRow e.kind (e.savedRow old) ∧
      db'.tableRows e.kind.table =
        (db.tableRows e.kind.table).map (fun s => if s.id = old.id then e.savedRow old else s) ∧
      ∀ k : Kind, k ≠ e.kind → db'.tableRows k.table = db.tableRows k.table := by
  have hfits := hs.fits _ e.kind.table_mem
  rcases saveInto_cases hsave with ⟨hnone, -⟩ | ⟨old, hfound, hchanges, rfl, rfl⟩ |
    ⟨old, r, hfound, hu, rfl⟩
  · obtain ⟨_, -, hold, -⟩ := h.row?_eq hs hnone
    cases hold
  · obtain ⟨_, hold, hsome, hid⟩ := h.row?_eq hs hfound
    cases hsome
    have hrow : e.savedRow old = old := by
      simp [savedRow, hchanges, Database.revised, Database.changedColumns]
    refine ⟨old, hold, hid, by rw [hrow], by rw [hrow], ?_, fun _ _ => rfl⟩
    rw [hrow]
    refine (List.map_id _).symm.trans (List.map_congr_left fun s hs' => ?_)
    split
    · next hsame => exact hs.eq_of_id e.kind.table_mem hs' hold hsame
    · rfl
  · obtain ⟨_, hold, hsome, hid⟩ := h.row?_eq hs hfound
    cases hsome
    obtain ⟨-, hsame⟩ := Database.fits_of_update e.kind.table_mem (hfits old hold)
      (lookup_id_changes e old) hu
    obtain ⟨-, hr, -, -, -, rfl⟩ := Database.update_eq_ok_iff.mp hu
    have hr : e.savedRow old = r := hr.symm
    refine ⟨old, hold, hid, hr ▸ hsame, by rw [hr], ?_, fun k hk => ?_⟩
    · rw [Database.tableRows_setRows, hr]
      refine List.map_congr_left fun s hs' => ?_
      rw [(hfits s hs').number, (hfits old hold).number]
      simp
    · rw [Database.tableRows_setRows_of_mem _ e.kind.table_mem k.table_mem,
        if_neg fun ht => hk (Kind.table_injective ht)]

theorem isStale_congr {e₁ : Entity} {c : Column} (hk : e₁.kind = e.kind)
    (hget : e₁.get? c.name = e.get? c.name) (old : Row) : e₁.IsStale old c ↔ e.IsStale old c := by
  rw [IsStale, IsStale, hk, hget]

/-- An update that succeeds replaces the row of the entity in hand and leaves all other live rows
alone.  An attribute that it does not name keeps its cell in the row unless it is stale in hand.  If
the update is journaled, the new entry has the attributes of the new row. -/
theorem update_keeps_iff {clock : WallClock} (he : Held db e)
    (hrun : (e.update journaled recordedAt values clock.instant).run db = (.ok e', db')) :
    ∃ old ∈ db.tableRows e.kind.table, ∃ r ∈ db'.tableRows e.kind.table,
      e.get? "id" = some (.int old.id) ∧ r.id = old.id ∧ e' = ofRow e.kind r ∧
      (∀ c ∈ e.kind.table.columns, values.lookup c.name = none → c.name ≠ "updated_at" →
        (r.cell c.name = old.cell c.name ↔ ¬e.IsStale old c)) ∧
      db'.tableRows e.kind.table =
        (db.tableRows e.kind.table).map (fun s => if s.id = old.id then r else s) ∧
      (∀ k : Kind, k ≠ e.kind → db'.tableRows k.table = db.tableRows k.table) ∧
      (journaled = true → ∃ time,
        Journal.recordingTime (recordedAt.or e'.updatedAt) clock.instant = .ok time ∧
        db.Journals db' e.kind r time) := by
  obtain ⟨hdb, hcopy⟩ := he.isCopy
  obtain ⟨db₁, hl, hc⟩ := live_of_update hrun
  have hsound₁ : db₁.Sound := (Write.live_spec hdb.regular hl).1.1.sound
  obtain ⟨hlive, r, hr, he', hfits, hjournaled⟩ := row_of_completes hdb.regular hl hc
  have hkept := assign_keeps hcopy.complete values recordedAt clock.instant
  have hcopy₁ := hcopy.assign values recordedAt clock.instant
  have hkind := assign_kind e values recordedAt clock.instant
  rw [Write.live] at hl
  rcases hassign : e.assign values recordedAt clock.instant with ⟨e₁, _ | f⟩
  · rw [hassign] at hl hkept hcopy₁ hkind
    dsimp only at hkept hcopy₁ hkind
    obtain ⟨old, hold, hid, hsame, hanswer, hrows, hothers⟩ :=
      saveInto_of_isCopy hdb.regular.sound hcopy₁ hl
    have hcells := fun c => cell_savedRow_iff (c := c)
      (hdb.regular.sound.fits _ e₁.kind.table_mem old hold) hcopy₁.complete hid
    have hkind' : e'.kind = e.kind := by rw [hanswer, ← hkind]; rfl
    rw [hkind', hlive] at hr
    rw [hkind'] at he' hfits hjournaled
    rw [hkind] at hold hanswer hrows hothers hcells
    -- the row that is answered is the one that the save has made
    have hstored : e₁.savedRow old ∈ db₁.tableRows e.kind.table := by
      rw [hrows, List.mem_map]
      exact ⟨old, hold, if_pos rfl⟩
    have hnumbers : some r.id = some (e₁.savedRow old).id := by
      rw [← id?_ofRow hfits, ← he', hanswer,
        id?_ofRow (hsound₁.fits _ e.kind.table_mem _ hstored)]
    have hrow : r = e₁.savedRow old :=
      hsound₁.eq_of_id e.kind.table_mem hr hstored (Option.some.inj hnumbers)
    rw [← hrow] at hsame hrows hcells
    have hid : e.get? "id" = some (.int old.id) := by
      rw [← hid, ← get?_id_assign hcopy.complete values recordedAt clock.instant, hassign]
    refine ⟨old, hold, r, hlive e.kind ▸ hr, hid, hsame, he', fun c hc hn hu => ?_,
      (hlive e.kind).trans hrows, fun k hk => (hlive k).trans (hothers k hk), hjournaled⟩
    rw [hcells c hc, isStale_congr hkind (hkept.2 c.name hn hu)]
  · rw [hassign] at hl
    cases hl

/-- A work package as it is read after its creation. -/
def draft : Entity :=
  ((Write.created.find? Schema.workPackages 1).map (ofRow .workPackage)).getD default

/-- The store once another copy of that work package has been given another subject. -/
def retitled : Database :=
  (Call.update draft true (some (Journal.noon 0)) [("subject", .text "Plan")]
    Journal.firstDay).after Write.created

theorem held_draft : Held retitled draft := by
  have hfound : (Write.created.find? Schema.workPackages 1).isSome = true := by decide +kernel
  obtain ⟨r, hr⟩ := Option.isSome_iff_exists.mp hfound
  have hget : (get .workPackage 1).run Write.created = (.ok (some draft), Write.created) := by
    rw [run_get, draft, show Kind.workPackage.table = Schema.workPackages from rfl, hr]
    rfl
  exact .kept (.found ⟨_, rfl⟩ hget) _

theorem update_keeps_iff_draft :
    ∃ (e' : Entity) (db' : Database) (old r : Row) (c : Column),
      (draft.update true (some (Journal.noon 0)) [("status", .text "closed")]
        Journal.firstDay.instant).run retitled = (.ok e', db') ∧
      old ∈ retitled.tableRows Schema.workPackages ∧ r ∈ db'.tableRows Schema.workPackages ∧
      r.id = old.id ∧ c.name = "subject" ∧ draft.IsStale old c ∧
      r.cell c.name ≠ old.cell c.name := by
  have hok : ((draft.update true (some (Journal.noon 0)) [("status", .text "closed")]
    Journal.firstDay.instant).run retitled).1.toOption.isSome = true := by decide +kernel
  have hbefore : (retitled.tableRows Schema.workPackages).all
    (·.cell "subject" == .text "Plan") = true := by decide +kernel
  have hafter : (((draft.update true (some (Journal.noon 0)) [("status", .text "closed")]
    Journal.firstDay.instant).run retitled).2.tableRows Schema.workPackages).all
      (·.cell "subject" == .text "Draft") = true := by decide +kernel
  have hkind : draft.kind = .workPackage := by decide +kernel
  rcases hrun : (draft.update true (some (Journal.noon 0)) [("status", .text "closed")]
    Journal.firstDay.instant).run retitled with ⟨answer, db'⟩
  rw [hrun] at hok hafter
  cases answer with
  | error f => cases hok
  | ok e' =>
    obtain ⟨old, hold, r, hr, -, hid, -, hcells, -⟩ := update_keeps_iff held_draft hrun
    rw [hkind] at hold hr hcells
    have hold' := beq_iff_eq.mp (List.all_eq_true.mp hbefore old hold)
    have hr' := beq_iff_eq.mp (List.all_eq_true.mp hafter r hr)
    have hcell : r.cell "subject" ≠ old.cell "subject" := by
      rw [hold', hr']
      decide
    have hstale := mt (hcells ⟨"subject", .text, false⟩ (by decide) rfl (by decide)).mpr hcell
    exact ⟨e', db', old, r, ⟨"subject", .text, false⟩, rfl, hold, hr, hid, rfl, not_not.mp hstale,
      hcell⟩

end Entity

end Chronicle
