import Chronicle.Proofs.Entity.Times
import Chronicle.Proofs.History.Present

/-!
# The time of the last change, now and as of a timestamp

As of a timestamp an entity was changed last when its entry was recorded.  The live entity has the
time that the last write left in its row, which need not be the same.

* `Deed`, `Database.WrittenBy`: journaled writes, and the stores that they lead to;
* `Journal.Reflects`: the live row and the last line have the times of the last write;
* `Database.WrittenBy.reflects`: they do, after any number of writes;
* `Database.WrittenBy.updatedAt_iff`: when the live entity has the time of its latest entry, and
  what is shown as of a timestamp.
-/

namespace Chronicle

open Chronicle.Calendar

/-! ## Stores with the writes that led to them -/

/-- A journaled write with its arguments, the clock at that time and what it answered. -/
structure Deed where
  write : Entity.Write
  recordedAt : Option Moment
  clock : WallClock
  answer : Entity

namespace Deed

/-- The entity of a kind and number was written. -/
def Wrote (kind : Kind) (id : Int) (d : Deed) : Prop := d.answer.kind = kind ∧ d.answer.id? = some id

instance (kind : Kind) (id : Int) (d : Deed) : Decidable (d.Wrote kind id) :=
  inferInstanceAs (Decidable (_ ∧ _))

/-- The time of the entry is that of the change. -/
def Agrees (d : Deed) : Prop := d.write.Agrees d.recordedAt d.clock.instant

/-- The last write of an entity; the newest writes come first. -/
def last (deeds : List Deed) (kind : Kind) (id : Int) : Option Deed :=
  deeds.find? fun d => d.Wrote kind id

theorem last_cons (d : Deed) (deeds : List Deed) (kind : Kind) (id : Int) :
    last (d :: deeds) kind id = if d.Wrote kind id then some d else last deeds kind id := by
  rw [last, List.find?_cons]
  split
  · next h => rw [if_pos (of_decide_eq_true h)]
  · next h => rw [if_neg (of_decide_eq_false h), last]

end Deed

/-- The stores that journaled writes lead to if each of them succeeds, with these writes, the newest
first. -/
inductive Database.WrittenBy : List Deed → Database → Prop
  | empty : WrittenBy [] Database.empty
  | write {deeds : List Deed} {db db' : Database} {d : Deed} : WrittenBy deeds db →
      (d.write.action d.recordedAt d.clock.instant).run db = (.ok d.answer, db') →
      WrittenBy (d :: deeds) db'

theorem Database.WrittenBy.written {deeds : List Deed} {db : Database} (h : db.WrittenBy deeds) :
    db.Written := by
  induction h with
  | empty => exact .empty
  | write _ hrun ih => exact ih.write hrun

theorem Database.WrittenBy.next {deeds : List Deed} {db : Database} (h : db.WrittenBy deeds)
    {w : Entity.Write} {recordedAt : Option Moment} {clock : WallClock}
    (hok : ((w.action recordedAt clock.instant).run db).1.toOption.isSome = true) :
    ∃ e, ((w.action recordedAt clock.instant).run db).1 = .ok e ∧
      ((w.action recordedAt clock.instant).run db).2.WrittenBy
        (⟨w, recordedAt, clock, e⟩ :: deeds) := by
  rcases hrun : (w.action recordedAt clock.instant).run db with ⟨answer, db'⟩
  rw [hrun] at hok
  cases answer with
  | ok e => exact ⟨e, rfl, h.write (d := ⟨w, recordedAt, clock, e⟩) hrun⟩
  | error f => cases hok

/-! ## What the last write leaves -/

namespace Journal

/-- A write has left its times in a live row and in the last line of it. -/
structure Reflects (db : Database) (kind : Kind) (live : Row) (d : Deed) : Prop where
  row : ∃ changed, recordingTime (d.write.changeTime d.recordedAt) d.clock.instant = .ok changed ∧
    (Entity.ofRow kind live).updatedAt = some changed.moment
  line : ∃ recorded line,
    recordingTime (d.write.recordTime d.recordedAt) d.clock.instant = .ok recorded ∧
    (rowsOf db kind live.id).getLast? = some line ∧ line.cell "recorded_at" = .instant recorded

/-- The last write of each live row has left its times. -/
def AllReflect (deeds : List Deed) (db : Database) : Prop :=
  ∀ kind : Kind, ∀ live ∈ db.tableRows kind.table, ∃ d,
    Deed.last deeds kind live.id = some d ∧ Reflects db kind live d

/-- A journaled write that succeeds leaves its times in its own row and line, and no other ones. -/
theorem AllReflect.write {deeds : List Deed} {db db' : Database} {d : Deed}
    (hall : AllReflect deeds db) (h : Regular db) (h' : Regular db')
    (hrun : (d.write.action d.recordedAt d.clock.instant).run db = (.ok d.answer, db')) :
    AllReflect (d :: deeds) db' := by
  obtain ⟨r, changed, recorded, hchanged, hrecorded, he, hupdated, hj, hothers⟩ :=
    Entity.Write.exists_times h hrun
  obtain ⟨line, -, -, -, htime, -, hrows⟩ := rowsOf_of_journals hj
  have hnumber : d.answer.id? = some r.id := by
    rw [he, Entity.id?_ofRow (h'.sound.fits _ d.answer.kind.table_mem r hj.stored)]
  intro k x hx
  rw [Deed.last_cons]
  by_cases hsame : k = d.answer.kind ∧ x.id = r.id
  · obtain ⟨rfl, hid⟩ := hsame
    obtain rfl := h'.sound.eq_of_id d.answer.kind.table_mem hx hj.stored hid
    refine ⟨d, if_pos ⟨rfl, hnumber⟩, ⟨changed, hchanged, he ▸ hupdated⟩,
      recorded, line, hrecorded, ?_, htime⟩
    rw [hrows, if_pos ⟨rfl, rfl⟩, List.getLast?_concat]
  · have hold : x ∈ db.tableRows k.table :=
      (hothers k x hx).resolve_left fun hnew => hsame ⟨hnew.1, hnew.2 ▸ rfl⟩
    have hwrote : ¬d.Wrote k x.id := fun ⟨hk, hid⟩ =>
      hsame ⟨hk.symm, Option.some.inj (hid.symm.trans hnumber)⟩
    obtain ⟨d', hlast, hrow, recorded', line', hrecorded', hline', htime'⟩ := hall k x hold
    refine ⟨d', (if_neg hwrote).trans hlast, hrow, recorded', line', hrecorded', ?_, htime'⟩
    rw [hrows, if_neg hsame, List.append_nil, hline']

end Journal

theorem Database.WrittenBy.reflects {deeds : List Deed} {db : Database} (h : db.WrittenBy deeds) :
    Journal.AllReflect deeds db := by
  induction h with
  | empty => exact fun kind live hl => by simp [Database.tableRows, Database.empty] at hl
  | write hw hrun ih =>
    exact ih.write hw.written.reached.regular (Database.WrittenBy.write hw hrun).written.reached.regular
      hrun

/-! ## The latest entry -/

namespace Journal

variable {db : Database} {kind : Kind} {id : Int} {e : Entry} {i : Instant}

/-- From its time on the latest entry is the one that holds. -/
theorem entryAtIn_of_latest (he : (entriesIn db kind id).getLast? = some e)
    (hle : e.recordedAt.micros ≤ i.micros) : entryAtIn db kind id i = some e := by
  obtain ⟨before, hes⟩ := List.getLast?_eq_some_iff.mp he
  simp [entryAtIn, hes, hle]

/-- The latest entry was recorded at the time of the last line. -/
theorem Regular.exists_latest (h : Regular db) {line : Row} {recorded : Instant}
    (hline : (rowsOf db kind id).getLast? = some line)
    (htime : line.cell "recorded_at" = .instant recorded) :
    ∃ e, (entriesIn db kind id).getLast? = some e ∧ e.recordedAt = recorded := by
  have hmap := congrArg List.getLast? (h.map_entriesIn kind id Entry.recordedAt
    (fun r => instantCell (r.cell "recorded_at")) fun _ _ => rfl)
  rw [List.getLast?_map, List.getLast?_map, hline, Option.map_some, htime] at hmap
  exact Option.map_eq_some_iff.mp hmap

theorem cell_updated_stateRow (kind : Kind) (live : Row) (e : Entry) :
    (stateRow kind live e).cell "updated_at" = .instant e.recordedAt :=
  Row.cell_columns (Schema.columnNames_nodup kind.table_mem) _ kind.updatedColumn_mem

/-- As of a timestamp from its time on, the latest entry of a live row is what the table shows. -/
theorem exists_answer_of_latest (h : Regular db) {live : Row} (hl : live ∈ db.tableRows kind.table)
    (he : (entriesIn db kind live.id).getLast? = some e) {timestamp : Value} {t : Timestamp}
    {moment : Option Moment} {clock : Instant} (ht : timestamp.toTimestamp = .ok t)
    (hi : t.resolveAt moment clock = .ok i) (hbound : i.micros < Instant.bound)
    (hle : e.recordedAt.micros ≤ i.micros) : ∃ q' rows,
      (Query.ofTable kind.table.name).asOfTimestamp timestamp moment clock = .ok q' ∧
      q'.run.answer db = .ok rows ∧ (∃ r ∈ rows, r.lookup "id" = some (.int live.id)) ∧
      ∀ r ∈ rows, r.lookup "id" = some (.int live.id) →
        r.lookup "updated_at" = some (.moment e.recordedAt.moment) := by
  obtain ⟨q', rows, hq', hrows, hbag⟩ := Query.exists_answer_ofTable h kind ht hi hbound
  have hentry := entryAtIn_of_latest he hle
  refine ⟨q', rows, hq', hrows, ?_, fun r hr hid => ?_⟩
  · have hstate : stateRow kind live e ∈ stateAt db kind i :=
      List.mem_filterMap.mpr ⟨live, hl, by rw [hentry]; rfl⟩
    obtain ⟨r, hr, hperm⟩ := exists_perm_of_bag hbag.symm (List.mem_map_of_mem hstate)
    have hrow : EntityView.IsRowAt db kind t i r live e := ⟨hl, hentry, hperm.symm⟩
    exact ⟨r, hr, hrow.lookup_id h⟩
  · obtain ⟨s, hs, hperm⟩ := exists_perm_of_bag hbag hr
    obtain ⟨state, hstate, rfl⟩ := List.mem_map.mp hs
    obtain ⟨live', hl', hlive'⟩ := List.mem_filterMap.mp hstate
    obtain ⟨e', he', rfl⟩ := Option.map_eq_some_iff.mp hlive'
    have hrow : EntityView.IsRowAt db kind t i r live' e' := ⟨hl', he', hperm⟩
    -- the row with the number is that of the entity
    obtain rfl := h.sound.eq_of_id kind.table_mem hl' hl
      (Scalar.int.inj (Option.some.inj ((hrow.lookup_id h).symm.trans hid)))
    obtain rfl := Option.some.inj (he'.symm.trans hentry)
    refine (hrow.lookup_column kind.updatedColumn_mem).trans ?_
    rw [show Schema.updatedColumn.name = "updated_at" from rfl, cell_updated_stateRow]
    rfl

end Journal

/-! ## The live entity and its latest entry -/

/-- In a store that journaled writes have led to, every entity that is loaded has a latest entry; it
was changed last when this entry was recorded, if and only if the last write of it has given both the
same time.  As of a timestamp from then on it is shown with the time of the entry. -/
theorem Database.WrittenBy.updatedAt_iff {deeds : List Deed} {db : Database}
    (h : db.WrittenBy deeds) {kind : Kind} {id : Int} {entity : Entity}
    (hget : (Entity.get kind id).answer db = .ok (some entity)) :
    ∃ d e, Deed.last deeds kind id = some d ∧
      (Journal.latest kind id).answer db = .ok (some e) ∧
      (entity.updatedAt = some e.recordedAt.moment ↔ d.Agrees) ∧
      ∀ timestamp t moment clock i, (∀ u, timestamp = Value.timestamp u → u.IsProper) →
        timestamp.toTimestamp = .ok t → t.resolveAt moment clock = .ok i → e.recordedAt ≤ i →
        ∃ q' rows, (Query.ofTable kind.table.name).asOfTimestamp timestamp moment clock = .ok q' ∧
          q'.run.answer db = .ok rows ∧ (∃ r ∈ rows, r.lookup "id" = some (.int id)) ∧
          ∀ r ∈ rows, r.lookup "id" = some (.int id) →
            r.lookup "updated_at" = some (.moment e.recordedAt.moment) := by
  have hregular := h.written.reached.regular
  obtain ⟨live, hl, hid, rfl⟩ := Entity.exists_found_row_of_get hget
  rw [(hregular.sound.fits _ kind.table_mem live hl).number] at hid
  obtain rfl := Cell.int.inj hid
  obtain ⟨d, hlast, ⟨changed, hchanged, hupdated⟩, recorded, line, hrecorded, hline, htime⟩ :=
    h.reflects kind live hl
  obtain ⟨e, he, hat⟩ := hregular.exists_latest hline htime
  have hstorable := hregular.storable_of_mem_rowsOf (List.mem_of_getLast? hline)
  refine ⟨d, e, hlast, ?_, ?_, fun timestamp t moment clock i hproper ht hi hle =>
    Journal.exists_answer_of_latest hregular hl he ht hi
      (EntityView.resolveAt_lt (Value.isProper_toTimestamp ht hproper) hi) hle⟩
  · rw [Journal.answer_latest, Journal.ifStorable, if_pos hstorable, he]
  · rw [Deed.Agrees, Entity.Write.agrees_iff, hchanged, hrecorded, hupdated, hat,
      Option.some.injEq, Except.ok.injEq]
    refine ⟨fun hm => ?_, fun hr => hr ▸ rfl⟩
    exact (Instant.moment_inj (Journal.recordingTime_lt hchanged)
      (Journal.recordingTime_lt hrecorded) hm).symm

open Entity in
/-- A work package that is created with the time of its entry only is changed last when it is
created; a change with such a time brings both together. -/
theorem Database.WrittenBy.updatedAt_iff_draft :
    (∃ entity e, (Entity.get .workPackage 1).answer Write.created = .ok (some entity) ∧
      (Journal.latest .workPackage 1).answer Write.created = .ok (some e) ∧
      entity.updatedAt ≠ some e.recordedAt.moment) ∧
    ∃ entity e, (Entity.get .workPackage 1).answer retitled = .ok (some entity) ∧
      (Journal.latest .workPackage 1).answer retitled = .ok (some e) ∧
      entity.updatedAt = some e.recordedAt.moment := by
  have hget : ∀ db : Database, (db.find? Schema.workPackages 1).isSome = true →
      ∃ entity, (Entity.get .workPackage 1).answer db = .ok (some entity) := by
    intro db hfound
    obtain ⟨r, hr⟩ := Option.isSome_iff_exists.mp hfound
    refine ⟨ofRow .workPackage r, ?_⟩
    rw [Action.answer, run_get, show Kind.workPackage.table = Schema.workPackages from rfl, hr]
    rfl
  have hcreate : ((Write.create .workPackage [("subject", .text "Draft")]).action
      (some (Journal.noon 0)) Journal.firstDay.instant).run Database.empty |>.1.toOption.isSome := by
    decide +kernel
  have hupdate : ((Write.update Entity.draft [("subject", .text "Plan")]).action
      (some (Journal.noon 0)) Journal.firstDay.instant).run Write.created |>.1.toOption.isSome := by
    decide +kernel
  have hnumber : (((Write.update Entity.draft [("subject", .text "Plan")]).action
      (some (Journal.noon 0)) Journal.firstDay.instant).run Write.created |>.1.toOption.map
        fun e => (e.kind, e.id?)) = some (.workPackage, some 1) := by
    decide +kernel
  obtain ⟨e₁, -, hcreated⟩ := Database.WrittenBy.empty.next hcreate
  rw [← Action.run_discarded] at hcreated
  have hcreated : Write.created.WrittenBy _ := hcreated
  obtain ⟨e₂, he₂, hretitled⟩ := hcreated.next hupdate
  rw [← Action.run_discarded] at hretitled
  have hretitled : retitled.WrittenBy _ := hretitled
  constructor
  · obtain ⟨entity, hentity⟩ := hget Write.created (by decide +kernel)
    obtain ⟨d, e, hd, he, hiff, -⟩ := updatedAt_iff hcreated hentity
    obtain rfl := List.mem_singleton.mp (List.mem_of_find?_eq_some hd)
    have hnoon : (Journal.noon 0).toInstant = .ok noonInUtc := by rfl
    refine ⟨entity, e, hentity, he, fun hsame => ?_⟩
    have htimes : Except.ok noonInUtc = Except.ok Journal.firstDay.instant :=
      hnoon.symm.trans (hiff.mp hsame _ rfl)
    exact absurd (Except.ok.inj htimes) (by decide)
  · obtain ⟨entity, hentity⟩ := hget retitled (by decide +kernel)
    obtain ⟨d, e, hd, he, hiff, -⟩ := updatedAt_iff hretitled hentity
    rw [he₂] at hnumber
    obtain ⟨hkind, hid⟩ := Prod.mk.inj (Option.some.inj hnumber)
    rw [Deed.last_cons, if_pos ⟨hkind, hid⟩] at hd
    obtain rfl := Option.some.inj hd
    exact ⟨entity, e, hentity, he, hiff.mpr trivial⟩

end Chronicle
