import Chronicle.Journal
import Chronicle.Proofs.Store.Refusal
import Chronicle.Proofs.Store.Rows

/-!
# Appending entries

An entry is a row in the table of journals and a row with its payload.  Both are counted from one,
and both come last in their tables.

* `Database.insert_counted_iff`: new rows of a table that is counted from one;
* `Journal.line`: the row of an entry in the table of journals;
* `Journal.append_eq_ok_iff`: when an entry is taken in, and what the store is like then.
-/

namespace Chronicle

open Chronicle.Calendar

/-! ## The tables of a kind -/

namespace Schema

theorem journals_mem : journals ∈ tables := by decide

end Schema

namespace Kind

theorem table_mem (k : Kind) : k.table ∈ Schema.tables := by cases k <;> decide

theorem journal_mem (k : Kind) : k.journal ∈ Schema.tables := by cases k <;> decide

theorem journal_ne_journals (k : Kind) : k.journal ≠ Schema.journals := by cases k <;> decide

theorem table_ne_journals (k : Kind) : k.table ≠ Schema.journals := by cases k <;> decide

theorem table_ne_journal (k l : Kind) : k.table ≠ l.journal := by cases k <;> cases l <;> decide

theorem journal_injective {k l : Kind} (h : k.journal = l.journal) : k = l := by
  revert h
  cases k <;> cases l <;> decide

theorem name_injective {k l : Kind} (h : k.name = l.name) : k = l := by
  revert h
  cases k <;> cases l <;> decide

theorem journal_references (k : Kind) : k.journal.references = [] := by cases k <;> decide

theorem journal_uniques (k : Kind) : k.journal.uniques = [] := by cases k <;> decide

end Kind

/-! ## Tables that are counted from one -/

namespace Database

theorem Numbered.append {rows : List Row} (h : Numbered rows) {r : Row}
    (hr : r.id = rows.length + 1) : Numbered (rows ++ [r]) := by
  unfold Numbered at h ⊢
  rw [List.length_append, List.length_singleton, List.range_succ, List.map_append, List.map_append,
    h]
  simp [hr]

/-- A new row with a number. -/
def counted (t : Table) (values : List (String × Value)) (clock : Instant) (number : Int) : Row :=
  (draft t values clock).set "id" (.int number)

section Counted

variable {db db' : Database} {t : Table} {values : List (String × Value)} {clock : Instant}
  {r : Row}

theorem id_counted (ht : t ∈ Schema.tables) (number : Int) :
    (counted t values clock number).id = number :=
  Row.id_of_cell (cell_set_draft ht values clock _)

/-- In a table that is counted from one, a row without a number of its own comes last. -/
theorem insert_counted_iff (hs : db.Sound) (ht : t ∈ Schema.tables)
    (hn : Numbered (db.tableRows t)) (hv : valueOf t values clock "id" = .null)
    (href : t.references = []) :
    db.insert t values clock = .ok (r, db') ↔
      (∀ c ∈ t.columns, ∃ x,
        (Binding.intoColumn c.type).bind (valueOf t values clock c.name) = .cell x) ∧
      r = counted t values clock ((db.tableRows t).length + 1) ∧
      checkFilled t r = .ok () ∧
      (∀ columns ∈ t.uniques, ∀ s ∈ db.tableRows t, collides columns r s = false) ∧
      db' = db.setRows t (db.tableRows t ++ [r]) := by
  have hid : nextId (db.tableRows t) = (db.tableRows t).length + 1 := hn.nextId
  have hlt : ∀ s ∈ db.tableRows t,
      s.id < (counted t values clock ((db.tableRows t).length + 1)).id := by
    intro s hm
    rw [id_counted ht, ← hid]
    exact lt_nextId hm
  constructor
  · intro h
    obtain ⟨hbound, ⟨id, hi, hr⟩, hfilled, hunique, -, hdb⟩ := insert_eq_ok_iff.mp h
    rw [idCell_draft ht hv, hid] at hi
    cases hi
    have hr : r = counted t values clock ((db.tableRows t).length + 1) := hr
    refine ⟨hbound, hr, hfilled, ?_, ?_⟩
    · intro columns hc
      exact checkUnique_eq_ok_iff.mp hunique columns (List.mem_cons_of_mem _ hc)
    · rw [hdb, place_of_lt]
      rw [hr]
      exact hlt
  · rintro ⟨hbound, rfl, hfilled, hunique, rfl⟩
    refine insert_eq_ok_iff.mpr ⟨hbound, ⟨_, idCell_draft ht hv _, ?_⟩, hfilled, ?_, ?_, ?_⟩
    · rw [hid]
      rfl
    · refine checkUnique_eq_ok_iff.mpr fun columns hc s hm => ?_
      rcases List.mem_cons.mp hc with rfl | hc
      · refine (collides_id ?_ (hs.fits t ht s hm).number).mpr (Int.ne_of_lt (hlt s hm))
        rw [id_counted ht]
        exact cell_set_draft ht values clock _
      · exact hunique columns hc s hm
    · exact checkReferences_of_none href _ _ _
    · rw [place_of_lt hlt]

end Counted

end Database

/-! ## Lines of the journal -/

namespace Journal

/-- The row of an entry in the table of journals. -/
def line (number : Int) (kind : Kind) (id version dataId : Int) (time : Instant) : Row :=
  [("id", .int number), ("entity_type", .text kind.name), ("entity_id", .int id),
    ("version", .int version), ("data_id", .int dataId), ("recorded_at", .instant time)]

section Line

variable (number : Int) (kind : Kind) (id version dataId : Int) (time : Instant)

@[simp]
theorem cell_line_kind :
    (line number kind id version dataId time).cell "entity_type" = .text kind.name := rfl

@[simp]
theorem cell_line_entity :
    (line number kind id version dataId time).cell "entity_id" = .int id := rfl

@[simp]
theorem cell_line_version :
    (line number kind id version dataId time).cell "version" = .int version := rfl

@[simp]
theorem cell_line_data :
    (line number kind id version dataId time).cell "data_id" = .int dataId := rfl

@[simp]
theorem cell_line_time :
    (line number kind id version dataId time).cell "recorded_at" = .instant time := rfl

end Line

/-- What is given for the row of an entry. -/
def lineValues (kind : Kind) (id version dataId : Int) (time : Instant) : List (String × Value) :=
  [("entity_type", .text kind.name), ("entity_id", .int id), ("version", .int version),
    ("data_id", .int dataId), ("recorded_at", .instant time)]

/-- The values for a line can be bound if the store has room for its numbers. -/
theorem lineValues_bound_iff (kind : Kind) (id version dataId : Int) {time : Instant}
    (ht : time.micros < Instant.bound) (clock : Instant) :
    (∀ c ∈ Schema.journals.columns, ∃ x, (Binding.intoColumn c.type).bind
      (Database.valueOf Schema.journals (lineValues kind id version dataId time) clock c.name) =
        .cell x) ↔
      Cell.isStorable id = true ∧ Cell.isStorable version = true ∧
        Cell.isStorable dataId = true := by
  have hnumber : ∀ i : Int, (∃ x, (Binding.intoColumn .integer).bind (.int i) = .cell x) ↔
      Cell.isStorable i = true := by
    intro i
    simp only [Binding.intoColumn, Binding.bind, Value.int, Binding.bindPlain]
    split <;> simp [*]
  have htime : ∃ x, (Binding.intoColumn .instant).bind (.instant time) = .cell x := by
    refine ⟨.instant time, ?_⟩
    simp only [Binding.intoColumn, Binding.bind, Value.instant, Binding.bindInstant]
    rw [Instant.toStored_moment ht]
  simp only [Schema.journals, List.forall_mem_cons]
  constructor
  · rintro ⟨-, -, h1, h2, h3, -, -⟩
    exact ⟨(hnumber _).mp h1, (hnumber _).mp h2, (hnumber _).mp h3⟩
  · rintro ⟨h1, h2, h3⟩
    exact ⟨⟨.null, rfl⟩, ⟨.text kind.name, rfl⟩, (hnumber _).mpr h1, (hnumber _).mpr h2,
      (hnumber _).mpr h3, htime, fun _ h => absurd h List.not_mem_nil⟩

theorem counted_lineValues {kind : Kind} {id version dataId : Int} {time : Instant}
    (hi : Cell.isStorable id = true) (hv : Cell.isStorable version = true)
    (hd : Cell.isStorable dataId = true) (ht : time.micros < Instant.bound) (clock : Instant)
    (number : Int) :
    Database.counted Schema.journals (lineValues kind id version dataId time) clock number =
      line number kind id version dataId time := by
  have hnumber : ∀ {i : Int}, Cell.isStorable i = true →
      ((Binding.intoColumn .integer).bind (.int i)).toCell = .int i := by
    intro i h
    simp [Binding.intoColumn, Binding.bind, Value.int, Binding.bindPlain, h, Bound.toCell]
  have htime : ((Binding.intoColumn .instant).bind (.instant time)).toCell = .instant time := by
    simp only [Binding.intoColumn, Binding.bind, Value.instant, Binding.bindInstant]
    rw [Instant.toStored_moment ht, Bound.toCell]
  have hrow : Database.draft Schema.journals (lineValues kind id version dataId time) clock =
      [("id", .null), ("entity_type", .text kind.name),
        ("entity_id", ((Binding.intoColumn .integer).bind (.int id)).toCell.under .numeric),
        ("version", ((Binding.intoColumn .integer).bind (.int version)).toCell.under .numeric),
        ("data_id", ((Binding.intoColumn .integer).bind (.int dataId)).toCell.under .numeric),
        ("recorded_at",
          ((Binding.intoColumn .instant).bind (.instant time)).toCell.under .numeric)] := rfl
  rw [Database.counted, hrow, hnumber hi, hnumber hv, hnumber hd, htime]
  rfl

/-! ## One more entry -/

/-- No name is unknown if all of them are attributes of the kind. -/
theorem unknownNames_isEmpty_iff (kind : Kind) (payload : List (String × Value)) :
    (unknownNames kind payload).isEmpty = true ↔ ∀ f ∈ payload, f.1 ∈ kind.payload := by
  rw [unknownNames, List.isEmpty_iff, ← List.length_eq_zero_iff, List.length_mergeSort,
    List.length_eq_zero_iff, List.filter_eq_nil_iff]
  simp

theorem lookup_id_of_known {kind : Kind} {payload : List (String × Value)}
    (h : ∀ f ∈ payload, f.1 ∈ kind.payload) : payload.lookup "id" = none := by
  have hid : "id" ∉ kind.payload := by cases kind <;> decide
  rw [List.lookup_eq_none_iff]
  intro f hf
  rw [bne_iff_ne]
  intro e
  exact hid (e ▸ h f hf)

theorem valueOf_id {kind : Kind} {payload : List (String × Value)}
    (h : ∀ f ∈ payload, f.1 ∈ kind.payload) (clock : Instant) :
    Database.valueOf kind.journal payload clock "id" = .null := by
  rw [Database.valueOf, lookup_id_of_known h]
  cases kind <;> rfl

/-- An entry at a time would come before the last one of its entity. -/
def IsLate (db : Database) (kind : Kind) (id : Int) (time : Instant) : Prop :=
  ∃ version last, latestOf (rowsOf db kind id) = some (version, last) ∧ time.micros < last.micros

def nextVersion (db : Database) (kind : Kind) (id : Int) : Int :=
  ((latestOf (rowsOf db kind id)).map (·.1)).getD 0 + 1

/-- The line of the next entry. -/
def nextLine (db : Database) (kind : Kind) (id : Int) (time : Instant) : Row :=
  line ((db.tableRows Schema.journals).length + 1) kind id (nextVersion db kind id)
    ((db.tableRows kind.journal).length + 1) time

/-- The payload of the next entry. -/
def nextPayload (db : Database) (kind : Kind) (payload : List (String × Value)) (clock : Instant) :
    Row :=
  Database.counted kind.journal payload clock ((db.tableRows kind.journal).length + 1)

/-- The store with the next entry. -/
def appended (db : Database) (kind : Kind) (id : Int) (payload : List (String × Value))
    (time clock : Instant) : Database :=
  (db.setRows kind.journal (db.tableRows kind.journal ++ [nextPayload db kind payload clock])).setRows
    Schema.journals (db.tableRows Schema.journals ++ [nextLine db kind id time])

/-- What recording an entry answers. -/
def receipt (db : Database) (kind : Kind) (id : Int) (payload : List (String × Value))
    (time : Instant) : Entry :=
  ⟨(db.tableRows Schema.journals).length + 1, kind, id, nextVersion db kind id, time,
    kind.payload.filterMap fun n => (payload.lookup n).map fun v => (n, v)⟩

/-- The table of payloads takes a payload. -/
def TakesPayload (kind : Kind) (payload : List (String × Value)) (clock : Instant) : Prop :=
  (∀ c ∈ kind.journal.columns, ∃ x, (Binding.intoColumn c.type).bind
    (Database.valueOf kind.journal payload clock c.name) = .cell x) ∧
  ∀ c ∈ kind.journal.columns, c.name ≠ "id" → c.nullable = false →
    Database.boundCell (Database.valueOf kind.journal payload clock) c ≠ .null

theorem append_of_late {db : Database} {kind : Kind} {id : Int} {time last : Instant}
    {version : Int} (h : latestOf (rowsOf db kind id) = some (version, last))
    (hlt : time.micros < last.micros) (payload : List (String × Value)) (clock : Instant) :
    append kind id payload time clock db =
      .error (.entryOutOfOrder kind.name id time.moment.text version last.moment.text) := by
  simp [append, h, hlt, throw, throwThe, MonadExceptOf.throw, bind, Except.bind]

/-- An entry that is not late is two new rows. -/
theorem append_of_not_late {db : Database} {kind : Kind} {id : Int} {time : Instant}
    (h : ¬IsLate db kind id time) (payload : List (String × Value)) (clock : Instant) :
    append kind id payload time clock db = (do
      let (data, db') ← db.insert kind.journal payload clock
      let (r, db') ← db'.insert Schema.journals
        (lineValues kind id (nextVersion db kind id) data.id time) clock
      return (⟨r.id, kind, id, nextVersion db kind id, time,
        kind.payload.filterMap fun n => (payload.lookup n).map fun v => (n, v)⟩, db')) := by
  unfold append nextVersion
  cases hl : latestOf (rowsOf db kind id) with
  | none => rfl
  | some p =>
    obtain ⟨version, last⟩ := p
    have hlt : ¬time.micros < last.micros := fun hlt => h ⟨version, last, hl, hlt⟩
    simp only [hlt, if_false]
    rfl

/-- The cells of a payload come from the values that are given, or are the usual ones. -/
theorem cell_nextPayload (db : Database) {kind : Kind} (payload : List (String × Value))
    (clock : Instant) {c : Column} (hc : c ∈ kind.journal.columns) (hid : c.name ≠ "id") :
    (nextPayload db kind payload clock).cell c.name =
      Database.boundCell (Database.valueOf kind.journal payload clock) c := by
  rw [nextPayload, Database.counted, Row.cell_set_of_ne hid]
  exact Row.cell_columns (Schema.columnNames_nodup kind.journal_mem) _ hc

theorem id_nextPayload (db : Database) (kind : Kind) (payload : List (String × Value))
    (clock : Instant) :
    (nextPayload db kind payload clock).id = (db.tableRows kind.journal).length + 1 :=
  Database.id_counted kind.journal_mem _

section Append

variable {db db' : Database} {kind : Kind} {id : Int} {payload : List (String × Value)}
  {time clock : Instant} {entry : Entry}

theorem insert_payload_iff (hs : db.Sound)
    (hp : Database.Numbered (db.tableRows kind.journal)) (hk : ∀ f ∈ payload, f.1 ∈ kind.payload)
    {data : Row} :
    db.insert kind.journal payload clock = .ok (data, db') ↔
      TakesPayload kind payload clock ∧ data = nextPayload db kind payload clock ∧
        db' = db.setRows kind.journal (db.tableRows kind.journal ++ [data]) := by
  rw [Database.insert_counted_iff hs kind.journal_mem hp (valueOf_id hk clock)
    kind.journal_references, kind.journal_uniques, TakesPayload]
  have hfilled : Database.checkFilled kind.journal (nextPayload db kind payload clock) = .ok () ↔
      ∀ c ∈ kind.journal.columns, c.name ≠ "id" → c.nullable = false →
        Database.boundCell (Database.valueOf kind.journal payload clock) c ≠ .null := by
    rw [Database.checkFilled_eq_ok_iff]
    refine forall_congr' fun c => forall_congr' fun hc => forall_congr' fun hid => ?_
    rw [cell_nextPayload db payload clock hc hid]
  constructor
  · rintro ⟨hbound, rfl, hf, -, hdb⟩
    exact ⟨⟨hbound, hfilled.mp hf⟩, rfl, hdb⟩
  · rintro ⟨⟨hbound, hf⟩, rfl, hdb⟩
    exact ⟨hbound, rfl, hfilled.mpr hf, (fun _ h => nomatch h), hdb⟩

theorem insert_line_iff (hs : db.Sound)
    (hj : Database.Numbered (db.tableRows Schema.journals)) (ht : time.micros < Instant.bound)
    {version dataId : Int} {r : Row} :
    db.insert Schema.journals (lineValues kind id version dataId time) clock = .ok (r, db') ↔
      (Cell.isStorable id = true ∧ Cell.isStorable version = true ∧
        Cell.isStorable dataId = true) ∧
      r = line ((db.tableRows Schema.journals).length + 1) kind id version dataId time ∧
      (∀ s ∈ db.tableRows Schema.journals,
        Database.collides ["entity_type", "entity_id", "version"] r s = false) ∧
      db' = db.setRows Schema.journals (db.tableRows Schema.journals ++ [r]) := by
  have huniques : Schema.journals.uniques = [["entity_type", "entity_id", "version"]] := by decide
  rw [Database.insert_counted_iff hs Schema.journals_mem hj rfl (by decide),
    lineValues_bound_iff kind id version dataId ht clock, huniques, List.forall_mem_singleton]
  constructor
  · rintro ⟨⟨hi, hv, hd⟩, rfl, -, hu, hdb⟩
    rw [counted_lineValues hi hv hd ht] at hu hdb ⊢
    exact ⟨⟨hi, hv, hd⟩, rfl, hu, hdb⟩
  · rintro ⟨⟨hi, hv, hd⟩, rfl, hu, hdb⟩
    exact ⟨⟨hi, hv, hd⟩, (counted_lineValues hi hv hd ht clock _).symm, rfl, hu, hdb⟩

/-- An entry is taken in if it is not late, its payload fits, and there is room for its numbers. -/
theorem append_eq_ok_iff (hs : db.Sound)
    (hj : Database.Numbered (db.tableRows Schema.journals))
    (hp : Database.Numbered (db.tableRows kind.journal)) (hk : ∀ f ∈ payload, f.1 ∈ kind.payload)
    (ht : time.micros < Instant.bound) :
    append kind id payload time clock db = .ok (entry, db') ↔
      ¬IsLate db kind id time ∧ TakesPayload kind payload clock ∧
      (Cell.isStorable id = true ∧ Cell.isStorable (nextVersion db kind id) = true ∧
        Cell.isStorable ((db.tableRows kind.journal).length + 1) = true) ∧
      (∀ s ∈ db.tableRows Schema.journals, Database.collides
        ["entity_type", "entity_id", "version"] (nextLine db kind id time) s = false) ∧
      entry = receipt db kind id payload time ∧ db' = appended db kind id payload time clock := by
  have hsame : ∀ rows,
      (db.setRows kind.journal rows).tableRows Schema.journals = db.tableRows Schema.journals := by
    intro rows
    rw [Database.tableRows_setRows_of_mem rows kind.journal_mem Schema.journals_mem,
      if_neg kind.journal_ne_journals.symm]
  have hdata := id_nextPayload db kind payload clock
  by_cases hlate : IsLate db kind id time
  · obtain ⟨version, last, hl, hlt⟩ := hlate
    rw [append_of_late hl hlt]
    exact ⟨(fun h => nomatch h), fun h => absurd ⟨version, last, hl, hlt⟩ h.1⟩
  rw [append_of_not_late hlate]
  constructor
  · intro h
    obtain ⟨⟨data, db₁⟩, h1, h⟩ := bind_eq_ok_iff.mp h
    obtain ⟨⟨r, db₂⟩, h2, h⟩ := bind_eq_ok_iff.mp h
    have hs₁ := hs.insert kind.journal_mem h1
    obtain ⟨htakes, rfl, rfl⟩ := (insert_payload_iff hs hp hk).mp h1
    obtain ⟨hroom, rfl, hu, rfl⟩ := (insert_line_iff hs₁ (by rw [hsame]; exact hj) ht).mp h2
    rw [hsame] at hu
    rw [hdata] at hu hroom
    cases h
    refine ⟨hlate, htakes, hroom, hu, ?_, ?_⟩
    · rw [hsame]
      rfl
    · rw [hsame, hdata]
      rfl
  · rintro ⟨-, htakes, hroom, hu, rfl, rfl⟩
    have h1 := (insert_payload_iff hs hp hk).mpr ⟨htakes, rfl, rfl⟩
    refine bind_eq_ok_iff.mpr ⟨_, h1, bind_eq_ok_iff.mpr ⟨(nextLine db kind id time, _), ?_, rfl⟩⟩
    refine (insert_line_iff (hs.insert kind.journal_mem h1) (by rw [hsame]; exact hj) ht).mpr ?_
    rw [hsame, hdata]
    exact ⟨hroom, rfl, hu, rfl⟩

/-- Only an entry that is late is refused for its time. -/
theorem append_error_iff {f : Failure} (h : append kind id payload time clock db = .error f) :
    f.isOutOfOrder = true ↔ IsLate db kind id time := by
  by_cases hlate : IsLate db kind id time
  · obtain ⟨version, last, hl, hlt⟩ := hlate
    rw [append_of_late hl hlt] at h
    cases h
    exact ⟨fun _ => ⟨version, last, hl, hlt⟩, fun _ => rfl⟩
  · rw [append_of_not_late hlate] at h
    refine ⟨fun ho => ?_, fun hl => absurd hl hlate⟩
    rcases bind_eq_error_iff.mp h with h | ⟨⟨data, db₁⟩, -, h⟩
    · rw [Database.isOutOfOrder_of_insert h] at ho
      cases ho
    · rcases bind_eq_error_iff.mp h with h | ⟨⟨r, db₂⟩, -, h⟩
      · rw [Database.isOutOfOrder_of_insert h] at ho
        cases ho
      · cases h

theorem sound_of_append (hs : db.Sound) (h : append kind id payload time clock db = .ok (entry, db')) :
    db'.Sound := by
  by_cases hlate : IsLate db kind id time
  · obtain ⟨version, last, hl, hlt⟩ := hlate
    rw [append_of_late hl hlt] at h
    cases h
  · rw [append_of_not_late hlate] at h
    obtain ⟨⟨data, db₁⟩, h1, h⟩ := bind_eq_ok_iff.mp h
    obtain ⟨⟨r, db₂⟩, h2, h⟩ := bind_eq_ok_iff.mp h
    cases h
    exact (hs.insert kind.journal_mem h1).insert Schema.journals_mem h2

end Append

/-! ## What an entry adds -/

section Appended

variable (db : Database) (kind : Kind) (id : Int) (payload : List (String × Value))
  (time clock : Instant)

theorem tableRows_appended_journals :
    (appended db kind id payload time clock).tableRows Schema.journals =
      db.tableRows Schema.journals ++ [nextLine db kind id time] :=
  Database.tableRows_setRows _ _ _

theorem tableRows_appended_payload :
    (appended db kind id payload time clock).tableRows kind.journal =
      db.tableRows kind.journal ++ [nextPayload db kind payload clock] := by
  rw [appended, Database.tableRows_setRows_of_mem _ Schema.journals_mem kind.journal_mem,
    if_neg kind.journal_ne_journals, Database.tableRows_setRows]

theorem cell_id_nextPayload : (nextPayload db kind payload clock).cell "id" =
    .int ((db.tableRows kind.journal).length + 1) :=
  Database.cell_set_draft kind.journal_mem _ _ _

theorem rowsOf_appended (k : Kind) (i : Int) :
    rowsOf (appended db kind id payload time clock) k i =
      rowsOf db k i ++ if k = kind ∧ i = id then [nextLine db kind id time] else [] := by
  rw [rowsOf, tableRows_appended_journals, List.filter_append, rowsOf, List.append_cancel_left_eq,
    List.filter_singleton]
  have hcond : (Cell.text kind.name == Cell.text k.name && Cell.int id == Cell.int i) = true ↔
      k = kind ∧ i = id := by
    simp only [Bool.and_eq_true, beq_iff_eq, Cell.text.injEq, Cell.int.injEq]
    exact and_congr ⟨fun e => Kind.name_injective e.symm, fun e => congrArg Kind.name e.symm⟩
      eq_comm
  simp only [nextLine, cell_line_kind, cell_line_entity, Bool.cond_eq_ite, hcond]

/-- All other tables stay as they are. -/
theorem tableRows_appended_of_ne {t : Table} (ht : t ∈ Schema.tables) (hj : t ≠ Schema.journals)
    (hp : t ≠ kind.journal) :
    (appended db kind id payload time clock).tableRows t = db.tableRows t := by
  rw [appended, Database.tableRows_setRows_of_mem _ Schema.journals_mem ht, if_neg hj,
    Database.tableRows_setRows_of_mem _ kind.journal_mem ht, if_neg hp]

end Appended

end Journal

end Chronicle
