import Chronicle.Proofs.Entity.Save
import Chronicle.Proofs.Journal.Refusal

/-!
# Journaled writes

A journaled write first changes the live table and then appends an entry to the journal.  Each of
the two is made whole or not at all, but not both together: where the journal refuses the entry,
the live table has been changed already.

* `Entity.Write`: creating and updating an entity;
* `Entity.payload_taken`: the attributes of a live row always fit into the journal;
* `Entity.Write.live_spec`, `Entity.Write.entry_spec`: the two steps of a write;
* `Entity.Write.torn_iff`: when the second step fails after the first one, and what is stored then.
-/

namespace Chronicle

open Chronicle.Calendar

/-! ## Live rows as payloads -/

namespace Kind

/-- An attribute that is journaled has the same column in the live table. -/
theorem mem_table_of_mem_journal (k : Kind) {c : Column} (hc : c ∈ k.journal.columns) :
    c ∈ k.table.columns := by
  revert c
  cases k <;> decide

end Kind

namespace Entity

variable {kind : Kind} {r : Row}

theorem get?_ofRow {c : Column} (hc : c ∈ kind.table.columns) (r : Row) :
    (ofRow kind r).get? c.name = some (.scalar ((r.cell c.name).toScalar c.type)) :=
  Column.lookup_name (Schema.columnNames_nodup kind.table_mem) _ hc

theorem id?_ofRow (hr : kind.table.Fits r) : (ofRow kind r).id? = some r.id := by
  have hid : (ofRow kind r).get? "id" = _ :=
    get?_ofRow (Schema.idColumn_mem kind.table_mem) r
  rw [show (Schema.idColumn.name : String) = "id" from rfl, hr.number] at hid
  rw [id?, hid]
  rfl

theorem lookup_payload {c : Column} (hc : c ∈ kind.journal.columns) (hid : c.name ≠ "id")
    (r : Row) : (ofRow kind r).payload.lookup c.name =
      some (.scalar ((r.cell c.name).toScalar c.type)) := by
  have hmem : c.name ∈ kind.payload := by
    rw [kind.payload_eq]
    exact List.mem_map_of_mem (List.mem_filter.mpr ⟨hc, bne_iff_ne.mpr hid⟩)
  have h := Journal.lookup_filterMap_names (f := (ofRow kind r).get?) hmem
  rw [get?_ofRow (kind.mem_table_of_mem_journal hc)] at h
  exact h

theorem payload_known (e : Entity) : ∀ f ∈ e.payload, f.1 ∈ e.kind.payload := by
  intro f hf
  obtain ⟨n, hn, hv⟩ := List.mem_filterMap.mp hf
  obtain ⟨v, -, rfl⟩ := Option.map_eq_some_iff.mp hv
  exact hn

/-- The attributes of a live row fit into the journal as they are. -/
theorem payload_taken (hr : kind.table.Fits r) (clock : Instant) :
    Journal.TakesPayload kind (ofRow kind r).payload clock ∧
      ∀ c ∈ kind.journal.columns, c.name ≠ "id" →
        Database.boundCell (Database.valueOf kind.journal (ofRow kind r).payload clock) c =
          r.cell c.name := by
  have hvalue : ∀ c ∈ kind.journal.columns, c.name ≠ "id" → ∃ x, (Binding.intoColumn c.type).bind
      (Database.valueOf kind.journal (ofRow kind r).payload clock c.name) = .cell x ∧
        x.under c.type.affinity = r.cell c.name := by
    intro c hc hid
    have htakes := hr.takes c (kind.mem_table_of_mem_journal hc) hid
    obtain ⟨x, hx, hcell⟩ := Binding.bind_toScalar htakes
    refine ⟨x, ?_, hcell⟩
    rw [Database.valueOf, lookup_payload hc hid r]
    exact hx
  have hcell : ∀ c ∈ kind.journal.columns, c.name ≠ "id" →
      Database.boundCell (Database.valueOf kind.journal (ofRow kind r).payload clock) c =
        r.cell c.name := by
    intro c hc hid
    obtain ⟨x, hx, hx'⟩ := hvalue c hc hid
    rw [Database.boundCell, hx, Bound.toCell, hx']
  refine ⟨⟨fun c hc => ?_, fun c hc hid hn => ?_⟩, hcell⟩
  · by_cases hid : c.name = "id"
    · have htype : c.type = .integer := by
        revert c
        cases kind <;> decide
      have hknown : ∀ f ∈ (ofRow kind r).payload, f.1 ∈ kind.payload := payload_known _
      rw [hid, Journal.valueOf_id hknown clock, htype]
      exact ⟨.null, rfl⟩
    · obtain ⟨x, hx, -⟩ := hvalue c hc hid
      exact ⟨x, hx⟩
  · rw [hcell c hc hid]
    exact hr.filled c (kind.mem_table_of_mem_journal hc) hid hn

/-! ## The two steps of a write -/

/-- A write of one entity. -/
inductive Write
  | create (kind : Kind) (values : List (String × Value))
  | update (e : Entity) (values : List (String × Value))

namespace Write

/-- The call with which an entity is written and the write is journaled. -/
def action (recordedAt : Option Moment) (clock : Instant) : Write → Action Entity
  | create kind values => Entity.create kind true recordedAt values clock
  | update e values => e.update true recordedAt values clock

/-- The first step, which changes the live table. -/
def live (recordedAt : Option Moment) (clock : Instant) (db : Database) :
    Write → Except Failure (Entity × Database)
  | create kind values => do
    let values ← normalizeTime values "created_at"
    let values ← normalizeTime values "updated_at"
    (new kind values clock).insertInto clock db
  | update e values =>
    match e.assign values recordedAt clock with
    | (_, some f) => .error f
    | (e, none) => e.saveInto clock db

/-- The second step, which records what the first one has made of the entity. -/
def entry (recordedAt : Option Moment) (clock : Instant) (e : Entity) : Action Entry :=
  Journal.record e.kind ((e.id?).getD 0) e.payload (recordedAt.or e.updatedAt) clock

/-- What follows the first step: the entry, if it is wanted, and the answer. -/
def finish (journaled : Bool) (recordedAt : Option Moment) (clock : Instant) (e : Entity) :
    Action Entity := do
  if journaled then e.journal recordedAt clock
  return e

section Steps

variable (journaled : Bool) (recordedAt : Option Moment) (clock : Instant)

theorem run_finish_true (e : Entity) (db : Database) :
    (finish true recordedAt clock e).run db = match (entry recordedAt clock e).run db with
      | (.ok _, db₁) => (.ok e, db₁)
      | (.error f, db₁) => (.error f, db₁) := by
  have hjournal : (e.journal recordedAt clock).run db =
      match (entry recordedAt clock e).run db with
      | (.ok _, db₁) => (.ok (), db₁)
      | (.error f, db₁) => (.error f, db₁) := by
    rw [journal, Action.run_bind, entry]
    rcases (Journal.record e.kind ((e.id?).getD 0) e.payload (recordedAt.or e.updatedAt)
      clock).run db with ⟨r, db₁⟩
    cases r <;> rfl
  simp only [finish, if_true, Action.run_bind, hjournal]
  rcases (entry recordedAt clock e).run db with ⟨r, db₁⟩
  cases r <;> rfl

theorem run_change_finish (f : Database → Except Failure (Entity × Database)) (db : Database) :
    (do
      let e ← Action.change f
      finish journaled recordedAt clock e : Action Entity).run db = match f db with
        | .error f => (.error f, db)
        | .ok (e, db₁) => (finish journaled recordedAt clock e).run db₁ := by
  rw [Action.run_bind, Action.run_change]
  cases f db <;> rfl

/-- A creation is its first step, and what follows if that succeeds. -/
theorem run_create (kind : Kind) (values : List (String × Value)) (db : Database) :
    (Entity.create kind journaled recordedAt values clock).run db =
      match (create kind values).live recordedAt clock db with
      | .error f => (.error f, db)
      | .ok (e, db₁) => (finish journaled recordedAt clock e).run db₁ := by
  rw [Entity.create, live, Action.run_bind, Action.run_lift]
  cases normalizeTime values "created_at" with
  | error f => rfl
  | ok values =>
    simp only [bind, Except.bind]
    cases normalizeTime values "updated_at" with
    | error f => rfl
    | ok values => exact run_change_finish journaled recordedAt clock _ db

/-- So is an update. -/
theorem run_update (e : Entity) (values : List (String × Value)) (db : Database) :
    (e.update journaled recordedAt values clock).run db =
      match (update e values).live recordedAt clock db with
      | .error f => (.error f, db)
      | .ok (e, db₁) => (finish journaled recordedAt clock e).run db₁ := by
  rw [Entity.update, live]
  rcases e.assign values recordedAt clock with ⟨e, _ | f⟩
  · exact run_change_finish journaled recordedAt clock _ db
  · rfl

/-- A journaled write changes the live table, and then appends to the journal. -/
theorem run_action (w : Write) (db : Database) :
    (w.action recordedAt clock).run db = match w.live recordedAt clock db with
      | .error f => (.error f, db)
      | .ok (e, db₁) => match (entry recordedAt clock e).run db₁ with
        | (.ok _, db₂) => (.ok e, db₂)
        | (.error f, db₂) => (.error f, db₂) := by
  have hsteps : (w.action recordedAt clock).run db = match w.live recordedAt clock db with
      | .error f => (.error f, db)
      | .ok (e, db₁) => (finish true recordedAt clock e).run db₁ := by
    cases w with
    | create kind values => exact run_create true recordedAt clock kind values db
    | update e values => exact run_update true recordedAt clock e values db
  rw [hsteps]
  cases w.live recordedAt clock db with
  | error f => rfl
  | ok p => exact run_finish_true recordedAt clock p.1 p.2

end Steps

variable {w : Write} {recordedAt : Option Moment} {db db₁ db' : Database} {e : Entity}

/-- The first step leaves the journals alone and answers a row of the live table. -/
theorem live_spec {clock : Instant} (h : Journal.Regular db)
    (hl : w.live recordedAt clock db = .ok (e, db₁)) :
    (Journal.Regular db₁ ∧ db₁.tableRows Schema.journals = db.tableRows Schema.journals ∧
      ∀ k : Kind, db₁.tableRows k.journal = db.tableRows k.journal) ∧
    ∃ r ∈ db₁.tableRows e.kind.table, e = ofRow e.kind r := by
  have hlive : ∀ (kind : Kind) (rows : List Row), (db.setRows kind.table rows).Sound →
      Journal.Regular (db.setRows kind.table rows) ∧
        (db.setRows kind.table rows).tableRows Schema.journals = db.tableRows Schema.journals ∧
        ∀ k : Kind, (db.setRows kind.table rows).tableRows k.journal = db.tableRows k.journal :=
    fun kind rows hs => ⟨h.setRows_live hs, Journal.journals_setRows_live db kind rows,
      Journal.payload_setRows_live db kind rows⟩
  cases w with
  | create kind values =>
    obtain ⟨values₁, -, hl⟩ := bind_eq_ok_iff.mp hl
    obtain ⟨values₂, -, hl⟩ := bind_eq_ok_iff.mp hl
    obtain ⟨hs, rows, rfl⟩ := sound_of_insertInto h.sound hl
    obtain ⟨r, hr, rfl⟩ := row_of_insertInto hl
    exact ⟨hlive _ rows hs, r, hr, rfl⟩
  | update e₀ values =>
    rw [live] at hl
    split at hl
    · cases hl
    · next e₁ _ =>
      obtain ⟨r, hr, rfl⟩ := row_of_saveInto hl
      refine ⟨?_, r, hr, rfl⟩
      obtain ⟨hs, rfl | ⟨rows, rfl⟩⟩ := sound_of_saveInto h.sound hl
      · exact ⟨h, rfl, fun _ => rfl⟩
      · exact hlive _ rows hs

end Write

end Entity

/-! ## Writes that are torn -/

namespace Database

/-- Two stores hold the same rows. -/
def SameRows (db db' : Database) : Prop :=
  ∀ t ∈ Schema.tables, db'.tableRows t = db.tableRows t

/-- A row of a live table has been journaled: there is one new line in the table of journals and
one new payload, with the attributes of the row, and no other row of a journal is new. -/
structure Journals (db db' : Database) (kind : Kind) (r : Row) (time : Instant) : Prop where
  stored : r ∈ db'.tableRows kind.table
  others : ∀ k : Kind, k ≠ kind → db'.tableRows k.journal = db.tableRows k.journal
  entry : ∃ line data : Row,
    db'.tableRows Schema.journals = db.tableRows Schema.journals ++ [line] ∧
    db'.tableRows kind.journal = db.tableRows kind.journal ++ [data] ∧
    line.cell "entity_type" = .text kind.name ∧ line.cell "entity_id" = .int r.id ∧
    line.cell "recorded_at" = .instant time ∧ line.cell "data_id" = data.cell "id" ∧
    ∀ n ∈ kind.payload, data.cell n = r.cell n

end Database

namespace Entity

namespace Write

variable {w : Write} {recordedAt : Option Moment} {clock : WallClock} {db db₁ db' : Database}
  {e : Entity} {answer : Except Failure Entity}

/-- The second step is made unless the journal refuses the entry, and is then made whole. -/
theorem entry_spec (h : Journal.Regular db₁) {kind : Kind} {r : Row}
    (hr : r ∈ db₁.tableRows kind.table) {given : Except Failure Entry}
    (hrun : (entry recordedAt clock.instant (ofRow kind r)).run db₁ = (given, db')) :
    ((∃ f, given = .error f) ↔ Journal.Refuses db₁ kind r.id
      (Journal.recordingTime (recordedAt.or (ofRow kind r).updatedAt) clock.instant)) ∧
    (∀ f, given = .error f → db₁.SameRows db') ∧
    (∀ x, given = .ok x → (∀ k : Kind, db'.tableRows k.table = db₁.tableRows k.table) ∧
      ∃ time, Journal.recordingTime (recordedAt.or (ofRow kind r).updatedAt) clock.instant =
        .ok time ∧ db₁.Journals db' kind r time) := by
  have hfits := h.sound.fits _ kind.table_mem r hr
  have hknown : ∀ f ∈ (ofRow kind r).payload, f.1 ∈ kind.payload := payload_known _
  obtain ⟨htakes, hcells⟩ := payload_taken hfits clock.instant
  have hrun : (Journal.record kind r.id (ofRow kind r).payload
      (recordedAt.or (ofRow kind r).updatedAt) clock.instant).run db₁ = (given, db') := by
    rw [entry, id?_ofRow hfits] at hrun
    exact hrun
  have hiff : (∃ f, given = .error f) ↔ Journal.Refuses db₁ kind r.id
      (Journal.recordingTime (recordedAt.or (ofRow kind r).updatedAt) clock.instant) := by
    rw [← h.record_error_iff hknown htakes, hrun]
  refine ⟨hiff, ?_, ?_⟩
  · rintro f rfl
    rcases Journal.rows_of_record_error hrun with rfl | rfl <;> exact fun _ _ => rfl
  · rintro x rfl
    cases ht : Journal.recordingTime (recordedAt.or (ofRow kind r).updatedAt) clock.instant with
    | error f =>
      obtain ⟨_, hf⟩ := hiff.mpr (Or.inl ⟨f, ht⟩)
      cases hf
    | ok time =>
      rcases Journal.record_cases h ht hrun with ⟨-, -, -, -, -, rfl, -⟩ | ⟨-, f, hf, -⟩
      · have hlive : ∀ k : Kind, (Journal.appended db₁.opened kind r.id (ofRow kind r).payload time
            clock.instant).tableRows k.table = db₁.tableRows k.table := fun k =>
          Journal.tableRows_appended_of_ne _ _ _ _ _ _ k.table_mem k.table_ne_journals
            (k.table_ne_journal kind)
        refine ⟨hlive, time, rfl, hlive kind ▸ hr, fun k hk => ?_, ?_⟩
        · exact Journal.tableRows_appended_of_ne _ _ _ _ _ _ k.journal_mem k.journal_ne_journals
            fun e => hk (Kind.journal_injective e)
        · refine ⟨_, _, Journal.tableRows_appended_journals _ _ _ _ _ _,
            Journal.tableRows_appended_payload _ _ _ _ _ _, rfl, rfl, rfl,
            (Journal.cell_id_nextPayload _ _ _ _).symm, fun n hn => ?_⟩
          rw [kind.payload_eq] at hn
          obtain ⟨c, hc, rfl⟩ := List.mem_map.mp hn
          obtain ⟨hc, hid⟩ := List.mem_filter.mp hc
          rw [Journal.cell_nextPayload _ _ _ hc (bne_iff_ne.mp hid)]
          exact hcells c hc (bne_iff_ne.mp hid)
      · cases hf

/-- A journaled write that fails has changed rows just where its first step changed some and the
journal then refused the entry; what it has changed is what the first step changes.  A write that
succeeds leaves the live row and one new entry with its attributes. -/
theorem torn_iff (hdb : db.Reached)
    (hrun : (w.action recordedAt clock.instant).run db = (answer, db')) :
    ((∃ f, answer = .error f) ∧ ¬db.SameRows db' ↔
      ∃ e db₁, w.live recordedAt clock.instant db = .ok (e, db₁) ∧ ¬db.SameRows db₁ ∧
        Journal.Refuses db e.kind ((e.id?).getD 0)
          (Journal.recordingTime (recordedAt.or e.updatedAt) clock.instant)) ∧
    (∀ f, answer = .error f → db.SameRows db' ∨
      ∃ e db₁, w.live recordedAt clock.instant db = .ok (e, db₁) ∧ db₁.SameRows db') ∧
    (∀ e, answer = .ok e → ∃ db₁ r time, w.live recordedAt clock.instant db = .ok (e, db₁) ∧
      e = ofRow e.kind r ∧
      Journal.recordingTime (recordedAt.or e.updatedAt) clock.instant = .ok time ∧
      (∀ k : Kind, db'.tableRows k.table = db₁.tableRows k.table) ∧
      db.Journals db' e.kind r time) := by
  rw [run_action] at hrun
  cases hl : w.live recordedAt clock.instant db with
  | error f =>
    rw [hl] at hrun
    cases hrun
    refine ⟨⟨fun h => absurd (fun _ _ => rfl) h.2, ?_⟩, fun _ _ => Or.inl fun _ _ => rfl,
      (fun e he => nomatch he)⟩
    rintro ⟨e, db₁, he, -⟩
    cases he
  | ok p =>
    obtain ⟨e, db₁⟩ := p
    rw [hl] at hrun
    obtain ⟨⟨hreg, hj, hp⟩, r, hr, he⟩ := live_spec hdb.regular hl
    generalize e.kind = kind at hr he
    subst he
    rcases hentry : (entry recordedAt clock.instant (ofRow kind r)).run db₁ with ⟨given, db₂⟩
    obtain ⟨hrefuses, hsame, hwhole⟩ := entry_spec hreg hr hentry
    have hfits := hreg.sound.fits _ kind.table_mem r hr
    rw [Journal.refuses_of_same hj hp] at hrefuses
    simp only [hentry] at hrun
    cases given with
    | error f =>
      cases hrun
      have hkeeps : db.SameRows db' ↔ db.SameRows db₁ := by
        have hrows := hsame f rfl
        exact forall_congr' fun t => forall_congr' fun ht => by rw [hrows t ht]
      refine ⟨⟨fun h => ⟨_, _, rfl, fun hs => h.2 (hkeeps.mpr hs), ?_⟩, ?_⟩,
        fun _ _ => Or.inr ⟨_, _, rfl, hsame f rfl⟩, (fun e he => nomatch he)⟩
      · rw [id?_ofRow hfits]
        exact hrefuses.mp ⟨f, rfl⟩
      · rintro ⟨e, db₃, he, hchanged, -⟩
        cases he
        exact ⟨⟨f, rfl⟩, fun hs => hchanged (hkeeps.mp hs)⟩
    | ok x =>
      cases hrun
      obtain ⟨hlive, time, ht, hstored, hothers, line, data, hline, hdata, hcells⟩ := hwhole x rfl
      refine ⟨⟨(fun h => nomatch h.1), ?_⟩, (fun f hf => nomatch hf), ?_⟩
      · rintro ⟨e, db₃, he, -, hr'⟩
        cases he
        rw [id?_ofRow hfits] at hr'
        obtain ⟨f, hf⟩ := hrefuses.mpr hr'
        cases hf
      · intro e he
        cases he
        refine ⟨db₁, r, time, rfl, rfl, ht, hlive, hstored, ?_, line, data, ?_, ?_, hcells⟩
        · intro k hk
          rw [hothers k hk, hp]
        · rw [hline, hj]
        · exact hdata.trans (by rw [hp]; rfl)

/-- A work package that was created at noon in UTC. -/
def created : Database := .after
  [.create .workPackage true (some (Journal.noon 0)) [("subject", .text "Draft")] Journal.firstDay]

/-- A change of that work package at noon on a clock an hour ahead of UTC, which is too early. -/
def hasty : Write :=
  .update (((created.find? Schema.workPackages 1).map (ofRow .workPackage)).getD default)
    [("subject", .text "Plan")]

theorem torn_iff_hasty :
    ∃ (f : Failure) (db' : Database) (e : Entity),
      (hasty.action (some (Journal.noon 3600000000)) Journal.firstDay.instant).run created =
        (.error f, db') ∧ ¬created.SameRows db' ∧
      Journal.Refuses created e.kind ((e.id?).getD 0)
        (Journal.recordingTime ((some (Journal.noon 3600000000)).or e.updatedAt)
          Journal.firstDay.instant) := by
  have hfails : ((hasty.action (some (Journal.noon 3600000000)) Journal.firstDay.instant).run
    created).1.toOption.isNone = true := by decide +kernel
  have hplan : (((hasty.action (some (Journal.noon 3600000000)) Journal.firstDay.instant).run
    created).2.tableRows Schema.workPackages).any (·.cell "subject" == .text "Plan") = true := by
      decide +kernel
  have hdraft : (created.tableRows Schema.workPackages).any (·.cell "subject" == .text "Plan") =
    false := by decide +kernel
  rcases hrun : (hasty.action (some (Journal.noon 3600000000)) Journal.firstDay.instant).run
    created with ⟨answer, db'⟩
  rw [hrun] at hfails hplan
  cases answer with
  | ok e => cases hfails
  | error f =>
    have hchanged : ¬created.SameRows db' := by
      intro hs
      rw [hs _ (by decide), hdraft] at hplan
      cases hplan
    obtain ⟨e, db₁, -, -, hrefuses⟩ :=
      (torn_iff ⟨_, rfl⟩ hrun).1.mp ⟨⟨f, rfl⟩, hchanged⟩
    exact ⟨f, db', e, rfl, hchanged, hrefuses⟩

end Write

end Entity

end Chronicle
