import Chronicle.Proofs.Entity.Held
import Chronicle.Proofs.History.Rows
import Chronicle.Proofs.Journal.Intervals

/-!
# Journals that are up to date

Where every write has been journaled and none has failed, the last entry of an entity has the
attributes of its live row: the first step of a write changes one row of a live table, and the
second one appends an entry with just the attributes of this row.

* `Database.Written`: the stores that such writes lead to;
* `Journal.Current`: the last line of every live row leads to a payload with its attributes;
* `Journal.Current.write`, `Database.Written.current`: one write, and all of them;
* `Journal.Current.exists_entry`: the state once everything has been recorded is the live table.
-/

namespace Chronicle

open Chronicle.Calendar

/-! ## Stores written by journaled writes -/

/-- The stores that journaled writes lead to, of any entities and with any times, as long as each of
the writes succeeds. -/
inductive Database.Written : Database → Prop
  | empty : Written Database.empty
  | write {db db' : Database} {w : Entity.Write} {recordedAt : Option Moment} {clock : WallClock}
      {e : Entity} : Written db → (w.action recordedAt clock.instant).run db = (.ok e, db') →
      Written db'

theorem Database.Written.reached {db : Database} (h : db.Written) : db.Reached := by
  induction h with
  | empty => exact ⟨[], rfl⟩
  | @write db db' w recordedAt clock e _ hrun ih =>
    have hcall : ((w.action recordedAt clock.instant).run db).2.Reached := by
      rw [← Action.run_discarded]
      cases w with
      | create kind values => exact ih.call (.create kind true recordedAt values clock)
      | update e values => exact ih.call (.update e true recordedAt values clock)
    rw [hrun] at hcall
    exact hcall

theorem Database.Written.next {db : Database} (h : db.Written) {w : Entity.Write}
    {recordedAt : Option Moment} {clock : WallClock}
    (hok : ((w.action recordedAt clock.instant).run db).1.toOption.isSome = true) :
    ((w.action recordedAt clock.instant).run db).2.Written := by
  rcases hrun : (w.action recordedAt clock.instant).run db with ⟨answer, db'⟩
  rw [hrun] at hok
  cases answer with
  | ok e => exact h.write hrun
  | error f => cases hok

namespace Entity

variable {e e' : Entity} {clock : Instant} {db db' : Database} {r : Row}

/-! ## The rows that a write leaves alone -/

theorem mem_of_insertInto (h : e.insertInto clock db = .ok (e', db')) :
    e'.kind = e.kind ∧ ∃ r ∈ db'.tableRows e.kind.table, e' = ofRow e.kind r ∧
      ∀ k : Kind, ∀ x ∈ db'.tableRows k.table, k = e.kind ∧ x = r ∨ x ∈ db.tableRows k.table := by
  obtain ⟨r, hi, rfl⟩ := insertInto_eq_ok_iff.mp h
  rw [Database.tableRows_of_insert hi]
  refine ⟨rfl, r, ?_, rfl, fun k x hx => ?_⟩
  · rw [Database.tableRows_setRows]
    exact (Database.mem_place r r _).mpr (Or.inl rfl)
  · rw [Database.tableRows_setRows_of_mem _ e.kind.table_mem k.table_mem] at hx
    split at hx
    · next hk =>
      obtain rfl := Kind.table_injective hk
      exact ((Database.mem_place r x _).mp hx).imp_left fun hr => ⟨rfl, hr⟩
    · exact Or.inr hx

theorem mem_of_saveInto (h : e.saveInto clock db = .ok (e', db')) :
    e'.kind = e.kind ∧ ∃ r ∈ db'.tableRows e.kind.table, e' = ofRow e.kind r ∧
      ∀ k : Kind, ∀ x ∈ db'.tableRows k.table, k = e.kind ∧ x = r ∨ x ∈ db.tableRows k.table := by
  rcases saveInto_cases h with ⟨-, hi⟩ | ⟨old, hfound, -, rfl, rfl⟩ | ⟨old, r, hfound, hu, rfl⟩
  · exact mem_of_insertInto hi
  · exact ⟨rfl, old, mem_of_row? hfound, rfl, fun k x hx => Or.inr hx⟩
  · obtain ⟨_, _, _, _, _, rfl⟩ := Database.update_eq_ok_iff.mp hu
    refine ⟨rfl, r, ?_, rfl, fun k x hx => ?_⟩
    · rw [Database.tableRows_setRows, List.mem_map]
      exact ⟨old, mem_of_row? hfound, if_pos (beq_self_eq_true _)⟩
    · rw [Database.tableRows_setRows_of_mem _ e.kind.table_mem k.table_mem] at hx
      split at hx
      · next hk =>
        obtain rfl := Kind.table_injective hk
        obtain ⟨s, hs, rfl⟩ := List.mem_map.mp hx
        split
        · exact Or.inl ⟨rfl, rfl⟩
        · exact Or.inr hs
      · exact Or.inr hx

/-- The first step of a write leaves all rows of live tables but one as they are. -/
theorem Write.mem_of_live {w : Write} {recordedAt : Option Moment}
    (hl : w.live recordedAt clock db = .ok (e, db')) :
    ∃ r ∈ db'.tableRows e.kind.table, e = ofRow e.kind r ∧
      ∀ k : Kind, ∀ x ∈ db'.tableRows k.table, k = e.kind ∧ x = r ∨ x ∈ db.tableRows k.table := by
  cases w with
  | create kind values =>
    obtain ⟨values₁, -, hl⟩ := bind_eq_ok_iff.mp hl
    obtain ⟨values₂, -, hl⟩ := bind_eq_ok_iff.mp hl
    obtain ⟨hk, hrow⟩ := mem_of_insertInto hl
    exact hk ▸ hrow
  | update e₀ values =>
    rw [live] at hl
    split at hl
    · cases hl
    · next e₁ _ =>
      obtain ⟨hk, hrow⟩ := mem_of_saveInto hl
      exact hk ▸ hrow

/-- A journaled write that succeeds: its row is journaled, and all other live rows are as they
were. -/
theorem Write.exists_row {w : Write} {recordedAt : Option Moment} {clock : WallClock}
    (h : Journal.Regular db) (hrun : (w.action recordedAt clock.instant).run db = (.ok e, db')) :
    ∃ r time, e = ofRow e.kind r ∧
      Journal.recordingTime (recordedAt.or e.updatedAt) clock.instant = .ok time ∧
      db.Journals db' e.kind r time ∧
      ∀ k : Kind, ∀ x ∈ db'.tableRows k.table, k = e.kind ∧ x = r ∨ x ∈ db.tableRows k.table := by
  obtain ⟨db₁, hl, hc⟩ : ∃ db₁, w.live recordedAt clock.instant db = .ok (e, db₁) ∧
      Completes true recordedAt clock.instant e db₁ db' := by
    cases w with
    | create kind values => exact live_of_create hrun
    | update e₀ values => exact live_of_update hrun
  obtain ⟨hlive, r, hr, he, hfits, hjournals⟩ := row_of_completes h hl hc
  obtain ⟨time, htime, hjournals⟩ := hjournals rfl
  obtain ⟨⟨h₁, -, -⟩, -⟩ := live_spec h hl
  obtain ⟨r₁, hr₁, he₁, hothers⟩ := mem_of_live hl
  rw [hlive] at hr
  -- both steps speak of the row with the number that is answered
  have hid : r₁.id = r.id := by
    have hids := (id?_ofRow (h₁.sound.fits _ e.kind.table_mem r₁ hr₁)).symm.trans
      ((congrArg id? (he₁.symm.trans he)).trans (id?_ofRow hfits))
    exact Option.some.inj hids
  obtain rfl := h₁.sound.eq_of_id e.kind.table_mem hr₁ hr hid
  exact ⟨r₁, time, he, htime, hjournals, fun k x hx => hothers k x (hlive k ▸ hx)⟩

end Entity

/-! ## The last entries -/

namespace Journal

/-- The last line of every live row leads to a payload with the attributes of the row. -/
def Current (db : Database) : Prop :=
  ∀ kind : Kind, ∀ live ∈ db.tableRows kind.table, ∃ r data,
    (rowsOf db kind live.id).getLast? = some r ∧ data ∈ db.tableRows kind.journal ∧
      r.cell "data_id" = data.cell "id" ∧ ∀ n ∈ kind.payload, data.cell n = live.cell n

section Journals

variable {db db' : Database} {kind : Kind} {r : Row} {time : Instant}
  (h : db.Journals db' kind r time)

include h

/-- A journaled row has one more line, and no other row has. -/
theorem rowsOf_of_journals : ∃ line data, data ∈ db'.tableRows kind.journal ∧
    line.cell "data_id" = data.cell "id" ∧ line.cell "recorded_at" = .instant time ∧
    (∀ n ∈ kind.payload, data.cell n = r.cell n) ∧
    ∀ (k : Kind) (i : Int), rowsOf db' k i = rowsOf db k i ++
      if k = kind ∧ i = r.id then [line] else [] := by
  obtain ⟨line, data, hline, hdata, htype, hid, htime, hlink, hcells⟩ := h.entry
  refine ⟨line, data, hdata ▸ List.mem_append_right _ List.mem_cons_self, hlink, htime, hcells, ?_⟩
  intro k i
  have hkind : ∀ k : Kind, kind.name = k.name ↔ k = kind :=
    fun k => ⟨fun e => (Kind.name_injective e).symm, fun e => e ▸ rfl⟩
  rw [rowsOf, rowsOf, hline, List.filter_append]
  simp only [List.filter_cons, List.filter_nil, htype, hid, Bool.and_eq_true, beq_iff_eq,
    Cell.text.injEq, Cell.int.injEq, hkind, eq_comm (a := i)]

theorem mem_payload_of_journals (k : Kind) {data : Row} (hd : data ∈ db.tableRows k.journal) :
    data ∈ db'.tableRows k.journal := by
  by_cases hk : k = kind
  · obtain ⟨_, _, -, hdata, -⟩ := h.entry
    subst hk
    exact hdata ▸ List.mem_append_left _ hd
  · rwa [h.others k hk]

end Journals

/-- A journaled write that succeeds keeps the journals up to date. -/
theorem Current.write {db db' : Database} {w : Entity.Write} {recordedAt : Option Moment}
    {clock : WallClock} {e : Entity} (hc : Current db) (h : Regular db) (h' : Regular db')
    (hrun : (w.action recordedAt clock.instant).run db = (.ok e, db')) : Current db' := by
  obtain ⟨r, time, -, -, hj, hothers⟩ := Entity.Write.exists_row h hrun
  obtain ⟨line, data, hdata, hlink, -, hcells, hrows⟩ := rowsOf_of_journals hj
  intro k x hx
  by_cases hsame : k = e.kind ∧ x.id = r.id
  · obtain ⟨rfl, hid⟩ := hsame
    obtain rfl := h'.sound.eq_of_id e.kind.table_mem hx hj.stored hid
    refine ⟨line, data, ?_, hdata, hlink, hcells⟩
    rw [hrows, if_pos ⟨rfl, rfl⟩, List.getLast?_concat]
  · have hold : x ∈ db.tableRows k.table :=
      (hothers k x hx).resolve_left fun hnew => hsame ⟨hnew.1, hnew.2 ▸ rfl⟩
    obtain ⟨s, d, hlast, hd, hs, hpayload⟩ := hc k x hold
    refine ⟨s, d, ?_, mem_payload_of_journals hj k hd, hs, hpayload⟩
    rw [hrows, if_neg hsame, List.append_nil, hlast]

end Journal

theorem Database.Written.current {db : Database} (h : db.Written) : Journal.Current db := by
  induction h with
  | empty => exact fun kind live hl => by simp [Database.tableRows, Database.empty] at hl
  | write hw hrun ih =>
    exact ih.write hw.reached.regular (Database.Written.write hw hrun).reached.regular hrun

/-! ## The state once everything has been recorded -/

namespace Journal

/-- No entry was recorded after an instant. -/
def Covers (db : Database) (i : Instant) : Prop :=
  ∀ (kind : Kind) (id : Int), ∀ e ∈ entriesIn db kind id, e.recordedAt.micros ≤ i.micros

section Covers

variable {db : Database} (h : Regular db) {i : Instant} (hi : Covers db i)

include h hi

theorem Covers.timeOf_le {kind : Kind} {id : Int} {r : Row} (hr : r ∈ rowsOf db kind id) :
    timeOf r ≤ i.micros := by
  have htimes := h.map_entriesIn kind id (fun e => e.recordedAt.micros) timeOf fun _ _ => rfl
  obtain ⟨e, he, htime⟩ := List.mem_map.mp (htimes ▸ List.mem_map_of_mem hr)
  exact htime ▸ hi kind id e he

theorem Covers.lineAt_eq (kind : Kind) (id : Int) :
    lineAt db kind id i = (rowsOf db kind id).getLast? := by
  rw [lineAt, List.filter_eq_self.mpr fun r hr => decide_eq_true (hi.timeOf_le h hr)]

/-- Every live row has an entry then, and the state has its cells, the time of the last change
aside. -/
theorem Current.exists_entry (hc : Current db) {kind : Kind} {live : Row}
    (hl : live ∈ db.tableRows kind.table) : ∃ e, entryAtIn db kind live.id i = some e ∧
      ∀ c ∈ kind.table.columns, c.name ≠ "updated_at" →
        (stateRow kind live e).cell c.name = live.cell c.name := by
  obtain ⟨r, data, hlast, hdata, hlink, hcells⟩ := hc kind live hl
  have hfound : foundAt db kind live.id i = some (data, r) :=
    h.foundAt_eq_some_iff.mpr ⟨(hi.lineAt_eq h kind live.id).trans hlast, hdata, hlink⟩
  refine ⟨entryOfRows kind r data, by rw [h.entryAtIn_eq, hfound]; rfl, fun c hcol hupdated => ?_⟩
  by_cases hid : c.name = "id"
  · have hnumber := (h.sound.fits _ kind.table_mem live hl).number
    rw [hid, cell_id_stateRow kind hnumber, hnumber]
  · rw [h.cell_stateRow hl hfound hcol, Substitution.cellOf, if_neg hid]
    by_cases hcreated : c.name = "created_at"
    · rw [if_pos hcreated, hcreated]
    · rw [if_neg hcreated, if_neg hupdated]
      refine hcells c.name ?_
      rw [kind.payload_eq]
      exact List.mem_map_of_mem (List.mem_filter.mpr
        ⟨kind.mem_journal_columns hcol hid hcreated hupdated, bne_iff_ne.mpr hid⟩)

end Covers

end Journal

end Chronicle
