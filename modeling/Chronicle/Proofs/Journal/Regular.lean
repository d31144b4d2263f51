import Chronicle.Proofs.Calls
import Chronicle.Proofs.Entity.Save

/-!
# Regular journals

The journal of an entity is a sequence of versions counted from one, in the order of time, and each
version has a payload row of its own.

* `Journal.Regular`: all journals of a store are of this form;
* `Journal.Regular.nextVersion_eq`, `Journal.Regular.isLate_iff`: the last line of an entity decides
  on its next one;
* `Journal.Regular.appended`, `Journal.Regular.change`: what changes the store keeps its journals
  regular;
* `Database.Reached.regular`: the journals of every store that is reached are regular.
-/

namespace Chronicle

open Chronicle.Calendar

namespace Journal

section Live

variable (db : Database) (kind : Kind) (rows : List Row)

theorem journals_setRows_live :
    (db.setRows kind.table rows).tableRows Schema.journals = db.tableRows Schema.journals := by
  rw [Database.tableRows_setRows_of_mem rows kind.table_mem Schema.journals_mem,
    if_neg kind.table_ne_journals.symm]

theorem payload_setRows_live (k : Kind) :
    (db.setRows kind.table rows).tableRows k.journal = db.tableRows k.journal := by
  rw [Database.tableRows_setRows_of_mem rows kind.table_mem k.journal_mem,
    if_neg (kind.table_ne_journal k).symm]

end Live

/-- The lines of all entities of a kind. -/
def linesOf (db : Database) (kind : Kind) : List Row :=
  (db.tableRows Schema.journals).filter fun r => r.cell "entity_type" == .text kind.name

/-- The microseconds of the time of a line. -/
def timeOf (r : Row) : Nat := (instantCell (r.cell "recorded_at")).micros

/-- All journals of a store are versions in order, each with a payload of its own. -/
structure Regular (db : Database) : Prop where
  sound : db.Sound
  lines : ∀ r ∈ db.tableRows Schema.journals, ∃ (kind : Kind) (id version dataId : Int)
    (time : Instant), r = line r.id kind id version dataId time
  counted : Database.Numbered (db.tableRows Schema.journals)
  payloads : ∀ kind : Kind, Database.Numbered (db.tableRows kind.journal)
  links : ∀ kind : Kind, (linesOf db kind).map (·.cell "data_id") =
    (db.tableRows kind.journal).map (·.cell "id")
  versions : ∀ (kind : Kind) (id : Int), (rowsOf db kind id).map (·.cell "version") =
    (List.range (rowsOf db kind id).length).map fun k : Nat => Cell.int (k + 1)
  times : ∀ (kind : Kind) (id : Int), (rowsOf db kind id).Pairwise fun r s => timeOf r ≤ timeOf s

namespace Regular

theorem empty : Regular Database.empty where
  sound := .empty
  lines _ hr := nomatch hr
  counted := rfl
  payloads _ := rfl
  links _ := rfl
  versions _ _ := rfl
  times _ _ := List.Pairwise.nil

variable {db : Database}

/-- Only the tables of the journal matter. -/
theorem of_same (h : Regular db) {db' : Database} (hs : db'.Sound)
    (hj : db'.tableRows Schema.journals = db.tableRows Schema.journals)
    (hp : ∀ kind : Kind, db'.tableRows kind.journal = db.tableRows kind.journal) :
    Regular db' where
  sound := hs
  lines := hj ▸ h.lines
  counted := hj ▸ h.counted
  payloads kind := hp kind ▸ h.payloads kind
  links kind := by
    have := h.links kind
    unfold linesOf at this ⊢
    rw [hj, hp, this]
  versions kind id := by
    have := h.versions kind id
    unfold rowsOf at this ⊢
    rw [hj, this]
  times kind id := by
    have := h.times kind id
    unfold rowsOf at this ⊢
    rw [hj]
    exact this

/-- A write of a live table leaves the journals alone. -/
theorem setRows_live (h : Regular db) {kind : Kind} {rows : List Row}
    (hs : (db.setRows kind.table rows).Sound) : Regular (db.setRows kind.table rows) :=
  h.of_same hs (journals_setRows_live db kind rows) (payload_setRows_live db kind rows)

/-- A line of an entity, by its parts. -/
theorem exists_of_mem_rowsOf (h : Regular db) {kind : Kind} {id : Int} {r : Row}
    (hr : r ∈ rowsOf db kind id) :
    ∃ (version dataId : Int) (time : Instant), r = line r.id kind id version dataId time := by
  obtain ⟨hm, hp⟩ := List.mem_filter.mp hr
  obtain ⟨k, i, version, dataId, time, e⟩ := h.lines r hm
  rw [e] at hp
  simp only [cell_line_kind, cell_line_entity, Bool.and_eq_true, beq_iff_eq, Cell.text.injEq,
    Cell.int.injEq] at hp
  obtain ⟨hk, rfl⟩ := hp
  cases Kind.name_injective hk
  exact ⟨version, dataId, time, e⟩

end Regular

/-! ## The last line -/

/-- In rows that ascend, the largest version and time are those of the last row. -/
theorem foldl_latest (p : Int × Instant) (ps : List (Int × Instant))
    (h : (p :: ps).Pairwise fun a b => a.1 ≤ b.1 ∧ a.2.micros ≤ b.2.micros) :
    some (ps.foldl (fun (v, i) (w, j) => (max v w, if i.micros < j.micros then j else i)) p) =
      (p :: ps).getLast? := by
  induction ps generalizing p with
  | nil => rfl
  | cons q qs ih =>
    obtain ⟨v, i⟩ := p
    obtain ⟨w, j⟩ := q
    have hstep := List.rel_of_pairwise_cons h List.mem_cons_self
    have htail := List.Pairwise.of_cons h
    have hlater : (if i.micros < j.micros then j else i) = j := by
      split
      · rfl
      · obtain ⟨a⟩ := i
        obtain ⟨b⟩ := j
        next hlt =>
          have hle : a ≤ b := hstep.2
          have hge : ¬a < b := hlt
          congr 1
          omega
    have hmax : max v w = w := Int.max_eq_right hstep.1
    rw [List.foldl_cons, List.getLast?_cons_cons, ← ih (w, j) htail]
    simp only [hlater, hmax]

theorem latestOf_of_ordered {rows : List Row}
    (h : rows.Pairwise fun r s =>
      intCell (r.cell "version") ≤ intCell (s.cell "version") ∧ timeOf r ≤ timeOf s) :
    latestOf rows = rows.getLast?.map fun r =>
      (intCell (r.cell "version"), instantCell (r.cell "recorded_at")) := by
  have hpairs : (rows.map fun r =>
      (intCell (r.cell "version"), instantCell (r.cell "recorded_at"))).Pairwise fun a b =>
        a.1 ≤ b.1 ∧ a.2.micros ≤ b.2.micros := List.pairwise_map.mpr h
  rw [← List.getLast?_map]
  unfold latestOf
  split
  · next e => rw [e]; rfl
  · next p ps e =>
    rw [e] at hpairs ⊢
    exact foldl_latest p ps hpairs

namespace Regular

variable {db : Database} (h : Regular db) (kind : Kind) (id : Int)

include h

theorem pairwise_rowsOf : (rowsOf db kind id).Pairwise fun r s =>
    intCell (r.cell "version") < intCell (s.cell "version") ∧ timeOf r ≤ timeOf s := by
  refine List.Pairwise.and ?_ (h.times kind id)
  have hv := congrArg (List.map intCell) (h.versions kind id)
  rw [List.map_map, List.map_map] at hv
  have hrange : ((List.range (rowsOf db kind id).length).map
      (intCell ∘ fun k : Nat => Cell.int (k + 1))).Pairwise (· < ·) := by
    rw [List.pairwise_map]
    refine List.pairwise_lt_range.imp fun {a b} hab => ?_
    simp only [Function.comp, intCell]
    omega
  rw [← hv] at hrange
  exact List.pairwise_map.mp hrange

theorem latestOf_rowsOf : latestOf (rowsOf db kind id) = (rowsOf db kind id).getLast?.map fun r =>
    (intCell (r.cell "version"), instantCell (r.cell "recorded_at")) :=
  latestOf_of_ordered ((h.pairwise_rowsOf kind id).imp fun hlt => ⟨Int.le_of_lt hlt.1, hlt.2⟩)

/-- Versions are counted from one. -/
theorem nextVersion_eq : nextVersion db kind id = (rowsOf db kind id).length + 1 := by
  have hlast := congrArg List.getLast? (h.versions kind id)
  rw [List.getLast?_map, List.getLast?_map, List.getLast?_range] at hlast
  rw [nextVersion, h.latestOf_rowsOf kind id]
  rcases List.eq_nil_or_concat (rowsOf db kind id) with e | ⟨init, r, e⟩
  · rw [e]
    rfl
  · rw [e, List.concat_eq_append] at hlast ⊢
    rw [List.getLast?_concat, Option.map_some, List.length_append, List.length_singleton,
      if_neg (by omega), Option.map_some, Option.some.injEq] at hlast
    rw [List.getLast?_concat]
    simp [hlast, intCell]

/-- An entry is late if any entry of the entity was recorded after its time. -/
theorem isLate_iff (time : Instant) :
    IsLate db kind id time ↔ ∃ r ∈ rowsOf db kind id, time.micros < timeOf r := by
  rw [IsLate, h.latestOf_rowsOf kind id]
  constructor
  · rintro ⟨version, last, hl, hlt⟩
    obtain ⟨r, hr, e⟩ := Option.map_eq_some_iff.mp hl
    cases e
    exact ⟨r, List.mem_of_getLast? hr, hlt⟩
  · rintro ⟨r, hr, hlt⟩
    rcases List.eq_nil_or_concat (rowsOf db kind id) with e | ⟨init, l, e⟩
    · rw [e] at hr
      cases hr
    · rw [List.concat_eq_append] at e
      have hpair := h.times kind id
      rw [e] at hr hpair ⊢
      refine ⟨_, _, by rw [List.getLast?_concat]; rfl, ?_⟩
      rcases List.mem_append.mp hr with hr | hr
      · exact Nat.lt_of_lt_of_le hlt
          ((List.pairwise_append.mp hpair).2.2 r hr l List.mem_cons_self)
      · cases List.mem_singleton.mp hr
        exact hlt

end Regular

/-! ## Lines and payloads -/

namespace Regular

variable {db : Database} (h : Regular db)

include h

theorem exists_times (kind : Kind) (id : Int) : ∃ times : List Instant,
    (rowsOf db kind id).map (·.cell "recorded_at") = times.map Cell.instant ∧
      times.Pairwise fun i j => i.micros ≤ j.micros := by
  refine ⟨(rowsOf db kind id).map fun r => instantCell (r.cell "recorded_at"), ?_, ?_⟩
  · rw [List.map_map]
    refine List.map_congr_left fun r hr => ?_
    obtain ⟨version, dataId, time, e⟩ := h.exists_of_mem_rowsOf hr
    rw [e]
    simp [instantCell]
  · rw [List.pairwise_map]
    exact h.times kind id

/-- Every line belongs to an entity and leads to a payload. -/
theorem exists_payload {r : Row} (hr : r ∈ db.tableRows Schema.journals) :
    ∃ (kind : Kind) (id : Int), r ∈ rowsOf db kind id ∧
      ∃ data ∈ db.tableRows kind.journal, r.cell "data_id" = data.cell "id" := by
  obtain ⟨kind, id, version, dataId, time, e⟩ := h.lines r hr
  have hdata : r.cell "data_id" ∈ (db.tableRows kind.journal).map (·.cell "id") := by
    rw [← h.links kind]
    exact List.mem_map_of_mem (List.mem_filter.mpr ⟨hr, by rw [e]; simp⟩)
  obtain ⟨data, hd, hid⟩ := List.mem_map.mp hdata
  refine ⟨kind, id, List.mem_filter.mpr ⟨hr, ?_⟩, data, hd, hid.symm⟩
  rw [e]
  simp

/-- No two lines of a kind lead to one payload. -/
theorem pairwise_data (kind : Kind) :
    (linesOf db kind).Pairwise fun r s => r.cell "data_id" ≠ s.cell "data_id" := by
  have hids : ((db.tableRows kind.journal).map (·.cell "id")).Pairwise (· ≠ ·) := by
    rw [List.pairwise_map]
    refine (h.sound.ordered _ kind.journal_mem).imp_of_mem fun {r s} hr hs hlt => ?_
    rw [(h.sound.fits _ kind.journal_mem r hr).number,
      (h.sound.fits _ kind.journal_mem s hs).number, ne_eq, Cell.int.injEq]
    exact Int.ne_of_lt hlt
  rw [← h.links kind, List.pairwise_map] at hids
  exact hids

/-- Every payload has a line. -/
theorem exists_line {kind : Kind} {data : Row} (hd : data ∈ db.tableRows kind.journal) :
    ∃ id, ∃ r ∈ rowsOf db kind id, r.cell "data_id" = data.cell "id" := by
  have hdata : data.cell "id" ∈ (linesOf db kind).map (·.cell "data_id") := by
    rw [h.links kind]
    exact List.mem_map_of_mem hd
  obtain ⟨r, hr, hid⟩ := List.mem_map.mp hdata
  obtain ⟨hm, hk⟩ := List.mem_filter.mp hr
  obtain ⟨k, id, version, dataId, time, e⟩ := h.lines r hm
  refine ⟨id, r, List.mem_filter.mpr ⟨hm, ?_⟩, hid⟩
  rw [Bool.and_eq_true]
  refine ⟨hk, ?_⟩
  rw [e]
  simp

end Regular

/-! ## Changes keep journals regular -/

theorem linesOf_appended (db : Database) (kind : Kind) (id : Int)
    (payload : List (String × Value)) (time clock : Instant) (k : Kind) :
    linesOf (appended db kind id payload time clock) k =
      linesOf db k ++ if k = kind then [nextLine db kind id time] else [] := by
  rw [linesOf, tableRows_appended_journals, List.filter_append, linesOf,
    List.append_cancel_left_eq, List.filter_singleton]
  have hcond : (Cell.text kind.name == Cell.text k.name) = true ↔ k = kind := by
    rw [beq_iff_eq, Cell.text.injEq]
    exact ⟨fun e => Kind.name_injective e.symm, fun e => congrArg Kind.name e.symm⟩
  simp only [nextLine, cell_line_kind, Bool.cond_eq_ite, hcond]

namespace Regular

variable {db db' : Database}

/-- An entry that is not late is the next version. -/
theorem appended (h : Regular db) {kind : Kind} {id : Int} {payload : List (String × Value)}
    {time clock : Instant} (hlate : ¬IsLate db kind id time)
    (hs : (Journal.appended db kind id payload time clock).Sound) :
    Regular (Journal.appended db kind id payload time clock) where
  sound := hs
  lines r hr := by
    rw [tableRows_appended_journals] at hr
    rcases List.mem_append.mp hr with hr | hr
    · exact h.lines r hr
    · cases List.mem_singleton.mp hr
      exact ⟨kind, id, _, _, time, rfl⟩
  counted := by
    rw [tableRows_appended_journals]
    exact h.counted.append rfl
  payloads k := by
    by_cases hk : k = kind
    · rw [hk, tableRows_appended_payload]
      exact (h.payloads kind).append (id_nextPayload db kind payload clock)
    · rw [tableRows_appended_of_ne _ _ _ _ _ _ k.journal_mem k.journal_ne_journals
        fun e => hk (Kind.journal_injective e)]
      exact h.payloads k
  links k := by
    rw [linesOf_appended]
    by_cases hk : k = kind
    · rw [hk, if_pos rfl, tableRows_appended_payload, List.map_append, List.map_append, h.links]
      simp [nextLine, cell_id_nextPayload]
    · rw [if_neg hk, List.append_nil, tableRows_appended_of_ne _ _ _ _ _ _ k.journal_mem
        k.journal_ne_journals fun e => hk (Kind.journal_injective e)]
      exact h.links k
  versions k i := by
    rw [rowsOf_appended]
    split
    · next e =>
      obtain ⟨rfl, rfl⟩ := e
      rw [List.map_append, h.versions, List.length_append, List.length_singleton, List.range_succ,
        List.map_append]
      simp [nextLine, h.nextVersion_eq]
    · rw [List.append_nil]
      exact h.versions k i
  times k i := by
    rw [rowsOf_appended]
    split
    · next e =>
      obtain ⟨rfl, rfl⟩ := e
      refine List.pairwise_append.mpr ⟨h.times k i, List.pairwise_singleton _ _, ?_⟩
      intro r hr s hs
      cases List.mem_singleton.mp hs
      have hle : ¬time.micros < timeOf r := fun hlt => hlate ((h.isLate_iff k i time).mpr ⟨r, hr, hlt⟩)
      exact Nat.le_of_not_lt hle
    · rw [List.append_nil]
      exact h.times k i

theorem append (h : Regular db) {kind : Kind} {id : Int} {payload : List (String × Value)}
    {time clock : Instant} {entry : Entry} (hk : ∀ f ∈ payload, f.1 ∈ kind.payload)
    (ht : time.micros < Instant.bound)
    (ha : Journal.append kind id payload time clock db = .ok (entry, db')) : Regular db' := by
  have hs := sound_of_append h.sound ha
  obtain ⟨hlate, -, -, -, -, rfl⟩ :=
    (append_eq_ok_iff h.sound h.counted (h.payloads kind) hk ht).mp ha
  exact h.appended hlate hs

/-- Whatever happens to the store, its journals stay regular. -/
theorem change (h : Regular db) (hc : Change db db') : Regular db' := by
  cases hc with
  | opened => exact h.of_same h.sound.opened rfl fun _ => rfl
  | inserted hi =>
    obtain ⟨hs, rows, rfl⟩ := Entity.sound_of_insertInto h.sound hi
    exact h.setRows_live hs
  | saved hi =>
    obtain ⟨hs, rfl | ⟨rows, rfl⟩⟩ := Entity.sound_of_saveInto h.sound hi
    · exact h
    · exact h.setRows_live hs
  | appended hu ht ha => exact h.append ((unknownNames_isEmpty_iff _ _).mp hu) ht ha

end Regular

end Journal

namespace Database

theorem Reached.regular {db : Database} (h : Reached db) : Journal.Regular db :=
  h.induction .empty fun h hc => h.change hc

end Database

/-! ## Journals only grow -/

namespace Journal

/-- No row of a journal is changed or removed, and new ones come behind them. -/
structure Grows (db db' : Database) : Prop where
  lines : db.tableRows Schema.journals <+: db'.tableRows Schema.journals
  payloads : ∀ kind : Kind, db.tableRows kind.journal <+: db'.tableRows kind.journal

namespace Grows

variable {db db' db'' : Database}

theorem refl (db : Database) : Grows db db := ⟨List.prefix_rfl, fun _ => List.prefix_rfl⟩

theorem trans (h : Grows db db') (h' : Grows db' db'') : Grows db db'' :=
  ⟨h.lines.trans h'.lines, fun kind => (h.payloads kind).trans (h'.payloads kind)⟩

theorem of_same (hj : db'.tableRows Schema.journals = db.tableRows Schema.journals)
    (hp : ∀ kind : Kind, db'.tableRows kind.journal = db.tableRows kind.journal) : Grows db db' :=
  ⟨hj ▸ List.prefix_rfl, fun kind => hp kind ▸ List.prefix_rfl⟩

theorem setRows_live (kind : Kind) (rows : List Row) : Grows db (db.setRows kind.table rows) :=
  of_same (journals_setRows_live db kind rows) (payload_setRows_live db kind rows)

theorem appended (db : Database) (kind : Kind) (id : Int) (payload : List (String × Value))
    (time clock : Instant) : Grows db (Journal.appended db kind id payload time clock) := by
  refine ⟨?_, fun k => ?_⟩
  · rw [tableRows_appended_journals]
    exact List.prefix_append _ _
  · by_cases hk : k = kind
    · rw [hk, tableRows_appended_payload]
      exact List.prefix_append _ _
    · have same := tableRows_appended_of_ne db kind id payload time clock k.journal_mem
        k.journal_ne_journals fun e => hk (Kind.journal_injective e)
      exact same ▸ List.prefix_rfl

/-- Whatever happens to the store, its journals only grow. -/
theorem change (h : Regular db) (hc : Change db db') : Grows db db' := by
  cases hc with
  | opened => exact of_same rfl fun _ => rfl
  | inserted hi =>
    obtain ⟨-, rows, rfl⟩ := Entity.sound_of_insertInto h.sound hi
    exact setRows_live _ rows
  | saved hi =>
    obtain ⟨-, rfl | ⟨rows, rfl⟩⟩ := Entity.sound_of_saveInto h.sound hi
    · exact refl _
    · exact setRows_live _ rows
  | appended hu ht ha =>
    obtain ⟨-, -, -, -, -, rfl⟩ := (append_eq_ok_iff h.sound h.counted (h.payloads _)
      ((unknownNames_isEmpty_iff _ _).mp hu) ht).mp ha
    exact appended _ _ _ _ _ _

end Grows

end Journal

namespace Database

theorem Reached.grows {db : Database} (h : Reached db) (calls : List Call) :
    Journal.Grows db (calls.foldl (fun db c => c.after db) db) := by
  have hboth : Journal.Regular (calls.foldl (fun db c => c.after db) db) ∧
      Journal.Grows db (calls.foldl (fun db c => c.after db) db) :=
    foldl_after_induction (p := fun db' => Journal.Regular db' ∧ Journal.Grows db db')
      (fun hp hc => ⟨hp.1.change hc, hp.2.trans (.change hp.1 hc)⟩) calls
      ⟨h.regular, .refl db⟩
  exact hboth.2

/-- After any calls, the versions of every entity are counted from one and its times do not
descend; the lines of a kind and its payload rows belong together one to one; and no call that
follows changes or removes a row of a journal. -/
theorem journals_after (calls more : List Call) :
    (∀ (kind : Kind) (id : Int), (Journal.rowsOf (after calls) kind id).map (·.cell "version") =
      (List.range (Journal.rowsOf (after calls) kind id).length).map fun k : Nat =>
        Cell.int (k + 1)) ∧
    (∀ (kind : Kind) (id : Int), ∃ times : List Instant,
      (Journal.rowsOf (after calls) kind id).map (·.cell "recorded_at") = times.map Cell.instant ∧
        times.Pairwise fun i j => i.micros ≤ j.micros) ∧
    (∀ r ∈ (after calls).tableRows Schema.journals, ∃ (kind : Kind) (id : Int),
      r ∈ Journal.rowsOf (after calls) kind id ∧
        ∃ data ∈ (after calls).tableRows kind.journal, r.cell "data_id" = data.cell "id") ∧
    (∀ kind : Kind, (((after calls).tableRows Schema.journals).filter fun r =>
      r.cell "entity_type" == .text kind.name).Pairwise fun r s =>
        r.cell "data_id" ≠ s.cell "data_id") ∧
    (∀ kind : Kind, ∀ data ∈ (after calls).tableRows kind.journal, ∃ id,
      ∃ r ∈ Journal.rowsOf (after calls) kind id, r.cell "data_id" = data.cell "id") ∧
    (after calls).tableRows Schema.journals <+: (after (calls ++ more)).tableRows Schema.journals ∧
    ∀ kind : Kind,
      (after calls).tableRows kind.journal <+: (after (calls ++ more)).tableRows kind.journal := by
  have hreached : Reached (after calls) := ⟨calls, rfl⟩
  have h := hreached.regular
  have hgrows := hreached.grows more
  rw [← after_append] at hgrows
  exact ⟨h.versions, h.exists_times, fun r hr => h.exists_payload hr, h.pairwise_data,
    fun kind data hd => h.exists_line hd, hgrows.lines, hgrows.payloads⟩

end Database

end Chronicle
