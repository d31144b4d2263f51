import Chronicle.Proofs.Journal.Timeline

/-!
# Entries that a journal refuses

A payload that fits is recorded unless its entry has no time, is late, or finds no room for its
numbers.  Nothing else can go wrong in a regular journal: the next version is always new.

* `Journal.Refuses`: the ways in which an entry is refused;
* `Journal.Regular.record_error_iff`: there are no others.
-/

namespace Chronicle

open Chronicle.Calendar

theorem Cell.eq_of_orderOf {α : Type} [LT α] [DecidableLT α] [DecidableEq α] {a b : α}
    (h : Cell.orderOf a b = .eq) : a = b := by
  unfold Cell.orderOf at h
  split at h
  · cases h
  · split at h
    · assumption
    · cases h

namespace Journal

variable {db : Database} {kind : Kind} {id : Int} {payload : List (String × Value)}

/-- The lines of an entity are no more than the payloads of its kind. -/
theorem Regular.length_rowsOf_le (h : Regular db) (kind : Kind) (id : Int) :
    (rowsOf db kind id).length ≤ (db.tableRows kind.journal).length := by
  have hlinks := congrArg List.length (h.links kind)
  rw [List.length_map, List.length_map] at hlinks
  have hrows : rowsOf db kind id = (linesOf db kind).filter (·.cell "entity_id" == .int id) := by
    simp only [rowsOf, linesOf, List.filter_filter, Bool.and_comm]
  rw [← hlinks, hrows]
  exact List.length_filter_le _ _

/-- The version after the last one is new. -/
theorem Regular.collides_nextLine (h : Regular db) (kind : Kind) (id : Int) (time : Instant) :
    ∀ s ∈ db.tableRows Schema.journals, Database.collides
      ["entity_type", "entity_id", "version"] (nextLine db kind id time) s = false := by
  intro s hs
  obtain ⟨k, i, version, dataId, at_, e⟩ := h.lines s hs
  rw [Bool.eq_false_iff]
  intro hc
  have hparts : kind.name = k.name ∧ id = i ∧ nextVersion db kind id = version := by
    rw [e] at hc
    simp only [Database.collides, nextLine, List.all_cons, List.all_nil, Bool.and_true,
      cell_line_kind, cell_line_entity, cell_line_version, Cell.isNull, Bool.not_false,
      Bool.true_and, Bool.and_eq_true, beq_iff_eq] at hc
    exact ⟨Cell.eq_of_orderOf hc.1, Cell.eq_of_orderOf hc.2.1, Cell.eq_of_orderOf hc.2.2⟩
  obtain ⟨hk, rfl, rfl⟩ := hparts
  cases Kind.name_injective hk
  have hmem : s ∈ rowsOf db kind id := List.mem_filter.mpr ⟨hs, by rw [e]; simp⟩
  have hversion : s.cell "version" ∈ (rowsOf db kind id).map (·.cell "version") :=
    List.mem_map_of_mem hmem
  rw [h.versions kind id, e, cell_line_version, h.nextVersion_eq] at hversion
  obtain ⟨n, hn, hv⟩ := List.mem_map.mp hversion
  have := List.mem_range.mp hn
  have := Cell.int.inj hv
  omega

/-- The journal of an entity does not take an entry: it has no time, it is late, or there is no
room for its numbers. -/
def Refuses (db : Database) (kind : Kind) (id : Int) (time : Except Failure Instant) : Prop :=
  (∃ f, time = .error f) ∨
    (∃ t, time = .ok t ∧ ∃ e ∈ entriesIn db kind id, t.micros < e.recordedAt.micros) ∨
    Cell.isStorable id = false ∨
    Cell.isStorable ((db.tableRows kind.journal).length + 1) = false

theorem refuses_of_same {db db' : Database}
    (hj : db'.tableRows Schema.journals = db.tableRows Schema.journals)
    (hp : ∀ k : Kind, db'.tableRows k.journal = db.tableRows k.journal) (kind : Kind) (id : Int)
    (time : Except Failure Instant) : Refuses db' kind id time ↔ Refuses db kind id time := by
  rw [Refuses, Refuses, entriesIn_of_same hj hp, hp]

theorem isStorable_of_le {m n : Nat} (h : Cell.isStorable ((n : Int) + 1) = true) (hle : m ≤ n) :
    Cell.isStorable ((m : Int) + 1) = true := by
  simp only [Cell.isStorable, Bool.and_eq_true, decide_eq_true_eq] at h ⊢
  omega

/-- An entry with good attributes is recorded unless the journal refuses it. -/
theorem Regular.record_error_iff (h : Regular db) (hk : ∀ f ∈ payload, f.1 ∈ kind.payload)
    {recordedAt : Option Moment} {clock : WallClock}
    (htakes : TakesPayload kind payload clock.instant) :
    (∃ f, ((record kind id payload recordedAt clock.instant).run db).1 = .error f) ↔
      Refuses db kind id (recordingTime recordedAt clock.instant) := by
  have hu := (unknownNames_isEmpty_iff kind payload).mpr hk
  rw [record_eq, if_pos hu, Action.run_bind, Action.run_lift]
  cases ht : recordingTime recordedAt clock.instant with
  | error f => exact ⟨fun _ => Or.inl ⟨f, rfl⟩, fun _ => ⟨f, rfl⟩⟩
  | ok time =>
    have hopened : Regular db.opened := h.of_same h.sound.opened rfl fun _ => rfl
    have hok : ∀ entry db', Journal.append kind id payload time clock.instant db.opened = .ok (entry, db') ↔
        _ := fun entry db' => append_eq_ok_iff hopened.sound hopened.counted
          (hopened.payloads kind) hk (recordingTime_lt ht)
    simp only [run_recordAt, Action.run_change]
    rw [Refuses]
    constructor
    · rintro ⟨f, hf⟩
      split at hf
      · next hs =>
        by_cases hlate : ∃ e ∈ entriesIn db kind id, time.micros < e.recordedAt.micros
        · exact Or.inr (Or.inl ⟨time, rfl, hlate⟩)
        · cases hroom : Cell.isStorable ((db.tableRows kind.journal).length + 1) with
          | false => exact Or.inr (Or.inr (Or.inr rfl))
          | true =>
            exfalso
            have hversion : Cell.isStorable (nextVersion db.opened kind id) = true := by
              rw [hopened.nextVersion_eq]
              exact isStorable_of_le hroom (h.length_rowsOf_le kind id)
            have hsuccess := (hok _ _).mpr ⟨fun hl => hlate (h.isLate_iff_entries.mp hl), htakes,
              ⟨hs, hversion, hroom⟩, hopened.collides_nextLine kind id time, rfl, rfl⟩
            rw [hsuccess] at hf
            cases hf
      · next hs => exact Or.inr (Or.inr (Or.inl (Bool.eq_false_iff.mpr hs)))
    · intro hrefuses
      split
      · next hs =>
        split
        · next entry db' ha =>
          exfalso
          obtain ⟨hlate, -, ⟨-, -, hroom⟩, -⟩ := (hok _ _).mp ha
          rcases hrefuses with ⟨f, hf⟩ | ⟨t, htime, hl⟩ | hid | hfull
          · cases hf
          · cases htime
            exact hlate (h.isLate_iff_entries.mpr hl)
          · rw [hs] at hid
            cases hid
          · have hroom : Cell.isStorable ((db.tableRows kind.journal).length + 1) = true := hroom
            rw [hfull] at hroom
            cases hroom
        · next f ha => exact ⟨f, rfl⟩
      · exact ⟨_, rfl⟩

end Journal

end Chronicle
