import Chronicle.Proofs.Journal.Regular

/-!
# Timelines

Recording an entry puts it at the end of the timeline of its entity.  What was read at an earlier
instant is read again, and no other timeline changes.

* `Journal.answer_entries`, `Journal.answer_entryAt`: reads are about the entries of an entity;
* `Journal.entriesIn_appended`: the entries of all entities after one more has been appended;
* `Journal.record_extends_timeline`: when an entry is refused for its time, and what is read after
  an entry has been recorded or refused.
-/

namespace Chronicle

open Chronicle.Calendar

/-! ## Values of columns -/

namespace ColumnType

/-- Empty values, and those of the type of a column.  Moments are left out, as they come back
without their offsets. -/
inductive Admits : ColumnType → Value → Prop
  | null (t : ColumnType) : Admits t .null
  | int (i : Int) : Admits .integer (.int i)
  | text (s : String) : Admits .text (.text s)
  | bool (b : Bool) : Admits .boolean (.bool b)

/-- Such a value comes back as it was put in. -/
theorem toScalar_of_admits {t : ColumnType} {v : Value} (h : t.Admits v) {c : Cell}
    (hb : (Binding.intoColumn t).bind v = .cell c) :
    Value.scalar ((c.under t.affinity).toScalar t) = v := by
  cases h with
  | null =>
    have hc : c = .null := by cases t <;> exact (Bound.cell.inj hb).symm
    subst hc
    cases t <;> rfl
  | int i =>
    have hb : (if Cell.isStorable i then Bound.cell (.int i) else .refused .integerOutOfRange) =
      .cell c := hb
    split at hb
    · cases hb
      rfl
    · cases hb
  | text s =>
    cases hb
    rfl
  | bool b =>
    cases hb
    cases b <;> rfl

end ColumnType

/-- A usual value that is no time does not depend on the clock. -/
theorem Column.usual_of_ne_instant {c : Column} (h : c.type ≠ .instant) (clock : Instant) :
    c.usual clock = c.usual default ∧ c.type.Admits (.scalar (c.usual clock)) := by
  unfold usual
  split
  · contradiction
  · next ht => exact ⟨rfl, ht ▸ .bool true⟩
  · next ht =>
    refine ⟨rfl, ?_⟩
    rw [ht]
    split
    · exact .text "new"
    · split
      · exact .text "normal"
      · exact .null _
  · next ht => exact ⟨rfl, .null _⟩

namespace Kind

/-- What an attribute is in a payload that does not give it. -/
def usual (k : Kind) (name : String) : Value :=
  ((k.journal.column? name).map fun c => Value.scalar (c.usual default)).getD .null

/-- The values of a payload are of the types of their columns. -/
def Admits (k : Kind) (payload : List (String × Value)) : Prop :=
  ∀ c ∈ k.journal.columns, ∀ v, payload.lookup c.name = some v → c.type.Admits v

/-- The attributes in the order of their columns. -/
theorem payload_eq (k : Kind) :
    k.payload = (k.journal.columns.filter fun c => c.name != "id").map (·.name) := by
  cases k <;> decide

theorem column?_journal (k : Kind) {c : Column} (hc : c ∈ k.journal.columns) :
    k.journal.column? c.name = some c := by
  revert c
  cases k <;> decide

theorem type_ne_instant (k : Kind) {c : Column} (hc : c ∈ k.journal.columns) :
    c.type ≠ .instant := by
  revert c
  cases k <;> decide

/-- Payloads have no times, so no usual value of a payload depends on the clock. -/
theorem usual_eq (k : Kind) {c : Column} (hc : c ∈ k.journal.columns) (clock : Instant) :
    k.usual c.name = Value.scalar (c.usual clock) := by
  rw [usual, k.column?_journal hc, Option.map_some, Option.getD_some,
    (Column.usual_of_ne_instant (k.type_ne_instant hc) clock).1]

end Kind

namespace Database

/-- The value of an attribute in a payload, given or not, is of the type of its column. -/
theorem valueOf_payload {k : Kind} {payload : List (String × Value)} (h : k.Admits payload)
    (clock : Instant) {c : Column} (hc : c ∈ k.journal.columns) :
    valueOf k.journal payload clock c.name = (payload.lookup c.name).getD (k.usual c.name) ∧
      c.type.Admits (valueOf k.journal payload clock c.name) := by
  unfold valueOf
  split
  · next v hv => exact ⟨by rw [hv]; rfl, h c hc v hv⟩
  · next hv =>
    rw [hv, k.column?_journal hc]
    exact ⟨(k.usual_eq hc clock).symm, (Column.usual_of_ne_instant (k.type_ne_instant hc) clock).2⟩

end Database

/-! ## Reads -/

/-- What an action answers on a store. -/
def Action.answer {α : Type} (a : Action α) (db : Database) : Except Failure α := (a.run db).1

namespace Journal

/-- A number that the store has no room for is refused, whatever is asked of it. -/
def ifStorable {α : Type} (id : Int) (x : α) : Except Failure α :=
  if Cell.isStorable id then .ok x else .error .integerOutOfRange

/-- A read for a number answers from the rows of the store. -/
theorem answer_read {α : Type} (id : Int) (f : Database → α) (db : Database) :
    (do
      Action.openCore
      Action.checkNumber id
      return f (← get) : Action α).answer db = ifStorable id (f db.opened) := by
  rw [Action.answer, Action.run_openCore_checkNumber, ifStorable]
  split <;> rfl

section Answers

variable (db : Database) (kind : Kind) (id : Int)

theorem answer_entries :
    (entries kind id).answer db = ifStorable id (entriesIn db kind id) :=
  answer_read id (fun db => entriesIn db kind id) db

theorem answer_latest :
    (latest kind id).answer db = ifStorable id (entriesIn db kind id).getLast? := by
  unfold latest entries
  simp only [bind_assoc, pure_bind]
  exact answer_read id (fun db => (entriesIn db kind id).getLast?) db

theorem answer_entryAt (timestamp : Value) (now : Option Moment) (clock : Instant) :
    (entryAt kind id timestamp now clock).answer db =
      (timestamp.toTimestamp.bind fun t => t.resolveAt now clock).bind fun i =>
        ifStorable id (entryAtIn db kind id i) := by
  unfold entryAt
  rw [Action.answer, Action.run_bind, Action.run_lift]
  cases timestamp.toTimestamp with
  | error f => rfl
  | ok t =>
    simp only [Except.bind]
    rw [Action.run_bind, Action.run_lift]
    cases t.resolveAt now clock with
    | error f => rfl
    | ok i => exact answer_read id (fun db => entryAtIn db kind id i) db

variable {db kind id} in
/-- An entry is answered where the timestamp denotes an instant and the store has room for the
number: the one that holds at this instant. -/
theorem answer_entryAt_eq_ok_iff {timestamp : Value} {now : Option Moment} {clock : Instant}
    {found : Option Entry} : (entryAt kind id timestamp now clock).answer db = .ok found ↔
      ∃ t i, timestamp.toTimestamp = .ok t ∧ t.resolveAt now clock = .ok i ∧
        Cell.isStorable id = true ∧ entryAtIn db kind id i = found := by
  rw [answer_entryAt]
  constructor
  · intro h
    obtain ⟨i, hi, h⟩ := bind_eq_ok_iff.mp h
    obtain ⟨t, ht, hi⟩ := bind_eq_ok_iff.mp hi
    unfold ifStorable at h
    split at h
    · next hid => exact ⟨t, i, ht, hi, hid, Except.ok.inj h⟩
    · cases h
  · rintro ⟨t, i, ht, hi, hid, rfl⟩
    rw [ht, Except.bind, hi, Except.bind, ifStorable, if_pos hid]

end Answers

/-- The journal of an entity answers all reads as it did before. -/
structure SameReads (db db' : Database) (kind : Kind) (id : Int) : Prop where
  entries : (entries kind id).answer db' = (entries kind id).answer db
  latest : (latest kind id).answer db' = (latest kind id).answer db
  entryAt : ∀ (timestamp : Value) (now : Option Moment) (clock : Instant),
    (entryAt kind id timestamp now clock).answer db' =
      (entryAt kind id timestamp now clock).answer db

theorem sameReads_of_entriesIn {db db' : Database} {kind : Kind} {id : Int}
    (h : entriesIn db' kind id = entriesIn db kind id) : SameReads db db' kind id where
  entries := by rw [answer_entries, answer_entries, h]
  latest := by rw [answer_latest, answer_latest, h]
  entryAt timestamp now clock := by
    rw [answer_entryAt, answer_entryAt]
    simp only [entryAtIn, h]

/-! ## Entries of regular journals -/

/-- Entries are read from the tables of the journal alone. -/
theorem entriesIn_of_same {db db' : Database}
    (hj : db'.tableRows Schema.journals = db.tableRows Schema.journals)
    (hp : ∀ k : Kind, db'.tableRows k.journal = db.tableRows k.journal) (kind : Kind) (id : Int) :
    entriesIn db' kind id = entriesIn db kind id := by
  have hfind : entryOf? db' kind = entryOf? db kind := by
    funext r
    rw [entryOf?, entryOf?, Database.find?, Database.find?, hp]
  rw [entriesIn, entriesIn, rowsOf, rowsOf, hj, hfind]

/-- Lines stand in the order of their versions, so nothing is left to sort. -/
theorem Regular.entriesIn_eq {db : Database} (h : Regular db) (kind : Kind) (id : Int) :
    entriesIn db kind id = (rowsOf db kind id).filterMap (entryOf? db kind) := by
  apply List.mergeSort_of_pairwise
  rw [List.pairwise_filterMap]
  refine (h.pairwise_rowsOf kind id).imp fun {r s} hlt => ?_
  intro a ha b hb
  obtain ⟨da, -, rfl⟩ := Option.map_eq_some_iff.mp ha
  obtain ⟨dsb, -, rfl⟩ := Option.map_eq_some_iff.mp hb
  exact decide_eq_true (Int.le_of_lt hlt.1)

/-- The payload of a line is found by its number. -/
theorem Regular.find?_payload {db : Database} (h : Regular db) {kind : Kind} {id : Int} {r : Row}
    (hr : r ∈ rowsOf db kind id) :
    ∃ data ∈ db.tableRows kind.journal,
      db.find? kind.journal (intCell (r.cell "data_id")) = some data := by
  obtain ⟨version, dataId, time, e⟩ := h.exists_of_mem_rowsOf hr
  have hlink : r.cell "data_id" ∈ (db.tableRows kind.journal).map (·.cell "id") := by
    rw [← h.links kind]
    refine List.mem_map_of_mem (List.mem_filter.mpr ⟨(List.mem_filter.mp hr).1, ?_⟩)
    rw [e]
    simp
  obtain ⟨data, hd, hid⟩ := List.mem_map.mp hlink
  have hfound : (db.find? kind.journal (intCell (r.cell "data_id"))).isSome := by
    rw [Database.find?, List.find?_isSome]
    refine ⟨data, hd, ?_⟩
    rw [hid, e]
    simp [intCell]
  obtain ⟨found, hf⟩ := Option.isSome_iff_exists.mp hfound
  exact ⟨found, List.mem_of_find?_eq_some hf, hf⟩

/-- The entry with the usual values of the attributes that were not given. -/
def completed (e : Entry) : Entry :=
  { e with payload := e.kind.payload.map fun n => (n, (e.payload.lookup n).getD (e.kind.usual n)) }

theorem lookup_filterMap_names {f : String → Option Value} {n : String} {ns : List String}
    (hn : n ∈ ns) : (ns.filterMap fun m => (f m).map fun v => (m, v)).lookup n = f n := by
  induction ns with
  | nil => cases hn
  | cons m ns ih =>
    by_cases hm : n = m
    · subst hm
      cases hf : f n with
      | some v => simp [hf]
      | none =>
        rw [List.filterMap_cons_none (by simp [hf]), List.lookup_eq_none_iff]
        intro p hp
        obtain ⟨k, -, hk⟩ := List.mem_filterMap.mp hp
        obtain ⟨v, hv, rfl⟩ := Option.map_eq_some_iff.mp hk
        rw [bne_iff_ne]
        rintro rfl
        rw [hf] at hv
        cases hv
    · have hmem : n ∈ ns := (List.mem_cons.mp hn).resolve_left hm
      cases hf : f m with
      | none => rw [List.filterMap_cons_none (by simp [hf]), ih hmem]
      | some v =>
        have hb : (n == m) = false := by simpa using hm
        rw [List.filterMap_cons_some (by simp [hf]; rfl), List.lookup_cons, hb]
        exact ih hmem

section Appended

variable {db : Database} {kind : Kind} {id : Int} {payload : List (String × Value)}
  {time clock : Instant}

/-- The payloads of lines that were there before are found as before. -/
theorem entryOf?_appended (h : Regular db) {k : Kind} {i : Int} {r : Row}
    (hr : r ∈ rowsOf db k i) :
    entryOf? (appended db kind id payload time clock) k r = entryOf? db k r := by
  obtain ⟨data, -, hfound⟩ := h.find?_payload hr
  have hsame : (appended db kind id payload time clock).find? k.journal
      (intCell (r.cell "data_id")) = some data := by
    by_cases hk : k = kind
    · subst hk
      rw [Database.find?, tableRows_appended_payload, List.find?_append]
      rw [Database.find?] at hfound
      rw [hfound, Option.some_or]
    · rw [Database.find?, tableRows_appended_of_ne _ _ _ _ _ _ k.journal_mem k.journal_ne_journals
        fun e => hk (Kind.journal_injective e)]
      exact hfound
  rw [entryOf?, entryOf?, hsame, hfound]

/-- The entry of the new line is what recording it has answered, with its attributes complete. -/
theorem entryOf?_nextLine (h : Regular db) (ht : TakesPayload kind payload clock)
    (ha : kind.Admits payload) :
    entryOf? (appended db kind id payload time clock) kind (nextLine db kind id time) =
      some (completed (receipt db kind id payload time)) := by
  have hfind : (appended db kind id payload time clock).find? kind.journal
      ((db.tableRows kind.journal).length + 1) = some (nextPayload db kind payload clock) := by
    rw [Database.find?, tableRows_appended_payload, List.find?_append, List.find?_eq_none.mpr]
    · simp [cell_id_nextPayload]
    · intro r hr hid
      have hlt := Database.lt_nextId hr
      rw [(h.payloads kind).nextId] at hlt
      rw [(h.sound.fits _ kind.journal_mem r hr).number, beq_iff_eq, Cell.int.injEq] at hid
      omega
  have hattributes : ((kind.journal.columns.filter fun c => c.name != "id").map fun c =>
      (c.name, Value.scalar (((nextPayload db kind payload clock).cell c.name).toScalar c.type))) =
      (completed (receipt db kind id payload time)).payload := by
    rw [completed, receipt, kind.payload_eq, List.map_map]
    refine List.map_congr_left fun c hc => ?_
    obtain ⟨hc', hid⟩ := List.mem_filter.mp hc
    obtain ⟨hvalue, hadmits⟩ := Database.valueOf_payload ha clock hc'
    obtain ⟨x, hx⟩ := ht.1 c hc'
    rw [Function.comp, lookup_filterMap_names (List.mem_map_of_mem hc), ← hvalue,
      cell_nextPayload db payload clock hc' (bne_iff_ne.mp hid), Database.boundCell, hx]
    exact congrArg (Prod.mk c.name) (ColumnType.toScalar_of_admits hadmits hx)
  rw [entryOf?, nextLine, cell_line_data, intCell, hfind, Option.map_some, entryOfRows,
    hattributes]
  rfl

/-- An entry that is appended comes last in its timeline, and no other timeline changes. -/
theorem entriesIn_appended (h : Regular db)
    (h' : Regular (appended db kind id payload time clock)) (ht : TakesPayload kind payload clock)
    (ha : kind.Admits payload) (k : Kind) (i : Int) :
    entriesIn (appended db kind id payload time clock) k i =
      entriesIn db k i ++
        if k = kind ∧ i = id then [completed (receipt db kind id payload time)] else [] := by
  rw [h'.entriesIn_eq, h.entriesIn_eq, rowsOf_appended, List.filterMap_append]
  congr 1
  · exact List.filterMap_congr fun r hr => entryOf?_appended h hr
  · split
    · next e =>
      obtain ⟨rfl, rfl⟩ := e
      rw [List.filterMap_cons_some (entryOf?_nextLine h ht ha), List.filterMap_nil]
    · rfl

end Appended

/-- With one more entry at the end, the entry that holds changes from the time of that entry on. -/
theorem entryAtIn_of_snoc {db db' : Database} {kind : Kind} {id : Int} {e : Entry}
    (h : entriesIn db' kind id = entriesIn db kind id ++ [e]) (i : Instant) :
    (e.recordedAt.micros ≤ i.micros → entryAtIn db' kind id i = some e) ∧
      (i.micros < e.recordedAt.micros → entryAtIn db' kind id i = entryAtIn db kind id i) := by
  rw [entryAtIn, entryAtIn, h, List.filter_append]
  constructor
  · intro hle
    rw [List.filter_cons_of_pos (by simpa using hle), List.filter_nil, List.getLast?_concat]
  · intro hlt
    rw [List.filter_cons_of_neg (by simpa using hlt), List.filter_nil, List.append_nil]

/-! ## Recording -/

/-- The time at which an entry is recorded: the given one, or what the clock shows. -/
def recordingTime (recordedAt : Option Moment) (clock : Instant) : Except Failure Instant :=
  match recordedAt with
  | some m => m.toInstant
  | none => .ok clock

theorem recordingTime_lt {recordedAt : Option Moment} {clock : WallClock} {time : Instant}
    (h : recordingTime recordedAt clock.instant = .ok time) : time.micros < Instant.bound := by
  cases recordedAt with
  | none => exact Except.ok.inj h ▸ clock.inCalendar
  | some m => exact Moment.toInstant_lt h

/-- Recording once the names and the time are known to be good. -/
def recordAt (kind : Kind) (id : Int) (payload : List (String × Value)) (time clock : Instant) :
    Action Entry := do
  Action.openCore
  Action.checkNumber id
  Action.change (append kind id payload time clock)

theorem record_eq (kind : Kind) (id : Int) (payload : List (String × Value))
    (recordedAt : Option Moment) (clock : Instant) :
    record kind id payload recordedAt clock =
      if (unknownNames kind payload).isEmpty then do
        recordAt kind id payload (← liftM (recordingTime recordedAt clock)) clock
      else throw (.unknownAttributes kind.name (unknownNames kind payload)) := by
  unfold record
  dsimp only
  cases (unknownNames kind payload).isEmpty with
  | false => rfl
  | true => cases recordedAt <;> rfl

theorem run_recordAt (kind : Kind) (id : Int) (payload : List (String × Value))
    (time clock : Instant) (db : Database) :
    (recordAt kind id payload time clock).run db =
      if Cell.isStorable id then (Action.change (append kind id payload time clock)).run db.opened
      else (.error .integerOutOfRange, db.opened) :=
  Action.run_openCore_checkNumber id _ db

section Record

variable {db db' : Database} {kind : Kind} {id : Int} {payload : List (String × Value)}
  {recordedAt : Option Moment} {clock : WallClock} {time : Instant} {answer : Except Failure Entry}

/-- There is room for the number of an entity that has entries. -/
theorem Regular.storable_of_mem_rowsOf (h : Regular db) {r : Row} (hr : r ∈ rowsOf db kind id) :
    Cell.isStorable id = true := by
  obtain ⟨version, dataId, at_, e⟩ := h.exists_of_mem_rowsOf hr
  have htakes := (h.sound.fits _ Schema.journals_mem r (List.mem_filter.mp hr).1).takes
    ⟨"entity_id", .integer, false⟩ (by decide) (by decide)
  rw [e] at htakes
  exact htakes

/-- An entry is late if an entry of the same entity was recorded after its time. -/
theorem Regular.isLate_iff_entries (h : Regular db) :
    IsLate db kind id time ↔ ∃ e ∈ entriesIn db kind id, time.micros < e.recordedAt.micros := by
  rw [h.isLate_iff]
  constructor
  · rintro ⟨r, hr, hlt⟩
    obtain ⟨data, -, hfound⟩ := h.find?_payload hr
    refine ⟨entryOfRows kind r data, (mem_entriesIn_iff _ _ _ _).mpr ⟨r, hr, ?_⟩, hlt⟩
    rw [entryOf?, hfound, Option.map_some]
  · rintro ⟨e, he, hlt⟩
    obtain ⟨r, hr, hfound⟩ := (mem_entriesIn_iff _ _ _ _).mp he
    obtain ⟨data, -, rfl⟩ := Option.map_eq_some_iff.mp hfound
    exact ⟨r, hr, hlt⟩

/-- Recording that fails keeps all rows. -/
theorem rows_of_record_error {present : Instant} {f : Failure}
    (hrun : (record kind id payload recordedAt present).run db = (.error f, db')) :
    db' = db ∨ db' = db.opened := by
  rw [record_eq] at hrun
  split at hrun
  · rw [Action.run_bind, Action.run_lift] at hrun
    cases ht : recordingTime recordedAt present with
    | error f' =>
      rw [ht] at hrun
      cases hrun
      exact Or.inl rfl
    | ok time =>
      rw [ht] at hrun
      simp only [run_recordAt, Action.run_change] at hrun
      split at hrun
      · split at hrun <;> cases hrun
        exact Or.inr rfl
      · cases hrun
        exact Or.inr rfl
  · cases hrun
    exact Or.inl rfl

/-- An entry is appended to the store, or the store keeps its rows; only a late entry is refused
for its time. -/
theorem record_cases (h : Regular db) (ht : recordingTime recordedAt clock.instant = .ok time)
    (hrun : (record kind id payload recordedAt clock.instant).run db = (answer, db')) :
    ((∀ f ∈ payload, f.1 ∈ kind.payload) ∧ ¬IsLate db kind id time ∧
      Cell.isStorable id = true ∧ TakesPayload kind payload clock.instant ∧
      answer = .ok (receipt db kind id payload time) ∧
      db' = appended db.opened kind id payload time clock.instant ∧ Regular db') ∨
    ((db' = db ∨ db' = db.opened) ∧ ∃ f, answer = .error f ∧
      (f.isOutOfOrder = true ↔
        (∀ g ∈ payload, g.1 ∈ kind.payload) ∧ IsLate db kind id time)) := by
  rw [record_eq] at hrun
  split at hrun
  · next hk =>
    rw [unknownNames_isEmpty_iff] at hk
    rw [Action.run_bind, Action.run_lift, ht] at hrun
    simp only [run_recordAt, Action.run_change] at hrun
    split at hrun
    · next hs =>
      split at hrun
      · next e db₁ ha =>
        cases hrun
        have hopened : Regular db.opened := h.of_same h.sound.opened rfl fun _ => rfl
        have hreg := hopened.append hk (recordingTime_lt ht) ha
        obtain ⟨hlate, htakes, -, -, rfl, rfl⟩ := (append_eq_ok_iff hopened.sound hopened.counted
          (hopened.payloads kind) hk (recordingTime_lt ht)).mp ha
        exact Or.inl ⟨hk, hlate, hs, htakes, rfl, rfl, hreg⟩
      · next f ha =>
        cases hrun
        have horder := append_error_iff ha
        exact Or.inr ⟨Or.inr rfl, f, rfl, horder.trans ⟨fun hl => ⟨hk, hl⟩, fun hl => hl.2⟩⟩
    · next hs =>
      cases hrun
      refine Or.inr ⟨Or.inr rfl, _, rfl, (fun hf => nomatch hf), ?_⟩
      rintro ⟨-, hl⟩
      obtain ⟨r, hr, -⟩ := (h.isLate_iff kind id time).mp hl
      exact absurd (h.storable_of_mem_rowsOf hr) hs
  · next hk =>
    rw [unknownNames_isEmpty_iff] at hk
    cases hrun
    exact Or.inr ⟨Or.inl rfl, _, rfl, (fun hf => nomatch hf), fun hf => absurd hf.1 hk⟩

/-- An entry is refused for its time just where its attributes are known and an entry of the same
entity was recorded later.  Once recorded, it is the last one, and the one that holds from its time
on; before that time, and for all other entities, every read answers as it did.  Where recording
fails, all reads answer as they did. -/
theorem record_extends_timeline (hdb : db.Reached) (ha : kind.Admits payload)
    (ht : recordingTime recordedAt clock.instant = .ok time)
    (hrun : (record kind id payload recordedAt clock.instant).run db = (answer, db')) :
    ((∃ f, answer = .error f ∧ f.isOutOfOrder = true) ↔
      (∀ f ∈ payload, f.1 ∈ kind.payload) ∧
        ∃ e ∈ entriesIn db kind id, time.micros < e.recordedAt.micros) ∧
    (∀ e, answer = .ok e →
      (e.kind = kind ∧ e.entityId = id ∧ e.recordedAt = time) ∧
      (entries kind id).answer db' = .ok (entriesIn db kind id ++ [completed e]) ∧
      (latest kind id).answer db' = .ok (some (completed e)) ∧
      (∀ (timestamp : Value) (now : Option Moment) (present i : Instant),
        (timestamp.toTimestamp.bind fun t => t.resolveAt now present) = .ok i →
        (time.micros ≤ i.micros →
          (entryAt kind id timestamp now present).answer db' = .ok (some (completed e))) ∧
        (i.micros < time.micros →
          (entryAt kind id timestamp now present).answer db' =
            (entryAt kind id timestamp now present).answer db)) ∧
      ∀ k j, ¬(k = kind ∧ j = id) → SameReads db db' k j) ∧
    (∀ f, answer = .error f → ∀ k j, SameReads db db' k j) := by
  have h := hdb.regular
  rcases record_cases h ht hrun with ⟨hk, hlate, hs, htakes, rfl, rfl, h'⟩ | ⟨hrows, f, rfl, horder⟩
  · have hopened : Regular db.opened := h.of_same h.sound.opened rfl fun _ => rfl
    have happ := entriesIn_appended hopened h' htakes ha
    have hself := happ kind id
    rw [if_pos ⟨rfl, rfl⟩] at hself
    refine ⟨⟨(fun hf => nomatch hf), ?_⟩, ?_, (fun f hf => nomatch hf)⟩
    · rintro ⟨-, hl⟩
      exact absurd (h.isLate_iff_entries.mpr hl) hlate
    intro e he
    cases he
    refine ⟨⟨rfl, rfl, rfl⟩, ?_, ?_, ?_, ?_⟩
    · rw [answer_entries, hself, ifStorable, if_pos hs]
      rfl
    · rw [answer_latest, hself, ifStorable, if_pos hs, List.getLast?_concat]
      rfl
    · intro timestamp now present i hi
      obtain ⟨hfrom, hbefore⟩ := entryAtIn_of_snoc hself i
      rw [answer_entryAt, answer_entryAt, hi, Except.bind, Except.bind]
      refine ⟨fun hle => ?_, fun hlt => ?_⟩
      · rw [hfrom hle, ifStorable, if_pos hs]
        rfl
      · rw [hbefore hlt]
        rfl
    · intro k j hne
      apply sameReads_of_entriesIn
      rw [happ k j, if_neg hne, List.append_nil]
      rfl
  · refine ⟨?_, (fun e he => nomatch he), fun _ _ k j => sameReads_of_entriesIn ?_⟩
    · rw [← h.isLate_iff_entries, ← horder]
      exact ⟨fun ⟨g, hg, ho⟩ => Except.error.inj hg ▸ ho, fun ho => ⟨f, rfl, ho⟩⟩
    · rcases hrows with rfl | rfl <;> rfl

end Record

/-- Noon of a day on a clock that is some microseconds ahead of UTC. -/
def noon (offset : Int) : Moment :=
  ⟨⟨2024, 5, 1, by decide, by decide, by decide⟩, 43200000000, some offset, by decide⟩

def firstDay : WallClock := ⟨⟨0⟩, by decide⟩

/-- A work package with an entry at noon in UTC. -/
def drafted : Database := .after
  [.record .workPackage 7 [("subject", .text "Draft")] (some (noon 0)) firstDay]

/-- One more entry at noon, on a clock an hour behind UTC. -/
def plan : Action Entry :=
  record .workPackage 7 [("subject", .text "Plan")] (some (noon (-3600000000))) firstDay.instant

theorem record_extends_timeline_at_noon :
    ∃ e db', plan.run drafted = (.ok e, db') ∧
      (latest .workPackage 7).answer db' = .ok (some (completed e)) := by
  have hadmits : Kind.workPackage.Admits [("subject", .text "Plan")] := by
    intro c hc v hv
    simp only [Kind.journal, Schema.workPackageJournals, List.mem_cons, List.not_mem_nil,
      or_false] at hc
    rcases hc with rfl | rfl | rfl | rfl | rfl | rfl <;> cases hv
    exact .text "Plan"
  obtain ⟨time, htime⟩ : ∃ time, recordingTime (some (noon (-3600000000))) firstDay.instant =
    .ok time := ⟨_, rfl⟩
  have hok : (plan.run drafted).1.toOption.isSome = true := by decide +kernel
  rcases hrun : plan.run drafted with ⟨answer, db'⟩
  rw [hrun] at hok
  cases answer with
  | error f => cases hok
  | ok e =>
    exact ⟨e, db', rfl, ((record_extends_timeline ⟨_, rfl⟩ hadmits htime hrun).2.1 e rfl).2.2.1⟩

end Journal

end Chronicle
