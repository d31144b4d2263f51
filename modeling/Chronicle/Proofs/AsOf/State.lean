import Chronicle.Proofs.Journal.Timeline
import Chronicle.Proofs.Statement.Lookup

/-!
# The state at an instant

The entry that holds at an instant is that of the last line recorded until then.  The condition under
which a query as of the instant joins a line to a payload finds just this line.

* `Journal.foundAt`: the line that holds for an entity, with its payload;
* `Journal.Regular.entryAtIn_eq`: its entry is the one that holds;
* `Journal.stateRow`, `Journal.stateAt`: the rows that a live table had at an instant;
* `Journal.Regular.validAt_iff`: the condition on a line and a payload.
-/

namespace Chronicle

open Chronicle.Calendar

/-! ## Comparisons of like cells -/

namespace Cell

theorem fits_eq_orderOf {α : Type} [LT α] [DecidableLT α] [DecidableEq α] (irrefl : ∀ a : α, ¬a < a)
    (a b : α) : fits .eq (orderOf a b) = decide (a = b) := by
  unfold orderOf
  split
  · next h => simp [fits, show a ≠ b from fun e => irrefl b (e ▸ h)]
  · split
    · next h => simp [fits, h]
    · next h => simp [fits, h]

theorem holds_int (a b : Int) (aff : Affinity) :
    (int a).holds .eq .numeric (int b) aff = some (decide (a = b)) := by
  have hunder : ∀ (i : Int), (int i).under .numeric = int i := fun _ => rfl
  have hshared : shared .numeric aff = .numeric := rfl
  simp only [holds, isNull, Bool.or_self, Bool.false_eq_true, if_false, hshared, hunder, compare,
    fits_eq_orderOf Int.lt_irrefl]

theorem holds_text (a b : String) (aff : Affinity) (h : aff ≠ .numeric) :
    (text a).holds .eq .text (text b) aff = some (decide (a = b)) := by
  have hunder : ∀ (s : String), (text s).under (shared .text aff) = text s := by
    intro s
    cases aff <;> first | rfl | contradiction
  simp only [holds, isNull, Bool.or_self, Bool.false_eq_true, if_false, hunder, compare, rank,
    if_true, asText, fits_eq_orderOf String.lt_irrefl]

theorem holds_instant (i j : Instant) :
    (instant i).holds .le .numeric (instant j) .none = some (decide (i.micros ≤ j.micros)) := by
  have hunder : ∀ (k : Instant), (instant k).under (shared .numeric .none) = instant k :=
    fun _ => rfl
  simp only [holds, isNull, Bool.or_self, Bool.false_eq_true, if_false, hunder, compare, orderOf]
  congr 1
  split
  · next h => simp [fits, Nat.le_of_lt h]
  · split
    · next h => simp [fits, h]
    · next h h' => simp [fits, show ¬i.micros ≤ j.micros by omega]

end Cell

namespace Journal

/-! ## The line that holds -/

/-- The last line of an entity that was recorded at an instant or before. -/
def lineAt (db : Database) (kind : Kind) (id : Int) (i : Instant) : Option Row :=
  ((rowsOf db kind id).filter fun r => timeOf r ≤ i.micros).getLast?

/-- The line of an entity that holds at an instant, with its payload before it. -/
def foundAt (db : Database) (kind : Kind) (id : Int) (i : Instant) : Option (Row × Row) :=
  (lineAt db kind id i).bind fun r =>
    (db.find? kind.journal (intCell (r.cell "data_id"))).map fun data => (data, r)

theorem mem_of_lineAt {db : Database} {kind : Kind} {id : Int} {i : Instant} {r : Row}
    (h : lineAt db kind id i = some r) : r ∈ rowsOf db kind id ∧ timeOf r ≤ i.micros := by
  obtain ⟨hr, ht⟩ := List.mem_filter.mp (List.mem_of_getLast? h)
  exact ⟨hr, of_decide_eq_true ht⟩

theorem getLast?_filterMap {α β : Type} {f : α → Option β} {l : List α}
    (h : ∀ a ∈ l, (f a).isSome) : (l.filterMap f).getLast? = l.getLast?.bind f := by
  rcases List.eq_nil_or_concat l with rfl | ⟨init, a, rfl⟩
  · rfl
  · rw [List.concat_eq_append] at h ⊢
    obtain ⟨b, hb⟩ := Option.isSome_iff_exists.mp (h a (by simp))
    rw [List.filterMap_append, List.filterMap_cons_some hb, List.filterMap_nil,
      List.getLast?_concat, List.getLast?_concat, Option.bind_some, hb]

section Regular

variable {db : Database} (h : Regular db) {kind : Kind}

include h

/-- The entry that holds is that of the line that holds. -/
theorem Regular.entryAtIn_eq (id : Int) (i : Instant) : entryAtIn db kind id i =
    (foundAt db kind id i).map fun p => entryOfRows kind p.2 p.1 := by
  have hfilter : ((rowsOf db kind id).filterMap (entryOf? db kind)).filter
      (fun e => decide (e.recordedAt.micros ≤ i.micros)) =
      ((rowsOf db kind id).filter fun r => timeOf r ≤ i.micros).filterMap (entryOf? db kind) := by
    rw [List.filter_filterMap, List.filterMap_filter]
    apply List.filterMap_congr
    intro r _
    unfold entryOf?
    cases db.find? kind.journal (intCell (r.cell "data_id")) with
    | none => simp
    | some data =>
      have htime : (entryOfRows kind r data).recordedAt.micros = timeOf r := rfl
      rw [Option.map_some, Option.filter_some, htime]
  rw [entryAtIn, h.entriesIn_eq, hfilter, getLast?_filterMap]
  · unfold foundAt lineAt entryOf?
    cases ((rowsOf db kind id).filter fun r => timeOf r ≤ i.micros).getLast? with
    | none => rfl
    | some r =>
      rw [Option.bind_some, Option.bind_some, Option.map_map]
      rfl
  · intro r hr
    obtain ⟨data, -, hfound⟩ := h.find?_payload (List.mem_filter.mp hr).1
    rw [entryOf?, hfound]
    rfl

/-- A line and a payload are found together if the line holds and the payload is its own. -/
theorem Regular.foundAt_eq_some_iff {id : Int} {i : Instant} {data r : Row} :
    foundAt db kind id i = some (data, r) ↔
      lineAt db kind id i = some r ∧ data ∈ db.tableRows kind.journal ∧
        r.cell "data_id" = data.cell "id" := by
  unfold foundAt
  constructor
  · intro hf
    obtain ⟨s, hs, hf⟩ := Option.bind_eq_some_iff.mp hf
    obtain ⟨d, hd, e⟩ := Option.map_eq_some_iff.mp hf
    cases e
    obtain ⟨version, dataId, time, e⟩ := h.exists_of_mem_rowsOf (mem_of_lineAt hs).1
    refine ⟨hs, List.mem_of_find?_eq_some hd, ?_⟩
    have hid := List.find?_some hd
    rw [e, cell_line_data] at hid ⊢
    exact (beq_iff_eq.mp hid).symm
  · rintro ⟨hline, hd, hid⟩
    obtain ⟨found, hfound, hf⟩ := h.find?_payload (mem_of_lineAt hline).1
    have hsame : found = data := by
      have hfits := h.sound.fits _ kind.journal_mem
      apply h.sound.eq_of_id kind.journal_mem hfound hd
      have hnumber := List.find?_some hf
      rw [hid, (hfits _ hd).number, (hfits _ hfound).number, intCell, beq_iff_eq,
        Cell.int.injEq] at hnumber
      exact hnumber
    rw [hline, Option.bind_some, hf, Option.map_some, hsame]

end Regular

/-! ## The condition on a line and a payload -/

/-- Of numbers that ascend the largest is the last. -/
theorem foldl_largest {vs : List Int} (h : vs.Pairwise (· < ·)) :
    (vs.map Cell.int).foldl
      (fun m c => if c.isNull || (!m.isNull && m.compare c != .lt) then m else c) .null =
      (vs.getLast?.map Cell.int).getD .null := by
  rcases List.eq_nil_or_concat vs with rfl | ⟨init, v, rfl⟩
  · rfl
  · rw [List.concat_eq_append] at h ⊢
    obtain ⟨hinit, -, hlast⟩ := List.pairwise_append.mp h
    have ih := foldl_largest hinit
    rw [List.map_append, List.foldl_append, ih, List.getLast?_concat]
    cases hl : init.getLast? with
    | none => rfl
    | some w =>
      have hlt := hlast w (List.mem_of_getLast? hl) v List.mem_cons_self
      have hcompare : (Cell.int w).compare (.int v) = .lt := by
        simp only [Cell.compare, Cell.orderOf, hlt, if_true]
      simp [hcompare, Cell.isNull]
termination_by vs.length

section Regular

variable {db : Database} (h : Regular db) {kind : Kind}

include h

theorem Regular.lastVersion_eq (id : Int) (i : Instant) {entry : Row}
    (hkind : entry.cell "entity_type" = .text kind.name)
    (hid : entry.cell "entity_id" = .int id) :
    lastVersion (db.tableRows Schema.journals) entry i =
      ((lineAt db kind id i).map (·.cell "version")).getD .null := by
  have hbefore : ((db.tableRows Schema.journals).filter fun r =>
      (r.cell "entity_type").holds .eq .text (entry.cell "entity_type") .text == some true &&
        (r.cell "entity_id").holds .eq .numeric (entry.cell "entity_id") .numeric == some true &&
        (r.cell "recorded_at").holds .le .numeric (.instant i) .none == some true) =
      (rowsOf db kind id).filter fun r => timeOf r ≤ i.micros := by
    rw [rowsOf, List.filter_filter]
    apply List.filter_congr
    intro r hr
    obtain ⟨k, n, version, dataId, time, e⟩ := h.lines r hr
    have htime : timeOf r = time.micros := by rw [timeOf, e]; simp [instantCell]
    rw [htime, e, hkind, hid, cell_line_kind, cell_line_entity, cell_line_time,
      Cell.holds_text _ _ _ (by decide), Cell.holds_int, Cell.holds_instant]
    rw [Bool.eq_iff_iff]
    simp only [Bool.and_eq_true, beq_iff_eq, Option.some.injEq, decide_eq_true_eq,
      Cell.text.injEq, Cell.int.injEq]
    exact and_comm
  have hversions : ((rowsOf db kind id).filter fun r => timeOf r ≤ i.micros).map
      (·.cell "version") = (((rowsOf db kind id).filter fun r => timeOf r ≤ i.micros).map fun r =>
        intCell (r.cell "version")).map Cell.int := by
    rw [List.map_map]
    apply List.map_congr_left
    intro r hr
    obtain ⟨version, dataId, time, e⟩ := h.exists_of_mem_rowsOf (List.mem_filter.mp hr).1
    rw [Function.comp, e, cell_line_version]
    rfl
  unfold lastVersion
  simp only [hbefore]
  rw [hversions, foldl_largest]
  · rw [← List.getLast?_map, ← hversions, List.getLast?_map]
    rfl
  · rw [List.pairwise_map]
    exact ((h.pairwise_rowsOf kind id).imp And.left).filter _

omit h in
/-- The condition by the cells of a line and a payload. -/
theorem validAtTruth_eq (env : Env) (rows : List Row) (journals data : Source) (entityType : String)
    (i : Instant) : validAtTruth env rows journals data entityType i = .all [
      ((⟨journals, ⟨"entity_type", .text, false⟩⟩ : SourceColumn).cell env).holds .eq .text
        (.text entityType) .none,
      ((⟨journals, ⟨"data_id", .integer, false⟩⟩ : SourceColumn).cell env).holds .eq .numeric
        ((⟨data, Schema.idColumn⟩ : SourceColumn).cell env) .numeric,
      ((⟨journals, ⟨"recorded_at", .instant, false⟩⟩ : SourceColumn).cell env).holds .le .numeric
        (.instant i) .none,
      ((⟨journals, ⟨"version", .integer, false⟩⟩ : SourceColumn).cell env).holds .eq .numeric
        (lastVersion rows (journals.table.columns.map fun c =>
          (c.name, (⟨journals, c⟩ : SourceColumn).cell env)) i) .none] := rfl

/-- Lines of an entity with one version are the same line. -/
theorem Regular.eq_of_version {id : Int} {r s : Row} (hr : r ∈ rowsOf db kind id)
    (hs : s ∈ rowsOf db kind id) (e : r.cell "version" = s.cell "version") : r = s := by
  have hnodup : ((rowsOf db kind id).map fun r => intCell (r.cell "version")).Nodup := by
    refine List.pairwise_map.mpr ((h.pairwise_rowsOf kind id).imp fun hlt => ?_)
    exact Int.ne_of_lt hlt.1
  exact List.inj_on_of_nodup_map hnodup hr hs (congrArg intCell e)

/-- A line has the version of the line that holds if it is this line. -/
theorem Regular.version_holds_iff {id version : Int} {i : Instant} {r : Row}
    (hr : r ∈ rowsOf db kind id) (hv : r.cell "version" = .int version) :
    (Cell.int version).holds .eq .numeric
      (((lineAt db kind id i).map (·.cell "version")).getD .null) .none = some true ↔
        lineAt db kind id i = some r := by
  cases hl : lineAt db kind id i with
  | none => exact ⟨(nomatch ·), (nomatch ·)⟩
  | some s =>
    have hs := (mem_of_lineAt hl).1
    obtain ⟨w, _, _, e⟩ := h.exists_of_mem_rowsOf hs
    have hw : s.cell "version" = .int w := by
      rw [e]
      simp
    rw [Option.map_some, Option.getD_some, hw, Cell.holds_int, Option.some.injEq,
      decide_eq_true_eq, Option.some.injEq]
    constructor
    · rintro rfl
      exact h.eq_of_version hs hr (hw.trans hv.symm)
    · rintro rfl
      exact Cell.int.inj (hv.symm.trans hw)

/-- The condition finds the line that holds for its entity, with the payload of this line. -/
theorem Regular.validAt_iff {env : Env} {journals data : Source} {i : Instant} {d r : Row}
    (htable : journals.table = Schema.journals)
    (hcell : ∀ c ∈ Schema.journals.columns,
      (⟨journals, c⟩ : SourceColumn).cell env = r.cell c.name)
    (hdata : (⟨data, Schema.idColumn⟩ : SourceColumn).cell env = d.cell "id")
    (hr : r ∈ db.tableRows Schema.journals) (hd : d ∈ db.tableRows kind.journal) :
    validAtTruth env (db.tableRows Schema.journals) journals data kind.name i = some true ↔
      foundAt db kind (intCell (r.cell "entity_id")) i = some (d, r) := by
  obtain ⟨k, id, version, dataId, time, e⟩ := h.lines r hr
  have hnumber := (h.sound.fits _ kind.journal_mem d hd).number
  have htime : timeOf r = time.micros := by rw [timeOf, e]; simp [instantCell]
  have hentry : ∀ c ∈ Schema.journals.columns, Row.cell (journals.table.columns.map fun c =>
      (c.name, (⟨journals, c⟩ : SourceColumn).cell env)) c.name = r.cell c.name := by
    intro c hc
    rw [htable, Row.cell_columns (Schema.columnNames_nodup Schema.journals_mem) _ hc]
    exact hcell c hc
  have hkind' := hentry ⟨"entity_type", .text, false⟩ (by decide)
  have hid' := hentry ⟨"entity_id", .integer, false⟩ (by decide)
  rw [validAtTruth_eq, hcell _ (by decide), hcell _ (by decide), hcell _ (by decide),
    hcell _ (by decide), hdata]
  simp only [Truth.all_eq_true_iff, List.forall_mem_cons, List.not_mem_nil, false_imp_iff,
    implies_true, and_true]
  -- with the cells of the line written out every comparison is one of texts, numbers or instants
  rw [e] at hkind' hid' ⊢
  simp only [cell_line_kind, cell_line_data, cell_line_time, cell_line_version, hnumber,
    Cell.holds_text _ _ _ (show Affinity.none ≠ .numeric by decide), Cell.holds_int,
    Cell.holds_instant, Option.some.injEq, decide_eq_true_eq]
  rw [← e]
  rw [cell_line_kind] at hkind'
  rw [cell_line_entity] at hid'
  have hentity : intCell (r.cell "entity_id") = id := by
    rw [e]
    simp [intCell]
  have hlink : r.cell "data_id" = .int dataId := by
    rw [e]
    simp
  have hversion : r.cell "version" = .int version := by
    rw [e]
    simp
  have hown : r ∈ rowsOf db k id := List.mem_filter.mpr ⟨hr, by rw [e]; simp⟩
  rw [hentity, h.foundAt_eq_some_iff, hlink, hnumber, Cell.int.injEq]
  constructor
  · rintro ⟨hk, rfl, -, hv⟩
    obtain rfl := Kind.name_injective hk
    rw [h.lastVersion_eq id i hkind' hid'] at hv
    exact ⟨(h.version_holds_iff hown hversion).mp hv, hd, rfl⟩
  · rintro ⟨hline, -, rfl⟩
    obtain ⟨hmem, hle⟩ := mem_of_lineAt hline
    have hk := (List.mem_filter.mp hmem).2
    rw [e, cell_line_kind, Bool.and_eq_true, beq_iff_eq, Cell.text.injEq] at hk
    obtain rfl := Kind.name_injective hk.1
    rw [h.lastVersion_eq id i hkind' hid']
    exact ⟨rfl, rfl, htime ▸ hle, (h.version_holds_iff hown hversion).mpr hline⟩

end Regular

/-! ## The rows of a live table at an instant -/

/-- A live row with the attributes that its entity had in an entry. -/
def stateRow (kind : Kind) (live : Row) (e : Entry) : Row :=
  kind.table.columns.map fun c => (c.name,
    if c.name = "id" ∨ c.name = "created_at" then live.cell c.name
    else if c.name = "updated_at" then .instant e.recordedAt
    else Database.boundCell (fun name => (e.payload.lookup name).getD .null) c)

/-- The live table of a kind as of an instant: a row for each live row whose entity has an entry
then. -/
def stateAt (db : Database) (kind : Kind) (i : Instant) : List Row :=
  (db.tableRows kind.table).filterMap fun live =>
    (entryAtIn db kind live.id i).map (stateRow kind live)

end Journal

end Chronicle
