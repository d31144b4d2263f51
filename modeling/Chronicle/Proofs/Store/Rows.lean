import Mathlib.Data.List.Nodup
import Chronicle.Proofs.Outcome
import Chronicle.Proofs.Store.Holding

/-!
# Rows of tables

What the store takes in fits its table: every column has a cell that it can hold, and the rows of a
table are in the order of their numbers.

* `Table.Fits`: a row has the columns of its table, a number, and cells that the columns hold;
* `Database.insert_eq_ok_iff`, `Database.update_eq_ok_iff`: when the store takes a new or a changed
  row, and what is stored then;
* `Database.Sound`: all rows fit, and no two rows of a table have one number;
* `Database.Sound.insert`, `Database.Sound.update`: changes keep the store sound.
-/

namespace Chronicle

open Chronicle.Calendar

/-! ## Columns by name -/

namespace Column

theorem lookup_map {α : Type} (cs : List Column) (f : Column → α) (name : String) :
    (cs.map fun c => (c.name, f c)).lookup name = (cs.find? (·.name == name)).map f := by
  induction cs with
  | nil => rfl
  | cons c cs ih =>
    rw [List.map_cons, List.lookup_cons, List.find?_cons, ih]
    by_cases h : name = c.name
    · simp [h]
    · have h1 : (name == c.name) = false := by simpa using h
      have h2 : (c.name == name) = false := by simpa using fun e => h e.symm
      simp [h1, h2]

theorem find?_name {cs : List Column} (hn : (cs.map (·.name)).Nodup) {c : Column} (hc : c ∈ cs) :
    cs.find? (·.name == c.name) = some c := by
  induction cs with
  | nil => cases hc
  | cons d cs ih =>
    rw [List.map_cons, List.nodup_cons] at hn
    rw [List.find?_cons]
    rcases List.mem_cons.mp hc with rfl | hc
    · simp
    · have hne : (d.name == c.name) = false := by
        simp only [beq_eq_false_iff_ne, ne_eq]
        intro e
        exact hn.1 (e ▸ List.mem_map_of_mem hc)
      simp [hne, ih hn.2 hc]

/-- What is given column by column is found by the names of the columns. -/
theorem lookup_name {α : Type} {cs : List Column} (hn : (cs.map (·.name)).Nodup) (f : Column → α)
    {c : Column} (hc : c ∈ cs) : (cs.map fun c => (c.name, f c)).lookup c.name = some (f c) := by
  rw [lookup_map, find?_name hn hc, Option.map_some]

end Column

/-! ## Cells of rows -/

namespace Row

/-- The cells of a row that is given column by column. -/
theorem cell_columns {cs : List Column} (hn : (cs.map (·.name)).Nodup) (f : Column → Cell)
    {c : Column} (hc : c ∈ cs) : Row.cell (cs.map fun c => (c.name, f c)) c.name = f c := by
  rw [cell, Column.lookup_name hn f hc, Option.getD_some]

theorem names_set (r : Row) (column : String) (c : Cell) :
    (r.set column c).map (·.1) = r.map (·.1) := by
  simp only [set, List.map_map]
  congr 1
  funext ⟨n, d⟩
  simp only [Function.comp]
  split <;> rfl

theorem cell_set_self {r : Row} {column : String} (h : column ∈ r.map (·.1)) (c : Cell) :
    (r.set column c).cell column = c := by
  induction r with
  | nil => cases h
  | cons p r ih =>
    obtain ⟨n, d⟩ := p
    by_cases hn : n = column
    · simp [set, cell, hn]
    · have hb : (column == n) = false := by simpa using fun e => hn e.symm
      have hr : column ∈ r.map (·.1) := by
        rcases List.mem_cons.mp h with e | h
        · exact absurd e.symm hn
        · exact h
      have := ih hr
      simpa [set, cell, hn, List.lookup_cons, hb] using this

theorem cell_set_of_ne {column name : String} (h : name ≠ column) (r : Row) (c : Cell) :
    (r.set column c).cell name = r.cell name := by
  induction r with
  | nil => rfl
  | cons p r ih =>
    obtain ⟨n, d⟩ := p
    by_cases hn : n = column
    · have hb : (name == n) = false := by simpa [hn] using h
      simpa [set, cell, hn, List.lookup_cons, hn ▸ hb] using ih
    · by_cases hb : name = n
      · simp [set, cell, hn, hb]
      · have hb' : (name == n) = false := by simpa using hb
        simpa [set, cell, hn, List.lookup_cons, hb'] using ih

theorem names_foldl_set (cells : List (String × Cell)) (r : Row) :
    (cells.foldl (fun r (n, c) => r.set n c) r).map (·.1) = r.map (·.1) := by
  induction cells generalizing r with
  | nil => rfl
  | cons p cells ih => rw [List.foldl_cons, ih, names_set]

theorem cell_foldl_set_of_not_mem {cells : List (String × Cell)} {name : String}
    (h : name ∉ cells.map (·.1)) (r : Row) :
    (cells.foldl (fun r (n, c) => r.set n c) r).cell name = r.cell name := by
  induction cells generalizing r with
  | nil => rfl
  | cons p cells ih =>
    rw [List.map_cons, List.mem_cons, not_or] at h
    rw [List.foldl_cons, ih h.2, cell_set_of_ne h.1]

/-- Setting several columns, each once, sets every one of them. -/
theorem cell_foldl_set {cs : List Column} (hn : (cs.map (·.name)).Nodup) (f : Column → Cell)
    {r : Row} {c : Column} (hc : c ∈ cs) (hr : c.name ∈ r.map (·.1)) :
    ((cs.map fun c => (c.name, f c)).foldl (fun r (n, c) => r.set n c) r).cell c.name = f c := by
  induction cs generalizing r with
  | nil => cases hc
  | cons d cs ih =>
    rw [List.map_cons, List.nodup_cons] at hn
    rw [List.map_cons, List.foldl_cons]
    rcases List.mem_cons.mp hc with rfl | hc
    · rw [cell_foldl_set_of_not_mem, cell_set_self hr]
      simpa [List.map_map, Function.comp_def] using hn.1
    · exact ih hn.2 hc (by rw [names_set]; exact hr)

theorem id_of_cell {r : Row} {i : Int} (h : r.cell "id" = .int i) : r.id = i := by
  simp [id, h]

end Row

/-! ## Rows that fit their table -/

namespace Schema

theorem columnNames_nodup {t : Table} (h : t ∈ tables) : t.columnNames.Nodup := by
  revert t
  decide

theorem id_mem_columnNames {t : Table} (h : t ∈ tables) : "id" ∈ t.columnNames := by
  revert t
  decide

theorem idColumn_mem {t : Table} (h : t ∈ tables) : idColumn ∈ t.columns := by
  revert t
  decide

/-- Tables of one name are the same table. -/
theorem eq_of_name {t u : Table} (ht : t ∈ tables) (hu : u ∈ tables) (h : t.name = u.name) :
    t = u := by
  have all : ∀ t ∈ tables, ∀ u ∈ tables, t.name = u.name → t = u := by decide
  exact all t ht u hu h

end Schema

/-- A row with the columns of a table, a number of its own, and cells that the columns hold. -/
structure Table.Fits (t : Table) (r : Row) : Prop where
  names : r.map (·.1) = t.columnNames
  number : r.cell "id" = .int r.id
  takes : ∀ c ∈ t.columns, c.name ≠ "id" → c.type.Takes (r.cell c.name)
  filled : ∀ c ∈ t.columns, c.name ≠ "id" → c.nullable = false → r.cell c.name ≠ .null

namespace Database

theorem tableRows_setRows_of_mem {db : Database} {t u : Table} (rows : List Row)
    (ht : t ∈ Schema.tables) (hu : u ∈ Schema.tables) :
    (db.setRows t rows).tableRows u = if u = t then rows else db.tableRows u := by
  split
  · next h => rw [h, tableRows_setRows]
  · next h => exact tableRows_setRows_of_ne db rows fun e => h (Schema.eq_of_name hu ht e)

/-! ## Numbers -/

theorem le_foldl_max (is : List Int) (i : Int) : i ≤ is.foldl max i ∧ ∀ j ∈ is, j ≤ is.foldl max i := by
  induction is generalizing i with
  | nil => simp
  | cons k is ih =>
    obtain ⟨h1, h2⟩ := ih (max i k)
    refine ⟨?_, ?_⟩
    · exact Int.le_trans (Int.le_max_left i k) h1
    · intro j hj
      rcases List.mem_cons.mp hj with rfl | hj
      · exact Int.le_trans (Int.le_max_right i j) h1
      · exact h2 j hj

/-- The next number is larger than all others. -/
theorem lt_nextId {rows : List Row} {r : Row} (h : r ∈ rows) : r.id < nextId rows := by
  unfold nextId
  have hr : r.id ∈ rows.map Row.id := List.mem_map_of_mem h
  split
  · next e => simp [e] at hr
  · next i is e =>
    rw [e] at hr
    obtain ⟨h1, h2⟩ := le_foldl_max is i
    rcases List.mem_cons.mp hr with hr | hr
    · omega
    · have := h2 _ hr
      omega

theorem foldl_max_mem (is : List Int) (i : Int) : is.foldl max i = i ∨ is.foldl max i ∈ is := by
  induction is generalizing i with
  | nil => exact Or.inl rfl
  | cons k is ih =>
    rw [List.foldl_cons, List.mem_cons]
    rcases ih (max i k) with h | h
    · rw [h]
      omega
    · exact Or.inr (Or.inr h)

/-- The next number follows the largest one. -/
theorem nextId_of_last {rows : List Row} {m : Int} (hle : ∀ r ∈ rows, r.id ≤ m)
    (hm : ∃ r ∈ rows, r.id = m) : nextId rows = m + 1 := by
  obtain ⟨r, hr, rfl⟩ := hm
  have hlt := lt_nextId hr
  have hex : ∃ s ∈ rows, nextId rows = s.id + 1 := by
    unfold nextId
    split
    · next e => simp_all
    · next i is e =>
      have hmem : is.foldl max i ∈ rows.map Row.id := by
        rw [e]
        rcases foldl_max_mem is i with h | h
        · rw [h]
          exact List.mem_cons_self
        · exact List.mem_cons_of_mem _ h
      obtain ⟨s, hs, hse⟩ := List.mem_map.mp hmem
      exact ⟨s, hs, by rw [hse]⟩
  obtain ⟨s, hs, he⟩ := hex
  have := hle s hs
  omega

/-- The numbers of rows that are counted from one. -/
def Numbered (rows : List Row) : Prop :=
  rows.map Row.id = (List.range rows.length).map fun k : Nat => (k : Int) + 1

theorem Numbered.nextId {rows : List Row} (h : Numbered rows) :
    nextId rows = rows.length + 1 := by
  rcases List.eq_nil_or_concat rows with rfl | ⟨init, r, rfl⟩
  · rfl
  · rw [List.concat_eq_append] at h ⊢
    unfold Numbered at h
    rw [List.length_append, List.length_singleton, List.range_succ, List.map_append,
      List.map_append] at h
    obtain ⟨hinit, hlast⟩ := List.append_inj' h rfl
    have hr : r.id = init.length + 1 := by simpa using hlast
    apply nextId_of_last
    · intro s hs
      rw [List.mem_append, List.mem_singleton] at hs
      rcases hs with hs | rfl
      · have : s.id ∈ init.map Row.id := List.mem_map_of_mem hs
        rw [hinit, List.mem_map] at this
        obtain ⟨k, hk, e⟩ := this
        have := List.mem_range.mp hk
        simp only [List.length_append, List.length_singleton]
        omega
      · simp [hr]
    · exact ⟨r, by simp, by simp [hr]⟩

/-! ## Places -/

theorem place_of_lt {r : Row} {rows : List Row} (h : ∀ s ∈ rows, s.id < r.id) :
    place r rows = rows ++ [r] := by
  induction rows with
  | nil => rfl
  | cons s rows ih =>
    have hs := h s List.mem_cons_self
    rw [place, if_neg (by omega), ih fun u hu => h u (List.mem_cons_of_mem _ hu)]
    rfl

theorem pairwise_place {r : Row} {rows : List Row} (hr : ∀ s ∈ rows, s.id ≠ r.id)
    (h : rows.Pairwise fun s u => s.id < u.id) :
    (place r rows).Pairwise fun s u => s.id < u.id := by
  induction rows with
  | nil => simp [place]
  | cons s rows ih =>
    have hs := hr s List.mem_cons_self
    rw [List.pairwise_cons] at h
    unfold place
    split
    · next hlt =>
      rw [List.pairwise_cons]
      refine ⟨?_, List.pairwise_cons.mpr h⟩
      intro u hu
      rcases List.mem_cons.mp hu with rfl | hu
      · exact hlt
      · have := h.1 u hu
        omega
    · next hlt =>
      rw [List.pairwise_cons]
      refine ⟨?_, ih (fun u hu => hr u (List.mem_cons_of_mem _ hu)) h.2⟩
      intro u hu
      rcases (mem_place r u rows).mp hu with rfl | hu
      · omega
      · exact h.1 u hu

/-! ## The checks -/

/-- The cells that values leave behind in some columns. -/
def boundCell (values : String → Value) (c : Column) : Cell :=
  ((Binding.intoColumn c.type).bind (values c.name)).toCell.under c.type.affinity

theorem bindColumns_eq_ok_iff {cs : List Column} {values : String → Value}
    {cells : List (String × Cell)} :
    bindColumns cs values = .ok cells ↔
      (∀ c ∈ cs, ∃ x, (Binding.intoColumn c.type).bind (values c.name) = .cell x) ∧
        cells = cs.map fun c => (c.name, boundCell values c) := by
  unfold bindColumns
  rw [bind_eq_ok_iff]
  constructor
  · rintro ⟨⟨⟩, hcheck, hcells⟩
    rw [Bound.check_eq_ok_iff] at hcheck
    refine ⟨fun c hc => hcheck _ ?_, ?_⟩
    · simp only [List.map_map, List.mem_map]
      exact ⟨c, hc, rfl⟩
    · cases hcells
      simp [boundCell, Function.comp_def]
  · rintro ⟨hbound, rfl⟩
    refine ⟨(), ?_, ?_⟩
    · rw [Bound.check_eq_ok_iff]
      intro b hb
      simp only [List.map_map, List.mem_map] at hb
      obtain ⟨c, hc, rfl⟩ := hb
      exact hbound c hc
    · simp [boundCell, Function.comp_def, pure, Except.pure]

theorem idCell_eq_ok {rows : List Row} {given id : Cell} (h : idCell rows given = .ok id) :
    ∃ i, id = .int i := by
  unfold idCell at h
  split at h
  · cases h
    exact ⟨_, rfl⟩
  · cases h
    exact ⟨_, rfl⟩
  · cases h

theorem checkFilled_eq_ok_iff {t : Table} {r : Row} :
    checkFilled t r = .ok () ↔
      ∀ c ∈ t.columns, c.name ≠ "id" → c.nullable = false → r.cell c.name ≠ .null := by
  have hnull : ∀ x : Cell, x.isNull = true ↔ x = .null := by
    intro x
    cases x <;> simp [Cell.isNull]
  unfold checkFilled
  split
  · next c hc =>
    have hp := List.find?_some hc
    simp only [Bool.and_eq_true, Bool.not_eq_true', bne_iff_ne, hnull] at hp
    refine ⟨(fun h => nomatch h), fun h => ?_⟩
    exact absurd hp.2 (h c (List.mem_of_find?_eq_some hc) hp.1.2 hp.1.1)
  · next hc =>
    simp only [List.find?_eq_none, Bool.and_eq_true, Bool.not_eq_true', bne_iff_ne, hnull] at hc
    exact ⟨fun _ c hm hi hn e => hc c hm ⟨⟨hn, hi⟩, e⟩, fun _ => rfl⟩

theorem checkUnique_eq_ok_iff {t : Table} {others : List Row} {r : Row} :
    checkUnique t others r = .ok () ↔
      ∀ columns ∈ ["id"] :: t.uniques, ∀ s ∈ others, collides columns r s = false := by
  unfold checkUnique
  split
  · next columns hc =>
    have hp := List.find?_some hc
    rw [List.any_eq_true] at hp
    obtain ⟨s, hs, hcol⟩ := hp
    refine ⟨(fun h => nomatch h), fun h => ?_⟩
    have := h columns (List.mem_of_find?_eq_some hc) s hs
    rw [hcol] at this
    cases this
  · next hc =>
    simp only [List.find?_eq_none, List.any_eq_true] at hc
    refine ⟨fun _ columns hm s hs => ?_, fun _ => rfl⟩
    have := hc columns hm
    simp only [not_exists, not_and, Bool.not_eq_true] at this
    exact this s hs

theorem collides_id {r s : Row} (hr : r.cell "id" = .int r.id) (hs : s.cell "id" = .int s.id) :
    collides ["id"] r s = false ↔ s.id ≠ r.id := by
  simp only [collides, List.all_cons, List.all_nil, Bool.and_true, hr, hs, Cell.isNull,
    Bool.not_false, Bool.true_and, Cell.compare, Cell.orderOf]
  split
  · simp
    omega
  · split
    · next h => simp [h]
    · next h =>
      have hne : s.id ≠ r.id := fun e => h e.symm
      simp [hne]

theorem checkReferences_of_none {t : Table} (h : t.references = []) (db : Database)
    (columns : List String) (r : Row) : checkReferences db t columns r = .ok () := by
  simp [checkReferences, h]

/-! ## New rows -/

/-- The value of a column of a new row: the one that is given, or else the usual one. -/
def valueOf (t : Table) (values : List (String × Value)) (clock : Instant) (name : String) :
    Value :=
  match values.lookup name with
  | some v => v
  | none => ((t.column? name).map fun c => Value.scalar (c.usual clock)).getD .null

/-- A new row before it has a number. -/
def draft (t : Table) (values : List (String × Value)) (clock : Instant) : Row :=
  t.columns.map fun c => (c.name, boundCell (valueOf t values clock) c)

theorem names_draft (t : Table) (values : List (String × Value)) (clock : Instant) :
    (draft t values clock).map (·.1) = t.columnNames := by
  simp [draft, Table.columnNames, Function.comp_def]

/-- A draft that is given a number has that number. -/
theorem cell_set_draft {t : Table} (ht : t ∈ Schema.tables) (values : List (String × Value))
    (clock : Instant) (id : Cell) : ((draft t values clock).set "id" id).cell "id" = id :=
  Row.cell_set_self (names_draft t values clock ▸ Schema.id_mem_columnNames ht) id

/-- A draft without a number takes the next one. -/
theorem idCell_draft {t : Table} (ht : t ∈ Schema.tables) {values : List (String × Value)}
    {clock : Instant} (hv : valueOf t values clock "id" = .null) (rows : List Row) :
    idCell rows ((draft t values clock).cell "id") = .ok (.int (nextId rows)) := by
  have hdraft : (draft t values clock).cell "id" =
      boundCell (valueOf t values clock) Schema.idColumn :=
    Row.cell_columns (Schema.columnNames_nodup ht) _ (Schema.idColumn_mem ht)
  have hname : valueOf t values clock Schema.idColumn.name = .null := hv
  rw [hdraft, boundCell, hname]
  rfl

theorem insert_eq_ok_iff {db db' : Database} {t : Table} {values : List (String × Value)}
    {clock : Instant} {r : Row} :
    db.insert t values clock = .ok (r, db') ↔
      (∀ c ∈ t.columns, ∃ x,
        (Binding.intoColumn c.type).bind (valueOf t values clock c.name) = .cell x) ∧
      (∃ id, idCell (db.tableRows t) ((draft t values clock).cell "id") = .ok id ∧
        r = (draft t values clock).set "id" id) ∧
      checkFilled t r = .ok () ∧ checkUnique t (db.tableRows t) r = .ok () ∧
      checkReferences db t t.columnNames r = .ok () ∧
      db' = db.setRows t (place r (db.tableRows t)) := by
  unfold insert
  simp only [bind_eq_ok_iff, bindColumns_eq_ok_iff]
  constructor
  · rintro ⟨cells, ⟨hbound, rfl⟩, id, hid, ⟨⟩, hfilled, ⟨⟩, hunique, ⟨⟩, href, hret⟩
    cases hret
    exact ⟨hbound, ⟨id, hid, rfl⟩, hfilled, hunique, href, rfl⟩
  · rintro ⟨hbound, ⟨id, hid, rfl⟩, hfilled, hunique, href, rfl⟩
    exact ⟨_, ⟨hbound, rfl⟩, id, hid, (), hfilled, (), hunique, (), href, rfl⟩

section NewRows

variable {db db' : Database} {t : Table} {values : List (String × Value)} {clock : Instant}
  {r : Row}

/-- The cells of a new row come from the values it is given. -/
theorem cell_of_insert (ht : t ∈ Schema.tables) (h : db.insert t values clock = .ok (r, db'))
    {c : Column} (hc : c ∈ t.columns) (hid : c.name ≠ "id") :
    r.cell c.name = boundCell (valueOf t values clock) c := by
  obtain ⟨_, ⟨id, _, rfl⟩, _⟩ := insert_eq_ok_iff.mp h
  rw [Row.cell_set_of_ne hid]
  exact Row.cell_columns (Schema.columnNames_nodup ht) _ hc

theorem fits_of_insert (ht : t ∈ Schema.tables) (h : db.insert t values clock = .ok (r, db')) :
    t.Fits r := by
  have hcell := fun c hc hid => cell_of_insert (c := c) ht h hc hid
  obtain ⟨hbound, ⟨id, hid, rfl⟩, hfilled, _⟩ := insert_eq_ok_iff.mp h
  obtain ⟨i, rfl⟩ := idCell_eq_ok hid
  have hnumber := cell_set_draft ht values clock (.int i)
  refine ⟨?_, ?_, ?_, checkFilled_eq_ok_iff.mp hfilled⟩
  · rw [Row.names_set, names_draft]
  · rw [Row.id_of_cell hnumber, hnumber]
  · intro c hc hne
    rw [hcell c hc hne]
    obtain ⟨x, hx⟩ := hbound c hc
    simp only [boundCell, hx, Bound.toCell]
    exact Binding.takes_of_bind hx

theorem tableRows_of_insert (h : db.insert t values clock = .ok (r, db')) :
    db' = db.setRows t (place r (db.tableRows t)) := by
  obtain ⟨_, _, _, _, _, hdb⟩ := insert_eq_ok_iff.mp h
  exact hdb

end NewRows

/-! ## Changed rows -/

/-- The columns that are given other values. -/
def changedColumns (t : Table) (values : List (String × Value)) : List Column :=
  t.columns.filter fun c => (values.lookup c.name).isSome

/-- A row with other values in some columns. -/
def revised (t : Table) (old : Row) (values : List (String × Value)) : Row :=
  ((changedColumns t values).map fun c =>
    (c.name, boundCell (fun name => (values.lookup name).getD .null) c)).foldl
      (fun r (n, c) => Row.set r n c) old

theorem update_eq_ok_iff {db db' : Database} {t : Table} {old r : Row}
    {values : List (String × Value)} :
    db.update t old values = .ok (r, db') ↔
      (∀ c ∈ changedColumns t values, ∃ x,
        (Binding.intoColumn c.type).bind ((values.lookup c.name).getD .null) = .cell x) ∧
      r = revised t old values ∧ checkFilled t r = .ok () ∧
      checkUnique t ((db.tableRows t).filter fun s => s.cell "id" != old.cell "id") r = .ok () ∧
      checkReferences db t ((changedColumns t values).map (·.name)) r = .ok () ∧
      db' = db.setRows t ((db.tableRows t).map fun s =>
        if s.cell "id" == old.cell "id" then r else s) := by
  unfold update
  simp only [bind_eq_ok_iff, bindColumns_eq_ok_iff]
  constructor
  · rintro ⟨cells, ⟨hbound, rfl⟩, ⟨⟩, hfilled, ⟨⟩, hunique, ⟨⟩, href, hret⟩
    cases hret
    exact ⟨hbound, rfl, hfilled, hunique, href, rfl⟩
  · rintro ⟨hbound, rfl, hfilled, hunique, href, rfl⟩
    exact ⟨_, ⟨hbound, rfl⟩, (), hfilled, (), hunique, (), href, rfl⟩

section ChangedRows

variable {t : Table} {values : List (String × Value)} {old : Row}

theorem cell_revised_of_none {name : String} (h : values.lookup name = none) :
    (revised t old values).cell name = old.cell name := by
  apply Row.cell_foldl_set_of_not_mem
  intro hm
  simp only [changedColumns, List.map_map, List.mem_map, List.mem_filter, Function.comp] at hm
  obtain ⟨c, ⟨_, hc⟩, rfl⟩ := hm
  simp [h] at hc

theorem cell_revised_of_some (ht : t ∈ Schema.tables) (hold : t.Fits old) {c : Column}
    (hc : c ∈ t.columns) {v : Value} (h : values.lookup c.name = some v) :
    (revised t old values).cell c.name =
      ((Binding.intoColumn c.type).bind v).toCell.under c.type.affinity := by
  have hn : ((changedColumns t values).map (·.name)).Nodup :=
    (Schema.columnNames_nodup ht).sublist (List.filter_sublist.map _)
  have hmem : c ∈ changedColumns t values := List.mem_filter.mpr ⟨hc, by simp [h]⟩
  have hname : c.name ∈ old.map (·.1) := hold.names ▸ List.mem_map_of_mem hc
  rw [revised, Row.cell_foldl_set hn _ hmem hname]
  simp [boundCell, h]

theorem fits_of_update {db db' : Database} {r : Row} (ht : t ∈ Schema.tables) (hold : t.Fits old)
    (hid : values.lookup "id" = none) (h : db.update t old values = .ok (r, db')) :
    t.Fits r ∧ r.id = old.id := by
  obtain ⟨hbound, rfl, hfilled, _⟩ := update_eq_ok_iff.mp h
  have hnumber : (revised t old values).cell "id" = .int old.id := by
    rw [cell_revised_of_none hid, hold.number]
  have hsame : (revised t old values).id = old.id := Row.id_of_cell hnumber
  refine ⟨⟨?_, ?_, ?_, checkFilled_eq_ok_iff.mp hfilled⟩, hsame⟩
  · rw [revised, Row.names_foldl_set, hold.names]
  · rw [hsame, hnumber]
  · intro c hc hne
    cases hv : values.lookup c.name with
    | none =>
      rw [cell_revised_of_none hv]
      exact hold.takes c hc hne
    | some v =>
      obtain ⟨x, hx⟩ := hbound c (List.mem_filter.mpr ⟨hc, by simp [hv]⟩)
      rw [hv, Option.getD_some] at hx
      rw [cell_revised_of_some ht hold hc hv, hx]
      exact Binding.takes_of_bind hx

end ChangedRows

/-! ## Sound stores -/

/-- All rows fit their tables and stand in the order of their numbers. -/
structure Sound (db : Database) : Prop where
  fits : ∀ t ∈ Schema.tables, ∀ r ∈ db.tableRows t, t.Fits r
  ordered : ∀ t ∈ Schema.tables, (db.tableRows t).Pairwise fun r s => r.id < s.id

namespace Sound

theorem empty : Sound empty where
  fits _ _ _ hr := nomatch hr
  ordered _ _ := List.Pairwise.nil

theorem opened {db : Database} (h : Sound db) : Sound db.opened := ⟨h.fits, h.ordered⟩

variable {db db' : Database} {t : Table} {values : List (String × Value)} {r : Row}

/-- Rows of one number are the same row. -/
theorem eq_of_id (h : Sound db) (ht : t ∈ Schema.tables) {s u : Row} (hs : s ∈ db.tableRows t)
    (hu : u ∈ db.tableRows t) (e : s.id = u.id) : s = u := by
  have hnodup : ((db.tableRows t).map Row.id).Nodup :=
    List.pairwise_map.mpr ((h.ordered t ht).imp fun hlt => Int.ne_of_lt hlt)
  exact List.inj_on_of_nodup_map hnodup hs hu e

theorem setRows (h : Sound db) (ht : t ∈ Schema.tables) {rows : List Row}
    (hfits : ∀ r ∈ rows, t.Fits r) (hord : rows.Pairwise fun r s => r.id < s.id) :
    Sound (db.setRows t rows) := by
  constructor
  · intro u hu s hs
    rw [tableRows_setRows_of_mem rows ht hu] at hs
    split at hs
    · next e => exact e ▸ hfits s hs
    · exact h.fits u hu s hs
  · intro u hu
    rw [tableRows_setRows_of_mem rows ht hu]
    split
    · exact hord
    · exact h.ordered u hu

/-- A new row has a number that no other row has. -/
theorem id_ne_of_insert (h : Sound db) (ht : t ∈ Schema.tables) {clock : Instant}
    (hi : db.insert t values clock = .ok (r, db')) : ∀ s ∈ db.tableRows t, s.id ≠ r.id := by
  intro s hs
  obtain ⟨_, _, _, hunique, _⟩ := insert_eq_ok_iff.mp hi
  have := checkUnique_eq_ok_iff.mp hunique ["id"] List.mem_cons_self s hs
  exact (collides_id (fits_of_insert ht hi).number (h.fits t ht s hs).number).mp this

theorem insert (h : Sound db) (ht : t ∈ Schema.tables) {clock : Instant}
    (hi : db.insert t values clock = .ok (r, db')) : Sound db' := by
  rw [tableRows_of_insert hi]
  apply h.setRows ht
  · intro s hs
    rcases (mem_place r s _).mp hs with rfl | hs
    · exact fits_of_insert ht hi
    · exact h.fits t ht s hs
  · exact pairwise_place (h.id_ne_of_insert ht hi) (h.ordered t ht)

theorem update (h : Sound db) (ht : t ∈ Schema.tables) {old : Row}
    (hold : old ∈ db.tableRows t) (hid : values.lookup "id" = none)
    (hu : db.update t old values = .ok (r, db')) : Sound db' := by
  obtain ⟨hfits, hsame⟩ := fits_of_update ht (h.fits t ht old hold) hid hu
  obtain ⟨_, _, _, _, _, rfl⟩ := update_eq_ok_iff.mp hu
  have hkeep : ∀ s ∈ db.tableRows t,
      t.Fits (if s.cell "id" == old.cell "id" then r else s) ∧
        (if s.cell "id" == old.cell "id" then r else s).id = s.id := by
    intro s hs
    split
    · next e =>
      have : s.id = old.id := by
        rw [beq_iff_eq, (h.fits t ht s hs).number, (h.fits t ht old hold).number] at e
        exact Cell.int.inj e
      exact ⟨hfits, hsame.trans this.symm⟩
    · exact ⟨h.fits t ht s hs, rfl⟩
  apply h.setRows ht
  · intro u hu
    obtain ⟨s, hs, rfl⟩ := List.mem_map.mp hu
    exact (hkeep s hs).1
  · rw [List.pairwise_map]
    refine (h.ordered t ht).imp_of_mem ?_
    intro a b ha hb hlt
    rw [(hkeep a ha).2, (hkeep b hb).2]
    exact hlt

end Sound

end Database

end Chronicle
