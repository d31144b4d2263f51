import Chronicle.History.EntityView
import Chronicle.Proofs.AsOf.Compiles
import Chronicle.Proofs.Statement.Taken

/-!
# Rows of some entities at a timestamp

The query for the rows of some entities at a timestamp answers a row for each of them that had an
entry then: the key of the timestamp, and the row that the live table had for the entity.

* `Kind.among`: the query, and `Kind.select` what becomes of it;
* `Kind.checkAll_select_iff`: the store takes it if it has room for the numbers of the entities;
* `EntityView.rowsAt_eq`: its answer as of a timestamp.
-/

namespace Chronicle

open Chronicle.Calendar

namespace Kind

variable (kind : Kind) (ids : List Int)

/-- The rows of the live table with some numbers. -/
def among : Query :=
  (Query.ofTable kind.table.name).filterBy
    [.membership ⟨kind.table.name, "id"⟩ (ids.map .int) none false]

/-- What the query for rows with some numbers becomes. -/
def select : Select where
  columns := kind.liveSource.columns.map fun c => .column c none
  base := kind.liveSource
  joins := []
  conditions := [.amongValues ⟨kind.liveSource, Schema.idColumn⟩ (ids.map .int) false]
  orders := []
  limit := none

theorem mapM_inUtc_int : (ids.map Scalar.int).mapM Clause.inUtc = .ok (ids.map .int) :=
  mapM_map_eq_ok fun _ _ => rfl

theorem compile_among : (kind.among ids).compile = .ok (kind.select ids) := by
  have hid : Scope.column [(kind.table.name, kind.liveSource)] ⟨kind.table.name, "id"⟩ =
      .ok ⟨kind.liveSource, Schema.idColumn⟩ := by cases kind <;> rfl
  have hlookup : List.lookup kind.table.name [(kind.table.name, kind.liveSource)] =
      some kind.liveSource := List.lookup_cons_self
  have hjoins : Join.compileAll [(kind.table.name, kind.liveSource)] 1 [] =
    .ok ([], [(kind.table.name, kind.liveSource)]) := rfl
  refine Query.compile_of_compiled ⟨kind.findTable_table, rfl, hjoins, ?_, ?_, rfl, rfl⟩
  · change outputColumns _ kind.table.name [] = _
    rw [outputColumns, hlookup]
    rfl
  · refine bind_eq_ok_iff.mpr ⟨.amongValues ⟨kind.liveSource, Schema.idColumn⟩ (ids.map .int) false,
      ?_, rfl⟩
    refine bind_eq_ok_iff.mpr ⟨_, hid, bind_eq_ok_iff.mpr ⟨_, mapM_inUtc_int ids, rfl⟩⟩

theorem isPlain_among : (kind.among ids).isPlain = true := rfl

/-! ## What the store takes -/

theorem columnNames_select :
    (kind.select ids).columns.map OutputColumn.name = kind.table.columnNames := by
  rw [select, Source.columns, List.map_map, List.map_map, Table.columnNames]
  exact List.map_congr_left fun c _ => rfl

/-- A number that a column of numbers is compared with. -/
def numberBound (i : Int) : Bound := Binding.plain.bind (.int i)

theorem listedBounds_id : listedBounds ⟨kind.liveSource, Schema.idColumn⟩ (ids.map .int) =
    ids.map numberBound := by
  cases ids with
  | nil => rfl
  | cons i ids =>
    rw [listedBounds, List.map_map]
    rfl

theorem slots_select : (kind.select ids).slots = (ids.map numberBound).map some := by
  have hcolumns : (kind.select ids).columns.filterMap OutputColumn.slot? = [] := by
    rw [List.filterMap_eq_nil_iff, select, Source.columns, List.map_map, List.forall_mem_map]
    exact fun c _ => rfl
  rw [Select.slots_eq, hcolumns]
  change [] ++ [] ++ (((listedBounds ⟨kind.liveSource, Schema.idColumn⟩ (ids.map .int)).map some) ++
    []) ++ [] ++ [] = _
  rw [listedBounds_id]
  simp only [List.append_nil, List.nil_append]

theorem isKnown_live {c : Column} (hc : c ∈ kind.table.columns) :
    (⟨kind.liveSource, c⟩ : SourceColumn).isKnown [emptyRelations [kind.liveSource]] = true :=
  SourceColumn.isKnown_of_find (Env.find_between [] (kind.liveSource.relation []) (.nil _) (.nil _)
    kind.table_mem hc [])

theorem check_select : (kind.select ids).check [] = .ok () := by
  have hcolumns : (kind.select ids).columns.all
      (·.isKnown [emptyRelations (kind.select ids).sources]) = true := by
    rw [select, List.all_map, Source.columns, List.all_map, List.all_eq_true]
    exact fun c hc => kind.isKnown_live hc
  have hid : (⟨kind.liveSource, Schema.idColumn⟩ : SourceColumn).isKnown
      [emptyRelations (kind.select ids).sources] = true :=
    kind.isKnown_live (Schema.idColumn_mem kind.table_mem)
  have hconditions : Clause.checkAll [emptyRelations (kind.select ids).sources]
      (kind.select ids).conditions = .ok () := by
    refine bind_eq_ok_iff.mpr ⟨(), ?_, rfl⟩
    rw [Clause.check, hid]
    rfl
  rw [Select.check_eq, hcolumns, hconditions]
  rfl

theorem render_select : ∃ x, (kind.select ids).render = .ok x :=
  Select.render_of_succeeds (Select.write_succeeds_of (fun _ hj => nomatch hj)
    (List.forall_mem_singleton.mpr (Clause.write_succeeds (p := fun _ => True) _ trivial))
    fun _ ho => nomatch ho)

theorem exists_cell_numberBound (i : Int) :
    (∃ c, numberBound i = .cell c) ↔ Cell.isStorable i = true := by
  change (∃ c, (if Cell.isStorable i then Bound.cell (.int i) else .refused .integerOutOfRange) =
    .cell c) ↔ _
  constructor
  · rintro ⟨c, h⟩
    by_contra hi
    rw [if_neg hi] at h
    cases h
  · exact fun hi => ⟨.int i, if_pos hi⟩

/-- The store takes the query if it has room for the numbers. -/
theorem checkAll_select_iff :
    (kind.select ids).checkAll = .ok () ↔ ∀ i ∈ ids, Cell.isStorable i = true := by
  have hcells : Slots.AreCells ((ids.map numberBound).map some) ↔
      ∀ i ∈ ids, Cell.isStorable i = true := by
    rw [Slots.AreCells, List.forall_mem_map, List.forall_mem_map]
    refine forall₂_congr fun i _ => ?_
    rw [← exists_cell_numberBound i]
    simp only [Option.some.injEq]
  rw [Select.checkAll_eq_ok_iff, kind.slots_select, hcells, and_iff_right (kind.render_select ids),
    and_iff_left (kind.check_select ids)]

/-! ## What it keeps -/

variable {kind} {ids}

/-- A list of numbers holds for the numbers in it. -/
theorem truth_amongNumbers_iff (hids : ∀ i ∈ ids, Cell.isStorable i = true) (db : Database)
    {env : Env} {n : Int} (hcell : (⟨kind.liveSource, Schema.idColumn⟩ : SourceColumn).cell env =
      .int n) : (Clause.amongValues ⟨kind.liveSource, Schema.idColumn⟩ (ids.map .int) false).truth db
        env = some true ↔ n ∈ ids := by
  have hnumber : ∀ i ∈ ids, (numberBound i).toCell = .int i := by
    intro i hi
    change (if Cell.isStorable i then Bound.cell (.int i) else .refused .integerOutOfRange).toCell
      = _
    rw [if_pos (hids i hi)]
    rfl
  rw [Clause.truth, hcell, listedBounds_id, Expression.negateIf, if_neg (by decide),
    Truth.any_eq_true_iff, List.map_map]
  constructor
  · intro h
    obtain ⟨t, ht, rfl⟩ := h
    obtain ⟨i, hi, ht⟩ := List.mem_map.mp ht
    rw [Function.comp, hnumber i hi] at ht
    have hsame := (Cell.holds_int n i .none).symm.trans ht
    rw [Option.some.injEq, decide_eq_true_eq] at hsame
    exact hsame ▸ hi
  · intro h
    refine ⟨_, List.mem_map_of_mem h, ?_⟩
    rw [Function.comp, hnumber _ h]
    exact (Cell.holds_int n n .none).trans (by simp)

/-- Of rows that have their numbers those are kept whose numbers are listed. -/
theorem matchingOn_select (hids : ∀ i ∈ ids, Cell.isStorable i = true) (db : Database)
    {rows : List Row} (hrows : ∀ r ∈ rows, r.cell "id" = .int r.id) :
    (kind.select ids).matchingOn db [] rows =
      (rows.filter fun r => decide (r.id ∈ ids)).map fun r => [kind.liveSource.relation r] := by
  have hkeeps : ∀ r ∈ rows, (kind.select ids).keeps db [] [kind.liveSource.relation r] =
      decide (r.id ∈ ids) := by
    intro r hr
    have hcell : (⟨kind.liveSource, Schema.idColumn⟩ : SourceColumn).cell
        [[kind.liveSource.relation r]] = .int r.id :=
      (SourceColumn.cell_of_find (Env.find_between [] (kind.liveSource.relation r) (.nil _) (.nil _)
        kind.table_mem (Schema.idColumn_mem kind.table_mem) [])).trans (hrows r hr)
    have hjoined : (kind.select ids).keeps db [] [kind.liveSource.relation r] =
        (Truth.all [(Clause.amongValues ⟨kind.liveSource, Schema.idColumn⟩ (ids.map .int)
          false).truth db [[kind.liveSource.relation r]]] == some true) := rfl
    rw [hjoined, Bool.eq_iff_iff, beq_iff_eq, Truth.all_eq_true_iff, List.forall_mem_singleton,
      truth_amongNumbers_iff hids db hcell, decide_eq_true_eq]
  have hmatching : (kind.select ids).matchingOn db [] rows =
      (rows.map fun r => [kind.liveSource.relation r]).filter ((kind.select ids).keeps db []) := rfl
  rw [hmatching, List.filter_map]
  exact congrArg _ (List.filter_congr hkeeps)

end Kind

/-! ## Attributes in rows of the state -/

namespace Journal

section

variable (kind : Kind) {live : Row} (hl : live.cell "id" = .int live.id) (e : Entry)

include hl

/-- A row of the state has the number of the live row. -/
theorem cell_id_stateRow : (stateRow kind live e).cell "id" = .int live.id :=
  (Row.cell_columns (Schema.columnNames_nodup kind.table_mem) _
    (Schema.idColumn_mem kind.table_mem)).trans hl

theorem id_stateRow : (stateRow kind live e).id = live.id := by
  rw [Row.id, cell_id_stateRow kind hl]

end

/-- The attributes in a row of a live table. -/
def shown (kind : Kind) (r : Row) : List (String × Scalar) :=
  kind.table.columns.map fun c => (c.name, (r.cell c.name).toScalar c.type)

/-- The attributes of an entity in one of its entries: those of the payload, the number, the time of
creation in its live row, and the time of the entry as that of the last change. -/
def attributesIn (live : Row) (e : Entry) : List (String × Value) :=
  e.payload ++ [("id", .int live.id),
    ("created_at", .scalar ((live.cell "created_at").toScalar .instant)),
    ("updated_at", .instant e.recordedAt)]

theorem columns_perm (kind : Kind) : kind.table.columns.Perm
    ((kind.journal.columns.filter fun c => c.name != "id") ++
      [Schema.idColumn, ⟨"created_at", .instant, false⟩, ⟨"updated_at", .instant, false⟩]) := by
  cases kind <;> decide

theorem special_mem_columns (kind : Kind) : ∀ c ∈ [Schema.idColumn,
    ⟨"created_at", .instant, false⟩, ⟨"updated_at", .instant, false⟩], c ∈ kind.table.columns := by
  cases kind <;> decide

section Regular

variable {db : Database} (h : Regular db) {kind : Kind} {live : Row} {i : Instant} {e : Entry}
  (hl : live ∈ db.tableRows kind.table) (he : entryAtIn db kind live.id i = some e)

include h hl he

/-- A row of the state has the attributes that its entity had in the entry. -/
theorem Regular.shown_perm : ((shown kind (stateRow kind live e)).map fun f =>
    (f.1, Value.scalar f.2)).Perm (attributesIn live e) := by
  rw [h.entryAtIn_eq] at he
  obtain ⟨⟨d, j⟩, hf, rfl⟩ := Option.map_eq_some_iff.mp he
  obtain ⟨hline, -, -⟩ := h.foundAt_eq_some_iff.mp hf
  obtain ⟨version, dataId, time, e⟩ := h.exists_of_mem_rowsOf (mem_of_lineAt hline).1
  have hcell : ∀ c ∈ kind.table.columns,
      (stateRow kind live (entryOfRows kind j d)).cell c.name =
        Substitution.cellOf d j live c.name := fun c hc => h.cell_stateRow hl hf hc
  have hpayload : ((kind.journal.columns.filter fun c => c.name != "id").map fun c =>
      (c.name, Value.scalar (((stateRow kind live (entryOfRows kind j d)).cell c.name).toScalar
        c.type))) = (entryOfRows kind j d).payload := by
    refine List.map_congr_left fun c hc => ?_
    have hspecial : ∀ c ∈ kind.journal.columns.filter fun c => c.name != "id",
        c.name ≠ "id" ∧ c.name ≠ "created_at" ∧ c.name ≠ "updated_at" := by
      cases kind <;> decide
    obtain ⟨hid, hcreated, hupdated⟩ := hspecial c hc
    rw [hcell c ((columns_perm kind).mem_iff.mpr (List.mem_append_left _ hc)),
      Substitution.cellOf, if_neg hid, if_neg hcreated, if_neg hupdated]
  have hid : (stateRow kind live (entryOfRows kind j d)).cell "id" = .int live.id := by
    refine (hcell Schema.idColumn (special_mem_columns kind _ (by simp))).trans
      ((if_pos rfl).trans ?_)
    rw [e, cell_line_entity]
  have hcreated : (stateRow kind live (entryOfRows kind j d)).cell "created_at" =
      live.cell "created_at" :=
    hcell ⟨"created_at", .instant, false⟩ (special_mem_columns kind _ (by simp))
  have hupdated : (stateRow kind live (entryOfRows kind j d)).cell "updated_at" =
      .instant (entryOfRows kind j d).recordedAt := by
    refine (hcell ⟨"updated_at", .instant, false⟩ (special_mem_columns kind _ (by simp))).trans ?_
    rw [Substitution.cellOf, if_neg (by decide), if_neg (by decide), if_pos rfl, entryOfRows, e,
      cell_line_time]
    rfl
  refine (((columns_perm kind).map _).map _).trans (.of_eq ?_)
  rw [List.map_append, List.map_append, List.map_map, attributesIn]
  refine congrArg₂ _ hpayload ?_
  simp only [List.map_cons, List.map_nil, Schema.idColumn]
  rw [hid, hcreated, hupdated]
  rfl

end Regular

end Journal

/-! ## Rows as bags -/

section Lookup

variable {α β : Type} [BEq α] [LawfulBEq α] {l l' : List (α × β)}

theorem lookup_eq_some_iff_mem (hn : (l.map Prod.fst).Nodup) {a : α} {b : β} :
    l.lookup a = some b ↔ (a, b) ∈ l := by
  induction l with
  | nil => simp
  | cons p l ih =>
    obtain ⟨k, v⟩ := p
    obtain ⟨hk, hn⟩ := List.nodup_cons.mp hn
    rw [List.lookup_cons, List.mem_cons, Prod.mk.injEq]
    by_cases hak : a = k
    · have hnone : (a, b) ∉ l := fun hmem => hk (List.mem_map.mpr ⟨_, hmem, hak⟩)
      simp [hak ▸ hnone, hak, eq_comm]
    · rw [beq_eq_false_iff_ne.mpr hak]
      simpa [hak] using ih hn

/-- In a list of pairs with different first parts the order does not matter. -/
theorem lookup_perm (h : l.Perm l') (hn : (l.map Prod.fst).Nodup) (a : α) :
    l.lookup a = l'.lookup a := by
  have hn' : (l'.map Prod.fst).Nodup := (h.map _).nodup_iff.mp hn
  apply Option.ext
  intro b
  rw [lookup_eq_some_iff_mem hn, lookup_eq_some_iff_mem hn', h.mem_iff]

end Lookup

/-- Each row of a bag is there in some order. -/
theorem exists_perm_of_bag {rows rows' : List (List (String × Scalar))} (h : bag rows = bag rows')
    {r : List (String × Scalar)} (hr : r ∈ rows) : ∃ r' ∈ rows', r.Perm r' := by
  have hmem : (r : Multiset (String × Scalar)) ∈ rows'.map Multiset.ofList :=
    (Multiset.coe_eq_coe.mp h).mem_iff.mp (List.mem_map_of_mem hr)
  obtain ⟨r', hr', e⟩ := List.mem_map.mp hmem
  exact ⟨r', hr', (Multiset.coe_eq_coe.mp e).symm⟩

/-! ## The answer -/

theorem Kind.row_select (kind : Kind) (ids : List Int) (r : Row) :
    (kind.select ids).row [kind.liveSource.relation r] = Journal.shown kind r := by
  rw [Select.row, Kind.select, Source.columns, List.map_map, List.map_map, Journal.shown]
  refine List.map_congr_left fun c hc => ?_
  have hcell : (⟨kind.liveSource, c⟩ : SourceColumn).cell [[kind.liveSource.relation r]] =
      r.cell c.name :=
    SourceColumn.cell_of_find (Env.find_between [] (kind.liveSource.relation r) (.nil _) (.nil _)
      kind.table_mem hc [])
  change (c.name, ((⟨kind.liveSource, c⟩ : SourceColumn).cell
    [[kind.liveSource.relation r]]).toScalar c.type) = _
  rw [hcell]

namespace EntityView

variable (kind : Kind) (ids : List Int) {moment : Option Moment} {clock i : Instant} {t : Timestamp}

/-! ### The query -/

theorem among_eq :
    Predicate.among ⟨kind.table.name, "id"⟩ (.list (ids.map Value.int)) false =
      .ok (.membership ⟨kind.table.name, "id"⟩ (ids.map .int) none false) := by
  have hread : Record.readItems Record.scalar 0 (ids.map Value.int) = .ok (ids.map .int) := by
    have hmap := Record.readItems_map Record.scalar Value.scalar (fun _ => rfl) 0 (ids.map .int)
    rw [List.map_map] at hmap
    exact hmap
  unfold Predicate.among
  rw [show Predicate.itemsOf (.list (ids.map Value.int)) = .ok (ids.map Value.int) from rfl]
  change (do
    let values ← Record.Checked.orFail (Record.Checked.under (.field "values")
      (Record.readItems Record.scalar 0 (ids.map Value.int)))
    return Predicate.membership ⟨kind.table.name, "id"⟩ values none false : Except Failure _) = _
  rw [hread]
  rfl

/-- The query as of a timestamp that denotes an instant. -/
theorem exists_query (hi : t.resolveAt moment clock = .ok i)
    (hbound : i.micros < Instant.bound) : ∃ q' a',
      (kind.among ids).asOfTimestamp (.timestamp t) moment clock = .ok q' ∧
      findTable q'.table = .ok kind.journal ∧ q'.compile = .ok a' ∧
      (⟨kind, t, i⟩ : Substitution).Mirrors (kind.among ids) (kind.select ids) a' :=
  Query.exists_asOf_alone ⟨rfl, rfl, rfl, rfl, rfl, kind.isPlain_among ids, rfl⟩ rfl hi hbound
    ⟨_, rfl⟩ (kind.compile_among ids)

/-- The rows at a timestamp are answered by the query as of the timestamp. -/
theorem rowsAt_eq {q' : Query}
    (h : (kind.among ids).asOfTimestamp (.timestamp t) moment clock = .ok q') :
    rowsAt kind (ids.map .int) moment clock t = q'.run := by
  have hlive : (do
      let among ← Predicate.among ⟨kind.table.name, "id"⟩ (.list (ids.map .int)) false
      return (← Query.build (.text kind.table.name)).filterBy [among] : Except Failure Query) =
        .ok (kind.among ids) := by
    rw [among_eq]
    rfl
  unfold rowsAt
  rw [hlive]
  change (do
    (← liftM ((kind.among ids).asOfTimestamp (.timestamp t) moment clock)).run : Action _) = _
  rw [h]
  rfl

/-- The rows at a timestamp are those of the state at its instant, each behind its key. -/
theorem answer_rowsAt (hi : t.resolveAt moment clock = .ok i) (hbound : i.micros < Instant.bound)
    {db : Database} (h : Journal.Regular db) :
    ((rowsAt kind (ids.map .int) moment clock t).answer db).map bag =
      (kind.select ids).checkAll.map fun _ => bag (((Journal.stateAt db kind i).filter
        fun r => decide (r.id ∈ ids)).map fun r =>
          ("timestamp", .text t.key) :: Journal.shown kind r) := by
  obtain ⟨q', a', hq', htable, ha', hm⟩ := exists_query kind ids hi hbound
  have hnames : ((kind.select ids).columns.map OutputColumn.name).Nodup :=
    kind.columnNames_select ids ▸ Schema.columnNames_nodup kind.table_mem
  have hnumbers : ∀ r ∈ Journal.stateAt db kind i, r.cell "id" = .int r.id := by
    intro r hr
    obtain ⟨live, hl, hr⟩ := List.mem_filterMap.mp hr
    obtain ⟨e, -, rfl⟩ := Option.map_eq_some_iff.mp hr
    have hid := (h.sound.fits _ kind.table_mem live hl).number
    rw [Journal.cell_id_stateRow kind hid, Journal.id_stateRow kind hid]
  rw [rowsAt_eq kind ids hq', Query.answer_run htable ha' hm.fragments']
  refine (hm.answerOver_bag (h.change (.opened db)) (fun _ hu => nomatch hu) hnames).trans ?_
  rw [Select.answerOver_eq hnames]
  cases hcheck : (kind.select ids).checkAll with
  | error f => rfl
  | ok u =>
    have hids := (kind.checkAll_select_iff ids).mp hcheck
    refine congrArg Except.ok (congrArg bag ?_)
    change (((kind.select ids).matchingOn db.opened [] (Journal.stateAt db kind i)).map
      (kind.select ids).row).map (fun cells => ("timestamp", Scalar.text t.key) :: cells) = _
    rw [Kind.matchingOn_select hids db.opened hnumbers, List.map_map, List.map_map]
    exact List.map_congr_left fun r _ => congrArg _ (kind.row_select ids r)

variable {kind ids}

/-! ### The row of an entity -/

theorem rowOf_eq_some {rows : List Attributes} {v : Value} {r : Attributes}
    (h : rowOf rows v = some r) : r ∈ rows ∧ ∃ s, r.lookup "id" = some s ∧
      (Value.scalar s).equals v = true := by
  have hany := List.find?_some h
  refine ⟨List.mem_reverse.mp (List.mem_of_find?_eq_some h), ?_⟩
  cases hs : r.lookup "id" with
  | none =>
    rw [hs] at hany
    cases hany
  | some s =>
    rw [hs] at hany
    exact ⟨s, rfl, hany⟩

theorem rowOf_eq_none {rows : List Attributes} {n : Int} (h : rowOf rows (.int n) = none) :
    ∀ r ∈ rows, r.lookup "id" ≠ some (.int n) := by
  intro r hr hid
  have hany := List.find?_eq_none.mp h r (List.mem_reverse.mpr hr)
  rw [hid] at hany
  exact hany (beq_self_eq_true n)

/-- A row at a timestamp is that of a live row with an entry then. -/
structure IsRowAt (db : Database) (kind : Kind) (t : Timestamp) (i : Instant) (r : Attributes)
    (live : Row) (e : Entry) : Prop where
  mem : live ∈ db.tableRows kind.table
  entry : Journal.entryAtIn db kind live.id i = some e
  perm : r.Perm (("timestamp", .text t.key) :: Journal.shown kind (Journal.stateRow kind live e))

section IsRowAt

variable {db : Database} (h : Journal.Regular db) {r : Attributes} {live : Row} {e : Entry}
  (hr : IsRowAt db kind t i r live e)

include hr

theorem IsRowAt.attributes_perm :
    (attributesOf r).Perm (Journal.shown kind (Journal.stateRow kind live e)) := by
  have hname : ¬("timestamp" != timestampName) = true := by decide
  refine (hr.perm.filter _).trans (.of_eq ?_)
  refine (List.filter_cons_of_neg (p := fun f : String × Scalar => f.1 != timestampName)
    hname).trans (List.filter_eq_self.mpr ?_)
  intro f hf
  obtain ⟨c, hc, rfl⟩ := List.mem_map.mp hf
  have hnone : ∀ k ∈ Kind.all, ∀ c ∈ k.table.columns, c.name != timestampName := by decide
  exact hnone kind kind.mem_all c hc

include h

omit h in
/-- A row has the attributes of its entity under their names. -/
theorem IsRowAt.lookup_column {c : Column} (hc : c ∈ kind.table.columns) : r.lookup c.name =
    some (((Journal.stateRow kind live e).cell c.name).toScalar c.type) := by
  have hnames : ((("timestamp", Scalar.text t.key) ::
      Journal.shown kind (Journal.stateRow kind live e)).map Prod.fst).Nodup := by
    have hall : ∀ k ∈ Kind.all, ("timestamp" :: k.table.columnNames).Nodup := by decide
    rw [List.map_cons, Journal.shown, List.map_map]
    exact hall kind kind.mem_all
  have hother : (c.name == "timestamp") = false := by
    have hall : ∀ k ∈ Kind.all, ∀ c ∈ k.table.columns, (c.name == "timestamp") = false := by decide
    exact hall kind kind.mem_all c hc
  rw [lookup_perm hr.perm ((hr.perm.map _).nodup_iff.mpr hnames), List.lookup_cons, hother]
  dsimp only
  rw [Journal.shown]
  exact Column.lookup_name (Schema.columnNames_nodup kind.table_mem)
    (fun c => ((Journal.stateRow kind live e).cell c.name).toScalar c.type) hc

theorem IsRowAt.lookup_id : r.lookup "id" = some (.int live.id) := by
  refine (hr.lookup_column (Schema.idColumn_mem kind.table_mem)).trans (congrArg some ?_)
  change ((Journal.stateRow kind live e).cell "id").toScalar .integer = _
  rw [Journal.cell_id_stateRow kind (h.sound.fits _ kind.table_mem live hr.mem).number]
  rfl

end IsRowAt

/-- The rows at a timestamp are those of the listed entities that had an entry then. -/
theorem isRowAt_of_rowsAt (hi : t.resolveAt moment clock = .ok i)
    (hbound : i.micros < Instant.bound) {db : Database} (h : Journal.Regular db)
    {rows : List Attributes}
    (hrows : (rowsAt kind (ids.map .int) moment clock t).answer db = .ok rows) :
    (∀ r ∈ rows, ∃ live e, IsRowAt db kind t i r live e) ∧
    ∀ live ∈ db.tableRows kind.table, live.id ∈ ids → ∀ e,
      Journal.entryAtIn db kind live.id i = some e → ∃ r ∈ rows, IsRowAt db kind t i r live e := by
  have hbag := answer_rowsAt kind ids hi hbound h
  rw [hrows] at hbag
  obtain ⟨u, -, hbag⟩ := map_eq_ok_iff.mp hbag.symm
  constructor
  · intro r hr
    obtain ⟨r', hr', hperm⟩ := exists_perm_of_bag hbag.symm hr
    obtain ⟨state, hstate, rfl⟩ := List.mem_map.mp hr'
    obtain ⟨live, hl, hlive⟩ := List.mem_filterMap.mp (List.mem_filter.mp hstate).1
    obtain ⟨e, he, rfl⟩ := Option.map_eq_some_iff.mp hlive
    exact ⟨live, e, hl, he, hperm⟩
  · intro live hl hid e he
    have hstate : Journal.stateRow kind live e ∈ Journal.stateAt db kind i :=
      List.mem_filterMap.mpr ⟨live, hl, by rw [he]; rfl⟩
    have hnumber : decide ((Journal.stateRow kind live e).id ∈ ids) = true := by
      rw [Journal.id_stateRow kind (h.sound.fits _ kind.table_mem live hl).number]
      exact decide_eq_true hid
    obtain ⟨r, hr, hperm⟩ := exists_perm_of_bag hbag
      (List.mem_map_of_mem (List.mem_filter.mpr ⟨hstate, hnumber⟩))
    exact ⟨r, hr, hl, he, hperm.symm⟩

/-- Among the rows at a timestamp there is one for an entity if it has an entry then, and it has the
attributes of this entry. -/
theorem rowOf_rowsAt (hi : t.resolveAt moment clock = .ok i) (hbound : i.micros < Instant.bound)
    {db : Database} (h : Journal.Regular db) {rows : List Attributes}
    (hrows : (rowsAt kind (ids.map .int) moment clock t).answer db = .ok rows)
    {live : Row} (hl : live ∈ db.tableRows kind.table) (hid : live.id ∈ ids) :
    (∀ e, Journal.entryAtIn db kind live.id i = some e → ∃ r, rowOf rows (.int live.id) = some r ∧
      (attributesOf r).Perm (Journal.shown kind (Journal.stateRow kind live e))) ∧
    (Journal.entryAtIn db kind live.id i = none → rowOf rows (.int live.id) = none) := by
  obtain ⟨hfound, hexists⟩ := isRowAt_of_rowsAt hi hbound h hrows
  have hown : ∀ r, rowOf rows (.int live.id) = some r → ∃ e, IsRowAt db kind t i r live e := by
    intro r hr
    obtain ⟨hmem, s, hs, hequals⟩ := rowOf_eq_some hr
    obtain ⟨live', e, hrow⟩ := hfound r hmem
    obtain rfl := Option.some.inj (hs.symm.trans (hrow.lookup_id h))
    obtain rfl := h.sound.eq_of_id kind.table_mem hrow.mem hl (beq_iff_eq.mp hequals)
    exact ⟨e, hrow⟩
  constructor
  · intro e he
    obtain ⟨r, hr, hrow⟩ := hexists live hl hid e he
    cases hof : rowOf rows (.int live.id) with
    | none => exact absurd (hrow.lookup_id h) (rowOf_eq_none hof r hr)
    | some r' =>
      obtain ⟨e', hrow'⟩ := hown r' hof
      obtain rfl := Option.some.inj (he.symm.trans hrow'.entry)
      exact ⟨r', rfl, hrow'.attributes_perm⟩
  · intro he
    cases hof : rowOf rows (.int live.id) with
    | none => rfl
    | some r' =>
      obtain ⟨e', hrow'⟩ := hown r' hof
      cases he.symm.trans hrow'.entry

/-- There is an answer if the store has room for the numbers. -/
theorem exists_rowsAt_iff (hi : t.resolveAt moment clock = .ok i)
    (hbound : i.micros < Instant.bound) {db : Database} (h : Journal.Regular db) :
    (∃ rows, (rowsAt kind (ids.map .int) moment clock t).answer db = .ok rows) ↔
      ∀ n ∈ ids, Cell.isStorable n = true := by
  have hbag := answer_rowsAt kind ids hi hbound h
  rw [← kind.checkAll_select_iff ids]
  cases hanswer : (rowsAt kind (ids.map .int) moment clock t).answer db with
  | ok rows =>
    rw [hanswer] at hbag
    obtain ⟨u, hu, -⟩ := map_eq_ok_iff.mp hbag.symm
    exact ⟨fun _ => hu, fun _ => ⟨rows, rfl⟩⟩
  | error f =>
    rw [hanswer] at hbag
    refine ⟨fun ⟨_, hr⟩ => (nomatch hr), fun hcheck => ?_⟩
    rw [hcheck] at hbag
    cases hbag

end EntityView

end Chronicle
