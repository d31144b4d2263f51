import Chronicle.Proofs.Filter.Meaning
import Chronicle.Proofs.History.Batch
import Chronicle.Proofs.Statement.Conditions
import Chronicle.Proofs.Statement.Taken

/-!
# Matches of a filter

A filter whose values have the types of their attributes lets pass exactly the entities for whose
attributes, in the entry that holds at a timestamp, all of its conditions hold.

* `Kind.numbersWhere`: the numbers of the rows of a live table under conditions on its columns;
* `Query.exists_asOf_alone`: a query on a live table alone is read on the state;
* `Journal.Regular.takes_stateRow`: the state has cells that its columns can hold;
* `Filter.matching_iff`: what a filter lets pass.
-/

namespace Chronicle

open Chronicle.Calendar

/-! ## Conditions that the store takes -/

namespace Clause

variable {c : SourceColumn} {d : Clause} (h : d.Compares c)

include h

theorem Compares.resolved : d.Resolved fun _ => True := by
  cases h <;> simp [Clause.Resolved, Term.Resolved]

theorem Compares.isBlank : d.isBlank = false := by
  cases h <;> rfl

theorem Compares.isRaw : d.isRaw = false := by
  cases h <;> rfl

theorem Compares.check {env : Env} (hc : c.isKnown env = true) : d.check env = .ok () := by
  cases h with
  | value op h | truth op b =>
    rw [Clause.check, hc]
    · rfl
    · exact nofun
  | missing negated | listed negated h =>
    rw [Clause.check, hc]
    rfl

theorem Compares.slots : ∀ o ∈ d.slots, ∃ y, o = some (.cell y) := by
  cases h with
  | @value op s y h => exact List.forall_mem_singleton.mpr ⟨y, congrArg some h⟩
  | truth op b => exact fun o ho => nomatch ho
  | missing negated => exact fun o ho => nomatch ho
  | listed negated h =>
    rw [Clause.slots, List.forall_mem_map]
    exact fun b hb => (h b hb).imp fun y hy => congrArg some hy

end Clause

/-- Conditions that are written and are no text hold together if each of them does. -/
theorem Clause.joinedTruth_eq_true_iff {db : Database} {env : Env} {ds : List Clause}
    (h : ∀ d ∈ ds, d.isBlank = false ∧ d.isRaw = false) :
    Clause.joinedTruth env .and (ds.zip (Clause.truths db env ds)) = some true ↔
      ∀ d ∈ ds, d.truth db env = some true := by
  have hno : Clause.TextsAreLists .and ds := fun r hr => absurd (h _ hr).2 Bool.noConfusion
  have hshown : Clause.shown ds = ds := List.filter_eq_self.mpr fun d hd => by
    rw [(h d hd).1]
    rfl
  rw [Clause.joinedTruth_eq hno, hshown]
  exact (Truth.all_eq_true_iff _).trans List.forall_mem_map

/-! ## Numbers under conditions -/

namespace Kind

variable (kind : Kind) (ds : List Clause)

/-- The statement for the numbers of the rows of a live table under conditions. -/
def numbersWhere : Select where
  columns := [.column ⟨kind.liveSource, Schema.idColumn⟩ none]
  base := kind.liveSource
  joins := []
  conditions := ds
  orders := []
  limit := none

variable {kind} {ds}
  (h : ∀ d ∈ ds, ∃ c ∈ kind.table.columns, d.Compares ⟨kind.liveSource, c⟩)

include h

/-- The store takes such a statement. -/
theorem checkAll_numbersWhere : (kind.numbersWhere ds).checkAll = .ok () := by
  have hrender : ∃ x, (kind.numbersWhere ds).render = .ok x := by
    refine Select.render_of_succeeds (Select.write_succeeds_of (fun _ hj => nomatch hj)
      (fun d hd => ?_) fun _ ho => nomatch ho)
    obtain ⟨c, -, hcompares⟩ := h d hd
    exact Clause.write_succeeds d hcompares.resolved
  have hframe : (kind.numbersWhere []).Frame := by
    have hid : (⟨kind.liveSource, Schema.idColumn⟩ : SourceColumn).isKnown
        (kind.numbersWhere []).view = true :=
      kind.isKnown_live (Schema.idColumn_mem kind.table_mem)
    refine ⟨fun o ho => (nomatch ho), ?_⟩
    rw [Select.check_eq]
    refine bind_eq_ok_iff.mpr ⟨(), requires_eq_ok_iff.mpr ?_, rfl⟩
    exact List.all_eq_true.mpr (List.forall_mem_singleton.mpr hid)
  have hno : Clause.TextsAreLists .and ds := fun r hr => by
    obtain ⟨c, -, hcompares⟩ := h _ hr
    exact absurd hcompares.isRaw Bool.noConfusion
  refine (Select.checkAll_under_iff (s := kind.numbersWhere [])).mpr ⟨hrender, hframe,
    Clause.areCells_allSlots_iff.mpr fun d hd => ?_, (Clause.check_next_iff hno).mpr fun d hd => ?_⟩
  · obtain ⟨c, -, hcompares⟩ := h d hd
    exact hcompares.slots
  · obtain ⟨c, hc, hcompares⟩ := h d hd
    exact hcompares.check (kind.isKnown_live hc)

/-- It keeps the rows for which all of its conditions are true. -/
theorem matchingOn_numbersWhere (db : Database) (rows : List Row) :
    (kind.numbersWhere ds).matchingOn db [] rows =
      (rows.filter fun r => decide (∀ d ∈ ds,
        d.truth db [[kind.liveSource.relation r]] = some true)).map
          fun r => [kind.liveSource.relation r] := by
  have hkeeps : ∀ r : List Relation, (kind.numbersWhere ds).keeps db [] r =
      decide (∀ d ∈ ds, d.truth db [r] = some true) := by
    intro r
    rw [Bool.eq_iff_iff, decide_eq_true_eq, Select.keeps, beq_iff_eq]
    refine Clause.joinedTruth_eq_true_iff fun d hd => ?_
    obtain ⟨c, -, hcompares⟩ := h d hd
    exact ⟨hcompares.isBlank, hcompares.isRaw⟩
  have hmatching : (kind.numbersWhere ds).matchingOn db [] rows =
      (rows.map fun r => [kind.liveSource.relation r]).filter
        ((kind.numbersWhere ds).keeps db []) := rfl
  rw [hmatching, List.filter_map]
  exact congrArg _ (List.filter_congr fun r _ => hkeeps _)

end Kind

/-! ## Comparisons in queries -/

namespace Predicate

theorem compileAll_append_of {scope : Scope} {ps qs : List Predicate} {ds es : List Clause}
    (hps : compileAll scope ps = .ok ds) (hqs : compileAll scope qs = .ok es) :
    compileAll scope (ps ++ qs) = .ok (ds ++ es) := by
  induction ps generalizing ds with
  | nil =>
    rw [compileAll] at hps
    cases hps
    exact hqs
  | cons p ps ih =>
    rw [compileAll] at hps
    obtain ⟨d, hd, hps⟩ := bind_eq_ok_iff.mp hps
    obtain ⟨rest, hrest, hps⟩ := bind_eq_ok_iff.mp hps
    cases hps
    rw [List.cons_append, compileAll]
    exact bind_eq_ok_iff.mpr ⟨d, hd, bind_eq_ok_iff.mpr ⟨_, ih hrest, rfl⟩⟩

variable {ps : List Predicate} (h : ∀ p ∈ ps, p.isComparison = true)

include h

theorem arePlain_of_comparisons : arePlain ps = true := by
  induction ps with
  | nil => rfl
  | cons p ps ih =>
    obtain ⟨hp, hps⟩ := List.forall_mem_cons.mp h
    have hplain : p.isPlain = true := by
      unfold isComparison at hp
      split at hp <;> first | rfl | cases hp
    rw [arePlain, hplain, ih hps]
    rfl

theorem allFragments_of_comparisons : allFragments ps = [] := by
  induction ps with
  | nil => rfl
  | cons p ps ih =>
    obtain ⟨hp, hps⟩ := List.forall_mem_cons.mp h
    have hnone : p.fragments = [] := by
      unfold isComparison at hp
      split at hp <;> first | rfl | cases hp
    rw [allFragments, hnone, ih hps]
    rfl

theorem exists_predicates_of_comparisons (s : Substitution) (depth : Int) :
    ∃ qs, s.predicates depth ps = .ok qs := by
  induction ps with
  | nil => exact ⟨[], rfl⟩
  | cons p ps ih =>
    obtain ⟨hp, hps⟩ := List.forall_mem_cons.mp h
    obtain ⟨q, hq⟩ : ∃ q, s.predicate depth p = .ok q := by
      unfold isComparison at hp
      split at hp <;> first | exact ⟨_, rfl⟩ | cases hp
    obtain ⟨qs, hqs⟩ := ih hps
    rw [Substitution.predicates]
    exact ⟨q :: qs, bind_eq_ok_iff.mpr ⟨q, hq, bind_eq_ok_iff.mpr ⟨qs, hqs, rfl⟩⟩⟩

end Predicate

/-! ## Conditions of a filter -/

namespace Kind

/-- The column of an attribute in the live table. -/
def columnOf (k : Kind) (name : String) : Column := (k.table.column? name).getD Schema.idColumn

theorem columnOf_spec {k : Kind} {name : String} (h : k.hasAttribute name = true) :
    k.columnOf name ∈ k.table.columns ∧ (k.columnOf name).name = name := by
  have hall : ∀ k ∈ all, ∀ n ∈ specialAttributes ++ k.payload,
      k.columnOf n ∈ k.table.columns ∧ (k.columnOf n).name = n := by decide
  exact hall k k.mem_all name (List.mem_append.mpr ((k.hasAttribute_iff name).mp h))

/-- The name of an attribute means its column, in a query on the live table. -/
theorem column_attribute {k : Kind} {name : String} (h : k.hasAttribute name = true) :
    Scope.column [(k.table.name, k.liveSource)] ⟨k.table.name, name⟩ =
      .ok ⟨k.liveSource, k.columnOf name⟩ := by
  obtain ⟨hmem, hname⟩ := columnOf_spec h
  have hfound := Column.find?_name (Schema.columnNames_nodup k.table_mem) hmem
  rw [hname] at hfound
  exact Scope.column_eq_ok_iff.mpr ⟨List.lookup_cons_self, hfound⟩

/-- The columns for points in time are those whose values are read as such. -/
theorem timeFields_contains {k : Kind} {c : Column} (hc : c ∈ k.table.columns) :
    Condition.timeFields.contains c.name = decide (c.type = .instant) := by
  have hall : ∀ k ∈ all, ∀ c ∈ k.table.columns,
      Condition.timeFields.contains c.name = decide (c.type = .instant) := by decide
  exact hall k k.mem_all c hc

end Kind

namespace Journal

section State

variable {db : Database} (h : Regular db) {kind : Kind} {live : Row} {i : Instant} {e : Entry}
  (hl : live ∈ db.tableRows kind.table) (he : entryAtIn db kind live.id i = some e)

include h hl he

/-- The columns of the live table can hold the cells of the state. -/
theorem Regular.takes_stateRow (hid : Cell.isStorable live.id = true) {c : Column}
    (hc : c ∈ kind.table.columns) : c.type.Takes ((stateRow kind live e).cell c.name) := by
  rw [h.entryAtIn_eq] at he
  obtain ⟨⟨d, j⟩, hf, rfl⟩ := Option.map_eq_some_iff.mp he
  obtain ⟨hline, hd, -⟩ := h.foundAt_eq_some_iff.mp hf
  have hspecial : ∀ k ∈ Kind.all, ∀ c ∈ k.table.columns,
      (c.name = "id" → c.type = .integer) ∧ (c.name = "updated_at" → c.type = .instant) := by
    decide
  obtain ⟨hinteger, hinstant⟩ := hspecial kind kind.mem_all c hc
  by_cases hname : c.name = "id"
  · rw [hinteger hname, hname, cell_id_stateRow kind (h.sound.fits _ kind.table_mem live hl).number]
    exact hid
  · rw [h.cell_stateRow hl hf hc, Substitution.cellOf, if_neg hname]
    by_cases hcreated : c.name = "created_at"
    · rw [if_pos hcreated, ← hcreated]
      exact (h.sound.fits _ kind.table_mem live hl).takes c hc hname
    · rw [if_neg hcreated]
      by_cases hupdated : c.name = "updated_at"
      · rw [if_pos hupdated, hinstant hupdated]
        have hj := (List.mem_filter.mp (mem_of_lineAt hline).1).1
        exact (h.sound.fits _ Schema.journals_mem j hj).takes ⟨"recorded_at", .instant, false⟩
          (by decide) (by decide)
      · rw [if_neg hupdated]
        exact (h.sound.fits _ kind.journal_mem d hd).takes c
          (kind.mem_journal_columns hc hname hcreated hupdated) hname

/-- The attributes of an entity in an entry are the cells of its row of the state. -/
theorem Regular.lookup_attributesIn {c : Column} (hc : c ∈ kind.table.columns) :
    (attributesIn live e).lookup c.name =
      some (.scalar (((stateRow kind live e).cell c.name).toScalar c.type)) := by
  have hnames : (((shown kind (stateRow kind live e)).map fun f =>
      (f.1, Value.scalar f.2)).map Prod.fst).Nodup := by
    rw [shown, List.map_map, List.map_map]
    exact Schema.columnNames_nodup kind.table_mem
  rw [← lookup_perm (h.shown_perm hl he) hnames, shown, List.map_map]
  exact Column.lookup_name (Schema.columnNames_nodup kind.table_mem)
    (fun c => Value.scalar (((stateRow kind live e).cell c.name).toScalar c.type)) hc

end State

end Journal

namespace Filter

/-- The values of all conditions have the types of their attributes. -/
def IsTyped (f : Filter) : Prop := ∀ c ∈ f.conditions, c.IsTyped (f.kind.columnOf c.field).type

/-- All conditions hold for some attributes. -/
def Passes (f : Filter) (attributes : List (String × Value)) : Prop :=
  ∀ c ∈ f.conditions, ∃ x, attributes.lookup c.field = some (.scalar x) ∧
    c.Holds (f.kind.columnOf c.field).type x

/-- A condition of a filter in a statement on the live table. -/
def Tells (f : Filter) (c : Condition) (d : Clause) : Prop :=
  Clause.Tells ⟨f.kind.liveSource, f.kind.columnOf c.field⟩
    (c.Holds (f.kind.columnOf c.field).type) d

/-- The conditions of a filter in a statement on the live table. -/
theorem exists_clauses {f : Filter} (hf : f.IsTyped) (clock : Instant) :
    ∃ ps ds, f.predicates clock = .ok ps ∧ (∀ p ∈ ps, p.isComparison = true) ∧
      Predicate.compileAll [(f.kind.table.name, f.kind.liveSource)] ps = .ok ds ∧
      (∀ d ∈ ds, ∃ c ∈ f.conditions, f.Tells c d) ∧ ∀ c ∈ f.conditions, ∃ d ∈ ds, f.Tells c d := by
  have hall : ∀ c ∈ f.conditions, ∀ n, ∃ p d, c.Becomes f.kind.table.name
      [(f.kind.table.name, f.kind.liveSource)] ⟨f.kind.liveSource, f.kind.columnOf c.field⟩
        clock n p d := by
    intro c hc n
    obtain ⟨hmem, hname⟩ := Kind.columnOf_spec (f.known c hc)
    refine Condition.exists_becomes (Kind.column_attribute (f.known c hc)) ?_ (hf c hc)
    have htime := Kind.timeFields_contains hmem
    rwa [hname] at htime
  unfold predicates
  generalize 0 = n
  generalize f.conditions = cs at hall
  induction cs generalizing n with
  | nil =>
    exact ⟨[], [], rfl, List.forall_mem_nil _, (by rw [Predicate.compileAll]),
      List.forall_mem_nil _, List.forall_mem_nil _⟩
  | cons c cs ih =>
    obtain ⟨hc, hcs⟩ := List.forall_mem_cons.mp hall
    obtain ⟨p, d, h⟩ := hc n
    obtain ⟨ps, ds, hps, hcomparisons, hds, hfrom, hto⟩ := ih (n + 1) hcs
    refine ⟨p :: ps, d :: ds, bind_eq_ok_iff.mpr ⟨p, h.predicate, bind_eq_ok_iff.mpr ⟨ps, hps, rfl⟩⟩,
      List.forall_mem_cons.mpr ⟨h.isComparison, hcomparisons⟩, ?_, List.forall_mem_cons.mpr
        ⟨⟨c, List.mem_cons_self, h.tells⟩, fun d' hd' => ?_⟩, List.forall_mem_cons.mpr
        ⟨⟨d, List.mem_cons_self, h.tells⟩, fun c' hc' => ?_⟩⟩
    · rw [Predicate.compileAll]
      exact bind_eq_ok_iff.mpr ⟨d, h.compile, bind_eq_ok_iff.mpr ⟨ds, hds, rfl⟩⟩
    · obtain ⟨c', hc', htells⟩ := hfrom d' hd'
      exact ⟨c', List.mem_cons_of_mem _ hc', htells⟩
    · obtain ⟨d', hd', htells⟩ := hto c' hc'
      exact ⟨d', List.mem_cons_of_mem _ hd', htells⟩

/-- The query for the numbers of a filter, once its conditions are predicates. -/
def numbersQuery (f : Filter) (ps : List Predicate) (ids : List Int) : Query :=
  (((Query.ofTable f.kind.table.name).filterBy ps).selecting
    [.column ⟨f.kind.table.name, "id"⟩ none]).listing ⟨f.kind.table.name, "id"⟩ (ids.map .int)

theorem query_eq {f : Filter} {clock : Instant} {ps : List Predicate}
    (h : f.predicates clock = .ok ps) (ids : List Int) :
    f.query (ids.map .int) clock = .ok (f.numbersQuery ps ids) := by
  refine bind_eq_ok_iff.mpr ⟨ps, h, bind_eq_ok_iff.mpr ⟨_,
    Predicate.among_list_eq_ok_iff.mpr ⟨ids.map .int, ?_, rfl⟩, rfl⟩⟩
  rw [List.map_map]
  rfl

section Numbers

variable {f : Filter} {ps : List Predicate} {ds : List Clause}
  (hps : ∀ p ∈ ps, p.isComparison = true)
  (hds : Predicate.compileAll [(f.kind.table.name, f.kind.liveSource)] ps = .ok ds) (ids : List Int)

/-- The condition on the numbers. -/
def listed (f : Filter) (ids : List Int) : Clause :=
  .amongValues ⟨f.kind.liveSource, Schema.idColumn⟩ (ids.map .int) false

include hps

theorem comparisons_numbersQuery : ∀ p ∈ (f.numbersQuery ps ids).conditions,
    p.isComparison = true := by
  change ∀ p ∈ ([] ++ ps) ++ [_], _
  rw [List.nil_append, List.forall_mem_append]
  exact ⟨hps, List.forall_mem_singleton.mpr rfl⟩

theorem alone_numbersQuery : (f.numbersQuery ps ids).Alone f.kind where
  table := rfl
  joins := rfl
  orders := rfl
  limit := rfl
  asOf := rfl
  plain := Query.isPlain_iff.mpr
    ⟨rfl, Predicate.arePlain_of_comparisons (comparisons_numbersQuery hps ids), rfl⟩
  fragments := by
    rw [Query.fragments,
      Predicate.allFragments_of_comparisons (comparisons_numbersQuery hps ids)]
    rfl

omit hps
include hds

theorem compile_numbersQuery : (f.numbersQuery ps ids).compile =
    .ok (f.kind.numbersWhere (ds ++ [f.listed ids])) := by
  have hid : Scope.column [(f.kind.table.name, f.kind.liveSource)] ⟨f.kind.table.name, "id"⟩ =
      .ok ⟨f.kind.liveSource, Schema.idColumn⟩ := by cases f.kind <;> rfl
  have hjoins : Join.compileAll [(f.kind.table.name, f.kind.liveSource)] 1 [] =
    .ok ([], [(f.kind.table.name, f.kind.liveSource)]) := rfl
  refine Query.compile_of_compiled ⟨f.kind.findTable_table, rfl, hjoins, ?_, ?_, rfl, rfl⟩
  · refine Substitution.outputColumns_singleton.mpr ?_
    exact bind_eq_ok_iff.mpr ⟨_, hid, rfl⟩
  · change Predicate.compileAll _ (([] ++ ps) ++ [_]) = _
    rw [List.nil_append]
    refine Predicate.compileAll_append_of hds ?_
    rw [Predicate.compileAll, Predicate.compile]
    refine bind_eq_ok_iff.mpr ⟨f.listed ids, ?_, by rw [Predicate.compileAll]; rfl⟩
    exact bind_eq_ok_iff.mpr ⟨_, hid, bind_eq_ok_iff.mpr ⟨_, Kind.mapM_inUtc_int ids, rfl⟩⟩

end Numbers

section Answers

variable {f : Filter} {ids : List Int} {timestamp : Value} {t : Timestamp}
  {moment : Option Moment} {clock i : Instant} (hids : ∀ n ∈ ids, Cell.isStorable n = true)
  (ht : timestamp.toTimestamp = .ok t) (hi : t.resolveAt moment clock = .ok i)
  (hbound : i.micros < Instant.bound)

include hids ht hi hbound

/-- The query for the numbers, as of a timestamp, answers with those of the rows of the state for
which all conditions are true. -/
theorem exists_answer {ps : List Predicate} {ds : List Clause}
    (hps : ∀ p ∈ ps, p.isComparison = true)
    (hds : Predicate.compileAll [(f.kind.table.name, f.kind.liveSource)] ps = .ok ds)
    (hcompares : ∀ d ∈ ds, ∃ c ∈ f.kind.table.columns, d.Compares ⟨f.kind.liveSource, c⟩)
    {db : Database} (h : Journal.Regular db) : ∃ q' rows,
      (f.numbersQuery ps ids).asOfTimestamp timestamp moment clock = .ok q' ∧
      q'.run.answer db = .ok rows ∧
      bag rows = bag (((Journal.stateAt db f.kind i).filter fun r => decide (∀ d ∈ ds ++ [f.listed ids],
        d.truth db.opened [[f.kind.liveSource.relation r]] = some true)).map fun r =>
          [("id", (r.cell "id").toScalar .integer)]) := by
  have hcompile := compile_numbersQuery hds ids
  obtain ⟨q', a', hq', htable, ha', hm⟩ := Query.exists_asOf_alone (alone_numbersQuery hps ids) ht hi
    hbound (Predicate.exists_predicates_of_comparisons (comparisons_numbersQuery hps ids) _ _) hcompile
  have hall : ∀ d ∈ ds ++ [f.listed ids], ∃ c ∈ f.kind.table.columns,
      d.Compares ⟨f.kind.liveSource, c⟩ := by
    refine List.forall_mem_append.mpr ⟨hcompares, List.forall_mem_singleton.mpr
      ⟨Schema.idColumn, Schema.idColumn_mem f.kind.table_mem, .listed false ?_⟩⟩
    rw [Kind.listedBounds_id, List.forall_mem_map]
    exact fun n hn => (Kind.exists_cell_numberBound n).mpr (hids n hn)
  have hnames : ((f.kind.numbersWhere (ds ++ [f.listed ids])).columns.map
      OutputColumn.name).Nodup := List.nodup_singleton _
  have hanswer : (q'.run.answer db).map bag = .ok (bag (((Journal.stateAt db f.kind i).filter
      fun r => decide (∀ d ∈ ds ++ [f.listed ids],
        d.truth db.opened [[f.kind.liveSource.relation r]] = some true)).map fun r =>
          [("id", (r.cell "id").toScalar .integer)])) := by
    rw [Query.answer_run htable ha' hm.fragments']
    refine (hm.answerOver_bag (h.change (.opened db)) (fun _ hu => nomatch hu) hnames).trans ?_
    rw [Select.answerOver_eq hnames, Kind.checkAll_numbersWhere hall]
    refine congrArg Except.ok (congrArg bag ?_)
    change (((f.kind.numbersWhere (ds ++ [f.listed ids])).matchingOn db.opened []
      (Journal.stateAt db f.kind i)).map _).map _ = _
    rw [Kind.matchingOn_numbersWhere hall, List.map_map, List.map_map]
    refine List.map_congr_left fun r _ => ?_
    have hown : (⟨f.kind, t, i⟩ : Substitution).isIdColumn
        (.column ⟨f.kind.table.name, "id"⟩ none) = true := by
      rw [Substitution.isIdColumn, Substitution.isOwnTable_table ⟨f.kind, t, i⟩]
      rfl
    have hcell : (⟨f.kind.liveSource, Schema.idColumn⟩ : SourceColumn).cell
        [[f.kind.liveSource.relation r]] = r.cell "id" :=
      SourceColumn.cell_of_find (Env.find_between [] (f.kind.liveSource.relation r) (.nil _) (.nil _)
        f.kind.table_mem (Schema.idColumn_mem f.kind.table_mem) [])
    change Substitution.row _ [.column ⟨f.kind.table.name, "id"⟩ none] _ = _
    rw [Substitution.row, if_pos hown, ← hcell]
    rfl
  obtain ⟨rows, hrows, hbag⟩ := map_eq_ok_iff.mp hanswer
  exact ⟨q', rows, hq', hrows, hbag⟩

omit hids ht hi hbound in
/-- The numbers of an answer, each once. -/
theorem answer_runIds {q : Query} {db : Database} {rows : List Attributes} {is : List Scalar}
    (hrows : q.run.answer db = .ok rows) (his : rows.mapM EntityView.numberIn = .ok is) :
    q.runIds.answer db = .ok is.eraseDups := by
  have hlift : ∀ db', (rows.mapM fun r => (liftM (EntityView.numberIn r) : Action Scalar)).answer db' =
      .ok is := by
    intro db'
    rw [Action.answer_mapM fun _ => Action.keeps_lift _]
    exact his
  rw [EntityView.runIds_eq, Action.answer, Action.run_bind]
  unfold Action.answer at hrows
  rcases hrun : q.run.run db with ⟨r, db'⟩
  rw [hrun] at hrows
  obtain rfl : r = .ok rows := hrows
  have hkeeps : (rows.mapM fun r => (liftM (EntityView.numberIn r) : Action Scalar)).Keeps db' :=
    Action.keeps_mapM (fun _ => Action.keeps_lift _) rows
  change Action.answer _ db' = _
  rw [hkeeps.answer_bind, hlift]
  rfl

omit hids ht hi hbound in
/-- A column of the live table has the cell of the row. -/
theorem cell_stateRow (f : Filter) (live : Row) (e : Entry) {c : Column}
    (hc : c ∈ f.kind.table.columns) : (⟨f.kind.liveSource, c⟩ : SourceColumn).cell
      [[f.kind.liveSource.relation (Journal.stateRow f.kind live e)]] =
        (Journal.stateRow f.kind live e).cell c.name :=
  SourceColumn.cell_of_find (Env.find_between [] (f.kind.liveSource.relation _) (.nil _) (.nil _)
    f.kind.table_mem hc [])

omit hids ht hi hbound in
/-- Once its conditions are predicates, a filter answers with the numbers of one query. -/
theorem matching_eq_runIds {ps : List Predicate} {q : Query} (hps : f.predicates clock = .ok ps)
    (hq : (f.numbersQuery ps ids).asOfTimestamp timestamp moment clock = .ok q) :
    f.matching (ids.map .int) timestamp moment clock = q.runIds := by
  unfold matching
  rw [query_eq hps ids]
  change (do (← liftM ((f.numbersQuery ps ids).asOfTimestamp timestamp moment clock)).runIds :
    Action _) = _
  rw [hq]
  rfl

omit hids ht hi hbound in
/-- The numbers of an answer, each once, where every row has one. -/
theorem exists_runIds {q : Query} {db : Database} {rows : List Attributes}
    (hrows : q.run.answer db = .ok rows) (h : ∀ r ∈ rows, ∃ y, EntityView.numberIn r = .ok y) :
    ∃ found, q.runIds.answer db = .ok found ∧ found.Nodup ∧
      ∀ y, y ∈ found ↔ ∃ r ∈ rows, EntityView.numberIn r = .ok y := by
  obtain ⟨is, his⟩ := exists_mapM_eq_ok_iff.mpr h
  refine ⟨is.eraseDups, answer_runIds hrows his, nodup_eraseDups is, fun y => ?_⟩
  rw [List.mem_eraseDups]
  refine ⟨fun hy => exists_of_mem_mapM his hy, ?_⟩
  rintro ⟨r, hr, hy⟩
  obtain ⟨y', hmem, hy'⟩ := exists_mem_of_mapM his hr
  rwa [Except.ok.inj (hy.symm.trans hy')]

omit hids ht hi hbound in
/-- A query answers with the numbers of those of some entities that have an entry at an instant, and
of which something is true then. -/
def Lists (f : Filter) (q : Query) (db : Database) (i : Instant) (ids : List Int)
    (p : Row → Entry → Prop) : Prop :=
  ∃ rows, q.run.answer db = .ok rows ∧ (∀ r ∈ rows, ∃ y, EntityView.numberIn r = .ok y) ∧
    ∀ y, (∃ r ∈ rows, EntityView.numberIn r = .ok y) ↔ ∃ live ∈ db.tableRows f.kind.table, ∃ e,
      Journal.entryAtIn db f.kind live.id i = some e ∧ y = .int live.id ∧ live.id ∈ ids ∧ p live e

omit hids ht hi hbound in
theorem Lists.congr {q : Query} {db : Database} {p p' : Row → Entry → Prop}
    (h : f.Lists q db i ids p) (hp : ∀ live ∈ db.tableRows f.kind.table, ∀ e,
      Journal.entryAtIn db f.kind live.id i = some e → live.id ∈ ids → (p live e ↔ p' live e)) :
    f.Lists q db i ids p' := by
  obtain ⟨rows, hrows, hnumbers, hmem⟩ := h
  refine ⟨rows, hrows, hnumbers, fun y => (hmem y).trans ?_⟩
  exact exists_congr fun live => and_congr_right fun hl => exists_congr fun e =>
    and_congr_right fun he => and_congr_right fun _ => and_congr_right fun hid => hp live hl e he hid

omit hbound in
/-- A filter lets pass the entities with the numbers that its query answers with. -/
theorem exists_found {ps : List Predicate} {q : Query} (hps : f.predicates clock = .ok ps)
    (hq : (f.numbersQuery ps ids).asOfTimestamp timestamp moment clock = .ok q) {db : Database}
    {p : Row → Entry → Prop} (h : f.Lists q db i ids p) : ∃ found,
      (f.matching (ids.map .int) timestamp moment clock).answer db = .ok found ∧ found.Nodup ∧
      ∀ s, s ∈ found ↔ ∃ n ∈ ids, s = .int n ∧ ∃ live ∈ db.tableRows f.kind.table, live.id = n ∧
        ∃ e, (Journal.entryAt f.kind n timestamp moment clock).answer db = .ok (some e) ∧
          p live e := by
  obtain ⟨rows, hrows, hnumbers, hmem⟩ := h
  obtain ⟨found, hfound, hnodup, hfrom⟩ := exists_runIds hrows hnumbers
  have hentry : ∀ n ∈ ids, (Journal.entryAt f.kind n timestamp moment clock).answer db =
      .ok (Journal.entryAtIn db f.kind n i) := fun n hn =>
    Journal.answer_entryAt_eq_ok_iff.mpr ⟨t, i, ht, hi, hids n hn, rfl⟩
  rw [matching_eq_runIds hps hq]
  refine ⟨found, hfound, hnodup, fun s => ?_⟩
  rw [hfrom, hmem]
  constructor
  · rintro ⟨live, hl, e, he, rfl, hid, hp⟩
    exact ⟨live.id, hid, rfl, live, hl, rfl, e, (hentry _ hid).trans (congrArg _ he), hp⟩
  · rintro ⟨n, hn, rfl, live, hl, rfl, e, he, hp⟩
    rw [hentry _ hn] at he
    exact ⟨live, hl, e, Except.ok.inj he, rfl, hn, hp⟩

section Rows

variable {ps : List Predicate} {ds : List Clause} (hfrom : ∀ d ∈ ds, ∃ c ∈ f.conditions, f.Tells c d)
  (hto : ∀ c ∈ f.conditions, ∃ d ∈ ds, f.Tells c d) {db : Database} (h : Journal.Regular db)

include hfrom hto h

omit hids ht hi hbound in
/-- The conditions of a filter are true of a row of the state if they hold for the attributes of its
entity. -/
theorem truths_iff_passes {live : Row} (hl : live ∈ db.tableRows f.kind.table) {e : Entry}
    (he : Journal.entryAtIn db f.kind live.id i = some e) (hid : Cell.isStorable live.id = true) :
    (∀ d ∈ ds, d.truth db.opened [[f.kind.liveSource.relation
      (Journal.stateRow f.kind live e)]] = some true) ↔ f.Passes (Journal.attributesIn live e) := by
  have htruth : ∀ c ∈ f.conditions, ∀ d, f.Tells c d → (d.truth db.opened
      [[f.kind.liveSource.relation (Journal.stateRow f.kind live e)]] = some true ↔
        ∃ x, (Journal.attributesIn live e).lookup c.field = some (.scalar x) ∧
          c.Holds (f.kind.columnOf c.field).type x) := by
    intro c hc d htells
    obtain ⟨hcolumn, hname⟩ := Kind.columnOf_spec (f.known c hc)
    have htakes := h.takes_stateRow hl he hid hcolumn
    have hlookup := h.lookup_attributesIn hl he hcolumn
    rw [← cell_stateRow f live e hcolumn] at htakes hlookup
    rw [hname] at hlookup
    rw [htells.truth db.opened _ htakes, hlookup]
    simp
  constructor
  · intro hall c hc
    obtain ⟨d, hd, htells⟩ := hto c hc
    exact (htruth c hc d htells).mp (hall d hd)
  · intro hpasses d hd
    obtain ⟨c, hc, htells⟩ := hfrom d hd
    exact (htruth c hc d htells).mpr (hpasses c hc)

omit ht hi hbound in
/-- The conditions of a query are true of a row of the state if its number is asked for and those of
the filter hold for the attributes of its entity. -/
theorem truths_stateRow_iff {live : Row} (hl : live ∈ db.tableRows f.kind.table) {e : Entry}
    (he : Journal.entryAtIn db f.kind live.id i = some e) :
    (∀ d ∈ ds ++ [f.listed ids], d.truth db.opened [[f.kind.liveSource.relation
      (Journal.stateRow f.kind live e)]] = some true) ↔
        live.id ∈ ids ∧ f.Passes (Journal.attributesIn live e) := by
  have hlisted := Kind.truth_amongNumbers_iff hids db.opened
    ((cell_stateRow f live e (Schema.idColumn_mem f.kind.table_mem)).trans
      (Journal.cell_id_stateRow f.kind (h.sound.fits _ f.kind.table_mem live hl).number e))
  rw [List.forall_mem_append, List.forall_mem_singleton, listed, hlisted, and_comm]
  exact and_congr_right fun hid => truths_iff_passes hfrom hto h hl he (hids _ hid)

omit ht hi hbound in
/-- The rows of the state of which all is true, one by one: their numbers are those of the entities
that pass. -/
theorem mem_iff_of_bag {rows : List (List (String × Scalar))}
    (hbag : bag rows = bag (((Journal.stateAt db f.kind i).filter fun r =>
      decide (∀ d ∈ ds ++ [f.listed ids],
        d.truth db.opened [[f.kind.liveSource.relation r]] = some true)).map fun r =>
          [("id", (r.cell "id").toScalar .integer)])) (r : List (String × Scalar)) :
    r ∈ rows ↔ ∃ live ∈ db.tableRows f.kind.table, ∃ e,
      Journal.entryAtIn db f.kind live.id i = some e ∧ live.id ∈ ids ∧
        f.Passes (Journal.attributesIn live e) ∧ r = [("id", .int live.id)] := by
  have hrow : ∀ live ∈ db.tableRows f.kind.table, ∀ e,
      [("id", ((Journal.stateRow f.kind live e).cell "id").toScalar .integer)] =
        [("id", Scalar.int live.id)] := by
    intro live hl e
    rw [Journal.cell_id_stateRow f.kind (h.sound.fits _ f.kind.table_mem live hl).number]
    rfl
  refine ⟨fun hr => ?_, ?_⟩
  · obtain ⟨r', hr', hperm⟩ := exists_perm_of_bag hbag hr
    obtain ⟨state, hstate, rfl⟩ := List.mem_map.mp hr'
    obtain ⟨hstate, hall⟩ := List.mem_filter.mp hstate
    obtain ⟨live, hl, hlive⟩ := List.mem_filterMap.mp hstate
    obtain ⟨e, he, rfl⟩ := Option.map_eq_some_iff.mp hlive
    obtain ⟨hid, hpasses⟩ :=
      (truths_stateRow_iff hids hfrom hto h hl he).mp (of_decide_eq_true hall)
    exact ⟨live, hl, e, he, hid, hpasses, (List.perm_singleton.mp hperm).trans (hrow live hl e)⟩
  · rintro ⟨live, hl, e, he, hid, hpasses, rfl⟩
    have hstate : Journal.stateRow f.kind live e ∈ Journal.stateAt db f.kind i :=
      List.mem_filterMap.mpr ⟨live, hl, by rw [he]; rfl⟩
    have hall := (truths_stateRow_iff hids hfrom hto h hl he).mpr ⟨hid, hpasses⟩
    -- an answer keeps the rows only up to the order of their columns, but here there is one column
    obtain ⟨r, hr, hperm⟩ := exists_perm_of_bag hbag.symm
      (List.mem_map_of_mem (List.mem_filter.mpr ⟨hstate, decide_eq_true hall⟩))
    rw [hrow live hl e] at hperm
    rwa [List.singleton_perm.mp hperm]

/-- The rows that are answered have the numbers of the entities that pass. -/
theorem exists_lists (hps : ∀ p ∈ ps, p.isComparison = true)
    (hds : Predicate.compileAll [(f.kind.table.name, f.kind.liveSource)] ps = .ok ds) : ∃ q',
      (f.numbersQuery ps ids).asOfTimestamp timestamp moment clock = .ok q' ∧
      f.Lists q' db i ids fun live e => f.Passes (Journal.attributesIn live e) := by
  have hcompares : ∀ d ∈ ds, ∃ c ∈ f.kind.table.columns, d.Compares ⟨f.kind.liveSource, c⟩ := by
    intro d hd
    obtain ⟨c, hc, htells⟩ := hfrom d hd
    exact ⟨_, (Kind.columnOf_spec (f.known c hc)).1, htells.compares⟩
  obtain ⟨q', rows, hq', hrows, hbag⟩ := exists_answer hids ht hi hbound hps hds hcompares h
  have hmem := mem_iff_of_bag hids hfrom hto h hbag
  refine ⟨q', hq', rows, hrows, fun r hr => ?_, fun y => ⟨?_, ?_⟩⟩
  · obtain ⟨live, -, e, -, -, -, rfl⟩ := (hmem r).mp hr
    exact ⟨.int live.id, rfl⟩
  · rintro ⟨r, hr, hy⟩
    obtain ⟨live, hl, e, he, hid, hpasses, rfl⟩ := (hmem r).mp hr
    cases hy
    exact ⟨live, hl, e, he, rfl, hid, hpasses⟩
  · rintro ⟨live, hl, e, he, rfl, hid, hpasses⟩
    exact ⟨_, (hmem _).mpr ⟨live, hl, e, he, hid, hpasses, rfl⟩, rfl⟩

end Rows

omit hbound in
/-- A filter with values of the types of its attributes lets pass exactly those of some entities that
have a live row and an entry at a timestamp, and for whose attributes then all conditions hold. -/
theorem matching_iff (hproper : ∀ u, timestamp = .timestamp u → u.IsProper) (hf : f.IsTyped)
    {db : Database} (hdb : db.Reached) : ∃ found,
      (f.matching (ids.map .int) timestamp moment clock).answer db = .ok found ∧ found.Nodup ∧
      ∀ s, s ∈ found ↔ ∃ n ∈ ids, s = .int n ∧ ∃ live ∈ db.tableRows f.kind.table, live.id = n ∧
        ∃ e, (Journal.entryAt f.kind n timestamp moment clock).answer db = .ok (some e) ∧
          f.Passes (Journal.attributesIn live e) := by
  have hbound := EntityView.resolveAt_lt (Value.isProper_toTimestamp ht hproper) hi
  obtain ⟨ps, ds, hpredicates, hps, hds, hfrom, hto⟩ := f.exists_clauses hf clock
  obtain ⟨q, hq, hlists⟩ := exists_lists hids ht hi hbound hfrom hto hdb.regular hps hds
  exact exists_found hids ht hi hpredicates hq hlists

end Answers

/-- Work packages called like a draft or a plan, without description, and not changed since noon. -/
def drafts : Filter :=
  ⟨"drafts", .workPackage, [⟨"subject", .equals, [.text "Draft", .text "Plan"], rfl⟩,
    ⟨"description", .isMissing, [], rfl⟩,
    ⟨"updated_at", .atMost, [.text "2024-05-01T12:00:00Z"], rfl⟩], by decide⟩

theorem isTyped_drafts : drafts.IsTyped := by
  have hread : (Timestamp.read "2024-05-01T12:00:00Z").toOption = some (.absolute noonInUtc) := by
    decide +kernel
  have hnoon : ColumnType.Has .instant (.text "2024-05-01T12:00:00Z") := by
    cases h : Timestamp.read "2024-05-01T12:00:00Z" with
    | error e =>
      rw [h] at hread
      cases hread
    | ok t =>
      rw [h] at hread
      obtain rfl := Option.some.inj hread
      exact .read h
  refine List.forall_mem_cons.mpr ⟨.inr ?_, List.forall_mem_cons.mpr ⟨trivial,
    List.forall_mem_singleton.mpr ⟨by decide, List.forall_mem_singleton.mpr hnoon⟩⟩⟩
  exact List.forall_mem_cons.mpr ⟨.text _, List.forall_mem_singleton.mpr (.text _)⟩

theorem isProper_noonInUtc :
    ∀ u, Value.timestamp (.absolute noonInUtc) = .timestamp u → u.IsProper := by
  rintro u ⟨⟩
  exact (by decide : noonInUtc.micros < Instant.bound)

theorem matching_iff_drafts :
    (drafts.matching ([1, 2].map .int) (.timestamp (.absolute noonInUtc)) none
      Journal.firstDay.instant).answer staffed = .ok [.int 1] := by
  have hids : ∀ n ∈ [(1 : Int), 2], Cell.isStorable n = true := by decide
  obtain ⟨found, hfound, hnodup, hmem⟩ := matching_iff hids
    (rfl : (Value.timestamp (.absolute noonInUtc)).toTimestamp = _)
    (rfl : (Timestamp.absolute noonInUtc).resolveAt none Journal.firstDay.instant = _)
    isProper_noonInUtc isTyped_drafts (⟨_, rfl⟩ : staffed.Reached)
  have hshown : ∀ live ∈ staffed.tableRows Kind.workPackage.table,
      (Journal.entryAtIn staffed .workPackage 1 noonInUtc).map (fun e =>
        ["subject", "description", "updated_at"].map fun n =>
          ((Journal.attributesIn live e).lookup n).bind Value.toScalar?) =
        some [some (.text "Draft"), some .null, some (.moment noonInUtc.moment)] := by
    decide +kernel
  have horder : ColumnType.instant.order (.moment noonInUtc.moment)
      (.text "2024-05-01T12:00:00Z") = some .eq := by decide +kernel
  have hone : .int 1 ∈ found := by
    obtain ⟨live, hl, hid⟩ := List.mem_map.mp (ids_staffed ▸ List.mem_singleton_self 1)
    obtain ⟨e, he, hvalues⟩ := Option.map_eq_some_iff.mp (hshown live hl)
    simp only [List.map_cons, List.map_nil, List.cons.injEq, and_true] at hvalues
    obtain ⟨hsubject, hdescription, hupdated⟩ := hvalues
    have hlookup : ∀ n x, ((Journal.attributesIn live e).lookup n).bind Value.toScalar? = some x →
        (Journal.attributesIn live e).lookup n = some (.scalar x) := by
      intro n x hx
      obtain ⟨v, hv, hvx⟩ := Option.bind_eq_some_iff.mp hx
      cases v <;> cases hvx
      exact hv
    refine (hmem _).mpr ⟨1, by decide, rfl, live, hl, hid, e, ?_, ?_⟩
    · rw [Journal.answer_entryAt]
      exact congrArg Except.ok he
    · refine List.forall_mem_cons.mpr ⟨⟨_, hlookup _ _ hsubject, .text "Draft", List.mem_cons_self,
        (by decide)⟩,
        List.forall_mem_cons.mpr ⟨⟨_, hlookup _ _ hdescription, rfl⟩, List.forall_mem_singleton.mpr
          ⟨_, hlookup _ _ hupdated, List.forall_mem_singleton.mpr ⟨_, horder, by decide⟩⟩⟩⟩
  have hall : ∀ s ∈ found, s = .int 1 := by
    intro s hs
    obtain ⟨n, -, rfl, live, hl, rfl, -⟩ := (hmem s).mp hs
    have hid : live.id ∈ [1] := ids_staffed ▸ List.mem_map_of_mem hl
    rw [List.mem_singleton.mp hid]
  rw [hfound, eq_singleton_of_nodup hnodup fun s => ⟨hall s, fun hs => hs ▸ hone⟩]

/-- Work packages created since a moment that lies before the calendar in UTC, on its first day. -/
def sinceBeforeCalendar : Filter :=
  ⟨"since", .workPackage, [⟨"created_at", .atLeast,
    [.moment ⟨default, 0, some 50400000000, by decide⟩], rfl⟩], by decide⟩

/-- Such a moment is refused, although the entity has a live row and an entry, and was created
later. -/
theorem matching_refuses_before_calendar :
    (sinceBeforeCalendar.matching ([1].map .int) (.timestamp (.absolute noonInUtc)) none
      Journal.firstDay.instant).answer staffed = .error .outOfCalendar ∧
    ∃ live ∈ staffed.tableRows Kind.workPackage.table, live.id = 1 ∧
      (Journal.entryAtIn staffed .workPackage 1 noonInUtc).isSome = true ∧
      ∃ created, live.cell "created_at" = .instant created ∧
        ∀ c ∈ sinceBeforeCalendar.conditions, ∀ m, c.values = [.moment m] →
          (m.wallMicros : Int) - m.offset.getD 0 ≤ created.micros := by
  have hrefused : (match (sinceBeforeCalendar.matching ([1].map .int)
      (.timestamp (.absolute noonInUtc)) none Journal.firstDay.instant).answer staffed with
    | .error .outOfCalendar => true
    | _ => false) = true := by decide +kernel
  refine ⟨?_, ?_⟩
  · split at hrefused
    · assumption
    · cases hrefused
  obtain ⟨live, hl, hid⟩ := List.mem_map.mp (ids_staffed ▸ List.mem_singleton_self 1)
  have hcreated : ∀ r ∈ staffed.tableRows Kind.workPackage.table,
      r.cell "created_at" = .instant Journal.firstDay.instant := by decide +kernel
  refine ⟨live, hl, hid, by decide +kernel, _, hcreated live hl, List.forall_mem_singleton.mpr ?_⟩
  rintro m hm
  obtain rfl := Scalar.moment.inj (Value.scalar.inj (List.cons.inj hm).1)
  decide +kernel

end Filter

end Chronicle
