import Chronicle.Proofs.Filter.Contains

/-!
# Filters that look for a text

A filter that asks whether an attribute contains a text, or does not, lets pass exactly the entities
whose attribute, in the entry that holds at a timestamp, contains it, or does not.

* `Substitution.exists_rows_listing`: what a query for numbers answers with, in the journal;
* `Substitution.checkAll_listing`: the store takes the query for a condition by pattern;
* `Filter.exists_search`: the query as of a timestamp;
* `Filter.search_iff`: what such a filter lets pass.
-/

namespace Chronicle

open Chronicle.Calendar Fragment Pattern

/-! ## Numbers that are answered -/

namespace Substitution

section Numbers

variable {s : Substitution} {db : Database} (hdb : Journal.Regular db) {ps : List Predicate}
  {b : Select} {scope : Scope} (hb : s.OnJournal ps b scope) {c : SourceColumn}
  (hc : scope.column (s.column ⟨s.kind.table.name, "id"⟩) = .ok c) {ids : List Int}
  (hids : ∀ n ∈ ids, Cell.isStorable n = true)

include hdb hb hc hids

/-- A list of numbers holds for the entities whose numbers are in it. -/
theorem truth_amongNumbers_iff {x : Held} (hx : x.Holds s db []) :
    (Clause.amongValues c (ids.map .int) false).truth db [x.asOf s] = some true ↔
      x.live.id ∈ ids := by
  have hapart : s.Apart [] := fun u hu => nomatch hu
  have hid := Schema.idColumn_mem s.kind.table_mem
  have hnumber := (hdb.sound.fits _ s.kind.table_mem x.live hx.live).number
  have hcell : (⟨s.kind.liveSource, Schema.idColumn⟩ : SourceColumn).cell [x.onState s] =
      .int x.live.id :=
    (SourceColumn.cell_of_find (hapart.find_live hx.joined rfl hid _ [])).trans
      (Journal.cell_id_stateRow s.kind hnumber _)
  have hrenamed : (Clause.amongValues (s.kind.counterpart 2 ⟨s.kind.liveSource, Schema.idColumn⟩)
      (ids.map .int) false).truth db [x.asOf s] =
        (Clause.amongValues ⟨s.kind.liveSource, Schema.idColumn⟩ (ids.map .int) false).truth db
          [x.onState s] :=
    Clause.truth_renamed db (.amongValues ⟨s.kind.liveSource, Schema.idColumn⟩ (ids.map .int) false)
      (hx.renames hdb hapart [] []) ((Scopes.base s 2).within.column s.column_number)
  rw [hb.mirrors.column s.column_number hc, hrenamed, Kind.truth_amongNumbers_iff hids db hcell]

/-- If the store takes the query for some numbers, it answers with those of the entities whose state
passes. -/
theorem exists_rows_listing (hnumbered : b.Numbered c) {ds : List Clause}
    (h : List.Forall₂ (s.Follows db) ds b.conditions)
    (hcheck : (b.listing c (ids.map .int)).checkAll = .ok ()) :
    ∃ rows, (b.listing c (ids.map .int)).answer db = .ok rows ∧
      (∀ r ∈ rows, ∃ y, EntityView.numberIn r = .ok y) ∧
      ∀ y, (∃ r ∈ rows, EntityView.numberIn r = .ok y) ↔ ∃ x : Held, x.Holds s db [] ∧
        y = .int x.live.id ∧ x.live.id ∈ ids ∧
          ∀ d ∈ ds, d.truth db [x.onState s] = some true := by
  obtain ⟨rows, hrows⟩ : ∃ rows, (b.listing c (ids.map .int)).answer db = .ok rows := by
    rw [Select.answer_eq, Select.answerOver_eq (s := b.listing c (ids.map .int)) hnumbered.nodup,
      hcheck]
    exact ⟨_, rfl⟩
  have hnumber : ∀ x : Held, x.Holds s db [] →
      EntityView.numberIn (b.row (x.asOf s)) = .ok (.int x.live.id) := by
    intro x hx
    rw [EntityView.numberIn, hnumbered.lookup_id, hnumbered.type,
      hb.mirrors.column s.column_number hc, cell_number hdb 2 hx]
    rfl
  have hmem : ∀ r, r ∈ rows ↔ ∃ x : Held, x.Holds s db [] ∧ (x.live.id ∈ ids ∧
      ∀ d ∈ ds, d.truth db [x.onState s] = some true) ∧ b.row (x.asOf s) = r := by
    intro r
    obtain ⟨-, rfl⟩ := hnumbered.answer_listing hrows
    simp only [List.mem_map, List.mem_filter, mem_extend_iff hdb hb]
    constructor
    · rintro ⟨_, ⟨⟨x, hx, rfl⟩, hkeeps⟩, rfl⟩
      obtain ⟨hall, hlisted⟩ := (keeps_listing_iff h c _ hx).mp hkeeps
      exact ⟨x, hx, ⟨(truth_amongNumbers_iff hdb hb hc hids hx).mp hlisted, hall⟩, rfl⟩
    · rintro ⟨x, hx, ⟨hid, hall⟩, rfl⟩
      exact ⟨_, ⟨⟨x, hx, rfl⟩, (keeps_listing_iff h c _ hx).mpr
        ⟨hall, (truth_amongNumbers_iff hdb hb hc hids hx).mpr hid⟩⟩, rfl⟩
  refine ⟨rows, hrows, fun r hr => ?_, fun y => ⟨?_, ?_⟩⟩
  · obtain ⟨x, hx, -, rfl⟩ := (hmem r).mp hr
    exact ⟨_, hnumber x hx⟩
  · rintro ⟨r, hr, hy⟩
    obtain ⟨x, hx, hpasses, rfl⟩ := (hmem r).mp hr
    exact ⟨x, hx, Except.ok.inj (hy.symm.trans (hnumber x hx)), hpasses⟩
  · rintro ⟨x, hx, rfl, hpasses⟩
    exact ⟨_, (hmem _).mpr ⟨x, hx, hpasses, rfl⟩, hnumber x hx⟩

end Numbers

/-- What is held are the entries of live rows. -/
theorem exists_held_iff {s : Substitution} {db : Database} (hdb : Journal.Regular db)
    {p : Row → Entry → Prop} :
    (∃ x : Held, x.Holds s db [] ∧ p x.live (Journal.entryOfRows s.kind x.line x.payload)) ↔
      ∃ live ∈ db.tableRows s.kind.table, ∃ e,
        Journal.entryAtIn db s.kind live.id s.instant = some e ∧ p live e := by
  simp only [hdb.entryAtIn_eq, Option.map_eq_some_iff]
  constructor
  · rintro ⟨x, hx, hp⟩
    exact ⟨x.live, hx.live, _, ⟨_, hx.found, rfl⟩, hp⟩
  · rintro ⟨live, hl, _, ⟨found, hfound, rfl⟩, hp⟩
    exact ⟨⟨found.1, found.2, live, []⟩, ⟨hl, hfound, .nil⟩, hp⟩

end Substitution

/-! ## The query in the journal -/

/-- The names of attributes need no quotes. -/
theorem Kind.lettered_attribute {k : Kind} {name : String} (h : k.hasAttribute name = true) :
    IsLettered name := by
  obtain ⟨hcolumn, hname⟩ := Kind.columnOf_spec h
  exact hname ▸ Schema.lettered_columns k.table_mem hcolumn

namespace Substitution

/-- The relations of a query on the live table alone, in the journal. -/
theorem OnJournal.view {s : Substitution} {ps : List Predicate} {b : Select} {scope : Scope}
    (hb : s.OnJournal ps b scope) : b.view = [s.asOfRelations [] [] [] (emptyRelations [])] := by
  rw [Select.view, Select.sources, hb.base, hb.joins]
  exact congrArg (· :: []) (emptyRelations_asOf s 2 [])

/-- In them the columns of the live table have their counterparts. -/
theorem OnJournal.find_counterpart {s : Substitution} {ps : List Predicate} {b : Select}
    {scope : Scope} (hb : s.OnJournal ps b scope) {c : Column} (hc : c ∈ s.kind.table.columns) :
    ∃ x, Env.find b.view (some (s.kind.counterpart 2 ⟨s.kind.liveSource, c⟩).source.name)
      (s.kind.counterpart 2 ⟨s.kind.liveSource, c⟩).column.name =
        .found (s.kind.counterpart 2 ⟨s.kind.liveSource, c⟩).column x := by
  have hapart : s.Apart [] := fun u hu => nomatch hu
  rw [hb.view]
  exact ⟨_, hapart.find_counterpart (Env.covers_emptyRelations []) (c := ⟨s.kind.liveSource, c⟩) rfl
    hc [] [] [] []⟩

/-- A text stays the only condition. -/
theorem OnJournal.conditions_raw {s : Substitution} {r : RawFragment} {b : Select} {scope : Scope}
    (hb : s.OnJournal [.raw r] b scope) : b.conditions = [.raw (s.raw r)] := by
  obtain ⟨ps', hps', hconditions⟩ := hb.conditions
  cases hps'
  rw [Predicate.compileAll] at hconditions
  obtain ⟨d, hd, hconditions⟩ := bind_eq_ok_iff.mp hconditions
  rw [Predicate.compileAll] at hconditions
  rw [Predicate.compile] at hd
  obtain ⟨_, hr, rfl⟩ := map_eq_ok_iff.mp hd
  obtain rfl := checkFragment_eq_ok hr
  exact (Except.ok.inj hconditions).symm

section Taken

open Condition

variable {s : Substitution} {b : Select} {c : SourceColumn} {field : String}
  (hfield : s.kind.hasAttribute field = true) {index : Nat} {lacks : Bool} {v : Value}
  (hconditions : b.conditions = [.raw (pattern lacks (s.column ⟨s.kind.table.name, field⟩)
    (patternParam field index) v)]) (ids : List Int)

include hconditions

/-- The conditions are the pattern and the list of numbers. -/
theorem forall_mem_listing {p : Clause → Prop}
    (hpattern : p (.raw (pattern lacks (s.column ⟨s.kind.table.name, field⟩)
      (patternParam field index) v))) (hlisted : p (.amongValues c (ids.map .int) false)) :
    ∀ d ∈ (b.listing c (ids.map .int)).conditions, p d := by
  rw [Select.listing, hconditions]
  exact List.forall_mem_cons.mpr ⟨hpattern, List.forall_mem_singleton.mpr hlisted⟩

include hfield

omit hconditions in
theorem lettered_counterpart : IsLetteredColumn (s.column ⟨s.kind.table.name, field⟩) := by
  obtain ⟨hcolumn, hname⟩ := Kind.columnOf_spec hfield
  exact hname ▸ (s.lettered_column hcolumn).2

/-- There is room for their values if there is room for the numbers. -/
theorem areCells_listing (htype : c.column.type = .integer)
    (hids : ∀ n ∈ ids, Cell.isStorable n = true) :
    ∀ d ∈ (b.listing c (ids.map .int)).conditions, d.slots.AreCells := by
  have hlettered := Kind.lettered_attribute hfield
  have htarget := lettered_counterpart hfield
  refine forall_mem_listing hconditions ids ?_ ?_
  · rw [Clause.slots, slots_pattern (isParam_patternParam hlettered index) lacks htarget v]
    exact List.forall_mem_singleton.mpr ⟨_, rfl⟩
  · rw [Clause.slots, ← Scalar.map_ofNumber?_some, listedBounds_numbers htype, List.map_map, List.map_map,
      Slots.AreCells, List.forall_mem_map]
    exact fun n hn => ⟨.int n, congrArg some (if_pos (hids n hn))⟩

theorem textsAreLists_listing :
    Clause.TextsAreLists .and (b.listing c (ids.map .int)).conditions := by
  have hlettered := Kind.lettered_attribute hfield
  have htarget := lettered_counterpart hfield
  have hall : ∀ d ∈ (b.listing c (ids.map .int)).conditions, ∀ r, d = .raw r → r.IsListOf .and := by
    refine forall_mem_listing hconditions ids (fun r hr => ?_) nofun
    rw [← Clause.raw.inj hr]
    exact isListOf_pattern htarget (isParam_patternParam hlettered index) lacks v
  exact fun r hr _ => hall _ hr r rfl

variable {scope : Scope} {ps : List Predicate} (hb : s.OnJournal ps b scope)

include hb

/-- Their names mean something in the journal. -/
theorem check_listing (hc : scope.column (s.column ⟨s.kind.table.name, "id"⟩) = .ok c) :
    ∀ d ∈ (b.listing c (ids.map .int)).conditions, d.check b.view = .ok () := by
  have hlettered := Kind.lettered_attribute hfield
  have htarget := lettered_counterpart hfield
  obtain ⟨hcolumn, hname⟩ := Kind.columnOf_spec hfield
  refine forall_mem_listing hconditions ids ?_ ?_
  · obtain ⟨x, hcounterpart⟩ := hb.find_counterpart hcolumn
    have hsame := s.column_eq_counterpart 2 (s.kind.columnOf field)
    have hfound : Env.find b.view (some (s.column ⟨s.kind.table.name, field⟩).table)
        (s.column ⟨s.kind.table.name, field⟩).name =
          .found (s.kind.counterpart 2 ⟨s.kind.liveSource, s.kind.columnOf field⟩).column x := by
      rw [hname] at hsame
      rw [hsame]
      exact hcounterpart
    exact (Clause.check_raw_iff _).mpr fun _ =>
      isResolved_pattern (isParam_patternParam hlettered index) lacks htarget v hfound
  · obtain ⟨x, hfound⟩ := hb.find_counterpart (Schema.idColumn_mem s.kind.table_mem)
    rw [← hb.mirrors.column s.column_number hc] at hfound
    rw [Clause.check]
    exact requires_eq_ok_iff.mpr (SourceColumn.isKnown_of_find hfound)

variable (hnumbered : b.Numbered c)

include hnumbered

/-- The query for a condition by pattern can be written. -/
theorem exists_render_listing : ∃ x, (b.listing c (ids.map .int)).render = .ok x := by
  have hlettered := Kind.lettered_attribute hfield
  have htarget := lettered_counterpart hfield
  have hjoins : ∀ j ∈ (b.listing c (ids.map .int)).joins, Written.Succeeds j.on.write := by
    change ∀ j ∈ b.joins, _
    rw [hb.joins, List.forall_mem_cons, List.forall_mem_singleton]
    exact ⟨writeValidAt_succeeds _ _ _,
      Clause.write_succeeds (p := fun _ => True) _ ⟨trivial, trivial⟩⟩
  have hstarts : Written.Starts (Clause.writeAll (b.listing c (ids.map .int)).conditions) := by
    rw [Select.listing, hconditions]
    exact starts_pattern htarget hlettered lacks v index c _
  exact Select.render_of_starts hjoins hstarts hnumbered.orders hnumbered.limit

/-- The store takes it if it has room for the numbers. -/
theorem checkAll_listing (hc : scope.column (s.column ⟨s.kind.table.name, "id"⟩) = .ok c)
    (hids : ∀ n ∈ ids, Cell.isStorable n = true) (hframe : (b.listing c (ids.map .int)).Frame) :
    (b.listing c (ids.map .int)).checkAll = .ok () := by
  have hrender : ∃ x, (b.listing c (ids.map .int)).render = .ok x :=
    exists_render_listing hfield hconditions ids hb hnumbered
  have hchecks := (Clause.check_next_iff (textsAreLists_listing hfield hconditions ids)).mpr
    (check_listing hfield hconditions ids hb hc)
  rw [← (b.listing c (ids.map .int)).under_conditions]
  exact Select.checkAll_under_iff.mpr ⟨hrender, hframe, Clause.areCells_allSlots_iff.mpr
    (areCells_listing hfield hconditions ids hnumbered.type hids), hchecks⟩

end Taken

end Substitution

namespace Filter

section Frame

variable {f : Filter} {ps : List Predicate} {ids : List Int} {timestamp : Value} {t : Timestamp}
  {moment : Option Moment} {clock i : Instant} (ht : timestamp.toTimestamp = .ok t)
  (hi : t.resolveAt moment clock = .ok i) (hbound : i.micros < Instant.bound)

include ht hi

/-- The query of a filter is read as of the instant that the timestamp denotes. -/
theorem asOf_numbersQuery {q : Query}
    (hq : (⟨f.kind, t, i⟩ : Substitution).query (f.numbersQuery ps ids) = .ok q) :
    (f.numbersQuery ps ids).asOfTimestamp timestamp moment clock = .ok q := by
  have hkind : Kind.ofTable? (f.numbersQuery ps ids).table = some f.kind := f.kind.ofTable?_table
  unfold Query.asOfTimestamp
  rw [hkind]
  refine bind_eq_ok_iff.mpr ⟨t, ht, bind_eq_ok_iff.mpr ⟨⟨f.kind, t, i⟩, ?_, hq⟩⟩
  rw [Substitution.build, hi]
  rfl

include hbound

/-- The store takes the query for no numbers and without conditions. -/
theorem exists_frame : ∃ q₀ a₀, (⟨f.kind, t, i⟩ : Substitution).query (f.numbersQuery [] []) =
    .ok q₀ ∧ q₀.compile = .ok a₀ ∧ a₀.Frame := by
  have hnone : ∀ p ∈ ([] : List Predicate), p.isComparison = true := List.forall_mem_nil _
  have hlisted : ∀ d ∈ [] ++ [f.listed []], ∃ c ∈ f.kind.table.columns,
      d.Compares ⟨f.kind.liveSource, c⟩ := List.forall_mem_singleton.mpr
    ⟨Schema.idColumn, Schema.idColumn_mem f.kind.table_mem, .listed false (List.forall_mem_nil _)⟩
  obtain ⟨q₀, a₀, hq₀, -, ha₀, hm⟩ := Query.exists_asOf_alone (alone_numbersQuery hnone []) ht hi
    hbound (Predicate.exists_predicates_of_comparisons (comparisons_numbersQuery hnone []) _ _)
    (compile_numbersQuery (by rw [Predicate.compileAll]) [])
  have hcheck : a₀.checkAll = .ok () :=
    (hm.checkAll fun u hu => nomatch hu).trans (Kind.checkAll_numbersWhere hlisted)
  rw [← a₀.under_conditions] at hcheck
  obtain ⟨_, t', i', hkind, ht', hi', hq₀⟩ := Query.substitution_of_asOf hq₀
  obtain rfl := Option.some.inj (hkind.symm.trans f.kind.ofTable?_table)
  obtain rfl : t = t' := Except.ok.inj (ht.symm.trans ht')
  obtain rfl : i = i' := Except.ok.inj (hi.symm.trans hi')
  exact ⟨q₀, a₀, hq₀, ha₀, (Select.checkAll_under_iff.mp hcheck).2.1⟩

/-- Whatever the conditions of a filter are, the store takes the rest of its query as of a
timestamp. -/
theorem frame_numbersQuery {q : Query} {a : Select}
    (hq : (⟨f.kind, t, i⟩ : Substitution).query (f.numbersQuery ps ids) = .ok q)
    (ha : q.compile = .ok a) : a.Frame := by
  obtain ⟨q₀, a₀, hq₀, ha₀, hframe⟩ := exists_frame (f := f) ht hi hbound
  -- The two queries differ in nothing but their conditions.
  obtain ⟨ps₀, -, hq₀⟩ := bind_eq_ok_iff.mp hq₀
  obtain ⟨ps', -, hq⟩ := bind_eq_ok_iff.mp hq
  obtain rfl : q₀.under ps' = q := by
    cases hq₀
    cases hq
    rfl
  have hself : q₀.under q₀.conditions = q₀ := by
    cases q₀
    rfl
  obtain ⟨scope₀, h₀⟩ := Query.compiled_of_compile ha₀
  obtain ⟨scope, h⟩ := Query.compiled_of_compile ha
  obtain ⟨-, hsame⟩ := Query.Compiled.eq_under (hself ▸ h₀) h
  rw [hsame]
  exact ⟨hframe.slots, hframe.check⟩

end Frame

/-- Where numbers are answered, rows have been. -/
theorem exists_rows_of_runIds {q : Query} {db : Database} {found : List Scalar}
    (h : q.runIds.answer db = .ok found) : ∃ rows, q.run.answer db = .ok rows := by
  rw [EntityView.runIds_eq, Action.answer, Action.run_bind] at h
  unfold Action.answer
  rcases hrun : q.run.run db with ⟨r, db'⟩
  rw [hrun] at h
  cases r with
  | error e => cases h
  | ok rows => exact ⟨rows, rfl⟩

/-- A filter that is answered has asked the journal for the listed entities. -/
theorem exists_listing_of_matching {f : Filter} {ids : List Int} {timestamp : Value}
    {moment : Option Moment} {clock : Instant} {db : Database} {found : List Scalar}
    (h : (f.matching (ids.map .int) timestamp moment clock).answer db = .ok found) :
    ∃ ps q rows, f.predicates clock = .ok ps ∧
      ((((Query.ofTable f.kind.table.name).filterBy ps).selecting
        [.column ⟨f.kind.table.name, "id"⟩ none]).listing ⟨f.kind.table.name, "id"⟩
          ((ids.map some).map Scalar.ofNumber?)).asOfTimestamp timestamp moment clock = .ok q ∧
      q.run.answer db = .ok rows := by
  have hscalars : ids.map Value.int = ((ids.map some).map Scalar.ofNumber?).map .scalar := by
    rw [Scalar.map_ofNumber?_some, List.map_map]
    rfl
  unfold matching at h
  rw [hscalars, (Action.keeps_lift _).answer_bind] at h
  obtain ⟨live, hlive, h⟩ := bind_eq_ok_iff.mp h
  obtain ⟨ps, hps, rfl⟩ := query_scalars hlive
  rw [(Action.keeps_lift _).answer_bind] at h
  obtain ⟨q, hq, h⟩ := bind_eq_ok_iff.mp h
  obtain ⟨rows, hrows⟩ := exists_rows_of_runIds h
  exact ⟨ps, q, rows, hps, hq, hrows⟩

section Search

open Condition

variable {f : Filter} {field : String} (hfield : f.kind.hasAttribute field = true) (lacks : Bool)
  (v : String)

/-- The text of a single condition by pattern. -/
def fragment (f : Filter) (field : String) (lacks : Bool) (v : String) : RawFragment :=
  pattern lacks ⟨f.kind.table.name, field⟩ (patternParam field 0) (.text v)

include hfield

theorem compile_fragment (scope : Scope) :
    Predicate.compileAll scope [.raw (f.fragment field lacks v)] =
      .ok [.raw (f.fragment field lacks v)] := by
  have hparam := isParam_patternParam (Kind.lettered_attribute hfield) 0
  rw [Predicate.compileAll, Predicate.compile, Predicate.compileAll]
  refine bind_eq_ok_iff.mpr ⟨_, map_eq_ok_iff.mpr ⟨_, ?_, rfl⟩, rfl⟩
  exact checkFragment_pattern hparam lacks (patternParam_not_reserved field 0) (.text v)

/-- As of an instant it is on the counterpart of its column. -/
theorem raw_fragment (t : Timestamp) (i : Instant) :
    (⟨f.kind, t, i⟩ : Substitution).raw (f.fragment field lacks v) = pattern lacks
      ((⟨f.kind, t, i⟩ : Substitution).column ⟨f.kind.table.name, field⟩) (patternParam field 0)
        (.text v) := by
  obtain ⟨hcolumn, hname⟩ := Kind.columnOf_spec hfield
  have hraw := (⟨f.kind, t, i⟩ : Substitution).raw_pattern hcolumn
    (isParam_patternParam (Kind.lettered_attribute hfield) 0) lacks (.text v)
  rwa [hname] at hraw

theorem keepsParams_fragment (t : Timestamp) (i : Instant) :
    (⟨f.kind, t, i⟩ : Substitution).KeepsParams (f.fragment field lacks v) := by
  refine List.forall_mem_singleton.mpr fun _ => ?_
  have hsql := congrArg RawFragment.sql (raw_fragment hfield lacks v t i)
  change (⟨f.kind, t, i⟩ : Substitution).rawText (f.fragment field lacks v).sql =
    patternText lacks _ _ at hsql
  rw [hsql]
  exact mem_declared_pattern (isParam_patternParam (Kind.lettered_attribute hfield) 0) lacks

/-- What a condition by pattern says of the state that an entry holds. -/
theorem truth_fragment {t : Timestamp} {i : Instant} {db : Database} {x : Substitution.Held}
    (hx : x.Holds ⟨f.kind, t, i⟩ db []) :
    (Clause.raw (f.fragment field lacks v)).truth db [x.onState ⟨f.kind, t, i⟩] =
      patternTruth lacks v ((Journal.stateRow f.kind x.live
        (Journal.entryOfRows f.kind x.line x.payload)).cell field) := by
  obtain ⟨hcolumn, hname⟩ := Kind.columnOf_spec hfield
  have hlettered := (⟨f.kind, t, i⟩ : Substitution).lettered_column hcolumn
  have hapart : (⟨f.kind, t, i⟩ : Substitution).Apart [] := fun u hu => nomatch hu
  have hfound := hapart.find_live hx.joined (c := ⟨f.kind.liveSource, f.kind.columnOf field⟩) rfl
    hcolumn (Journal.stateRow f.kind x.live (Journal.entryOfRows f.kind x.line x.payload)) []
  dsimp only at hfound
  rw [hname] at hlettered hfound
  rw [Clause.truth, fragment,
    cell_pattern hlettered.1 (isParam_patternParam (Kind.lettered_attribute hfield) 0)]
  exact toTruth_patternExpression (Expression.columnCell_of_find hfound) lacks _

variable (ids : List Int) {timestamp : Value} {t : Timestamp} {moment : Option Moment}
  {clock i : Instant} (ht : timestamp.toTimestamp = .ok t) (hi : t.resolveAt moment clock = .ok i)
  (hbound : i.micros < Instant.bound)

include ht hi hbound

/-- The query for a single condition by pattern can be read as of a timestamp, in the journal. -/
theorem exists_search : ∃ q b c scope,
    (f.numbersQuery [.raw (f.fragment field lacks v)] ids).asOfTimestamp timestamp moment clock =
      .ok q ∧
    q.compile = .ok (b.listing c (ids.map .int)) ∧
    (⟨f.kind, t, i⟩ : Substitution).OnJournal [.raw (f.fragment field lacks v)] b scope ∧
    scope.column ((⟨f.kind, t, i⟩ : Substitution).column ⟨f.kind.table.name, "id"⟩) = .ok c ∧
    b.Numbered c ∧ (b.listing c (ids.map .int)).Frame ∧
    b.conditions = [.raw ((⟨f.kind, t, i⟩ : Substitution).raw (f.fragment field lacks v))] := by
  let s : Substitution := ⟨f.kind, t, i⟩
  have hcompile := compile_numbersQuery (compile_fragment hfield lacks v
    [(f.kind.table.name, f.kind.liveSource)]) ids
  obtain ⟨q, hq⟩ : ∃ q, s.query (f.numbersQuery [.raw (f.fragment field lacks v)] ids) = .ok q :=
    ⟨_, bind_eq_ok_iff.mpr ⟨[.raw (s.raw (f.fragment field lacks v)),
      .membership (s.column ⟨f.kind.table.name, "id"⟩) (ids.map .int) none false], rfl,
        bind_eq_ok_iff.mpr ⟨[], rfl, rfl⟩⟩⟩
  have hkeeps : ∀ r ∈ (f.numbersQuery [.raw (f.fragment field lacks v)] ids).fragments,
      s.KeepsParams r := List.forall_mem_singleton.mpr (keepsParams_fragment hfield lacks v t i)
  obtain ⟨a, ha⟩ := (Substitution.exists_compile_query_iff hbound rfl (List.forall_mem_nil _)
    (List.forall_mem_nil _) hq hcompile).mpr ⟨List.forall_mem_nil _, hkeeps⟩
  have hframe := frame_numbersQuery ht hi hbound hq ha
  have hasOf := asOf_numbersQuery ht hi hq
  obtain ⟨q', hq', rfl⟩ := Substitution.query_listing hq
  rw [← Scalar.map_ofNumber?_some] at ha
  obtain ⟨b, c, scope, hb, hc, rfl⟩ := Query.compile_listing ha
  rw [Scalar.map_ofNumber?_some] at ha hframe
  have hjournal := Substitution.onJournal_of_query (s := s) hbound hq' hb
  have hnumbered := Substitution.numbered (s := s) (f.asksNumbers _) hq' hb hc
  have hconditions := hjournal.conditions_raw
  exact ⟨_, b, c, scope, hasOf, ha, hjournal, hc, hnumbered, hframe, hconditions⟩

/-- It answers with the entities of whose state the condition is true. -/
theorem exists_lists_pattern (hids : ∀ n ∈ ids, Cell.isStorable n = true) {db : Database}
    (hdb : Journal.Regular db) : ∃ q,
      (f.numbersQuery [.raw (f.fragment field lacks v)] ids).asOfTimestamp timestamp moment
        clock = .ok q ∧
      f.Lists q db i ids fun live e =>
        patternTruth lacks v ((Journal.stateRow f.kind live e).cell field) = some true := by
  obtain ⟨q, b, c, scope, hasOf, hcompile, hjournal, hc, hnumbered, hframe, hconditions⟩ :=
    exists_search hfield lacks v ids ht hi hbound
  have hopened : Journal.Regular db.opened := hdb.change (.opened db)
  have hfollows : List.Forall₂ ((⟨f.kind, t, i⟩ : Substitution).Follows db.opened)
      [.raw (f.fragment field lacks v)] b.conditions := by
    rw [hconditions]
    exact .cons (Substitution.follows_of_pattern hopened hfield lacks (.text v)) .nil
  rw [raw_fragment hfield] at hconditions
  have hagree : RawFragment.Agree (Clause.allFragments b.conditions) := by
    rw [hconditions]
    have hnone : RawFragment.Agree [] := by
      intro r hr
      cases hr
    exact hnone.cons (List.forall_mem_nil _)
  have hshared : (b.listing c (ids.map .int)).shared = b.listing c (ids.map .int) := by
    rw [Select.shared_listing, hjournal.shared_eq hnumbered.orders hagree]
  have hcheck := Substitution.checkAll_listing hfield hconditions ids hjournal hnumbered hc hids
    hframe
  obtain ⟨rows, hrows, hnumbers, hmem⟩ := Substitution.exists_rows_listing hopened hjournal hc hids
    hnumbered hfollows hcheck
  refine ⟨q, hasOf, rows, ?_, hnumbers, fun y => (hmem y).trans ?_⟩
  · rw [Query.answer_run_shared hcompile, hshared, hrows]
  refine Iff.trans ?_ (Substitution.exists_held_iff (s := ⟨f.kind, t, i⟩) hopened
    (p := fun live e => y = .int live.id ∧ live.id ∈ ids ∧
      patternTruth lacks v ((Journal.stateRow f.kind live e).cell field) = some true))
  refine exists_congr fun x => and_congr_right fun hx => and_congr_right fun _ =>
    and_congr_right fun _ => ?_
  rw [List.forall_mem_singleton, truth_fragment hfield lacks v hx]

/-- For an attribute that is a text these are the ones that contain the text, or do not. -/
theorem exists_lists_search (htext : (f.kind.columnOf field).type = .text)
    (hids : ∀ n ∈ ids, Cell.isStorable n = true) {db : Database} (hdb : Journal.Regular db) :
    ∃ q, (f.numbersQuery [.raw (f.fragment field lacks v)] ids).asOfTimestamp timestamp moment
        clock = .ok q ∧
      f.Lists q db i ids fun live e => ∃ x,
        (Journal.attributesIn live e).lookup field = some (.scalar x) ∧
          if lacks then x.Lacks v else x.Contains v := by
  obtain ⟨q, hq, hlists⟩ := exists_lists_pattern hfield lacks v ids ht hi hbound hids hdb
  obtain ⟨hcolumn, hname⟩ := Kind.columnOf_spec hfield
  refine ⟨q, hq, hlists.congr fun live hl e he hid => ?_⟩
  have htakes := hdb.takes_stateRow hl he (hids _ hid) hcolumn
  have hlookup := hdb.lookup_attributesIn hl he hcolumn
  rw [htext, hname] at htakes hlookup
  rw [hlookup, patternTruth_iff htakes]
  simp only [Option.some.injEq, Value.scalar.injEq, exists_eq_left']

end Search

/-- A single condition by pattern becomes a text, whatever its value is. -/
theorem predicates_of_pattern {f : Filter} {c : Condition} {v : Value} {clock : Instant}
    (hconditions : f.conditions = [c]) (hop : c.operator = .contains ∨ c.operator = .lacks)
    (hread : c.comparedValues clock = .ok [v]) : f.predicates clock =
      .ok [.raw (f.fragment c.field (c.operator = .lacks) v.plain)] := by
  have hpredicate : c.predicate f.kind.table.name clock 0 =
      .ok (.raw (f.fragment c.field (c.operator = .lacks) v.plain)) := by
    refine bind_eq_ok_iff.mpr ⟨_, hread, ?_⟩
    rcases hop with hop | hop <;> rw [hop] <;> rfl
  rw [Filter.predicates, hconditions]
  exact bind_eq_ok_iff.mpr ⟨_, hpredicate, rfl⟩

/-- A single condition asks for a text in an attribute of the payload, or for its absence. -/
structure SearchesFor (f : Filter) (c : Condition) (v : String) : Prop where
  conditions : f.conditions = [c]
  operator : c.operator = .contains ∨ c.operator = .lacks
  values : c.values = [.text v]
  field : c.field ∈ f.kind.payload
  type : (f.kind.columnOf c.field).type = .text

namespace SearchesFor

variable {f : Filter} {c : Condition} {v : String} (h : f.SearchesFor c v)

include h

theorem hasAttribute : f.kind.hasAttribute c.field = true :=
  (f.kind.hasAttribute_iff c.field).mpr (.inr h.field)

theorem finds_iff (x : Scalar) :
    c.Finds v x ↔ if decide (c.operator = .lacks) then x.Lacks v else x.Contains v := by
  unfold Condition.Finds
  rcases h.operator with hop | hop <;> rw [hop] <;> rfl

/-- Such a condition becomes a text. -/
theorem predicates (clock : Instant) :
    f.predicates clock = .ok [.raw (f.fragment c.field (c.operator = .lacks) v)] := by
  obtain ⟨hcolumn, hname⟩ := Kind.columnOf_spec h.hasAttribute
  have htime := Kind.timeFields_contains hcolumn
  rw [hname, h.type] at htime
  have hread : c.comparedValues clock = .ok [.text v] := by
    rw [Condition.comparedValues, htime, h.values]
    rfl
  have hplain : (Value.text v).plain = v := rfl
  rw [predicates_of_pattern h.conditions h.operator hread, hplain]

end SearchesFor

/-- The attributes of the payload are those of the entry. -/
theorem lookup_attributesIn_payload {kind : Kind} {name : String} (h : name ∈ kind.payload)
    (live : Row) (e : Entry) :
    (Journal.attributesIn live e).lookup name = e.payload.lookup name := by
  have hother : ∀ k ∈ Kind.all, ∀ n ∈ k.payload,
      n ≠ "id" ∧ n ≠ "created_at" ∧ n ≠ "updated_at" := by decide
  obtain ⟨hid, hcreated, hupdated⟩ := hother kind kind.mem_all name h
  rw [Journal.attributesIn, List.lookup_append]
  simp [List.lookup_cons, beq_false_of_ne hid, beq_false_of_ne hcreated, beq_false_of_ne hupdated]

/-- A filter that asks for a text lets pass exactly those of some entities that have a live row and
an entry at a timestamp, and whose attribute contains the text then; one that asks for its absence,
those whose attribute is missing or does not contain it. -/
theorem search_iff {f : Filter} {c : Condition} {v : String} (h : f.SearchesFor c v)
    {ids : List Int} (hids : ∀ n ∈ ids, Cell.isStorable n = true) {timestamp : Value} {t : Timestamp}
    {moment : Option Moment} {clock i : Instant} (ht : timestamp.toTimestamp = .ok t)
    (hi : t.resolveAt moment clock = .ok i)
    (hproper : ∀ u, timestamp = .timestamp u → u.IsProper) {db : Database} (hdb : db.Reached) :
    ∃ found, (f.matching (ids.map .int) timestamp moment clock).answer db = .ok found ∧
      found.Nodup ∧ ∀ s, s ∈ found ↔ ∃ n ∈ ids, s = .int n ∧
        ∃ live ∈ db.tableRows f.kind.table, live.id = n ∧
          ∃ e, (Journal.entryAt f.kind n timestamp moment clock).answer db = .ok (some e) ∧
            ∃ x, e.payload.lookup c.field = some (.scalar x) ∧ c.Finds v x := by
  have hbound := EntityView.resolveAt_lt (Value.isProper_toTimestamp ht hproper) hi
  obtain ⟨q, hq, hlists⟩ := exists_lists_search h.hasAttribute (c.operator = .lacks) v ids ht hi
    hbound h.type hids hdb.regular
  obtain ⟨found, hfound, hnodup, hmem⟩ := exists_found hids ht hi (h.predicates clock) hq hlists
  refine ⟨found, hfound, hnodup, fun s => (hmem s).trans ?_⟩
  refine exists_congr fun n => and_congr_right fun _ => and_congr_right fun _ =>
    exists_congr fun live => and_congr_right fun _ => and_congr_right fun _ => exists_congr fun e =>
      and_congr_right fun _ => exists_congr fun x => ?_
  rw [lookup_attributesIn_payload h.field, h.finds_iff]

/-- Work packages whose subject contains a text. -/
def titled (v : String) : Filter :=
  ⟨"titled", .workPackage, [⟨"subject", .contains, [.text v], rfl⟩],
    List.forall_mem_singleton.mpr (by decide : Kind.workPackage.hasAttribute "subject" = true)⟩

theorem searchesFor_titled (v : String) :
    (titled v).SearchesFor ⟨"subject", .contains, [.text v], rfl⟩ v :=
  ⟨rfl, .inl rfl, rfl, (by decide : "subject" ∈ Kind.workPackage.payload), rfl⟩

theorem search_iff_titled :
    ((titled "RAF").matching ([1, 2].map .int) (.timestamp (.absolute noonInUtc)) none
      Journal.firstDay.instant).answer staffed = .ok [.int 1] ∧
    ((titled "D%_t").matching ([1, 2].map .int) (.timestamp (.absolute noonInUtc)) none
      Journal.firstDay.instant).answer staffed = .ok [] := by
  have hsubject : (Journal.entryAtIn staffed .workPackage 1 noonInUtc).map (fun e =>
      (e.payload.lookup "subject").bind Value.toScalar?) = some (some (.text "Draft")) := by
    decide +kernel
  obtain ⟨e, he, hvalue⟩ := Option.map_eq_some_iff.mp hsubject
  obtain ⟨w, hw, hscalar⟩ := Option.bind_eq_some_iff.mp hvalue
  have hlookup : e.payload.lookup "subject" = some (.scalar (.text "Draft")) := by
    cases w <;> cases hscalar
    exact hw
  have hentry : (Journal.entryAt .workPackage 1 (.timestamp (.absolute noonInUtc)) none
      Journal.firstDay.instant).answer staffed = .ok (some e) := by
    rw [Journal.answer_entryAt]
    exact congrArg Except.ok he
  have hall : ∀ v, ∃ found, ((titled v).matching ([1, 2].map .int)
      (.timestamp (.absolute noonInUtc)) none Journal.firstDay.instant).answer staffed = .ok found ∧
        found.Nodup ∧ ∀ s, s ∈ found ↔ s = .int 1 ∧ (Scalar.text "Draft").Contains v := by
    intro v
    obtain ⟨found, hfound, hnodup, hmem⟩ := search_iff (searchesFor_titled v)
      (show ∀ n ∈ [(1 : Int), 2], Cell.isStorable n = true by decide)
      (rfl : (Value.timestamp (.absolute noonInUtc)).toTimestamp = _)
      (rfl : (Timestamp.absolute noonInUtc).resolveAt none Journal.firstDay.instant = _) isProper_noonInUtc
      (⟨_, rfl⟩ : staffed.Reached)
    refine ⟨found, hfound, hnodup, fun s => (hmem s).trans ⟨?_, ?_⟩⟩
    · rintro ⟨n, -, rfl, live, hl, rfl, e', he', x, hx, hfinds⟩
      have hid : live.id = 1 := List.mem_singleton.mp (ids_staffed ▸ List.mem_map_of_mem hl)
      rw [hid] at he' ⊢
      obtain rfl : e = e' := Option.some.inj (Except.ok.inj (hentry.symm.trans he'))
      obtain rfl := Value.scalar.inj (Option.some.inj (hlookup.symm.trans hx))
      exact ⟨rfl, hfinds⟩
    · rintro ⟨rfl, hcontains⟩
      obtain ⟨live, hl, hid⟩ := List.mem_map.mp (ids_staffed ▸ List.mem_singleton_self 1)
      exact ⟨1, by decide, rfl, live, hl, hid, e, hentry, _, hlookup, hcontains⟩
  constructor
  · obtain ⟨found, hfound, hnodup, hmem⟩ := hall "RAF"
    have hcontains : (Scalar.text "Draft").Contains "RAF" := by
      rw [Scalar.Contains]
      decide
    rw [hfound, eq_singleton_of_nodup hnodup fun s => (hmem s).trans (and_iff_left hcontains)]
  · obtain ⟨found, hfound, -, hmem⟩ := hall "D%_t"
    have hlacks : ¬(Scalar.text "Draft").Contains "D%_t" := by
      rw [Scalar.Contains]
      decide
    rw [hfound, List.eq_nil_iff_forall_not_mem.mpr fun s hs => hlacks ((hmem s).mp hs).2]

/-- Whatever a filter asks for, the store has room for all numbers for which it has answered. -/
theorem storable_of_matching {f : Filter} {ids : List Int} {timestamp : Value}
    {moment : Option Moment} {clock : Instant} {db : Database} {found : List Scalar}
    (h : (f.matching (ids.map .int) timestamp moment clock).answer db = .ok found) :
    ∀ n ∈ ids, Cell.isStorable n = true := by
  obtain ⟨ps, q, rows, -, hq, hrows⟩ := exists_listing_of_matching h
  exact fun n hn => Query.storable_of_listing (f.asksNumbers ps) hq hrows (List.mem_map_of_mem hn)

/-- A number for which the store has no room is not answered, although no entity has it. -/
theorem search_refuses_large_numbers :
    (titled "RAF").SearchesFor ⟨"subject", .contains, [.text "RAF"], rfl⟩ "RAF" ∧ staffed.Reached ∧
      ¬∃ found, ((titled "RAF").matching ([9223372036854775808].map .int)
        (.timestamp (.absolute noonInUtc)) none Journal.firstDay.instant).answer staffed =
          .ok found := by
  refine ⟨searchesFor_titled _, ⟨_, rfl⟩, ?_⟩
  rintro ⟨found, hfound⟩
  exact absurd (storable_of_matching hfound _ (List.mem_singleton_self _)) (by decide)

end Filter

end Chronicle
