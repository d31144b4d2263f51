import Chronicle.Proofs.Entity.Current
import Chronicle.Proofs.History.Differences

/-!
# The present as of a timestamp

As of a timestamp that no entry was recorded after, a live table that is written to by journaled
writes only is what it is now, the time of the last change aside; and a view of differences has
nothing to show then.

* `Query.exists_answer_ofTable`: all rows of a live table as of a timestamp;
* `Journal.Current.shows_live`: the rows once everything has been recorded;
* `EntityView.lacks_of_differing`: what equals the values shown is no difference;
* `Database.Written.asOf_shows_live`: tables and views.
-/

namespace Chronicle

open Chronicle.Calendar

/-! ## All rows of a table -/

namespace Kind

variable (kind : Kind)

/-- What the query for all rows of a live table becomes. -/
def whole : Select := (kind.select []).under []

theorem compile_ofTable : (Query.ofTable kind.table.name).compile = .ok kind.whole := by
  have hlookup : List.lookup kind.table.name [(kind.table.name, kind.liveSource)] =
      some kind.liveSource := List.lookup_cons_self
  have hjoins : Join.compileAll [(kind.table.name, kind.liveSource)] 1 [] =
    .ok ([], [(kind.table.name, kind.liveSource)]) := rfl
  refine Query.compile_of_compiled ⟨kind.findTable_table, rfl, hjoins, ?_, rfl, rfl, rfl⟩
  change outputColumns _ kind.table.name [] = _
  rw [outputColumns, hlookup]
  rfl

theorem checkAll_whole : kind.whole.checkAll = .ok () := by
  have hselect : ((kind.select []).under (kind.select []).conditions).checkAll = .ok () :=
    (kind.checkAll_select_iff []).mpr fun _ hi => nomatch hi
  obtain ⟨-, hframe, -⟩ := Select.checkAll_under_iff.mp hselect
  have hrender : ∃ x, kind.whole.render = .ok x :=
    Select.render_of_succeeds (Select.write_succeeds_of (fun _ hj => nomatch hj)
      (fun _ hc => nomatch hc) fun _ ho => nomatch ho)
  have hslots : (Clause.allSlots []).AreCells := fun _ hs => nomatch hs
  have hnone : Clause.checkAll (kind.select []).view [] = .ok () := by rw [Clause.checkAll]
  exact Select.checkAll_under_iff.mpr ⟨hrender, hframe, hslots, rfl, hnone⟩

theorem matchingOn_whole (db : Database) (rows : List Row) :
    kind.whole.matchingOn db [] rows = rows.map fun r => [kind.liveSource.relation r] := by
  have hmatching : kind.whole.matchingOn db [] rows =
      (rows.map fun r => [kind.liveSource.relation r]).filter (kind.whole.keeps db []) := rfl
  rw [hmatching, List.filter_eq_self, List.forall_mem_map]
  exact fun r _ => rfl

/-- The attributes that the state at an instant shares with the live table, as long as all changes are
journaled: all but the time of the last change. -/
def lasting : List String := "id" :: "created_at" :: kind.payload

theorem exists_column_of_lasting {name : String} (h : name ∈ kind.lasting) :
    ∃ c ∈ kind.table.columns, c.name = name ∧ name ≠ "updated_at" := by
  have hall : ∀ k ∈ all, ∀ n ∈ k.lasting, ∃ c ∈ k.table.columns, c.name = n ∧ n ≠ "updated_at" := by
    decide
  exact hall kind kind.mem_all name h

end Kind

/-- The rows of a live table as of a timestamp are those of the state at its instant. -/
theorem Query.exists_answer_ofTable {db : Database} (h : Journal.Regular db) (kind : Kind)
    {timestamp : Value} {t : Timestamp} {moment : Option Moment} {clock i : Instant}
    (ht : timestamp.toTimestamp = .ok t) (hi : t.resolveAt moment clock = .ok i)
    (hbound : i.micros < Instant.bound) : ∃ q' rows,
      (Query.ofTable kind.table.name).asOfTimestamp timestamp moment clock = .ok q' ∧
      q'.run.answer db = .ok rows ∧
      bag rows = bag ((Journal.stateAt db kind i).map fun r =>
        ("timestamp", .text t.key) :: Journal.shown kind r) := by
  obtain ⟨q', a', hq', htable, ha', hm⟩ := Query.exists_asOf_alone
    (q := Query.ofTable kind.table.name) ⟨rfl, rfl, rfl, rfl, rfl, rfl, rfl⟩ ht hi hbound ⟨_, rfl⟩
    kind.compile_ofTable
  have hnames : (kind.whole.columns.map OutputColumn.name).Nodup :=
    kind.columnNames_select [] ▸ Schema.columnNames_nodup kind.table_mem
  have hbag := hm.answerOver_bag (h.change (.opened db)) (fun _ hu => nomatch hu) hnames
  rw [← Query.answer_run htable ha' hm.fragments', Select.answerOver_eq hnames,
    kind.checkAll_whole] at hbag
  obtain ⟨rows, hrows, hbag⟩ := map_eq_ok_iff.mp hbag
  refine ⟨q', rows, hq', hrows, hbag.trans ?_⟩
  change bag (((kind.whole.matchingOn db.opened [] (Journal.stateAt db kind i)).map
    kind.whole.row).map fun cells => ("timestamp", Scalar.text t.key) :: cells) = _
  rw [kind.matchingOn_whole, List.map_map, List.map_map]
  exact congrArg bag (List.map_congr_left fun r _ => congrArg _ (kind.row_select [] r))

/-! ## Rows that show live rows -/

/-- A row has the attributes that last as the entity of a live row has them now. -/
def ShowsLive (kind : Kind) (live : Row) (r : Attributes) : Prop :=
  ∀ name ∈ kind.lasting, ∃ x, r.lookup name = some x ∧
    (Entity.ofRow kind live).get? name = some (.scalar x)

namespace Journal

theorem names_shown (kind : Kind) (r : Row) :
    (shown kind r).map Prod.fst = kind.table.columnNames := by
  rw [shown, List.map_map]
  rfl

/-- What a state shows of an entity shows its live row, where the lasting cells are the same. -/
theorem shows_live_of_perm {kind : Kind} {live s : Row} {r : Attributes}
    (hcells : ∀ c ∈ kind.table.columns, c.name ≠ "updated_at" → s.cell c.name = live.cell c.name)
    (h : r.Perm (shown kind s)) : ShowsLive kind live r := by
  intro name hname
  obtain ⟨c, hc, rfl, hupdated⟩ := kind.exists_column_of_lasting hname
  have hnames : (r.map Prod.fst).Nodup := by
    rw [(h.map _).nodup_iff, names_shown]
    exact Schema.columnNames_nodup kind.table_mem
  refine ⟨(live.cell c.name).toScalar c.type, ?_, Entity.get?_ofRow hc live⟩
  rw [lookup_perm h hnames, shown, Column.lookup_name (Schema.columnNames_nodup kind.table_mem)
    (fun c => (s.cell c.name).toScalar c.type) hc, hcells c hc hupdated]

end Journal

theorem ShowsLive.of_attributesOf {kind : Kind} {live : Row} {r : Attributes}
    (h : ShowsLive kind live (EntityView.attributesOf r)) : ShowsLive kind live r := by
  intro name hname
  obtain ⟨x, hx, hlive⟩ := h name hname
  have hother : ∀ k ∈ Kind.all, ∀ n ∈ k.lasting, (n != EntityView.timestampName) = true := by decide
  have hfilter := EntityView.lookup_filter_name (· != EntityView.timestampName) r name
  rw [if_pos (hother kind kind.mem_all name hname)] at hfilter
  exact ⟨x, hfilter.symm.trans hx, hlive⟩

theorem forall₂_filterMap {α β : Type} {f : α → Option β} {xs : List α}
    (h : ∀ x ∈ xs, ∃ y, f x = some y) :
    List.Forall₂ (fun x y => f x = some y) xs (xs.filterMap f) := by
  induction xs with
  | nil => exact .nil
  | cons x xs ih =>
    obtain ⟨⟨y, hy⟩, hxs⟩ := List.forall_mem_cons.mp h
    rw [List.filterMap_cons_some hy]
    exact .cons hy (ih hxs)

/-- If bags are the same, what goes along with the rows of one of them goes along with those of the
other in some order. -/
theorem exists_forall₂_of_bag {α : Type} {R : α → List (String × Scalar) → Prop}
    {rows rows' : List (List (String × Scalar))} (h : bag rows = bag rows') {xs : List α}
    (hxs : List.Forall₂ R xs rows') : ∃ ys, ys.Perm xs ∧
      List.Forall₂ (fun y r => ∃ r', r.Perm r' ∧ R y r') ys rows := by
  have hmap : List.Forall₂ (fun x (m : Multiset (String × Scalar)) =>
      ∃ r' : List (String × Scalar), m = r' ∧ R x r') xs (rows'.map Multiset.ofList) :=
    List.forall₂_map_right_iff.mpr (hxs.imp fun x r' hr => ⟨r', rfl, hr⟩)
  obtain ⟨ys, hys, hrows⟩ : Relation.Comp List.Perm (List.Forall₂ _) xs
      (rows.map Multiset.ofList) := by
    rw [← List.forall₂_comp_perm_eq_perm_comp_forall₂]
    exact ⟨_, hmap, (Multiset.coe_eq_coe.mp h).symm⟩
  refine ⟨ys, hys.symm, (List.forall₂_map_right_iff.mp hrows).imp fun y r => ?_⟩
  rintro ⟨r', hr, hR⟩
  exact ⟨r', Multiset.coe_eq_coe.mp hr, hR⟩

namespace Journal

section Covers

variable {db : Database} (h : Regular db) (hc : Current db) {i : Instant} (hi : Covers db i)

include h hc hi

/-- What is found for a live row once everything has been recorded shows it. -/
theorem Current.shows_live_of_entry {kind : Kind} {live : Row}
    (hl : live ∈ db.tableRows kind.table) {e : Entry} (he : entryAtIn db kind live.id i = some e)
    {r : Attributes} (hr : r.Perm (shown kind (stateRow kind live e))) :
    ShowsLive kind live r := by
  obtain ⟨e', he', hcells⟩ := hc.exists_entry h hi hl
  obtain rfl := Option.some.inj (he.symm.trans he')
  exact shows_live_of_perm hcells hr

omit hi in
/-- A live row that has an entry has a number that the store has room for. -/
theorem Current.isStorable {kind : Kind} {live : Row} (hl : live ∈ db.tableRows kind.table) :
    Cell.isStorable live.id = true := by
  obtain ⟨r, _, hlast, -⟩ := hc kind live hl
  exact h.storable_of_mem_rowsOf (List.mem_of_getLast? hlast)

/-- Once everything has been recorded there is one row for each live row. -/
theorem Current.shows_live {kind : Kind} {t : Timestamp} {rows : List Attributes}
    (hrows : bag rows = bag ((stateAt db kind i).map fun r =>
      ("timestamp", .text t.key) :: shown kind r)) :
    ∃ lives, lives.Perm (db.tableRows kind.table) ∧
      List.Forall₂ (ShowsLive kind) lives rows := by
  have hentries : ∀ live ∈ db.tableRows kind.table, ∃ s,
      (entryAtIn db kind live.id i).map (stateRow kind live) = some s := by
    intro live hl
    obtain ⟨e, he, -⟩ := hc.exists_entry h hi hl
    exact ⟨_, congrArg _ he⟩
  have hstate : List.Forall₂ (fun live r' => ∃ e, entryAtIn db kind live.id i = some e ∧
      r' = ("timestamp", .text t.key) :: shown kind (stateRow kind live e))
      (db.tableRows kind.table) ((stateAt db kind i).map fun r =>
        ("timestamp", .text t.key) :: shown kind r) := by
    refine List.forall₂_map_right_iff.mpr ((forall₂_filterMap hentries).imp fun live s hs => ?_)
    obtain ⟨e, he, rfl⟩ := Option.map_eq_some_iff.mp hs
    exact ⟨e, he, rfl⟩
  obtain ⟨lives, hperm, hlives⟩ := exists_forall₂_of_bag hrows hstate
  refine ⟨lives, hperm, ((List.forall₂_and_left _ _).mpr
    ⟨fun live hl => hperm.mem_iff.mp hl, hlives⟩).imp ?_⟩
  rintro live r ⟨hl, _, hr, e, he, rfl⟩
  have hat : EntityView.IsRowAt db kind t i r live e := ⟨hl, he, hr⟩
  exact .of_attributesOf (hc.shows_live_of_entry h hi hl he hat.attributes_perm)

end Covers

end Journal

/-! ## Views of differences -/

section Views

variable {kind : Kind} {live : Row} (hfits : kind.table.Fits live)

include hfits

theorem equals_self_of_lasting {name : String} (hname : name ∈ kind.lasting) {x : Scalar}
    (hx : (Entity.ofRow kind live).get? name = some (.scalar x)) : x.equals x = true := by
  obtain ⟨c, hc, rfl, -⟩ := kind.exists_column_of_lasting hname
  by_cases hid : c.name = "id"
  · rw [hid, Entity.get?_id_ofRow hfits] at hx
    cases hx
    exact beq_self_eq_true live.id
  · rw [Entity.get?_ofRow hc] at hx
    cases hx
    exact Cell.equals_self_toScalar (hfits.takes c hc hid).ne_nan c.type

namespace EntityView

variable {w : EntityView} (he : w.entity = Entity.ofRow kind live)
  (hpast : ∀ past, w.past = some past → ShowsLive kind live past)

include he hpast

omit hfits in
/-- A view that shows a live row has its values. -/
theorem lookup_currentValues_of_lasting {name : String} (hname : name ∈ kind.lasting) {x : Scalar}
    (hx : (Entity.ofRow kind live).get? name = some (.scalar x)) :
    w.currentValues.lookup name = some (.scalar x) := by
  rw [currentValues, lookup_overlay, ← Entity.get?, he, hx, overrides]
  cases hp : w.past with
  | none => rfl
  | some past =>
    obtain ⟨y, hy, hlive⟩ := hpast past hp name hname
    obtain rfl : x = y := Value.scalar.inj (Option.some.inj (hx.symm.trans hlive))
    rw [Option.getD_some, lookup_map_value fun _ => Value.scalar, hy]
    rfl

/-- What has the values of the live row is no difference. -/
theorem lacks_of_differing {k : String} {s : Snapshot} (hs : w.snapshots.lookup k = some s)
    (hnames : (s.values.map Prod.fst).Nodup) (hshows : ShowsLive kind live s.values) :
    ∃ s', w.differing.snapshots.lookup k = some s' ∧
      ∀ name ∈ kind.lasting, s'.contains name = false := by
  refine ⟨s.changedFrom w.currentValues, ?_, fun name hname => ?_⟩
  · rw [lookup_differing, hs]
    rfl
  · obtain ⟨x, hx, hlive⟩ := hshows name hname
    rw [Snapshot.contains, Snapshot.get?, Option.isSome_eq_false_iff, Option.isNone_iff_eq_none,
      List.lookup_eq_none_iff]
    rintro ⟨n, y⟩ hmem
    obtain ⟨hmem, hdiffers⟩ := (s.mem_changedFrom_iff _ _).mp hmem
    rw [bne_iff_ne]
    rintro rfl
    obtain rfl : x = y :=
      Option.some.inj (hx.symm.trans ((lookup_eq_some_iff_mem hnames).mpr hmem))
    have hsame := lookup_currentValues_of_lasting he hpast hname hlive
    have hequals := equals_self_of_lasting hfits hname hlive
    simp only [Snapshot.differs, hsame, Value.equals, hequals] at hdiffers
    cases hdiffers

end EntityView

end Views

/-! ## Tables and views once everything has been recorded -/

/-- A timestamp denotes an instant that no entry was recorded after. -/
def Journal.CoversAt (db : Database) (moment : Option Moment) (clock : Instant) (t : Timestamp) :
    Prop := ∃ i, t.resolveAt moment clock = .ok i ∧ Covers db i

namespace EntityView

/-- A view of differences has nothing of what lasts to show at the timestamps at which rows with the
values of the live row were found, unless the entity is shown as it was before. -/
theorem lacks_of_findings {kind : Kind} {live : Row} (hfits : kind.table.Fits live)
    {findings : List (String × Finding)} {ts : List Timestamp} {p : Timestamp → Prop}
    (hfound : ∀ t ∈ ts, p t → ∃ r, foundIn findings (.int live.id) t.key = some r ∧
      ((attributesOf r).map Prod.fst).Nodup ∧ ShowsLive kind live (attributesOf r))
    (hlast : ∀ t, ts.getLast? = some t → t.isHistoric = true → p t) {t : Timestamp} (ht : t ∈ ts)
    (hp : p t) : ∃ s, ((started true ts (Entity.ofRow kind live)).addFindings
      findings).snapshots.lookup t.key = some s ∧ ∀ name ∈ kind.lasting, s.contains name = false := by
  obtain ⟨hknows, hextends⟩ := addFindings_started ts (Entity.ofRow kind live) findings
  rw [Entity.get?_id_ofRow hfits, Option.getD_some] at hknows hextends
  obtain ⟨r, hr, hnames, hshows⟩ := hfound t ht hp
  have hvalues := hknows.values t.key
  rw [if_pos (List.mem_map_of_mem ht), hr] at hvalues
  obtain ⟨s, hs, hsr⟩ := Option.map_eq_some_iff.mp hvalues
  rw [addFindings_differing]
  refine lacks_of_differing hfits hextends.entity (fun past hpast => ?_) hs (hsr ▸ hnames)
    (hsr ▸ hshows)
  obtain ⟨u, hu, hupast⟩ := Option.bind_eq_some_iff.mp (hextends.past.symm.trans hpast)
  split at hupast
  · next hhistoric =>
    obtain ⟨r', hr', -, hshows'⟩ := hfound u (List.mem_of_getLast? hu) (hlast u hu hhistoric)
    rw [hr'] at hupast
    exact Option.some.inj hupast ▸ hshows'
  · cases hupast

end EntityView

/-- An entity that is loaded by its number is that of the live row with the number. -/
theorem Entity.exists_found_row_of_get {db : Database} {kind : Kind} {id : Int} {e : Entity}
    (h : (get kind id).answer db = .ok (some e)) :
    ∃ live ∈ db.tableRows kind.table, live.cell "id" = .int id ∧ e = ofRow kind live := by
  rw [Action.answer, run_get] at h
  by_cases hid : Cell.isStorable id = true
  · rw [if_pos hid] at h
    obtain ⟨live, hlive, rfl⟩ := Option.map_eq_some_iff.mp (Except.ok.inj h)
    exact ⟨live, List.mem_of_find?_eq_some hlive, by simpa using List.find?_some hlive, rfl⟩
  · rw [if_neg hid] at h
    cases h

/-- An entity that has just been loaded is that of a live row. -/
theorem Entity.exists_row_of_get {db : Database} {kind : Kind} {id : Int} {e : Entity}
    (h : (get kind id).answer db = .ok (some e)) :
    ∃ live ∈ db.tableRows kind.table, e = ofRow kind live := by
  obtain ⟨live, hl, -, he⟩ := exists_found_row_of_get h
  exact ⟨live, hl, he⟩

namespace EntityView

section Written

variable {db : Database} (hdb : db.Written) {kind : Kind} {es : List Entity}
  (hes : ∀ e ∈ es, ∃ live ∈ db.tableRows kind.table, e = Entity.ofRow kind live)

include hdb hes

theorem exists_number_of_row : ∀ e ∈ es, e.kind = kind ∧
    ∃ r ∈ db.tableRows kind.table, e.get? "id" = some (.int r.id) := by
  intro e he
  obtain ⟨live, hl, rfl⟩ := hes e he
  exact ⟨rfl, live, hl,
    Entity.get?_id_ofRow (hdb.reached.regular.sound.fits _ kind.table_mem live hl)⟩

/-- What was found at a timestamp that no entry was recorded after shows the live rows. -/
theorem shows_live_of_findings {ts : List Timestamp} (hproper : ∀ t ∈ ts, t.IsProper)
    {moment : Option Moment} {clock : Instant} {rows : List (List Attributes)}
    {matched : List (List Scalar)} (hrows : ((distinct ts).mapM fun u =>
      (rowsAt kind (numbersOf es) moment clock u).answer db.opened) = .ok rows)
    (hm : matched.length = (distinct ts).length) {live : Row}
    (hl : live ∈ db.tableRows kind.table) (he : Entity.ofRow kind live ∈ es) :
    ∀ t ∈ ts, Journal.CoversAt db moment clock t → ∃ r,
      foundIn (((distinct ts).map Timestamp.key).zip (List.zipWith Finding.mk rows matched))
        (.int live.id) t.key = some r ∧
      ((attributesOf r).map Prod.fst).Nodup ∧ ShowsLive kind live (attributesOf r) := by
  rintro t ht ⟨i, hi, hcovers⟩
  have hregular := hdb.reached.regular
  have hid := Entity.get?_id_ofRow (hregular.sound.fits _ kind.table_mem live hl)
  obtain ⟨ids, hids, hmem⟩ := exists_numbersOf (exists_number_of_row hdb hes)
  obtain ⟨-, hsome, -⟩ := foundIn_findings hdb.reached hids hproper hrows hm hl
    ((hmem _).mpr ⟨_, he, hid⟩) ht hi
  obtain ⟨entry, hentry, -⟩ := hdb.current.exists_entry hregular hcovers hl
  obtain ⟨r, hr, hperm⟩ := hsome entry hentry
  refine ⟨r, hr, ?_, hdb.current.shows_live_of_entry hregular hcovers hl hentry hperm⟩
  rw [(hperm.map _).nodup_iff, Journal.names_shown]
  exact Schema.columnNames_nodup kind.table_mem

section Answers

variable {timestamps : List Value} {ts : List Timestamp}
  (hts : timestamps.mapM Value.toTimestamp = .ok ts) (hproper : ∀ t ∈ ts, t.IsProper)
  {moment : Option Moment} {clock : Instant}

include hts hproper

theorem lacks_of_answer (hlast : ∀ t, ts.getLast? = some t → t.isHistoric = true →
      Journal.CoversAt db moment clock t) {filter : Option Filter} {views : List EntityView} {n : Nat}
    (h : (ofSubjects (es.map .entity) timestamps filter true moment clock).answer db =
      .ok (views, n)) :
    List.Forall₂ (fun _ v => ∀ t ∈ ts, Journal.CoversAt db moment clock t → ∃ s,
      v.snapshots.lookup t.key = some s ∧ ∀ name ∈ kind.lasting, s.contains name = false)
      es views := by
  cases es with
  | nil =>
    cases h
    exact .nil
  | cons e es =>
    obtain ⟨rfl, hkind⟩ := List.forall_mem_cons.mp fun e' he' =>
      (exists_number_of_row hdb hes e' he').1
    cases ts with
    | nil =>
      rw [ofSubjects_of_nil hkind (mapM_start_of_answer hts h)] at h
      cases h
      rw [List.forall₂_map_right_iff, List.forall₂_same]
      exact fun _ _ _ ht => nomatch ht
    | cons t ts =>
      obtain ⟨rows, matched, hrows, hmatched, rfl⟩ := answer_ofSubjects hts hkind h
      rw [filled, List.forall₂_map_right_iff, List.forall₂_map_right_iff, List.forall₂_same]
      intro e' he' u hu hcovers
      obtain ⟨live, hl, he⟩ := hes e' he'
      rw [he]
      exact lacks_of_findings (hdb.reached.regular.sound.fits _ e.kind.table_mem live hl)
        (shows_live_of_findings hdb hes hproper hrows (length_matchedAll rfl hmatched) hl
          (he ▸ he')) hlast hu hcovers

theorem exists_answer_of_written (hres : ∀ t ∈ ts, ∃ i, t.resolveAt moment clock = .ok i) :
    ∃ views n, (ofSubjects (es.map .entity) timestamps none true moment clock).answer db =
      .ok (views, n) := by
  cases es with
  | nil => exact ⟨[], 0, rfl⟩
  | cons e es =>
    have hnumbers := exists_number_of_row hdb hes
    obtain ⟨rfl, hkind⟩ := List.forall_mem_cons.mp fun e' he' => (hnumbers e' he').1
    cases ts with
    | nil =>
      refine ⟨(e :: es).map (started true []), 0, ?_⟩
      rw [ofSubjects_of_nil hkind (mapM_start hts _)]
      rfl
    | cons t ts =>
      refine exists_answer_ofSubjects hts hkind fun u hu => ?_
      obtain ⟨i, hi⟩ := hres u hu
      obtain ⟨ids, hids, hmem⟩ := exists_numbersOf hnumbers
      rw [hids]
      refine (exists_rowsAt_iff hi (resolveAt_lt (hproper u hu) hi)
        (hdb.reached.regular.change (.opened db))).mpr fun n hn => ?_
      obtain ⟨e', he', hid⟩ := (hmem n).mp hn
      obtain ⟨-, live, hl, hlive⟩ := hnumbers e' he'
      obtain rfl : live.id = n :=
        Scalar.int.inj (Value.scalar.inj (Option.some.inj (hlive.symm.trans hid)))
      exact hdb.current.isStorable hdb.reached.regular hl

end Answers

end Written

end EntityView

open EntityView in
/-- In a store that journaled writes have led to, a live table as of a timestamp that no entry was
recorded after has one row for each live row, with the number, the time of creation and the
journaled attributes of it.  So a view of differences has none of these at such a timestamp, unless
the entity is shown as it was before. -/
theorem Database.Written.asOf_shows_live {db : Database} (hdb : db.Written) (kind : Kind)
    (moment : Option Moment) (clock : Instant) :
    (∀ timestamp t, (∀ u, timestamp = Value.timestamp u → u.IsProper) →
      timestamp.toTimestamp = .ok t → Journal.CoversAt db moment clock t → ∃ q' rows lives,
        (Query.ofTable kind.table.name).asOfTimestamp timestamp moment clock = .ok q' ∧
        q'.run.answer db = .ok rows ∧ lives.Perm (db.tableRows kind.table) ∧
        List.Forall₂ (ShowsLive kind) lives rows) ∧
    ∀ es : List Entity, (∀ e ∈ es, ∃ id, (Entity.get kind id).answer db = .ok (some e)) →
      ∀ timestamps ts, (∀ t, Value.timestamp t ∈ timestamps → t.IsProper) →
        timestamps.mapM Value.toTimestamp = .ok ts →
        (∀ t ∈ ts, ∃ i, t.resolveAt moment clock = .ok i) →
        (∀ t, ts.getLast? = some t → t.isHistoric = true →
          Journal.CoversAt db moment clock t) →
        (∀ filter views n, (ofSubjects (es.map .entity) timestamps filter true moment clock).answer
          db = .ok (views, n) → List.Forall₂ (fun _ v => ∀ t ∈ ts,
            Journal.CoversAt db moment clock t → ∃ s, v.snapshots.lookup t.key = some s ∧
              ∀ name ∈ kind.lasting, s.contains name = false) es views) ∧
        ∃ views n, (ofSubjects (es.map .entity) timestamps none true moment clock).answer db =
          .ok (views, n) := by
  have hregular := hdb.reached.regular
  constructor
  · rintro timestamp t hproper ht ⟨i, hi, hcovers⟩
    obtain ⟨q', rows, hq', hrows, hbag⟩ := Query.exists_answer_ofTable hregular kind ht hi
      (resolveAt_lt (Value.isProper_toTimestamp ht hproper) hi)
    obtain ⟨lives, hperm, hlives⟩ := hdb.current.shows_live hregular hcovers hbag
    exact ⟨q', rows, lives, hq', hrows, hperm, hlives⟩
  · intro es hload timestamps ts hproper hts hres hlast
    have hes : ∀ e ∈ es, ∃ live ∈ db.tableRows kind.table, e = Entity.ofRow kind live := by
      intro e he
      obtain ⟨id, hid⟩ := hload e he
      exact Entity.exists_row_of_get hid
    have hts' : ∀ t ∈ ts, t.IsProper := by
      intro t ht
      obtain ⟨v, hv, hvt⟩ := exists_of_mem_mapM hts ht
      exact Value.isProper_toTimestamp hvt fun u hu => hproper u (hu ▸ hv)
    exact ⟨fun filter views n h => lacks_of_answer hdb hes hts hts' hlast h,
      exists_answer_of_written hdb hes hts hts' hres⟩

open Entity in
theorem Entity.written_retitled : retitled.Written := by
  have hcreate : ((Write.create .workPackage [("subject", .text "Draft")]).action
      (some (Journal.noon 0)) Journal.firstDay.instant).run Database.empty |>.1.toOption.isSome := by
    decide +kernel
  have hcreated : Write.created.Written := by
    have h := Database.Written.empty.next hcreate
    rw [← Action.run_discarded] at h
    exact h
  have hupdate : ((Write.update draft [("subject", .text "Plan")]).action
      (some (Journal.noon 0)) Journal.firstDay.instant).run Write.created |>.1.toOption.isSome := by
    decide +kernel
  have h := hcreated.next hupdate
  rw [← Action.run_discarded] at h
  exact h

theorem Entity.coversAt_retitled :
    Journal.CoversAt retitled none Journal.firstDay.instant (.absolute noonInUtc) := by
  have htimes : (retitled.tableRows Schema.journals).all
      (fun r => decide (Journal.timeOf r ≤ noonInUtc.micros)) = true := by decide +kernel
  refine ⟨noonInUtc, rfl, fun kind id e he => ?_⟩
  obtain ⟨r, hr, hentry⟩ := (Journal.mem_entriesIn_iff _ _ _ _).mp he
  obtain ⟨data, -, rfl⟩ := Option.map_eq_some_iff.mp hentry
  exact of_decide_eq_true (List.all_eq_true.mp htimes r (List.mem_filter.mp hr).1)

open Entity EntityView in
theorem Database.Written.asOf_shows_live_retitled : ∃ q' rows e v n s,
    (Query.ofTable "work_packages").asOfTimestamp (.timestamp (.absolute noonInUtc)) none
      Journal.firstDay.instant = .ok q' ∧ q'.run.answer retitled = .ok rows ∧
    rows.map (·.lookup "subject") = [some (.text "Plan")] ∧
    (Entity.get .workPackage 1).answer retitled = .ok (some e) ∧
    (ofSubjects [.entity e] [.timestamp (.absolute noonInUtc)] none true none
      Journal.firstDay.instant).answer retitled = .ok ([v], n) ∧
    v.snapshots.lookup (Timestamp.absolute noonInUtc).key = some s ∧
    s.contains "subject" = false := by
  have hsubjects : (retitled.tableRows Schema.workPackages).map (·.cell "subject") =
      [.text "Plan"] := by decide +kernel
  have hfound : (retitled.find? Schema.workPackages 1).isSome = true := by decide +kernel
  have hproper : noonInUtc.micros < Instant.bound := by decide
  obtain ⟨r, hr⟩ := Option.isSome_iff_exists.mp hfound
  have hget : (Entity.get .workPackage 1).answer retitled = .ok (some (ofRow .workPackage r)) := by
    rw [Action.answer, run_get, show Kind.workPackage.table = Schema.workPackages from rfl, hr]
    rfl
  obtain ⟨htable, hviews⟩ := Database.Written.asOf_shows_live written_retitled .workPackage none
    Journal.firstDay.instant
  obtain ⟨q', rows, lives, hq', hrows, hperm, hlives⟩ := htable
    (.timestamp (.absolute noonInUtc)) _ (fun u hu => by cases hu; exact hproper) rfl
    coversAt_retitled
  have hsubject : "subject" ∈ Kind.workPackage.lasting := by decide
  have hplan : ∀ live ∈ retitled.tableRows Schema.workPackages, ∀ row : Attributes,
      ShowsLive .workPackage live row → row.lookup "subject" = some (.text "Plan") := by
    intro live hl row hshows
    obtain ⟨x, hx, hlive⟩ := hshows _ hsubject
    have hcell := List.mem_map_of_mem (f := (·.cell "subject")) hl
    rw [hsubjects, List.mem_singleton] at hcell
    have hvalue : (ofRow .workPackage live).get? "subject" =
        some (.scalar ((live.cell "subject").toScalar .text)) :=
      get?_ofRow (show (⟨"subject", .text, false⟩ : Column) ∈ Kind.workPackage.table.columns by
        decide) live
    rw [hvalue, hcell] at hlive
    cases hlive
    exact hx
  have hresolved : ∀ t ∈ [Timestamp.absolute noonInUtc], ∃ i,
      t.resolveAt none Journal.firstDay.instant = .ok i :=
    List.forall_mem_singleton.mpr ⟨noonInUtc, rfl⟩
  obtain ⟨hlacks, views, n, hanswer⟩ := hviews [ofRow .workPackage r]
    (List.forall_mem_singleton.mpr ⟨1, hget⟩) [.timestamp (.absolute noonInUtc)]
    [.absolute noonInUtc] (fun t ht => by cases List.mem_singleton.mp ht; exact hproper) rfl
    hresolved fun t ht _ => by cases ht; exact coversAt_retitled
  obtain ⟨v, vs, hv, hnil, rfl⟩ := List.forall₂_cons_left_iff.mp (hlacks none views n hanswer)
  obtain rfl := List.forall₂_nil_left_iff.mp hnil
  obtain ⟨s, hs, hnone⟩ := hv _ (List.mem_singleton_self _) coversAt_retitled
  refine ⟨q', rows, _, v, n, s, hq', hrows, ?_, hget, hanswer, hs, hnone _ hsubject⟩
  have hlength : rows.length = 1 := by
    rw [← hlives.length_eq, hperm.length_eq, ← List.length_map (·.cell "subject")]
    exact congrArg List.length hsubjects
  obtain ⟨row, rfl⟩ := List.length_eq_one_iff.mp hlength
  obtain ⟨live, others, hshows, -, rfl⟩ := List.forall₂_cons_right_iff.mp hlives
  rw [List.map_singleton, hplan live (hperm.mem_iff.mp List.mem_cons_self) row hshows]

end Chronicle
