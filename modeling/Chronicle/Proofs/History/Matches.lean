import Chronicle.Proofs.Filter.Clauses

/-!
# Timestamps at which a filter matched

A view notes the timestamps at which a filter matched its entity, each once and in the order in which
they were asked for.  What is matched is the entity of the filter's own kind that has the number of
the entity in hand, so the snapshots of a view bear out its matches where the filter is one for the
kind of its entity.

* `EntityView.Notes`: the timestamps noted in a view are those at which something was found;
* `Filter.Suits`: values that the conditions of a filter are true of;
* `EntityView.TellsMatches`: what the noted timestamps say of an entity;
* `EntityView.ofSubjects_tells_matches`: views of many entities.
-/

namespace Chronicle

open Chronicle.Calendar

namespace EntityView

/-! ## Timestamps noted -/

/-- Under the keys of the timestamps seen, those that matched are noted. -/
structure Notes (v : EntityView) (matched : String → Bool) (seen : List Timestamp) : Prop where
  listed : v.matchedAt.Sublist seen
  once : (v.matchedAt.map Timestamp.key).Nodup
  noted : ∀ k, k ∈ v.matchedAt.map Timestamp.key ↔ k ∈ seen.map Timestamp.key ∧ matched k = true

theorem matchedAt_addSnapshot (v : EntityView) (t : Timestamp) (row : Option Attributes) :
    (v.addSnapshot t row).matchedAt = v.matchedAt := by
  cases row <;> rfl

theorem any_same_iff {t : Timestamp} {ts : List Timestamp} :
    ts.any t.same = true ↔ t.key ∈ ts.map Timestamp.key := by
  rw [List.any_eq_true, List.mem_map]
  exact exists_congr fun u => and_congr_right fun _ => beq_iff_eq.trans eq_comm

namespace Notes

variable {v : EntityView} {matched : String → Bool} {seen : List Timestamp}
  (h : v.Notes matched seen) (t : Timestamp)

include h

theorem congr {w : EntityView} (hw : w.matchedAt = v.matchedAt) : w.Notes matched seen :=
  ⟨hw ▸ h.listed, hw ▸ h.once, fun k => hw ▸ h.noted k⟩

/-- A timestamp without a match is left out. -/
theorem pass (hm : matched t.key = false) : v.Notes matched (seen ++ [t]) where
  listed := h.listed.trans (List.sublist_append_left seen [t])
  once := h.once
  noted k := by
    rw [h.noted, List.map_append, List.map_singleton, List.mem_append, List.mem_singleton]
    refine and_congr_left fun hk => (or_iff_left ?_).symm
    rintro rfl
    rw [hm] at hk
    cases hk

/-- A timestamp with a match is noted, unless its like has been. -/
theorem addMatch (hm : matched t.key = true) : (v.addMatch t).Notes matched (seen ++ [t]) := by
  unfold EntityView.addMatch
  split
  · next hany =>
    -- Its like has been seen, so there is no new key.
    have hseen := ((h.noted _).mp (any_same_iff.mp hany)).1
    refine ⟨h.listed.trans (List.sublist_append_left seen [t]), h.once, fun k => ?_⟩
    rw [h.noted, List.map_append, List.map_singleton, List.mem_append, List.mem_singleton]
    refine and_congr_left fun _ => (or_iff_left_of_imp ?_).symm
    rintro rfl
    exact hseen
  · next hnew =>
    rw [any_same_iff] at hnew
    refine ⟨h.listed.append (List.Sublist.refl [t]), ?_, fun k => ?_⟩
    · rw [List.map_append, List.map_singleton]
      exact h.once.append (List.nodup_singleton _) (List.disjoint_singleton.mpr hnew)
    · simp only [List.map_append, List.map_singleton, List.mem_append, List.mem_singleton, h.noted]
      rw [or_and_right]
      refine or_congr_right (iff_self_and.mpr ?_)
      rintro rfl
      exact hm

end Notes

/-- What was found for an entity under a key is a match. -/
def matchedIn (findings : List (String × Finding)) (id : Value) (k : String) : Bool :=
  ((findings.lookup k).getD default).matched.any fun i => (Value.scalar i).equals id

/-- One timestamp after the other is noted if it matched. -/
theorem Notes.foldl {findings : List (String × Finding)} {id : Value} (ts : List Timestamp)
    {v : EntityView} {seen : List Timestamp} (h : v.Notes (matchedIn findings id) seen) :
    (ts.foldl (addFinding findings id) v).Notes (matchedIn findings id) (seen ++ ts) := by
  induction ts generalizing v seen with
  | nil => rwa [List.append_nil]
  | cons t ts ih =>
    have hshown := h.congr (matchedAt_addSnapshot v t (foundIn findings id t.key))
    have hnext : (addFinding findings id v t).Notes (matchedIn findings id) (seen ++ [t]) := by
      unfold addFinding
      split
      · next hm => exact hshown.addMatch t hm
      · next hm => exact hshown.pass t (Bool.eq_false_iff.mpr hm)
    rw [List.foldl_cons, List.append_cons]
    exact ih hnext

theorem notes_addFindings (differencesOnly : Bool) (ts : List Timestamp) (e : Entity)
    (findings : List (String × Finding)) :
    ((started differencesOnly ts e).addFindings findings).Notes
      (matchedIn findings ((e.get? "id").getD .null)) ts := by
  have hnone : Notes { started differencesOnly ts e with
      past := pastAt (foundIn findings ((e.get? "id").getD .null)) ts }
        (matchedIn findings ((e.get? "id").getD .null)) [] :=
    ⟨List.Sublist.refl [], List.nodup_nil, fun _ => iff_of_false nofun fun h => nomatch h.1⟩
  rw [addFindings_eq]
  exact hnone.foldl ts

end EntityView

/-! ## Values that suit a filter -/

/-- Values of a snapshot are those of a row that all conditions of a filter are true of.  Where the
conditions go with their columns, they hold for the values. -/
structure Filter.Suits (f : Filter) (db : Database) (clock : Instant) (values : Attributes) :
    Prop where
  row : ∃ r, f.Accepts db clock r ∧ values.Perm (Journal.shown f.kind r)
  passes : f.IsTyped → f.Passes (values.map fun p => (p.1, .scalar p.2))

theorem Filter.Passes.congr {f : Filter} {as bs : List (String × Value)} (h : f.Passes as)
    (hlookup : ∀ n, bs.lookup n = as.lookup n) : f.Passes bs := fun c hc => by
  rw [hlookup]
  exact h c hc

/-- The values shown of a state that a filter accepts suit it. -/
theorem Filter.suits_of_accepts {f : Filter} {db : Database} (hdb : Journal.Regular db)
    {clock i : Instant} {live : Row} (hl : live ∈ db.tableRows f.kind.table) {entry : Entry}
    (hentry : Journal.entryAtIn db f.kind live.id i = some entry)
    (hid : Cell.isStorable live.id = true)
    (h : f.Accepts db.opened clock (Journal.stateRow f.kind live entry)) {values : Attributes}
    (hvalues : values.Perm (Journal.shown f.kind (Journal.stateRow f.kind live entry))) :
    f.Suits db.opened clock values where
  row := ⟨_, h, hvalues⟩
  passes hf := by
    have hperm := (hvalues.map fun p => (p.1, Value.scalar p.2)).trans (hdb.shown_perm hl hentry)
    have hnames : (values.map Prod.fst).Perm f.kind.table.columnNames := by
      have hshown := hvalues.map Prod.fst
      rwa [Journal.shown, List.map_map] at hshown
    refine ((accepts_iff_passes hf clock hdb hl hentry hid).mp h).congr (lookup_perm hperm ?_)
    rw [List.map_map]
    exact hnames.nodup_iff.mpr (Schema.columnNames_nodup f.kind.table_mem)

namespace EntityView

/-! ## Matches of an entity -/

/-- What the noted timestamps of a view say: each of them was asked for and is noted once, and they
are those at which the conditions are true of the entity of the filter's kind that has the number of
the entity in hand.  If this is the kind of the entity itself, its snapshots there suit the filter. -/
structure TellsMatches (db : Database) (f : Filter) (moment : Option Moment) (clock : Instant)
    (ts : List Timestamp) (e : Entity) (v : EntityView) : Prop where
  listed : v.matchedAt.Sublist ts
  once : (v.matchedAt.map Timestamp.key).Nodup
  noted : ∀ t ∈ ts, t.key ∈ v.matchedAt.map Timestamp.key ↔
    ∃ i, t.resolveAt moment clock = .ok i ∧ ∃ live ∈ db.tableRows f.kind.table,
      e.get? "id" = some (.int live.id) ∧
      ∃ entry, Journal.entryAtIn db f.kind live.id i = some entry ∧
        f.Accepts db.opened clock (Journal.stateRow f.kind live entry)
  own : f.kind = e.kind → ∀ t ∈ v.matchedAt, ∃ s, v.snapshots.lookup t.key = some s ∧
    f.Suits db.opened clock s.values

/-- Numbers for which rows have been found are such that the store can hold. -/
theorem storable_of_rowsAt {kind : Kind} {ns : List (Option Int)} {moment : Option Moment}
    {clock : Instant} {t : Timestamp} {db : Database} {rows : List Attributes}
    (h : (rowsAt kind ((ns.map Scalar.ofNumber?).map .scalar) moment clock t).answer db = .ok rows)
    {i : Int} (hi : some i ∈ ns) : Cell.isStorable i = true := by
  obtain ⟨r, hr, hrows⟩ := query_of_rowsAt h
  exact Query.storable_of_listing ⟨rfl, rfl, rfl, rfl, .inl rfl⟩ hr hrows hi

/-- The row of an entity that has an entry, whatever numbers it is asked for with. -/
theorem exists_rowOf_rowsAt {kind : Kind} {ns : List (Option Int)} {moment : Option Moment}
    {clock i : Instant} {t : Timestamp} (ht : t.IsProper) (hi : t.resolveAt moment clock = .ok i)
    {db : Database} (hdb : Journal.Regular db) {rows : List Attributes}
    (hrows : (rowsAt kind ((ns.map Scalar.ofNumber?).map .scalar) moment clock t).answer db =
      .ok rows) {live : Row} (hl : live ∈ db.tableRows kind.table) (hn : some live.id ∈ ns)
    {entry : Entry} (hentry : Journal.entryAtIn db kind live.id i = some entry) :
    ∃ r, rowOf rows (.int live.id) = some r ∧
      (attributesOf r).Perm (Journal.shown kind (Journal.stateRow kind live entry)) := by
  have hbound := resolveAt_lt ht hi
  obtain ⟨rows', hrows'⟩ : ∃ rows',
      (rowsAt kind ([live.id].map .int) moment clock t).answer db = .ok rows' :=
    (exists_rowsAt_iff hi hbound hdb).mpr
      (List.forall_mem_singleton.mpr (storable_of_rowsAt hrows hn))
  obtain ⟨r, hr, hperm⟩ :=
    (rowOf_rowsAt hi hbound hdb hrows' hl (List.mem_singleton_self _)).1 entry hentry
  have halone : (rowsAt kind (([some live.id].map Scalar.ofNumber?).map .scalar) moment clock
      t).answer db = .ok rows' := hrows'
  have hsame := rowOf_rowsAt_of_mem hrows halone hn (List.mem_singleton_self _)
  exact ⟨r, hsame.trans hr, hperm⟩

/-- The number of an entity in hand. -/
theorem eq_some_iff_get {e : Entity} {n : Option Int}
    (h : (e.get? "id").getD .null = .scalar (.ofNumber? n)) (i : Int) :
    n = some i ↔ e.get? "id" = some (.int i) := by
  cases hv : e.get? "id" <;> rw [hv] at h <;> cases n <;> cases h
  · exact iff_of_false nofun nofun
  · exact iff_of_false nofun nofun
  · exact ⟨fun hn => congrArg (fun j => some (Value.int j)) (Option.some.inj hn),
      fun hn => congrArg some (Scalar.int.inj (Value.scalar.inj (Option.some.inj hn)))⟩

section Views

variable {db : Database} {f : Filter} {clock : Instant} {ds : List Clause}
  (hds : f.clauses clock = .ok ds) {moment : Option Moment} {ts : List Timestamp}
  (hproper : ∀ t ∈ ts, t.IsProper)

include hds hproper

/-- A view made of what was found at the likes of its timestamps. -/
theorem tellsMatches_addFindings (hdb : Journal.Regular db) {e : Entity} {ns : List (Option Int)}
    {n : Option Int} (hn : n ∈ ns) (hid : (e.get? "id").getD .null = .scalar (.ofNumber? n))
    {findings : List (String × Finding)}
    (hfindings : ∀ t ∈ ts, ∃ w : Timestamp, w.IsProper ∧ w.key = t.key ∧
      ∃ x, findingAt e.kind ((ns.map Scalar.ofNumber?).map .scalar) (some f) moment clock db.opened
        w = .ok x ∧ findings.lookup t.key = some x) :
    TellsMatches db f moment clock ts e ((started false ts e).addFindings findings) := by
  have hopened := hdb.change (.opened db)
  have hnotes := notes_addFindings false ts e findings
  have hnoted : ∀ t ∈ ts, t.key ∈ ((started false ts e).addFindings findings).matchedAt.map
      Timestamp.key ↔ ∃ i, t.resolveAt moment clock = .ok i ∧
        ∃ live ∈ db.tableRows f.kind.table, e.get? "id" = some (.int live.id) ∧
          ∃ entry, Journal.entryAtIn db f.kind live.id i = some entry ∧
            f.Accepts db.opened clock (Journal.stateRow f.kind live entry) := by
    intro t ht
    obtain ⟨w, hw, hkey, x, hx, hlookup⟩ := hfindings t ht
    obtain ⟨rows, -, hx⟩ := bind_eq_ok_iff.mp hx
    obtain ⟨matched, hmatched, hx⟩ := bind_eq_ok_iff.mp hx
    cases hx
    rw [hnotes.noted, and_iff_right (List.mem_map_of_mem ht), matchedIn, hlookup, hid,
      Option.getD_some, Filter.any_matching_iff hopened rfl hds rfl hw hmatched hn,
      Timestamp.resolveAt_of_key hw (hproper t ht) hkey]
    simp only [eq_some_iff_get hid]
    rfl
  refine ⟨hnotes.listed, hnotes.once, hnoted, fun hkind t hmem => ?_⟩
  have ht := hnotes.listed.subset hmem
  obtain ⟨i, hi, live, hl, hnumber, entry, hentry, haccepts⟩ :=
    (hnoted t ht).mp (List.mem_map_of_mem hmem)
  obtain ⟨w, hw, hkey, x, hx, hlookup⟩ := hfindings t ht
  obtain ⟨rows, hrows, hx⟩ := bind_eq_ok_iff.mp hx
  obtain ⟨matched, -, hx⟩ := bind_eq_ok_iff.mp hx
  cases hx
  rw [← hkind] at hrows
  have hlive := (eq_some_iff_get hid live.id).mpr hnumber
  rw [hlive] at hn
  rw [← Timestamp.resolveAt_of_key hw (hproper t ht) hkey] at hi
  obtain ⟨r, hr, hperm⟩ := exists_rowOf_rowsAt hw hi hopened hrows hl hn hentry
  have hvalues := (addFindings_started ts e findings).1.values t.key
  rw [if_pos (List.mem_map_of_mem ht), foundIn, hlookup, hnumber] at hvalues
  obtain ⟨s, hs, hvalues⟩ := Option.map_eq_some_iff.mp
    (hvalues.trans (congrArg (Option.map attributesOf) hr))
  exact ⟨s, hs, Filter.suits_of_accepts hdb hl hentry (storable_of_rowsAt hrows hn) haccepts
    (hvalues ▸ hperm)⟩

end Views

/-- The timestamps that views of entities of one kind note for a filter, of this or of another kind,
are those at which it accepts the entity of its own kind with their number. -/
theorem ofSubjects_tells_matches {db : Database} (hdb : db.Reached) {es : List Entity}
    (hnumber : ∀ e ∈ es, e.HasNumber) {timestamps : List Value}
    (hproper : ∀ u, Value.timestamp u ∈ timestamps → u.IsProper) {ts : List Timestamp}
    (hts : timestamps.mapM Value.toTimestamp = .ok ts) {f : Filter} {clock : Instant}
    {ds : List Clause} (hds : f.clauses clock = .ok ds) {moment : Option Moment}
    {views : List EntityView} {n : Nat}
    (h : (ofSubjects (es.map .entity) timestamps (some f) false moment clock).answer db =
      .ok (views, n)) : List.Forall₂ (TellsMatches db f moment clock ts) es views := by
  have hproper' : ∀ t ∈ ts, t.IsProper := fun t ht => by
    obtain ⟨v, hv, hvt⟩ := exists_of_mem_mapM hts ht
    exact Value.isProper_toTimestamp hvt fun u hu => hproper u (hu ▸ hv)
  cases es with
  | nil =>
    cases h
    exact .nil
  | cons e es =>
    have hkind := kind_eq_of_answer hts h
    have hkinds : ∀ e' ∈ e :: es, e'.kind = e.kind := List.forall_mem_cons.mpr ⟨rfl, hkind⟩
    cases ts with
    | nil =>
      rw [ofSubjects_of_nil hkind (mapM_start_of_answer hts h)] at h
      cases h
      rw [List.forall₂_map_right_iff, List.forall₂_same]
      intro e' he'
      exact ⟨List.Sublist.refl [], List.nodup_nil, fun _ ht => (nomatch ht), fun _ _ ht => nomatch ht⟩
    | cons t ts =>
      obtain ⟨rows, matched, hrows, hmatched, rfl⟩ := answer_ofSubjects hts hkind h
      obtain ⟨ns, hns, hmem⟩ := exists_numbers hnumber
      rw [hns] at hrows hmatched
      rw [filled, List.forall₂_map_right_iff, List.forall₂_map_right_iff, List.forall₂_same]
      intro e' he'
      obtain ⟨i, hi, hid⟩ := hmem e' he'
      refine tellsMatches_addFindings hds hproper' hdb.regular hi hid fun u hu => ?_
      obtain ⟨w, hw, hsame⟩ := exists_same_mem_distinct hu
      obtain ⟨w, hw⟩ : ∃ w, (distinct (t :: ts)).find? (fun w => w.key == u.key) = some w :=
        Option.isSome_iff_exists.mp (List.find?_isSome.mpr ⟨w, hw, hsame⟩)
      obtain ⟨x, hx, hlookup⟩ := exists_findingAt rfl hrows hmatched hw
      have hkey := List.find?_some hw
      rw [← hkinds e' he'] at hx
      exact ⟨w, hproper' w (mem_of_mem_distinct (List.mem_of_find?_eq_some hw)),
        beq_iff_eq.mp hkey, x, hx, hlookup⟩

/-! ## Filters that are answered -/

/-- Conditions that go with their columns are answered for all numbers that the store can hold. -/
theorem exists_matching {f : Filter} (hf : f.IsTyped) {db : Database} (hdb : Journal.Regular db)
    {ids : List Int} (hids : ∀ n ∈ ids, Cell.isStorable n = true) {t : Timestamp}
    (hproper : t.IsProper) {moment : Option Moment} {clock i : Instant}
    (hi : t.resolveAt moment clock = .ok i) :
    ∃ matched, (f.matching (ids.map .int) (.timestamp t) moment clock).answer db = .ok matched := by
  obtain ⟨ps, ds, hpredicates, hps, hds, hfrom, hto⟩ := f.exists_clauses hf clock
  have ht : (Value.timestamp t).toTimestamp = .ok t := rfl
  obtain ⟨q, hq, hlists⟩ :=
    Filter.exists_lists hids ht hi (resolveAt_lt hproper hi) hfrom hto hdb hps hds
  obtain ⟨found, hfound, -⟩ := Filter.exists_found hids ht hi hpredicates hq hlists
  exact ⟨found, hfound⟩

/-- Views with a filter are there if its queries are answered. -/
theorem exists_answer_filtered {timestamps : List Value} {t : Timestamp} {ts : List Timestamp}
    (hts : timestamps.mapM Value.toTimestamp = .ok (t :: ts)) {e : Entity} {es : List Entity}
    (hkind : ∀ e' ∈ es, e'.kind = e.kind) (hfilters : e.kind.supportsFilters = true)
    {f : Filter} {differencesOnly : Bool} {moment : Option Moment} {clock : Instant}
    {db : Database} (hrows : ∀ u ∈ t :: ts, ∃ rows,
      (rowsAt e.kind (numbersOf (e :: es)) moment clock u).answer db.opened = .ok rows)
    (hmatched : ∀ u ∈ t :: ts, ∃ matched, (f.matching (numbersOf (e :: es)) (.timestamp u) moment
      clock).answer db.opened = .ok matched) :
    ∃ views n, (ofSubjects ((e :: es).map .entity) timestamps (some f) differencesOnly moment
      clock).answer db = .ok (views, n) := by
  obtain ⟨views, hviews⟩ : ∃ views, ((e :: es).map Subject.entity).mapM
      (fun s => start s timestamps (some f) differencesOnly) = .ok views := by
    refine exists_mapM_eq_ok_iff.mpr (List.forall_mem_map.mpr fun e' he' => ?_)
    have hsupports : e'.kind.supportsFilters = true := by
      rcases List.mem_cons.mp he' with rfl | he'
      · exact hfilters
      · rw [hkind e' he', hfilters]
    rw [start_entity hts, hsupports]
    exact ⟨_, rfl⟩
  obtain rfl := started_of_mapM hts hviews
  obtain ⟨rows, hrows⟩ := exists_mapM_eq_ok_iff.mpr fun u hu => hrows u (mem_of_mem_distinct hu)
  obtain ⟨matched, hmatched⟩ :=
    exists_mapM_eq_ok_iff.mpr fun u hu => hmatched u (mem_of_mem_distinct hu)
  rw [ofSubjects_eq hkind hviews, answer_openCore,
    (Action.keeps_mapM (fun u => rowsAt_keeps _ _ _ _ u rfl) _).answer_bind,
    Action.answer_mapM fun u => rowsAt_keeps _ _ _ _ u rfl, hrows]
  have hall : (matchedAll (some f) (numbersOf (e :: es)) (distinct (t :: ts)) moment clock).answer
      db.opened = .ok matched := (answer_matchedAll rfl _ _).trans hmatched
  rw [Except.bind, (matchedAll_keeps _ _ _ _ _ rfl).answer_bind, hall]
  exact ⟨_, _, rfl⟩

end EntityView

/-- Projects called like the plan. -/
def plans : Filter := ⟨"plans", .project, [⟨"name", .equals, [.text "Plan"], rfl⟩], by decide⟩

theorem isTyped_plans : plans.IsTyped :=
  List.forall_mem_singleton.mpr (.inr (List.forall_mem_singleton.mpr (.text "Plan")))

namespace EntityView

/-- The conditions are true of the project with the number of the work package in hand. -/
theorem accepts_plans : ∃ live ∈ staffed.tableRows Kind.project.table,
    inHand.get? "id" = some (.int live.id) ∧
    ∃ entry, Journal.entryAtIn staffed .project live.id noonInUtc = some entry ∧
      plans.Accepts staffed.opened Journal.firstDay.instant
        (Journal.stateRow .project live entry) := by
  have hids : (staffed.tableRows Kind.project.table).map Row.id = [1] := by decide +kernel
  have hshown : ∀ live ∈ staffed.tableRows Kind.project.table,
      (Journal.entryAtIn staffed .project 1 noonInUtc).map (fun e =>
        ((Journal.attributesIn live e).lookup "name").bind Value.toScalar?) =
          some (some (.text "Plan")) := by decide +kernel
  obtain ⟨live, hl, hid⟩ := List.mem_map.mp (hids ▸ List.mem_singleton_self 1)
  obtain ⟨entry, hentry, hname⟩ := Option.map_eq_some_iff.mp (hshown live hl)
  obtain ⟨v, hv, hscalar⟩ := Option.bind_eq_some_iff.mp hname
  have hregular := (show staffed.Reached from ⟨_, rfl⟩).regular
  rw [← hid] at hentry
  refine ⟨live, hl, by rw [hid]; rfl, entry, hentry, ?_⟩
  refine (Filter.accepts_iff_passes isTyped_plans _ hregular hl hentry (by rw [hid]; decide)).mpr ?_
  refine List.forall_mem_singleton.mpr ⟨.text "Plan", ?_, .text "Plan", List.mem_cons_self, by decide⟩
  cases v <;> cases hscalar
  exact hv

/-- A filter for projects matches a work package, which has no name at all. -/
theorem ofSubjects_tells_matches_plans : ∃ v n,
    (ofSubjects ([inHand].map .entity) [.timestamp (.absolute noonInUtc)] (some plans) false
      (some (Journal.noon 0)) Journal.firstDay.instant).answer staffed = .ok ([v], n) ∧
    TellsMatches staffed plans (some (Journal.noon 0)) Journal.firstDay.instant
      [.absolute noonInUtc] inHand v ∧
    v.matchedAt = [.absolute noonInUtc] ∧ inHand.kind.hasAttribute "name" = false := by
  have hreached : staffed.Reached := ⟨_, rfl⟩
  have hopened := hreached.regular.change (.opened staffed)
  have hbound : noonInUtc.micros < Instant.bound := by decide
  have hids : ∀ n ∈ [(1 : Int)], Cell.isStorable n = true := by decide
  have hnone : ∀ e ∈ ([] : List Entity), e.kind = inHand.kind := fun _ he => nomatch he
  have hnumber : ∀ e ∈ [inHand], e.HasNumber :=
    List.forall_mem_singleton.mpr fun v hv => .inr ⟨1, (Option.some.inj hv).symm⟩
  have hproper : ∀ u, Value.timestamp u ∈ [Value.timestamp (.absolute noonInUtc)] →
      u.IsProper := by
    intro u hu
    cases List.mem_singleton.mp hu
    exact hbound
  obtain ⟨ps, ds, hps, -, hds, -⟩ := Filter.exists_clauses isTyped_plans Journal.firstDay.instant
  obtain ⟨views, n, h⟩ := exists_answer_filtered
    (rfl : [Value.timestamp (.absolute noonInUtc)].mapM Value.toTimestamp =
      .ok [.absolute noonInUtc]) hnone rfl
    (List.forall_mem_singleton.mpr ((exists_rowsAt_iff rfl hbound hopened).mpr hids))
    (List.forall_mem_singleton.mpr (exists_matching isTyped_plans hopened hids
      (t := .absolute noonInUtc) hbound rfl))
  have htells := ofSubjects_tells_matches hreached hnumber hproper rfl
    (bind_eq_ok_iff.mpr ⟨ps, hps, hds⟩) h
  obtain ⟨v, rest, hv, hrest, rfl⟩ := List.forall₂_cons_left_iff.mp htells
  obtain rfl := List.forall₂_nil_left_iff.mp hrest
  refine ⟨v, n, h, hv, ?_, rfl⟩
  have hnoted := (hv.noted _ (List.mem_singleton_self _)).mpr ⟨_, rfl, accepts_plans⟩
  rcases List.sublist_singleton.mp hv.listed with hnil | hone
  · rw [hnil] at hnoted
    cases hnoted
  · exact hone

end EntityView

end Chronicle
