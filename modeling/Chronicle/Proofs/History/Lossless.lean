import Chronicle.Proofs.History.Batch
import Chronicle.Proofs.History.Differences
import Chronicle.Proofs.Statement.Answered

/-!
# Views of differences lose nothing

Entities viewed by their differences and the same entities viewed as a whole are shown alike.  A
snapshot of differences leaves out what the view shows anyway, and keeps all else; so the whole
snapshot can be had back from it, up to equality.

* `Snapshot.Abridges`, `EntityView.Abridges`: what is left of a snapshot and of a view;
* `Snapshot.abridges_changedFrom`: differences from other values;
* `EntityView.Knows.abridges_differing`: a view that knows what was found;
* `EntityView.ofSubjects_differing`: the same queries lead to both views;
* `EntityView.ofSubjects_abridges`: views of differences of any entities of one kind.
-/

namespace Chronicle

open Chronicle.Calendar

/-! ## Snapshots -/

namespace Snapshot

/-- A snapshot of differences: it has an attribute of the whole one, with its value, where other
values lack it or have an unequal one.  Where it has none, the other values have an equal one. -/
structure Abridges (d s : Snapshot) (current : List (String × Value)) : Prop where
  timestamp : d.timestamp = s.timestamp
  value : ∀ name x, d.get? name = some x → s.get? name = some x
  differs : ∀ name x, s.get? name = some x → (d.contains name = true ↔
    ∀ y, current.lookup name = some y → y.equals (.scalar x) = false)
  recovers : ∀ name x, s.get? name = some x → ∃ y,
    ((d.get? name).map Value.scalar).or (current.lookup name) = some y ∧
      (y = .scalar x ∨ y.equals (.scalar x) = true)

theorem differs_eq_true_iff {current : List (String × Value)} {name : String} {x : Scalar} :
    differs current (name, x) = true ↔
      ∀ y, current.lookup name = some y → y.equals (.scalar x) = false := by
  unfold differs
  cases current.lookup name with
  | none => exact iff_of_true rfl nofun
  | some y => simp

section Changed

variable {s : Snapshot} (hs : (s.values.map Prod.fst).Nodup) (current : List (String × Value))

include hs

theorem get?_changedFrom_iff {name : String} {x : Scalar} :
    (s.changedFrom current).get? name = some x ↔
      s.get? name = some x ∧ differs current (name, x) = true := by
  have hchanged : ((s.changedFrom current).values.map Prod.fst).Nodup :=
    hs.sublist (List.filter_sublist.map _)
  rw [get?, get?, lookup_eq_some_iff_mem hchanged, lookup_eq_some_iff_mem hs, mem_changedFrom_iff]

/-- The differences from other values. -/
theorem abridges_changedFrom : Abridges (s.changedFrom current) s current where
  timestamp := rfl
  value name x hx := ((get?_changedFrom_iff hs current).mp hx).1
  differs name x hx := by
    rw [← differs_eq_true_iff, contains, Option.isSome_iff_exists]
    constructor
    · rintro ⟨x', hx'⟩
      obtain ⟨hsame, hdiffers⟩ := (get?_changedFrom_iff hs current).mp hx'
      obtain rfl := Option.some.inj (hx.symm.trans hsame)
      exact hdiffers
    · exact fun hdiffers => ⟨x, (get?_changedFrom_iff hs current).mpr ⟨hx, hdiffers⟩⟩
  recovers name x hx := by
    by_cases hdiffers : differs current (name, x) = true
    · refine ⟨.scalar x, ?_, .inl rfl⟩
      rw [(get?_changedFrom_iff hs current).mpr ⟨hx, hdiffers⟩]
      rfl
    · have hnone : (s.changedFrom current).get? name = none := by
        rw [Option.eq_none_iff_forall_ne_some]
        intro x' hx'
        obtain ⟨hsame, hdiffers'⟩ := (get?_changedFrom_iff hs current).mp hx'
        obtain rfl := Option.some.inj (hx.symm.trans hsame)
        exact hdiffers hdiffers'
      rw [differs_eq_true_iff] at hdiffers
      push Not at hdiffers
      obtain ⟨y, hy, hequals⟩ := hdiffers
      refine ⟨y, ?_, .inr (Bool.eq_true_of_not_eq_false hequals)⟩
      rw [hnone, hy]
      rfl

end Changed

end Snapshot

namespace EntityView

/-! ## Views -/

/-- A view of differences that shows what the whole view shows, and from whose snapshots those of
the whole view can be had back.  Of an entity that is shown as it was, nothing differs at the last
timestamp. -/
structure Abridges (w v : EntityView) : Prop where
  entity : w.entity = v.entity
  timestamps : w.timestamps = v.timestamps
  historic : w.isHistoric = v.isHistoric
  values : w.currentValues = v.currentValues
  shown : ∀ name, w.valueOf name = v.valueOf name
  matchedAt : w.matchedAt = v.matchedAt
  keys : w.snapshots.map Prod.fst = v.snapshots.map Prod.fst
  snapshots : ∀ k s, v.snapshots.lookup k = some s → ∃ d, w.snapshots.lookup k = some d ∧
    d.Abridges s v.currentValues
  present : v.isHistoric = true → ∃ t d, v.timestamps.getLast? = some t ∧
    w.snapshots.lookup t.key = some d ∧ d.values = []

theorem definite_attributesOf {r : Attributes} (h : Definite r) : Definite (attributesOf r) where
  distinct := h.distinct.sublist (List.filter_sublist.map _)
  equal f hf := h.equal f (List.mem_filter.mp hf).1

/-- What a view shows instead of the entity does not differ from what it shows. -/
theorem changedFrom_past {v : EntityView} {s : Snapshot} (hpast : v.past = some s.values)
    (h : Definite s.values) : (s.changedFrom v.currentValues).values = [] := by
  rw [Snapshot.changedFrom, List.filter_eq_nil_iff]
  rintro ⟨name, x⟩ hmem hdiffers
  have hshown : v.currentValues.lookup name = some (.scalar x) := by
    rw [currentValues, lookup_overlay, overrides, hpast, Option.getD_some,
      lookup_map_value fun _ => Value.scalar, (lookup_eq_some_iff_mem h.distinct).mpr hmem]
    rfl
  have hunequal := Snapshot.differs_eq_true_iff.mp hdiffers _ hshown
  rw [Value.equals, h.equal _ hmem] at hunequal
  cases hunequal

/-- The snapshots of a view hold what was found. -/
theorem Knows.exists_found {v : EntityView} {found : String → Option Attributes}
    {ts : List Timestamp} (h : v.Knows found ts) {k : String} {s : Snapshot}
    (hs : v.snapshots.lookup k = some s) :
    k ∈ ts.map Timestamp.key ∧ ∃ r, found k = some r ∧ s.values = attributesOf r := by
  have hvalues := h.values k
  rw [hs, Option.map_some] at hvalues
  split at hvalues
  · next hk =>
    obtain ⟨r, hr, he⟩ := Option.map_eq_some_iff.mp hvalues.symm
    exact ⟨hk, r, hr, he.symm⟩
  · cases hvalues

/-- A view that knows what was found, and the view of its differences. -/
theorem Knows.abridges_differing {v : EntityView} {found : String → Option Attributes}
    {ts : List Timestamp} (h : v.Knows found ts) (hts : v.timestamps = ts)
    (hpast : v.past = pastAt found ts)
    (hfound : ∀ k ∈ ts.map Timestamp.key, ∀ r, found k = some r → Definite r) :
    Abridges v.differing v := by
  subst hts
  have hdefinite : ∀ k s, v.snapshots.lookup k = some s → Definite s.values := by
    intro k s hs
    obtain ⟨hk, r, hr, he⟩ := h.exists_found hs
    exact he ▸ definite_attributesOf (hfound k hk r hr)
  have hlookup : ∀ k s, v.snapshots.lookup k = some s →
      v.differing.snapshots.lookup k = some (s.changedFrom v.currentValues) := by
    intro k s hs
    rw [lookup_differing, hs]
    rfl
  refine ⟨rfl, rfl, rfl, rfl, fun _ => rfl, rfl, List.map_map, fun k s hs => ?_,
    fun hhistoric => ?_⟩
  · exact ⟨_, hlookup k s hs, Snapshot.abridges_changedFrom (hdefinite k s hs).distinct _⟩
  · -- What is shown is the snapshot at the last timestamp.
    obtain ⟨past, hp⟩ := Option.isSome_iff_exists.mp hhistoric
    obtain ⟨t, ht, hlast⟩ := Option.bind_eq_some_iff.mp ((h.past_eq hpast).symm.trans hp)
    split at hlast
    · obtain ⟨s, hs, rfl⟩ := Option.map_eq_some_iff.mp hlast
      exact ⟨t, _, ht, hlookup _ s hs, changedFrom_past hp (hdefinite _ s hs)⟩
    · cases hlast

/-! ## What is found -/

/-- The rows at a timestamp are those of an answer. -/
theorem definite_of_rowsAt {kind : Kind} {ids : List Value} {moment : Option Moment}
    {clock : Instant} {t : Timestamp} {db : Database} (hdb : db.Sound) {rows : List Attributes}
    (h : (rowsAt kind ids moment clock t).answer db = .ok rows) : ∀ r ∈ rows, Definite r := by
  unfold rowsAt at h
  rw [(Action.keeps_lift _).answer_bind] at h
  obtain ⟨live, -, h⟩ := bind_eq_ok_iff.mp h
  rw [(Action.keeps_lift _).answer_bind] at h
  obtain ⟨q, -, h⟩ := bind_eq_ok_iff.mp h
  exact Query.definite_of_answer hdb h

theorem definite_of_findings {kind : Kind} {ids : List Value} {moment : Option Moment}
    {clock : Instant} {db : Database} (hdb : db.Sound) {ts : List Timestamp}
    {rows : List (List Attributes)} {matched : List (List Scalar)}
    (hrows : ((distinct ts).mapM fun u => (rowsAt kind ids moment clock u).answer db) = .ok rows)
    (hm : matched.length = (distinct ts).length) (id : Value) {k : String}
    (hk : k ∈ ts.map Timestamp.key) {r : Attributes}
    (hr : foundIn (((distinct ts).map Timestamp.key).zip (List.zipWith Finding.mk rows matched)) id
      k = some r) : Definite r := by
  obtain ⟨t, ht, rfl⟩ := List.mem_map.mp hk
  obtain ⟨u, hu, hsame⟩ := exists_same_mem_distinct ht
  have hkey : t.key ∈ (distinct ts).map Timestamp.key :=
    List.mem_map.mpr ⟨u, hu, beq_iff_eq.mp hsame⟩
  obtain ⟨u, -, -, rs, m, hrs, hlookup⟩ := lookup_findings hrows hm hkey
  rw [foundIn, hlookup, Option.getD_some] at hr
  exact definite_of_rowsAt hdb hrs r (rowOf_eq_some hr).1

/-! ## Both ways of viewing -/

theorem mapM_map_ok {ε α β γ : Type} (f : α → Except ε β) (g : β → γ) (xs : List α) :
    (xs.mapM fun x => (f x).map g) = (xs.mapM f).map (List.map g) := by
  induction xs with
  | nil => rfl
  | cons x xs ih =>
    rw [List.mapM_cons, List.mapM_cons, ih]
    cases f x with
    | error e => rfl
    | ok y => cases xs.mapM f <;> rfl

section Subjects

variable {timestamps : List Value} {filter : Option Filter}

theorem start_entity_of_error {f : Failure} (hts : timestamps.mapM Value.toTimestamp = .error f)
    (e : Entity) (differencesOnly : Bool) : start (.entity e) timestamps filter differencesOnly =
      if filter.isSome && !e.kind.supportsFilters then
        .error (.filtersNotSupported ((Kind.all.filter (·.supportsFilters)).map (·.name))
          e.kind.name)
      else .error f := by
  unfold start
  rw [hts]
  change (do
    if filter.isSome && !e.kind.supportsFilters then
      throw (.filtersNotSupported ((Kind.all.filter (·.supportsFilters)).map (·.name)) e.kind.name)
    .error f : Except Failure EntityView) = _
  split <;> rfl

theorem start_differing (e : Entity) : start (.entity e) timestamps filter true =
    (start (.entity e) timestamps filter false).map differing := by
  cases hts : timestamps.mapM Value.toTimestamp with
  | error f =>
    rw [start_entity_of_error hts, start_entity_of_error hts]
    split <;> rfl
  | ok ts =>
    rw [start_entity hts, start_entity hts]
    split <;> rfl

theorem mapM_start_differing (es : List Entity) :
    (es.map Subject.entity).mapM (fun s => start s timestamps filter true) =
      ((es.map Subject.entity).mapM fun s => start s timestamps filter false).map
        (List.map differing) := by
  rw [← mapM_map_ok, List.mapM_map, List.mapM_map]
  exact mapM_congr fun e _ => start_differing e

/-- The same queries lead to views of entities of one kind and to views of their differences. -/
theorem ofSubjects_differing {es : List Entity} {kind : Kind} (hkind : ∀ e ∈ es, e.kind = kind)
    (moment : Option Moment) (clock : Instant) :
    ofSubjects (es.map .entity) timestamps filter true moment clock =
      (fun p => (p.1.map differing, p.2)) <$>
        ofSubjects (es.map .entity) timestamps filter false moment clock := by
  have hstart : (es.map Subject.entity).mapM (fun s => start s timestamps filter true) = _ :=
    mapM_start_differing es
  cases hviews : (es.map Subject.entity).mapM fun s => start s timestamps filter false with
  | error f =>
    rw [hviews] at hstart
    unfold ofSubjects
    rw [hstart, hviews]
    rfl
  | ok vs =>
    rw [hviews] at hstart
    cases es with
    | nil => rfl
    | cons e es =>
      obtain ⟨v, -, hv, -, -⟩ := mapM_cons_eq_ok_iff.mp hviews
      cases hts : timestamps.mapM Value.toTimestamp with
      | error f =>
        rw [start_entity_of_error hts] at hv
        split at hv <;> cases hv
      | ok ts =>
        obtain rfl := started_of_mapM hts hviews
        obtain ⟨rfl, hkind⟩ := List.forall_mem_cons.mp hkind
        have hdiffering : ((e :: es).map (started false ts)).map differing =
            (e :: es).map (started true ts) := List.map_map
        rw [Except.map, hdiffering] at hstart
        cases ts with
        | nil =>
          rw [ofSubjects_of_nil hkind hstart, ofSubjects_of_nil hkind hviews, map_pure, hdiffering]
        | cons t ts =>
          have hfilled : ∀ rows matched, filled true (t :: ts) (e :: es) rows matched =
              (filled false (t :: ts) (e :: es) rows matched).map differing := by
            intro rows matched
            rw [filled, filled, List.map_map, List.map_map, List.map_map]
            exact List.map_congr_left fun e' _ => addFindings_differing (t :: ts) e' _
          rw [ofSubjects_eq hkind hstart, ofSubjects_eq hkind hviews]
          simp only [map_bind, map_pure, hfilled]

end Subjects

/-- Views of entities of one kind know what was found, and can be had back from the views of their
differences. -/
theorem abridges_of_answer {db : Database} (hdb : db.Sound) {kind : Kind} {es : List Entity}
    (hkind : ∀ e ∈ es, e.kind = kind) {timestamps : List Value} {filter : Option Filter}
    {moment : Option Moment} {clock : Instant} {views : List EntityView} {n : Nat}
    (h : (ofSubjects (es.map .entity) timestamps filter false moment clock).answer db =
      .ok (views, n)) : ∀ v ∈ views, Abridges v.differing v := by
  cases es with
  | nil =>
    cases h
    exact List.forall_mem_nil _
  | cons e es =>
    obtain ⟨ts, hts⟩ := exists_timestamps h
    obtain ⟨rfl, hkind⟩ := List.forall_mem_cons.mp hkind
    cases ts with
    | nil =>
      rw [ofSubjects_of_nil hkind (mapM_start_of_answer hts h)] at h
      cases h
      rw [List.forall_mem_map]
      intro e' _
      have hknows : (started false [] e').Knows (fun _ => none) [] := ⟨List.nodup_nil, fun _ => rfl⟩
      exact hknows.abridges_differing rfl rfl fun k hk => nomatch hk
    | cons t ts =>
      obtain ⟨rows, matched, hrows, hmatched, rfl⟩ := answer_ofSubjects hts hkind h
      rw [filled, List.map_map, List.forall_mem_map]
      intro e' _
      obtain ⟨hknows, hextends⟩ := addFindings_started (t :: ts) e'
        (((distinct (t :: ts)).map Timestamp.key).zip (List.zipWith Finding.mk rows matched))
      exact hknows.abridges_differing hextends.timestamps hextends.past fun k hk r hr =>
        definite_of_findings hdb.opened hrows (length_matchedAll rfl hmatched) _ hk hr

/-- Views of differences of any entities of one kind lose nothing that whole views have: they come
with the same failures, after as many queries, and each of them abridges the whole view of its
entity. -/
theorem ofSubjects_abridges {db : Database} (hdb : db.Reached) {kind : Kind} {es : List Entity}
    (hkind : ∀ e ∈ es, e.kind = kind) (timestamps : List Value) (filter : Option Filter)
    (moment : Option Moment) (clock : Instant) :
    (∀ f, (ofSubjects (es.map .entity) timestamps filter true moment clock).answer db = .error f ↔
      (ofSubjects (es.map .entity) timestamps filter false moment clock).answer db = .error f) ∧
    ∀ views n, (ofSubjects (es.map .entity) timestamps filter false moment clock).answer db =
      .ok (views, n) → ∃ abridged,
        (ofSubjects (es.map .entity) timestamps filter true moment clock).answer db =
          .ok (abridged, n) ∧ List.Forall₂ Abridges abridged views := by
  have hanswer : (ofSubjects (es.map .entity) timestamps filter true moment clock).answer db =
      ((ofSubjects (es.map .entity) timestamps filter false moment clock).answer db).map
        fun p => (p.1.map differing, p.2) := by
    rw [ofSubjects_differing hkind, map_eq_pure_bind, Action.answer, Action.run_bind, Action.answer]
    rcases (ofSubjects (es.map .entity) timestamps filter false moment clock).run db with ⟨r, db'⟩
    cases r <;> rfl
  rw [hanswer]
  constructor
  · intro f
    cases (ofSubjects (es.map .entity) timestamps filter false moment clock).answer db with
    | error f' => exact ⟨fun h => by cases h; rfl, fun h => by cases h; rfl⟩
    | ok p => exact ⟨fun h => (by cases h), fun h => (by cases h)⟩
  · intro views n h
    refine ⟨views.map differing, by rw [h]; rfl, ?_⟩
    rw [List.forall₂_map_left_iff, List.forall₂_same]
    exact abridges_of_answer hdb.regular.sound hkind h

/-- At noon the work package in hand is shown as it was stored, and nothing differs from this. -/
theorem ofSubjects_abridges_inHand : ∃ v w n d,
    (ofSubjects ([inHand].map .entity) [.timestamp (.absolute noonInUtc)] none false none
      Journal.firstDay.instant).answer staffed = .ok ([v], n) ∧
    (ofSubjects ([inHand].map .entity) [.timestamp (.absolute noonInUtc)] none true none
      Journal.firstDay.instant).answer staffed = .ok ([w], n) ∧
    Abridges w v ∧ v.isHistoric = true ∧
    w.snapshots.lookup (Timestamp.absolute noonInUtc).key = some d ∧ d.values = [] := by
  have hreached : staffed.Reached := ⟨_, rfl⟩
  have hentry : (Journal.entryAtIn staffed .workPackage 1 noonInUtc).isSome = true := by
    decide +kernel
  have hproper : noonInUtc.micros < Instant.bound := by decide
  have hids : numbersOf [inHand] = ([1] : List Int).map .int := rfl
  have hanswer : ∃ views n, (ofSubjects ([inHand].map .entity) [.timestamp (.absolute noonInUtc)]
      none false none Journal.firstDay.instant).answer staffed = .ok (views, n) := by
    refine exists_answer_ofSubjects rfl (List.forall_mem_nil _) fun u hu => ?_
    cases List.mem_singleton.mp hu
    rw [hids]
    exact (exists_rowsAt_iff rfl hproper (hreached.regular.change (.opened staffed))).mpr
      (List.forall_mem_singleton.mpr (by decide))
  obtain ⟨views, n, hviews⟩ := hanswer
  have hkind : ∀ e ∈ [inHand], e.kind = Kind.workPackage := List.forall_mem_singleton.mpr rfl
  obtain ⟨-, hall⟩ := ofSubjects_abridges hreached hkind [.timestamp (.absolute noonInUtc)] none
    none Journal.firstDay.instant
  obtain ⟨abridged, habridged, hforall⟩ := hall views n hviews
  obtain ⟨rows, matched, hrows, hmatched, rfl⟩ :=
    answer_ofSubjects rfl (List.forall_mem_nil _) hviews
  obtain ⟨w, ws, hw, hnil, rfl⟩ := List.forall₂_cons_right_iff.mp hforall
  obtain rfl := List.forall₂_nil_right_iff.mp hnil
  obtain ⟨live, hl, hid⟩ := List.mem_map.mp (ids_staffed ▸ List.mem_singleton_self 1)
  obtain ⟨entry, hentry⟩ := Option.isSome_iff_exists.mp hentry
  have htimes : ∀ t ∈ [Timestamp.absolute noonInUtc], t.IsProper :=
    List.forall_mem_singleton.mpr hproper
  obtain ⟨-, hfound, -⟩ := foundIn_findings hreached hids htimes hrows
    (length_matchedAll rfl hmatched) hl (List.mem_singleton.mpr hid)
    (List.mem_singleton_self (Timestamp.absolute noonInUtc)) rfl
  obtain ⟨r, hr, -⟩ := hfound entry (hid ▸ hentry)
  obtain ⟨-, hextends⟩ := addFindings_started [.absolute noonInUtc] inHand
    (((distinct [.absolute noonInUtc]).map Timestamp.key).zip
      (List.zipWith Finding.mk rows matched))
  have hhistoric : ((started false [.absolute noonInUtc] inHand).addFindings
      (((distinct [.absolute noonInUtc]).map Timestamp.key).zip
        (List.zipWith Finding.mk rows matched))).isHistoric = true := by
    rw [hid] at hr
    rw [isHistoric, hextends.past]
    change ((foundIn _ (.int 1) (Timestamp.absolute noonInUtc).key).map attributesOf).isSome = true
    rw [hr]
    rfl
  obtain ⟨t, d, ht, hd, hempty⟩ := hw.present hhistoric
  obtain rfl : Timestamp.absolute noonInUtc = t :=
    Option.some.inj ((congrArg List.getLast? hextends.timestamps).symm.trans ht)
  exact ⟨_, w, n, d, hviews, habridged, hw, hhistoric, hd, hempty⟩

end EntityView

end Chronicle
