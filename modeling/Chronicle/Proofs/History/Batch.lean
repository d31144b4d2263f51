import Chronicle.Proofs.Filter.Listed
import Chronicle.Proofs.History.Views

/-!
# Views together and one by one

Views of many entities are those that each entity would have on its own, although all of them are read
by the same queries.

* `Entity.HasNumber`: entities that have been stored, or not yet;
* `EntityView.rowOf_rowsAt_of_mem`, `EntityView.matched_of_mem`: what one query says of an entity;
* `EntityView.addFindings_congr`: a view is made of what was found for its entity;
* `EntityView.ofSubjects_one_by_one`: views of many entities.
-/

namespace Chronicle

open Chronicle.Calendar

/-- An entity has a whole number, or none if it has never been stored. -/
def Entity.HasNumber (e : Entity) : Prop :=
  ∀ v, e.get? "id" = some v → v = .null ∨ ∃ i, v = .int i

/-- The number of an entity, if it has one. -/
theorem Entity.HasNumber.exists_eq {e : Entity} (h : e.HasNumber) :
    ∃ n, (e.get? "id").getD .null = .scalar (.ofNumber? n) := by
  cases hv : e.get? "id" with
  | none => exact ⟨none, rfl⟩
  | some v =>
    rcases h v hv with rfl | ⟨i, rfl⟩
    · exact ⟨none, rfl⟩
    · exact ⟨some i, rfl⟩

namespace EntityView

theorem exists_numbers {es : List Entity} (h : ∀ e ∈ es, e.HasNumber) :
    ∃ ns : List (Option Int), numbersOf es = (ns.map Scalar.ofNumber?).map .scalar ∧
      ∀ e ∈ es, ∃ n ∈ ns, (e.get? "id").getD .null = .scalar (.ofNumber? n) := by
  induction es with
  | nil => exact ⟨[], rfl, fun _ he => nomatch he⟩
  | cons e es ih =>
    obtain ⟨he, hes⟩ := List.forall_mem_cons.mp h
    obtain ⟨ns, hns, hall⟩ := ih hes
    obtain ⟨n, hn⟩ := he.exists_eq
    refine ⟨n :: ns, ?_, List.forall_mem_cons.mpr ⟨⟨n, List.mem_cons_self, hn⟩, ?_⟩⟩
    · rw [numbersOf, List.map_cons, hn]
      exact congrArg (_ :: ·) hns
    · intro e' he'
      obtain ⟨m, hm, e⟩ := hall e' he'
      exact ⟨m, List.mem_cons_of_mem _ hm, e⟩

/-! ## What one query says of an entity -/

/-- The number in a row. -/
def numberIn (r : Attributes) : Except Failure Scalar :=
  (r.lookup "id").elim (.error .missingItem) .ok

theorem numberIn_eq_ok {r : Attributes} {i : Scalar} (h : numberIn r = .ok i) :
    r.lookup "id" = some i := by
  unfold numberIn at h
  cases hr : r.lookup "id" with
  | none =>
    rw [hr] at h
    cases h
  | some j =>
    rw [hr] at h
    exact congrArg some (Except.ok.inj h)

theorem runIds_eq (q : Query) : q.runIds = q.run >>= fun rows =>
    (rows.mapM fun r => (liftM (numberIn r) : Action Scalar)) >>= fun ids =>
      (pure ids.eraseDups : Action (List Scalar)) := by
  unfold Query.runIds numberIn
  refine congrArg (q.run >>= ·) (funext fun rows => ?_)
  refine congrArg (rows.mapM · >>= _) (funext fun r => ?_)
  cases r.lookup "id" <;> rfl

section Queries

variable {kind : Kind} {ids : List Value} {moment : Option Moment} {clock : Instant}
  {db : Database} (hopen : db.opened = db)

include hopen

omit hopen in
theorem query_of_rowsAt {ss : List Scalar} {t : Timestamp} {rows : List Attributes}
    (h : (rowsAt kind (ss.map .scalar) moment clock t).answer db = .ok rows) :
    ∃ r, ((Query.ofTable kind.table.name).listing ⟨kind.table.name, "id"⟩ ss).asOfTimestamp
      (.timestamp t) moment clock = .ok r ∧ r.run.answer db = .ok rows := by
  unfold rowsAt at h
  rw [Predicate.among_list_eq_ok_iff.mpr ⟨ss, rfl, rfl⟩, (Action.keeps_lift _).answer_bind] at h
  obtain ⟨live, hlive, h⟩ := bind_eq_ok_iff.mp h
  cases hlive
  rw [(Action.keeps_lift _).answer_bind] at h
  exact bind_eq_ok_iff.mp h

/-- A number is among those of an answer if the answer has a row with it. -/
theorem any_runIds {q : Query} {ids : List Scalar} (h : q.runIds.answer db = .ok ids) :
    ∃ rows, q.run.answer db = .ok rows ∧
      ∀ v, (ids.any fun i => (Value.scalar i).equals v) = (rowOf rows v).isSome := by
  rw [runIds_eq, (q.run_keeps hopen).answer_bind] at h
  obtain ⟨rows, hrows, h⟩ := bind_eq_ok_iff.mp h
  rw [(Action.keeps_mapM (fun _ => Action.keeps_lift _) rows).answer_bind,
    Action.answer_mapM fun _ => Action.keeps_lift _] at h
  obtain ⟨all, hall, h⟩ := bind_eq_ok_iff.mp h
  cases h
  refine ⟨rows, hrows, fun v => ?_⟩
  rw [Bool.eq_iff_iff, List.any_eq_true, rowOf, List.find?_isSome]
  simp only [List.mem_eraseDups, List.mem_reverse]
  constructor
  · rintro ⟨i, hi, hv⟩
    obtain ⟨r, hr, hri⟩ := exists_of_mem_mapM hall hi
    exact ⟨r, hr, by rw [numberIn_eq_ok hri]; exact hv⟩
  · rintro ⟨r, hr, hv⟩
    obtain ⟨i, hi, hri⟩ := exists_mem_of_mapM hall hr
    rw [numberIn_eq_ok hri] at hv
    exact ⟨i, hi, hv⟩

/-- What a filter lets pass are the numbers of the rows that its query answers with. -/
theorem query_of_matching {f : Filter} {ss : List Scalar} {t : Value} {matched : List Scalar}
    (h : (f.matching (ss.map .scalar) t moment clock).answer db = .ok matched) :
    ∃ ps r rows, f.predicates clock = .ok ps ∧
      ((((Query.ofTable f.kind.table.name).filterBy ps).selecting
        [.column ⟨f.kind.table.name, "id"⟩ none]).listing ⟨f.kind.table.name, "id"⟩
          ss).asOfTimestamp t moment clock = .ok r ∧ r.run.answer db = .ok rows ∧
      ∀ v, (matched.any fun i => (Value.scalar i).equals v) = (rowOf rows v).isSome := by
  unfold Filter.matching at h
  rw [(Action.keeps_lift _).answer_bind] at h
  obtain ⟨live, hlive, h⟩ := bind_eq_ok_iff.mp h
  obtain ⟨ps, hps, rfl⟩ := Filter.query_scalars hlive
  rw [(Action.keeps_lift _).answer_bind] at h
  obtain ⟨r, hr, h⟩ := bind_eq_ok_iff.mp h
  obtain ⟨rows, hrows, hany⟩ := any_runIds hopen h
  exact ⟨ps, r, rows, hps, hr, hrows, hany⟩

omit hopen in
/-- The row of an entity does not depend on the entities that it is asked for with. -/
theorem rowOf_rowsAt_of_mem {ns ms : List (Option Int)} {t : Timestamp}
    {rows rows' : List Attributes}
    (hrows : (rowsAt kind ((ns.map Scalar.ofNumber?).map .scalar) moment clock t).answer db =
      .ok rows)
    (hrows' : (rowsAt kind ((ms.map Scalar.ofNumber?).map .scalar) moment clock t).answer db =
      .ok rows') {n : Option Int} (hn : n ∈ ns) (hm : n ∈ ms) :
    rowOf rows (.scalar (.ofNumber? n)) = rowOf rows' (.scalar (.ofNumber? n)) := by
  obtain ⟨r, hr, hrun⟩ := query_of_rowsAt hrows
  obtain ⟨r', hr', hrun'⟩ := query_of_rowsAt hrows'
  exact Query.rowOf_listing ⟨rfl, rfl, rfl, rfl, .inl rfl⟩ hr hr' hrun hrun' hn hm

/-- Whether a filter lets an entity pass does not depend on the entities that it is asked with. -/
theorem any_matching_of_mem {f : Filter} {ns ms : List (Option Int)} {t : Value}
    {matched matched' : List Scalar}
    (h : (f.matching ((ns.map Scalar.ofNumber?).map .scalar) t moment clock).answer db =
      .ok matched)
    (h' : (f.matching ((ms.map Scalar.ofNumber?).map .scalar) t moment clock).answer db =
      .ok matched') {n : Option Int} (hn : n ∈ ns) (hm : n ∈ ms) :
    (matched.any fun i => (Value.scalar i).equals (.scalar (.ofNumber? n))) =
      matched'.any fun i => (Value.scalar i).equals (.scalar (.ofNumber? n)) := by
  obtain ⟨ps, r, rows, hps, hr, hrun, hany⟩ := query_of_matching hopen h
  obtain ⟨ps', r', rows', hps', hr', hrun', hany'⟩ := query_of_matching hopen h'
  obtain rfl : ps = ps' := Except.ok.inj (hps.symm.trans hps')
  rw [hany, hany', Query.rowOf_listing (f.asksNumbers ps) hr hr' hrun hrun' hn hm]

end Queries

/-! ## Views made of findings -/

/-- Findings say the same of an entity under a key. -/
def SameFor (id : Value) (x y : Finding) : Prop :=
  rowOf x.rows id = rowOf y.rows id ∧
    (x.matched.any fun i => (Value.scalar i).equals id) =
      y.matched.any fun i => (Value.scalar i).equals id

/-- A view is made of what was found for its entity at its timestamps. -/
theorem addFindings_congr {differencesOnly : Bool} {ts : List Timestamp} {e : Entity}
    {xs ys : List (String × Finding)} (h : ∀ t ∈ ts, SameFor ((e.get? "id").getD .null)
      ((xs.lookup t.key).getD default) ((ys.lookup t.key).getD default)) :
    (started differencesOnly ts e).addFindings xs =
      (started differencesOnly ts e).addFindings ys := by
  have hpast : pastAt (foundIn xs ((e.get? "id").getD .null)) ts =
      pastAt (foundIn ys ((e.get? "id").getD .null)) ts := by
    unfold pastAt
    cases hlast : ts.getLast? with
    | none => rfl
    | some t =>
      rw [Option.bind_some, Option.bind_some, foundIn, foundIn,
        (h t (List.mem_of_getLast? hlast)).1]
  have hstep : ∀ (us : List Timestamp) (v : EntityView), (∀ t ∈ us, t ∈ ts) →
      us.foldl (addFinding xs ((e.get? "id").getD .null)) v =
        us.foldl (addFinding ys ((e.get? "id").getD .null)) v := by
    intro us
    induction us with
    | nil => exact fun v _ => rfl
    | cons u us ih =>
      intro v hus
      obtain ⟨hu, hus⟩ := List.forall_mem_cons.mp hus
      obtain ⟨hrow, hany⟩ := h u hu
      rw [List.foldl_cons, List.foldl_cons, addFinding, addFinding, foundIn, foundIn, hrow, hany]
      exact ih _ hus
  rw [addFindings_eq, addFindings_eq, hpast, hstep ts _ fun t ht => ht]

/-- What the queries answer for some entities at a timestamp. -/
def findingAt (kind : Kind) (ids : List Value) (filter : Option Filter) (moment : Option Moment)
    (clock : Instant) (db : Database) (t : Timestamp) : Except Failure Finding := do
  let rows ← (rowsAt kind ids moment clock t).answer db
  let matched ← filter.elim (.ok []) fun f =>
    (f.matching ids (.timestamp t) moment clock).answer db
  return ⟨rows, matched⟩

section Findings

variable {kind : Kind} {filter : Option Filter} {moment : Option Moment} {clock : Instant}
  {db : Database} (hopen : db.opened = db)

include hopen

theorem answer_matchedAll (ids : List Value) (us : List Timestamp) :
    (matchedAll filter ids us moment clock).answer db = us.mapM fun t =>
      filter.elim (.ok []) fun f => (f.matching ids (.timestamp t) moment clock).answer db := by
  cases filter with
  | none =>
    change Except.ok (us.map fun _ => []) = us.mapM fun _ => (Except.ok [] : Except Failure _)
    induction us with
    | nil => rfl
    | cons u us ih =>
      rw [List.mapM_cons, ← ih]
      rfl
  | some f => exact Action.answer_mapM (fun t => f.matching_keeps ids _ moment clock hopen) us

/-- What is answered at some timestamps is found under their keys. -/
theorem exists_findingAt {ids : List Value} {us : List Timestamp} {rows : List (List Attributes)}
    {matched : List (List Scalar)}
    (hrows : (us.mapM fun u => (rowsAt kind ids moment clock u).answer db) = .ok rows)
    (hmatched : (matchedAll filter ids us moment clock).answer db = .ok matched) {k : String}
    {u : Timestamp} (hu : us.find? (fun u => u.key == k) = some u) :
    ∃ x, findingAt kind ids filter moment clock db u = .ok x ∧
      ((us.map Timestamp.key).zip (List.zipWith Finding.mk rows matched)).lookup k = some x := by
  rw [answer_matchedAll hopen] at hmatched
  induction us generalizing rows matched with
  | nil => cases hu
  | cons w us ih =>
    obtain ⟨rs, rows, hrs, hrest, rfl⟩ := mapM_cons_eq_ok_iff.mp hrows
    obtain ⟨m, matched, hm, hothers, rfl⟩ := mapM_cons_eq_ok_iff.mp hmatched
    rw [List.map_cons, List.zipWith_cons_cons, List.zip_cons_cons]
    by_cases hw : w.key = k
    · have hpos : (w.key == k) = true := beq_iff_eq.mpr hw
      rw [List.find?_cons, hpos] at hu
      obtain rfl := Option.some.inj hu
      refine ⟨⟨rs, m⟩, bind_eq_ok_iff.mpr ⟨rs, hrs, bind_eq_ok_iff.mpr ⟨m, hm, rfl⟩⟩, ?_⟩
      rw [hw]
      exact List.lookup_cons_self
    · have hneg : (w.key == k) = false := beq_eq_false_iff_ne.mpr hw
      rw [List.find?_cons, hneg] at hu
      obtain ⟨x, hx, hlookup⟩ := ih hrest hothers hu
      refine ⟨x, hx, ?_⟩
      rw [List.lookup_cons, beq_eq_false_iff_ne.mpr fun e => hw e.symm]
      exact hlookup

/-- What is found at a timestamp says the same of an entity whatever entities are asked for. -/
theorem sameFor_findingAt {ns ms : List (Option Int)} {t : Timestamp} {x y : Finding}
    (hx : findingAt kind ((ns.map Scalar.ofNumber?).map .scalar) filter moment clock db t = .ok x)
    (hy : findingAt kind ((ms.map Scalar.ofNumber?).map .scalar) filter moment clock db t = .ok y)
    {n : Option Int} (hn : n ∈ ns) (hm : n ∈ ms) : SameFor (.scalar (.ofNumber? n)) x y := by
  obtain ⟨rows, hrows, hx⟩ := bind_eq_ok_iff.mp hx
  obtain ⟨matched, hmatched, hx⟩ := bind_eq_ok_iff.mp hx
  obtain ⟨rows', hrows', hy⟩ := bind_eq_ok_iff.mp hy
  obtain ⟨matched', hmatched', hy⟩ := bind_eq_ok_iff.mp hy
  cases hx
  cases hy
  refine ⟨rowOf_rowsAt_of_mem hrows hrows' hn hm, ?_⟩
  cases filter with
  | none =>
    cases hmatched
    cases hmatched'
    rfl
  | some f => exact any_matching_of_mem hopen hmatched hmatched' hn hm

end Findings

/-! ## Views one by one -/

section Answers

variable {timestamps : List Value} {filter : Option Filter} {differencesOnly : Bool}
  {moment : Option Moment} {clock : Instant} {db : Database}

/-- Where there are views there are their timestamps. -/
theorem exists_timestamps {e : Entity} {es : List Entity} {p : List EntityView × Nat}
    (h : (ofSubjects ((e :: es).map .entity) timestamps filter differencesOnly moment
      clock).answer db = .ok p) : ∃ ts, timestamps.mapM Value.toTimestamp = .ok ts := by
  cases hstart : start (.entity e) timestamps filter differencesOnly with
  | error f =>
    unfold ofSubjects at h
    rw [List.map_cons, List.mapM_cons, hstart] at h
    cases h
  | ok v =>
    unfold start at hstart
    cases hts : timestamps.mapM Value.toTimestamp with
    | ok ts => exact ⟨ts, rfl⟩
    | error f =>
      rw [hts] at hstart
      obtain ⟨e', -, hstart⟩ := bind_eq_ok_iff.mp hstart
      dsimp only at hstart
      split at hstart <;> cases hstart

theorem eq_of_length_eraseDups_le {α : Type} [BEq α] [LawfulBEq α] {xs : List α}
    (h : xs.eraseDups.length ≤ 1) {a b : α} (ha : a ∈ xs) (hb : b ∈ xs) : a = b := by
  rw [← List.mem_eraseDups] at ha hb
  rcases hxs : xs.eraseDups with - | ⟨x, - | ⟨y, ys⟩⟩
  · rw [hxs] at ha
    cases ha
  · rw [hxs] at ha hb
    rw [List.mem_singleton.mp ha, List.mem_singleton.mp hb]
  · rw [hxs] at h
    simp at h

/-- Entities that are viewed together are of one kind. -/
theorem kind_eq_of_answer {ts : List Timestamp} (hts : timestamps.mapM Value.toTimestamp = .ok ts)
    {e : Entity} {es : List Entity} {p : List EntityView × Nat}
    (h : (ofSubjects ((e :: es).map .entity) timestamps filter differencesOnly moment
      clock).answer db = .ok p) : ∀ e' ∈ es, e'.kind = e.kind := by
  have hviews := mapM_start_of_answer hts h
  have hone : (((e :: es).map (started differencesOnly ts)).map
      (·.kind.name)).eraseDups.length ≤ 1 := by
    by_contra hmore
    have hthrow : ∃ f, ofSubjects ((e :: es).map .entity) timestamps filter differencesOnly moment
        clock = throw f := by
      unfold ofSubjects
      rw [hviews]
      exact ⟨_, if_pos (Nat.not_le.mp hmore)⟩
    obtain ⟨f, hthrow⟩ := hthrow
    rw [hthrow] at h
    cases h
  intro e' he'
  rw [List.map_map] at hone
  exact Kind.name_injective (eq_of_length_eraseDups_le hone
    (List.mem_map_of_mem (List.mem_cons_of_mem e he')) (List.mem_map_of_mem List.mem_cons_self))

/-- Views of entities of one kind are those that each of the entities has on its own, whatever their
order is, whether or not they have been stored, and even if there are some more than once. -/
theorem ofSubjects_one_by_one {es : List Entity} (hnumber : ∀ e ∈ es, e.HasNumber)
    {views : List EntityView} {n : Nat}
    (h : (ofSubjects (es.map .entity) timestamps filter differencesOnly moment clock).answer db =
      .ok (views, n))
    (hone : ∀ e ∈ es, ∃ p, (ofSubjects [.entity e] timestamps filter differencesOnly moment
      clock).answer db = .ok p) :
    List.Forall₂ (fun e v => ∃ m, (ofSubjects [.entity e] timestamps filter differencesOnly moment
      clock).answer db = .ok ([v], m)) es views := by
  cases es with
  | nil =>
    cases h
    exact .nil
  | cons e es =>
    obtain ⟨ts, hts⟩ := exists_timestamps h
    have hkind := kind_eq_of_answer hts h
    have hkinds : ∀ e' ∈ e :: es, e'.kind = e.kind := List.forall_mem_cons.mpr ⟨rfl, hkind⟩
    cases ts with
    | nil =>
      rw [ofSubjects_of_nil hkind (mapM_start_of_answer hts h)] at h
      cases h
      rw [List.forall₂_map_right_iff, List.forall₂_same]
      intro e' he'
      obtain ⟨p, hp⟩ := hone e' he'
      have hnone : ∀ e'' ∈ ([] : List Entity), e''.kind = e'.kind := fun _ hmem => nomatch hmem
      have hstart : ([e'].map Subject.entity).mapM (fun s => start s timestamps filter
          differencesOnly) = .ok ([e'].map (started differencesOnly [])) :=
        mapM_start_of_answer hts hp
      exact ⟨0, congrArg (Action.answer · db) (ofSubjects_of_nil hnone hstart)⟩
    | cons t ts =>
      obtain ⟨rows, matched, hrows, hmatched, rfl⟩ := answer_ofSubjects hts hkind h
      obtain ⟨ns, hns, hmem⟩ := exists_numbers hnumber
      rw [hns] at hrows hmatched
      rw [filled, List.forall₂_map_right_iff, List.forall₂_map_right_iff, List.forall₂_same]
      intro e' he'
      obtain ⟨⟨views, m⟩, hp⟩ := hone e' he'
      have hnone : ∀ e'' ∈ ([] : List Entity), e''.kind = e'.kind := fun _ hmem => nomatch hmem
      obtain ⟨rows', matched', hrows', hmatched', rfl⟩ := answer_ofSubjects hts hnone hp
      obtain ⟨i, hi, hid⟩ := hmem e' he'
      have hid' : numbersOf [e'] = ([i].map Scalar.ofNumber?).map .scalar := by
        rw [numbersOf, List.map_singleton, hid]
        rfl
      rw [hkinds e' he', hid'] at hrows'
      rw [hid'] at hmatched'
      refine ⟨m, hp.trans (congrArg (fun v => Except.ok ([v], m)) (addFindings_congr ?_))⟩
      intro u hu
      obtain ⟨w, hw, hsame⟩ := exists_same_mem_distinct hu
      obtain ⟨w, hw⟩ : ∃ w, (distinct (t :: ts)).find? (fun w => w.key == u.key) = some w :=
        Option.isSome_iff_exists.mp (List.find?_isSome.mpr ⟨w, hw, hsame⟩)
      obtain ⟨x, hx, hlookup⟩ := exists_findingAt rfl hrows hmatched hw
      obtain ⟨y, hy, hlookup'⟩ := exists_findingAt rfl hrows' hmatched' hw
      rw [hid, hlookup, hlookup']
      exact sameFor_findingAt rfl hy hx (List.mem_singleton_self i) hi

end Answers

theorem ofSubjects_one_by_one_inHand : ∃ views n,
    (ofSubjects ([inHand, inHand].map .entity) [.timestamp (.absolute noonInUtc)] none true
      (some (Journal.noon 0)) Journal.firstDay.instant).answer staffed = .ok (views, n) ∧
    List.Forall₂ (fun e v => ∃ m, (ofSubjects [.entity e] [.timestamp (.absolute noonInUtc)] none
      true (some (Journal.noon 0)) Journal.firstDay.instant).answer staffed = .ok ([v], m))
        [inHand, inHand] views := by
  have hregular := (show staffed.Reached from ⟨_, rfl⟩).regular.change (.opened staffed)
  have hbound : noonInUtc.micros < Instant.bound := by decide
  have hrows : ∀ ids : List Int, (∀ i ∈ ids, i = 1) → ∃ rows, (rowsAt .workPackage
      (ids.map .int) (some (Journal.noon 0)) Journal.firstDay.instant
        (.absolute noonInUtc)).answer staffed.opened = .ok rows := fun ids hids =>
    (exists_rowsAt_iff rfl hbound hregular).mpr fun i hi => by
      rw [hids i hi]
      decide
  have hnumber : ∀ e ∈ [inHand, inHand], e.HasNumber := by
    have hone : inHand.HasNumber := fun v hv => .inr ⟨1, (Option.some.inj hv).symm⟩
    exact List.forall_mem_cons.mpr ⟨hone, List.forall_mem_singleton.mpr hone⟩
  have hkind : ∀ e ∈ [inHand], e.kind = inHand.kind := List.forall_mem_singleton.mpr rfl
  have hnone : ∀ e ∈ ([] : List Entity), e.kind = inHand.kind := fun _ he => nomatch he
  have hts : [Value.timestamp (.absolute noonInUtc)].mapM Value.toTimestamp =
      .ok [.absolute noonInUtc] := rfl
  obtain ⟨views, n, h⟩ := exists_answer_ofSubjects hts hkind
    (List.forall_mem_singleton.mpr (hrows [1, 1] (by decide)))
  obtain ⟨view, m, hview⟩ := exists_answer_ofSubjects hts hnone
    (List.forall_mem_singleton.mpr (hrows [1] (by decide)))
  refine ⟨views, n, h, ofSubjects_one_by_one hnumber h fun e he => ?_⟩
  have he : e = inHand := by simpa using he
  rw [he]
  exact ⟨_, hview⟩

end EntityView

end Chronicle
