import Chronicle.Proofs.History.Rows
import Chronicle.Proofs.Timestamp.Key

/-!
# Views of many entities

Views of entities of one kind hold what the journal has at their timestamps, although they are read
by one query for each distinct timestamp, and the journal is read entry by entry.

* `Action.Keeps`: actions that leave the store as it is;
* `EntityView.answer_ofSubjects`: the queries behind the views;
* `EntityView.Knows`: the snapshots of a view once some timestamps are known;
* `EntityView.ofSubjects_shows_journal`: what is shown is what the journal has.
-/

namespace Chronicle

open Chronicle.Calendar

/-! ## Actions that read -/

namespace Action

variable {α β : Type} {db : Database}

/-- An action leaves a store as it is. -/
def Keeps (a : Action α) (db : Database) : Prop := (a.run db).2 = db

theorem Keeps.answer_bind {a : Action α} (h : a.Keeps db) (f : α → Action β) :
    (a >>= f).answer db = (a.answer db).bind fun x => (f x).answer db := by
  unfold answer
  rw [run_bind]
  rcases hrun : a.run db with ⟨r, db'⟩
  obtain rfl : db' = db := by rw [Keeps, hrun] at h; exact h
  cases r <;> rfl

theorem Keeps.bind {a : Action α} {f : α → Action β} (h : a.Keeps db) (hf : ∀ x, (f x).Keeps db) :
    (a >>= f).Keeps db := by
  rw [Keeps, run_bind]
  rcases hrun : a.run db with ⟨r, db'⟩
  obtain rfl : db' = db := by rw [Keeps, hrun] at h; exact h
  cases r with
  | error f => rfl
  | ok x => exact hf x

theorem keeps_pure (x : α) : (pure x : Action α).Keeps db := rfl

theorem keeps_throw (f : Failure) : (throw f : Action α).Keeps db := rfl

theorem keeps_lift (x : Except Failure α) : (liftM x : Action α).Keeps db := rfl

theorem keeps_read (f : Database → Except Failure α) : (read f).Keeps db := by
  rw [Keeps, run_read]

theorem keeps_mapM {f : α → Action β} (hf : ∀ x, (f x).Keeps db) (xs : List α) :
    (xs.mapM f).Keeps db := by
  induction xs with
  | nil => exact keeps_pure _
  | cons x xs ih =>
    rw [List.mapM_cons]
    exact (hf x).bind fun _ => ih.bind fun _ => keeps_pure _

/-- What is read one after the other. -/
theorem answer_mapM {f : α → Action β} (hf : ∀ x, (f x).Keeps db) (xs : List α) :
    (xs.mapM f).answer db = xs.mapM fun x => (f x).answer db := by
  induction xs with
  | nil => rfl
  | cons x xs ih =>
    rw [List.mapM_cons, List.mapM_cons, (hf x).answer_bind]
    refine congrArg (Except.bind _) (funext fun y => ?_)
    rw [(keeps_mapM hf xs).answer_bind, ih]
    rfl

end Action

/-- Once the store is open queries leave it as it is. -/
theorem Query.run_keeps (q : Query) {db : Database} (hopen : db.opened = db) : q.run.Keeps db :=
  (Action.keeps_lift _).bind fun _ =>
    (show Action.openCore.Keeps db from hopen).bind fun _ => Action.keeps_read _

theorem Query.runIds_keeps (q : Query) {db : Database} (hopen : db.opened = db) :
    q.runIds.Keeps db := by
  refine (q.run_keeps hopen).bind fun rows => (Action.keeps_mapM (fun r => ?_) rows).bind
    fun _ => Action.keeps_pure _
  split
  · exact Action.keeps_pure _
  · exact Action.keeps_throw _

theorem Filter.matching_keeps (f : Filter) (ids : List Value) (timestamp : Value)
    (moment : Option Moment) (clock : Instant) {db : Database} (hopen : db.opened = db) :
    (f.matching ids timestamp moment clock).Keeps db :=
  (Action.keeps_lift _).bind fun _ => (Action.keeps_lift _).bind fun q => q.runIds_keeps hopen

namespace EntityView

theorem rowsAt_keeps (kind : Kind) (ids : List Value) (moment : Option Moment) (clock : Instant)
    (t : Timestamp) {db : Database} (hopen : db.opened = db) :
    (rowsAt kind ids moment clock t).Keeps db :=
  (Action.keeps_lift _).bind fun _ => (Action.keeps_lift _).bind fun q => q.run_keeps hopen

/-! ## The queries behind views -/

/-- The view of an entity before anything is known about the past. -/
def started (differencesOnly : Bool) (ts : List Timestamp) (e : Entity) : EntityView :=
  ⟨e, ts, differencesOnly, none, [], []⟩

theorem eq_map_of_mapM {α β ε : Type} {f : α → Except ε β} {g : α → β}
    (h : ∀ x y, f x = .ok y → y = g x) {xs : List α} {ys : List β} (hys : xs.mapM f = .ok ys) :
    ys = xs.map g := by
  induction xs generalizing ys with
  | nil =>
    cases hys
    rfl
  | cons x xs ih =>
    obtain ⟨y, zs, hy, hzs, rfl⟩ := mapM_cons_eq_ok_iff.mp hys
    rw [List.map_cons, h x y hy, ih hzs]

section Subjects

variable {differencesOnly : Bool} {timestamps : List Value} {ts : List Timestamp}
  (hts : timestamps.mapM Value.toTimestamp = .ok ts)

include hts

theorem start_entity (e : Entity) (filter : Option Filter) :
    start (.entity e) timestamps filter differencesOnly =
      if filter.isSome && !e.kind.supportsFilters then
        .error (.filtersNotSupported ((Kind.all.filter (·.supportsFilters)).map (·.name))
          e.kind.name)
      else .ok (started differencesOnly ts e) := by
  unfold start
  rw [hts]
  change (do
    if filter.isSome && !e.kind.supportsFilters then
      throw (.filtersNotSupported ((Kind.all.filter (·.supportsFilters)).map (·.name)) e.kind.name)
    return started differencesOnly ts e : Except Failure _) = _
  split <;> rfl

/-- All views start with the same timestamps. -/
theorem started_of_mapM {es : List Entity} {filter : Option Filter} {views : List EntityView}
    (h : (es.map Subject.entity).mapM (fun s => start s timestamps filter differencesOnly) =
      .ok views) : views = es.map (started differencesOnly ts) := by
  rw [List.mapM_map] at h
  refine eq_map_of_mapM (fun e v hv => ?_) h
  rw [Function.comp, start_entity hts] at hv
  split at hv
  · cases hv
  · exact (Except.ok.inj hv).symm

theorem mapM_start (es : List Entity) :
    (es.map Subject.entity).mapM (fun s => start s timestamps none differencesOnly) =
      .ok (es.map (started differencesOnly ts)) := by
  induction es with
  | nil => rfl
  | cons e es ih =>
    exact mapM_cons_eq_ok_iff.mpr ⟨_, _, start_entity hts e none, ih, rfl⟩

end Subjects

/-- The numbers of some entities, as they were given. -/
def numbersOf (es : List Entity) : List Value := es.map fun e => (e.get? "id").getD .null

/-- The views of some entities once the queries have been answered. -/
def filled (differencesOnly : Bool) (ts : List Timestamp) (es : List Entity)
    (rows : List (List Attributes)) (matched : List (List Scalar)) : List EntityView :=
  (es.map (started differencesOnly ts)).map (·.addFindings
    (((distinct ts).map Timestamp.key).zip (List.zipWith Finding.mk rows matched)))

/-- The numbers that a filter lets pass at some timestamps. -/
def matchedAll (filter : Option Filter) (ids : List Value) (us : List Timestamp)
    (moment : Option Moment) (clock : Instant) : Action (List (List Scalar)) :=
  match filter with
  | some f => us.mapM fun t => f.matching ids (.timestamp t) moment clock
  | none => pure (us.map fun _ => [])

theorem matchedAll_keeps (filter : Option Filter) (ids : List Value) (us : List Timestamp)
    (moment : Option Moment) (clock : Instant) {db : Database} (hopen : db.opened = db) :
    (matchedAll filter ids us moment clock).Keeps db := by
  cases filter with
  | none => exact Action.keeps_pure _
  | some f => exact Action.keeps_mapM (fun t => f.matching_keeps ids _ moment clock hopen) us

theorem length_matchedAll {filter : Option Filter} {ids : List Value} {us : List Timestamp}
    {moment : Option Moment} {clock : Instant} {db : Database} (hopen : db.opened = db)
    {matched : List (List Scalar)}
    (h : (matchedAll filter ids us moment clock).answer db = .ok matched) :
    matched.length = us.length := by
  cases filter with
  | none =>
    cases h
    exact List.length_map _
  | some f =>
    rw [matchedAll, Action.answer_mapM fun t => f.matching_keeps ids _ moment clock hopen] at h
    exact length_of_mapM h

theorem answer_openCore {α : Type} (a : Action α) (db : Database) :
    (do
      Action.openCore
      a : Action α).answer db = a.answer db.opened := by
  rw [Action.answer, Action.run_bind, Action.run_openCore]
  rfl

theorem eraseDups_length_le {α : Type} [BEq α] [LawfulBEq α] {xs : List α} {a : α}
    (h : ∀ x ∈ xs, x = a) : xs.eraseDups.length ≤ 1 := by
  cases xs with
  | nil => exact Nat.zero_le _
  | cons x xs =>
    have hnone : xs.filter (fun y => !y == x) = [] := by
      rw [List.filter_eq_nil_iff]
      intro y hy
      rw [h y (List.mem_cons_of_mem _ hy), h x List.mem_cons_self]
      simp
    rw [List.eraseDups_cons, hnone]
    exact Nat.le_refl _

theorem one_name {e : Entity} {es : List Entity} (hkind : ∀ e' ∈ es, e'.kind = e.kind)
    (differencesOnly : Bool) (ts : List Timestamp) :
    ¬(((e :: es).map (started differencesOnly ts)).map (·.kind.name)).eraseDups.length > 1 := by
  refine Nat.not_lt.mpr (eraseDups_length_le (a := e.kind.name) ?_)
  rw [List.map_map, List.forall_mem_map, List.forall_mem_cons]
  exact ⟨rfl, fun e' he' => congrArg Kind.name (hkind e' he')⟩

section Queries

variable {differencesOnly : Bool}

/-- Views of entities that there are, at timestamps of which there are some: one query for each
distinct timestamp, and one more for each if there is a filter. -/
theorem ofSubjects_eq {timestamps : List Value} {t : Timestamp} {ts : List Timestamp} {e : Entity}
    {es : List Entity} (hkind : ∀ e' ∈ es, e'.kind = e.kind) {filter : Option Filter}
    {moment : Option Moment} {clock : Instant}
    (hviews : ((e :: es).map Subject.entity).mapM
      (fun s => start s timestamps filter differencesOnly) =
        .ok ((e :: es).map (started differencesOnly (t :: ts)))) :
    ofSubjects ((e :: es).map .entity) timestamps filter differencesOnly moment clock = (do
      Action.openCore
      let rows ← (distinct (t :: ts)).mapM (rowsAt e.kind (numbersOf (e :: es)) moment clock)
      let matched ← matchedAll filter (numbersOf (e :: es)) (distinct (t :: ts)) moment clock
      return (filled differencesOnly (t :: ts) (e :: es) rows matched,
        (distinct (t :: ts)).length + if filter.isSome then (distinct (t :: ts)).length else 0)) := by
  have hids : ((e :: es).map (started differencesOnly (t :: ts))).map id = numbersOf (e :: es) :=
    List.map_map
  unfold ofSubjects
  rw [hviews, ← hids]
  cases filter <;> exact if_neg (one_name hkind _ (t :: ts))

/-- Without timestamps nothing is asked. -/
theorem ofSubjects_of_nil {timestamps : List Value} {e : Entity} {es : List Entity}
    (hkind : ∀ e' ∈ es, e'.kind = e.kind) {filter : Option Filter} {moment : Option Moment}
    {clock : Instant}
    (hviews : ((e :: es).map Subject.entity).mapM
      (fun s => start s timestamps filter differencesOnly) =
        .ok ((e :: es).map (started differencesOnly []))) :
    ofSubjects ((e :: es).map .entity) timestamps filter differencesOnly moment clock =
      pure ((e :: es).map (started differencesOnly []), 0) := by
  unfold ofSubjects
  rw [hviews]
  exact if_neg (one_name hkind _ [])

/-- Where there is an answer, all views start with the same timestamps. -/
theorem mapM_start_of_answer {timestamps : List Value} {ts : List Timestamp}
    (hts : timestamps.mapM Value.toTimestamp = .ok ts) {es : List Entity} {filter : Option Filter}
    {moment : Option Moment} {clock : Instant} {db : Database} {p : List EntityView × Nat}
    (h : (ofSubjects (es.map .entity) timestamps filter differencesOnly moment clock).answer db =
      .ok p) : (es.map Subject.entity).mapM (fun s => start s timestamps filter differencesOnly) =
      .ok (es.map (started differencesOnly ts)) := by
  cases hstart : (es.map Subject.entity).mapM
      (fun s => start s timestamps filter differencesOnly) with
  | error f =>
    unfold ofSubjects at h
    rw [hstart] at h
    cases h
  | ok vs => rw [started_of_mapM hts hstart]

/-- What the views are made of once there is an answer. -/
theorem answer_ofSubjects {timestamps : List Value} {t : Timestamp} {ts : List Timestamp}
    (hts : timestamps.mapM Value.toTimestamp = .ok (t :: ts)) {e : Entity} {es : List Entity}
    (hkind : ∀ e' ∈ es, e'.kind = e.kind) {filter : Option Filter} {moment : Option Moment}
    {clock : Instant} {db : Database} {views : List EntityView} {n : Nat}
    (h : (ofSubjects ((e :: es).map .entity) timestamps filter differencesOnly moment
      clock).answer db = .ok (views, n)) :
    ∃ rows matched, ((distinct (t :: ts)).mapM fun u =>
        (rowsAt e.kind (numbersOf (e :: es)) moment clock u).answer db.opened) = .ok rows ∧
      (matchedAll filter (numbersOf (e :: es)) (distinct (t :: ts)) moment clock).answer
        db.opened = .ok matched ∧
      views = filled differencesOnly (t :: ts) (e :: es) rows matched := by
  rw [ofSubjects_eq hkind (mapM_start_of_answer hts h), answer_openCore,
    (Action.keeps_mapM (fun u => rowsAt_keeps _ _ _ _ u rfl) _).answer_bind,
    Action.answer_mapM fun u => rowsAt_keeps _ _ _ _ u rfl] at h
  obtain ⟨rows, hrows, h⟩ := bind_eq_ok_iff.mp h
  rw [(matchedAll_keeps _ _ _ _ _ rfl).answer_bind] at h
  obtain ⟨matched, hmatched, h⟩ := bind_eq_ok_iff.mp h
  cases h
  exact ⟨rows, matched, hrows, hmatched, rfl⟩

/-- Without a filter there is an answer if there is one to each query. -/
theorem exists_answer_ofSubjects {timestamps : List Value} {t : Timestamp} {ts : List Timestamp}
    (hts : timestamps.mapM Value.toTimestamp = .ok (t :: ts)) {e : Entity} {es : List Entity}
    (hkind : ∀ e' ∈ es, e'.kind = e.kind) {moment : Option Moment} {clock : Instant}
    {db : Database} (h : ∀ u ∈ t :: ts, ∃ rows,
      (rowsAt e.kind (numbersOf (e :: es)) moment clock u).answer db.opened = .ok rows) :
    ∃ views n, (ofSubjects ((e :: es).map .entity) timestamps none differencesOnly moment
      clock).answer db = .ok (views, n) := by
  obtain ⟨rows, hrows⟩ := exists_mapM_eq_ok_iff.mpr fun u hu => h u (mem_of_mem_distinct hu)
  rw [ofSubjects_eq hkind (mapM_start hts _), answer_openCore,
    (Action.keeps_mapM (fun u => rowsAt_keeps _ _ _ _ u rfl) _).answer_bind,
    Action.answer_mapM fun u => rowsAt_keeps _ _ _ _ u rfl, hrows]
  exact ⟨_, _, rfl⟩

end Queries

/-! ## Snapshots one after the other -/

section Lookup

variable {α : Type}

theorem lookup_filter_name (p : String → Bool) (l : List (String × α)) (n : String) :
    (l.filter fun f => p f.1).lookup n = if p n then l.lookup n else none := by
  induction l with
  | nil => split <;> rfl
  | cons f l ih =>
    obtain ⟨m, x⟩ := f
    rw [List.filter_cons]
    by_cases hm : n = m
    · subst hm
      cases hp : p n with
      | true => simp
      | false => simpa [hp] using ih
    · have hb : (n == m) = false := beq_eq_false_iff_ne.mpr hm
      split
      · rw [List.lookup_cons, hb, List.lookup_cons, hb]
        exact ih
      · rw [List.lookup_cons, hb]
        exact ih

theorem lookup_map_value {β : Type} (g : String → α → β) (l : List (String × α)) (n : String) :
    (l.map fun f => (f.1, g f.1 f.2)).lookup n = (l.lookup n).map (g n) := by
  induction l with
  | nil => rfl
  | cons f l ih =>
    obtain ⟨m, x⟩ := f
    rw [List.map_cons]
    by_cases hm : n = m
    · rw [hm, List.lookup_cons_self, List.lookup_cons_self]
      rfl
    · have hb : (n == m) = false := beq_eq_false_iff_ne.mpr hm
      rw [List.lookup_cons, hb, List.lookup_cons, hb]
      exact ih

end Lookup

/-- A view has the snapshots that were found for some timestamps. -/
structure Knows (v : EntityView) (found : String → Option Attributes) (seen : List Timestamp) :
    Prop where
  distinct : (v.snapshots.map Prod.fst).Nodup
  values : ∀ k, (v.snapshots.lookup k).map Snapshot.values =
    if k ∈ seen.map Timestamp.key then (found k).map attributesOf else none

/-- A view of the same entity at the same timestamps. -/
structure Extends (w v : EntityView) : Prop where
  entity : w.entity = v.entity
  timestamps : w.timestamps = v.timestamps
  differencesOnly : w.differencesOnly = v.differencesOnly
  past : w.past = v.past

theorem Extends.refl (v : EntityView) : Extends v v := ⟨rfl, rfl, rfl, rfl⟩

theorem Extends.trans {u v w : EntityView} (h : Extends w v) (h' : Extends v u) : Extends w u :=
  ⟨h.entity.trans h'.entity, h.timestamps.trans h'.timestamps,
    h.differencesOnly.trans h'.differencesOnly, h.past.trans h'.past⟩

theorem extends_addSnapshot (v : EntityView) (t : Timestamp) (row : Option Attributes) :
    Extends (v.addSnapshot t row) v := by
  cases row <;> exact ⟨rfl, rfl, rfl, rfl⟩

theorem extends_addMatch (v : EntityView) (t : Timestamp) : Extends (v.addMatch t) v := by
  unfold addMatch
  split <;> exact ⟨rfl, rfl, rfl, rfl⟩

theorem snapshots_addMatch (v : EntityView) (t : Timestamp) :
    (v.addMatch t).snapshots = v.snapshots := by
  unfold addMatch
  split <;> rfl

theorem Knows.addMatch {v : EntityView} {found : String → Option Attributes}
    {seen : List Timestamp} (h : v.Knows found seen) (t : Timestamp) :
    (v.addMatch t).Knows found seen := by
  constructor <;> rw [snapshots_addMatch]
  · exact h.distinct
  · exact h.values

/-- One more timestamp is known; what was found for its key before is found again. -/
theorem Knows.addSnapshot {v : EntityView} {found : String → Option Attributes}
    {seen : List Timestamp} (h : v.Knows found seen) (hd : v.differencesOnly = false)
    (t : Timestamp) : (v.addSnapshot t (found t.key)).Knows found (seen ++ [t]) := by
  have hseen : ∀ k, k ∈ (seen ++ [t]).map Timestamp.key ↔
      k ∈ seen.map Timestamp.key ∨ k = t.key := by
    simp
  cases hfound : found t.key with
  | none =>
    refine ⟨h.distinct, fun k => ?_⟩
    rw [EntityView.addSnapshot, h.values, if_congr (hseen k) rfl rfl]
    by_cases hk : k = t.key
    · rw [hk, hfound]
      simp
    · simp only [hk, or_false]
  | some row =>
    have hsnapshots : (v.addSnapshot t (some row)).snapshots =
        v.snapshots.filter (fun p => p.1 != t.key) ++ [(t.key, ⟨t, attributesOf row⟩)] := by
      rw [EntityView.addSnapshot, hd]
      rfl
    have hfilter := lookup_filter_name (fun n => n != t.key) v.snapshots
    refine ⟨?_, fun k => ?_⟩
    · have hkeys : ∀ n ∈ (v.snapshots.filter fun p => p.1 != t.key).map Prod.fst, n ≠ t.key := by
        rw [List.forall_mem_map]
        exact fun p hp => bne_iff_ne.mp (List.mem_filter.mp hp).2
      rw [hsnapshots, List.map_append]
      exact List.Nodup.append (h.distinct.sublist (List.filter_sublist.map _))
        (List.nodup_singleton _) (List.disjoint_singleton.mpr fun hmem => hkeys _ hmem rfl)
    · rw [hsnapshots, List.lookup_append, hfilter, if_congr (hseen k) rfl rfl]
      by_cases hk : k = t.key
      · rw [hk, hfound]
        simp
      · have hne : (k != t.key) = true := bne_iff_ne.mpr hk
        rw [hne, if_pos rfl, List.lookup_cons, beq_eq_false_iff_ne.mpr hk]
        simp only [List.lookup_nil, Option.or_none, hk, or_false]
        exact h.values k

/-- Views that know nothing yet of any timestamp are done with one after the other. -/
theorem knows_foldl {found : String → Option Attributes}
    {step : EntityView → Timestamp → EntityView}
    (hstep : ∀ w t, step w t = w.addSnapshot t (found t.key) ∨
      step w t = (w.addSnapshot t (found t.key)).addMatch t) (ts : List Timestamp)
    {v : EntityView} {seen : List Timestamp} (h : v.Knows found seen)
    (hd : v.differencesOnly = false) :
    (ts.foldl step v).Knows found (seen ++ ts) ∧ Extends (ts.foldl step v) v := by
  induction ts generalizing v seen with
  | nil => exact ⟨by rwa [List.append_nil], .refl v⟩
  | cons t ts ih =>
    have hnext := h.addSnapshot hd t
    have hknows : (step v t).Knows found (seen ++ [t]) := by
      rcases hstep v t with e | e
      · rw [e]
        exact hnext
      · rw [e]
        exact hnext.addMatch t
    have hextends : Extends (step v t) v := by
      rcases hstep v t with e | e
      · exact e ▸ extends_addSnapshot v t _
      · exact e ▸ (extends_addMatch _ t).trans (extends_addSnapshot v t _)
    obtain ⟨hall, hrest⟩ := ih hknows (hextends.differencesOnly.trans hd)
    rw [List.append_assoc] at hall
    exact ⟨hall, hrest.trans hextends⟩

/-- The row found for an entity under a key. -/
def foundIn (findings : List (String × Finding)) (id : Value) (k : String) : Option Attributes :=
  rowOf ((findings.lookup k).getD default).rows id

/-- What a view shows instead of the entity: the row found for the last timestamp, if this one is
in the past. -/
def pastAt (found : String → Option Attributes) (ts : List Timestamp) : Option Attributes :=
  ts.getLast?.bind fun t => if t.isHistoric then (found t.key).map attributesOf else none

/-- The view of an entity with what was found at one more timestamp. -/
def addFinding (findings : List (String × Finding)) (id : Value) (w : EntityView) (t : Timestamp) :
    EntityView :=
  let w := w.addSnapshot t (foundIn findings id t.key)
  if ((findings.lookup t.key).getD default).matched.any fun i => (Value.scalar i).equals id then
    w.addMatch t else w

theorem addFindings_eq (differencesOnly : Bool) (ts : List Timestamp) (e : Entity)
    (findings : List (String × Finding)) : (started differencesOnly ts e).addFindings findings =
      ts.foldl (addFinding findings ((e.get? "id").getD .null)) { started differencesOnly ts e with
        past := pastAt (foundIn findings ((e.get? "id").getD .null)) ts } := by
  have hstamps : (started differencesOnly ts e).timestamps = ts := rfl
  unfold addFindings pastAt
  rw [hstamps]
  cases ts.getLast? with
  | none => rfl
  | some t =>
    rw [Option.bind_some]
    dsimp only
    split <;> rfl

/-- A view once the findings have been added. -/
theorem addFindings_started (ts : List Timestamp) (e : Entity)
    (findings : List (String × Finding)) :
    ((started false ts e).addFindings findings).Knows
      (foundIn findings ((e.get? "id").getD .null)) ts ∧
    Extends ((started false ts e).addFindings findings) { started false ts e with
      past := pastAt (foundIn findings ((e.get? "id").getD .null)) ts } := by
  have hnone : Knows { started false ts e with
      past := pastAt (foundIn findings ((e.get? "id").getD .null)) ts }
        (foundIn findings ((e.get? "id").getD .null)) [] := ⟨List.nodup_nil, fun _ => rfl⟩
  rw [addFindings_eq]
  refine knows_foldl (fun w t => ?_) ts hnone rfl
  unfold addFinding
  split
  · exact .inr rfl
  · exact .inl rfl

/-- What was found under the key of a timestamp is what was answered at its like. -/
theorem lookup_findings {f : Timestamp → Except Failure (List Attributes)} {us : List Timestamp}
    {rows : List (List Attributes)} {matched : List (List Scalar)} (h : us.mapM f = .ok rows)
    (hm : matched.length = us.length) {k : String} (hk : k ∈ us.map Timestamp.key) :
    ∃ u ∈ us, u.key = k ∧ ∃ rs m, f u = .ok rs ∧
      ((us.map Timestamp.key).zip (List.zipWith Finding.mk rows matched)).lookup k =
        some ⟨rs, m⟩ := by
  induction us generalizing rows matched with
  | nil => cases hk
  | cons u us ih =>
    obtain ⟨rs, rows, hu, hus, rfl⟩ := mapM_cons_eq_ok_iff.mp h
    obtain ⟨m, matched, rfl⟩ := List.exists_cons_of_length_eq_add_one hm
    by_cases hku : k = u.key
    · refine ⟨u, List.mem_cons_self, hku.symm, rs, m, hu, ?_⟩
      rw [hku]
      exact List.lookup_cons_self
    · have hk' : k ∈ us.map Timestamp.key := (List.mem_cons.mp hk).resolve_left hku
      obtain ⟨u', hu', e, rs', m', hrs', hlookup⟩ := ih hus (Nat.succ.inj hm) hk'
      refine ⟨u', List.mem_cons_of_mem _ hu', e, rs', m', hrs', ?_⟩
      rw [List.map_cons, List.zipWith_cons_cons, List.zip_cons_cons, List.lookup_cons,
        beq_eq_false_iff_ne.mpr hku]
      exact hlookup

/-! ## What is shown -/

/-- Other values come before those of the same names. -/
theorem lookup_overlay (values others : List (String × Value)) (n : String) :
    (overlay values others).lookup n = (others.lookup n).or (values.lookup n) := by
  unfold overlay
  rw [List.lookup_append, lookup_map_value fun m v => (others.lookup m).getD v,
    lookup_filter_name fun m => (values.lookup m).isNone]
  cases values.lookup n with
  | none => simp
  | some v => cases others.lookup n <;> simp

/-- A column is shown with the value that takes the place of the entity's, or with this one. -/
theorem valueOf_column {v : EntityView} {c : Column} (hc : c ∈ v.kind.table.columns) :
    v.valueOf c.name =
      .ok (((v.overrides.lookup c.name).or (v.entity.get? c.name)).getD .null) := by
  have hpublic : ∀ k ∈ Kind.all, ∀ c ∈ k.table.columns, c.name.startsWith "_" = false := by
    decide +kernel
  have hcolumn : (v.kind.table.column? c.name).isSome = true := by
    rw [Table.column?, List.find?_isSome]
    exact ⟨c, hc, beq_self_eq_true _⟩
  unfold valueOf
  rw [hpublic v.kind v.kind.mem_all c hc, if_neg Bool.false_ne_true, currentValues, lookup_overlay,
    ← Entity.get?]
  cases (v.overrides.lookup c.name).or (v.entity.get? c.name) with
  | some x => rfl
  | none =>
    dsimp only
    rw [if_pos hcolumn]
    rfl

/-- The snapshot holds the attributes that the entity of a live row had in an entry. -/
def HoldsEntry (live : Row) (entry : Entry) (s : Snapshot) : Prop :=
  (s.values.map fun f => (f.1, Value.scalar f.2)).Perm (Journal.attributesIn live entry)

/-- A view shows what the journal has at the timestamps: it has snapshots at those timestamps at
which the entity has an entry, and nothing more.  If there is one at the last timestamp, and this is
in the past, then the columns are shown with its values, and otherwise as the entity has them. -/
structure ShowsJournal (db : Database) (now : Moment) (ts : List Timestamp) (e : Entity)
    (v : EntityView) : Prop where
  entity : v.entity = e
  distinct : (v.snapshots.map Prod.fst).Nodup
  listed : ∀ p ∈ v.snapshots, ∃ t ∈ ts, t.key = p.1
  agrees : ∀ live ∈ db.tableRows e.kind.table, e.get? "id" = some (.int live.id) → ∀ t ∈ ts,
    ∀ clock, ∃ held?, (Journal.entryAt e.kind live.id (.timestamp t) (some now) clock).answer db =
      .ok held? ∧ Option.Rel (HoldsEntry live) held? (v.snapshots.lookup t.key)
  historic : ∀ t s, ts.getLast? = some t → t.isHistoric = true → v.snapshots.lookup t.key = some s →
    v.isHistoric = true ∧ ∀ c ∈ e.kind.table.columns, ∃ x, s.get? c.name = some x ∧
      v.valueOf c.name = .ok (.scalar x)
  current : (∀ t s, ts.getLast? = some t → t.isHistoric = true →
      v.snapshots.lookup t.key ≠ some s) →
    v.isHistoric = false ∧ ∀ c ∈ e.kind.table.columns,
      v.valueOf c.name = .ok ((e.get? c.name).getD .null)

/-- What is shown instead of the entity is the snapshot at the last timestamp, if this is in the
past. -/
theorem Knows.past_eq {v : EntityView} {found : String → Option Attributes} {ts : List Timestamp}
    (h : v.Knows found ts) (hp : v.past = pastAt found ts) :
    v.past = ts.getLast?.bind fun t =>
      if t.isHistoric then (v.snapshots.lookup t.key).map Snapshot.values else none := by
  rw [hp, pastAt]
  cases hlast : ts.getLast? with
  | none => rfl
  | some t =>
    rw [Option.bind_some, Option.bind_some, h.values,
      if_pos (List.mem_map_of_mem (List.mem_of_getLast? hlast))]

/-- A row holds the attributes that the entity of a live row had in an entry. -/
structure RowHolds (kind : Kind) (live : Row) (entry : Entry) (values : Attributes) : Prop where
  shown : values.Perm (Journal.shown kind (Journal.stateRow kind live entry))
  attributes : (values.map fun f => (f.1, Value.scalar f.2)).Perm (Journal.attributesIn live entry)

/-- All columns are among the attributes. -/
theorem RowHolds.exists_lookup {kind : Kind} {live : Row} {entry : Entry} {values : Attributes}
    (h : RowHolds kind live entry values) {c : Column} (hc : c ∈ kind.table.columns) :
    ∃ x, values.lookup c.name = some x := by
  have hnames : (values.map Prod.fst).Nodup := by
    rw [(h.shown.map _).nodup_iff, Journal.shown, List.map_map]
    exact Schema.columnNames_nodup kind.table_mem
  exact ⟨_, (lookup_eq_some_iff_mem hnames).mpr (h.shown.mem_iff.mpr (List.mem_map_of_mem hc))⟩

/-- A view that knows what the journal has shows it. -/
theorem Knows.showsJournal {v : EntityView} {db : Database} {now : Moment}
    {found : String → Option Attributes} {ts : List Timestamp} {e : Entity}
    (h : v.Knows found ts) (hp : v.past = pastAt found ts) (he : v.entity = e) {live : Row}
    (hunique : ∀ r ∈ db.tableRows e.kind.table, e.get? "id" = some (.int r.id) → r = live)
    (hfound : ∀ t ∈ ts, ∀ clock, ∃ held?,
      (Journal.entryAt e.kind live.id (.timestamp t) (some now) clock).answer db = .ok held? ∧
        Option.Rel (RowHolds e.kind live) held? ((found t.key).map attributesOf)) :
    ShowsJournal db now ts e v := by
  have hlookup : ∀ t ∈ ts, (v.snapshots.lookup t.key).map Snapshot.values =
      (found t.key).map attributesOf := fun t ht => by
    rw [h.values, if_pos (List.mem_map_of_mem ht)]
  have hpast := h.past_eq hp
  have hcolumn : ∀ c ∈ e.kind.table.columns, v.valueOf c.name =
      .ok (((v.overrides.lookup c.name).or (e.get? c.name)).getD .null) := by
    subst he
    exact fun c hc => valueOf_column hc
  refine ⟨he, h.distinct, ?_, ?_, ?_, ?_⟩
  · intro p hp
    by_contra hnone
    have hvalues := h.values p.1
    rw [if_neg fun hmem => hnone (List.mem_map.mp hmem), Option.map_eq_none_iff,
      List.lookup_eq_none_iff] at hvalues
    exact absurd (hvalues p hp) (by simp)
  · intro r hr hid t ht clock
    obtain rfl := hunique r hr hid
    obtain ⟨held?, hentry, hrel⟩ := hfound t ht clock
    refine ⟨held?, hentry, ?_⟩
    rw [← hlookup t ht] at hrel
    cases hs : v.snapshots.lookup t.key with
    | none =>
      rw [hs] at hrel
      cases hrel
      exact .none
    | some s =>
      rw [hs] at hrel
      cases hrel with
      | some hholds => exact .some hholds.attributes
  · -- the snapshot at the last timestamp stands in front of what the entity has
    intro t s hlast hhistoric hs
    have ht := List.mem_of_getLast? hlast
    rw [hlast, Option.bind_some, if_pos hhistoric, hs] at hpast
    obtain ⟨held?, -, hrel⟩ := hfound t ht default
    rw [← hlookup t ht, hs] at hrel
    cases hrel with
    | some hholds =>
      refine ⟨by rw [isHistoric, hpast]; rfl, fun c hc => ?_⟩
      obtain ⟨x, hx⟩ := hholds.exists_lookup hc
      refine ⟨x, hx, ?_⟩
      rw [hcolumn c hc, overrides, hpast, Option.map_some, Option.getD_some,
        lookup_map_value fun _ => Value.scalar, hx]
      rfl
  · intro hnone
    have hpast' : v.past = none := by
      rw [hpast, Option.bind_eq_none_iff]
      intro t ht
      split
      · next hhistoric =>
        rw [Option.map_eq_none_iff, Option.eq_none_iff_forall_ne_some]
        exact fun s => hnone t s ht hhistoric
      · rfl
    refine ⟨by rw [isHistoric, hpast']; rfl, fun c hc => ?_⟩
    rw [hcolumn c hc, overrides, hpast']
    rfl

/-- The point in time of a timestamp is one that there is. -/
theorem resolveAt_lt {t : Timestamp} (ht : t.IsProper) {moment : Option Moment} {clock i : Instant}
    (h : t.resolveAt moment clock = .ok i) : i.micros < Instant.bound := by
  cases t with
  | absolute j =>
    cases h
    exact ht
  | relative d =>
    have hresolve : ∀ present, (Timestamp.relative d).resolve present = .ok i →
        i.micros < Instant.bound := by
      intro present hi
      obtain ⟨m, -, hm⟩ := bind_eq_ok_iff.mp hi
      exact Moment.toInstant_lt hm
    cases moment with
    | none => exact hresolve clock h
    | some m =>
      obtain ⟨present, -, hi⟩ := bind_eq_ok_iff.mp h
      exact hresolve present hi

section Entities

variable {db : Database} (hdb : db.Reached) {kind : Kind} {es : List Entity}
  (hes : ∀ e ∈ es, e.kind = kind ∧ ∃ r ∈ db.tableRows kind.table, e.get? "id" = some (.int r.id))

include hes

/-- The numbers of entities that there are. -/
theorem exists_numbersOf : ∃ ids : List Int, numbersOf es = ids.map .int ∧
    ∀ n, n ∈ ids ↔ ∃ e ∈ es, e.get? "id" = some (.int n) := by
  induction es with
  | nil => exact ⟨[], rfl, by simp⟩
  | cons e es ih =>
    obtain ⟨ids, hids, hmem⟩ := ih fun e' he' => hes e' (List.mem_cons_of_mem _ he')
    obtain ⟨-, r, -, hid⟩ := hes e List.mem_cons_self
    refine ⟨r.id :: ids, ?_, fun n => ?_⟩
    · rw [numbersOf, List.map_cons, hid, List.map_cons, ← hids]
      rfl
    · rw [List.mem_cons, hmem, List.exists_mem_cons_iff, hid, Option.some.injEq, Value.int,
        Value.int, Value.scalar.injEq, Scalar.int.injEq, eq_comm]

include hdb

omit hes in
/-- Under the key of a timestamp a row is found for an entity if it has an entry then, and it has the
attributes of this entry. -/
theorem foundIn_findings {ids : List Int} (hids : numbersOf es = ids.map .int) {ts : List Timestamp}
    (hproper : ∀ t ∈ ts, t.IsProper) {moment : Option Moment} {clock : Instant}
    {rows : List (List Attributes)} {matched : List (List Scalar)}
    (hrows : ((distinct ts).mapM fun u =>
      (rowsAt kind (numbersOf es) moment clock u).answer db.opened) = .ok rows)
    (hm : matched.length = (distinct ts).length) {live : Row}
    (hl : live ∈ db.tableRows kind.table) (hnumber : live.id ∈ ids) {t : Timestamp} (ht : t ∈ ts)
    {i : Instant} (hi : t.resolveAt moment clock = .ok i) :
    Cell.isStorable live.id = true ∧
    (∀ entry, Journal.entryAtIn db kind live.id i = some entry → ∃ r,
      foundIn (((distinct ts).map Timestamp.key).zip (List.zipWith Finding.mk rows matched))
        (.int live.id) t.key = some r ∧
      (attributesOf r).Perm (Journal.shown kind (Journal.stateRow kind live entry))) ∧
    (Journal.entryAtIn db kind live.id i = none →
      foundIn (((distinct ts).map Timestamp.key).zip (List.zipWith Finding.mk rows matched))
        (.int live.id) t.key = none) := by
  have hregular := hdb.regular.change (.opened db)
  obtain ⟨u, hu, hsame⟩ := exists_same_mem_distinct ht
  have hkey : t.key ∈ (distinct ts).map Timestamp.key :=
    List.mem_map.mpr ⟨u, hu, beq_iff_eq.mp hsame⟩
  obtain ⟨u, hu, hkey, rs, m, hrs, hlookup⟩ := lookup_findings hrows hm hkey
  have huts := mem_of_mem_distinct hu
  have hui : u.resolveAt moment clock = .ok i := by
    rw [Timestamp.resolveAt_of_key (hproper u huts) (hproper t ht) hkey, hi]
  have hbound := resolveAt_lt (hproper u huts) hui
  rw [hids] at hrs
  rw [foundIn, hlookup, Option.getD_some]
  exact ⟨(exists_rowsAt_iff hui hbound hregular).mp ⟨rs, hrs⟩ _ hnumber,
    rowOf_rowsAt hui hbound hregular hrs hl hnumber⟩

omit hes in
/-- The rows that are found for an entity hold its entries. -/
theorem rowHolds_of_findings {ids : List Int} (hids : numbersOf es = ids.map .int)
    (hmem : ∀ n, n ∈ ids ↔ ∃ e ∈ es, e.get? "id" = some (.int n)) {ts : List Timestamp}
    (hproper : ∀ t ∈ ts, t.IsProper) {now : Moment} {clock : Instant}
    (hres : ∀ t ∈ ts, ∃ i, t.resolveAt (some now) clock = .ok i) {rows : List (List Attributes)}
    {matched : List (List Scalar)} (hrows : ((distinct ts).mapM fun u =>
      (rowsAt kind (numbersOf es) (some now) clock u).answer db.opened) = .ok rows)
    (hm : matched.length = (distinct ts).length) {e : Entity} (he : e ∈ es) {live : Row}
    (hl : live ∈ db.tableRows kind.table) (hid : e.get? "id" = some (.int live.id))
    {t : Timestamp} (ht : t ∈ ts) (clock' : Instant) : ∃ held?,
      (Journal.entryAt kind live.id (.timestamp t) (some now) clock').answer db = .ok held? ∧
      Option.Rel (RowHolds kind live) held? ((foundIn (((distinct ts).map Timestamp.key).zip
        (List.zipWith Finding.mk rows matched)) (.int live.id) t.key).map attributesOf) := by
  obtain ⟨i, hi⟩ := hres t ht
  obtain ⟨hstorable, hsome, hnone⟩ := foundIn_findings hdb hids hproper hrows hm hl
    ((hmem _).mpr ⟨e, he, hid⟩) ht hi
  refine ⟨Journal.entryAtIn db kind live.id i, ?_, ?_⟩
  · rw [Journal.answer_entryAt]
    refine bind_eq_ok_iff.mpr ⟨i, ?_, ?_⟩
    · exact (Timestamp.resolveAt_some t now clock' clock).trans hi
    · rw [Journal.ifStorable, if_pos hstorable]
  · cases hentry : Journal.entryAtIn db kind live.id i with
    | none =>
      rw [hnone hentry]
      exact .none
    | some entry =>
      obtain ⟨r, hr, hperm⟩ := hsome entry hentry
      rw [hr]
      exact .some ⟨hperm, (hperm.map _).trans
        ((hdb.regular.change (.opened db)).shown_perm hl hentry)⟩

/-- Views of entities of one kind agree with the journal, whatever their timestamps are and whether
or not a filter is asked; and where the store has room for the numbers, there are views. -/
theorem ofSubjects_shows_journal {timestamps : List Value}
    (hproper : ∀ t, Value.timestamp t ∈ timestamps → t.IsProper) {ts : List Timestamp}
    (hts : timestamps.mapM Value.toTimestamp = .ok ts) {now : Moment} {clock : Instant}
    (hres : ∀ t ∈ ts, ∃ i, t.resolveAt (some now) clock = .ok i) :
    (∀ filter views n, (ofSubjects (es.map .entity) timestamps filter false (some now)
      clock).answer db = .ok (views, n) → List.Forall₂ (ShowsJournal db now ts) es views) ∧
    ((∀ e ∈ es, ∀ i, e.get? "id" = some (.int i) → Cell.isStorable i = true) →
      ∃ views n, (ofSubjects (es.map .entity) timestamps none false (some now) clock).answer db =
        .ok (views, n)) := by
  have hkinds : ∀ {e e'}, e ∈ es → e' ∈ es → e'.kind = e.kind :=
    fun he he' => ((hes _ he').1).trans (hes _ he).1.symm
  have hunique : ∀ e ∈ es, ∀ live ∈ db.tableRows kind.table, e.get? "id" = some (.int live.id) →
      ∀ r ∈ db.tableRows e.kind.table, e.get? "id" = some (.int r.id) → r = live := by
    intro e he live hl hid r hr hid'
    rw [(hes e he).1] at hr
    refine hdb.regular.sound.eq_of_id kind.table_mem hr hl ?_
    exact Scalar.int.inj (Value.scalar.inj (Option.some.inj (hid'.symm.trans hid)))
  have hts' : ∀ t ∈ ts, t.IsProper := by
    intro t ht
    obtain ⟨v, hv, hvt⟩ := exists_of_mem_mapM hts ht
    exact Value.isProper_toTimestamp hvt fun u hu => hproper u (hu ▸ hv)
  obtain ⟨ids, hids, hmem⟩ := exists_numbersOf hes
  cases es with
  | nil =>
    refine ⟨fun filter views n h => ?_, fun _ => ⟨[], 0, rfl⟩⟩
    cases h
    exact .nil
  | cons e es =>
    have hkind : ∀ e' ∈ es, e'.kind = e.kind :=
      fun e' he' => hkinds List.mem_cons_self (List.mem_cons_of_mem _ he')
    cases ts with
    | nil =>
      refine ⟨fun filter views n h => ?_, fun _ => ⟨(e :: es).map (started false []), 0, ?_⟩⟩
      · rw [ofSubjects_of_nil hkind (mapM_start_of_answer hts h)] at h
        cases h
        rw [List.forall₂_map_right_iff, List.forall₂_same]
        intro e' he'
        obtain ⟨-, live, hl, hid⟩ := hes e' he'
        have hnone : (started false [] e').Knows (fun _ => none) [] := ⟨List.nodup_nil, fun _ => rfl⟩
        exact hnone.showsJournal rfl rfl (hunique e' he' live hl hid) fun t ht => nomatch ht
      · rw [ofSubjects_of_nil hkind (mapM_start hts _)]
        rfl
    | cons t ts =>
      refine ⟨fun filter views n h => ?_, fun hstorable => ?_⟩
      · obtain ⟨rows, matched, hrows, hmatched, rfl⟩ := answer_ofSubjects hts hkind h
        rw [filled, List.forall₂_map_right_iff, List.forall₂_map_right_iff, List.forall₂_same]
        intro e' he'
        obtain ⟨hk, live, hl, hid⟩ := hes e' he'
        obtain ⟨hknows, hextends⟩ := addFindings_started (t :: ts) e'
          (((distinct (t :: ts)).map Timestamp.key).zip (List.zipWith Finding.mk rows matched))
        refine hknows.showsJournal hextends.past hextends.entity (hunique e' he' live hl hid) ?_
        intro u hu clock'
        rw [(hes e List.mem_cons_self).1] at hrows
        rw [hid, Option.getD_some, hk]
        exact rowHolds_of_findings hdb hids hmem hts' hres hrows
          (length_matchedAll rfl hmatched) he' hl hid hu clock'
      · refine exists_answer_ofSubjects hts hkind fun u hu => ?_
        obtain ⟨i, hi⟩ := hres u hu
        rw [hids]
        refine (exists_rowsAt_iff hi (resolveAt_lt (hts' u hu) hi)
          (hdb.regular.change (.opened db))).mpr fun n hn => ?_
        obtain ⟨e', he', hid⟩ := (hmem n).mp hn
        exact hstorable e' he' n hid

end Entities

/-- A work package in hand, with another subject than the one that is stored. -/
def inHand : Entity := ⟨.workPackage, [("id", .int 1), ("subject", .text "Plan")]⟩

theorem ofSubjects_shows_journal_inHand : ∃ views n,
    (ofSubjects ([inHand].map .entity) [.timestamp (.absolute noonInUtc)] none false
      (some (Journal.noon 0)) Journal.firstDay.instant).answer staffed = .ok (views, n) ∧
    List.Forall₂ (ShowsJournal staffed (Journal.noon 0) [.absolute noonInUtc]) [inHand] views := by
  have hrow : ∃ r ∈ staffed.tableRows Kind.workPackage.table,
      inHand.get? "id" = some (.int r.id) := by
    obtain ⟨r, hr, hid⟩ := List.mem_map.mp (ids_staffed ▸ List.mem_singleton_self 1)
    exact ⟨r, hr, hid ▸ rfl⟩
  have hreached : staffed.Reached := ⟨_, rfl⟩
  have hes : ∀ e ∈ [inHand], e.kind = Kind.workPackage ∧
      ∃ r ∈ staffed.tableRows Kind.workPackage.table, e.get? "id" = some (.int r.id) :=
    List.forall_mem_singleton.mpr ⟨rfl, hrow⟩
  have hproper : ∀ t, Value.timestamp t ∈ [Value.timestamp (.absolute noonInUtc)] →
      t.IsProper := by
    intro t ht
    cases List.mem_singleton.mp ht
    exact (by decide : noonInUtc.micros < Instant.bound)
  have hresolved : ∀ t ∈ [Timestamp.absolute noonInUtc], ∃ i,
      t.resolveAt (some (Journal.noon 0)) Journal.firstDay.instant = .ok i :=
    List.forall_mem_singleton.mpr ⟨noonInUtc, rfl⟩
  obtain ⟨hagree, hexists⟩ := ofSubjects_shows_journal hreached hes hproper rfl hresolved
  obtain ⟨views, n, h⟩ := hexists (List.forall_mem_singleton.mpr fun i hi => by
    cases hi
    decide)
  exact ⟨views, n, h, hagree none views n h⟩

end EntityView

end Chronicle
