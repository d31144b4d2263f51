import Chronicle.History.EntityView
import Chronicle.Proofs.Statement.OpenTexts
import Chronicle.Proofs.Timestamp.Key

/-!
# What timestamps mean

The key of a timestamp tells what it means, and nothing else: an instant, or the components of a
duration.  Timestamps with the same key are therefore read alike everywhere.

* `Duration.key_inj`: durations of whole numbers have the same key when they agree in every
  component;
* `Query.asOfTimestamp_of_key`: a query is the same as of timestamps with the same key;
* `Timestamp.same_iff_equivalent`: timestamps are the same when they mean the same, and taking them
  by their keys brings none together that differ.
-/

namespace Chronicle

open Chronicle.Calendar Chronicle.Decimal Chronicle.Text

/-! ## Seconds -/

namespace Seconds

theorem isZero_iff {s : Seconds} : s.isZero = true ↔ s.toInt? = some 0 := by
  refine ⟨toInt?_of_isZero, fun h => ?_⟩
  match s with
  | whole n =>
    cases h
    rfl
  | decimal (.infinite negative) => cases h
  | decimal .nan => cases h
  | decimal (.finite negative units) =>
    simp only [toInt?, Binary64.toInt?] at h
    split at h
    · next hwhole =>
      have hquotient : units / Binary64.one = 0 := by
        have hsigned := Option.some.inj h
        split at hsigned <;> omega
      have hunits : units = 0 := by
        rw [← Nat.div_add_mod units Binary64.one, hquotient, hwhole, Nat.mul_zero]
      exact beq_iff_eq.mpr hunits
    · cases h

/-- Whole seconds that are as many are the same number. -/
theorem toInt?_inj {s t : Seconds} {m n : Int} (hm : s.toInt? = some m) (hn : t.toInt? = some n)
    (h : s.microUnits = t.microUnits) : m = n := by
  rw [microUnits_of_toInt? hm, microUnits_of_toInt? hn] at h
  have hone : (Binary64.one : Int) ≠ 0 := Int.natCast_ne_zero.mpr (twoTo_pos 1074).ne'
  have hmicros : (microsPerSecond : Int) ≠ 0 := by decide
  exact mul_right_cancel₀ hmicros (mul_right_cancel₀ hone h)

end Seconds

/-! ## Durations -/

namespace Duration

/-- Every component is a whole number; that of the seconds may be kept as a double. -/
def IsWhole (d : Duration) : Prop := d.seconds.IsProper ∧ ∃ n, d.seconds.toInt? = some n

/-- The same number of years, of months and so on, down to the whole seconds. -/
structure Agrees (d e : Duration) : Prop where
  years : d.years = e.years
  months : d.months = e.months
  weeks : d.weeks = e.weeks
  days : d.days = e.days
  hours : d.hours = e.hours
  minutes : d.minutes = e.minutes
  seconds : ∃ n, d.seconds.toInt? = some n ∧ e.seconds.toInt? = some n

variable {d e : Duration}

theorem Agrees.isZero (h : d.Agrees e) : d.isZero = e.isZero := by
  obtain ⟨n, hd, he⟩ := h.seconds
  rw [Bool.eq_iff_iff, isZero_iff, isZero_iff, Seconds.isZero_iff, Seconds.isZero_iff, hd, he,
    h.years, h.months, h.weeks, h.days, h.hours, h.minutes]

theorem Agrees.text (h : d.Agrees e) : d.text = e.text := by
  obtain ⟨n, hd, he⟩ := h.seconds
  have hzero : d.seconds.isZero = e.seconds.isZero := by
    rw [Bool.eq_iff_iff, Seconds.isZero_iff, Seconds.isZero_iff, hd, he]
  simp only [Duration.text, Seconds.text_of_toInt? hd, Seconds.text_of_toInt? he, hzero, h.years,
    h.months, h.weeks, h.days, h.hours, h.minutes]

/-- Durations of whole numbers have the same key when they agree in every component. -/
theorem key_inj (hd : d.IsWhole) (he : e.IsWhole) :
    (Timestamp.relative d).key = (Timestamp.relative e).key ↔ d.Agrees e := by
  constructor
  · intro h
    obtain ⟨heq, hmicros⟩ := eq_of_key hd.1 he.1 h
    obtain ⟨m, hm⟩ := hd.2
    obtain ⟨n, hn⟩ := he.2
    obtain rfl : m = n := Seconds.toInt?_inj hm hn hmicros
    cases e
    cases heq
    exact ⟨rfl, rfl, rfl, rfl, rfl, rfl, m, hm, hn⟩
  · intro h
    rw [Timestamp.key, Timestamp.key, h.isZero, h.text]

end Duration

/-! ## Queries as of a timestamp -/

namespace Substitution

variable (k : Kind) (t u : Timestamp) (i j : Instant)

theorem predicates_eq_mapM (s : Substitution) (depth : Int) (ps : List Predicate) :
    s.predicates depth ps = ps.mapM (s.predicate depth) := by
  induction ps with
  | nil =>
    rw [predicates]
    rfl
  | cons p ps ih => rw [predicates, List.mapM_cons, ih]

/-- The columns of a condition are found by the kind alone. -/
theorem predicate_of_kind (depth : Int) (p : Predicate) :
    predicate ⟨k, t, i⟩ depth p = predicate ⟨k, u, j⟩ depth p := by
  induction p using Predicate.groupingInduction generalizing depth with
  | single p hp => cases p with
    | raw r => cases hp
    | grouping ps op => cases hp
    | _ => rfl
  | raw r => rfl
  | grouping ps op ih =>
    rw [predicate, predicate, predicates_eq_mapM, predicates_eq_mapM,
      mapM_congr fun p hp => ih p hp (depth + 1)]

theorem predicates_of_kind (depth : Int) (ps : List Predicate) :
    predicates ⟨k, t, i⟩ depth ps = predicates ⟨k, u, j⟩ depth ps := by
  rw [predicates_eq_mapM, predicates_eq_mapM,
    mapM_congr fun p _ => predicate_of_kind k t u i j depth p]

theorem join_of_kind : join ⟨k, t, i⟩ = join ⟨k, u, j⟩ := by
  funext n
  cases n with
  | table name given on outer => rw [join, join, predicates_of_kind k t u i j]
  | _ => rfl

/-- Of the timestamp a query keeps the key, besides its instant. -/
theorem query_of_key (h : t.key = u.key) (q : Query) :
    query ⟨k, t, i⟩ q = query ⟨k, u, i⟩ q := by
  have hprojections : ∀ ps, projections ⟨k, t, i⟩ ps = projections ⟨k, u, i⟩ ps := by
    intro ps
    match ps with
    | [] =>
      simp only [projections, h]
      rfl
    | p :: ps => cases p <;> cases ps <;> rfl
  simp only [query, predicates_of_kind k t u i i, join_of_kind k t u i i, hprojections, h]
  rfl

end Substitution

variable {a b : Timestamp}

/-- A query is the same as of timestamps with the same key. -/
theorem Query.asOfTimestamp_of_key (ha : a.IsProper) (hb : b.IsProper) (h : a.key = b.key)
    (q : Query) (moment : Option Moment) (clock : Instant) :
    q.asOfTimestamp (.timestamp a) moment clock = q.asOfTimestamp (.timestamp b) moment clock := by
  have hbuild : ∀ kind, ((Substitution.build kind a moment clock).bind fun s => s.query q) =
      (Substitution.build kind b moment clock).bind fun s => s.query q := by
    intro kind
    rw [Substitution.build, Substitution.build, Timestamp.resolveAt_of_key ha hb h]
    cases b.resolveAt moment clock with
    | error f => rfl
    | ok i => exact Substitution.query_of_key kind a b i h q
  unfold asOfTimestamp
  cases q.asOf with
  | some key => rfl
  | none => cases Kind.ofTable? q.table with
    | none => rfl
    | some kind => exact hbuild kind

/-! ## Equality -/

namespace Timestamp

/-- The timestamps that are built of moments and of durations of whole numbers. -/
inductive IsMade : Timestamp → Prop
  | moment {m : Moment} {t : Timestamp} (h : ofMoment m = .ok t) : IsMade t
  | duration {d : Duration} {t : Timestamp} (hd : d.IsWhole) (h : ofDuration d = .ok t) : IsMade t

/-- The same instant, or durations that agree in every component. -/
inductive Equivalent : Timestamp → Timestamp → Prop
  | absolute (i : Instant) : Equivalent (.absolute i) (.absolute i)
  | relative {d e : Duration} (h : d.Agrees e) : Equivalent (.relative d) (.relative e)

/-- The hash of a timestamp is that of its key, however texts are hashed. -/
def hashBy (hash : String → Int) (t : Timestamp) : Int := hash t.key

/-- Nothing tells the one from the other: not their keys and hashes, not what they say of themselves,
not what they resolve to, and not the queries that are made with them. -/
structure Alike (a b : Timestamp) : Prop where
  key : a.key = b.key
  hashBy : ∀ hash, a.hashBy hash = b.hashBy hash
  isNow : a.isNow = b.isNow
  isHistoric : a.isHistoric = b.isHistoric
  resolveAt : ∀ moment clock, a.resolveAt moment clock = b.resolveAt moment clock
  asOfTimestamp : ∀ (q : Query) moment clock, q.asOfTimestamp (.timestamp a) moment clock =
    q.asOfTimestamp (.timestamp b) moment clock

theorem IsMade.cases_relative {d : Duration} (h : IsMade (.relative d)) : d.IsWhole := by
  cases h with
  | moment h =>
    obtain ⟨i, -, hi⟩ := map_eq_ok_iff.mp h
    cases hi
  | duration hd h =>
    unfold ofDuration at h
    split at h
    · cases h
    · cases h
      exact hd

theorem IsMade.isProper (h : a.IsMade) : a.IsProper := by
  cases h with
  | moment h => exact isProper_ofMoment h
  | duration hd h => exact isProper_ofDuration h hd.1.2

/-- Timestamps that are made have the same key when they mean the same. -/
theorem key_eq_iff (ha : a.IsMade) (hb : b.IsMade) : a.key = b.key ↔ a.Equivalent b := by
  match a, b with
  | .absolute i, .absolute j =>
    constructor
    · intro h
      rw [Instant.key_inj ha.isProper hb.isProper h]
      exact .absolute j
    · rintro ⟨⟩
      rfl
  | .absolute i, .relative e =>
    exact ⟨fun h => absurd h (key_ne_key i hb.isProper), fun h => nomatch h⟩
  | .relative d, .absolute j =>
    exact ⟨fun h => absurd h.symm (key_ne_key j ha.isProper), fun h => nomatch h⟩
  | .relative d, .relative e =>
    rw [Duration.key_inj ha.cases_relative hb.cases_relative]
    exact ⟨.relative, fun | .relative h => h⟩

theorem isNow_of_equivalent (h : a.Equivalent b) : a.isNow = b.isNow := by
  cases h with
  | absolute i => rfl
  | relative h => exact h.isZero

theorem alike_of_equivalent (ha : a.IsMade) (hb : b.IsMade) (h : a.Equivalent b) : a.Alike b := by
  have hkey := (key_eq_iff ha hb).mpr h
  have hnow := isNow_of_equivalent h
  exact ⟨hkey, fun hash => congrArg hash hkey, hnow, congrArg (!·) hnow,
    resolveAt_of_key ha.isProper hb.isProper hkey,
    Query.asOfTimestamp_of_key ha.isProper hb.isProper hkey⟩

theorem pairwise_key_distinct (ts : List Timestamp) :
    (EntityView.distinct ts).Pairwise fun t u => t.key ≠ u.key := by
  induction ts with
  | nil => exact List.Pairwise.nil
  | cons t ts ih =>
    refine List.pairwise_cons.mpr ⟨fun u hu => ?_, ih.filter _⟩
    have hdiffers := (List.mem_filter.mp hu).2
    simp only [same, Bool.not_eq_true', beq_eq_false_iff_ne] at hdiffers
    exact hdiffers

/-- Timestamps are the same exactly when they mean the same, and are then alike in all that they are
used for.  When timestamps are taken by their keys, each one is kept by one that means the same, and
no two that are kept do. -/
theorem same_iff_equivalent (ha : a.IsMade) (hb : b.IsMade) :
    (a.same b = true ↔ a.Equivalent b) ∧ (a.same b = true → a.Alike b) ∧
      ∀ ts : List Timestamp, (∀ t ∈ ts, t.IsMade) →
        (EntityView.distinct ts).Pairwise (fun t u => ¬ t.Equivalent u) ∧
        ∀ t ∈ ts, ∃ u ∈ EntityView.distinct ts, u.key = t.key ∧
          ∀ w ∈ ts, w.key = u.key → w.Equivalent t ∧ w.Alike t := by
  have hsame : a.same b = true ↔ a.Equivalent b := beq_iff_eq.trans (key_eq_iff ha hb)
  refine ⟨hsame, fun h => alike_of_equivalent ha hb (hsame.mp h), fun ts hts => ⟨?_, ?_⟩⟩
  · refine (pairwise_key_distinct ts).imp_of_mem fun {t u} ht hu hkey hmeans => hkey ?_
    exact (key_eq_iff (hts t (EntityView.mem_of_mem_distinct ht))
      (hts u (EntityView.mem_of_mem_distinct hu))).mpr hmeans
  · intro t ht
    obtain ⟨u, hu, hut⟩ := EntityView.exists_same_mem_distinct ht
    have hkey : u.key = t.key := beq_iff_eq.mp hut
    refine ⟨u, hu, hkey, fun w hw hwu => ?_⟩
    have hmeans := (key_eq_iff (hts w hw) (hts t ht)).mp (hwu.trans hkey)
    exact ⟨hmeans, alike_of_equivalent (hts w hw) (hts t ht) hmeans⟩

/-- A day before the present, with no seconds that are kept in one way or the other. -/
def dayBefore (seconds : Seconds) : Timestamp := .relative ⟨0, 0, 0, -1, 0, 0, seconds⟩

theorem isMade_dayBefore {s : Seconds} (hs : s.IsProper) (h : s.toInt? = some 0) :
    (dayBefore s).IsMade :=
  .duration (d := ⟨0, 0, 0, -1, 0, 0, s⟩) ⟨hs, 0, h⟩ (by rw [ofDuration, hs.1]; rfl)

theorem same_dayBefore :
    (dayBefore (.whole 0)).IsMade ∧ (dayBefore (.decimal .zero)).IsMade ∧
      (dayBefore (.whole 0)).same (dayBefore (.decimal .zero)) = true ∧
      (dayBefore (.whole 0)).Equivalent (dayBefore (.decimal .zero)) ∧
      (dayBefore (.whole 0)).Alike (dayBefore (.decimal .zero)) := by
  have hwhole : (dayBefore (.whole 0)).IsMade := isMade_dayBefore (Seconds.isProper_whole 0) rfl
  have hdouble : (dayBefore (.decimal .zero)).IsMade :=
    isMade_dayBefore ⟨rfl, fun x hx => by cases hx; exact Binary64.isProper_zero false⟩
      (Seconds.isZero_iff.mp rfl)
  have hsame : (dayBefore (.whole 0)).same (dayBefore (.decimal .zero)) = true := by
    decide +kernel
  obtain ⟨hiff, halike, -⟩ := same_iff_equivalent hwhole hdouble
  exact ⟨hwhole, hdouble, hsame, hiff.mp hsame, halike hsame⟩

end Timestamp

end Chronicle
