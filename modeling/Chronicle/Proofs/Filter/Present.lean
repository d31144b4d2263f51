import Chronicle.History.EntityView
import Chronicle.Proofs.Calendar.Written
import Chronicle.Proofs.Filter.Predicates

/-!
# A given present and the clock

Where the present is given, timestamps are seen from it and not from the clock.  The times that the
conditions of a filter are about are seen from the clock all the same.

* `Query.asOfTimestamp_some`, `Journal.entryAt_some`: the clock is not asked;
* `Filter.KeepsTimes`: what the conditions of a filter are about is the same at two presents;
* `Condition.comparedValues_of_predicate`: a predicate says what times it is about;
* `Filter.keepsTimes_of_absolute`: filters without relative times;
* `EntityView.given_present`: what the clock has to do with filters, entries and views.
-/

namespace Chronicle

open Chronicle.Calendar Chronicle.Record

/-! ## Without filters -/

section Given

variable (now : Moment) (c₁ c₂ : Instant)

theorem Query.asOfTimestamp_some (q : Query) (timestamp : Value) :
    q.asOfTimestamp timestamp (some now) c₁ = q.asOfTimestamp timestamp (some now) c₂ := by
  have hbuild : ∀ kind t, Substitution.build kind t (some now) c₁ =
      Substitution.build kind t (some now) c₂ := fun kind t => by
    rw [Substitution.build, Substitution.build, t.resolveAt_some now c₁ c₂]
  unfold asOfTimestamp
  simp only [hbuild]

theorem Journal.entryAt_some (kind : Kind) (id : Int) (timestamp : Value) :
    entryAt kind id timestamp (some now) c₁ = entryAt kind id timestamp (some now) c₂ := by
  have hresolve : ∀ t : Timestamp, t.resolveAt (some now) c₁ = t.resolveAt (some now) c₂ :=
    fun t => t.resolveAt_some now c₁ c₂
  unfold entryAt
  simp only [hresolve]

theorem EntityView.rowsAt_some (kind : Kind) (ids : List Value) :
    rowsAt kind ids (some now) c₁ = rowsAt kind ids (some now) c₂ := by
  funext t
  unfold rowsAt
  simp only [Query.asOfTimestamp_some now c₁ c₂]

end Given

/-! ## Filters that are about the same times -/

namespace Condition

variable {c₁ c₂ : Instant} {c : Condition}

theorem predicate_congr (h : c.comparedValues c₁ = c.comparedValues c₂) (table : String)
    (n : Nat) : c.predicate table c₁ n = c.predicate table c₂ n := by
  unfold predicate
  rw [h]

end Condition

namespace Filter

variable {c₁ c₂ : Instant} {f : Filter}

/-- What the conditions are about is the same seen from two presents. -/
def KeepsTimes (f : Filter) (c₁ c₂ : Instant) : Prop :=
  ∀ c ∈ f.conditions, c.comparedValues c₁ = c.comparedValues c₂

theorem predicatesFrom_congr {cs : List Condition}
    (h : ∀ c ∈ cs, c.comparedValues c₁ = c.comparedValues c₂) (table : String) (n : Nat) :
    predicatesFrom table c₁ n cs = predicatesFrom table c₂ n cs := by
  induction cs generalizing n with
  | nil => rfl
  | cons c cs ih =>
    obtain ⟨hc, hcs⟩ := List.forall_mem_cons.mp h
    rw [predicatesFrom, predicatesFrom, Condition.predicate_congr hc, ih hcs]

theorem KeepsTimes.query (h : f.KeepsTimes c₁ c₂) (ids : List Value) :
    f.query ids c₁ = f.query ids c₂ := by
  have hpredicates : f.predicates c₁ = f.predicates c₂ := predicatesFrom_congr h _ 0
  unfold Filter.query
  rw [hpredicates]

theorem KeepsTimes.matching (h : f.KeepsTimes c₁ c₂) (now : Moment) (ids : List Value)
    (timestamp : Value) :
    f.matching ids timestamp (some now) c₁ = f.matching ids timestamp (some now) c₂ := by
  unfold Filter.matching
  rw [h.query ids]
  simp only [Query.asOfTimestamp_some now c₁ c₂]

end Filter

theorem EntityView.ofSubjects_congr {filter : Option Filter} {c₁ c₂ : Instant}
    (h : ∀ f ∈ filter, f.KeepsTimes c₁ c₂) (now : Moment) (subjects : List Subject)
    (timestamps : List Value) (differencesOnly : Bool) :
    ofSubjects subjects timestamps filter differencesOnly (some now) c₁ =
      ofSubjects subjects timestamps filter differencesOnly (some now) c₂ := by
  unfold ofSubjects
  simp only [rowsAt_some now c₁ c₂]
  cases filter with
  | none => rfl
  | some f => simp only [(h f rfl).matching now]

/-! ## What predicates tell of times -/

theorem Value.plain_instant (i : Instant) : (Value.instant i).plain.toList =
    i.moment.date.textChars ++ ' ' :: i.moment.textChars.drop 11 := by
  rw [instant, plain, Scalar.plain, String.toList_ofList]

/-- Behind the date there are the time of day and the offset. -/
theorem Calendar.Moment.drop_textChars (m : Moment) :
    m.textChars.drop 11 = clockChars m.micros true ++ m.offset.elim [] offsetChars := by
  have htext : m.textChars = (m.date.textChars ++ ['T']) ++
      (clockChars m.micros true ++ m.offset.elim [] offsetChars) := by
    simp only [textChars, List.append_assoc, List.cons_append, List.nil_append]
  rw [htext, List.drop_left' (by rw [List.length_append, m.date.length_textChars]; rfl)]

/-- Instants with the same plain text are the same. -/
theorem Value.plain_instant_inj {i j : Instant} (hi : i.micros < Instant.bound)
    (hj : j.micros < Instant.bound)
    (h : (Value.instant i).plain.toList = (Value.instant j).plain.toList) : i = j := by
  have hoffset := (Instant.moment_spec hi).1
  have hoffset' := (Instant.moment_spec hj).1
  rw [plain_instant, plain_instant, Moment.drop_textChars, Moment.drop_textChars, hoffset,
    hoffset'] at h
  obtain ⟨hdate, hclock⟩ := Date.textChars_inj h
  have hmicros : i.moment.micros = j.moment.micros :=
    Moment.clockChars_inj i.moment.micros_lt j.moment.micros_lt (by decide : 'Z' ≠ '.')
      (congrArg (· ++ ['Z']) (List.append_cancel_right (List.cons.inj hclock).2))
  refine Instant.moment_inj hi hj ?_
  have heq : ∀ m n : Moment, m.date = n.date → m.micros = n.micros → m.offset = n.offset → m = n :=
    fun ⟨_, _, _, _⟩ ⟨_, _, _, _⟩ h₁ h₂ h₃ => by
      cases h₁
      cases h₂
      cases h₃
      rfl
  exact heq _ _ hdate hmicros (hoffset.trans hoffset'.symm)

namespace Condition

/-- A pattern tells the text that it matches. -/
theorem literalPattern_inj {cs ds : List Char} (h : literalPattern cs = literalPattern ds) :
    cs = ds := by
  induction cs generalizing ds with
  | nil =>
    cases ds with
    | nil => rfl
    | cons d ds =>
      rw [literalPattern, literalPattern] at h
      split at h <;> cases h
  | cons c cs ih =>
    cases ds with
    | nil =>
      rw [literalPattern, literalPattern] at h
      split at h <;> cases h
    | cons d ds =>
      rw [literalPattern, literalPattern] at h
      split at h <;> split at h
      · obtain ⟨rfl, hrest⟩ := List.cons.inj (List.cons.inj h).2
        rw [ih hrest]
      · next hd => exact absurd (by rw [← (List.cons.inj h).1]; decide) hd
      · next hc _ => exact absurd (by rw [(List.cons.inj h).1]; decide) hc
      · obtain ⟨rfl, hrest⟩ := List.cons.inj h
        rw [ih hrest]

theorem plain_of_containing {v w : Value} (h : containing v = containing w) :
    v.plain.toList = w.plain.toList := by
  have hchars := congrArg String.toList h
  rw [containing, containing, String.toList_ofList, String.toList_ofList] at hchars
  exact literalPattern_inj (List.append_cancel_right (List.cons.inj hchars).2)

/-! ### Times of one condition, seen from two presents -/

/-- Two values are the same, or points in time within the calendar. -/
inductive Sighting : Value → Value → Prop
  | same (v : Value) : Sighting v v
  | times {i j : Instant} (hi : i.micros < Instant.bound) (hj : j.micros < Instant.bound) :
    Sighting (.instant i) (.instant j)

/-- What tells points in time apart tells what has been seen apart. -/
theorem Sighting.eq_of {β : Type} {g : Value → β} {a b : Value} (h : Sighting a b)
    (hg : ∀ i j : Instant, i.micros < Instant.bound → j.micros < Instant.bound →
      g (.instant i) = g (.instant j) → i = j) (he : g a = g b) : a = b := by
  cases h with
  | same => rfl
  | times hi hj => rw [hg _ _ hi hj he]

variable {c₁ c₂ : Instant} {c : Condition}

theorem timeValue_text (clock : Instant) (s : String) : timeValue clock (.scalar (.text s)) =
    (Timestamp.read s).bind fun t => (t.resolve clock).map Value.instant := rfl

theorem timeValue_of_not_text {v : Value} (h : ¬∃ s, v = .scalar (.text s)) {clock : Instant} :
    timeValue clock v = .ok v := by
  unfold timeValue
  split
  · next s => exact absurd ⟨s, rfl⟩ h
  · rfl

theorem sighting_timeValue {v a b : Value} (ha : timeValue c₁ v = .ok a)
    (hb : timeValue c₂ v = .ok b) : Sighting a b := by
  by_cases htext : ∃ s, v = .scalar (.text s)
  · obtain ⟨s, rfl⟩ := htext
    rw [timeValue_text] at ha hb
    obtain ⟨t, ht, ha⟩ := bind_eq_ok_iff.mp ha
    obtain ⟨u, hu, hb⟩ := bind_eq_ok_iff.mp hb
    cases ht.symm.trans hu
    obtain ⟨i, hi, rfl⟩ := map_eq_ok_iff.mp ha
    obtain ⟨j, hj, rfl⟩ := map_eq_ok_iff.mp hb
    cases t with
    | absolute k =>
      cases hi
      cases hj
      exact .same _
    | relative d =>
      obtain ⟨m, -, hm⟩ := bind_eq_ok_iff.mp hi
      obtain ⟨n, -, hn⟩ := bind_eq_ok_iff.mp hj
      exact .times (Moment.toInstant_lt hm) (Moment.toInstant_lt hn)
  · rw [timeValue_of_not_text htext] at ha hb
    cases ha
    cases hb
    exact .same _

theorem forall₂_sighting {as bs : List Value} (ha : c.comparedValues c₁ = .ok as)
    (hb : c.comparedValues c₂ = .ok bs) : List.Forall₂ Sighting as bs := by
  unfold comparedValues at ha hb
  split at ha
  · next htime =>
    rw [if_pos htime] at hb
    clear htime
    generalize c.values = vs at ha hb
    induction vs generalizing as bs with
    | nil =>
      cases ha
      cases hb
      exact .nil
    | cons v vs ih =>
      obtain ⟨a, as, hva, has, rfl⟩ := mapM_cons_eq_ok_iff.mp ha
      obtain ⟨b, bs, hvb, hbs, rfl⟩ := mapM_cons_eq_ok_iff.mp hb
      exact .cons (sighting_timeValue hva hvb) (ih has hbs)
  · next htime =>
    rw [if_neg htime] at hb
    cases ha
    cases hb
    exact List.forall₂_same.mpr fun v _ => .same v

/-- Of a single value the predicate shows the first one. -/
theorem eq_of_headD {β : Type} {g : Value → β} {as bs : List Value}
    (h : List.Forall₂ Sighting as bs) (hlength : as.length = 1)
    (hg : ∀ i j : Instant, i.micros < Instant.bound → j.micros < Instant.bound →
      g (.instant i) = g (.instant j) → i = j)
    (he : g (as.headD .null) = g (bs.headD .null)) : as = bs := by
  obtain ⟨a, rfl⟩ := List.length_eq_one_iff.mp hlength
  cases h with
  | cons hab hrest =>
    cases hrest
    rw [hab.eq_of hg he]

/-- Equality or its denial, of one value or among a list, shows all values. -/
theorem eq_of_oneOrAmong {column : ColumnRef} {negated : Bool} {p : Predicate}
    {one : Value → Except Failure Predicate} {as bs : List Value}
    (h : List.Forall₂ Sighting as bs)
    (hone : ∀ i j : Instant, i.micros < Instant.bound → j.micros < Instant.bound →
      one (.instant i) = one (.instant j) → i = j)
    (h₁ : (if as.length == 1 then one (as.headD .null)
      else Predicate.among column (.list as) negated) = .ok p)
    (h₂ : (if bs.length == 1 then one (bs.headD .null)
      else Predicate.among column (.list bs) negated) = .ok p) : as = bs := by
  rw [← h.length_eq] at h₂
  split at h₁
  · next hcount =>
    rw [if_pos hcount] at h₂
    exact eq_of_headD h (beq_iff_eq.mp hcount) hone (h₁.trans h₂.symm)
  · next hcount =>
    rw [if_neg hcount] at h₂
    obtain ⟨ss, rfl, rfl⟩ := Predicate.among_list_eq_ok_iff.mp h₁
    obtain ⟨ss', rfl, hss⟩ := Predicate.among_list_eq_ok_iff.mp h₂
    cases hss
    rfl

/-- A predicate says what times it is about. -/
theorem comparedValues_of_predicate {table : String} {n : Nat} {p : Predicate}
    (h₁ : c.predicate table c₁ n = .ok p) (h₂ : c.predicate table c₂ n = .ok p) :
    c.comparedValues c₁ = c.comparedValues c₂ := by
  obtain ⟨as, has, h₁⟩ := bind_eq_ok_iff.mp h₁
  obtain ⟨bs, hbs, h₂⟩ := bind_eq_ok_iff.mp h₂
  have hrel := forall₂_sighting has hbs
  have hlength := length_comparedValues has
  have hlength' := length_comparedValues hbs
  have hone : c.values.length = 1 → as.length = 1 := hlength.trans
  have hfits := c.fits
  have hmoment : ∀ {i j : Instant}, i.micros < Instant.bound → j.micros < Instant.bound →
      Operand.value (.moment i.moment) = .value (.moment j.moment) → i = j :=
    fun hi hj h => Instant.moment_inj hi hj (Scalar.moment.inj (Operand.value.inj h))
  have hpattern : ∀ {sql param s t : String}, Predicate.raw ⟨sql, [(param, .text s)]⟩ =
      .raw ⟨sql, [(param, .text t)]⟩ → s = t := fun h => by
    cases h
    rfl
  rw [has, hbs]
  refine congrArg Except.ok ?_
  dsimp only at h₁ h₂
  -- each operator shows its values in a predicate of another form
  cases hop : c.operator with
  | equals =>
    rw [hop] at h₁ h₂
    refine eq_of_oneOrAmong hrel (fun i j hi hj hij => ?_) h₁ h₂
    rw [Value.instant, Value.instant, Predicate.equal_scalar, Predicate.equal_scalar] at hij
    exact hmoment hi hj (Predicate.equality.inj (Except.ok.inj hij)).2
  | differs =>
    rw [hop] at h₁ h₂
    refine eq_of_oneOrAmong hrel (fun i j hi hj hij => ?_) h₁ h₂
    rw [Value.instant, Value.instant, Predicate.unequal_scalar, Predicate.unequal_scalar] at hij
    exact hmoment hi hj (Predicate.notEqual.inj (Except.ok.inj hij)).2
  | isPresent | isMissing =>
    rw [hop] at hfits
    have hnone : c.values.length = 0 := beq_iff_eq.mp hfits
    rw [List.length_eq_zero_iff.mp (hlength.trans hnone),
      List.length_eq_zero_iff.mp (hlength'.trans hnone)]
  | atLeast | atMost =>
    rw [hop] at h₁ h₂ hfits
    dsimp only at h₁ h₂
    refine eq_of_headD hrel (hone (beq_iff_eq.mp hfits)) (fun i j hi hj hij => ?_)
      (h₁.trans h₂.symm)
    rw [Value.instant, Value.instant, Predicate.compared_scalar, Predicate.compared_scalar] at hij
    exact hmoment hi hj (Predicate.comparison.inj (Except.ok.inj hij)).2.2
  | contains | lacks =>
    rw [hop] at h₁ h₂ hfits
    refine eq_of_headD hrel (hone (beq_iff_eq.mp hfits)) (fun i j hi hj hij => ?_)
      (hpattern (Except.ok.inj (h₁.trans h₂.symm)))
    exact Value.plain_instant_inj hi hj (plain_of_containing hij)

end Condition

namespace Filter

variable {c₁ c₂ : Instant} {f : Filter}

theorem comparedValues_of_predicatesFrom {table : String} {n : Nat} {cs : List Condition}
    {ps : List Predicate} (h₁ : predicatesFrom table c₁ n cs = .ok ps)
    (h₂ : predicatesFrom table c₂ n cs = .ok ps) :
    ∀ c ∈ cs, c.comparedValues c₁ = c.comparedValues c₂ := by
  induction cs generalizing n ps with
  | nil => exact fun c hc => nomatch hc
  | cons c cs ih =>
    obtain ⟨p, hp, h₁⟩ := bind_eq_ok_iff.mp h₁
    obtain ⟨ps', hps, h₁⟩ := bind_eq_ok_iff.mp h₁
    obtain ⟨q, hq, h₂⟩ := bind_eq_ok_iff.mp h₂
    obtain ⟨qs', hqs, h₂⟩ := bind_eq_ok_iff.mp h₂
    cases h₁
    cases h₂
    exact List.forall_mem_cons.mpr ⟨Condition.comparedValues_of_predicate hp hq, ih hps hqs⟩

/-- The query for a filter says what times its conditions are about. -/
theorem query_eq_iff {ids : List Value} {q₁ q₂ : Query} (h₁ : f.query ids c₁ = .ok q₁)
    (h₂ : f.query ids c₂ = .ok q₂) : q₁ = q₂ ↔ f.KeepsTimes c₁ c₂ := by
  constructor
  · rintro rfl
    obtain ⟨ps, hps, h₁⟩ := bind_eq_ok_iff.mp h₁
    obtain ⟨p, hp, h₁⟩ := bind_eq_ok_iff.mp h₁
    obtain ⟨qs, hqs, h₂⟩ := bind_eq_ok_iff.mp h₂
    obtain ⟨q, hq, h₂⟩ := bind_eq_ok_iff.mp h₂
    cases hp.symm.trans hq
    cases h₁
    have hconditions := congrArg Query.conditions (Except.ok.inj h₂)
    change [] ++ (qs ++ [p]) = [] ++ (ps ++ [p]) at hconditions
    obtain rfl := List.append_cancel_right (List.append_cancel_left hconditions)
    exact comparedValues_of_predicatesFrom hps hqs
  · intro h
    exact Except.ok.inj (h₁.symm.trans ((h.query ids).trans h₂))

/-- Texts for points in time are read alike at any present. -/
theorem keepsTimes_of_absolute (h : ∀ c ∈ f.conditions, c.field ∈ Condition.timeFields →
    ∀ s t, Value.text s ∈ c.values → Timestamp.read s = .ok t → t.isRelative = false) :
    f.KeepsTimes c₁ c₂ := by
  intro c hc
  unfold Condition.comparedValues
  split
  · next htime =>
    refine mapM_congr fun v hv => ?_
    by_cases htext : ∃ s, v = .scalar (.text s)
    · obtain ⟨s, rfl⟩ := htext
      rw [Condition.timeValue_text, Condition.timeValue_text]
      cases hread : Timestamp.read s with
      | error e => rw [Except.bind, Except.bind]
      | ok t =>
        cases t with
        | absolute i => rw [Except.bind, Except.bind, Timestamp.resolve, Timestamp.resolve]
        | relative d => cases h c hc (by simpa using htime) s _ hv hread
    · rw [Condition.timeValue_of_not_text htext, Condition.timeValue_of_not_text htext]
  · rfl

end Filter

/-! ## The clock -/

namespace EntityView

/-- Where the present is given, queries as of a timestamp, entries of the journal, and views without
a filter do not depend on the clock.  With a filter, matches and views do not depend on it as long as
the conditions are about the same times; and the queries behind them differ whenever these differ,
because relative times among the values of a filter are seen from the clock. -/
theorem given_present (now : Moment) (c₁ c₂ : Instant) :
    (∀ (q : Query) t, q.asOfTimestamp t (some now) c₁ = q.asOfTimestamp t (some now) c₂) ∧
    (∀ kind id t, Journal.entryAt kind id t (some now) c₁ =
      Journal.entryAt kind id t (some now) c₂) ∧
    (∀ subjects timestamps differencesOnly,
      ofSubjects subjects timestamps none differencesOnly (some now) c₁ =
        ofSubjects subjects timestamps none differencesOnly (some now) c₂) ∧
    ∀ f : Filter,
      (f.KeepsTimes c₁ c₂ →
        (∀ ids t, f.matching ids t (some now) c₁ = f.matching ids t (some now) c₂) ∧
        ∀ subjects timestamps differencesOnly,
          ofSubjects subjects timestamps (some f) differencesOnly (some now) c₁ =
            ofSubjects subjects timestamps (some f) differencesOnly (some now) c₂) ∧
      ∀ ids q₁ q₂, f.query ids c₁ = .ok q₁ → f.query ids c₂ = .ok q₂ →
        (q₁ = q₂ ↔ f.KeepsTimes c₁ c₂) := by
  refine ⟨fun q t => q.asOfTimestamp_some now c₁ c₂ t,
    fun kind id t => Journal.entryAt_some now c₁ c₂ kind id t,
    ofSubjects_congr (fun f hf => (Option.not_mem_none f hf).elim) now, fun f => ⟨fun hf => ?_, fun ids q₁ q₂ => ?_⟩⟩
  · exact ⟨hf.matching now, ofSubjects_congr (fun g hg => Option.some.inj hg ▸ hf) now⟩
  · exact Filter.query_eq_iff

/-- Work packages that have been changed during the last day. -/
def changedLately : Filter :=
  ⟨"lately", .workPackage, [⟨"updated_at", .atLeast, [.text "P-1D"], rfl⟩], by decide⟩

/-- Work packages that have been changed since the second day of the calendar, and are called like a
duration. -/
def changedSince : Filter :=
  ⟨"since", .workPackage, [⟨"updated_at", .atLeast, [.text "0001-01-02T00:00:00Z"], rfl⟩,
    ⟨"subject", .equals, [.text "P-1D"], rfl⟩], by decide⟩

/-- The second day of the calendar, and the third. -/
def secondDay : Instant := ⟨microsPerDay⟩

def thirdDay : Instant := ⟨2 * microsPerDay⟩

theorem given_present_changed :
    (∀ ids t, changedSince.matching ids t (some secondDay.moment) secondDay =
      changedSince.matching ids t (some secondDay.moment) thirdDay) ∧
    ∃ q₁ q₂, changedLately.query [.int 1] secondDay = .ok q₁ ∧
      changedLately.query [.int 1] thirdDay = .ok q₂ ∧ q₁ ≠ q₂ := by
  obtain ⟨-, -, -, hfilter⟩ := given_present secondDay.moment secondDay thirdDay
  have hsince : changedSince.KeepsTimes secondDay thirdDay := by
    have habsolute : (Timestamp.read "0001-01-02T00:00:00Z").toOption.any (·.isRelative) =
        false := by decide +kernel
    refine Filter.keepsTimes_of_absolute fun c hc htime s t hs ht => ?_
    rcases List.mem_cons.mp hc with rfl | hc
    · cases List.mem_singleton.mp hs
      rw [ht] at habsolute
      exact habsolute
    · cases List.mem_singleton.mp hc
      exact absurd htime (by decide)
  have hlately : ¬changedLately.KeepsTimes secondDay thirdDay := by
    have hplain : ∀ c ∈ changedLately.conditions,
        (c.comparedValues secondDay).toOption.map (·.map Value.plain) ≠
          (c.comparedValues thirdDay).toOption.map (·.map Value.plain) := by decide +kernel
    exact fun h => hplain _ List.mem_cons_self (by rw [h _ List.mem_cons_self])
  have hquery : ∀ clock ∈ [secondDay, thirdDay],
      (changedLately.query [.int 1] clock).isOk = true := by decide +kernel
  refine ⟨((hfilter changedSince).1 hsince).1, ?_⟩
  have hsecond := hquery secondDay (by decide)
  have hthird := hquery thirdDay (by decide)
  cases h₁ : changedLately.query [.int 1] secondDay with
  | error f => rw [h₁] at hsecond; cases hsecond
  | ok q₁ =>
    cases h₂ : changedLately.query [.int 1] thirdDay with
    | error f => rw [h₂] at hthird; cases hthird
    | ok q₂ =>
      exact ⟨q₁, q₂, rfl, rfl, fun h => hlately (((hfilter changedLately).2 _ _ _ h₁ h₂).mp h)⟩

end EntityView

end Chronicle
