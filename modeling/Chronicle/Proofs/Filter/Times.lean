import Chronicle.Proofs.Calendar.Months
import Chronicle.Proofs.Filter.Compared

/-!
# Conditions on times

Times are compared by the instants that they denote: a text by the one that it is resolved to, a
moment without an offset as if it were in UTC.  A date is not taken, and neither is a moment outside
the calendar in UTC: then nothing is answered.

* `Value.IsPoint`, `Value.instantAt?`: points in time, in the forms in which filters give them;
* `Condition.HoldsAt`, `Filter.HoldsAt`: what is said of the instants of attributes;
* `Condition.settled`, `Filter.settled`: a filter with the instants in place of its values;
* `Filter.times_iff`: when a filter on times is answered, and what it lets pass.
-/

namespace Chronicle

open Chronicle.Calendar

/-! ## Points in time -/

namespace Cell

theorem orderOf_eq_iff (a b : Nat) : orderOf a b = .eq ↔ a = b := by
  rw [← fits_eq_iff, fits_eq_orderOf Nat.lt_irrefl, decide_eq_true_eq]

theorem orderOf_ne_lt_iff (a b : Nat) : orderOf a b ≠ .lt ↔ b ≤ a := by
  unfold orderOf
  split
  · next hlt => simpa using hlt
  · next hge =>
    rw [Nat.not_lt] at hge
    split <;> simpa using hge

theorem orderOf_ne_gt_iff (a b : Nat) : orderOf a b ≠ .gt ↔ a ≤ b := by
  unfold orderOf
  split
  · next hlt => simpa using hlt.le
  · next hge =>
    split
    · next heq => simpa using heq.le
    · next hne => simpa using lt_of_le_of_ne (Nat.not_lt.mp hge) (Ne.symm hne)

end Cell

/-- Instants are compared by what comes first. -/
theorem ColumnType.order_instant {i j : Instant} (hi : i.micros < Instant.bound)
    (hj : j.micros < Instant.bound) : ColumnType.instant.order (.moment i.moment) (.instant j) =
      some (Cell.orderOf i.micros j.micros) := by
  have hi := Moment.instant?_of_toInstant (Instant.toInstant_moment hi)
  have hj := Moment.instant?_of_toInstant (Instant.toInstant_moment hj)
  change (i.moment.instant?.bind fun k => j.moment.instant?.map fun l =>
    Cell.orderOf k.micros l.micros) = _
  rw [hi, hj]
  rfl

theorem Calendar.Instant.micros_inj {i j : Instant} : i.micros = j.micros ↔ i = j :=
  (Instant.mk.injEq i.micros j.micros).symm ▸ Iff.rfl

/-- A moment without an offset lies within the calendar. -/
theorem Calendar.Moment.isSome_instant?_of_naive {m : Moment} (h : m.offset = none) :
    m.instant?.isSome = true := by
  have hlt : m.wallMicros < Instant.bound := by
    have hpos : 1 ≤ m.date.ordinal := Nat.le_add_left_of_le m.date.day_range.1
    have hdays := Nat.mul_le_mul_right microsPerDay m.date.ordinal_le_maxOrdinal
    have hday := Nat.le_mul_of_pos_left microsPerDay hpos
    have hmicros := m.micros_lt
    rw [wallMicros, Instant.bound, Nat.sub_mul]
    omega
  rw [instant?, h, Option.getD_none, Int.sub_zero, Instant.ofMicros?_natCast hlt]
  rfl

namespace Value

/-- A point in time: a text that is resolved at the present of a clock, a date, or a moment with or
without an offset. -/
inductive IsPoint (clock : Instant) : Value → Prop
  | text {s : String} {t : Timestamp} {i : Instant} (hread : Timestamp.read s = .ok t)
    (hi : t.resolve clock = .ok i) : IsPoint clock (.text s)
  | date (d : Date) : IsPoint clock (.scalar (.date d))
  | moment (m : Moment) : IsPoint clock (.moment m)

/-- The instant that a value denotes: of a date its midnight, and of a moment without an offset the
one in UTC. -/
def instantAt? (clock : Instant) : Value → Option Instant
  | .scalar (.text s) => (Timestamp.read s).toOption.bind fun t => (t.resolve clock).toOption
  | .scalar (.date d) => Moment.instant? ⟨d, 0, none, microsPerDay_pos⟩
  | .scalar (.moment m) => m.instant?
  | _ => none

/-- The store takes a point in time unless it is a date, or a moment with an offset that lies
outside the calendar in UTC. -/
def IsTaken : Value → Prop
  | .scalar (.date _) => False
  | .scalar (.moment m) => m.offset = none ∨ m.instant?.isSome = true
  | _ => True

/-- The instant of a value in its place. -/
def settled (clock : Instant) (v : Value) : Value := (v.instantAt? clock).elim v instant

/-- What is read of a point in time, before it is compared. -/
structure ReadAt (clock : Instant) (v : Value) (s : Scalar) : Prop where
  read : Condition.timeValue clock v = .ok (.scalar s)
  given : s.isGiven = true

variable {clock : Instant} {v : Value}

theorem IsPoint.exists_readAt (h : v.IsPoint clock) : ∃ s, v.ReadAt clock s := by
  cases h with
  | @text s t i hread hi =>
    refine ⟨.moment i.moment, ?_, rfl⟩
    rw [Value.text, Condition.timeValue_text, hread, Except.bind, hi]
    rfl
  | date d => exact ⟨.date d, rfl, rfl⟩
  | moment m => exact ⟨.moment m, rfl, rfl⟩

/-- If the store takes a point in time, it is compared as its instant. -/
theorem IsPoint.exists_instant (h : v.IsPoint clock) (ht : v.IsTaken) {s : Scalar}
    (hs : v.ReadAt clock s) : ∃ j, v.instantAt? clock = some j ∧ j.micros < Instant.bound ∧
      Clause.inUtc s = .ok (.moment j.moment) := by
  have hread := hs.read
  cases h with
  | @text s' t i hread' hi =>
    have hbound : i.micros < Instant.bound := by
      rw [← t.resolveAt_none] at hi
      exact EntityView.resolveAt_lt (Timestamp.isProper_read hread') hi
    have hinstant : (Value.text s').instantAt? clock = some i := by
      rw [Value.text, instantAt?, hread', Except.toOption, Option.bind_some, hi, Except.toOption]
    rw [Value.text, Condition.timeValue_text, hread', Except.bind, hi] at hread
    cases hread
    refine ⟨i, hinstant, hbound, ?_⟩
    rw [Clause.inUtc, Instant.toInstant_moment hbound]
    rfl
  | date d => exact ht.elim
  | moment m =>
    cases hread
    have hsome : m.instant?.isSome = true := ht.elim Moment.isSome_instant?_of_naive id
    obtain ⟨j, hj⟩ := Option.isSome_iff_exists.mp hsome
    have hinstant : m.toInstant = .ok j := by
      rw [Moment.toInstant, hj]
    refine ⟨j, hj, Moment.toInstant_lt hinstant, ?_⟩
    rw [Clause.inUtc, hinstant]
    rfl

/-- If a point in time has a cell in a column for times, the store takes it. -/
theorem IsPoint.isTaken_of_cell (h : v.IsPoint clock) {s u : Scalar} (hs : v.ReadAt clock s)
    (hu : Clause.inUtc s = .ok u) {y : Cell} (hy : Binding.bindInstant (.scalar u) = .cell y) :
    v.IsTaken := by
  have hread := hs.read
  cases h with
  | text => trivial
  | date d =>
    cases hread
    cases hu
    cases hy
  | moment m =>
    cases hread
    obtain ⟨i, hi, -⟩ := map_eq_ok_iff.mp hu
    exact .inr (Option.isSome_iff_exists.mpr ⟨i, Moment.instant?_of_toInstant hi⟩)

end Value

/-! ## Conditions on times -/

namespace Condition

/-- What a condition says of the instant of its attribute: how it lies to those that the values of
the condition denote. -/
def HoldsAt (c : Condition) (clock i : Instant) : Prop :=
  match c.operator with
  | .equals => ∃ v ∈ c.values, v.instantAt? clock = some i
  | .differs => ∀ v ∈ c.values, v.instantAt? clock ≠ some i
  | .atLeast => ∀ v ∈ c.values, ∃ j, v.instantAt? clock = some j ∧ j ≤ i
  | .atMost => ∀ v ∈ c.values, ∃ j, v.instantAt? clock = some j ∧ i ≤ j
  | _ => False

/-- A condition that compares a time with points in time. -/
structure AsksTime (c : Condition) (clock : Instant) : Prop where
  field : c.field ∈ timeFields
  operator : c.operator.compares = true
  points : ∀ v ∈ c.values, v.IsPoint clock

/-- The instants that the values of a condition denote. -/
structure Denotes (c : Condition) (clock : Instant) (js : List Instant) : Prop where
  bound : ∀ j ∈ js, j.micros < Instant.bound
  values : c.values.map (·.instantAt? clock) = js.map some

/-- The condition with the instants that its values denote. -/
def settled (clock : Instant) (c : Condition) : Condition where
  field := c.field
  operator := c.operator
  values := c.values.map (Value.settled clock)
  fits := by
    rw [List.length_map]
    exact c.fits

variable {c : Condition} {clock : Instant} (h : c.AsksTime clock)

include h

/-- Its values are read one by one. -/
theorem AsksTime.exists_comparesWith : ∃ ss, c.ComparesWith clock ss ∧
    List.Forall₂ (Value.ReadAt clock) c.values ss := by
  have hread : ∀ vs : List Value, (∀ v ∈ vs, v.IsPoint clock) → ∃ ss : List Scalar,
      vs.mapM (timeValue clock) = .ok (ss.map .scalar) ∧ (∀ s ∈ ss, s.isGiven = true) ∧
        List.Forall₂ (Value.ReadAt clock) vs ss := by
    intro vs hvs
    induction vs with
    | nil => exact ⟨[], rfl, List.forall_mem_nil _, .nil⟩
    | cons v vs ih =>
      obtain ⟨hv, hvs⟩ := List.forall_mem_cons.mp hvs
      obtain ⟨s, hs⟩ := hv.exists_readAt
      obtain ⟨ss, hss, hgiven, hall⟩ := ih hvs
      exact ⟨s :: ss, mapM_cons_eq_ok_iff.mpr ⟨_, _, hs.read, hss, rfl⟩,
        List.forall_mem_cons.mpr ⟨hs.given, hgiven⟩, .cons hs hall⟩
  obtain ⟨ss, hss, hgiven, hall⟩ := hread c.values h.points
  refine ⟨ss, ⟨h.operator, ?_, hgiven⟩, hall⟩
  rw [comparedValues, if_pos (List.contains_iff_mem.mpr h.field), hss]

/-- The column of its attribute is one for times. -/
theorem AsksTime.type_eq {k : Kind} (hknown : k.hasAttribute c.field = true) :
    (k.columnOf c.field).type = .instant := by
  obtain ⟨hcolumn, hname⟩ := Kind.columnOf_spec hknown
  have htime := Kind.timeFields_contains hcolumn
  rw [hname, List.contains_iff_mem.mpr h.field] at htime
  exact of_decide_eq_true htime.symm

/-- If the store takes its values, they are compared as the instants that they denote. -/
theorem AsksTime.exists_instants (htaken : ∀ v ∈ c.values, v.IsTaken) {ss : List Scalar}
    (hss : List.Forall₂ (Value.ReadAt clock) c.values ss) : ∃ js : List Instant,
      c.Denotes clock js ∧ ss.mapM Clause.inUtc = .ok (js.map fun j => .moment j.moment) := by
  have hread : ∀ {vs us}, (∀ v ∈ vs, v.IsPoint clock) → (∀ v ∈ vs, v.IsTaken) →
      List.Forall₂ (Value.ReadAt clock) vs us → ∃ js : List Instant,
        (∀ j ∈ js, j.micros < Instant.bound) ∧ vs.map (·.instantAt? clock) = js.map some ∧
          us.mapM Clause.inUtc = .ok (js.map fun j => .moment j.moment) := by
    intro vs us hpoints htaken hus
    induction hus with
    | nil => exact ⟨[], List.forall_mem_nil _, rfl, rfl⟩
    | cons hs _ ih =>
      obtain ⟨hv, hvs⟩ := List.forall_mem_cons.mp hpoints
      obtain ⟨ht, hts⟩ := List.forall_mem_cons.mp htaken
      obtain ⟨j, hj, hbound, hutc⟩ := hv.exists_instant ht hs
      obtain ⟨js, hbounds, hjs, hutcs⟩ := ih hvs hts
      refine ⟨j :: js, List.forall_mem_cons.mpr ⟨hbound, hbounds⟩, ?_,
        mapM_cons_eq_ok_iff.mpr ⟨_, _, hutc, hutcs, rfl⟩⟩
      rw [List.map_cons, List.map_cons, hj, hjs]
  obtain ⟨js, hbound, hjs, hutc⟩ := hread h.points htaken hss
  exact ⟨js, ⟨hbound, hjs⟩, hutc⟩

namespace Denotes

variable {js : List Instant} (hjs : c.Denotes clock js)

include hjs

omit h in
theorem values_settled : (c.settled clock).values = js.map Value.instant := by
  have hvalues := hjs.values
  change c.values.map (Value.settled clock) = _
  clear hjs
  generalize c.values = vs at hvalues
  induction vs generalizing js with
  | nil =>
    rw [List.map_nil, eq_comm, List.map_eq_nil_iff] at hvalues
    rw [hvalues]
    rfl
  | cons v vs ih =>
    cases js with
    | nil => cases hvalues
    | cons j js =>
      rw [List.map_cons, List.map_cons, List.cons.injEq] at hvalues
      rw [List.map_cons, List.map_cons, ih hvalues.2, Value.settled, hvalues.1]
      rfl

omit h in
/-- What is said of what the values denote is said of the instants. -/
theorem forall_values_iff (p : Option Instant → Prop) :
    (∀ v ∈ c.values, p (v.instantAt? clock)) ↔ ∀ j ∈ js, p (some j) := by
  have hmap := List.forall_mem_map (P := p) (l := c.values) (f := (·.instantAt? clock))
  rw [← hmap, hjs.values, List.forall_mem_map]

omit h in
theorem has_settled : ∀ v ∈ (c.settled clock).values, ColumnType.instant.Has v := by
  rw [hjs.values_settled, List.forall_mem_map]
  exact fun j hj => .moment (Instant.toStored_moment (hjs.bound j hj))

omit h in
/-- To be ordered is asked of one instant. -/
theorem holds_ordered (hop : c.operator = .atLeast ∨ c.operator = .atMost) :
    ∃ j, js = [j] ∧ ∀ x, (c.settled clock).Holds .instant x ↔
      ∃ o, ColumnType.instant.order x (.instant j) = some o ∧
        Cell.fits (if c.operator = .atLeast then .ge else .le) o = true := by
  have hlength : c.values.length = js.length := by
    have := congrArg List.length hjs.values
    rwa [List.length_map, List.length_map] at this
  have hfits := c.fits
  rw [hlength] at hfits
  obtain ⟨j, rfl⟩ : ∃ j, js = [j] := by
    rcases hop with hop | hop <;> rw [hop] at hfits <;>
      exact List.length_eq_one_iff.mp (beq_iff_eq.mp hfits)
  have hvalues : (c.settled clock).values = [.instant j] := hjs.values_settled
  exact ⟨j, rfl, Condition.holds_ordered (c := c.settled clock) hop hvalues⟩

/-- Instants are compared as they are. -/
theorem comparesWith_settled :
    (c.settled clock).ComparesWith clock (js.map fun j => .moment j.moment) := by
  refine ⟨h.operator, ?_, List.forall_mem_map.mpr fun _ _ => rfl⟩
  have htime : timeFields.contains (c.settled clock).field = true :=
    List.contains_iff_mem.mpr h.field
  rw [comparedValues, if_pos htime, hjs.values_settled, List.map_map]
  exact mapM_map_eq_ok fun _ _ => rfl

theorem isTyped_settled : (c.settled clock).IsTyped .instant := by
  have hhas := hjs.has_settled
  have hoperator : (c.settled clock).operator.compares = true := h.operator
  unfold IsTyped
  cases hop : (c.settled clock).operator with
  | equals | differs => exact .inr hhas
  | atLeast | atMost => exact ⟨nofun, hhas⟩
  | isPresent | isMissing => trivial
  | contains | lacks =>
    rw [hop] at hoperator
    cases hoperator

/-- It says of an instant what the condition says of it. -/
theorem holds_settled_moment {i : Instant} (hi : i.micros < Instant.bound) :
    (c.settled clock).Holds .instant (.moment i.moment) ↔ c.HoldsAt clock i := by
  have hhas := hjs.has_settled
  have hnone : (∀ v ∈ (c.settled clock).values, ColumnType.instant.order (.moment i.moment) v ≠
      some .eq) ↔ ∀ v ∈ c.values, v.instantAt? clock ≠ some i := by
    rw [hjs.values_settled, List.forall_mem_map, hjs.forall_values_iff (· ≠ some i)]
    refine forall₂_congr fun j hj => not_congr ?_
    rw [ColumnType.order_instant hi (hjs.bound j hj), Option.some.injEq, Option.some.injEq,
      Cell.orderOf_eq_iff, Instant.micros_inj, eq_comm]
  have hoperator := h.operator
  unfold HoldsAt
  cases hop : c.operator with
  | equals =>
    rw [holds_equals hhas hop, ← not_iff_not]
    push Not
    exact hnone
  | differs =>
    rw [holds_differs hhas hop, hnone]
    exact and_iff_right nofun
  | atLeast =>
    obtain ⟨j, rfl, hholds⟩ := hjs.holds_ordered (.inl hop)
    rw [hjs.forall_values_iff fun o => ∃ j, o = some j ∧ j ≤ i, List.forall_mem_singleton, hholds,
      ColumnType.order_instant hi (hjs.bound j (List.mem_singleton_self j)), if_pos hop]
    simp [Cell.fits_ge_iff, Cell.orderOf_ne_lt_iff, Instant.le_iff]
  | atMost =>
    obtain ⟨j, rfl, hholds⟩ := hjs.holds_ordered (.inr hop)
    rw [hjs.forall_values_iff fun o => ∃ j, o = some j ∧ i ≤ j, List.forall_mem_singleton, hholds,
      ColumnType.order_instant hi (hjs.bound j (List.mem_singleton_self j)),
      if_neg (by rw [hop]; decide)]
    simp [Cell.fits_le_iff, Cell.orderOf_ne_gt_iff, Instant.le_iff]
  | _ =>
    rw [hop] at hoperator
    cases hoperator

/-- It says nothing of an attribute without a value. -/
theorem not_holds_settled_null : ¬(c.settled clock).Holds .instant .null := by
  have hhas := hjs.has_settled
  have hnone : ∀ v o, ColumnType.instant.order .null v ≠ some o := fun _ _ => nofun
  intro hholds
  have hoperator := h.operator
  cases hop : c.operator with
  | equals =>
    obtain ⟨v, -, hv⟩ := (holds_equals hhas hop _).mp hholds
    exact hnone v _ hv
  | differs => exact ((holds_differs hhas hop _).mp hholds).1 rfl
  | atLeast | atMost =>
    obtain ⟨j, -, hordered⟩ := hjs.holds_ordered (by simp [hop])
    obtain ⟨o, ho, -⟩ := (hordered _).mp hholds
    exact hnone _ o ho
  | _ =>
    rw [hop] at hoperator
    cases hoperator

/-- It says of an instant what the condition says of it, and nothing else. -/
theorem holds_settled {x : Cell} (hx : ColumnType.instant.Takes x) :
    (c.settled clock).Holds .instant (x.toScalar .instant) ↔
      ∃ m i, x.toScalar .instant = .moment m ∧ m.instant? = some i ∧ c.HoldsAt clock i := by
  cases x with
  | null =>
    refine ⟨fun hholds => ?_, fun ⟨m, i, hm, _⟩ => nomatch hm⟩
    change (c.settled clock).Holds .instant .null at hholds
    exact absurd hholds (hjs.not_holds_settled_null h)
  | instant i =>
    have hinstant := Moment.instant?_of_toInstant (Instant.toInstant_moment hx)
    change (c.settled clock).Holds .instant (.moment i.moment) ↔ _
    rw [hjs.holds_settled_moment h hx]
    constructor
    · exact fun hholds => ⟨_, i, rfl, hinstant, hholds⟩
    · rintro ⟨m, j, hm, hj, hholds⟩
      cases hm
      rwa [Option.some.inj (hinstant.symm.trans hj)]
  | _ => exact hx.elim

end Denotes

/-- With the instants in place of its values, the condition becomes what it became before. -/
theorem AsksTime.exists_predicates (htaken : ∀ v ∈ c.values, v.IsTaken) (table : String)
    (n : Nat) : ∃ p p', c.predicate table clock n = .ok p ∧
      (c.settled clock).predicate table clock n = .ok p' ∧ p.isComparison = true ∧
      ∀ scope d, p'.compile scope = .ok d → p.compile scope = .ok d := by
  obtain ⟨ss, hss, hall⟩ := h.exists_comparesWith
  obtain ⟨js, hjs, hutc⟩ := h.exists_instants htaken hall
  have hss' := hjs.comparesWith_settled h
  have hutc' : (js.map fun j => Scalar.moment j.moment).mapM Clause.inUtc =
      .ok (js.map fun j => .moment j.moment) := mapM_map_eq_ok fun j hj => by
    rw [Clause.inUtc, Instant.toInstant_moment (hjs.bound j hj)]
    rfl
  refine ⟨_, _, hss.predicate_eq table n, hss'.predicate_eq table n, isComparison_comparison _ _ _,
    fun scope d hd => ?_⟩
  obtain ⟨col, vs, hcol, hvs, rfl⟩ := (compile_comparison_iff _ _ _ hss'.given).mp hd
  cases hutc'.symm.trans hvs
  exact (compile_comparison_iff _ _ _ hss.given).mpr ⟨col, _, hcol, hutc, rfl⟩

end Condition

/-! ## Filters on times -/

namespace Filter

/-- The filter with the instants that the values of its conditions denote. -/
def settled (clock : Instant) (f : Filter) : Filter where
  name := f.name
  kind := f.kind
  conditions := f.conditions.map (Condition.settled clock)
  known := List.forall_mem_map.mpr f.known

/-- All conditions hold for the instants of some attributes. -/
def HoldsAt (f : Filter) (clock : Instant) (attributes : List (String × Value)) : Prop :=
  ∀ c ∈ f.conditions, ∃ m i, attributes.lookup c.field = some (.scalar (.moment m)) ∧
    m.instant? = some i ∧ c.HoldsAt clock i

section Times

variable {f : Filter} {clock : Instant} (hf : ∀ c ∈ f.conditions, c.AsksTime clock)
  (htaken : ∀ c ∈ f.conditions, ∀ v ∈ c.values, v.IsTaken)

include hf htaken

theorem isTyped_settled : (f.settled clock).IsTyped := by
  refine List.forall_mem_map.mpr fun c hc => ?_
  have hknown := f.known c hc
  obtain ⟨ss, -, hall⟩ := (hf c hc).exists_comparesWith
  obtain ⟨js, hjs, -⟩ := (hf c hc).exists_instants (htaken c hc) hall
  change (c.settled clock).IsTyped (f.kind.columnOf c.field).type
  rw [(hf c hc).type_eq hknown]
  exact hjs.isTyped_settled (hf c hc)

theorem exists_predicates_settled {ps' : List Predicate}
    (hps' : (f.settled clock).predicates clock = .ok ps') : ∃ ps, f.predicates clock = .ok ps ∧
      (∀ p ∈ ps, p.isComparison = true) ∧
      ∀ scope ds, Predicate.compileAll scope ps' = .ok ds →
        Predicate.compileAll scope ps = .ok ds := by
  have hall : ∀ c ∈ f.conditions, ∀ n, _ := fun c hc n =>
    (hf c hc).exists_predicates (htaken c hc) f.kind.table.name n
  change predicatesFrom f.kind.table.name clock 0 (f.conditions.map (Condition.settled clock)) = _
    at hps'
  unfold predicates
  generalize 0 = n at hps'
  generalize f.conditions = cs at hps' hall
  induction cs generalizing n ps' with
  | nil =>
    cases hps'
    exact ⟨[], rfl, List.forall_mem_nil _, fun _ _ => id⟩
  | cons c cs ih =>
    obtain ⟨hc, hcs⟩ := List.forall_mem_cons.mp hall
    obtain ⟨p, p', hp, hp', hcomparison, hsame⟩ := hc n
    obtain ⟨q, hq, hps'⟩ := bind_eq_ok_iff.mp hps'
    obtain ⟨qs, hqs, hps'⟩ := bind_eq_ok_iff.mp hps'
    cases hps'
    obtain rfl := Except.ok.inj (hp'.symm.trans hq)
    obtain ⟨ps, hps, hcomparisons, hsames⟩ := ih (n + 1) hqs hcs
    refine ⟨p :: ps, bind_eq_ok_iff.mpr ⟨p, hp, bind_eq_ok_iff.mpr ⟨ps, hps, rfl⟩⟩,
      List.forall_mem_cons.mpr ⟨hcomparison, hcomparisons⟩, fun scope ds hds => ?_⟩
    obtain ⟨d, ds', hd, hds', rfl⟩ := Predicate.compileAll_cons hds
    rw [Predicate.compileAll]
    exact bind_eq_ok_iff.mpr ⟨d, hsame scope d hd, bind_eq_ok_iff.mpr
      ⟨ds', hsames scope ds' hds', rfl⟩⟩

/-- The conditions of the filter and those on instants hold for the same attributes. -/
theorem passes_settled_iff {db : Database} (h : Journal.Regular db) {live : Row}
    (hl : live ∈ db.tableRows f.kind.table) {i : Instant} {e : Entry}
    (he : Journal.entryAtIn db f.kind live.id i = some e) (hid : Cell.isStorable live.id = true) :
    (f.settled clock).Passes (Journal.attributesIn live e) ↔
      f.HoldsAt clock (Journal.attributesIn live e) := by
  refine List.forall_mem_map.trans (forall₂_congr fun c hc => ?_)
  have hknown := f.known c hc
  obtain ⟨hcolumn, hname⟩ := Kind.columnOf_spec hknown
  have htype := (hf c hc).type_eq hknown
  have htakes := h.takes_stateRow hl he hid hcolumn
  have hlookup := h.lookup_attributesIn hl he hcolumn
  rw [hname, htype] at htakes hlookup
  obtain ⟨ss, -, hall⟩ := (hf c hc).exists_comparesWith
  obtain ⟨js, hjs, -⟩ := (hf c hc).exists_instants (htaken c hc) hall
  have hholds := hjs.holds_settled (hf c hc) htakes
  change (∃ x, (Journal.attributesIn live e).lookup c.field = some (.scalar x) ∧
    (c.settled clock).Holds (f.kind.columnOf c.field).type x) ↔ _
  rw [htype, hlookup]
  simp only [Option.some.injEq, Value.scalar.injEq, exists_eq_left', hholds]

variable {ids : List Int} {timestamp : Value} {t : Timestamp} {moment : Option Moment} {i : Instant}
  {db : Database}

/-- If the store takes the values, the entities are answered for which all conditions hold. -/
theorem exists_found_times (hids : ∀ n ∈ ids, Cell.isStorable n = true)
    (ht : timestamp.toTimestamp = .ok t) (hi : t.resolveAt moment clock = .ok i)
    (hproper : ∀ u, timestamp = .timestamp u → u.IsProper) (hdb : Journal.Regular db) : ∃ found,
      (f.matching (ids.map .int) timestamp moment clock).answer db = .ok found ∧ found.Nodup ∧
      ∀ s, s ∈ found ↔ ∃ n ∈ ids, s = .int n ∧ ∃ live ∈ db.tableRows f.kind.table, live.id = n ∧
        ∃ e, (Journal.entryAt f.kind n timestamp moment clock).answer db = .ok (some e) ∧
          f.HoldsAt clock (Journal.attributesIn live e) := by
  have hbound := EntityView.resolveAt_lt (Value.isProper_toTimestamp ht hproper) hi
  obtain ⟨ps', ds, hps', -, hds', hfrom, hto⟩ :=
    (f.settled clock).exists_clauses (isTyped_settled hf htaken) clock
  obtain ⟨ps, hps, hcomparisons, hsame⟩ := exists_predicates_settled hf htaken hps'
  obtain ⟨q, hq, hlists⟩ := exists_lists hids ht hi hbound hfrom hto hdb hcomparisons
    (hsame _ _ hds')
  have hholds : f.Lists q db i ids fun live e => f.HoldsAt clock (Journal.attributesIn live e) :=
    hlists.congr fun live hl e he hid => passes_settled_iff hf htaken hdb hl he (hids _ hid)
  exact exists_found hids ht hi hps hq hholds

omit htaken in
/-- If a filter on times is answered, the store takes its values. -/
theorem isTaken_of_matching (hproper : ∀ u, timestamp = .timestamp u → u.IsProper)
    {found : List Scalar}
    (h : (f.matching (ids.map .int) timestamp moment clock).answer db = .ok found) :
    ∀ c ∈ f.conditions, ∀ v ∈ c.values, v.IsTaken := by
  intro c hc v hv
  obtain ⟨ss, hss, hall⟩ := (hf c hc).exists_comparesWith
  obtain ⟨vs, hvs, hcells⟩ := exists_cells_of_matching hproper h
    (fun c hc => (hf c hc).exists_comparesWith.imp fun _ => And.left) hc hss
  rw [(hf c hc).type_eq (f.known c hc)] at hcells
  obtain ⟨s, hs, hread⟩ : ∃ s ∈ ss, v.ReadAt clock s := by
    have hvalues := hss.read
    rw [Condition.comparedValues, if_pos (List.contains_iff_mem.mpr (hf c hc).field)] at hvalues
    obtain ⟨w, hw, hread⟩ := exists_mem_of_mapM hvalues hv
    obtain ⟨s, hs, rfl⟩ := List.mem_map.mp hw
    exact ⟨s, hs, hread, hss.given s hs⟩
  obtain ⟨u, hu, hutc⟩ := exists_mem_of_mapM hvs hs
  obtain ⟨y, hy⟩ := hcells u hu
  exact ((hf c hc).points v hv).isTaken_of_cell hread hutc hy

end Times

/-- A filter on times is answered if its timestamp denotes an instant, the store has room for all
numbers, and it takes all values of the conditions.  Then it lets pass exactly those of the entities
that have a live row and an entry at the timestamp, and whose times then lie to the instants of the
values as the conditions say. -/
theorem times_iff {f : Filter} {clock : Instant} (hf : ∀ c ∈ f.conditions, c.AsksTime clock)
    {timestamp : Value} (hproper : ∀ u, timestamp = .timestamp u → u.IsProper) (ids : List Int)
    (moment : Option Moment) {db : Database} (hdb : db.Reached) :
    ((∃ found, (f.matching (ids.map .int) timestamp moment clock).answer db = .ok found) ↔
      (∃ t i, timestamp.toTimestamp = .ok t ∧ t.resolveAt moment clock = .ok i) ∧
      (∀ n ∈ ids, Cell.isStorable n = true) ∧
      ∀ c ∈ f.conditions, ∀ v ∈ c.values, v.IsTaken) ∧
    ∀ found, (f.matching (ids.map .int) timestamp moment clock).answer db = .ok found →
      found.Nodup ∧ ∀ s, s ∈ found ↔ ∃ n ∈ ids, s = .int n ∧
        ∃ live ∈ db.tableRows f.kind.table, live.id = n ∧
          ∃ e, (Journal.entryAt f.kind n timestamp moment clock).answer db = .ok (some e) ∧
            f.HoldsAt clock (Journal.attributesIn live e) := by
  have hneeds : ∀ {found}, (f.matching (ids.map .int) timestamp moment clock).answer db =
      .ok found → (∃ t i, timestamp.toTimestamp = .ok t ∧ t.resolveAt moment clock = .ok i) ∧
        (∀ n ∈ ids, Cell.isStorable n = true) ∧ ∀ c ∈ f.conditions, ∀ v ∈ c.values, v.IsTaken :=
    fun h =>
      ⟨exists_instant_of_matching h, storable_of_matching h, isTaken_of_matching hf hproper h⟩
  refine ⟨⟨fun ⟨found, h⟩ => hneeds h, ?_⟩, fun found h => ?_⟩
  · rintro ⟨⟨t, i, ht, hi⟩, hids, htaken⟩
    obtain ⟨found, hfound, -⟩ := exists_found_times hf htaken hids ht hi hproper hdb.regular
    exact ⟨found, hfound⟩
  · obtain ⟨⟨t, i, ht, hi⟩, hids, htaken⟩ := hneeds h
    obtain ⟨found', hfound, hspec⟩ := exists_found_times hf htaken hids ht hi hproper hdb.regular
    rwa [Except.ok.inj (h.symm.trans hfound)]

/-- Work packages that have changed since a point in time. -/
def changedSince (v : Value) : Filter :=
  ⟨"changed", .workPackage, [⟨"updated_at", .atLeast, [v], rfl⟩],
    List.forall_mem_singleton.mpr (by decide : Kind.workPackage.hasAttribute "updated_at" = true)⟩

/-- A day and its noon, on a clock of unknown offset. -/
def firstOfMay : Date := (Journal.noon 0).date

def noonOfFirstMay : Moment := { Journal.noon 0 with offset := none }

theorem times_iff_changed :
    ((changedSince (.moment noonOfFirstMay)).matching ([1].map .int)
      (.timestamp (.absolute noonInUtc)) none Journal.firstDay.instant).answer staffed =
        .ok [.int 1] ∧
    ¬∃ found, ((changedSince (.scalar (.date firstOfMay))).matching ([1].map .int)
      (.timestamp (.absolute noonInUtc)) none Journal.firstDay.instant).answer staffed =
        .ok found := by
  have hasks : ∀ v : Value, v.IsPoint Journal.firstDay.instant →
      ∀ c ∈ (changedSince v).conditions, c.AsksTime Journal.firstDay.instant := fun v hv =>
    List.forall_mem_singleton.mpr ⟨(by decide : "updated_at" ∈ Condition.timeFields), rfl,
      List.forall_mem_singleton.mpr hv⟩
  have hiff := fun v hv =>
    times_iff (hasks v hv) isProper_noonInUtc [1] none (⟨_, rfl⟩ : staffed.Reached)
  have hshown : ∀ live ∈ staffed.tableRows Kind.workPackage.table,
      (Journal.entryAtIn staffed .workPackage 1 noonInUtc).map (fun e =>
        ((Journal.attributesIn live e).lookup "updated_at").bind Value.toScalar?) =
        some (some (.moment noonInUtc.moment)) := by decide +kernel
  obtain ⟨hanswered, hfound⟩ := hiff (.moment noonOfFirstMay) (.moment noonOfFirstMay)
  constructor
  · obtain ⟨found, h⟩ := hanswered.mpr ⟨⟨_, _, rfl, rfl⟩, by decide,
      List.forall_mem_singleton.mpr (List.forall_mem_singleton.mpr (.inl rfl))⟩
    obtain ⟨hnodup, hmem⟩ := hfound found h
    have hone : .int 1 ∈ found := by
      obtain ⟨live, hl, hid⟩ := List.mem_map.mp (ids_staffed ▸ List.mem_singleton_self 1)
      obtain ⟨e, he, hupdated⟩ := Option.map_eq_some_iff.mp (hshown live hl)
      obtain ⟨w, hw, hscalar⟩ := Option.bind_eq_some_iff.mp hupdated
      refine (hmem _).mpr ⟨1, List.mem_singleton_self 1, rfl, live, hl, hid, e,
        Journal.answer_entryAt_eq_ok_iff.mpr ⟨_, _, rfl, rfl, by decide, he⟩,
        List.forall_mem_singleton.mpr ⟨noonInUtc.moment, noonInUtc, ?_, by decide +kernel,
          List.forall_mem_singleton.mpr ⟨noonInUtc, by decide +kernel, by decide⟩⟩⟩
      cases w <;> cases hscalar
      exact hw
    have hall : ∀ s ∈ found, s = .int 1 := by
      intro s hs
      obtain ⟨n, hn, rfl, -⟩ := (hmem s).mp hs
      rw [List.mem_singleton.mp hn]
    rw [h, eq_singleton_of_nodup hnodup fun s => ⟨hall s, fun hs => hs ▸ hone⟩]
  · rintro hdate
    obtain ⟨-, -, htaken⟩ := (hiff _ (.date firstOfMay)).1.mp hdate
    exact htaken _ (List.mem_singleton_self _) _ (List.mem_singleton_self _)

end Filter

end Chronicle
