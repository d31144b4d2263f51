import Chronicle.Proofs.AsOf.Compiles
import Chronicle.Proofs.Filter.Present
import Chronicle.Proofs.Timestamp.Key

/-!
# What conditions mean

A condition with values of the type of its attribute says what its operator says: a value is equal to
one of several others or to none, lies on one side of another, is there or is missing.

* `ColumnType.order`: how the value of an attribute and another one are ordered;
* `Condition.Holds`: what a condition says of the value of its attribute;
* `Clause.Compares`: conditions on one column that the store takes;
* `Condition.exists_clause`: what a condition becomes in a query on the live table.
-/

namespace Chronicle

open Chronicle.Calendar Chronicle.Decimal

/-! ## Values of a type -/

namespace Value

/-- The point in time that a moment denotes, or a text for one. -/
def instant? : Value → Option Instant
  | .scalar (.moment m) => m.instant?
  | .scalar (.text s) =>
    match Timestamp.read s with
    | .ok (.absolute i) => some i
    | _ => none
  | _ => none

end Value

namespace ColumnType

/-- How the value of an attribute and another value are ordered, if the two can be compared: texts by
their characters, points in time by what comes first, and a text in a column of numbers behind all
numbers. -/
def order : ColumnType → Scalar → Value → Option Ordering
  | .text, .text a, .scalar (.text b) => some (Cell.orderOf a b)
  | .integer, .int a, .scalar (.int b) => some (Cell.orderOf a b)
  | .integer, .float x, .scalar (.int b) => x.compareInt? b
  | .integer, .text _, .scalar (.int _) => some .gt
  | .boolean, .bool a, .scalar (.bool b) => some (Cell.orderOf (Scalar.ofBool a) (Scalar.ofBool b))
  | .instant, .moment m, v =>
    m.instant?.bind fun i => v.instant?.map fun j => Cell.orderOf i.micros j.micros
  | _, _, _ => none

/-- The values of a type: whole numbers that the store has room for, and for points in time moments
with an offset, or texts, that lie within the calendar. -/
inductive Has : ColumnType → Value → Prop
  | text (s : String) : Has .text (.text s)
  | int {i : Int} (h : Cell.isStorable i = true) : Has .integer (.int i)
  | bool (b : Bool) : Has .boolean (.bool b)
  | moment {m : Moment} {i : Instant} (h : m.toStored = .ok i) : Has .instant (.moment m)
  | read {s : String} {i : Instant} (h : Timestamp.read s = .ok (.absolute i)) :
    Has .instant (.text s)

/-- What a value is compared as: a point in time by what a clock in UTC shows, all others as they
are. -/
def meant (type : ColumnType) (v : Value) : Scalar :=
  match type, v.instant?, v with
  | .instant, some i, _ => .moment i.moment
  | _, _, .scalar s => s
  | _, _, _ => .null

end ColumnType

namespace Condition

/-- The values of a condition have the type of its attribute; nothing is asked for only by itself and
for equality, and truth values are not ordered. -/
def IsTyped (c : Condition) (type : ColumnType) : Prop :=
  match c.operator with
  | .equals | .differs => c.values = [.null] ∨ ∀ v ∈ c.values, type.Has v
  | .atLeast | .atMost => type ≠ .boolean ∧ ∀ v ∈ c.values, type.Has v
  | .isPresent | .isMissing => True
  | .contains | .lacks => False

/-- What a condition says of the value of its attribute. -/
def Holds (c : Condition) (type : ColumnType) (x : Scalar) : Prop :=
  match c.operator, c.values with
  | .isMissing, _ | .equals, [.scalar .null] => x = .null
  | .isPresent, _ | .differs, [.scalar .null] => x ≠ .null
  | .equals, vs => ∃ v ∈ vs, type.order x v = some .eq
  | .differs, vs => x ≠ .null ∧ ∀ v ∈ vs, type.order x v ≠ some .eq
  | .atLeast, vs => ∀ v ∈ vs, ∃ o, type.order x v = some o ∧ o ≠ .lt
  | .atMost, vs => ∀ v ∈ vs, ∃ o, type.order x v = some o ∧ o ≠ .gt
  | .contains, _ | .lacks, _ => False

end Condition

/-! ## Values in comparisons -/

theorem Calendar.Moment.instant?_of_toInstant {m : Moment} {i : Instant} (h : m.toInstant = .ok i) :
    m.instant? = some i := by
  unfold Moment.toInstant at h
  cases hm : m.instant? with
  | none =>
    rw [hm] at h
    cases h
  | some j =>
    rw [hm] at h
    exact congrArg some (Except.ok.inj h)

theorem Calendar.Moment.toInstant_of_toStored {m : Moment} {i : Instant} (h : m.toStored = .ok i) :
    m.toInstant = .ok i := by
  unfold Moment.toStored at h
  split at h
  · cases h
  · exact h

namespace ColumnType

/-- A value in a comparison with a column: how it is bound, to which cell, and how the cells of the
column compare with this one. -/
structure BoundTo (type : ColumnType) (v : Value) (y : Cell) : Prop where
  way : Binding.ofColumn type (type.meant v) = Binding.intoColumn type
  cell : (Binding.intoColumn type).bind (.scalar (type.meant v)) = .cell y
  isNull : y.isNull = false
  holds : ∀ {x : Cell}, type.Takes x → ∀ op, x.holds op type.affinity y .none =
    (type.order (x.toScalar type) v).map (Cell.fits op)

theorem bound_text (s : String) : BoundTo .text (.text s) (.text s) where
  way := rfl
  cell := rfl
  isNull := rfl
  holds {x} hx op := by
    cases x with
    | null => rfl
    | text a => simp [Cell.holds, Cell.isNull, Cell.under, Cell.compare, Cell.rank, Cell.asText,
        Cell.shared, affinity, order, Cell.toScalar, Value.text]
    | _ => exact hx.elim

theorem compareInt?_of_ne_nan {x : Binary64} (h : x ≠ .nan) (i : Int) :
    ∃ o, x.compareInt? i = some o := by
  cases x with
  | nan => exact absurd rfl h
  | infinite s => cases s <;> exact ⟨_, rfl⟩
  | finite s a => exact ⟨_, rfl⟩

theorem bound_int {i : Int} (hi : Cell.isStorable i = true) :
    BoundTo .integer (.int i) (.int i) where
  way := rfl
  cell := if_pos hi
  isNull := rfl
  holds {x} hx op := by
    have hshared : Cell.shared .numeric .none = .numeric := rfl
    have hunder : (Cell.int i).under .numeric = .int i := rfl
    cases x with
    | null => rfl
    | int a => rfl
    | real x =>
      obtain ⟨o, ho⟩ := compareInt?_of_ne_nan hx.1 i
      have hreal : (Cell.real x).under .numeric = .real x := hx.2
      simp only [Cell.holds, Cell.isNull, Bool.or_self, Bool.false_eq_true, if_false, affinity,
        hshared, hunder, hreal, Cell.compare, ho, Option.getD_some, order, Cell.toScalar,
        reduceCtorEq, Value.int, Option.map_some]
    | text s =>
      have htext : (Cell.text s).under .numeric = .text s := hx
      simp only [Cell.holds, Cell.isNull, Bool.or_self, Bool.false_eq_true, if_false, affinity,
        hshared, hunder, htext, order, Cell.toScalar, Value.int, Option.map_some]
      rfl
    | instant j => exact hx.elim

theorem bound_bool (b : Bool) : BoundTo .boolean (.bool b) (.int (Scalar.ofBool b)) where
  way := rfl
  cell := rfl
  isNull := rfl
  holds {x} hx op := by
    cases x with
    | null => rfl
    | int i => rcases hx with rfl | rfl <;> rfl
    | _ => exact hx.elim

theorem bound_instant {v : Value} {i : Instant} (hv : v.instant? = some i)
    (hi : i.micros < Instant.bound) : BoundTo .instant v (.instant i) where
  way := rfl
  cell := by
    have hmeant : meant .instant v = .moment i.moment := by
      unfold meant
      rw [hv]
    rw [hmeant]
    change Binding.bindInstant (.scalar (.moment i.moment)) = _
    rw [Binding.bindInstant, Instant.toStored_moment hi]
  isNull := rfl
  holds {x} hx op := by
    cases x with
    | null => rfl
    | instant j =>
      have hj := Moment.instant?_of_toInstant (Instant.toInstant_moment hx)
      have horder : order .instant ((Cell.instant j).toScalar .instant) v =
          some (Cell.orderOf j.micros i.micros) := by
        change (j.moment.instant?.bind fun k => v.instant?.map fun l =>
          Cell.orderOf k.micros l.micros) = _
        rw [hj, hv]
        rfl
      rw [horder]
      rfl
    | _ => exact hx.elim

/-- Points in time of a type lie within the calendar. -/
theorem Has.instant_spec {v : Value} (h : Has .instant v) :
    ∃ i, v.instant? = some i ∧ i.micros < Instant.bound := by
  cases h with
  | moment h => exact ⟨_, Moment.instant?_of_toInstant (Moment.toInstant_of_toStored h),
      Moment.toStored_lt h⟩
  | @read s i h =>
    refine ⟨i, ?_, Timestamp.isProper_read h⟩
    change (match Timestamp.read s with
      | .ok (.absolute i) => some i
      | _ => none) = _
    rw [h]

theorem Has.exists_bound {type : ColumnType} {v : Value} (h : type.Has v) :
    ∃ y, type.BoundTo v y := by
  cases type with
  | text => cases h; exact ⟨_, bound_text _⟩
  | integer => cases h with | int hi => exact ⟨_, bound_int hi⟩
  | boolean => cases h; exact ⟨_, bound_bool _⟩
  | instant =>
    obtain ⟨i, hv, hi⟩ := h.instant_spec
    exact ⟨_, bound_instant hv hi⟩

/-- The value of an attribute can be compared with values of its type unless it is missing. -/
theorem Has.isSome_order {type : ColumnType} {v : Value} (h : type.Has v) {x : Cell}
    (hx : type.Takes x) : (type.order (x.toScalar type) v).isSome = !x.isNull := by
  obtain ⟨y, hy⟩ := h.exists_bound
  have hholds := congrArg Option.isSome (hy.holds hx .eq)
  rw [Option.isSome_map] at hholds
  rw [← hholds, Cell.holds, hy.isNull, Bool.or_false]
  cases x.isNull <;> rfl

theorem Has.order_cases {type : ColumnType} {v : Value} (h : type.Has v) {x : Cell}
    (hx : type.Takes x) : x.isNull = true ∧ type.order (x.toScalar type) v = none ∨
      x.isNull = false ∧ ∃ o, type.order (x.toScalar type) v = some o := by
  have hsome := h.isSome_order hx
  cases hnull : x.isNull with
  | true => exact .inl ⟨rfl, by rwa [hnull, Bool.not_true, Option.isSome_eq_false_iff,
      Option.isNone_iff_eq_none] at hsome⟩
  | false => exact .inr ⟨rfl, Option.isSome_iff_exists.mp (by rw [hsome, hnull, Bool.not_false])⟩

end ColumnType

/-! ## Values on their way into a statement -/

/-- A value of a type is a single value when its condition is read, and what is meant by it in UTC. -/
structure ColumnType.ReadAs (type : ColumnType) (clock : Instant) (v : Value) (s : Scalar) : Prop where
  read : (if type = .instant then Condition.timeValue clock v else .ok v) = .ok (.scalar s)
  utc : Clause.inUtc s = .ok (type.meant v)
  isNull : s ≠ .null
  bool : ∀ b, s = .bool b → type = .boolean ∧ v = .bool b

theorem ColumnType.Has.exists_readAs {type : ColumnType} {v : Value} (h : type.Has v)
    (clock : Instant) : ∃ s, type.ReadAs clock v s := by
  have hinstant : ∀ {i}, v.instant? = some i → instant.meant v = .moment i.moment := fun hv => by
    unfold meant
    rw [hv]
  cases h with
  | text s => exact ⟨.text s, rfl, rfl, nofun, nofun⟩
  | @int i hi => exact ⟨.int i, rfl, rfl, nofun, nofun⟩
  | bool b =>
    refine ⟨.bool b, rfl, rfl, nofun, fun c hc => ?_⟩
    cases hc
    exact ⟨rfl, rfl⟩
  | @moment m i h =>
    have hm := Moment.toInstant_of_toStored h
    refine ⟨.moment m, rfl, ?_, nofun, nofun⟩
    rw [hinstant (Moment.instant?_of_toInstant hm), Clause.inUtc, hm]
    rfl
  | @read s i h =>
    have hi : i.micros < Instant.bound := Timestamp.isProper_read h
    obtain ⟨j, hj, -⟩ := (Has.read h).instant_spec
    have hread : Value.instant? (.text s) = some i := by
      change (match Timestamp.read s with
        | .ok (.absolute i) => some i
        | _ => none) = _
      rw [h]
    refine ⟨.moment i.moment, ?_, ?_, nofun, nofun⟩
    · rw [if_pos rfl, Value.text, Condition.timeValue_text, h]
      rfl
    · rw [hinstant hread, Clause.inUtc, Instant.toInstant_moment hi]
      rfl

namespace Condition

variable {c : Condition} {type : ColumnType}

/-- The values of a condition are read one by one. -/
theorem comparedValues_of_has (clock : Instant)
    (htime : timeFields.contains c.field = decide (type = .instant))
    (h : ∀ v ∈ c.values, type.Has v) : ∃ ss : List Scalar,
      c.comparedValues clock = .ok (ss.map .scalar) ∧
        List.Forall₂ (type.ReadAs clock) c.values ss := by
  have hread : c.comparedValues clock = c.values.mapM fun v =>
      if type = .instant then timeValue clock v else .ok v := by
    unfold comparedValues
    rw [htime]
    by_cases hinstant : type = .instant
    · rw [if_pos (decide_eq_true hinstant)]
      simp only [if_pos hinstant]
    · rw [if_neg (by simpa using hinstant)]
      simp only [if_neg hinstant]
      have hpure := List.mapM_pure (m := Except Failure) (l := c.values) (f := id)
      exact (hpure.trans (congrArg Except.ok (List.map_id _))).symm
  rw [hread]
  generalize c.values = vs at h
  induction vs with
  | nil => exact ⟨[], rfl, .nil⟩
  | cons v vs ih =>
    obtain ⟨hv, hvs⟩ := List.forall_mem_cons.mp h
    obtain ⟨s, hs⟩ := hv.exists_readAs clock
    obtain ⟨ss, hss, hall⟩ := ih hvs
    exact ⟨s :: ss, mapM_cons_eq_ok_iff.mpr ⟨_, _, hs.read, hss, rfl⟩, .cons hs hall⟩

end Condition

/-! ## Conditions in statements -/

/-- A condition that compares one column with values that the store takes. -/
inductive Clause.Compares (c : SourceColumn) : Clause → Prop
  | value (op : Relator) {s : Scalar} {y : Cell}
    (h : (Binding.ofColumn c.column.type s).bind (.scalar s) = .cell y) :
    Compares c (.compare op c (.value s))
  | truth (op : Relator) (b : Bool) : Compares c (.compare op c (.truth b))
  | missing (negated : Bool) : Compares c (.isNull c negated)
  | listed {vs : List Scalar} (negated : Bool)
    (h : ∀ b ∈ listedBounds c vs, ∃ y, b = .cell y) : Compares c (.amongValues c vs negated)

/-- A condition on a column that holds for the values with a property. -/
structure Clause.Tells (c : SourceColumn) (p : Scalar → Prop) (d : Clause) : Prop where
  compares : d.Compares c
  truth : ∀ db env, c.column.type.Takes (c.cell env) →
    (d.truth db env = some true ↔ p ((c.cell env).toScalar c.column.type))

theorem Truth.any_eq_false_iff (ts : List Truth) : any ts = some false ↔ ∀ t ∈ ts, t = some false := by
  induction ts with
  | nil => simp [any]
  | cons t ts ih =>
    have hany : any (t :: ts) = or t (any ts) := rfl
    rw [hany, List.forall_mem_cons, ← ih]
    rcases t with _ | _ | _ <;> rcases any ts with _ | _ | _ <;> simp [or]

namespace Cell

theorem toScalar_eq_null_iff (x : Cell) (t : ColumnType) :
    x.toScalar t = .null ↔ x.isNull = true := by
  cases x with
  | int i | real x =>
    rw [toScalar]
    split <;> simp [isNull]
  | _ => simp [toScalar, isNull]

theorem fits_eq_iff (o : Ordering) : fits .eq o = true ↔ o = .eq := beq_iff_eq

theorem fits_ne_iff (o : Ordering) : fits .ne o = true ↔ o ≠ .eq := bne_iff_ne

theorem fits_ge_iff (o : Ordering) : fits .ge o = true ↔ o ≠ .lt := bne_iff_ne

theorem fits_le_iff (o : Ordering) : fits .le o = true ↔ o ≠ .gt := bne_iff_ne

end Cell

/-- Only a value that is there differs from another one. -/
theorem ColumnType.Has.map_fits_eq_some_false_iff {type : ColumnType} {v : Value} (h : type.Has v)
    {x : Cell} (hx : type.Takes x) :
    (type.order (x.toScalar type) v).map (Cell.fits .eq) = some false ↔
      x.toScalar type ≠ .null ∧ type.order (x.toScalar type) v ≠ some .eq := by
  rw [ne_eq, Cell.toScalar_eq_null_iff]
  obtain ⟨hnull, ho⟩ | ⟨hnull, o, ho⟩ := h.order_cases hx
  · simp [hnull, ho]
  · cases o <;> simp [Cell.fits, hnull, ho]

namespace Clause

variable {c : SourceColumn} {v : Value} {s : Scalar} {clock : Instant}

theorem tells_isNull (c : SourceColumn) : (isNull c false).Tells c (· = .null) where
  compares := .missing false
  truth db env _ := by
    rw [Clause.truth, Option.some.injEq, Bool.bne_false, Cell.toScalar_eq_null_iff]

theorem tells_isPresent (c : SourceColumn) : (isNull c true).Tells c (· ≠ .null) where
  compares := .missing true
  truth db env _ := by
    rw [Clause.truth, Option.some.injEq, Bool.bne_true, Bool.not_eq_true', ne_eq,
      Cell.toScalar_eq_null_iff, Bool.not_eq_true]

/-- The comparison of a column with a value, in the form in which the value is written. -/
theorem tells_compare {type : ColumnType} (hc : c.column.type = type) {y : Cell}
    (hy : type.BoundTo v y) (op : Relator) {t : Term} (haffinity : t.affinity = .none)
    (ht : ∀ env, t.cell env c = y) (hcompares : Compares c (.compare op c t)) :
    (compare op c t).Tells c fun x => ∃ o, type.order x v = some o ∧ Cell.fits op o = true where
  compares := hcompares
  truth db env hx := by
    subst hc
    have hholds := hy.holds hx op
    rw [Clause.truth, SourceColumn.affinity, ht, haffinity, hholds, Option.map_eq_some_iff]

/-- A comparison of a column with a value of its type. -/
theorem exists_tells {type : ColumnType} (hc : c.column.type = type) (hv : type.Has v)
    (hs : type.ReadAs clock v s) (op : Relator) :
    (∃ d, equation op c s = .ok d ∧
      d.Tells c fun x => ∃ o, type.order x v = some o ∧ Cell.fits op o = true) ∧
    (type ≠ .boolean → ∃ d, ordering op c s = .ok d ∧
      d.Tells c fun x => ∃ o, type.order x v = some o ∧ Cell.fits op o = true) := by
  obtain ⟨y, hy⟩ := hv.exists_bound
  have hbound : (Binding.ofColumn c.column.type (type.meant v)).bind (.scalar (type.meant v)) =
      .cell y := by
    rw [hc, hy.way]
    exact hy.cell
  have hvalue := tells_compare hc hy op (t := .value (type.meant v)) rfl
    (fun env => by rw [Term.cell, comparedCell, hbound]; rfl) (.value op hbound)
  have hmap : (inUtc s).map (fun s => compare op c (.value s)) =
      .ok (compare op c (.value (type.meant v))) := by
    rw [hs.utc]
    rfl
  cases s with
  | null => exact absurd rfl hs.isNull
  | bool b =>
    obtain ⟨rfl, rfl⟩ := hs.bool b rfl
    have hwrites : writesTruth c = true := by
      rw [writesTruth, hc]
      rfl
    refine ⟨⟨compare op c (.truth b), ?_, ?_⟩, fun hne => absurd rfl hne⟩
    · rw [equation, if_pos hwrites]
    · exact tells_compare hc (ColumnType.bound_bool b) op rfl (fun _ => rfl) (.truth op b)
  | _ => exact ⟨⟨_, hmap, hvalue⟩, fun _ => ⟨_, hmap, hvalue⟩⟩

/-- Values of a type are all bound in the same way. -/
theorem listedBounds_meant {type : ColumnType} (hc : c.column.type = type) {vs : List Value}
    (h : ∀ v ∈ vs, type.Has v) : listedBounds c (vs.map type.meant) =
      vs.map fun v => (Binding.intoColumn type).bind (.scalar (type.meant v)) := by
  cases vs with
  | nil => rfl
  | cons v vs =>
    obtain ⟨y, hy⟩ := (h v List.mem_cons_self).exists_bound
    have hway : Binding.ofColumn c.column.type (((v :: vs).map type.meant).headD .null) =
        Binding.intoColumn type := by
      rw [hc]
      exact hy.way
    rw [listedBounds, hway, List.map_map]
    rfl

/-- A column is compared with one value after the other. -/
theorem truths_listedBounds {vs : List Value} (h : ∀ v ∈ vs, c.column.type.Has v) {env : Env}
    (hx : c.column.type.Takes (c.cell env)) :
    (listedBounds c (vs.map c.column.type.meant)).map (fun b =>
        (c.cell env).holds .eq c.affinity b.toCell .none) =
      vs.map fun v =>
        (c.column.type.order ((c.cell env).toScalar c.column.type) v).map (Cell.fits .eq) := by
  rw [listedBounds_meant rfl h, List.map_map]
  refine List.map_congr_left fun v hv => ?_
  obtain ⟨y, hy⟩ := (h v hv).exists_bound
  rw [Function.comp, hy.cell, ← hy.holds hx, SourceColumn.affinity]
  rfl

/-- Of the values of its type a column has one or another, or none of them. -/
theorem tells_amongValues {type : ColumnType} (hc : c.column.type = type) {vs : List Value}
    (h : ∀ v ∈ vs, type.Has v) (hne : vs ≠ []) :
    (amongValues c (vs.map type.meant) false).Tells c
        (fun x => ∃ v ∈ vs, type.order x v = some .eq) ∧
      (amongValues c (vs.map type.meant) true).Tells c
        fun x => x ≠ .null ∧ ∀ v ∈ vs, type.order x v ≠ some .eq := by
  subst hc
  have hcells : ∀ b ∈ listedBounds c (vs.map c.column.type.meant), ∃ y, b = .cell y := by
    rw [listedBounds_meant rfl h, List.forall_mem_map]
    intro v hv
    obtain ⟨y, hy⟩ := (h v hv).exists_bound
    exact ⟨y, hy.cell⟩
  refine ⟨⟨.listed false hcells, fun db env hx => ?_⟩, ⟨.listed true hcells, fun db env hx => ?_⟩⟩
  · rw [Clause.truth, Expression.negateIf, if_neg Bool.false_ne_true, truths_listedBounds h hx,
      Truth.any_eq_true_iff]
    constructor
    · rintro ⟨t, ht, rfl⟩
      obtain ⟨v, hv, ht⟩ := List.mem_map.mp ht
      obtain ⟨o, ho, heq⟩ := Option.map_eq_some_iff.mp ht
      exact ⟨v, hv, (Cell.fits_eq_iff o).mp heq ▸ ho⟩
    · rintro ⟨v, hv, ho⟩
      refine ⟨_, List.mem_map_of_mem hv, ?_⟩
      rw [ho]
      rfl
  · have hnot : ∀ t : Truth, t.not = some true ↔ t = some false := by
      rintro (_ | _ | _) <;> simp [Truth.not]
    rw [Clause.truth, Expression.negateIf, if_pos rfl, truths_listedBounds h hx, hnot,
      Truth.any_eq_false_iff, List.forall_mem_map]
    constructor
    · -- a list that is not empty asks at least once, and an answer means that a value is there
      intro hall
      obtain ⟨v, hv⟩ := List.exists_mem_of_ne_nil vs hne
      have hdiffers := fun v hv => ((h v hv).map_fits_eq_some_false_iff hx).mp (hall v hv)
      exact ⟨(hdiffers v hv).1, fun v hv => (hdiffers v hv).2⟩
    · rintro ⟨hnull, hall⟩ v hv
      exact ((h v hv).map_fits_eq_some_false_iff hx).mpr ⟨hnull, hall v hv⟩

end Clause

/-! ## Conditions of filters -/

/-- A comparison of a column, without text and without other queries. -/
def Predicate.isComparison : Predicate → Bool
  | equality _ _ | notEqual _ _ | comparison _ _ _ | membership _ _ none _ => true
  | _ => false

/-- A condition in another form holds for the same values. -/
theorem Clause.Tells.congr {c : SourceColumn} {p q : Scalar → Prop} {d : Clause} (h : d.Tells c p)
    (hpq : ∀ x, p x ↔ q x) : d.Tells c q where
  compares := h.compares
  truth db env hx := (h.truth db env hx).trans (hpq _)

/-- A value of a type is there. -/
theorem ColumnType.Has.ne_null {type : ColumnType} {v : Value} (h : type.Has v) : v ≠ .null := by
  rintro rfl
  cases h

namespace Condition

variable {c : Condition} {type : ColumnType} (h : ∀ v ∈ c.values, type.Has v)

include h

theorem holds_equals (hop : c.operator = .equals) (x : Scalar) :
    c.Holds type x ↔ ∃ v ∈ c.values, type.order x v = some .eq := by
  have hne : c.values ≠ [.null] := fun hvalues =>
    (h _ (hvalues ▸ List.mem_singleton_self _)).ne_null rfl
  unfold Holds
  rw [hop]
  split <;> first | contradiction | rfl

theorem holds_differs (hop : c.operator = .differs) (x : Scalar) :
    c.Holds type x ↔ x ≠ .null ∧ ∀ v ∈ c.values, type.order x v ≠ some .eq := by
  have hne : c.values ≠ [.null] := fun hvalues =>
    (h _ (hvalues ▸ List.mem_singleton_self _)).ne_null rfl
  unfold Holds
  rw [hop]
  split <;> first | contradiction | rfl

omit h in
theorem holds_missing (hop : c.operator = .isMissing ∨ c.operator = .equals ∧ c.values = [.null])
    (x : Scalar) : c.Holds type x ↔ x = .null := by
  unfold Holds
  rcases hop with hop | ⟨hop, hvalues⟩
  · rw [hop]
  · rw [hop, hvalues]
    rfl

omit h in
theorem holds_present (hop : c.operator = .isPresent ∨ c.operator = .differs ∧ c.values = [.null])
    (x : Scalar) : c.Holds type x ↔ x ≠ .null := by
  unfold Holds
  rcases hop with hop | ⟨hop, hvalues⟩
  · rw [hop]
  · rw [hop, hvalues]
    rfl

omit h in
theorem holds_ordered (hop : c.operator = .atLeast ∨ c.operator = .atMost) {v : Value}
    (hv : c.values = [v]) (x : Scalar) : c.Holds type x ↔
      ∃ o, type.order x v = some o ∧
        Cell.fits (if c.operator = .atLeast then .ge else .le) o = true := by
  unfold Holds
  rcases hop with hop | hop <;> rw [hop, hv] <;>
    simp [Cell.fits_ge_iff, Cell.fits_le_iff]

omit h in
/-- What a condition becomes in a query on its table. -/
structure Becomes (c : Condition) (table : String) (scope : Scope) (col : SourceColumn)
    (clock : Instant) (n : Nat) (p : Predicate) (d : Clause) : Prop where
  predicate : c.predicate table clock n = .ok p
  isComparison : p.isComparison = true
  compile : p.compile scope = .ok d
  tells : d.Tells col (c.Holds col.column.type)

section Becomes

variable {table : String} {scope : Scope} {col : SourceColumn} {clock : Instant} {n : Nat}
  (hcol : scope.column ⟨table, c.field⟩ = .ok col)

omit h
include hcol

omit hcol in
theorem values_eq_nil (hop : c.operator = .isPresent ∨ c.operator = .isMissing) :
    c.values = [] := by
  have hfits := c.fits
  rcases hop with hop | hop <;> rw [hop] at hfits <;>
    exact List.length_eq_zero_iff.mp (beq_iff_eq.mp hfits)

omit hcol in
/-- Where nothing is compared with, nothing is read as a time. -/
theorem comparedValues_of_unvalued (clock : Instant) (hvalues : c.values = [] ∨ c.values = [.null]) :
    c.comparedValues clock = .ok c.values := by
  unfold comparedValues
  split
  · rcases hvalues with hvalues | hvalues <;> rw [hvalues] <;> rfl
  · rfl

/-- The question whether a value is missing. -/
theorem exists_becomes_missing
    (hop : c.operator = .isMissing ∨ c.operator = .equals ∧ c.values = [.null]) :
    ∃ p d, c.Becomes table scope col clock n p d := by
  have hread : c.comparedValues clock = .ok c.values := comparedValues_of_unvalued clock
    (hop.imp (fun hop => values_eq_nil (.inr hop)) And.right)
  refine ⟨.equality ⟨table, c.field⟩ (.value .null), .isNull col false,
    bind_eq_ok_iff.mpr ⟨_, hread, ?_⟩, rfl, ?_,
    (Clause.tells_isNull col).congr fun x => (holds_missing hop x).symm⟩
  · rcases hop with hop | ⟨hop, hvalues⟩
    · rw [hop]
      rfl
    · rw [hop, hvalues]
      rfl
  · rw [Predicate.compile]
    exact bind_eq_ok_iff.mpr ⟨_, hcol, rfl⟩

/-- The question whether a value is there. -/
theorem exists_becomes_present
    (hop : c.operator = .isPresent ∨ c.operator = .differs ∧ c.values = [.null]) :
    ∃ p d, c.Becomes table scope col clock n p d := by
  have hread : c.comparedValues clock = .ok c.values := comparedValues_of_unvalued clock
    (hop.imp (fun hop => values_eq_nil (.inl hop)) And.right)
  refine ⟨.notEqual ⟨table, c.field⟩ (.value .null), .isNull col true,
    bind_eq_ok_iff.mpr ⟨_, hread, ?_⟩, rfl, ?_,
    (Clause.tells_isPresent col).congr fun x => (holds_present hop x).symm⟩
  · rcases hop with hop | ⟨hop, hvalues⟩
    · rw [hop]
      rfl
    · rw [hop, hvalues]
      rfl
  · rw [Predicate.compile]
    exact bind_eq_ok_iff.mpr ⟨_, hcol, rfl⟩

/-- Equality with nothing, or its denial. -/
theorem exists_becomes_null (hop : c.operator = .equals ∨ c.operator = .differs)
    (hvalues : c.values = [.null]) : ∃ p d, c.Becomes table scope col clock n p d := by
  rcases hop with hop | hop
  · exact exists_becomes_missing hcol (.inr ⟨hop, hvalues⟩)
  · exact exists_becomes_present hcol (.inr ⟨hop, hvalues⟩)

variable (htime : timeFields.contains c.field = decide (col.column.type = .instant))
  (hv : ∀ v ∈ c.values, col.column.type.Has v)

include htime hv

omit hcol in
/-- A single value is read as one value. -/
theorem exists_readAs {v : Value} (hvalues : c.values = [v]) :
    ∃ s, c.comparedValues clock = .ok [.scalar s] ∧ col.column.type.ReadAs clock v s ∧
      col.column.type.Has v := by
  obtain ⟨ss, hread, hall⟩ := comparedValues_of_has clock htime hv
  rw [hvalues] at hall
  obtain ⟨s, rfl⟩ : ∃ s, ss = [s] := by
    cases hall with
    | cons hs hrest => exact ⟨_, by cases hrest; rfl⟩
  exact ⟨s, hread, (List.forall₂_cons.mp hall).1, hv v (hvalues ▸ List.mem_singleton_self v)⟩

/-- Equality with a single value, or its denial. -/
theorem exists_becomes_single {v : Value} (hvalues : c.values = [v])
    (hop : c.operator = .equals ∨ c.operator = .differs) :
    ∃ p d, c.Becomes table scope col clock n p d := by
  obtain ⟨s, hread, hs, hhas⟩ := exists_readAs htime hv hvalues
  rcases hop with hop | hop
  · obtain ⟨d, hd, htells⟩ := (Clause.exists_tells rfl hhas hs .eq).1
    refine ⟨.equality ⟨table, c.field⟩ (.value s), d, bind_eq_ok_iff.mpr ⟨_, hread, ?_⟩, rfl, ?_,
      htells.congr fun x => ?_⟩
    · rw [hop]
      rfl
    · rw [Predicate.compile]
      exact bind_eq_ok_iff.mpr ⟨_, hcol, hd⟩
    · rw [holds_equals hv hop, hvalues, List.exists_mem_cons_iff]
      simp [Cell.fits_eq_iff]
  · obtain ⟨d, hd, htells⟩ := (Clause.exists_tells rfl hhas hs .ne).1
    refine ⟨.notEqual ⟨table, c.field⟩ (.value s), d, bind_eq_ok_iff.mpr ⟨_, hread, ?_⟩, rfl, ?_, ?_⟩
    · rw [hop]
      rfl
    · rw [Predicate.compile]
      exact bind_eq_ok_iff.mpr ⟨_, hcol, hd⟩
    · -- where the attribute has no value there is no order, and the denial does not hold either
      refine ⟨htells.compares, fun db env hx => (htells.truth db env hx).trans ?_⟩
      rw [holds_differs hv hop, hvalues, List.forall_mem_singleton, ne_eq,
        Cell.toScalar_eq_null_iff]
      obtain ⟨hnull, ho⟩ | ⟨hnull, o, ho⟩ := hhas.order_cases hx
      · simp [hnull, ho]
      · simp [Cell.fits_ne_iff, hnull, ho]

/-- A comparison by order. -/
theorem exists_becomes_ordered {v : Value} (hvalues : c.values = [v])
    (hne : col.column.type ≠ .boolean) (hop : c.operator = .atLeast ∨ c.operator = .atMost) :
    ∃ p d, c.Becomes table scope col clock n p d := by
  obtain ⟨s, hread, hs, hhas⟩ := exists_readAs htime hv hvalues
  have hcompared : ∀ op d, Clause.ordering (Clause.comparator op) col s = .ok d →
      (Predicate.comparison ⟨table, c.field⟩ op (.value s)).compile scope = .ok d := by
    intro op d hd
    rw [Predicate.compile]
    exact bind_eq_ok_iff.mpr ⟨_, hcol, hd⟩
  rcases hop with hop | hop
  · obtain ⟨d, hd, htells⟩ := (Clause.exists_tells rfl hhas hs .ge).2 hne
    refine ⟨.comparison ⟨table, c.field⟩ .gte (.value s), d, bind_eq_ok_iff.mpr ⟨_, hread, ?_⟩,
      rfl, hcompared .gte d hd, htells.congr fun x => ?_⟩
    · rw [hop]
      rfl
    · rw [holds_ordered (.inl hop) hvalues, if_pos hop]
  · obtain ⟨d, hd, htells⟩ := (Clause.exists_tells rfl hhas hs .le).2 hne
    refine ⟨.comparison ⟨table, c.field⟩ .lte (.value s), d, bind_eq_ok_iff.mpr ⟨_, hread, ?_⟩,
      rfl, hcompared .lte d hd, htells.congr fun x => ?_⟩
    · rw [hop]
      rfl
    · rw [holds_ordered (.inr hop) hvalues, if_neg (by rw [hop]; decide)]

/-- A comparison with several values. -/
theorem exists_becomes_list (hlength : 1 < c.values.length)
    (hop : c.operator = .equals ∨ c.operator = .differs) :
    ∃ p d, c.Becomes table scope col clock n p d := by
  obtain ⟨ss, hread, hall⟩ := comparedValues_of_has clock htime hv
  have hsame : (ss.map Value.scalar).length = c.values.length := by
    rw [List.length_map, hall.length_eq]
  have hutc : ss.mapM Clause.inUtc = .ok (c.values.map col.column.type.meant) := by
    clear hread hsame hlength hop hv htime hcol
    generalize c.values = vs at hall
    induction hall with
    | nil => rfl
    | cons hs _ ih => exact mapM_cons_eq_ok_iff.mpr ⟨_, _, hs.utc, ih, rfl⟩
  have hne : c.values ≠ [] := fun hnil => by rw [hnil] at hlength; cases hlength
  have hmany : ((ss.map Value.scalar).length == 1) = false := by
    rw [hsame]
    exact beq_eq_false_iff_ne.mpr (by omega)
  have hcompile : ∀ negated, (Predicate.membership ⟨table, c.field⟩ ss none negated).compile scope =
      .ok (.amongValues col (c.values.map col.column.type.meant) negated) := by
    intro negated
    rw [Predicate.compile]
    exact bind_eq_ok_iff.mpr ⟨_, hcol, bind_eq_ok_iff.mpr ⟨_, hutc, rfl⟩⟩
  obtain ⟨hamong, hnone⟩ := Clause.tells_amongValues (c := col) rfl hv hne
  rcases hop with hop | hop
  · refine ⟨_, _, bind_eq_ok_iff.mpr ⟨_, hread, ?_⟩, rfl, hcompile false,
      hamong.congr fun x => (holds_equals hv hop x).symm⟩
    rw [hop]
    dsimp only
    rw [hmany, if_neg Bool.false_ne_true]
    exact Predicate.among_list_eq_ok_iff.mpr ⟨ss, rfl, rfl⟩
  · refine ⟨_, _, bind_eq_ok_iff.mpr ⟨_, hread, ?_⟩, rfl, hcompile true,
      hnone.congr fun x => (holds_differs hv hop x).symm⟩
    rw [hop]
    dsimp only
    rw [hmany, if_neg Bool.false_ne_true]
    exact Predicate.among_list_eq_ok_iff.mpr ⟨ss, rfl, rfl⟩

omit hv

/-- A condition with values of the type of its attribute holds for the rows of which it is true. -/
theorem exists_becomes (htyped : c.IsTyped col.column.type) :
    ∃ p d, c.Becomes table scope col clock n p d := by
  have hfits := c.fits
  unfold IsTyped at htyped
  cases hop : c.operator with
  | isPresent => exact exists_becomes_present hcol (.inl hop)
  | isMissing => exact exists_becomes_missing hcol (.inl hop)
  | contains | lacks =>
    rw [hop] at htyped
    exact htyped.elim
  | atLeast | atMost =>
    rw [hop] at htyped hfits
    obtain ⟨v, hvalues⟩ := List.length_eq_one_iff.mp (beq_iff_eq.mp hfits)
    exact exists_becomes_ordered hcol htime htyped.2 hvalues htyped.1 (by simp [hop])
  | equals | differs =>
    rw [hop] at htyped hfits
    rcases htyped with hnull | hv
    · exact exists_becomes_null hcol (by simp [hop]) hnull
    · have hpos : 0 < c.values.length := of_decide_eq_true hfits
      by_cases hone : c.values.length = 1
      · obtain ⟨v, hvalues⟩ := List.length_eq_one_iff.mp hone
        exact exists_becomes_single hcol htime hv hvalues (by simp [hop])
      · exact exists_becomes_list hcol htime hv (by omega) (by simp [hop])

end Becomes

end Condition

end Chronicle
