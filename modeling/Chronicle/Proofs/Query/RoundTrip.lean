import Chronicle.Proofs.AsOf.Answer
import Chronicle.Proofs.History.Rows
import Chronicle.Query.Proper

/-!
# Queries and their records

A query made of the parts of the language comes back from its record as it was: with the same
parts at the same places, and every value of the type that it had.

* `Query.isNative`: nothing foreign stands in the query, and the parameters of its texts are plain
  data;
* `Predicate.ofRecord_toRecord`, `Join.ofRecord_toRecord`, `Query.queryOfRecord_toRecord`: a reader
  that may go deep enough gives back what was written;
* `Query.isData_toRecord`: what is written is plain data, which agrees with itself;
* `Query.isNative_asOf`: as of a timestamp a query is still made of the parts of the language;
* `Query.survives_record`: all of this for whole queries and for what they become.
-/

namespace Chronicle

open Chronicle.Record Chronicle.Calendar

/-! ## Plain data -/

namespace Value

mutual

/-- Single values, and lists and records of such, with different names in each record. -/
def isData : Value → Bool
  | .scalar _ => true
  | .list items => areData items
  | .object fs => fieldsAreData fs && decide (fs.map Prod.fst).Nodup
  | _ => false

def areData : List Value → Bool
  | [] => true
  | v :: vs => isData v && areData vs

def fieldsAreData : List (String × Value) → Bool
  | [] => true
  | (_, v) :: fs => isData v && fieldsAreData fs

end

theorem areData_iff (vs : List Value) : areData vs = true ↔ ∀ v ∈ vs, v.isData = true := by
  induction vs with
  | nil => simp [areData]
  | cons v vs ih => simp [areData, ih]

theorem scalar_agrees_self (s : Scalar) : (scalar s).agrees (scalar s) = true := by
  rw [agrees, beq_self_eq_true, Bool.true_or]

mutual

/-- Plain data agrees with itself. -/
theorem agrees_self : ∀ v : Value, v.isData = true → v.agrees v = true
  | .scalar s, _ => scalar_agrees_self s
  | .list vs, h => by
    rw [agrees]
    exact agreeItems_self vs h
  | .object fs, h => by
    rw [isData, Bool.and_eq_true, decide_eq_true_eq] at h
    rw [agrees, beq_self_eq_true, Bool.true_and]
    exact agreeFields_self fs fs h.1 fun f hf => (lookup_eq_some_iff_mem h.2).mpr hf
  | .column _, h => by simp [isData] at h
  | .timestamp _, h => by simp [isData] at h

theorem agreeItems_self : ∀ vs : List Value, areData vs = true → agreeItems vs vs = true
  | [], _ => rfl
  | v :: vs, h => by
    rw [areData, Bool.and_eq_true] at h
    rw [agreeItems, agrees_self v h.1, agreeItems_self vs h.2, Bool.and_self]

theorem agreeFields_self : ∀ fs gs : List (String × Value), fieldsAreData fs = true →
    (∀ f ∈ fs, gs.lookup f.1 = some f.2) → agreeFields fs gs = true
  | [], _, _, _ => rfl
  | (name, v) :: fs, gs, h, hgs => by
    rw [fieldsAreData, Bool.and_eq_true] at h
    obtain ⟨hv, hfs⟩ := List.forall_mem_cons.mp hgs
    rw [agreeFields, hv, Option.elim_some, agrees_self v h.1, agreeFields_self fs gs h.2 hfs,
      Bool.and_self]

end

end Value

/-! ## Queries made of the parts of the language -/

namespace RawFragment

def isNative (r : RawFragment) : Bool := (Value.object r.params).isData

end RawFragment

namespace OrderTarget

def isNative : OrderTarget → Bool
  | column _ => true
  | raw r => r.isNative

end OrderTarget

namespace Limit

def isNative : Limit → Bool
  | foreign _ => false
  | _ => true

end Limit

mutual

def Predicate.isNative : Predicate → Bool
  | .membership _ _ (some q) _ => q.isNative
  | .raw r => r.isNative
  | .grouping ps _ => Predicate.areNative ps
  | .negation p => p.isNative
  | .existence q _ => q.isNative
  | .foreign _ => false
  | _ => true

def Predicate.areNative : List Predicate → Bool
  | [] => true
  | p :: ps => p.isNative && Predicate.areNative ps

def Join.isNative : Join → Bool
  | .table _ _ on _ => Predicate.areNative on
  | .asOf _ _ _ => true

def Join.areNative : List Join → Bool
  | [] => true
  | j :: js => j.isNative && Join.areNative js

/-- Made of the parts of the language alone. -/
def Query.isNative : Query → Bool
  | ⟨_, joins, conditions, projections, orders, limit, _, _⟩ =>
    Join.areNative joins && Predicate.areNative conditions && projections.all Projection.isProper &&
      orders.all (·.target.isNative) && limit.isNative

end

theorem Predicate.areNative_iff (ps : List Predicate) :
    Predicate.areNative ps = true ↔ ∀ p ∈ ps, p.isNative = true := by
  induction ps with
  | nil => simp [Predicate.areNative]
  | cons p ps ih => simp [Predicate.areNative, ih]

theorem Join.areNative_iff (js : List Join) :
    Join.areNative js = true ↔ ∀ j ∈ js, j.isNative = true := by
  induction js with
  | nil => simp [Join.areNative]
  | cons j js ih => simp [Join.areNative, ih]

theorem Query.isNative_iff (q : Query) :
    q.isNative = true ↔ (∀ j ∈ q.joins, j.isNative = true) ∧
      (∀ p ∈ q.conditions, p.isNative = true) ∧ (∀ p ∈ q.projections, p.isProper = true) ∧
      (∀ o ∈ q.orders, o.target.isNative = true) ∧ q.limit.isNative = true := by
  cases q
  simp [Query.isNative, Predicate.areNative_iff, Join.areNative_iff, and_assoc]

/-! ## Depth -/

namespace Value

variable {fs : List (String × Value)} {fuel : Nat}

theorem depth_le_of_lookup {name : String} {v : Value} (h : fs.lookup name = some v) :
    v.depth ≤ fieldsDepth fs := by
  induction fs with
  | nil => cases h
  | cons f fs ih =>
    obtain ⟨other, w⟩ := f
    rw [List.lookup_cons] at h
    rw [fieldsDepth]
    split at h
    · cases h
      exact Nat.le_max_left _ _
    · exact Nat.le_trans (ih h) (Nat.le_max_right _ _)

/-- A reader that may go deep enough for a record may go deep enough for its fields. -/
theorem depth_lt_of_lookup (name : String) {v : Value} (h : fs.lookup name = some v)
    (hd : (object fs).depth < fuel + 1) : v.depth < fuel := by
  have := depth_le_of_lookup h
  rw [depth] at hd
  omega

theorem itemsDepth_lt_of_lookup (name : String) {vs : List Value}
    (h : fs.lookup name = some (list vs)) (hd : (object fs).depth < fuel + 1) :
    itemsDepth vs < fuel := by
  have := depth_lt_of_lookup name h hd
  rw [depth] at this
  omega

end Value

/-! ## Parts without nesting -/

theorem Record.readItems_map_of_mem {α : Type} {read : Value → Checked α} {write : α → Value}
    {xs : List α} (h : ∀ x ∈ xs, read (write x) = .ok x) (n : Nat) :
    readItems read n (xs.map write) = .ok xs := by
  induction xs generalizing n with
  | nil => rfl
  | cons x xs ih =>
    have hx := h x List.mem_cons_self
    have hxs := ih (fun y hy => h y (List.mem_cons_of_mem x hy)) (n + 1)
    simp only [List.map_cons, readItems, hx, hxs, Checked.under_ok, Checked.both_ok, Except.map]

theorem Record.nullable_text (label : Option String) :
    nullable text (optionalText label) = .ok label := by
  cases label <;> rfl

namespace OrderTarget

theorem ofRecord_toRecord (t : OrderTarget) : ofRecord t.toRecord = .ok t := by
  cases t <;> rfl

end OrderTarget

namespace OrderBy

theorem ofRecord_toRecord (o : OrderBy) : ofRecord o.toRecord = .ok o := by
  obtain ⟨target, descending⟩ := o
  cases target <;> rfl

end OrderBy

namespace Limit

theorem ofRecord_toRecord {l : Limit} (h : l.isNative = true) : ofRecord l.toRecord = .ok l := by
  cases l with
  | foreign v => simp [isNative] at h
  | _ => rfl

end Limit

namespace Projection

theorem ofRecord_toRecord {p : Projection} (h : p.isProper = true) :
    ofRecord p.toRecord = .ok p := by
  cases p with
  | foreign v => simp [isProper] at h
  | column ref label => cases label <;> rfl
  | _ => rfl

end Projection

/-! ## Parts that hold others -/

namespace Record

variable {α : Type} {fs : List (String × Value)} {name : String} {v : Value} {a : α}
  {read : Value → Checked α}

theorem required_of_lookup (h : fs.lookup name = some v) (hr : read v = .ok a) :
    required fs name read = .ok a := by
  rw [required, h]
  simp only [hr, Checked.under_ok]

theorem optional_of_lookup {absent : α} (h : fs.lookup name = some v) (hr : read v = .ok a) :
    Record.optional fs name absent read = .ok a := by
  rw [Record.optional, h]
  simp only [hr, Checked.under_ok]

theorem listOf_map {kind : String} {read : Value → Checked α} {write : α → Value} {xs : List α}
    (h : ∀ x ∈ xs, read (write x) = .ok x) : listOf kind read (.list (xs.map write)) = .ok xs :=
  readItems_map_of_mem h 0

theorem nullable_of_not_null (h : v.isNull = false) (hr : read v = .ok a) :
    nullable read v = .ok (some a) := by
  rw [nullable, h, hr]
  rfl

end Record

theorem Query.toRecord_isNull (q : Query) : q.toRecord.isNull = false := by
  cases q
  rfl

namespace Predicate

theorem equalityOfRecord_toRecord (c : ColumnRef) (v : Operand) :
    equalityOfRecord (equality c v).toRecord = .ok (equality c v) := by
  cases v <;> rfl

theorem notEqualOfRecord_toRecord (c : ColumnRef) (v : Operand) :
    notEqualOfRecord (notEqual c v).toRecord = .ok (notEqual c v) := by
  cases v <;> rfl

theorem comparisonOfRecord_toRecord (c : ColumnRef) (op : Comparator) (v : Operand) :
    comparisonOfRecord (comparison c op v).toRecord = .ok (comparison c op v) := by
  cases op <;> cases v <;> rfl

theorem groupingOfRecord_toRecord {read : Value → Checked Predicate} {ps : List Predicate}
    (h : ∀ p ∈ ps, read p.toRecord = .ok p) (conjunction : Conjunction) :
    groupingOfRecord read (grouping ps conjunction).toRecord = .ok (grouping ps conjunction) := by
  rw [groupingOfRecord, toRecord, toRecords_eq_map]
  simp only [Record.fields, Except.bind]
  rw [required_of_lookup rfl (listOf_map h),
    optional_of_lookup (v := .text conjunction.word) (a := conjunction) rfl
      (by cases conjunction <;> rfl)]
  rfl

theorem negationOfRecord_toRecord {read : Value → Checked Predicate} {p : Predicate}
    (h : read p.toRecord = .ok p) :
    negationOfRecord read (negation p).toRecord = .ok (negation p) := by
  rw [negationOfRecord, toRecord]
  simp only [Record.fields, Except.bind]
  rw [required_of_lookup rfl h]
  rfl

theorem membershipOfRecord_toRecord {read : Value → Checked Query} {c : ColumnRef}
    {values : List Scalar} {subquery : Option Query} {negated : Bool}
    (h : ∀ q, subquery = some q → read q.toRecord = .ok q) :
    membershipOfRecord read (membership c values subquery negated).toRecord =
      .ok (membership c values subquery negated) := by
  have hvalues : listOf "tuple_type" scalar (.list (values.map Value.scalar)) = .ok values :=
    listOf_map fun _ _ => rfl
  cases subquery with
  | none =>
    rw [membershipOfRecord, toRecord]
    simp only [Record.fields, Except.bind]
    rw [optional_of_lookup rfl hvalues]
    rfl
  | some q =>
    rw [membershipOfRecord, toRecord]
    simp only [Record.fields, Except.bind]
    rw [optional_of_lookup rfl hvalues,
      optional_of_lookup rfl (nullable_of_not_null q.toRecord_isNull (h q rfl))]
    rfl

theorem existenceOfRecord_toRecord {read : Value → Checked Query} {q : Query} {negated : Bool}
    (h : read q.toRecord = .ok q) :
    existenceOfRecord read (existence q negated).toRecord = .ok (existence q negated) := by
  rw [existenceOfRecord, toRecord]
  simp only [Record.fields, Except.bind]
  rw [required_of_lookup rfl h]
  rfl

end Predicate

namespace Join

theorem tableOfRecord_toRecord {read : Value → Checked Predicate} {name : String}
    {given : Option String} {on : List Predicate} {outer : Bool}
    (h : ∀ p ∈ on, read p.toRecord = .ok p) :
    tableOfRecord read (table name given on outer).toRecord = .ok (table name given on outer) := by
  rw [tableOfRecord, toRecord, Predicate.toRecords_eq_map]
  simp only [Record.fields, Except.bind]
  rw [optional_of_lookup rfl (nullable_text given), required_of_lookup rfl (listOf_map h)]
  rfl

end Join

/-! ## The whole -/

mutual

theorem Predicate.ofRecord_toRecord : ∀ (p : Predicate) (fuel : Nat), p.isNative = true →
    p.toRecord.depth < fuel → predicateOfRecord fuel p.toRecord = .ok p
  | _, 0, _, hd => absurd hd (Nat.not_lt_zero _)
  | .equality c v, _ + 1, _, _ => by
    rw [predicateOfRecord]
    exact congrArg (Checked.under _) (Predicate.equalityOfRecord_toRecord c v)
  | .notEqual c v, _ + 1, _, _ => by
    rw [predicateOfRecord]
    exact congrArg (Checked.under _) (Predicate.notEqualOfRecord_toRecord c v)
  | .comparison c op v, _ + 1, _, _ => by
    rw [predicateOfRecord]
    exact congrArg (Checked.under _) (Predicate.comparisonOfRecord_toRecord c op v)
  | .membership c values none negated, fuel + 1, _, _ => by
    have hnone : ∀ q, none = some q → queryOfRecord fuel q.toRecord = .ok q := nofun
    rw [predicateOfRecord]
    exact congrArg (Checked.under _) (Predicate.membershipOfRecord_toRecord hnone)
  | .membership c values (some q) negated, fuel + 1, h, hd => by
    have hq := Query.queryOfRecord_toRecord q fuel h (Value.depth_lt_of_lookup "subquery" rfl hd)
    have hsome : ∀ r, some q = some r → queryOfRecord fuel r.toRecord = .ok r := by
      rintro r ⟨⟩
      exact hq
    rw [predicateOfRecord]
    exact congrArg (Checked.under _) (Predicate.membershipOfRecord_toRecord hsome)
  | .raw r, _ + 1, _, _ => rfl
  | .grouping ps conjunction, fuel + 1, h, hd => by
    rw [predicateOfRecord]
    exact congrArg (Checked.under _) (Predicate.groupingOfRecord_toRecord
      (Predicate.each_ofRecord_toRecord ps fuel h
        (Value.itemsDepth_lt_of_lookup "predicates" rfl hd)) conjunction)
  | .negation p, fuel + 1, h, hd => by
    rw [predicateOfRecord]
    exact congrArg (Checked.under _) (Predicate.negationOfRecord_toRecord
      (Predicate.ofRecord_toRecord p fuel h
        (Value.depth_lt_of_lookup "predicate" rfl hd)))
  | .existence q negated, fuel + 1, h, hd => by
    rw [predicateOfRecord]
    exact congrArg (Checked.under _) (Predicate.existenceOfRecord_toRecord
      (Query.queryOfRecord_toRecord q fuel h
        (Value.depth_lt_of_lookup "subquery" rfl hd)))

theorem Predicate.each_ofRecord_toRecord : ∀ (ps : List Predicate) (fuel : Nat),
    Predicate.areNative ps = true → Value.itemsDepth (Predicate.toRecords ps) < fuel →
    ∀ p ∈ ps, predicateOfRecord fuel p.toRecord = .ok p
  | [], _, _, _ => nofun
  | p :: ps, fuel, h, hd => by
    rw [Predicate.areNative, Bool.and_eq_true] at h
    rw [Predicate.toRecords, Value.itemsDepth, Nat.max_lt] at hd
    exact List.forall_mem_cons.mpr ⟨Predicate.ofRecord_toRecord p fuel h.1 hd.1,
      Predicate.each_ofRecord_toRecord ps fuel h.2 hd.2⟩

theorem Join.ofRecord_toRecord : ∀ (j : Join) (fuel : Nat), j.isNative = true →
    j.toRecord.depth < fuel → joinOfRecord fuel j.toRecord = .ok j
  | _, 0, _, hd => absurd hd (Nat.not_lt_zero _)
  | .table name given on outer, fuel + 1, h, hd => by
    rw [joinOfRecord]
    exact congrArg (Checked.under _) (Join.tableOfRecord_toRecord
      (Predicate.each_ofRecord_toRecord on fuel h
        (Value.itemsDepth_lt_of_lookup "on" rfl hd)))
  | .asOf _ _ _, _ + 1, _, _ => rfl

theorem Join.each_ofRecord_toRecord : ∀ (js : List Join) (fuel : Nat),
    Join.areNative js = true → Value.itemsDepth (Join.toRecords js) < fuel →
    ∀ j ∈ js, joinOfRecord fuel j.toRecord = .ok j
  | [], _, _, _ => nofun
  | j :: js, fuel, h, hd => by
    rw [Join.areNative, Bool.and_eq_true] at h
    rw [Join.toRecords, Value.itemsDepth, Nat.max_lt] at hd
    exact List.forall_mem_cons.mpr ⟨Join.ofRecord_toRecord j fuel h.1 hd.1,
      Join.each_ofRecord_toRecord js fuel h.2 hd.2⟩

theorem Query.queryOfRecord_toRecord : ∀ (q : Query) (fuel : Nat), q.isNative = true →
    q.toRecord.depth < fuel → queryOfRecord fuel q.toRecord = .ok q
  | _, 0, _, hd => absurd hd (Nat.not_lt_zero _)
  | ⟨table, joins, conditions, projections, orders, limit, asOf, readonly⟩, fuel + 1, h, hd => by
    simp only [Query.isNative, Bool.and_eq_true] at h
    obtain ⟨⟨⟨⟨hj, hc⟩, hp⟩, ho⟩, hl⟩ := h
    have hjoins := Join.each_ofRecord_toRecord joins fuel hj
      (Value.itemsDepth_lt_of_lookup "joins" rfl hd)
    have hconditions := Predicate.each_ofRecord_toRecord conditions fuel hc
      (Value.itemsDepth_lt_of_lookup "where" rfl hd)
    have hprojections : ∀ p ∈ projections, Projection.ofRecord p.toRecord = .ok p :=
      fun p hmem => Projection.ofRecord_toRecord (List.all_eq_true.mp hp p hmem)
    rw [queryOfRecord, Query.toRecord, Predicate.toRecords_eq_map, Join.toRecords_eq_map]
    simp only [Record.fields, Except.bind]
    rw [optional_of_lookup rfl (listOf_map hjoins),
      optional_of_lookup rfl (listOf_map hconditions),
      optional_of_lookup rfl (listOf_map hprojections),
      optional_of_lookup rfl (listOf_map fun o _ => OrderBy.ofRecord_toRecord o),
      optional_of_lookup rfl (Limit.ofRecord_toRecord hl),
      optional_of_lookup rfl (nullable_text asOf)]
    rfl

end

/-! ## What is written is plain data -/

namespace Value

@[simp]
theorem isData_text (s : String) : (text s).isData = true := rfl

@[simp]
theorem isData_bool (b : Bool) : (bool b).isData = true := rfl

@[simp]
theorem isData_moment (m : Moment) : (moment m).isData = true := rfl

@[simp]
theorem isData_null : null.isData = true := rfl

@[simp]
theorem isData_list (vs : List Value) : (list vs).isData = areData vs := rfl

@[simp]
theorem isData_object (fs : List (String × Value)) :
    (object fs).isData = (fieldsAreData fs && decide (fs.map Prod.fst).Nodup) := rfl

theorem areData_map_scalar (ss : List Scalar) : areData (ss.map scalar) = true := by
  rw [areData_iff, List.forall_mem_map]
  exact fun s _ => rfl

end Value

@[simp]
theorem ColumnRef.isData_toRecord (c : ColumnRef) : c.toRecord.isData = true := rfl

@[simp]
theorem Operand.isData_toRecord (o : Operand) : o.toRecord.isData = true := by
  cases o <;> rfl

@[simp]
theorem isData_optionalText (s : Option String) : (optionalText s).isData = true := by
  cases s <;> rfl

theorem RawFragment.isData_toRecord {r : RawFragment} (h : r.isNative = true) :
    r.toRecord.isData = true := by
  have hparams : (Value.object r.params).isData = true := h
  rw [toRecord, Value.isData_object, Value.fieldsAreData, Value.fieldsAreData, Value.fieldsAreData,
    hparams]
  simp [Value.fieldsAreData]

theorem OrderTarget.isData_toRecord {t : OrderTarget} (h : t.isNative = true) :
    t.toRecord.isData = true := by
  cases t with
  | column ref => rfl
  | raw r => exact RawFragment.isData_toRecord h

theorem OrderBy.isData_toRecord {o : OrderBy} (h : o.target.isNative = true) :
    o.toRecord.isData = true := by
  simp [toRecord, Value.fieldsAreData, OrderTarget.isData_toRecord h]

theorem Projection.isData_toRecord {p : Projection} (h : p.isProper = true) :
    p.toRecord.isData = true := by
  cases p with
  | foreign v => simp [isProper] at h
  | column ref label => cases label <;> rfl
  | _ => rfl

theorem Limit.isData_toRecord {l : Limit} (h : l.isNative = true) : l.toRecord.isData = true := by
  cases l with
  | foreign v => simp [isNative] at h
  | _ => rfl

mutual

theorem Predicate.isData_toRecord : ∀ p : Predicate, p.isNative = true → p.toRecord.isData = true
  | .equality c v, _ => by simp [Predicate.toRecord, Value.fieldsAreData]
  | .notEqual c v, _ => by simp [Predicate.toRecord, Value.fieldsAreData]
  | .comparison c op v, _ => by simp [Predicate.toRecord, Value.fieldsAreData]
  | .membership c values none negated, _ => by
    simp [Predicate.toRecord, Value.fieldsAreData, Value.areData_map_scalar]
  | .membership c values (some q) negated, h => by
    simp [Predicate.toRecord, Value.fieldsAreData, Value.areData_map_scalar,
      Query.isData_toRecord q h]
  | .raw r, h => RawFragment.isData_toRecord h
  | .grouping ps conjunction, h => by
    simp [Predicate.toRecord, Value.fieldsAreData, Predicate.areData_toRecords ps h]
  | .negation p, h => by
    simp [Predicate.toRecord, Value.fieldsAreData, Predicate.isData_toRecord p h]
  | .existence q negated, h => by
    simp [Predicate.toRecord, Value.fieldsAreData, Query.isData_toRecord q h]

theorem Predicate.areData_toRecords : ∀ ps : List Predicate, Predicate.areNative ps = true →
    Value.areData (Predicate.toRecords ps) = true
  | [], _ => rfl
  | p :: ps, h => by
    rw [Predicate.areNative, Bool.and_eq_true] at h
    rw [Predicate.toRecords, Value.areData, Predicate.isData_toRecord p h.1,
      Predicate.areData_toRecords ps h.2, Bool.and_self]

theorem Join.isData_toRecord : ∀ j : Join, j.isNative = true → j.toRecord.isData = true
  | .table name given on outer, h => by
    simp [Join.toRecord, Value.fieldsAreData, Predicate.areData_toRecords on h]
  | .asOf entityType dataTable timestamp, _ => by simp [Join.toRecord, Value.fieldsAreData]

theorem Join.areData_toRecords : ∀ js : List Join, Join.areNative js = true →
    Value.areData (Join.toRecords js) = true
  | [], _ => rfl
  | j :: js, h => by
    rw [Join.areNative, Bool.and_eq_true] at h
    rw [Join.toRecords, Value.areData, Join.isData_toRecord j h.1, Join.areData_toRecords js h.2,
      Bool.and_self]

theorem Query.isData_toRecord : ∀ q : Query, q.isNative = true → q.toRecord.isData = true
  | ⟨table, joins, conditions, projections, orders, limit, asOf, readonly⟩, h => by
    simp only [Query.isNative, Bool.and_eq_true] at h
    obtain ⟨⟨⟨⟨hj, hc⟩, hp⟩, ho⟩, hl⟩ := h
    have hprojections : Value.areData (projections.map Projection.toRecord) = true := by
      rw [Value.areData_iff, List.forall_mem_map]
      exact fun p hmem => Projection.isData_toRecord (List.all_eq_true.mp hp p hmem)
    have horders : Value.areData (orders.map OrderBy.toRecord) = true := by
      rw [Value.areData_iff, List.forall_mem_map]
      exact fun o hmem => OrderBy.isData_toRecord (List.all_eq_true.mp ho o hmem)
    simp [Query.toRecord, Value.fieldsAreData, Join.areData_toRecords joins hj,
      Predicate.areData_toRecords conditions hc, hprojections, horders, Limit.isData_toRecord hl]

end

/-! ## What is native is proper -/

mutual

theorem Predicate.isProper_of_isNative : ∀ p : Predicate, p.isNative = true → p.isProper = true
  | .membership _ _ none _, _ => rfl
  | .membership _ _ (some q) _, h => Query.isProper_of_isNative q h
  | .grouping ps _, h => Predicate.areProper_of_areNative ps h
  | .negation p, h => Predicate.isProper_of_isNative p h
  | .existence q _, h => Query.isProper_of_isNative q h
  | .equality _ _, _ => rfl
  | .notEqual _ _, _ => rfl
  | .comparison _ _ _, _ => rfl
  | .raw _, _ => rfl

theorem Predicate.areProper_of_areNative : ∀ ps : List Predicate,
    Predicate.areNative ps = true → Predicate.areProper ps = true
  | [], _ => rfl
  | p :: ps, h => by
    rw [Predicate.areNative, Bool.and_eq_true] at h
    rw [Predicate.areProper, Predicate.isProper_of_isNative p h.1,
      Predicate.areProper_of_areNative ps h.2, Bool.and_self]

theorem Join.isProper_of_isNative : ∀ j : Join, j.isNative = true → j.isProper = true
  | .table _ _ on _, h => Predicate.areProper_of_areNative on h
  | .asOf _ _ _, _ => rfl

theorem Join.areProper_of_areNative : ∀ js : List Join,
    Join.areNative js = true → Join.areProper js = true
  | [], _ => rfl
  | j :: js, h => by
    rw [Join.areNative, Bool.and_eq_true] at h
    rw [Join.areProper, Join.isProper_of_isNative j h.1, Join.areProper_of_areNative js h.2,
      Bool.and_self]

theorem Query.isProper_of_isNative : ∀ q : Query, q.isNative = true → q.isProper = true
  | ⟨_, joins, conditions, projections, _, _, _, _⟩, h => by
    simp only [Query.isNative, Bool.and_eq_true] at h
    obtain ⟨⟨⟨⟨hj, hc⟩, hp⟩, -⟩, -⟩ := h
    rw [Query.isProper, Join.areProper_of_areNative joins hj,
      Predicate.areProper_of_areNative conditions hc, hp, Bool.and_self, Bool.and_self]

end

/-! ## Native queries as of a timestamp -/

namespace Substitution

variable (s : Substitution)

theorem isNative_raw (r : RawFragment) : (s.raw r).isNative = r.isNative := by
  simp only [raw, RawFragment.isNative]

mutual

theorem isNative_predicate : ∀ (p : Predicate) {p' : Predicate} (depth : Int),
    p.isNative = true → s.predicate depth p = .ok p' → p'.isNative = true
  | .equality _ _, _, _, _, e => by cases e; rfl
  | .notEqual _ _, _, _, _, e => by cases e; rfl
  | .comparison _ _ _, _, _, _, e => by cases e; rfl
  | .membership _ _ none _, _, _, _, e => by cases e; rfl
  | .membership _ _ (some _) _, _, _, h, e => by cases e; exact h
  | .raw r, _, depth, h, e => by
    rw [predicate] at e
    split at e
    · cases e
    · cases e
      rw [Predicate.isNative, s.isNative_raw r]
      exact h
  | .grouping ps conjunction, _, depth, h, e => by
    rw [predicate] at e
    obtain ⟨ps', hps', rfl⟩ := map_eq_ok_iff.mp e
    exact areNative_predicates ps (depth + 1) h hps'
  | .negation _, _, _, _, e => by cases e
  | .existence _ _, _, _, _, e => by cases e

theorem areNative_predicates : ∀ (ps : List Predicate) {ps' : List Predicate} (depth : Int),
    Predicate.areNative ps = true → s.predicates depth ps = .ok ps' →
    Predicate.areNative ps' = true
  | [], _, _, _, e => by cases e; rfl
  | p :: ps, _, depth, h, e => by
    rw [Predicate.areNative, Bool.and_eq_true] at h
    obtain ⟨p', hp', e⟩ := bind_eq_ok_iff.mp e
    obtain ⟨ps', hps', e⟩ := bind_eq_ok_iff.mp e
    cases e
    rw [Predicate.areNative, isNative_predicate p depth h.1 hp',
      areNative_predicates ps depth h.2 hps', Bool.and_self]

end

theorem isNative_join {j j' : Join} (h : j.isNative = true) (e : s.join j = .ok j') :
    j'.isNative = true := by
  cases j with
  | table name given on outer =>
    obtain ⟨on', hon', rfl⟩ := map_eq_ok_iff.mp e
    exact s.areNative_predicates on 0 h hon'
  | asOf entityType dataTable timestamp =>
    cases e
    rfl

theorem isProper_entityColumns : ∀ p ∈ s.entityColumns, p.isProper = true := by
  intro p hp
  rcases List.mem_append.mp hp with hp | hp
  · obtain ⟨name, -, rfl⟩ := List.mem_map.mp hp
    rfl
  · simp only [List.mem_cons, List.not_mem_nil, or_false] at hp
    rcases hp with rfl | rfl | rfl <;> rfl

theorem isProper_projection {p : Projection} (h : p.isProper = true) :
    ∀ p' ∈ s.projection p, p'.isProper = true := by
  cases p with
  | foreign v => simp [Projection.isProper] at h
  | column ref label => exact fun p' hp => List.mem_singleton.mp hp ▸ rfl
  | constant value label => exact fun p' hp => List.mem_singleton.mp hp ▸ rfl
  | allColumns table =>
    rw [projection]
    split
    · exact s.isProper_entityColumns
    · exact fun p' hp => List.mem_singleton.mp hp ▸ rfl

theorem isProper_projections {ps : List Projection} (h : ∀ p ∈ ps, p.isProper = true) :
    ∀ p ∈ s.projections ps, p.isProper = true := by
  have hall : ∀ p' ∈ ps.flatMap s.projection, p'.isProper = true := by
    intro p' hp'
    obtain ⟨p, hp, hp'⟩ := List.mem_flatMap.mp hp'
    exact s.isProper_projection (h p hp) p' hp'
  unfold projections
  split
  · exact List.forall_mem_cons.mpr ⟨rfl, s.isProper_entityColumns⟩
  · split
    · exact fun p hp => List.mem_singleton.mp hp ▸ rfl
    · exact s.isProper_projection rfl
  · exact hall

/-- Reading as of an instant replaces columns and texts and leaves values as they are. -/
theorem isNative_query {q q' : Query} (h : q.isNative = true) (e : s.query q = .ok q') :
    q'.isNative = true := by
  obtain ⟨hj, hc, hp, ho, hl⟩ := q.isNative_iff.mp h
  obtain ⟨conditions, hconditions, e⟩ := bind_eq_ok_iff.mp e
  obtain ⟨joins, hjoins, e⟩ := bind_eq_ok_iff.mp e
  cases e
  have hprojections := s.isProper_projections hp
  rw [Query.isNative_iff]
  dsimp only
  refine ⟨fun j hmem => ?_, ?_, hprojections, ?_, hl⟩
  · have hmem : j ∈ joins ++ [s.entryJoin, s.liveJoin] :=
      (List.mem_append.mp hmem).elim List.mem_of_mem_filter List.mem_of_mem_filter
    rcases List.mem_append.mp hmem with hmem | hmem
    · obtain ⟨j₀, hj₀, e⟩ := exists_of_mem_mapM hjoins hmem
      exact s.isNative_join (hj j₀ hj₀) e
    · simp only [List.mem_cons, List.not_mem_nil, or_false] at hmem
      rcases hmem with rfl | rfl <;> rfl
  · exact (Predicate.areNative_iff _).mp
      (s.areNative_predicates q.conditions 0 ((Predicate.areNative_iff _).mpr hc) hconditions)
  · rw [List.forall_mem_map]
    intro o hmem
    have hnative := ho o hmem
    rcases o with ⟨column | raw, descending⟩
    · rfl
    · rw [order, orderTarget, OrderTarget.isNative, s.isNative_raw raw]
      exact hnative

end Substitution

namespace Query

theorem isNative_asOf {q q' : Query} {timestamp : Value} {moment : Option Moment}
    {clock : Instant} (h : q.isNative = true)
    (e : q.asOfTimestamp timestamp moment clock = .ok q') : q'.isNative = true := by
  obtain ⟨kind, t, i, -, -, -, e⟩ := substitution_of_asOf e
  exact Substitution.isNative_query _ h e

/-! ## Round trips -/

theorem ofRecord_toRecord {q : Query} (h : q.isNative = true) : ofRecord q.toRecord = .ok q :=
  q.queryOfRecord_toRecord _ h (Nat.lt_succ_self _)

theorem survivesRecord_of_isNative {q : Query} (h : q.isNative = true) :
    q.survivesRecord = .ok true := by
  rw [survivesRecord, ofRecord_toRecord h, Except.map, q.isProper_of_isNative h,
    q.toRecord.agrees_self (q.isData_toRecord h), Bool.and_self]

/-- A query made of the parts of the language comes back from its record the same at every place,
and so does what it becomes as of a timestamp. -/
theorem survives_record {q : Query} (h : q.isNative = true) :
    (ofRecord q.toRecord = .ok q ∧ q.survivesRecord = .ok true) ∧
    ∀ (timestamp : Value) (moment : Option Moment) (clock : Instant) (q' : Query),
      q.asOfTimestamp timestamp moment clock = .ok q' →
      ofRecord q'.toRecord = .ok q' ∧ q'.survivesRecord = .ok true := by
  refine ⟨⟨ofRecord_toRecord h, survivesRecord_of_isNative h⟩, ?_⟩
  intro timestamp moment clock q' e
  have h' := isNative_asOf h e
  exact ⟨ofRecord_toRecord h', survivesRecord_of_isNative h'⟩

/-- Work packages that are open or numbered beyond three, of the projects without any other. -/
def openPackages : Query where
  table := "work_packages"
  joins := [.table "projects" (some "owners")
    [.equality ⟨"owners", "id"⟩ (.column ⟨"work_packages", "project_id"⟩)] true]
  conditions :=
    [.grouping [.equality ⟨"work_packages", "status"⟩ (.value (.text "new")),
      .raw ⟨"work_packages.id > :n", [("n", .int 3)]⟩] .or,
    .membership ⟨"work_packages", "project_id"⟩ []
      (some { ofTable "projects" with
        conditions := [.negation (.existence (ofTable "work_packages") false)] }) false,
    .comparison ⟨"owners", "created_at"⟩ .lte (.value (.moment noonInUtc.moment))]
  projections := [.allColumns "work_packages", .constant (.bool true) "open"]
  orders := [⟨.column ⟨"work_packages", "updated_at"⟩, true⟩, ⟨.raw ⟨"owners.name", []⟩, false⟩]
  limit := .rows 5
  asOf := none
  readonly := false

theorem survives_record_openPackages : openPackages.isNative = true ∧
    ofRecord openPackages.toRecord = .ok openPackages ∧
    ∃ q', openPackages.asOfTimestamp (.timestamp (.absolute noonInUtc)) none noonInUtc = .ok q' ∧
      ofRecord q'.toRecord = .ok q' ∧ q'.survivesRecord = .ok true := by
  have hnative : openPackages.isNative = true := by decide
  have h := survives_record hnative
  obtain ⟨q', e⟩ : ∃ q', openPackages.asOfTimestamp (.timestamp (.absolute noonInUtc)) none
      noonInUtc = .ok q' := ⟨_, rfl⟩
  exact ⟨hnative, h.1.1, q', e, h.2 _ _ _ q' e⟩

end Query

end Chronicle
