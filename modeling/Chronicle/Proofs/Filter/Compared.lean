import Chronicle.Proofs.Filter.Search
import Chronicle.Proofs.Statement.OpenTexts
import Chronicle.Proofs.Timestamp.Meaning

/-!
# Values in conditions that compare

Equality, order and their denials become one comparison of a column, whatever the values are.  A
filter is answered only if the store takes every value of such conditions.

* `Condition.ComparesWith`: a condition that compares its attribute with single values;
* `Condition.comparison`, `Clause.comparison`: what it becomes in a query, and in a statement;
* `Filter.exists_cells_of_matching`: the values of a filter that is answered have cells.
-/

namespace Chronicle

open Chronicle.Calendar

/-! ## Comparisons of a column -/

/-- A value that is given to the store, and not written out as nothing or a truth value. -/
def Scalar.isGiven : Scalar → Bool
  | .null | .bool _ => false
  | _ => true

namespace Operator

/-- Equality and order, and what denies equality. -/
def compares : Operator → Bool
  | equals | differs | atLeast | atMost => true
  | _ => false

/-- How a column is compared with a single value. -/
def relator : Operator → Relator
  | differs => .ne
  | atLeast => .ge
  | atMost => .le
  | _ => .eq

end Operator

/-- The comparison of a column with the values of a condition. -/
def Condition.comparison (op : Operator) (ref : ColumnRef) : List Scalar → Predicate
  | [s] =>
    match op with
    | .differs => .notEqual ref (.value s)
    | .atLeast => .comparison ref .gte (.value s)
    | .atMost => .comparison ref .lte (.value s)
    | _ => .equality ref (.value s)
  | ss => .membership ref ss none (op == .differs)

/-- Such a comparison in a statement. -/
def Clause.comparison (op : Operator) (c : SourceColumn) : List Scalar → Clause
  | [s] => .compare op.relator c (.value s)
  | ss => .amongValues c ss (op == .differs)

namespace Condition

variable (op : Operator) (ref : ColumnRef) (ss : List Scalar)

theorem isComparison_comparison : (comparison op ref ss).isComparison = true := by
  unfold comparison
  split
  · cases op <;> rfl
  · rfl

/-- As of an instant the same is asked of the counterpart of the column. -/
theorem predicate_comparison (s : Substitution) (depth : Int) :
    s.predicate depth (comparison op ref ss) = .ok (comparison op (s.column ref) ss) := by
  match ss with
  | [x] => cases op <;> rfl
  | [] | _ :: _ :: _ => rfl

theorem map_inUtc_of_isGiven {s : Scalar} (h : s.isGiven = true) (op : Relator) (c : SourceColumn) :
    Clause.equation op c s = (Clause.inUtc s).map (fun v => .compare op c (.value v)) ∧
      Clause.ordering op c s = (Clause.inUtc s).map fun v => .compare op c (.value v) := by
  cases s with
  | null | bool b => cases h
  | _ => exact ⟨rfl, rfl⟩

/-- A single value is compared by the relator of its operator. -/
theorem compile_comparison_single {scope : Scope} {s : Scalar} (hgiven : s.isGiven = true) :
    (comparison op ref [s]).compile scope = (scope.column ref).bind fun c =>
      (Clause.inUtc s).map fun v => .compare op.relator c (.value v) := by
  have hs := map_inUtc_of_isGiven hgiven
  cases op with
  | atLeast | atMost =>
    rw [comparison, Predicate.compile]
    exact congrArg _ (funext fun c => (hs _ c).2)
  | differs =>
    rw [comparison, Predicate.compile]
    exact congrArg _ (funext fun c => (hs _ c).1)
  | _ =>
    change (Predicate.equality ref (.value s)).compile scope = _
    rw [Predicate.compile]
    exact congrArg _ (funext fun c => (hs _ c).1)

/-- In a statement the column is compared with what the values are in UTC. -/
theorem compile_comparison_iff {scope : Scope} {d : Clause} (hgiven : ∀ s ∈ ss, s.isGiven = true) :
    (comparison op ref ss).compile scope = .ok d ↔ ∃ c vs, scope.column ref = .ok c ∧
      ss.mapM Clause.inUtc = .ok vs ∧ d = Clause.comparison op c vs := by
  by_cases hone : ∃ s, ss = [s]
  · obtain ⟨s, rfl⟩ := hone
    rw [compile_comparison_single op ref (hgiven s (List.mem_singleton_self s))]
    constructor
    · intro h
      obtain ⟨c, hc, h⟩ := bind_eq_ok_iff.mp h
      obtain ⟨v, hv, rfl⟩ := map_eq_ok_iff.mp h
      exact ⟨c, [v], hc, mapM_singleton_eq_ok_iff.mpr ⟨v, hv, rfl⟩, rfl⟩
    · rintro ⟨c, vs, hc, hvs, rfl⟩
      obtain ⟨v, hv, rfl⟩ := mapM_singleton_eq_ok_iff.mp hvs
      exact bind_eq_ok_iff.mpr ⟨c, hc, map_eq_ok_iff.mpr ⟨v, hv, rfl⟩⟩
  · have hmany : comparison op ref ss = .membership ref ss none (op == .differs) := by
      unfold comparison
      split
      · next s => exact absurd ⟨s, rfl⟩ hone
      · rfl
    have hclause : ∀ c vs, ss.mapM Clause.inUtc = .ok vs →
        Clause.comparison op c vs = .amongValues c vs (op == .differs) := by
      intro c vs hvs
      unfold Clause.comparison
      split
      · exact absurd (List.length_eq_one_iff.mp (length_of_mapM hvs).symm) hone
      · rfl
    rw [hmany, Predicate.compile]
    constructor
    · intro h
      obtain ⟨c, hc, h⟩ := bind_eq_ok_iff.mp h
      obtain ⟨vs, hvs, h⟩ := bind_eq_ok_iff.mp h
      cases h
      exact ⟨c, vs, hc, hvs, (hclause c vs hvs).symm⟩
    · rintro ⟨c, vs, hc, hvs, rfl⟩
      exact bind_eq_ok_iff.mpr ⟨c, hc, bind_eq_ok_iff.mpr ⟨vs, hvs,
        congrArg Except.ok (hclause c vs hvs).symm⟩⟩

end Condition

/-- The store takes a comparison if there is a cell for every value. -/
theorem Clause.areCells_comparison_iff (op : Operator) (c : SourceColumn) (vs : List Scalar) :
    (Clause.comparison op c vs).slots.AreCells ↔ ∀ v ∈ vs, ∃ y,
      (Binding.ofColumn c.column.type (vs.headD .null)).bind (.scalar v) = .cell y := by
  unfold Clause.comparison
  split
  · next s =>
    rw [Clause.slots, Slots.AreCells, List.forall_mem_singleton, List.forall_mem_singleton]
    simp only [Option.some.injEq]
    rfl
  · rw [Clause.slots, Slots.AreCells, listedBounds, List.forall_mem_map, List.forall_mem_map]
    simp only [Option.some.injEq]

namespace Condition

/-- A condition that compares its attribute with single values, once they have been read. -/
structure ComparesWith (c : Condition) (clock : Instant) (ss : List Scalar) : Prop where
  operator : c.operator.compares = true
  read : c.comparedValues clock = .ok (ss.map .scalar)
  given : ∀ s ∈ ss, s.isGiven = true

/-- It becomes one comparison, whatever the number of its values is. -/
theorem ComparesWith.predicate_eq {c : Condition} {clock : Instant} {ss : List Scalar}
    (h : c.ComparesWith clock ss) (table : String) (n : Nat) :
    c.predicate table clock n = .ok (comparison c.operator ⟨table, c.field⟩ ss) := by
  have hlength : ss.length = c.values.length := by
    rw [← length_comparedValues h.read, List.length_map]
  have hfits := c.fits
  have hoperator := h.operator
  refine bind_eq_ok_iff.mpr ⟨_, h.read, ?_⟩
  match ss with
  | [s] => cases hop : c.operator <;> rw [hop] at hoperator <;> first | rfl | cases hoperator
  | [] =>
    have hnone : ∀ op : Operator, op.compares = true → op.accepts 0 = false := by
      intro op
      cases op <;> decide
    rw [← hlength, List.length_nil, hnone _ hoperator] at hfits
    cases hfits
  | s :: s' :: ss =>
    rw [← hlength] at hfits
    have hmany : (((s :: s' :: ss).map Value.scalar).length == 1) = false := rfl
    cases hop : c.operator with
    | equals | differs =>
      dsimp only
      rw [hmany, if_neg Bool.false_ne_true]
      exact Predicate.among_list_eq_ok_iff.mpr ⟨_, rfl, rfl⟩
    | atLeast | atMost =>
      rw [hop] at hfits
      cases hfits
    | _ =>
      rw [hop] at hoperator
      cases hoperator

end Condition

/-! ## Filters that are answered -/

namespace Filter

/-- Every condition of a filter is among its predicates. -/
theorem exists_predicate_of_mem {table : String} {clock : Instant} {n : Nat} {cs : List Condition}
    {ps : List Predicate} (h : predicatesFrom table clock n cs = .ok ps) {c : Condition}
    (hc : c ∈ cs) : ∃ m, ∃ p ∈ ps, c.predicate table clock m = .ok p := by
  induction cs generalizing n ps with
  | nil => cases hc
  | cons c' cs ih =>
    obtain ⟨p, hp, h⟩ := bind_eq_ok_iff.mp h
    obtain ⟨ps', hps, h⟩ := bind_eq_ok_iff.mp h
    cases h
    rcases List.mem_cons.mp hc with rfl | hc
    · exact ⟨n, p, List.mem_cons_self, hp⟩
    · obtain ⟨m, p', hmem, hp'⟩ := ih hps hc
      exact ⟨m, p', List.mem_cons_of_mem p hmem, hp'⟩

/-- Conditions that can be read one by one become predicates. -/
theorem exists_predicatesFrom {table : String} {clock : Instant} {cs : List Condition}
    {q : Predicate → Prop} (h : ∀ c ∈ cs, ∀ n, ∃ p, c.predicate table clock n = .ok p ∧ q p)
    (n : Nat) : ∃ ps, predicatesFrom table clock n cs = .ok ps ∧ ∀ p ∈ ps, q p := by
  induction cs generalizing n with
  | nil => exact ⟨[], rfl, List.forall_mem_nil _⟩
  | cons c cs ih =>
    obtain ⟨hc, hcs⟩ := List.forall_mem_cons.mp h
    obtain ⟨p, hp, hq⟩ := hc n
    obtain ⟨ps, hps, hall⟩ := ih hcs (n + 1)
    exact ⟨p :: ps, bind_eq_ok_iff.mpr ⟨p, hp, bind_eq_ok_iff.mpr ⟨ps, hps, rfl⟩⟩,
      List.forall_mem_cons.mpr ⟨hq, hall⟩⟩

variable {f : Filter} {ids : List Int} {timestamp : Value} {moment : Option Moment}
  {clock : Instant} {db : Database} {found : List Scalar}
  (hproper : ∀ u, timestamp = .timestamp u → u.IsProper)
  (h : (f.matching (ids.map .int) timestamp moment clock).answer db = .ok found)

include hproper h

/-- If a filter of comparisons is answered, the store takes its conditions in the journal. -/
theorem onJournal_of_matching {ps : List Predicate} (hps : f.predicates clock = .ok ps)
    (hcomparisons : ∀ p ∈ ps, p.isComparison = true) : ∃ t i b scope,
    timestamp.toTimestamp = .ok t ∧ t.resolveAt moment clock = .ok i ∧
      (⟨f.kind, t, i⟩ : Substitution).OnJournal ps b scope ∧
      ∀ d ∈ b.conditions, d.slots.AreCells := by
  obtain ⟨ps', q, rows, hps', hq, hrows⟩ := exists_listing_of_matching h
  obtain rfl := Except.ok.inj (hps.symm.trans hps')
  obtain ⟨t, i, r, b, c, scope, ht, hi, hr, hb, -, hnumbered, hrows⟩ :=
    Query.exists_listing_of_answer (f.asksNumbers ps) hq hrows
  have hjournal := Substitution.onJournal_of_query (s := ⟨f.kind, t, i⟩)
    (EntityView.resolveAt_lt (Value.isProper_toTimestamp ht hproper) hi) hr hb
  have hfragments : Clause.allFragments b.conditions = [] := by
    obtain ⟨qs, hqs, hcompile⟩ := hjournal.conditions
    rw [Substitution.predicates_eq_mapM] at hqs
    rw [Predicate.compileAll_eq_mapM] at hcompile
    refine Clause.allFragments_eq_nil fun d hd => ?_
    obtain ⟨q, hq, hd⟩ := exists_of_mem_mapM hcompile hd
    obtain ⟨p, hp, hq⟩ := exists_of_mem_mapM hqs hq
    have hcomparison := Predicate.isComparison_of_predicate (hcomparisons p hp) hq
    exact (Clause.spec_of_isTest (Predicate.isTest_of_compile hcomparison hd)).2.2
  have hagree : RawFragment.Agree (Clause.allFragments b.conditions) := by
    rw [hfragments]
    exact fun r hr => absurd hr List.not_mem_nil
  rw [hjournal.shared_eq hnumbered.orders hagree] at hrows
  have hcheck := (hnumbered.answer_listing hrows).1
  rw [← Select.under_conditions (b.listing _ _)] at hcheck
  have hcells := Clause.areCells_allSlots_iff.mp (Select.checkAll_under_iff.mp hcheck).2.2.1
  exact ⟨t, i, b, scope, ht, hi, hjournal, (List.forall_mem_append.mp hcells).1⟩

omit hproper in
/-- If a filter is answered, its timestamp denotes an instant. -/
theorem exists_instant_of_matching : ∃ t i, timestamp.toTimestamp = .ok t ∧
    t.resolveAt moment clock = .ok i := by
  unfold matching at h
  rw [(Action.keeps_lift _).answer_bind] at h
  obtain ⟨q, -, h⟩ := bind_eq_ok_iff.mp h
  rw [(Action.keeps_lift _).answer_bind] at h
  obtain ⟨q', hq', -⟩ := bind_eq_ok_iff.mp h
  obtain ⟨_, t, i, -, ht, hi, -⟩ := Query.substitution_of_asOf hq'
  exact ⟨t, i, ht, hi⟩

/-- The store has cells for the values of every condition of a filter that is answered. -/
theorem exists_cells_of_matching
    (hall : ∀ c ∈ f.conditions, ∃ ss, c.ComparesWith clock ss) {c : Condition}
    (hc : c ∈ f.conditions) {ss : List Scalar} (hss : c.ComparesWith clock ss) :
    ∃ vs, ss.mapM Clause.inUtc = .ok vs ∧ ∀ v ∈ vs, ∃ y,
      (Binding.ofColumn (f.kind.columnOf c.field).type (vs.headD .null)).bind (.scalar v) =
        .cell y := by
  have hcomparison : ∀ c ∈ f.conditions, ∀ n, ∃ p,
      c.predicate f.kind.table.name clock n = .ok p ∧ p.isComparison = true := by
    intro c hc n
    obtain ⟨ss, hss⟩ := hall c hc
    exact ⟨_, hss.predicate_eq _ n, Condition.isComparison_comparison _ _ ss⟩
  obtain ⟨ps, hps, hcomparisons⟩ := exists_predicatesFrom hcomparison 0
  obtain ⟨t, i, b, scope, -, -, hjournal, hcells⟩ := onJournal_of_matching hproper h hps hcomparisons
  obtain ⟨m, p, hp, hpredicate⟩ := exists_predicate_of_mem hps hc
  rw [hss.predicate_eq] at hpredicate
  cases hpredicate
  obtain ⟨qs, hqs, hcompile⟩ := hjournal.conditions
  rw [Substitution.predicates_eq_mapM] at hqs
  rw [Predicate.compileAll_eq_mapM] at hcompile
  obtain ⟨q, hq, hpq⟩ := exists_mem_of_mapM hqs hp
  rw [Condition.predicate_comparison] at hpq
  cases hpq
  obtain ⟨d, hd, hqd⟩ := exists_mem_of_mapM hcompile hq
  obtain ⟨col, vs, hcol, hvs, rfl⟩ := (Condition.compile_comparison_iff _ _ ss hss.given).mp hqd
  have htype : col.column.type = (f.kind.columnOf c.field).type := by
    have hknown := f.known c hc
    rw [hjournal.mirrors.column (Kind.column_attribute hknown) hcol]
    exact f.kind.type_counterpart 2 (c := ⟨f.kind.liveSource, f.kind.columnOf c.field⟩)
      (Kind.columnOf_spec hknown).1
  refine ⟨vs, hvs, ?_⟩
  rw [← htype]
  exact (Clause.areCells_comparison_iff _ _ _).mp (hcells _ hd)

end Filter

end Chronicle
