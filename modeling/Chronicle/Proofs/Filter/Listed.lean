import Chronicle.Proofs.Filter.Predicates
import Chronicle.Proofs.History.Rows
import Chronicle.Proofs.Statement.Content

/-!
# Rows with listed numbers

Queries that are asked for the rows with some numbers say the same of a number whatever other numbers
are listed with it.

* `Cell.holds_of_equals`: a value equal to a number is compared as equal by the store;
* `Clause.truth_listed`: what a list says of a row that has one of its numbers;
* `Select.Numbered`: statements whose answers show the numbers that are listed;
* `Query.rowOf_listing`: the row of a number in two answers.
-/

namespace Chronicle

open Chronicle.Calendar Chronicle.Decimal

/-! ## Numbers in cells -/

theorem natCast_eq_mul_iff {d : Nat} (hd : 0 < d) (a : Nat) (n : Int) :
    (a : Int) = n * d ↔ a % d = 0 ∧ ((a / d : Nat) : Int) = n := by
  have hd' : (d : Int) ≠ 0 := by omega
  rw [Int.natCast_ediv]
  constructor
  · intro h
    have hmod : (a : Int) % d = 0 := h ▸ Int.mul_emod_left n d
    exact ⟨by omega, by rw [h, Int.mul_ediv_cancel n hd']⟩
  · rintro ⟨hmod, rfl⟩
    have hmod' : (a : Int) % d = 0 := by omega
    exact (Int.ediv_mul_cancel (Int.dvd_of_emod_eq_zero hmod')).symm

/-- A double is equal to a whole number if it is this number. -/
theorem Decimal.Binary64.equalsInt_iff {x : Binary64} {i : Int} :
    x.equalsInt i = true ↔ x.toInt? = some i := by
  cases x with
  | nan => simp [equalsInt, compareInt?, toInt?]
  | infinite s => cases s <;> simp [equalsInt, compareInt?, toInt?]
  | finite s a =>
    have hdivides := natCast_eq_mul_iff (show 0 < one from twoTo_pos _) a
    simp only [equalsInt, compareInt?, toInt?]
    generalize one = d at hdivides
    rw [beq_iff_eq, Option.some.injEq, compare_eq_iff_eq]
    cases s with
    | false =>
      rw [if_neg Bool.false_ne_true, hdivides i]
      split <;> simp [*]
    | true =>
      have hneg : -(a : Int) = i * d ↔ (a : Int) = -i * d := by
        rw [Int.neg_mul]
        omega
      rw [if_pos rfl, hneg, hdivides (-i)]
      split
      · simp only [*, true_and, if_true, Option.some.injEq]
        omega
      · simp [*]

namespace Cell

/-- A value that is equal to a number is compared as equal by the store. -/
theorem holds_of_equals {x : Cell} {i : Int}
    (h : (x.toScalar .integer).equals (.int i) = true) :
    x.holds .eq .numeric (.int i) .none = some true := by
  cases x with
  | null => cases h
  | int a =>
    rw [holds_int, decide_eq_true (beq_iff_eq.mp h)]
  | real x =>
    have hequals : x.equalsInt i = true := h
    have hwhole := Binary64.equalsInt_iff.mp hequals
    have hunder : (real x).under .numeric = if isStorable i then .int i else .real x := by
      rw [under, ofReal, hwhole]
    have hi : (int i).under .numeric = .int i := rfl
    have hshared : shared .numeric .none = .numeric := rfl
    simp only [holds, isNull, Bool.or_self, Bool.false_eq_true, if_false, hshared, hunder, hi]
    split
    · simp [compare, orderOf, fits]
    · rw [compare, beq_iff_eq.mp hequals]
      rfl
  | text s => cases h
  | instant j => cases h

end Cell

/-! ## Lists of numbers -/

/-- The number of something that may not have been stored yet. -/
def Scalar.ofNumber? : Option Int → Scalar
  | none => .null
  | some i => .int i

theorem Scalar.map_ofNumber?_some (ids : List Int) :
    (ids.map some).map Scalar.ofNumber? = ids.map .int := by
  rw [List.map_map]
  rfl

/-- Numbers are bound as they are. -/
theorem listedBounds_numbers {c : SourceColumn} (hc : c.column.type = .integer)
    (ns : List (Option Int)) : listedBounds c (ns.map Scalar.ofNumber?) =
      ns.map fun n => Binding.plain.bind (.scalar (Scalar.ofNumber? n)) := by
  have hplain : Binding.ofColumn c.column.type ((ns.map Scalar.ofNumber?).headD .null) = .plain := by
    rw [hc]
    rcases ns with - | ⟨- | i, ns⟩ <;> rfl
  rw [listedBounds, hplain, List.map_map]
  rfl

theorem Truth.any_of_unknown {ts : List Truth} (h : ∀ t ∈ ts, t = none) (hne : ts ≠ []) :
    any ts = none := by
  induction ts with
  | nil => exact absurd rfl hne
  | cons t ts ih =>
    obtain ⟨rfl, hts⟩ := List.forall_mem_cons.mp h
    cases ts with
    | nil => rfl
    | cons u us =>
      have hrest := ih hts (List.cons_ne_nil u us)
      change or none (any (u :: us)) = none
      rw [hrest]
      rfl

namespace Clause

variable {c : SourceColumn} (hc : c.column.type = .integer) {ns : List (Option Int)}

include hc

/-- A list holds for a row that has one of its numbers, and is unknown for a row without number. -/
theorem truth_listed (db : Database) (env : Env)
    (hns : ∀ i, some i ∈ ns → Cell.isStorable i = true) {n : Option Int} (hn : n ∈ ns)
    (h : (Value.scalar ((c.cell env).toScalar c.column.type)).equals
      (.scalar (Scalar.ofNumber? n)) = true) :
    (amongValues c (ns.map Scalar.ofNumber?) false).truth db env =
      if (c.cell env).isNull then none else some true := by
  have haffinity : c.affinity = .numeric := by
    rw [SourceColumn.affinity, hc]
    rfl
  rw [Clause.truth, listedBounds_numbers hc, haffinity, Expression.negateIf,
    if_neg Bool.false_ne_true, List.map_map]
  split
  · next hnull =>
    refine Truth.any_of_unknown ?_ (by simpa using List.ne_nil_of_mem hn)
    rw [List.forall_mem_map]
    intro m _
    rw [Function.comp, Cell.holds, hnull]
    rfl
  · next hnull =>
    rw [Truth.any_eq_true_iff]
    refine ⟨_, List.mem_map_of_mem hn, ?_⟩
    rw [hc] at h
    cases n with
    | none =>
      refine absurd ?_ hnull
      have hequals : ((c.cell env).toScalar .integer).equals .null = true := h
      generalize c.cell env = x at hequals
      cases x <;> first | rfl | cases hequals
    | some i =>
      have hbind : Binding.plain.bind (.scalar (Scalar.ofNumber? (some i))) = .cell (.int i) :=
        if_pos (hns i hn)
      rw [Function.comp, hbind]
      exact Cell.holds_of_equals h

end Clause

/-! ## Conditions with a list at their end -/

theorem Clause.truths_append (db : Database) (env : Env) (cs ds : List Clause) :
    Clause.truths db env (cs ++ ds) = Clause.truths db env cs ++ Clause.truths db env ds := by
  induction cs with
  | nil => rfl
  | cons c cs ih => rw [List.cons_append, Clause.truths, Clause.truths, ih, List.cons_append]

theorem Clause.length_truths (db : Database) (env : Env) (cs : List Clause) :
    (Clause.truths db env cs).length = cs.length := by
  induction cs with
  | nil => rfl
  | cons c cs ih => rw [Clause.truths, List.length_cons, List.length_cons, ih]

/-- Next to other conditions only the truth of a list matters. -/
theorem Clause.joinedTruth_listed (env : Env) (op : Conjunction) (cs : List (Clause × Truth))
    (c : SourceColumn) (vs ws : List Scalar) (t : Truth) :
    joinedTruth env op (cs ++ [(.amongValues c vs false, t)]) =
      joinedTruth env op (cs ++ [(.amongValues c ws false, t)]) := by
  have hwritten : ∀ us : List Scalar,
      (cs ++ [(Clause.amongValues c us false, t)]).filter (fun p => !p.1.isBlank) =
        cs.filter (fun p => !p.1.isBlank) ++ [(.amongValues c us false, t)] := fun us => by
    rw [List.filter_append]
    rfl
  have hexpression : ∀ ds : List (Clause × Truth),
      joinedExpression op (ds ++ [(.amongValues c vs false, t)]) =
        joinedExpression op (ds ++ [(.amongValues c ws false, t)]) := fun ds => by
    have hparts : (ds ++ [(Clause.amongValues c vs false, t)]).mapM partLexemes =
        (ds ++ [(Clause.amongValues c ws false, t)]).mapM partLexemes := by
      rw [List.mapM_append, List.mapM_append]
      rfl
    unfold joinedExpression
    rw [hparts]
  have hraw : ∀ us : List Scalar, (cs.filter (fun p => !p.1.isBlank) ++
      [(Clause.amongValues c us false, t)]).any (fun p => p.1.isRaw) =
        (cs.filter (fun p => !p.1.isBlank)).any fun p => p.1.isRaw := fun us => by
    rw [List.any_append]
    exact Bool.or_false _
  unfold joinedTruth
  simp only [hwritten, hraw, hexpression, List.map_append, List.map_cons, List.map_nil]

namespace Select

/-- A statement with a list of values for a column as its last condition. -/
def listing (a : Select) (c : SourceColumn) (vs : List Scalar) : Select :=
  { a with conditions := a.conditions ++ [.amongValues c vs false] }

theorem keeps_listing {a : Select} {c : SourceColumn} {vs ws : List Scalar} {db : Database}
    {outer : Env} {r : List Relation}
    (h : (Clause.amongValues c vs false).truth db (r :: outer) =
      (Clause.amongValues c ws false).truth db (r :: outer)) :
    (a.listing c vs).keeps db outer r = (a.listing c ws).keeps db outer r := by
  have hlength := (Clause.length_truths db (r :: outer) a.conditions).symm
  rw [keeps, keeps, listing, listing, Clause.truths_append, Clause.truths_append,
    List.zip_append hlength, List.zip_append hlength]
  change (Clause.joinedTruth _ _ (_ ++ [(_, _)]) == _) = (Clause.joinedTruth _ _ (_ ++ [(_, _)]) == _)
  rw [h, Clause.joinedTruth_listed (r :: outer) .and _ c vs ws]

end Select

/-! ## Answers that show the numbers -/

/-- The rows of an answer are found by their numbers, so of two ways to keep rows only what they say
of the rows with a number matters for it. -/
theorem EntityView.rowOf_filter_congr {α : Type} {keeps keeps' : α → Bool} {row : α → Attributes}
    {rs : List α} {v : Value} (h : ∀ r ∈ rs, (((row r).lookup "id").any fun s =>
      (Value.scalar s).equals v) = true → keeps r = keeps' r) :
    rowOf ((rs.filter keeps).map row) v = rowOf ((rs.filter keeps').map row) v := by
  have hfind : ∀ k : α → Bool, rowOf ((rs.filter k).map row) v =
      (((rs.filter k).filter fun r => ((row r).lookup "id").any fun s =>
        (Value.scalar s).equals v).map row).getLast? := fun k => by
    rw [rowOf, ← List.head?_filter, List.filter_reverse, List.head?_reverse, List.filter_map]
    rfl
  have hfilter : (rs.filter keeps).filter (fun r => ((row r).lookup "id").any fun s =>
      (Value.scalar s).equals v) = (rs.filter keeps').filter fun r =>
        ((row r).lookup "id").any fun s => (Value.scalar s).equals v := by
    rw [List.filter_filter, List.filter_filter]
    refine List.filter_congr fun r hr => ?_
    cases hv : ((row r).lookup "id").any fun s => (Value.scalar s).equals v with
    | false => rw [Bool.false_and, Bool.false_and]
    | true => rw [h r hr hv]
  rw [hfind, hfind, hfilter]

namespace Select

/-- Answers show the numbers that a column has, each row under a name of its own. -/
structure Numbered (a : Select) (c : SourceColumn) : Prop where
  nodup : (a.columns.map OutputColumn.name).Nodup
  shown : OutputColumn.column c (some "id") ∈ a.columns
  type : c.column.type = .integer
  orders : a.orders = []
  limit : a.limit = none

variable {a : Select} {c : SourceColumn} (h : a.Numbered c)

include h

theorem Numbered.shared : a.shared.Numbered c := by
  obtain ⟨hnodup, hshown, htype, horders, hlimit⟩ := h
  obtain ⟨columns, base, joins, conditions, orders, limit⟩ := a
  cases horders
  exact ⟨hnodup, hshown, htype, rfl, hlimit⟩

omit h in
/-- A list that is asked for gives no value to a text. -/
theorem shared_listing (a : Select) (c : SourceColumn) (vs : List Scalar) :
    (a.listing c vs).shared = a.shared.listing c vs := by
  obtain ⟨columns, base, joins, conditions, orders, limit⟩ := a
  simp only [shared, given, listing, Select.fragments, Select.withValues,
    Clause.allFragments_append, Clause.allWithValues_append, Clause.allFragments, Clause.fragments,
    Clause.allWithValues, Clause.withValues, List.append_nil]

theorem Numbered.lookup_id (r : List Relation) :
    (a.row r).lookup "id" = some ((c.cell [r]).toScalar c.column.type) := by
  have hnames : ((a.row r).map Prod.fst).Nodup := by
    rw [Select.row, List.map_map]
    exact h.nodup
  rw [lookup_eq_some_iff_mem hnames]
  exact List.mem_map.mpr ⟨_, h.shown, rfl⟩

/-- The store has room for all numbers that it has been asked for. -/
theorem Numbered.storable_of_checkAll {ns : List (Option Int)}
    (hcheck : (a.listing c (ns.map Scalar.ofNumber?)).checkAll = .ok ()) {i : Int}
    (hi : some i ∈ ns) : Cell.isStorable i = true := by
  have hslot : some (Binding.plain.bind (.int i)) ∈ (a.listing c (ns.map Scalar.ofNumber?)).slots := by
    have hlisted : some (Binding.plain.bind (.int i)) ∈
        (Clause.amongValues c (ns.map Scalar.ofNumber?) false).slots := by
      rw [Clause.slots, listedBounds_numbers h.type, List.map_map]
      exact List.mem_map.mpr ⟨some i, hi, rfl⟩
    rw [Select.slots_eq, listing, Clause.allSlots_append, Clause.allSlots]
    simp only [List.mem_append, hlisted, true_or, or_true]
  obtain ⟨x, hx⟩ := (Select.checkAll_eq_ok_iff.mp hcheck).2.1 _ hslot
  have hx := Option.some.inj hx
  by_contra hroom
  have hrefused : Binding.plain.bind (.int i) = .refused .integerOutOfRange := if_neg hroom
  rw [hrefused] at hx
  cases hx

/-- What is answered where a list is asked for. -/
theorem Numbered.answer_listing {vs : List Scalar} {db : Database} {rows : List Attributes}
    (hrows : (a.listing c vs).answer db = .ok rows) : (a.listing c vs).checkAll = .ok () ∧
      rows = ((JoinedSource.extend db [] a.joins ((db.tableRows a.base.table).map fun row =>
        [a.base.relation row])).filter ((a.listing c vs).keeps db [])).map a.row := by
  rw [Select.answer_eq, Select.answerOver_eq (s := a.listing c vs) h.nodup] at hrows
  obtain ⟨u, hcheck, hrows⟩ := map_eq_ok_iff.mp hrows
  refine ⟨hcheck, hrows.symm.trans ?_⟩
  have hmatching : (a.listing c vs).matchingOn db [] (db.tableRows a.base.table) =
      (a.listing c vs).keptOn db [] (db.tableRows a.base.table) := by
    have horders : (a.listing c vs).orders = [] := h.orders
    have hlimit : (a.listing c vs).limit = none := h.limit
    rw [matchingOn, horders, hlimit]
    rfl
  exact congrArg (List.map a.row) hmatching

/-- The row of a number is the same whatever other numbers are asked for. -/
theorem Numbered.rowOf_answer {ns ms : List (Option Int)} {db : Database}
    {rows rows' : List Attributes}
    (hrows : (a.listing c (ns.map Scalar.ofNumber?)).answer db = .ok rows)
    (hrows' : (a.listing c (ms.map Scalar.ofNumber?)).answer db = .ok rows') {n : Option Int}
    (hn : n ∈ ns) (hm : n ∈ ms) :
    EntityView.rowOf rows (.scalar (.ofNumber? n)) =
      EntityView.rowOf rows' (.scalar (.ofNumber? n)) := by
  obtain ⟨hcheck, rfl⟩ := h.answer_listing hrows
  obtain ⟨hcheck', rfl⟩ := h.answer_listing hrows'
  refine EntityView.rowOf_filter_congr fun r _ hr => keeps_listing ?_
  rw [h.lookup_id] at hr
  rw [Clause.truth_listed h.type db [r] (fun i hi => h.storable_of_checkAll hcheck hi) hn hr,
    Clause.truth_listed h.type db [r] (fun i hi => h.storable_of_checkAll hcheck' hi) hm hr]

end Select

/-! ## Queries that ask for numbers -/

theorem Predicate.compileAll_append {scope : Scope} {ps qs : List Predicate} {cs : List Clause}
    (h : compileAll scope (ps ++ qs) = .ok cs) : ∃ ds es, compileAll scope ps = .ok ds ∧
      compileAll scope qs = .ok es ∧ cs = ds ++ es := by
  induction ps generalizing cs with
  | nil => exact ⟨[], cs, by rw [compileAll], h, rfl⟩
  | cons p ps ih =>
    rw [List.cons_append, compileAll] at h
    obtain ⟨c, hc, h⟩ := bind_eq_ok_iff.mp h
    obtain ⟨cs, hcs, h⟩ := bind_eq_ok_iff.mp h
    cases h
    obtain ⟨ds, es, hds, hes, rfl⟩ := ih hcs
    refine ⟨c :: ds, es, ?_, hes, rfl⟩
    rw [compileAll]
    exact bind_eq_ok_iff.mpr ⟨c, hc, bind_eq_ok_iff.mpr ⟨ds, hds, rfl⟩⟩

theorem Clause.mapM_inUtc_numbers (ns : List (Option Int)) :
    (ns.map Scalar.ofNumber?).mapM inUtc = .ok (ns.map Scalar.ofNumber?) := by
  induction ns with
  | nil => rfl
  | cons n ns ih =>
    have hn : inUtc (Scalar.ofNumber? n) = .ok (Scalar.ofNumber? n) := by cases n <;> rfl
    exact mapM_cons_eq_ok_iff.mpr ⟨_, _, hn, ih, rfl⟩

namespace Query

/-- A query that is answered has become a statement that is. -/
theorem exists_compile_of_answer {q : Query} {db : Database} {rows : List Attributes}
    (h : q.run.answer db = .ok rows) :
    ∃ a, q.compile = .ok a ∧ a.shared.answer db.opened = .ok rows := by
  cases ha : q.compile with
  | error f =>
    rw [Action.answer, Query.run, Action.run_bind, Action.run_lift, ha] at h
    cases h
  | ok a => exact ⟨a, rfl, (answer_run_shared ha db).symm.trans h⟩

/-- The rows of a query with listed values in a column. -/
def listing (q : Query) (ref : ColumnRef) (vs : List Scalar) : Query :=
  q.filterBy [.membership ref vs none false]

theorem compile_listing {q : Query} {ref : ColumnRef} {ns : List (Option Int)} {a : Select}
    (h : (q.listing ref (ns.map Scalar.ofNumber?)).compile = .ok a) : ∃ b c scope,
      q.Compiled b scope ∧ scope.column ref = .ok c ∧ a = b.listing c (ns.map Scalar.ofNumber?) := by
  obtain ⟨scope, hc⟩ := compiled_of_compile h
  obtain ⟨ds, es, hds, hes, hconditions⟩ := Predicate.compileAll_append hc.conditions
  rw [Predicate.compileAll] at hes
  obtain ⟨e, he, hes⟩ := bind_eq_ok_iff.mp hes
  rw [Predicate.compileAll] at hes
  cases hes
  rw [Predicate.compile] at he
  obtain ⟨c, hcolumn, he⟩ := bind_eq_ok_iff.mp he
  rw [Clause.mapM_inUtc_numbers] at he
  cases he
  refine ⟨{ a with conditions := ds }, c, scope, ?_, hcolumn, ?_⟩
  · exact ⟨hc.table, hc.base, hc.joins, hc.columns, hds, hc.orders, hc.limit⟩
  · cases a
    cases hconditions
    rfl

end Query

theorem Substitution.predicates_append {s : Substitution} {depth : Int} {ps qs rs : List Predicate}
    (h : s.predicates depth (ps ++ qs) = .ok rs) : ∃ ps' qs', s.predicates depth ps = .ok ps' ∧
      s.predicates depth qs = .ok qs' ∧ rs = ps' ++ qs' := by
  induction ps generalizing rs with
  | nil => exact ⟨[], rs, by rw [predicates], h, rfl⟩
  | cons p ps ih =>
    rw [List.cons_append, predicates] at h
    obtain ⟨p', hp, h⟩ := bind_eq_ok_iff.mp h
    obtain ⟨rs, hrs, h⟩ := bind_eq_ok_iff.mp h
    cases h
    obtain ⟨ps', qs', hps, hqs, rfl⟩ := ih hrs
    refine ⟨p' :: ps', qs', ?_, hqs, rfl⟩
    rw [predicates]
    exact bind_eq_ok_iff.mpr ⟨p', hp, bind_eq_ok_iff.mpr ⟨ps', hps, rfl⟩⟩

/-- As of an instant a list is asked for as before, of the column that stands for its own. -/
theorem Substitution.query_listing {s : Substitution} {q q' : Query} {ref : ColumnRef}
    {vs : List Scalar} (h : s.query (q.listing ref vs) = .ok q') :
    ∃ r, s.query q = .ok r ∧ q' = r.listing (s.column ref) vs := by
  obtain ⟨conditions, hconditions, h⟩ := bind_eq_ok_iff.mp h
  obtain ⟨joins, hjoins, h⟩ := bind_eq_ok_iff.mp h
  obtain ⟨ps, qs, hps, hqs, rfl⟩ := predicates_append hconditions
  rw [predicates, predicates] at hqs
  cases hqs
  cases h
  exact ⟨_, bind_eq_ok_iff.mpr ⟨ps, hps, bind_eq_ok_iff.mpr ⟨joins, hjoins, rfl⟩⟩, rfl⟩

/-! ### Columns that say their names -/

namespace Projection

/-- The projection says the name of its column. -/
def IsLabelled : Projection → Prop
  | column _ label => ∃ l, label = some l ∧ l ≠ ""
  | constant _ label => label ≠ ""
  | _ => False

variable {scope : Scope} {p : Projection} {cs : List OutputColumn}

theorem IsLabelled.compile (hp : p.IsLabelled) (h : OutputColumn.ofProjection scope p = .ok cs) :
    cs.map OutputColumn.name = [p.outputName] ∧ ∀ ref l, p = .column ref (some l) →
      ∃ c, scope.column ref = .ok c ∧ OutputColumn.column c (some l) ∈ cs := by
  cases p with
  | column ref label =>
    obtain ⟨l, rfl, hl⟩ := hp
    obtain ⟨c, hc, h⟩ := bind_eq_ok_iff.mp h
    have hlabel : (some l).filter (· ≠ "") = some l := by simp [Option.filter, hl]
    rw [hlabel] at h
    cases h
    refine ⟨?_, ?_⟩
    · rw [Projection.outputName, if_neg hl]
      rfl
    · rintro _ _ ⟨⟩
      exact ⟨c, hc, List.mem_singleton_self _⟩
  | constant v l =>
    cases h
    exact ⟨by simp [OutputColumn.name, OutputColumn.plainName?, outputName, show l ≠ "" from hp],
      fun _ _ e => nomatch e⟩
  | allColumns table => exact hp.elim
  | foreign v => exact hp.elim

end Projection

theorem outputColumns_labelled {scope : Scope} {table : String} {ps : List Projection}
    {cs : List OutputColumn} (hps : ∀ p ∈ ps, p.IsLabelled) (hne : ps ≠ [])
    (h : outputColumns scope table ps = .ok cs) :
    cs.map OutputColumn.name = ps.map Projection.outputName ∧
      ∀ ref l, .column ref (some l) ∈ ps →
        ∃ c, scope.column ref = .ok c ∧ OutputColumn.column c (some l) ∈ cs := by
  rw [Substitution.outputColumns_of_ne_nil _ _ hne] at h
  obtain ⟨css, hcss, rfl⟩ := map_eq_ok_iff.mp h
  clear h hne
  induction ps generalizing css with
  | nil =>
    cases hcss
    exact ⟨rfl, fun _ _ hmem => nomatch hmem⟩
  | cons p ps ih =>
    obtain ⟨cs, css, hcs, hrest, rfl⟩ := mapM_cons_eq_ok_iff.mp hcss
    obtain ⟨hp, hps⟩ := List.forall_mem_cons.mp hps
    obtain ⟨hname, hshown⟩ := hp.compile hcs
    obtain ⟨hnames, hall⟩ := ih hps css hrest
    refine ⟨?_, fun ref l hmem => ?_⟩
    · rw [List.flatten_cons, List.map_append, hname, hnames]
      rfl
    · rcases List.mem_cons.mp hmem with he | hmem
      · obtain ⟨c, hc, hcs⟩ := hshown ref l he.symm
        exact ⟨c, hc, List.mem_append_left _ hcs⟩
      · obtain ⟨c, hc, hcs⟩ := hall ref l hmem
        exact ⟨c, hc, List.mem_append_right _ hcs⟩

namespace Substitution

/-- The columns of an entity say their names. -/
theorem isLabelled_entityColumns (s : Substitution) : ∀ p ∈ s.entityColumns, p.IsLabelled := by
  have hpayload : ∀ k ∈ Kind.all, ∀ n ∈ k.payload, n ≠ "" := by decide
  rw [entityColumns, List.forall_mem_append, List.forall_mem_map]
  refine ⟨fun n hn => ⟨n, rfl, hpayload _ s.kind.mem_all n hn⟩, ?_⟩
  simp [Projection.IsLabelled]

theorem names_entityColumns (s : Substitution) : s.entityColumns.map Projection.outputName =
    s.kind.payload ++ ["id", "created_at", "updated_at"] := by
  have hpayload : ∀ k ∈ Kind.all, ∀ n ∈ k.payload, n ≠ "" := by decide
  rw [entityColumns, List.map_append, List.map_map]
  congr 1
  exact (List.map_congr_left fun n hn => if_neg (hpayload _ s.kind.mem_all n hn)).trans
    (List.map_id _)

end Substitution

/-- A query for numbers: the rows of the live table of a kind, whole or by their numbers. -/
structure Query.AsksNumbers (q : Query) (kind : Kind) : Prop where
  table : q.table = kind.table.name
  joins : q.joins = []
  orders : q.orders = []
  limit : q.limit = .all
  projections : q.projections = [] ∨ q.projections = [.column ⟨kind.table.name, "id"⟩ none]

/-- The number of an entity in its journal. -/
theorem Substitution.column_id (s : Substitution) :
    s.column ⟨s.kind.table.name, "id"⟩ = journalColumn "entity_id" := by
  rw [column, s.isOwnTable_table]
  rfl

namespace Substitution

variable {s : Substitution}

/-- The scope of a query without joins of its own, as of an instant. -/
theorem lookup_lines {base : Scope} {js : List JoinedSource} {final : Scope}
    (h : Join.compileAll base 1 [s.entryJoin, s.liveJoin] = .ok (js, final)) :
    final.lookup Kind.journalsName = some .lines := by
  obtain ⟨j, inner, ks, hj, hrest, -⟩ := Join.compileAll_cons h
  obtain ⟨l, last, none', hl, hnone, -⟩ := Join.compileAll_cons hrest
  rw [Join.compileAll] at hnone
  cases hnone
  obtain rfl := Join.compile_asOf hj
  obtain ⟨table, cs, -, rfl, -, -⟩ := Join.compile_table hl
  rfl

/-- The columns of such a query say their names, which are different, and the number is one. -/
theorem labelled_projections {q : Query} (hq : q.AsksNumbers s.kind) :
    (∀ p ∈ s.projections q.projections, p.IsLabelled) ∧
      ((s.projections q.projections).map Projection.outputName).Nodup ∧
      .column (journalColumn "entity_id") (some "id") ∈ s.projections q.projections := by
  rcases hq.projections with hps | hps
  · have hall : ∀ k ∈ Kind.all, ("timestamp" :: (k.payload ++
        ["id", "created_at", "updated_at"])).Nodup := by decide
    rw [hps, projections]
    refine ⟨List.forall_mem_cons.mpr ⟨(by decide : "timestamp" ≠ ""), s.isLabelled_entityColumns⟩, ?_, ?_⟩
    · rw [List.map_cons, names_entityColumns]
      exact hall _ s.kind.mem_all
    · rw [entityColumns]
      simp
  · have hown : s.isIdColumn (.column ⟨s.kind.table.name, "id"⟩ none) = true := by
      rw [isIdColumn, s.isOwnTable_table]
      rfl
    rw [hps, projections, if_pos hown, s.column_id]
    exact ⟨List.forall_mem_singleton.mpr ⟨"id", rfl, by decide⟩, List.nodup_singleton _,
      List.mem_singleton_self _⟩

theorem numbered {q r : Query} (hq : q.AsksNumbers s.kind) (hr : s.query q = .ok r) {a : Select}
    {scope : Scope} (ha : r.Compiled a scope) {c : SourceColumn}
    (hc : scope.column (s.column ⟨s.kind.table.name, "id"⟩) = .ok c) : a.Numbered c := by
  obtain ⟨conditions, -, hr⟩ := bind_eq_ok_iff.mp hr
  rw [hq.joins] at hr
  cases hr
  rw [s.column_id] at hc
  have horders : [] = a.orders := by
    have horders := ha.orders
    dsimp only at horders
    rw [hq.orders] at horders
    exact Except.ok.inj horders
  have hlimit : none = a.limit := by
    have hlimit := ha.limit
    dsimp only at hlimit
    rw [hq.limit] at hlimit
    exact Except.ok.inj hlimit
  have htype : c.column.type = .integer := by
    obtain ⟨hsource, hcolumn⟩ := Scope.column_eq_ok_iff.mp hc
    rw [← Option.some.inj ((lookup_lines ha.joins).symm.trans hsource)] at hcolumn
    have hentity : Schema.journals.column? "entity_id" = some ⟨"entity_id", .integer, false⟩ := rfl
    exact congrArg Column.type (Option.some.inj (hcolumn.symm.trans hentity))
  obtain ⟨hlabelled, hnames, hid⟩ := labelled_projections hq
  obtain ⟨hcolumns, hshown⟩ := outputColumns_labelled hlabelled (List.ne_nil_of_mem hid) ha.columns
  refine ⟨hcolumns ▸ hnames, ?_, htype, horders.symm, hlimit.symm⟩
  obtain ⟨c', hc', hmem⟩ := hshown _ _ hid
  rwa [Except.ok.inj (hc.symm.trans hc')]

end Substitution

/-- A query for listed numbers that is answered as of an instant is compiled by parts: the list goes
behind the conditions of the query without it. -/
theorem Query.exists_listing_of_answer {kind : Kind} {q : Query} (hq : q.AsksNumbers kind)
    {timestamp : Value} {moment : Option Moment} {clock : Instant} {ns : List (Option Int)}
    {r : Query} (hr : (q.listing ⟨kind.table.name, "id"⟩ (ns.map Scalar.ofNumber?)).asOfTimestamp
      timestamp moment clock = .ok r) {db : Database} {rows : List Attributes}
    (hrows : r.run.answer db = .ok rows) : ∃ t i p b c scope, timestamp.toTimestamp = .ok t ∧
      t.resolveAt moment clock = .ok i ∧ (⟨kind, t, i⟩ : Substitution).query q = .ok p ∧
      p.Compiled b scope ∧
      scope.column ((⟨kind, t, i⟩ : Substitution).column ⟨kind.table.name, "id"⟩) = .ok c ∧
      b.Numbered c ∧ (b.shared.listing c (ns.map Scalar.ofNumber?)).answer db.opened = .ok rows := by
  obtain ⟨k, t, i, hk, ht, hi, hr⟩ := Query.substitution_of_asOf hr
  obtain rfl : kind = k := by
    change Kind.ofTable? q.table = _ at hk
    rw [hq.table, Kind.ofTable?_table] at hk
    exact Option.some.inj hk
  obtain ⟨p, hp, rfl⟩ := Substitution.query_listing hr
  obtain ⟨a, ha, hrows⟩ := Query.exists_compile_of_answer hrows
  obtain ⟨b, c, scope, hb, hc, rfl⟩ := Query.compile_listing ha
  rw [Select.shared_listing] at hrows
  exact ⟨t, i, p, b, c, scope, ht, hi, hp, hb, hc,
    Substitution.numbered (s := ⟨kind, t, i⟩) hq hp hb hc, hrows⟩

/-- Numbers for which an answer has been found are such that the store can hold. -/
theorem Query.storable_of_listing {kind : Kind} {q : Query} (hq : q.AsksNumbers kind)
    {timestamp : Value} {moment : Option Moment} {clock : Instant} {ns : List (Option Int)}
    {r : Query} (hr : (q.listing ⟨kind.table.name, "id"⟩ (ns.map Scalar.ofNumber?)).asOfTimestamp
      timestamp moment clock = .ok r) {db : Database} {rows : List Attributes}
    (hrows : r.run.answer db = .ok rows) {i : Int} (hi : some i ∈ ns) :
    Cell.isStorable i = true := by
  obtain ⟨t, j, p, b, c, scope, -, -, -, -, -, hnumbered, hrows⟩ :=
    Query.exists_listing_of_answer hq hr hrows
  exact hnumbered.shared.storable_of_checkAll (hnumbered.shared.answer_listing hrows).1 hi

/-- In the answers to a query for numbers the row of a number is the same whatever other numbers are
asked for. -/
theorem Query.rowOf_listing {kind : Kind} {q : Query} (hq : q.AsksNumbers kind) {timestamp : Value}
    {moment : Option Moment} {clock : Instant} {ns ms : List (Option Int)} {r r' : Query}
    (hr : (q.listing ⟨kind.table.name, "id"⟩ (ns.map Scalar.ofNumber?)).asOfTimestamp timestamp
      moment clock = .ok r)
    (hr' : (q.listing ⟨kind.table.name, "id"⟩ (ms.map Scalar.ofNumber?)).asOfTimestamp timestamp
      moment clock = .ok r') {db : Database} {rows rows' : List Attributes}
    (hrows : r.run.answer db = .ok rows) (hrows' : r'.run.answer db = .ok rows') {n : Option Int}
    (hn : n ∈ ns) (hm : n ∈ ms) : EntityView.rowOf rows (.scalar (.ofNumber? n)) =
      EntityView.rowOf rows' (.scalar (.ofNumber? n)) := by
  obtain ⟨t, i, p, b, c, scope, ht, hi, hp, hb, hc, hnumbered, hrows⟩ :=
    Query.exists_listing_of_answer hq hr hrows
  obtain ⟨t', i', p', b', c', scope', ht', hi', hp', hb', hc', -, hrows'⟩ :=
    Query.exists_listing_of_answer hq hr' hrows'
  obtain rfl : t = t' := Except.ok.inj (ht.symm.trans ht')
  obtain rfl : i = i' := Except.ok.inj (hi.symm.trans hi')
  obtain rfl : p = p' := Except.ok.inj (hp.symm.trans hp')
  obtain ⟨rfl, rfl⟩ := hb.unique hb'
  obtain rfl : c = c' := Except.ok.inj (hc.symm.trans hc')
  exact hnumbered.shared.rowOf_answer hrows hrows' hn hm

/-- The query for a filter asks for numbers, of the rows for which its conditions hold. -/
theorem Filter.query_scalars {f : Filter} {ss : List Scalar} {clock : Instant} {q : Query}
    (h : f.query (ss.map .scalar) clock = .ok q) : ∃ ps, f.predicates clock = .ok ps ∧
      q = (((Query.ofTable f.kind.table.name).filterBy ps).selecting
        [.column ⟨f.kind.table.name, "id"⟩ none]).listing ⟨f.kind.table.name, "id"⟩ ss := by
  obtain ⟨ps, hps, h⟩ := bind_eq_ok_iff.mp h
  obtain ⟨p, hp, h⟩ := bind_eq_ok_iff.mp h
  rw [Predicate.among_list_eq_ok_iff.mpr ⟨ss, rfl, rfl⟩] at hp
  cases hp
  cases h
  exact ⟨ps, hps, rfl⟩

theorem Filter.asksNumbers (f : Filter) (ps : List Predicate) :
    (((Query.ofTable f.kind.table.name).filterBy ps).selecting
      [.column ⟨f.kind.table.name, "id"⟩ none]).AsksNumbers f.kind :=
  ⟨rfl, rfl, rfl, rfl, .inr rfl⟩

end Chronicle
