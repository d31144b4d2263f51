import Chronicle.Proofs.Statement.OpenTexts

/-!
# Names in scope

A query whose values and texts can be written becomes a statement exactly where its names lead
somewhere.  The condition of a join sees the base table, the joins before it and its own; the other
clauses see all joins; a subquery sees its own relations only.  Of two relations of one name the
later one counts.

* `Relations.Has`: a column of the relations in scope;
* `Query.WellScoped`: all names in a query and in its subqueries are in scope;
* `Query.isWritable`: what a query says apart from its names can be written;
* `Decides`: a condition that parts successes from refusals of a query;
* `Query.decides_compile`: to be well scoped is such a condition;
* `Query.refused_iff_not_wellScoped`: which queries are refused for their names.
-/

namespace Chronicle

open Chronicle.Calendar

/-- The failures that say that a query means nothing, be it for its form or for its names. -/
def Failure.isInvalidQuery : Failure → Bool
  | notAQuery _ | unknownTable _ | notARelation _ _ | unknownColumn _ | missingDataTable _
  | relationNotInQuery _ | unknownProjection _ | unknownPredicate _ | alreadyHistoric _
  | tableNotJournaled _ => true
  | _ => false

/-! ## Names in scope -/

/-- The relations in scope, the latest first: the name of each and that of its table. -/
abbrev Relations := List (String × String)

namespace Relations

def Names (rs : Relations) (name : String) : Prop := ∃ table, rs.lookup name = some table

/-- The latest relation of the name has the column. -/
def Has (rs : Relations) (ref : ColumnRef) : Prop :=
  ∃ name table, rs.lookup ref.table = some name ∧ Schema.table? name = some table ∧
    ref.name ∈ table.columnNames

end Relations

namespace Join

/-- The relation that a join adds. -/
def added (j : Join) : String × String :=
  match j with
  | table name _ _ _ => (j.relation, name)
  | asOf _ _ _ => (j.relation, Schema.journals.name)

/-- The relations in scope after some joins. -/
def after (rs : Relations) (js : List Join) : Relations := js.foldl (fun rs j => j.added :: rs) rs

end Join

def Operand.WellScoped (rs : Relations) : Operand → Prop
  | column ref => rs.Has ref
  | value _ => True

def Projection.WellScoped (rs : Relations) : Projection → Prop
  | column ref _ => rs.Has ref
  | allColumns table => rs.Names table
  | constant _ _ | .foreign _ => True

def OrderBy.WellScoped (rs : Relations) (o : OrderBy) : Prop :=
  match o.target with
  | .column ref => rs.Has ref
  | .raw _ => True

mutual

/-- The columns of a condition are among those of the relations in scope, and its subqueries are
well scoped on their own. -/
def Predicate.WellScoped (rs : Relations) : Predicate → Prop
  | .equality ref v | .notEqual ref v | .comparison ref _ v => rs.Has ref ∧ v.WellScoped rs
  | .membership ref _ none _ => rs.Has ref
  | .membership ref _ (some q) _ => rs.Has ref ∧ q.WellScoped
  | .grouping ps _ => Predicate.AllWellScoped rs ps
  | .negation p => p.WellScoped rs
  | .existence q _ => q.WellScoped
  | .raw _ | .foreign _ => True

def Predicate.AllWellScoped (rs : Relations) : List Predicate → Prop
  | [] => True
  | p :: ps => p.WellScoped rs ∧ Predicate.AllWellScoped rs ps

/-- A join refers to the relations before it and to its own. -/
def Join.WellScoped (rs : Relations) : Join → Prop
  | .table name given on outer =>
    (∃ t, Schema.table? name = some t) ∧
      Predicate.AllWellScoped ((Join.table name given on outer).added :: rs) on
  | .asOf _ dataTable _ => dataTable = Schema.journals.name ∨ rs.Names dataTable

def Join.AllWellScoped (rs : Relations) : List Join → Prop
  | [] => True
  | j :: js => j.WellScoped rs ∧ Join.AllWellScoped (j.added :: rs) js

/-- All tables of a query are known, and all its clauses refer to relations in scope and to columns
that these have. -/
def Query.WellScoped : Query → Prop
  | ⟨table, joins, conditions, projections, orders, _, _, _⟩ =>
    (∃ t, Schema.table? table = some t) ∧ Join.AllWellScoped [(table, table)] joins ∧
      (∀ p ∈ projections, p.WellScoped (Join.after [(table, table)] joins)) ∧
      Predicate.AllWellScoped (Join.after [(table, table)] joins) conditions ∧
      ∀ o ∈ orders, o.WellScoped (Join.after [(table, table)] joins)

end

/-! ## What can be written -/

/-- Moments are written in UTC, so they have to lie within the calendar. -/
def Scalar.isWritable : Scalar → Bool
  | moment m => m.instant?.isSome
  | _ => true

/-- Neither nothing nor a truth value. -/
def Scalar.isOrdered : Scalar → Bool
  | null | bool _ => false
  | _ => true

namespace Operand

def isWritable : Operand → Bool
  | column _ => true
  | value s => s.isWritable

def isOrdered : Operand → Bool
  | column _ => true
  | value s => s.isOrdered

end Operand

/-- All parameters with a value occur in the text, and none has a reserved name. -/
def RawFragment.isWritable (r : RawFragment) : Bool :=
  r.params.all fun p => !Fragment.reserved.contains p.1 && (Fragment.declared r.sql).contains p.1

namespace Projection

def isWritable : Projection → Bool
  | .foreign _ => false
  | _ => true

end Projection

def OrderBy.isWritable (o : OrderBy) : Bool :=
  match o.target with
  | .column _ => true
  | .raw r => r.isWritable

def Limit.isWritable : Limit → Bool
  | .foreign _ => false
  | _ => true

mutual

/-- The values in a condition and its texts can be written, comparisons by order are with values
that have one, and nothing is negated that is a text, alone or as the only member of groupings. -/
def Predicate.isWritable : Predicate → Bool
  | .equality _ v | .notEqual _ v => v.isWritable
  | .comparison _ _ v => v.isWritable && v.isOrdered
  | .membership _ values none _ => values.all Scalar.isWritable
  | .membership _ _ (some q) _ => q.isWritable
  | .raw r => r.isWritable
  | .grouping ps _ => Predicate.areWritable ps
  | .negation p => p.isWritable && (p.openTexts none).isEmpty
  | .existence q _ => q.isWritable
  | .foreign _ => false

def Predicate.areWritable : List Predicate → Bool
  | [] => true
  | p :: ps => p.isWritable && Predicate.areWritable ps

def Join.isWritable : Join → Bool
  | .table _ _ on _ => Predicate.areWritable on
  | .asOf _ _ timestamp => timestamp.instant?.isSome

def Join.areWritable : List Join → Bool
  | [] => true
  | j :: js => j.isWritable && Join.areWritable js

/-- What a query says apart from its names can be written into a statement. -/
def Query.isWritable : Query → Bool
  | ⟨_, joins, conditions, projections, orders, limit, _, _⟩ =>
    Join.areWritable joins && projections.all Projection.isWritable &&
      Predicate.areWritable conditions && orders.all OrderBy.isWritable && limit.isWritable

end

/-! ## Outcomes that a condition decides -/

/-- The outcome is a success where the condition holds, and elsewhere the refusal of a query. -/
def Decides {α : Type} (p : Prop) : Except Failure α → Prop
  | .ok _ => p
  | .error f => ¬p ∧ f.isInvalidQuery = true

namespace Decides

variable {α β : Type} {p q : Prop} {x : Except Failure α}

theorem congr (h : Decides p x) (hpq : p ↔ q) : Decides q x := propext hpq ▸ h

/-- What fails with refusals only is decided by whatever tells its successes. -/
theorem of_iff (hp : p ↔ ∃ y, x = .ok y) (hx : ∀ f, x = .error f → f.isInvalidQuery = true) :
    Decides p x := by
  cases x with
  | error f => exact ⟨fun h => (nomatch (hp.mp h).choose_spec), hx f rfl⟩
  | ok y => exact hp.mpr ⟨y, rfl⟩

theorem of_exists_ok (h : ∃ y, x = .ok y) : Decides True x := by
  obtain ⟨y, rfl⟩ := h
  trivial

theorem bind {f : α → Except Failure β} (hx : Decides p x)
    (hf : ∀ y, x = .ok y → Decides q (f y)) : Decides (p ∧ q) (x >>= f) := by
  cases x with
  | error e => exact ⟨fun h => hx.1 h.1, hx.2⟩
  | ok y => exact (hf y rfl).congr (and_iff_right hx).symm

/-- What always succeeds afterwards decides nothing. -/
theorem followed {f : α → Except Failure β} (hx : Decides p x)
    (hf : ∀ y, x = .ok y → ∃ z, f y = .ok z) : Decides p (x >>= f) :=
  (hx.bind fun y hy => of_exists_ok (hf y hy)).congr (and_iff_left trivial)

theorem map (f : α → β) (hx : Decides p x) : Decides p (x.map f) := by
  cases x <;> exact hx

/-- A list gone through member by member. -/
theorem mapM {γ : Type} {f : γ → Except Failure α} {p : γ → Prop} {cs : List γ}
    (hf : ∀ c ∈ cs, Decides (p c) (f c)) : Decides (∀ c ∈ cs, p c) (cs.mapM f) := by
  induction cs with
  | nil => exact List.forall_mem_nil _
  | cons c cs ih =>
    obtain ⟨hc, hcs⟩ := List.forall_mem_cons.mp hf
    rw [List.mapM_cons]
    exact (hc.bind fun y _ => (ih hcs).followed fun ys _ => ⟨y :: ys, rfl⟩).congr
      List.forall_mem_cons.symm

theorem exists_ok (hx : Decides p x) (hp : p) : ∃ y, x = .ok y := by
  cases x with
  | error f => exact absurd hp hx.1
  | ok y => exact ⟨y, rfl⟩

theorem refused_iff (hx : Decides p x) :
    (∃ f, x = .error f ∧ f.isInvalidQuery = true) ↔ ¬p := by
  cases x with
  | error f => exact iff_of_true ⟨f, rfl, hx.2⟩ hx.1
  | ok y => exact iff_of_false nofun (not_not_intro hx)

end Decides

/-! ## Names -/

theorem decides_findTable (name : String) :
    Decides (∃ t, Schema.table? name = some t) (findTable name) := by
  refine .of_iff (exists_congr fun t => findTable_eq_ok_iff.symm) fun f h => ?_
  unfold findTable at h
  split at h <;> cases h
  rfl

theorem Table.mem_columnNames_iff {t : Table} {name : String} :
    name ∈ t.columnNames ↔ ∃ c, t.column? name = some c := by
  rw [column?, ← Option.isSome_iff_exists, List.find?_isSome, columnNames, List.mem_map]
  simp only [beq_iff_eq]

theorem Relations.names_cons_iff {rs : Relations} {a table name : String} :
    Relations.Names ((a, table) :: rs) name ↔ name = a ∨ rs.Names name := by
  unfold Names
  rw [List.lookup_cons]
  by_cases h : name = a
  · rw [beq_iff_eq.mpr h]
    exact iff_of_true ⟨table, rfl⟩ (.inl h)
  · rw [beq_eq_false_iff_ne.mpr h, or_iff_right h]

namespace Scope

/-- The relations of a scope have given names and tables, and the store has these tables. -/
structure Shows (scope : Scope) (rs : Relations) : Prop where
  lookup : ∀ name, rs.lookup name = (scope.lookup name).map fun s => s.table.name
  tables : ∀ name s, scope.lookup name = some s → Schema.table? s.table.name = some s.table

namespace Shows

variable {scope : Scope} {rs : Relations}

theorem nil : Shows [] [] := ⟨fun _ => rfl, nofun⟩

theorem cons (h : scope.Shows rs) (name : String) {s : Source}
    (hs : Schema.table? s.table.name = some s.table) :
    Shows ((name, s) :: scope) ((name, s.table.name) :: rs) := by
  constructor
  · intro a
    rw [List.lookup_cons, List.lookup_cons]
    split
    · rfl
    · exact h.lookup a
  · intro a u hu
    rw [List.lookup_cons] at hu
    split at hu
    · cases hu
      exact hs
    · exact h.tables a u hu

theorem names_iff (h : scope.Shows rs) {name : String} :
    rs.Names name ↔ ∃ s, scope.lookup name = some s := by
  unfold Relations.Names
  rw [h.lookup, ← Option.isSome_iff_exists, Option.isSome_map, Option.isSome_iff_exists]

theorem has_iff (h : scope.Shows rs) {ref : ColumnRef} :
    rs.Has ref ↔ ∃ x, scope.column ref = .ok x := by
  unfold Relations.Has
  rw [h.lookup]
  constructor
  · rintro ⟨name, t, hname, ht, hmem⟩
    obtain ⟨s, hs, rfl⟩ := Option.map_eq_some_iff.mp hname
    rw [h.tables _ s hs] at ht
    cases ht
    obtain ⟨c, hc⟩ := Table.mem_columnNames_iff.mp hmem
    exact ⟨⟨s, c⟩, column_eq_ok_iff.mpr ⟨hs, hc⟩⟩
  · rintro ⟨x, hx⟩
    obtain ⟨hs, hc⟩ := column_eq_ok_iff.mp hx
    exact ⟨_, x.source.table, by rw [hs]; rfl, h.tables _ _ hs,
      Table.mem_columnNames_iff.mpr ⟨_, hc⟩⟩

theorem decides_column (h : scope.Shows rs) (ref : ColumnRef) :
    Decides (rs.Has ref) (scope.column ref) := by
  refine .of_iff h.has_iff fun f hf => ?_
  unfold column at hf
  split at hf
  · cases hf
    rfl
  · split at hf <;> cases hf
    rfl

theorem decides_columns (h : scope.Shows rs) (table : String) :
    Decides (rs.Names table) (OutputColumn.ofProjection scope (.allColumns table)) := by
  refine .of_iff (h.names_iff.trans ?_) fun f hf => ?_
  · simp only [OutputColumn.ofProjection_allColumns, exists_comm, exists_and_left, exists_eq,
      and_true]
  · unfold OutputColumn.ofProjection at hf
    dsimp only at hf
    split at hf <;> cases hf
    rfl

end Shows

end Scope

/-! ## Values and texts -/

theorem Calendar.Moment.exists_toInstant {m : Moment} (h : m.instant?.isSome = true) :
    ∃ i, m.toInstant = .ok i := by
  obtain ⟨i, hi⟩ := Option.isSome_iff_exists.mp h
  exact ⟨i, by rw [toInstant, hi]⟩

namespace Clause

variable {s : Scalar}

theorem exists_inUtc (h : s.isWritable = true) : ∃ s', inUtc s = .ok s' := by
  cases s with
  | moment m =>
    obtain ⟨i, hi⟩ := Moment.exists_toInstant h
    exact ⟨_, map_eq_ok_iff.mpr ⟨i, hi, rfl⟩⟩
  | _ => exact ⟨_, rfl⟩

theorem exists_equation (op : Relator) (x : SourceColumn) (h : s.isWritable = true) :
    ∃ c, equation op x s = .ok c := by
  unfold equation
  split
  · exact ⟨_, rfl⟩
  · exact ⟨_, rfl⟩
  · obtain ⟨s', hs⟩ := exists_inUtc h
    exact ⟨_, map_eq_ok_iff.mpr ⟨s', hs, rfl⟩⟩

theorem exists_ordering (op : Relator) (x : SourceColumn) (h : s.isWritable = true)
    (hordered : s.isOrdered = true) : ∃ c, ordering op x s = .ok c := by
  unfold ordering
  split
  · cases hordered
  · cases hordered
  · obtain ⟨s', hs⟩ := exists_inUtc h
    exact ⟨_, map_eq_ok_iff.mpr ⟨s', hs, rfl⟩⟩

end Clause

theorem RawFragment.exists_checkFragment {r : RawFragment} (h : r.isWritable = true) :
    ∃ r', checkFragment r = .ok r' := by
  refine exists_checkFragment_iff.mpr fun p hp => ?_
  have hp := List.all_eq_true.mp h p hp
  rw [Bool.and_eq_true, Bool.not_eq_true', Bool.eq_false_iff, Ne, List.contains_iff_mem,
    List.contains_iff_mem] at hp
  exact hp

theorem Limit.exists_count {l : Limit} (h : l.isWritable = true) : ∃ n, l.count = .ok n := by
  cases l with
  | «foreign» v => cases h
  | _ => exact ⟨_, rfl⟩

/-- Only what is text alone becomes text alone. -/
theorem Predicate.isRaw_of_compile {scope : Scope} {p : Predicate}
    (hp : (p.openTexts none).isEmpty = true) {c : Clause} (h : p.compile scope = .ok c) :
    c.isRaw = false := by
  cases c with
  | raw r =>
    have hr : r ∈ p.openTexts none := mem_openTexts h (List.mem_singleton_self _)
    rw [List.isEmpty_iff.mp hp] at hr
    cases hr
  | _ => rfl

/-! ## Columns and orders -/

namespace Scope.Shows

variable {scope : Scope} {rs : Relations}

/-- A condition on a column is decided by its names. -/
theorem decides_comparison (h : scope.Shows rs) {ref : ColumnRef} {v : Operand} {op : Relator}
    {build : SourceColumn → Scalar → Except Failure Clause}
    (hbuild : ∀ x s, v = .value s → ∃ c, build x s = .ok c) :
    Decides (rs.Has ref ∧ v.WellScoped rs) (do
      let x ← scope.column ref
      match v with
      | .column r => return Clause.compare op x (.column (← scope.column r))
      | .value s => build x s) := by
  refine (h.decides_column ref).bind fun x _ => ?_
  cases v with
  | column r => exact (h.decides_column r).followed fun y _ => ⟨_, rfl⟩
  | value s => exact .of_exists_ok (hbuild x s rfl)

theorem decides_ofProjection (h : scope.Shows rs) {p : Projection} (hp : p.isWritable = true) :
    Decides (p.WellScoped rs) (OutputColumn.ofProjection scope p) := by
  cases p with
  | column ref label => exact (h.decides_column ref).followed fun x _ => ⟨_, rfl⟩
  | constant value label => exact .of_exists_ok ⟨_, rfl⟩
  | allColumns table => exact h.decides_columns table
  | «foreign» v => cases hp

theorem decides_outputColumns (h : scope.Shows rs) {table : String} (ht : rs.Names table)
    {ps : List Projection} (hps : ps.all Projection.isWritable = true) :
    Decides (∀ p ∈ ps, p.WellScoped rs) (outputColumns scope table ps) := by
  cases ps with
  | nil =>
    obtain ⟨s, hs⟩ := h.names_iff.mp ht
    refine (Decides.of_exists_ok ?_).congr (iff_of_true trivial (List.forall_mem_nil _))
    exact ⟨_, by rw [outputColumns, hs]⟩
  | cons p ps =>
    exact (Decides.mapM fun p hp => h.decides_ofProjection (List.all_eq_true.mp hps p hp)).map _

theorem decides_ofOrder (h : scope.Shows rs) {o : OrderBy} (ho : o.isWritable = true) :
    Decides (o.WellScoped rs) (OrderExpr.ofOrder scope o) := by
  unfold OrderBy.isWritable at ho
  unfold OrderBy.WellScoped OrderExpr.ofOrder
  cases ht : o.target with
  | column ref => exact (h.decides_column ref).map _
  | raw r =>
    rw [ht] at ho
    exact (Decides.of_exists_ok (RawFragment.exists_checkFragment ho)).map _

end Scope.Shows

/-! ## Joins -/

theorem Scope.Shows.base {name : String} {t : Table} (h : findTable name = .ok t) :
    Shows [(name, ⟨t, none, 0⟩)] [(name, name)] := by
  have ht := findTable_eq_ok_iff.mp h
  obtain rfl := Schema.table?_name ht
  exact nil.cons t.name ht

theorem Scope.Shows.joined {scope : Scope} {rs : Relations} (h : scope.Shows rs) {name : String}
    {t : Table} (ht : findTable name = .ok t) (given : Option String) (place : Nat)
    (on : List Predicate) (outer : Bool) :
    Shows (((Source.joined t given place).name, .joined t given place) :: scope)
      ((Join.table name given on outer).added :: rs) := by
  have htable := findTable_eq_ok_iff.mp ht
  obtain rfl := Schema.table?_name htable
  rw [Source.name_joined ht given place on outer]
  exact h.cons _ (s := Source.joined t given place) htable

/-- A join adds its relation to those in scope. -/
theorem Scope.Shows.join {scope inner : Scope} {rs : Relations} (h : scope.Shows rs) {j : Join}
    {place : Nat} {s : JoinedSource} (hj : j.compile scope place = .ok (s, inner)) :
    inner.Shows (j.added :: rs) := by
  cases j with
  | table name given on outer =>
    obtain ⟨t, cs, ht, rfl, -, -⟩ := Join.compile_table hj
    exact h.joined ht given place on outer
  | asOf entityType dataTable timestamp =>
    obtain rfl := Join.compile_asOf hj
    exact h.cons _ rfl

theorem Scope.Shows.joins {scope last : Scope} {rs : Relations} (h : scope.Shows rs)
    {js : List Join} {place : Nat} {ss : List JoinedSource}
    (hjs : Join.compileAll scope place js = .ok (ss, last)) : last.Shows (Join.after rs js) := by
  induction js generalizing scope rs place ss with
  | nil =>
    rw [Join.compileAll] at hjs
    cases hjs
    exact h
  | cons j js ih =>
    obtain ⟨s, inner, rest, hj, hrest, -⟩ := Join.compileAll_cons hjs
    exact ih (h.join hj) hrest

/-- Joins hide relations, but take none away. -/
theorem Join.names_after {rs : Relations} {name : String} (h : rs.Names name) (js : List Join) :
    (Join.after rs js).Names name := by
  induction js generalizing rs with
  | nil => exact h
  | cons j js ih => exact ih (Relations.names_cons_iff.mpr (.inr h))

/-! ## Conditions and queries -/

-- By recursion on the query.  `Scope.Shows` is what a join keeps, and what a subquery starts anew.
mutual

theorem Predicate.decides_compile : ∀ (p : Predicate), p.isWritable = true →
    ∀ {scope : Scope} {rs : Relations}, scope.Shows rs →
      Decides (p.WellScoped rs) (p.compile scope)
  | .equality ref v, hp, scope, rs, h => by
    rw [Predicate.compile]
    refine h.decides_comparison fun x s hv => ?_
    subst hv
    exact Clause.exists_equation .eq x hp
  | .notEqual ref v, hp, scope, rs, h => by
    rw [Predicate.compile]
    refine h.decides_comparison fun x s hv => ?_
    subst hv
    exact Clause.exists_equation .ne x hp
  | .comparison ref op v, hp, scope, rs, h => by
    rw [Predicate.compile]
    refine h.decides_comparison fun x s hv => ?_
    subst hv
    have hboth : s.isWritable = true ∧ s.isOrdered = true := Bool.and_eq_true_iff.mp hp
    exact Clause.exists_ordering _ x hboth.1 hboth.2
  | .membership ref values none negated, hp, scope, rs, h => by
    rw [Predicate.compile]
    refine (h.decides_column ref).followed fun x _ => ?_
    obtain ⟨vs, hvs⟩ := exists_mapM_eq_ok_iff.mpr fun v hv =>
      Clause.exists_inUtc (List.all_eq_true.mp hp v hv)
    exact ⟨_, bind_eq_ok_iff.mpr ⟨vs, hvs, rfl⟩⟩
  | .membership ref values (some q) negated, hp, scope, rs, h => by
    rw [Predicate.compile]
    exact (h.decides_column ref).bind fun x _ =>
      (Query.decides_compile q hp).followed fun s _ => ⟨_, rfl⟩
  | .raw r, hp, scope, rs, h => by
    rw [Predicate.compile]
    exact (Decides.of_exists_ok (RawFragment.exists_checkFragment hp)).map _
  | .grouping ps op, hp, scope, rs, h => by
    rw [Predicate.compile]
    exact (Predicate.decides_compileAll ps hp h).followed fun cs _ => ⟨_, rfl⟩
  | .negation p, hp, scope, rs, h => by
    have hboth : p.isWritable = true ∧ (p.openTexts none).isEmpty = true :=
      Bool.and_eq_true_iff.mp hp
    rw [Predicate.compile]
    refine (Predicate.decides_compile p hboth.1 h).followed fun c hc => ?_
    obtain ⟨d, hd, -⟩ := Clause.exists_negate (Predicate.isRaw_of_compile hboth.2 hc)
    exact ⟨d, hd⟩
  | .existence q negated, hp, scope, rs, h => by
    rw [Predicate.compile]
    refine (Query.decides_compile q hp).followed fun s _ => ?_
    cases negated with
    | false | true => exact ⟨_, rfl⟩
  | .foreign v, hp, _, _, _ => nomatch hp

theorem Predicate.decides_compileAll : ∀ (ps : List Predicate), Predicate.areWritable ps = true →
    ∀ {scope : Scope} {rs : Relations}, scope.Shows rs →
      Decides (Predicate.AllWellScoped rs ps) (Predicate.compileAll scope ps)
  | [], _, _, _, _ => by
    rw [Predicate.compileAll]
    trivial
  | p :: ps, hps, scope, rs, h => by
    have hboth : p.isWritable = true ∧ Predicate.areWritable ps = true :=
      Bool.and_eq_true_iff.mp hps
    rw [Predicate.compileAll]
    exact (Predicate.decides_compile p hboth.1 h).bind fun c _ =>
      (Predicate.decides_compileAll ps hboth.2 h).followed fun cs _ => ⟨_, rfl⟩

theorem Join.decides_compile : ∀ (j : Join), j.isWritable = true →
    ∀ {scope : Scope} {rs : Relations} {place : Nat}, scope.Shows rs →
      Decides (j.WellScoped rs) (j.compile scope place)
  | .table name given on outer, hj, scope, rs, place, h => by
    rw [Join.compile]
    refine (decides_findTable name).bind fun t ht => ?_
    exact (Predicate.decides_compileAll on hj (h.joined ht given place on outer)).followed
      fun cs _ => ⟨_, rfl⟩
  | .asOf entityType dataTable timestamp, hj, scope, rs, place, h => by
    have hscope := h.cons Schema.journals.name (s := ⟨Schema.journals, none, 0⟩) rfl
    obtain ⟨i, hi⟩ := Moment.exists_toInstant hj
    rw [Join.compile]
    have hnames : Relations.Names ((Schema.journals.name, Schema.journals.name) :: rs) dataTable ↔
        (Join.asOf entityType dataTable timestamp).WellScoped rs := Relations.names_cons_iff
    refine Decides.congr ?_ hnames
    split
    · next hnone =>
      exact ⟨fun h => (nomatch hnone.symm.trans (hscope.names_iff.mp h).choose_spec), rfl⟩
    · next data hdata =>
      rw [hi]
      exact hscope.names_iff.mpr ⟨data, hdata⟩

theorem Join.decides_compileAll : ∀ (js : List Join), Join.areWritable js = true →
    ∀ {scope : Scope} {rs : Relations} {place : Nat}, scope.Shows rs →
      Decides (Join.AllWellScoped rs js) (Join.compileAll scope place js)
  | [], _, _, _, _, _ => by
    rw [Join.compileAll]
    trivial
  | j :: js, hjs, scope, rs, place, h => by
    have hboth : j.isWritable = true ∧ Join.areWritable js = true := Bool.and_eq_true_iff.mp hjs
    rw [Join.compileAll]
    exact (Join.decides_compile j hboth.1 h).bind fun (s, inner) hs =>
      (Join.decides_compileAll js hboth.2 (h.join hs)).followed fun ss _ => ⟨_, rfl⟩

/-- A query becomes a statement exactly where its names are in scope. -/
theorem Query.decides_compile : ∀ (q : Query), q.isWritable = true →
    Decides q.WellScoped q.compile
  | ⟨table, joins, conditions, projections, orders, limit, _, _⟩, hq => by
    simp only [Query.isWritable, Bool.and_eq_true] at hq
    obtain ⟨⟨⟨⟨hjoins, hprojections⟩, hconditions⟩, horders⟩, hlimit⟩ := hq
    rw [Query.compile]
    refine (decides_findTable table).bind fun t ht => ?_
    have hbase := Scope.Shows.base ht
    refine (Join.decides_compileAll joins hjoins hbase).bind fun (js, scope) hjs => ?_
    have hscope := hbase.joins hjs
    have hself : Relations.Names [(table, table)] table := ⟨table, List.lookup_cons_self⟩
    -- Without projections the columns are those of the base table, whose name stays in scope.
    have htable := Join.names_after hself joins
    refine (hscope.decides_outputColumns htable hprojections).bind fun columns _ => ?_
    refine (Predicate.decides_compileAll conditions hconditions hscope).bind fun cs _ => ?_
    refine (Decides.mapM fun o ho =>
      hscope.decides_ofOrder (List.all_eq_true.mp horders o ho)).followed fun os _ => ?_
    obtain ⟨l, hl⟩ := Limit.exists_count hlimit
    exact ⟨_, bind_eq_ok_iff.mpr ⟨l, hl, rfl⟩⟩

end

namespace Query

/-- A query whose values and texts can be written is refused exactly where a table in it is
unknown, a clause refers to a relation that is not in scope or to a column that the relation lacks,
or a join of entries to payload rows that are not in scope, be it in the query itself or in a
subquery.  Every other such query becomes a statement. -/
theorem refused_iff_not_wellScoped {q : Query} (hq : q.isWritable = true) :
    ((∃ f, q.compile = .error f ∧ f.isInvalidQuery = true) ↔ ¬q.WellScoped) ∧
      (q.WellScoped → ∃ s, q.compile = .ok s) :=
  ⟨(q.decides_compile hq).refused_iff, (q.decides_compile hq).exists_ok⟩

/-- The projects of work packages under a name of their own, where something has been recorded. -/
def placed : Query where
  table := "work_packages"
  joins := [.table "projects" (some "p")
    [.equality ⟨"p", "id"⟩ (.column ⟨"work_packages", "project_id"⟩)] false]
  conditions := [.existence ((ofTable "journals").filterBy
    [.equality ⟨"journals", "entity_type"⟩ (.value (.text "work_package"))]) false]
  projections := [.allColumns "p"]
  orders := [⟨.column ⟨"p", "name"⟩, false⟩]
  limit := .rows 5
  asOf := none
  readonly := false

/-- The query means something; under the name of its table the joined relation is unknown, and
unknown to the subquery altogether. -/
theorem refused_iff_not_wellScoped_placed :
    placed.isWritable = true ∧ (∃ s, placed.compile = .ok s) ∧
    (∃ f, { placed with projections := [.allColumns "projects"] }.compile = .error f ∧
      f.isInvalidQuery = true) ∧
    ∃ f, (placed.filterBy [.existence ((ofTable "journals").filterBy
      [.equality ⟨"journals", "entity_id"⟩ (.column ⟨"p", "id"⟩)]) true]).compile = .error f ∧
        f.isInvalidQuery = true := by
  refine ⟨rfl, (refused_iff_not_wellScoped rfl).2 ?_, (refused_iff_not_wellScoped rfl).1.mpr ?_,
    (refused_iff_not_wellScoped rfl).1.mpr ?_⟩
  · refine ⟨⟨_, rfl⟩, ⟨⟨⟨_, rfl⟩, ⟨?_, ?_⟩, trivial⟩, trivial⟩, ?_, ⟨?_, trivial⟩, ?_⟩
    · exact ⟨_, _, rfl, rfl, by decide⟩
    · exact ⟨_, _, rfl, rfl, by decide⟩
    · exact List.forall_mem_singleton.mpr ⟨_, rfl⟩
    · exact ⟨⟨_, rfl⟩, trivial, nofun, ⟨⟨⟨_, _, rfl, rfl, by decide⟩, trivial⟩, trivial⟩, nofun⟩
    · exact List.forall_mem_singleton.mpr ⟨_, _, rfl, rfl, by decide⟩
  · rintro ⟨-, -, hprojections, -⟩
    obtain ⟨table, htable⟩ := hprojections _ (List.mem_singleton_self _)
    cases htable
  · rintro ⟨-, -, -, ⟨-, ⟨⟨-, -, -, ⟨⟨-, _, _, hrelation, -⟩, -⟩, -⟩, -⟩⟩, -⟩
    cases hrelation

/-- Work packages created at a moment that lies before the calendar in UTC. -/
def createdBeforeCalendar : Query :=
  (ofTable "work_packages").filterBy [.equality ⟨"work_packages", "created_at"⟩
    (.value (.moment ⟨default, 0, some 50400000000, microsPerDay_pos⟩))]

/-- Work packages under a text with a parameter of a reserved name. -/
def underReservedName : Query :=
  (ofTable "work_packages").filterBy
    [.raw ⟨"work_packages.id = :self", [("self", .scalar (.int 1))]⟩]

/-- All names in them are in scope, but the moment and the text are refused. -/
theorem refused_of_wellScoped :
    (createdBeforeCalendar.WellScoped ∧ createdBeforeCalendar.compile = .error .outOfCalendar) ∧
      underReservedName.WellScoped ∧ "self" ∈ Fragment.declared "work_packages.id = :self" ∧
        underReservedName.compile = .error .badArgument := by
  refine ⟨⟨?_, rfl⟩, ?_, by decide +kernel, rfl⟩
  · exact ⟨⟨_, rfl⟩, trivial, nofun, ⟨⟨⟨_, _, rfl, rfl, by decide⟩, trivial⟩, trivial⟩, nofun⟩
  · exact ⟨⟨_, rfl⟩, trivial, nofun, ⟨trivial, trivial⟩, nofun⟩

end Query

end Chronicle
