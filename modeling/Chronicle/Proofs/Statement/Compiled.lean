import Mathlib.Logic.Basic
import Chronicle.Proofs.Outcome
import Chronicle.Proofs.Statement.Resolved
import Chronicle.Statement.Compile

/-!
# Queries without text become resolved statements

* `Query.isPlain`: no part of a query is text, and it joins no entries of a journal;
* `Scope.Within`: the relations of a scope are among some sources;
* `Query.compile_resolved`: what such a query becomes is resolved.
-/

namespace Chronicle

open Chronicle.Calendar

/-! ## Plain queries -/

namespace OrderBy

def isPlain (o : OrderBy) : Bool :=
  match o.target with
  | .column _ => true
  | .raw _ => false

end OrderBy

mutual

/-- Neither the condition nor a subquery in it has text or joins entries. -/
def Predicate.isPlain : Predicate → Bool
  | .membership _ _ (some q) _ => q.isPlain
  | .raw _ => false
  | .grouping ps _ => Predicate.arePlain ps
  | .negation p => p.isPlain
  | .existence q _ => q.isPlain
  | _ => true

def Predicate.arePlain : List Predicate → Bool
  | [] => true
  | p :: ps => p.isPlain && Predicate.arePlain ps

def Join.isPlain : Join → Bool
  | .table _ _ on _ => Predicate.arePlain on
  | .asOf _ _ _ => false

def Join.arePlain : List Join → Bool
  | [] => true
  | j :: js => j.isPlain && Join.arePlain js

def Query.isPlain : Query → Bool
  | ⟨_, joins, conditions, _, orders, _, _, _⟩ =>
    Join.arePlain joins && Predicate.arePlain conditions && orders.all OrderBy.isPlain

end

theorem Query.isPlain_iff {q : Query} : q.isPlain = true ↔ Join.arePlain q.joins = true ∧
    Predicate.arePlain q.conditions = true ∧ q.orders.all OrderBy.isPlain = true := by
  cases q
  simp [Query.isPlain, and_assoc]

theorem Join.isPlain_of_mem {as : List Join} (h : Join.arePlain as = true) {a : Join}
    (ha : a ∈ as) : a.isPlain = true := by
  induction as with
  | nil => cases ha
  | cons b as ih =>
    have hboth : b.isPlain = true ∧ Join.arePlain as = true := Bool.and_eq_true_iff.mp h
    rcases List.mem_cons.mp ha with rfl | ha
    · exact hboth.1
    · exact ih hboth.2 ha

/-- Plain joins are joins of tables. -/
theorem Join.isAsOf_of_mem {as : List Join} (h : Join.arePlain as = true) {a : Join}
    (ha : a ∈ as) : a.isAsOf = false := by
  have hplain := Join.isPlain_of_mem h ha
  cases a with
  | table name given on outer => rfl
  | asOf entityType dataTable timestamp => cases hplain

/-! ## Scopes -/

theorem findTable_eq_ok_iff {name : String} {t : Table} :
    findTable name = .ok t ↔ Schema.table? name = some t := by
  unfold findTable
  split
  · next u hu => rw [hu, Except.ok.injEq, Option.some.injEq]
  · next hnone => exact iff_of_false nofun fun h => nomatch hnone.symm.trans h

theorem findTable_eq_ok {name : String} {t : Table} (h : findTable name = .ok t) :
    t ∈ Schema.tables ∧ t.name = name :=
  have h := findTable_eq_ok_iff.mp h
  ⟨List.mem_of_find?_eq_some h, Schema.table?_name h⟩

namespace Scope

/-- The relations of a scope are among some sources, with tables of the store. -/
def Within (scope : Scope) (ss : List Source) : Prop :=
  ∀ e ∈ scope, e.2 ∈ ss ∧ e.2.table ∈ Schema.tables

theorem Within.cons {scope : Scope} {ss : List Source} (h : Within scope ss) (name : String)
    {s : Source} (hs : s.table ∈ Schema.tables) : Within ((name, s) :: scope) (ss ++ [s]) := by
  intro e he
  rcases List.mem_cons.mp he with rfl | he
  · exact ⟨List.mem_append_right _ List.mem_cons_self, hs⟩
  · exact ⟨List.mem_append_left _ (h e he).1, (h e he).2⟩

theorem mem_of_lookup {scope : Scope} {name : String} {s : Source}
    (h : scope.lookup name = some s) : (name, s) ∈ scope := by
  induction scope with
  | nil => cases h
  | cons e scope ih =>
    obtain ⟨n, t⟩ := e
    rw [List.lookup_cons] at h
    split at h
    · next he =>
      cases h
      rw [beq_iff_eq.mp he]
      exact List.mem_cons_self
    · exact List.mem_cons_of_mem _ (ih h)

/-- A column that is found belongs to a relation of the scope. -/
theorem column_eq_ok_iff {scope : Scope} {ref : ColumnRef} {x : SourceColumn} :
    scope.column ref = .ok x ↔
      scope.lookup ref.table = some x.source ∧ x.source.table.column? ref.name = some x.column := by
  unfold column
  split
  · next h => simp [h]
  · next s h =>
    unfold Source.column?
    cases hc : s.table.column? ref.name with
    | none =>
      simp only [Option.map_none, reduceCtorEq, h, Option.some.injEq, false_iff, not_and]
      rintro rfl
      simp [hc]
    | some c =>
      simp only [Option.map_some, Except.ok.injEq, h, Option.some.injEq]
      constructor
      · rintro rfl
        exact ⟨rfl, hc⟩
      · rintro ⟨rfl, hx⟩
        rw [hc, Option.some.injEq] at hx
        rw [hx]

theorem Within.column {scope : Scope} {ss : List Source} (h : Within scope ss) {ref : ColumnRef}
    {x : SourceColumn} (hx : scope.column ref = .ok x) : x.InView ss := by
  obtain ⟨hs, hc⟩ := column_eq_ok_iff.mp hx
  obtain ⟨hmem, htable⟩ := h _ (mem_of_lookup hs)
  exact ⟨hmem, Table.column?_mem hc, htable⟩

end Scope

/-! ## Texts -/

/-- A text is taken where its parameters occur in it and none has a reserved name. -/
theorem exists_checkFragment_iff {r : RawFragment} :
    (∃ r', checkFragment r = .ok r') ↔
      ∀ p ∈ r.params, p.1 ∉ Fragment.reserved ∧ p.1 ∈ Fragment.declared r.sql := by
  rw [checkFragment, forall₂_and]
  split
  · next h =>
    obtain ⟨p, hp, hreserved⟩ := List.any_eq_true.mp h
    exact iff_of_false (fun ⟨_, hr⟩ => nomatch hr)
      fun hall => hall.1 p hp (List.contains_iff_mem.mp hreserved)
  · next h =>
    rw [List.any_eq_true] at h
    have hfree : ∀ p ∈ r.params, p.1 ∉ Fragment.reserved :=
      fun p hp hreserved => h ⟨p, hp, List.contains_iff_mem.mpr hreserved⟩
    rw [and_iff_right hfree]
    split
    · next h =>
      simp only [List.all_eq_true, List.contains_iff_mem] at h
      exact iff_of_true ⟨r, rfl⟩ h
    · next h =>
      simp only [List.all_eq_true, List.contains_iff_mem] at h
      exact iff_of_false (fun ⟨_, hr⟩ => nomatch hr) h

/-! ## Conditions -/

namespace Clause

section Parts

variable {p : SourceColumn → Prop}

theorem equation_resolved {op : Relator} {c : SourceColumn} {s : Scalar} {d : Clause} (hc : p c)
    (h : equation op c s = .ok d) : d.Resolved p := by
  unfold equation at h
  split at h
  · cases h
    exact hc
  · cases h
    refine ⟨hc, ?_⟩
    split <;> trivial
  · cases hs : inUtc s with
    | error f =>
      rw [hs] at h
      cases h
    | ok s =>
      rw [hs] at h
      cases h
      exact ⟨hc, trivial⟩

theorem ordering_resolved {op : Relator} {c : SourceColumn} {s : Scalar} {d : Clause} (hc : p c)
    (h : ordering op c s = .ok d) : d.Resolved p := by
  unfold ordering at h
  split at h
  · cases h
  · split at h
    · cases h
    · cases h
      exact ⟨hc, trivial⟩
  · cases hs : inUtc s with
    | error f =>
      rw [hs] at h
      cases h
    | ok s =>
      rw [hs] at h
      cases h
      exact ⟨hc, trivial⟩

theorem grouped_resolved {c : Clause} (h : c.Resolved p) : c.grouped.Resolved p := by
  unfold grouped
  split <;> exact h

theorem groupedIn_resolved {c : Clause} (h : c.Resolved p) : c.groupedIn.Resolved p := by
  unfold groupedIn
  split <;> exact h

theorem negate_resolved {c d : Clause} (h : c.Resolved p) (hd : c.negate = .ok d) :
    d.Resolved p := by
  cases c with
  | raw r => cases hd
  | parts op cs =>
    cases hd
    exact grouped_resolved h
  | _ =>
    cases hd
    exact h

theorem flattened_resolved {op : Conjunction} {c : Clause} (h : c.Resolved p) :
    ∀ d ∈ c.flattened op, d.Resolved p := by
  have hself : ∀ d ∈ [c], d.Resolved p := by
    intro d hd
    exact List.mem_singleton.mp hd ▸ h
  unfold flattened
  split
  · next op' cs hc =>
    split
    · unfold conjunction? at hc
      split at hc
      · cases hc
        exact allResolved_iff.mp h
      · cases hc
        exact allResolved_iff.mp h
      · cases hc
    · exact hself
  · exact hself

theorem combine_resolved {op : Conjunction} {cs : List Clause} (h : AllResolved p cs) :
    (combine op cs).Resolved p := by
  unfold combine
  split
  · exact h.1
  · refine allResolved_iff.mpr fun d hd => ?_
    obtain ⟨c, hc, rfl⟩ := List.mem_map.mp hd
    obtain ⟨e, he, hc⟩ := List.mem_flatMap.mp hc
    exact groupedIn_resolved (flattened_resolved (allResolved_iff.mp h e he) c hc)

end Parts

end Clause

/-! ## Columns and orders -/

section Outputs

variable {scope : Scope} {ss : List Source}

theorem Scope.Within.columns (h : scope.Within ss) {name : String} {s : Source}
    (hs : scope.lookup name = some s) :
    ∀ c ∈ s.columns.map fun c => OutputColumn.column c none,
      c.Resolved (SourceColumn.InView ss) := by
  intro c hc
  obtain ⟨x, hx, rfl⟩ := List.mem_map.mp hc
  obtain ⟨d, hd, rfl⟩ := List.mem_map.mp hx
  obtain ⟨hmem, htable⟩ := h _ (Scope.mem_of_lookup hs)
  exact ⟨hmem, hd, htable⟩

theorem OutputColumn.ofProjection_allColumns {table : String} {cs : List OutputColumn} :
    ofProjection scope (.allColumns table) = .ok cs ↔
      ∃ s, scope.lookup table = some s ∧ cs = s.columns.map fun c => .column c none := by
  unfold ofProjection
  dsimp only
  split
  · next s hs => simp [hs, eq_comm]
  · next hs => simp [hs]

theorem OutputColumn.ofProjection_resolved (h : scope.Within ss) {pr : Projection}
    {cs : List OutputColumn} (hcs : OutputColumn.ofProjection scope pr = .ok cs) :
    ∀ c ∈ cs, c.Resolved (SourceColumn.InView ss) := by
  cases pr with
  | column ref label =>
    obtain ⟨x, hx, hcs⟩ := bind_eq_ok_iff.mp hcs
    cases hcs
    intro c hc
    cases List.mem_singleton.mp hc
    exact h.column hx
  | constant value label =>
    cases hcs
    intro c hc
    cases List.mem_singleton.mp hc
    trivial
  | allColumns table =>
    obtain ⟨s, hs, rfl⟩ := ofProjection_allColumns.mp hcs
    exact h.columns hs
  | «foreign» v => cases hcs

theorem outputColumns_resolved (h : scope.Within ss) {table : String} {ps : List Projection}
    {cs : List OutputColumn} (hcs : outputColumns scope table ps = .ok cs) :
    ∀ c ∈ cs, c.Resolved (SourceColumn.InView ss) := by
  unfold outputColumns at hcs
  split at hcs
  · split at hcs
    · next s hs =>
      cases hcs
      exact h.columns hs
    · cases hcs
  · obtain ⟨css, hcss, rfl⟩ := map_eq_ok_iff.mp hcs
    intro c hc
    obtain ⟨ds, hds, hc⟩ := List.mem_flatten.mp hc
    obtain ⟨pr, -, hpr⟩ := exists_of_mem_mapM hcss hds
    exact OutputColumn.ofProjection_resolved h hpr c hc

theorem OrderExpr.ofOrder_resolved (h : scope.Within ss) {o : OrderBy} (ho : o.isPlain = true)
    {e : OrderExpr × Bool} (he : OrderExpr.ofOrder scope o = .ok e) :
    e.1.Resolved (SourceColumn.InView ss) := by
  unfold ofOrder at he
  unfold OrderBy.isPlain at ho
  cases ht : o.target with
  | column ref =>
    rw [ht] at he
    obtain ⟨x, hx, rfl⟩ := map_eq_ok_iff.mp he
    exact h.column hx
  | raw r =>
    rw [ht] at ho
    cases ho

end Outputs

/-! ## Conditions, joins and queries -/

/-- The source of a joined table. -/
def Source.joined (table : Table) (given : Option String) (place : Nat) : Source :=
  ⟨table, given.filter (· ≠ ""), if (given.filter (· ≠ "")).isSome then place else 0⟩

/-- What a join becomes, and what it refers to. -/
theorem Join.compile_table {scope inner : Scope} {place : Nat} {name : String}
    {given : Option String} {on : List Predicate} {outer : Bool} {j : JoinedSource}
    (h : (Join.table name given on outer).compile scope place = .ok (j, inner)) :
    ∃ (table : Table) (cs : List Clause), findTable name = .ok table ∧
      inner = ((Source.joined table given place).name, .joined table given place) :: scope ∧
      Predicate.compileAll inner on = .ok cs ∧
      j = .mk (.joined table given place) (Clause.combine .and cs) outer := by
  rw [Join.compile] at h
  obtain ⟨table, htable, h⟩ := bind_eq_ok_iff.mp h
  obtain ⟨cs, hcs, h⟩ := bind_eq_ok_iff.mp h
  cases h
  exact ⟨table, cs, htable, rfl, hcs, rfl⟩

/-- Behind the entry that is joined its relation is known. -/
theorem Join.compile_asOf {scope inner : Scope} {place : Nat} {entityType dataTable : String}
    {timestamp : Moment} {j : JoinedSource}
    (h : (Join.asOf entityType dataTable timestamp).compile scope place = .ok (j, inner)) :
    inner = (Schema.journals.name, ⟨Schema.journals, none, 0⟩) :: scope := by
  rw [Join.compile] at h
  split at h
  · cases h
  · obtain ⟨i, -, h⟩ := bind_eq_ok_iff.mp h
    cases h
    rfl

/-- A join is known by its alias, or else by its table. -/
theorem Source.name_joined {name : String} {table : Table} (h : findTable name = .ok table)
    (given : Option String) (place : Nat) (on : List Predicate) (outer : Bool) :
    (Source.joined table given place).name = (Join.table name given on outer).relation := by
  have htable := (findTable_eq_ok h).2
  cases given with
  | none => exact htable
  | some a =>
    by_cases ha : a = ""
    · subst ha
      exact htable
    · have hfilter : (some a).filter (· ≠ "") = some a := by simp [ha]
      have hname : (Source.joined table (some a) place).name =
        ((some a).filter (· ≠ "")).getD table.name := rfl
      rw [hname, hfilter, Join.relation, if_neg ha, Option.getD_some]

theorem Join.compileAll_cons {scope last : Scope} {place : Nat} {a : Join} {as : List Join}
    {js : List JoinedSource} (h : Join.compileAll scope place (a :: as) = .ok (js, last)) :
    ∃ (j : JoinedSource) (inner : Scope) (ks : List JoinedSource),
      a.compile scope place = .ok (j, inner) ∧
        Join.compileAll inner (place + 1) as = .ok (ks, last) ∧ js = j :: ks := by
  rw [Join.compileAll] at h
  obtain ⟨⟨j, inner⟩, hj, h⟩ := bind_eq_ok_iff.mp h
  obtain ⟨⟨ks, _⟩, hks, h⟩ := bind_eq_ok_iff.mp h
  cases h
  exact ⟨j, inner, ks, hj, hks, rfl⟩

theorem Join.compileAll_append {scope last : Scope} {place : Nat} {as bs : List Join}
    {js : List JoinedSource} (h : Join.compileAll scope place (as ++ bs) = .ok (js, last)) :
    ∃ (ks : List JoinedSource) (inner : Scope) (ls : List JoinedSource),
      Join.compileAll scope place as = .ok (ks, inner) ∧
        Join.compileAll inner (place + as.length) bs = .ok (ls, last) ∧ js = ks ++ ls := by
  induction as generalizing scope place js with
  | nil => exact ⟨[], scope, js, by rw [Join.compileAll], h, rfl⟩
  | cons a as ih =>
    obtain ⟨j, mid, rest, hj, hrest, rfl⟩ := Join.compileAll_cons h
    obtain ⟨ks, inner, ls, hks, hls, rfl⟩ := ih hrest
    refine ⟨j :: ks, inner, ls, ?_, ?_, rfl⟩
    · rw [Join.compileAll]
      exact bind_eq_ok_iff.mpr ⟨_, hj, bind_eq_ok_iff.mpr ⟨_, hks, rfl⟩⟩
    · rw [List.length_cons, Nat.add_comm as.length 1, ← Nat.add_assoc]
      exact hls

/-- Joins are known by their relations. -/
theorem Join.names_compileAll {as : List Join} (ha : Join.arePlain as = true) {scope last : Scope}
    {place : Nat} {js : List JoinedSource}
    (h : Join.compileAll scope place as = .ok (js, last)) :
    js.map (fun j => j.source.name) = as.map Join.relation := by
  induction as generalizing scope place js with
  | nil =>
    rw [Join.compileAll] at h
    cases h
    rfl
  | cons a as ih =>
    have hboth : a.isPlain = true ∧ Join.arePlain as = true := Bool.and_eq_true_iff.mp ha
    obtain ⟨j, inner, ks, hj, hks, rfl⟩ := Join.compileAll_cons h
    rw [List.map_cons, List.map_cons, ih hboth.2 hks]
    cases a with
    | asOf entityType dataTable timestamp => exact nomatch hboth.1
    | table name given on outer =>
      obtain ⟨table, cs, htable, -, -, rfl⟩ := Join.compile_table hj
      rw [JoinedSource.source, Source.name_joined htable given place on outer]

/-- What the parts of a query become. -/
structure Query.Compiled (q : Query) (s : Select) (scope : Scope) : Prop where
  table : findTable q.table = .ok s.base.table
  base : s.base = ⟨s.base.table, none, 0⟩
  joins : Join.compileAll [(q.table, s.base)] 1 q.joins = .ok (s.joins, scope)
  columns : outputColumns scope q.table q.projections = .ok s.columns
  conditions : Predicate.compileAll scope q.conditions = .ok s.conditions
  orders : q.orders.mapM (OrderExpr.ofOrder scope) = .ok s.orders
  limit : q.limit.count = .ok s.limit

theorem Query.compiled_of_compile {q : Query} {s : Select} (h : q.compile = .ok s) :
    ∃ scope, q.Compiled s scope := by
  obtain ⟨table, joins, conditions, projections, orders, limit, asOf, readonly⟩ := q
  rw [Query.compile] at h
  obtain ⟨t, ht, h⟩ := bind_eq_ok_iff.mp h
  obtain ⟨⟨js, scope⟩, hjs, h⟩ := bind_eq_ok_iff.mp h
  obtain ⟨columns, hcolumns, h⟩ := bind_eq_ok_iff.mp h
  obtain ⟨cs, hcs, h⟩ := bind_eq_ok_iff.mp h
  obtain ⟨os, hos, h⟩ := bind_eq_ok_iff.mp h
  obtain ⟨l, hl, h⟩ := bind_eq_ok_iff.mp h
  cases h
  exact ⟨scope, ht, rfl, hjs, hcolumns, hcs, hos, hl⟩

/-- A query is resolved where its parts are. -/
theorem Query.compile_of_compiled {q : Query} {s : Select} {scope : Scope}
    (h : q.Compiled s scope) : q.compile = .ok s := by
  obtain ⟨table, joins, conditions, projections, orders, limit, asOf, readonly⟩ := q
  obtain ⟨columns', base, joins', conditions', orders', limit'⟩ := s
  have hbase : base = ⟨base.table, none, 0⟩ := h.base
  rw [Query.compile]
  refine bind_eq_ok_iff.mpr ⟨base.table, h.table, ?_⟩
  dsimp only
  rw [← hbase]
  exact bind_eq_ok_iff.mpr ⟨_, h.joins, bind_eq_ok_iff.mpr ⟨_, h.columns, bind_eq_ok_iff.mpr
    ⟨_, h.conditions, bind_eq_ok_iff.mpr ⟨_, h.orders, bind_eq_ok_iff.mpr ⟨_, h.limit, rfl⟩⟩⟩⟩⟩

/-- What is known of a query is known of one statement in one scope. -/
theorem Query.Compiled.unique {q : Query} {a a' : Select} {scope scope' : Scope}
    (h : q.Compiled a scope) (h' : q.Compiled a' scope') : a = a' ∧ scope = scope' := by
  obtain rfl : a = a' :=
    Except.ok.inj ((Query.compile_of_compiled h).symm.trans (Query.compile_of_compiled h'))
  have hjoins := h.joins.symm.trans h'.joins
  cases hjoins
  exact ⟨rfl, rfl⟩

/-- A condition on a column compares it with another one, or is built from a value. -/
theorem Predicate.operand_cases {scope : Scope} {ref : ColumnRef} {v : Operand} {op : Relator}
    {build : SourceColumn → Scalar → Except Failure Clause} {c : Clause}
    (h : (do
      let x ← scope.column ref
      match v with
      | .column r => return Clause.compare op x (.column (← scope.column r))
      | .value s => build x s) = .ok c) :
    ∃ x, scope.column ref = .ok x ∧
      ((∃ r y, v = .column r ∧ scope.column r = .ok y ∧ c = .compare op x (.column y)) ∨
        ∃ s, v = .value s ∧ build x s = .ok c) := by
  obtain ⟨x, hx, h⟩ := bind_eq_ok_iff.mp h
  refine ⟨x, hx, ?_⟩
  cases v with
  | column r =>
    obtain ⟨y, hy, h⟩ := bind_eq_ok_iff.mp h
    cases h
    exact .inl ⟨r, y, rfl, hy, rfl⟩
  | value s => exact .inr ⟨s, rfl, h⟩

theorem Predicate.operand_resolved {scope : Scope} {p : SourceColumn → Prop}
    (hp : ∀ ref x, scope.column ref = .ok x → p x) {ref : ColumnRef} {v : Operand} {op : Relator}
    {build : SourceColumn → Scalar → Except Failure Clause}
    (hbuild : ∀ {x s d}, p x → build x s = .ok d → d.Resolved p) {c : Clause}
    (h : (do
      let x ← scope.column ref
      match v with
      | .column r => return Clause.compare op x (.column (← scope.column r))
      | .value s => build x s) = .ok c) : c.Resolved p := by
  obtain ⟨x, hx, ⟨r, y, rfl, hy, rfl⟩ | ⟨s, rfl, hs⟩⟩ := operand_cases h
  · exact ⟨hp ref x hx, hp r y hy⟩
  · exact hbuild (hp ref x hx) hs

mutual

theorem Predicate.compile_resolved : ∀ (a : Predicate), a.isPlain = true → ∀ {scope : Scope}
    {p : SourceColumn → Prop}, (∀ ref x, scope.column ref = .ok x → p x) → ∀ {c : Clause},
      a.compile scope = .ok c → c.Resolved p
  | .equality ref v, _, scope, p, hp, c, h | .notEqual ref v, _, scope, p, hp, c, h => by
    rw [Predicate.compile] at h
    exact Predicate.operand_resolved hp Clause.equation_resolved h
  | .comparison ref op v, _, scope, p, hp, c, h => by
    rw [Predicate.compile] at h
    exact Predicate.operand_resolved hp Clause.ordering_resolved h
  | .membership ref values none negated, _, scope, p, hp, c, h => by
    rw [Predicate.compile] at h
    obtain ⟨x, hx, h⟩ := bind_eq_ok_iff.mp h
    obtain ⟨vs, -, h⟩ := bind_eq_ok_iff.mp h
    cases h
    exact hp ref x hx
  | .membership ref values (some q) negated, ha, scope, p, hp, c, h => by
    rw [Predicate.compile] at h
    obtain ⟨x, hx, h⟩ := bind_eq_ok_iff.mp h
    obtain ⟨s, hs, h⟩ := bind_eq_ok_iff.mp h
    cases h
    exact ⟨hp ref x hx, Query.compile_resolved q ha hs⟩
  | .raw r, ha, _, _, _, _, _ => nomatch ha
  | .grouping ps conjunction, ha, scope, p, hp, c, h => by
    rw [Predicate.compile] at h
    obtain ⟨cs, hcs, h⟩ := bind_eq_ok_iff.mp h
    cases h
    exact Clause.grouped_resolved (Clause.combine_resolved
      (Predicate.compileAll_resolved ps ha hp hcs))
  | .negation a, ha, scope, p, hp, c, h => by
    rw [Predicate.compile] at h
    obtain ⟨d, hd, h⟩ := bind_eq_ok_iff.mp h
    exact Clause.negate_resolved (Predicate.compile_resolved a ha hp hd) h
  | .existence q negated, ha, scope, p, hp, c, h => by
    rw [Predicate.compile] at h
    obtain ⟨s, hs, h⟩ := bind_eq_ok_iff.mp h
    have hrows : (Clause.hasRows s).Resolved p := Query.compile_resolved q ha hs
    split at h
    · exact Clause.negate_resolved hrows h
    · cases h
      exact hrows
  | .foreign v, _, scope, p, hp, c, h => by
    rw [Predicate.compile] at h
    cases h

theorem Predicate.compileAll_resolved : ∀ (as : List Predicate), Predicate.arePlain as = true →
    ∀ {scope : Scope} {p : SourceColumn → Prop}, (∀ ref x, scope.column ref = .ok x → p x) →
      ∀ {cs : List Clause}, Predicate.compileAll scope as = .ok cs → Clause.AllResolved p cs
  | [], _, _, _, _, cs, h => by
    rw [Predicate.compileAll] at h
    cases h
    trivial
  | a :: as, ha, scope, p, hp, cs, h => by
    rw [Predicate.compileAll] at h
    obtain ⟨c, hc, h⟩ := bind_eq_ok_iff.mp h
    obtain ⟨ds, hds, h⟩ := bind_eq_ok_iff.mp h
    cases h
    have hboth : a.isPlain = true ∧ Predicate.arePlain as = true := Bool.and_eq_true_iff.mp ha
    exact ⟨Predicate.compile_resolved a hboth.1 hp hc,
      Predicate.compileAll_resolved as hboth.2 hp hds⟩

/-- Joins refer to the relations before them and to their own. -/
theorem Join.compileAll_resolved : ∀ (as : List Join), Join.arePlain as = true →
    ∀ {scope scope' : Scope} {ss : List Source} {place : Nat} {js : List JoinedSource},
      scope.Within ss → Join.compileAll scope place as = .ok (js, scope') →
        JoinedSource.AllResolved ss js ∧ scope'.Within (ss ++ js.map JoinedSource.source)
  | [], _, scope, scope', ss, place, js, hs, h => by
    rw [Join.compileAll] at h
    cases h
    refine ⟨trivial, ?_⟩
    rw [List.map_nil, List.append_nil]
    exact hs
  | .asOf _ _ _ :: as, ha, _, _, _, _, _, _, _ => nomatch ha
  | .table name given on outer :: as, ha, scope, scope', ss, place, js, hs, h => by
    have hboth : Predicate.arePlain on = true ∧ Join.arePlain as = true := Bool.and_eq_true_iff.mp ha
    obtain ⟨j, inner, ks, hj, hks, rfl⟩ := Join.compileAll_cons h
    obtain ⟨table, cs, htable, rfl, hcs, rfl⟩ := Join.compile_table hj
    have htables : (Source.joined table given place).table ∈ Schema.tables :=
      (findTable_eq_ok htable).1
    have hinner := hs.cons (Source.joined table given place).name htables
    obtain ⟨hrest, hlast⟩ := Join.compileAll_resolved as hboth.2 hinner hks
    refine ⟨⟨?_, hrest⟩, ?_⟩
    · exact Clause.combine_resolved (Predicate.compileAll_resolved on hboth.1
        (fun ref x hx => hinner.column hx) hcs)
    · rw [List.map_cons, ← List.singleton_append, ← List.append_assoc]
      exact hlast

/-- A query without text becomes a resolved statement. -/
theorem Query.compile_resolved : ∀ (q : Query), q.isPlain = true → ∀ {s : Select},
    q.compile = .ok s → s.Resolved
  | ⟨table, joins, conditions, projections, orders, limit, _, _⟩, hq, s, h => by
    rw [Query.isPlain, Bool.and_eq_true_iff, Bool.and_eq_true_iff] at hq
    obtain ⟨⟨hjoins, hconditions⟩, horders⟩ := hq
    obtain ⟨scope, hc⟩ := Query.compiled_of_compile h
    have hbase : Scope.Within [(table, s.base)] [s.base] := by
      intro e he
      cases List.mem_singleton.mp he
      exact ⟨List.mem_cons_self, (findTable_eq_ok hc.table).1⟩
    obtain ⟨hall, hscope⟩ := Join.compileAll_resolved joins hjoins hbase hc.joins
    obtain ⟨columns, base, js, cs, os, l⟩ := s
    refine ⟨hall, ?_, outputColumns_resolved hscope hc.columns, ?_⟩
    · exact Predicate.compileAll_resolved conditions hconditions
        (fun ref x hx => hscope.column hx) hc.conditions
    · intro e he
      obtain ⟨o, ho, he⟩ := exists_of_mem_mapM hc.orders he
      exact OrderExpr.ofOrder_resolved hscope (List.all_eq_true.mp horders o ho) he

end

end Chronicle
