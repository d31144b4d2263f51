import Chronicle.Proofs.AsOf.Answer
import Chronicle.Proofs.AsOf.Text

/-!
# Which queries as of a timestamp become statements

A query as of a timestamp refers to relations that the query itself does not have.  All of its
clauses see them, apart from the conditions of its joins: the live table, which has the time of
creation, is joined behind them.

* `Predicate.refs`, `Join.refs`, `Query.fragments`: the columns and the texts in the clauses of a
  query;
* `Scope.Mirrors.exists_column_iff`: when the counterpart of a name means something;
* `Substitution.exists_compileAll_iff`: when the counterparts of conditions can be resolved;
* `Substitution.exists_compileAll_joins_iff`: when the joins can;
* `Query.compile_asOf_iff`: when the whole query becomes a statement.
-/

namespace Chronicle

open Chronicle.Calendar

/-! ## What queries refer to -/

def Operand.refs : Operand → List ColumnRef
  | column ref => [ref]
  | value _ => []

mutual

/-- The columns that a condition refers to, those of subqueries aside. -/
def Predicate.refs : Predicate → List ColumnRef
  | .equality ref v | .notEqual ref v | .comparison ref _ v => ref :: v.refs
  | .membership ref _ _ _ => [ref]
  | .grouping ps _ => Predicate.allRefs ps
  | .raw _ | .negation _ | .existence _ _ | .foreign _ => []

def Predicate.allRefs : List Predicate → List ColumnRef
  | [] => []
  | p :: ps => p.refs ++ Predicate.allRefs ps

end

mutual

/-- The texts in a condition, those of subqueries aside. -/
def Predicate.fragments : Predicate → List RawFragment
  | .raw r => [r]
  | .grouping ps _ => Predicate.allFragments ps
  | .equality _ _ | .notEqual _ _ | .comparison _ _ _ | .membership _ _ _ _ | .negation _ |
    .existence _ _ | .foreign _ => []

def Predicate.allFragments : List Predicate → List RawFragment
  | [] => []
  | p :: ps => p.fragments ++ Predicate.allFragments ps

end

namespace Join

def conditions : Join → List Predicate
  | table _ _ on _ => on
  | asOf _ _ _ => []

/-- The columns that the conditions of a join refer to. -/
def refs (j : Join) : List ColumnRef := Predicate.allRefs j.conditions

def fragments (j : Join) : List RawFragment := Predicate.allFragments j.conditions

end Join

def OrderTarget.fragments : OrderTarget → List RawFragment
  | column _ => []
  | raw r => [r]

/-- The texts in a query, those of subqueries aside. -/
def Query.fragments (q : Query) : List RawFragment :=
  q.joins.flatMap Join.fragments ++ Predicate.allFragments q.conditions ++
    q.orders.flatMap fun o => o.target.fragments

/-! ## Names and texts -/

namespace Substitution

/-- The time of creation is referred to only where the live table is joined. -/
def Reaches (s : Substitution) (scope' : Scope) (ref : ColumnRef) : Prop :=
  ref = ⟨s.kind.table.name, "created_at"⟩ →
    ∃ u, scope'.lookup Kind.journablesAlias = some u

/-- A parameter that is called like the live table still occurs in the text. -/
def KeepsParams (s : Substitution) (r : RawFragment) : Prop :=
  ∀ p ∈ r.params, p.1 = s.kind.table.name → p.1 ∈ Fragment.declared (s.rawText r.sql)

end Substitution

/-- A text stays one that its parameters occur in. -/
theorem Substitution.exists_checkFragment_raw_iff {s : Substitution} {r c : RawFragment}
    (hc : checkFragment r = .ok c) :
    (∃ c', checkFragment (s.raw r) = .ok c') ↔ s.KeepsParams r := by
  have hdeclared := exists_checkFragment_iff.mp ⟨c, hc⟩
  rw [exists_checkFragment_iff, raw]
  dsimp only
  constructor
  · exact fun h p hp _ => (h p hp).2
  · intro h p hp
    refine ⟨(hdeclared p hp).1, ?_⟩
    by_cases hname : p.1 = s.kind.table.name
    · exact h p hp hname
    · exact s.declared_rawText (hdeclared p hp).2 hname

namespace Scope.Mirrors

variable {s : Substitution} {place : Nat} {scope scope' : Scope}

/-- The counterpart of a name means something, unless it is the time of creation and the live table
is not joined yet. -/
theorem exists_column_iff (h : Mirrors s.kind place scope scope') {ref : ColumnRef}
    {x : SourceColumn} (hx : scope.column ref = .ok x) :
    (∃ y, scope'.column (s.column ref) = .ok y) ↔ s.Reaches scope' ref := by
  obtain ⟨table, name⟩ := ref
  obtain ⟨hsx, hcx⟩ := column_eq_ok_iff.mp hx
  by_cases ht : table = s.kind.table.name
  · subst ht
    have hsource : x.source = s.kind.liveSource := by
      rw [h.live] at hsx
      exact (Option.some.inj hsx).symm
    rw [hsource] at hcx
    have hmem : x.column ∈ s.kind.table.columns := Table.column?_mem hcx
    have hname : x.column.name = name := Table.column?_name hcx
    rw [Substitution.column_live]
    by_cases hcreated : name = "created_at"
    · subst hcreated
      constructor
      · rintro ⟨y, hy⟩ -
        exact ⟨y.source, (column_eq_ok_iff.mp hy).1⟩
      · intro hreaches
        obtain ⟨u, hu⟩ := hreaches rfl
        obtain rfl := h.journables u hu
        exact ⟨⟨s.kind.journables place, x.column⟩, column_eq_ok_iff.mpr ⟨hu, hcx⟩⟩
    · refine iff_of_true ?_ (fun e => absurd (ColumnRef.mk.inj e).2 hcreated)
      split
      · exact ⟨⟨.lines, ⟨"entity_id", .integer, false⟩⟩, column_eq_ok_iff.mpr ⟨h.lines, rfl⟩⟩
      · next hid =>
        split
        · exact ⟨⟨.lines, ⟨"recorded_at", .instant, false⟩⟩,
            column_eq_ok_iff.mpr ⟨h.lines, rfl⟩⟩
        · next hupdated =>
          rw [← hname] at hid hcreated hupdated
          have hjournal := s.kind.mem_journal_columns hmem hid hcreated hupdated
          refine ⟨⟨s.kind.payloadSource, x.column⟩, column_eq_ok_iff.mpr ⟨h.payload, ?_⟩⟩
          rw [← hname]
          exact Column.find?_name (Schema.columnNames_nodup s.kind.journal_mem) hjournal
  · obtain ⟨hn, -, hother⟩ := h.others _ _ hsx ht
    rw [s.column_of_other ⟨table, name⟩ (Substitution.isOwnTable_of_other ht hn)]
    refine iff_of_true ⟨⟨x.source.next, x.column⟩, column_eq_ok_iff.mpr ⟨hother, ?_⟩⟩
      (fun e => absurd (ColumnRef.mk.inj e).1 ht)
    rw [x.source.table_next]
    exact hcx

end Scope.Mirrors

/-! ## Conditions -/

namespace Substitution

section Predicates

variable {s : Substitution} {place : Nat} {scope scope' : Scope}

/-- A condition on a column can be resolved as of an instant if its columns can be. -/
theorem exists_comparison_iff (h : Scope.Mirrors s.kind place scope scope') {ref : ColumnRef}
    {v : Operand} {op : Relator} {build : SourceColumn → Scalar → Except Failure Clause}
    (hbuild : ∀ {x : SourceColumn}, s.Maps place scope scope' x → ∀ v,
      build (s.kind.counterpart place x) v =
        (build x v).map (Clause.renamed (s.kind.counterpart place)))
    {c : Clause}
    (hc : (do
      let x ← scope.column ref
      match v with
      | .column r => return Clause.compare op x (.column (← scope.column r))
      | .value v => build x v) = .ok c) :
    (∃ c', (do
      let x ← scope'.column (s.column ref)
      match s.operand v with
      | .column r => return Clause.compare op x (.column (← scope'.column r))
      | .value v => build x v) = .ok c') ↔ ∀ r ∈ ref :: v.refs, s.Reaches scope' r := by
  obtain ⟨x, hx, hc⟩ := bind_eq_ok_iff.mp hc
  rw [List.forall_mem_cons, ← h.exists_column_iff hx]
  cases v with
  | column r =>
    obtain ⟨y, hy, -⟩ := bind_eq_ok_iff.mp hc
    rw [Operand.refs, List.forall_mem_singleton, ← h.exists_column_iff hy]
    constructor
    · rintro ⟨c', hc'⟩
      obtain ⟨x', hx', hc'⟩ := bind_eq_ok_iff.mp hc'
      obtain ⟨y', hy', -⟩ := bind_eq_ok_iff.mp hc'
      exact ⟨⟨x', hx'⟩, y', hy'⟩
    · rintro ⟨⟨x', hx'⟩, y', hy'⟩
      exact ⟨_, bind_eq_ok_iff.mpr ⟨x', hx', bind_eq_ok_iff.mpr ⟨y', hy', rfl⟩⟩⟩
  | value v =>
    constructor
    · rintro ⟨c', hc'⟩
      obtain ⟨x', hx', -⟩ := bind_eq_ok_iff.mp hc'
      exact ⟨⟨x', hx'⟩, List.forall_mem_nil _⟩
    · rintro ⟨⟨x', hx'⟩, -⟩
      obtain ⟨rfl, hmaps⟩ := maps_of_column h hx hx'
      have hv : build x v = .ok c := hc
      refine ⟨c.renamed (s.kind.counterpart place), bind_eq_ok_iff.mpr ⟨_, hx', ?_⟩⟩
      exact (hbuild hmaps v).trans (by rw [hv]; rfl)

/-- What a column is looked for among does not change, so only the column has to be resolved. -/
theorem exists_among_iff (h : Scope.Mirrors s.kind place scope scope') {ref : ColumnRef} {α : Type}
    {candidates : Except Failure α} {build : SourceColumn → α → Clause} {c : Clause}
    (hc : (do
      let x ← scope.column ref
      return build x (← candidates)) = .ok c) :
    (∃ c', (do
      let x ← scope'.column (s.column ref)
      return build x (← candidates)) = .ok c') ↔ s.Reaches scope' ref := by
  obtain ⟨x, hx, hc⟩ := bind_eq_ok_iff.mp hc
  obtain ⟨vs, hvs, -⟩ := bind_eq_ok_iff.mp hc
  rw [← h.exists_column_iff hx]
  constructor
  · rintro ⟨c', hc'⟩
    obtain ⟨x', hx', -⟩ := bind_eq_ok_iff.mp hc'
    exact ⟨x', hx'⟩
  · rintro ⟨x', hx'⟩
    exact ⟨_, bind_eq_ok_iff.mpr ⟨x', hx', bind_eq_ok_iff.mpr ⟨vs, hvs, rfl⟩⟩⟩

mutual

/-- A condition can be resolved as of an instant if its columns can be and its texts keep their
parameters. -/
theorem exists_compile_iff (h : Scope.Mirrors s.kind place scope scope') :
    ∀ (a : Predicate) {depth : Int} {a' : Predicate} {c : Clause},
      s.predicate depth a = .ok a' → a.compile scope = .ok c →
        ((∃ c', a'.compile scope' = .ok c') ↔
          (∀ ref ∈ a.refs, s.Reaches scope' ref) ∧ ∀ r ∈ a.fragments, s.KeepsParams r)
  | .equality ref v, _, _, _, ha, hc => by
    cases ha
    rw [Predicate.compile] at hc
    rw [Predicate.refs, Predicate.fragments, Predicate.compile]
    exact (exists_comparison_iff h (fun hx v => Clause.equation_renamed hx.type .eq v) hc).trans
      (and_iff_left fun _ hr => nomatch hr).symm
  | .notEqual ref v, _, _, _, ha, hc => by
    cases ha
    rw [Predicate.compile] at hc
    rw [Predicate.refs, Predicate.fragments, Predicate.compile]
    exact (exists_comparison_iff h (fun hx v => Clause.equation_renamed hx.type .ne v) hc).trans
      (and_iff_left fun _ hr => nomatch hr).symm
  | .comparison ref op v, _, _, _, ha, hc => by
    cases ha
    rw [Predicate.compile] at hc
    rw [Predicate.refs, Predicate.fragments, Predicate.compile]
    exact (exists_comparison_iff h
      (fun hx v => Clause.ordering_renamed hx.type (Clause.comparator op) v) hc).trans
      (and_iff_left fun _ hr => nomatch hr).symm
  | .membership ref values none negated, _, _, _, ha, hc => by
    cases ha
    rw [Predicate.compile] at hc
    rw [Predicate.refs, Predicate.fragments, Predicate.compile, List.forall_mem_singleton]
    exact (exists_among_iff h hc).trans (and_iff_left fun _ hr => nomatch hr).symm
  | .membership ref values (some q) negated, _, _, _, ha, hc => by
    cases ha
    rw [Predicate.compile] at hc
    rw [Predicate.refs, Predicate.fragments, Predicate.compile, List.forall_mem_singleton]
    exact (exists_among_iff h hc).trans (and_iff_left fun _ hr => nomatch hr).symm
  | .raw r, depth, _, _, ha, hc => by
    rw [predicate] at ha
    split at ha
    · cases ha
    · cases ha
      rw [Predicate.compile] at hc
      obtain ⟨c, hc, -⟩ := map_eq_ok_iff.mp hc
      rw [Predicate.refs, Predicate.fragments, Predicate.compile, List.forall_mem_singleton,
        ← exists_checkFragment_raw_iff hc]
      constructor
      · rintro ⟨c', hc'⟩
        obtain ⟨c', hc', -⟩ := map_eq_ok_iff.mp hc'
        exact ⟨fun _ hr => (nomatch hr), c', hc'⟩
      · rintro ⟨-, c', hc'⟩
        exact ⟨_, map_eq_ok_iff.mpr ⟨c', hc', rfl⟩⟩
  | .grouping ps conjunction, depth, _, _, ha, hc => by
    rw [predicate] at ha
    obtain ⟨ps', hps, rfl⟩ := map_eq_ok_iff.mp ha
    rw [Predicate.compile] at hc
    obtain ⟨cs, hcs, -⟩ := bind_eq_ok_iff.mp hc
    rw [Predicate.refs, Predicate.fragments, Predicate.compile,
      ← exists_compileAll_iff h ps hps hcs]
    constructor
    · rintro ⟨c', hc'⟩
      obtain ⟨cs', hcs', -⟩ := bind_eq_ok_iff.mp hc'
      exact ⟨cs', hcs'⟩
    · rintro ⟨cs', hcs'⟩
      exact ⟨_, bind_eq_ok_iff.mpr ⟨cs', hcs', rfl⟩⟩
  | .negation _, _, _, _, ha, _ => nomatch ha
  | .existence _ _, _, _, _, ha, _ => nomatch ha
  | .foreign _, _, _, _, ha, _ => nomatch ha

theorem exists_compileAll_iff (h : Scope.Mirrors s.kind place scope scope') :
    ∀ (as : List Predicate) {depth : Int} {as' : List Predicate} {cs : List Clause},
      s.predicates depth as = .ok as' → Predicate.compileAll scope as = .ok cs →
        ((∃ cs', Predicate.compileAll scope' as' = .ok cs') ↔
          (∀ ref ∈ Predicate.allRefs as, s.Reaches scope' ref) ∧
            ∀ r ∈ Predicate.allFragments as, s.KeepsParams r)
  | [], _, _, _, ha, _ => by
    cases ha
    rw [Predicate.allRefs, Predicate.allFragments]
    exact iff_of_true ⟨[], by rw [Predicate.compileAll]⟩
      ⟨fun _ hr => (nomatch hr), fun _ hr => (nomatch hr)⟩
  | a :: as, _, _, _, ha, hc => by
    rw [predicates] at ha
    obtain ⟨a', ha', ha⟩ := bind_eq_ok_iff.mp ha
    obtain ⟨as', has', ha⟩ := bind_eq_ok_iff.mp ha
    cases ha
    rw [Predicate.compileAll] at hc
    obtain ⟨c, hca, hc⟩ := bind_eq_ok_iff.mp hc
    obtain ⟨cs, hcs, -⟩ := bind_eq_ok_iff.mp hc
    rw [Predicate.allRefs, Predicate.allFragments, List.forall_mem_append, List.forall_mem_append,
      and_and_and_comm, ← exists_compile_iff h a ha' hca, ← exists_compileAll_iff h as has' hcs,
      Predicate.compileAll]
    constructor
    · rintro ⟨ds, hds⟩
      obtain ⟨c', hc', hds⟩ := bind_eq_ok_iff.mp hds
      obtain ⟨cs', hcs', -⟩ := bind_eq_ok_iff.mp hds
      exact ⟨⟨c', hc'⟩, cs', hcs'⟩
    · rintro ⟨⟨c', hc'⟩, cs', hcs'⟩
      exact ⟨_, bind_eq_ok_iff.mpr ⟨c', hc', bind_eq_ok_iff.mpr ⟨cs', hcs', rfl⟩⟩⟩

end

end Predicates

end Substitution

/-! ## Joins -/

/-- A join can be resolved where its condition can be. -/
theorem Join.exists_compile_table {scope : Scope} {place : Nat} {name : String}
    {given : Option String} {on : List Predicate} {outer : Bool} {table : Table}
    (htable : findTable name = .ok table) (cs : List Clause)
    (hcs : Predicate.compileAll
      (((Source.joined table given place).name, Source.joined table given place) :: scope) on =
        .ok cs) :
    ∃ r, (Join.table name given on outer).compile scope place = .ok r := by
  refine ⟨(.mk (.joined table given place) (Clause.combine .and cs) outer,
    ((Source.joined table given place).name, .joined table given place) :: scope), ?_⟩
  rw [Join.compile]
  exact bind_eq_ok_iff.mpr ⟨table, htable, bind_eq_ok_iff.mpr ⟨cs, hcs, rfl⟩⟩

theorem Join.compileAll_append_of {scope mid last : Scope} {place : Nat} {as bs : List Join}
    {js ks : List JoinedSource} (ha : Join.compileAll scope place as = .ok (js, mid))
    (hb : Join.compileAll mid (place + as.length) bs = .ok (ks, last)) :
    Join.compileAll scope place (as ++ bs) = .ok (js ++ ks, last) := by
  induction as generalizing scope place js with
  | nil =>
    rw [Join.compileAll] at ha
    cases ha
    exact hb
  | cons a as ih =>
    obtain ⟨j, inner, ls, hj, hls, rfl⟩ := Join.compileAll_cons ha
    rw [List.length_cons, Nat.add_comm as.length 1, ← Nat.add_assoc] at hb
    rw [List.cons_append, Join.compileAll]
    exact bind_eq_ok_iff.mpr ⟨_, hj, bind_eq_ok_iff.mpr ⟨_, ih hls hb, rfl⟩⟩

namespace Substitution

section Joins

variable {s : Substitution} {place : Nat} {scope scope' : Scope}

/-- Where the live table is not joined yet, nothing may refer to the time of creation. -/
theorem forall_reaches_iff (h : scope'.lookup Kind.journablesAlias = none) {refs : List ColumnRef} :
    (∀ ref ∈ refs, s.Reaches scope' ref) ↔ ⟨s.kind.table.name, "created_at"⟩ ∉ refs := by
  constructor
  · intro hall hmem
    obtain ⟨u, hu⟩ := hall _ hmem rfl
    cases h.symm.trans hu
  · rintro hmem ref href rfl
    exact absurd href hmem

/-- A join can be resolved as of an instant if its condition does not refer to the time of
creation. -/
def Admits (s : Substitution) (a : Join) : Prop :=
  ⟨s.kind.table.name, "created_at"⟩ ∉ a.refs ∧ ∀ r ∈ a.fragments, s.KeepsParams r

theorem exists_compile_join_iff (h : Scope.Mirrors s.kind place scope scope')
    (hl : scope'.lookup Kind.journablesAlias = none) {a a' : Join} (hp : a.isAsOf = false)
    (hn : a.relation ≠ s.kind.table.name ∧ a.relation ∉ s.kind.takenNames)
    (ha : s.join a = .ok a') {at_ : Nat} {j : JoinedSource} {inner : Scope}
    (hc : a.compile scope at_ = .ok (j, inner)) :
    ∃ inner', Scope.Mirrors s.kind place inner inner' ∧
      inner'.lookup Kind.journablesAlias = none ∧
      (∀ j' last, a'.compile scope' (at_ + 1) = .ok (j', last) → last = inner') ∧
      ((∃ j' last, a'.compile scope' (at_ + 1) = .ok (j', last)) ↔ s.Admits a) := by
  cases a with
  | asOf entityType dataTable timestamp => cases hp
  | table name given on outer =>
    rw [join] at ha
    obtain ⟨on', hon, rfl⟩ := map_eq_ok_iff.mp ha
    obtain ⟨table, cs, htable, rfl, hcs, rfl⟩ := Join.compile_table hc
    rw [← Source.name_joined htable given at_] at hn
    have hinner := h.cons hn.1 hn.2
    -- the live table is joined last, so its alias is not in scope of any join of the query
    have hnone : List.lookup Kind.journablesAlias
        (((Source.joined table given at_).next.name, (Source.joined table given at_).next) ::
          scope') = none := by
      have hne : (Kind.journablesAlias == (Source.joined table given at_).next.name) = false := by
        rw [Source.name_next]
        exact beq_eq_false_iff_ne.mpr fun e => hn.2 (e ▸ by simp [Kind.takenNames])
      rw [List.lookup_cons, hne]
      exact hl
    refine ⟨_, hinner, hnone, ?_, ?_⟩
    · intro j' last hj'
      obtain ⟨table', cs', htable', rfl, -, -⟩ := Join.compile_table hj'
      obtain rfl : table = table' := Except.ok.inj (htable.symm.trans htable')
      rw [joined_next]
    · rw [Admits, Join.refs, Join.fragments, Join.conditions, ← forall_reaches_iff hnone,
        ← exists_compileAll_iff hinner on hon hcs]
      constructor
      · rintro ⟨j', last, hj'⟩
        obtain ⟨table', cs', htable', rfl, hcs', -⟩ := Join.compile_table hj'
        obtain rfl : table = table' := Except.ok.inj (htable.symm.trans htable')
        rw [joined_next] at hcs'
        exact ⟨cs', hcs'⟩
      · rintro ⟨cs', hcs'⟩
        rw [← joined_next] at hcs'
        exact Prod.exists.mp (Join.exists_compile_table htable _ hcs')

/-- The joins of a query can be resolved as of an instant if each of them can be. -/
theorem exists_compileAll_joins_iff (h : Scope.Mirrors s.kind place scope scope')
    (hl : scope'.lookup Kind.journablesAlias = none) {as as' : List Join}
    (hp : ∀ a ∈ as, a.isAsOf = false)
    (hn : ∀ a ∈ as, a.relation ≠ s.kind.table.name ∧ a.relation ∉ s.kind.takenNames)
    (ha : as.mapM s.join = .ok as') {at_ : Nat} {js : List JoinedSource} {last : Scope}
    (hc : Join.compileAll scope at_ as = .ok (js, last)) :
    ∃ last', Scope.Mirrors s.kind place last last' ∧
      (∀ js' final, Join.compileAll scope' (at_ + 1) as' = .ok (js', final) → final = last') ∧
      ((∃ js' final, Join.compileAll scope' (at_ + 1) as' = .ok (js', final)) ↔
        ∀ a ∈ as, s.Admits a) := by
  induction as generalizing as' scope scope' at_ js with
  | nil =>
    rw [List.mapM_nil] at ha
    cases ha
    rw [Join.compileAll] at hc
    cases hc
    refine ⟨scope', h, ?_, ?_⟩
    · intro js' final hfinal
      rw [Join.compileAll] at hfinal
      cases hfinal
      rfl
    · exact iff_of_true ⟨[], scope', by rw [Join.compileAll]⟩ fun _ hmem => nomatch hmem
  | cons a as ih =>
    obtain ⟨a', bs', ha', hbs', rfl⟩ := mapM_cons_eq_ok_iff.mp ha
    obtain ⟨j, inner, ks, hj, hks, rfl⟩ := Join.compileAll_cons hc
    obtain ⟨inner', hinner, hnone, hunique, hiff⟩ := exists_compile_join_iff h hl
      (hp a List.mem_cons_self) (hn a List.mem_cons_self) ha' hj
    obtain ⟨last', hlast, hunique', hiff'⟩ := ih hinner hnone
      (fun b hb => hp b (List.mem_cons_of_mem _ hb))
      (fun b hb => hn b (List.mem_cons_of_mem _ hb)) hbs' hks
    refine ⟨last', hlast, ?_, ?_⟩
    · intro js' final hfinal
      obtain ⟨j', mid, ks', hj', hks', -⟩ := Join.compileAll_cons hfinal
      obtain rfl := hunique j' mid hj'
      exact hunique' ks' final hks'
    · rw [List.forall_mem_cons, ← hiff, ← hiff']
      constructor
      · rintro ⟨js', final, hfinal⟩
        obtain ⟨j', mid, ks', hj', hks', -⟩ := Join.compileAll_cons hfinal
        obtain rfl := hunique j' mid hj'
        exact ⟨⟨j', mid, hj'⟩, ks', final, hks'⟩
      · rintro ⟨⟨j', mid, hj'⟩, ks', final, hks'⟩
        obtain rfl := hunique j' mid hj'
        rw [Join.compileAll]
        exact ⟨_, _, bind_eq_ok_iff.mpr ⟨_, hj', bind_eq_ok_iff.mpr ⟨_, hks', rfl⟩⟩⟩

/-- The join of the line that holds can be resolved. -/
theorem exists_compile_entryJoin (s : Substitution) (hi : s.instant.micros < Instant.bound)
    (at_ : Nat) :
    ∃ r, s.entryJoin.compile [(s.kind.journal.name, s.kind.payloadSource)] at_ = .ok r := by
  have hpayload : List.lookup s.kind.journal.name
      [(Source.lines.name, .lines), (s.kind.journal.name, s.kind.payloadSource)] =
        some s.kind.payloadSource := (Scope.Mirrors.base s.kind 0).payload
  have hlines : Source.lines = ⟨Schema.journals, none, 0⟩ := rfl
  rw [entryJoin, Join.compile]
  simp only [← hlines, hpayload, Instant.toInstant_moment hi]
  exact ⟨_, rfl⟩

/-- The live table can be joined behind the journal. -/
theorem exists_compile_liveJoin (s : Substitution)
    (hl : scope'.lookup Kind.journalsName = some .lines) (at_ : Nat) :
    ∃ r, s.liveJoin.compile scope' at_ = .ok r := by
  have hid : Scope.column ((Kind.journablesAlias, s.kind.journables at_) :: scope')
      (liveColumn "id") = .ok ⟨s.kind.journables at_, Schema.idColumn⟩ := by
    refine Scope.column_eq_ok_iff.mpr ⟨List.lookup_cons_self, ?_⟩
    exact Column.find?_name (Schema.columnNames_nodup s.kind.table_mem)
      (Schema.idColumn_mem s.kind.table_mem)
  have hentity : Scope.column ((Kind.journablesAlias, s.kind.journables at_) :: scope')
      (journalColumn "entity_id") = .ok ⟨.lines, ⟨"entity_id", .integer, false⟩⟩ :=
    Scope.column_eq_ok_iff.mpr ⟨hl, rfl⟩
  obtain ⟨c, hc⟩ : ∃ c, (Predicate.equality (liveColumn "id")
      (.column (journalColumn "entity_id"))).compile
        ((Kind.journablesAlias, s.kind.journables at_) :: scope') = .ok c := by
    rw [Predicate.compile]
    exact ⟨_, bind_eq_ok_iff.mpr ⟨_, hid, bind_eq_ok_iff.mpr ⟨_, hentity, rfl⟩⟩⟩
  refine Join.exists_compile_table s.kind.findTable_table [c] ?_
  rw [Predicate.compileAll, Predicate.compileAll]
  exact bind_eq_ok_iff.mpr ⟨c, hc, rfl⟩

/-- The joins of a query as of an instant stand between the two that are added, which can always be
resolved. -/
theorem compileAll_asOf_iff (hi : s.instant.micros < Instant.bound) {as' : List Join}
    (hlines : ∀ ks mid, Join.compileAll
      [(Kind.journalsName, .lines), (s.kind.journal.name, s.kind.payloadSource)] 2 as' =
        .ok (ks, mid) → mid.lookup Kind.journalsName = some .lines) {final : Scope} :
    (∃ js, Join.compileAll [(s.kind.journal.name, s.kind.payloadSource)] 1
      (s.entryJoin :: (as' ++ [s.liveJoin])) = .ok (js, final)) ↔
    ∃ ks mid, Join.compileAll
      [(Kind.journalsName, .lines), (s.kind.journal.name, s.kind.payloadSource)] 2 as' =
        .ok (ks, mid) ∧
      final = (Kind.journablesAlias, s.kind.journables (as'.length + 2)) :: mid := by
  have hplace : 2 + as'.length = as'.length + 2 := by omega
  constructor
  · rintro ⟨js, hjs⟩
    obtain ⟨j, inner, rest, hj, hrest, -⟩ := Join.compileAll_cons hjs
    obtain ⟨-, rfl⟩ := compile_entryJoin hi hj
    obtain ⟨ks, mid, ls, hks, hls, -⟩ := Join.compileAll_append hrest
    obtain ⟨l, _, none', hl, hfinal, -⟩ := Join.compileAll_cons hls
    rw [Join.compileAll] at hfinal
    cases hfinal
    rw [show 1 + 1 + as'.length = as'.length + 2 from hplace] at hl
    obtain ⟨-, rfl⟩ := compile_liveJoin (hlines ks mid hks) hl
    exact ⟨ks, mid, hks, rfl⟩
  · rintro ⟨ks, mid, hks, rfl⟩
    obtain ⟨⟨j, inner⟩, hj⟩ := s.exists_compile_entryJoin hi 1
    obtain ⟨-, rfl⟩ := compile_entryJoin hi hj
    obtain ⟨⟨l, last⟩, hl⟩ := s.exists_compile_liveJoin (hlines ks mid hks) (as'.length + 2)
    obtain ⟨-, rfl⟩ := compile_liveJoin (hlines ks mid hks) hl
    have hlast : Join.compileAll mid (2 + as'.length) [s.liveJoin] =
        .ok ([l], (Kind.journablesAlias, s.kind.journables (as'.length + 2)) :: mid) := by
      rw [hplace, Join.compileAll]
      exact bind_eq_ok_iff.mpr ⟨_, hl, bind_eq_ok_iff.mpr ⟨([], _), by rw [Join.compileAll], rfl⟩⟩
    refine ⟨j :: (ks ++ [l]), ?_⟩
    rw [Join.compileAll]
    exact bind_eq_ok_iff.mpr ⟨_, hj, bind_eq_ok_iff.mpr
      ⟨_, Join.compileAll_append_of hks hlast, rfl⟩⟩

end Joins

/-! ## Columns and orders -/

section Columns

variable {s : Substitution} {place : Nat} {scope scope' : Scope}

/-- Where the live table is joined, every name that means something has a counterpart that does. -/
theorem exists_column (h : Scope.Mirrors s.kind place scope scope') {u : Source}
    (hl : scope'.lookup Kind.journablesAlias = some u) {ref : ColumnRef} {x : SourceColumn}
    (hx : scope.column ref = .ok x) : ∃ y, scope'.column (s.column ref) = .ok y :=
  (h.exists_column_iff hx).mpr fun _ => ⟨u, hl⟩

theorem exists_ofProjection_column {ref : ColumnRef} (h : ∃ y, scope'.column ref = .ok y)
    (label : Option String) :
    ∃ ds, OutputColumn.ofProjection scope' (.column ref label) = .ok ds := by
  obtain ⟨y, hy⟩ := h
  exact ⟨_, bind_eq_ok_iff.mpr ⟨y, hy, rfl⟩⟩

theorem exists_entityColumns (h : Scope.Mirrors s.kind place scope scope') {u : Source}
    (hl : scope'.lookup Kind.journablesAlias = some u) :
    ∀ p ∈ s.entityColumns, ∃ ds, OutputColumn.ofProjection scope' p = .ok ds := by
  obtain ⟨cs, hperm, hcs⟩ := s.entityColumns_eq
  rw [hcs, List.forall_mem_map]
  intro c hc
  have hfound : s.kind.table.column? c.name = some c :=
    Column.find?_name (Schema.columnNames_nodup s.kind.table_mem) (hperm.mem_iff.mp hc)
  have hx : scope.column ⟨s.kind.table.name, c.name⟩ = .ok ⟨s.kind.liveSource, c⟩ :=
    Scope.column_eq_ok_iff.mpr ⟨h.live, hfound⟩
  exact exists_ofProjection_column (exists_column h hl hx) _

theorem exists_projection (h : Scope.Mirrors s.kind place scope scope') {u : Source}
    (hl : scope'.lookup Kind.journablesAlias = some u) {p : Projection} {cs : List OutputColumn}
    (hc : OutputColumn.ofProjection scope p = .ok cs) :
    ∀ p' ∈ s.projection p, ∃ ds, OutputColumn.ofProjection scope' p' = .ok ds := by
  cases p with
  | column ref label =>
    obtain ⟨x, hx, -⟩ := bind_eq_ok_iff.mp hc
    rw [projection_column, List.forall_mem_singleton]
    exact exists_ofProjection_column (exists_column h hl hx) _
  | constant v label => exact List.forall_mem_singleton.mpr ⟨_, rfl⟩
  | allColumns table =>
    obtain ⟨t, ht, -⟩ := OutputColumn.ofProjection_allColumns.mp hc
    rw [projection]
    by_cases hown : table = s.kind.table.name
    · subst hown
      rw [if_pos s.isOwnTable_table]
      exact exists_entityColumns h hl
    · obtain ⟨hn, -, hother⟩ := h.others table t ht hown
      rw [isOwnTable_of_other hown hn, if_neg Bool.false_ne_true, List.forall_mem_singleton]
      exact ⟨_, OutputColumn.ofProjection_allColumns.mpr ⟨_, hother, rfl⟩⟩
  | «foreign» v => cases hc

/-- What all projections of a query become. -/
theorem exists_projections (h : Scope.Mirrors s.kind place scope scope') {u : Source}
    (hl : scope'.lookup Kind.journablesAlias = some u) {ps : List Projection} {table : String}
    {cs : List OutputColumn} (hc : outputColumns scope table ps = .ok cs) :
    ∀ p' ∈ s.projections ps, ∃ ds, OutputColumn.ofProjection scope' p' = .ok ds := by
  have hall : ps ≠ [] → ∀ p' ∈ ps.flatMap s.projection,
      ∃ ds, OutputColumn.ofProjection scope' p' = .ok ds := by
    intro hne p' hp'
    rw [outputColumns_of_ne_nil _ _ hne] at hc
    obtain ⟨css, hcss, -⟩ := map_eq_ok_iff.mp hc
    obtain ⟨p, hp, hp'⟩ := List.mem_flatMap.mp hp'
    obtain ⟨ds, hds⟩ := exists_mapM_eq_ok_iff.mp ⟨css, hcss⟩ p hp
    exact exists_projection h hl hds p' hp'
  match ps with
  | [] => exact List.forall_mem_cons.mpr ⟨⟨_, rfl⟩, exists_entityColumns h hl⟩
  | [p] =>
    by_cases hid : s.isIdColumn p = true
    · cases p with
      | column ref label =>
        obtain ⟨x, hx, -⟩ := bind_eq_ok_iff.mp (outputColumns_singleton.mp hc)
        rw [projections, if_pos hid, List.forall_mem_singleton]
        exact exists_ofProjection_column (exists_column h hl hx) _
      | _ => cases hid
    · have hsame : s.projections [p] = [p].flatMap s.projection := by
        cases p with
        | column ref label => rw [projections, if_neg hid, List.flatMap_singleton]
        | _ => rfl
      rw [hsame]
      exact hall (List.cons_ne_nil _ _)
  | p :: r :: ps =>
    have hsame : s.projections (p :: r :: ps) = (p :: r :: ps).flatMap s.projection := by
      cases p <;> rfl
    rw [hsame]
    exact hall (List.cons_ne_nil _ _)

/-- The columns of an answer can always be resolved as of an instant. -/
theorem exists_outputColumns (table' : String) (h : Scope.Mirrors s.kind place scope scope')
    {u : Source} (hl : scope'.lookup Kind.journablesAlias = some u) {ps : List Projection}
    {table : String} {cs : List OutputColumn} (hc : outputColumns scope table ps = .ok cs) :
    ∃ cs', outputColumns scope' table' (s.projections ps) = .ok cs' := by
  have hne : s.projections ps ≠ [] := by
    have hflat : ∀ p : Projection, ∀ ps, (p :: ps).flatMap s.projection ≠ [] := fun p ps =>
      List.append_ne_nil_of_left_ne_nil (s.projection_ne_nil p) _
    unfold projections
    split
    · exact List.cons_ne_nil _ _
    · split
      · exact List.cons_ne_nil _ _
      · exact s.projection_ne_nil _
    · next hnil _ =>
      obtain ⟨p, ps, rfl⟩ := List.exists_cons_of_ne_nil hnil
      exact hflat p ps
  obtain ⟨css, hcss⟩ := exists_mapM_eq_ok_iff.mpr (exists_projections h hl hc)
  rw [outputColumns_of_ne_nil _ _ hne]
  exact ⟨_, map_eq_ok_iff.mpr ⟨css, hcss, rfl⟩⟩

/-- An order can be resolved as of an instant if it is a column or a text that keeps its
parameters. -/
theorem exists_ofOrder_iff (h : Scope.Mirrors s.kind place scope scope') {u : Source}
    (hl : scope'.lookup Kind.journablesAlias = some u) {o : OrderBy} {e : OrderExpr × Bool}
    (ho : OrderExpr.ofOrder scope o = .ok e) :
    (∃ e', OrderExpr.ofOrder scope' (s.order o) = .ok e') ↔
      ∀ r ∈ o.target.fragments, s.KeepsParams r := by
  obtain ⟨target, descending⟩ := o
  cases target with
  | column ref =>
    obtain ⟨x, hx, -⟩ := map_eq_ok_iff.mp ho
    obtain ⟨y, hy⟩ := exists_column h hl hx
    exact iff_of_true ⟨_, map_eq_ok_iff.mpr ⟨y, hy, rfl⟩⟩ fun _ hr => nomatch hr
  | raw r =>
    obtain ⟨c, hc, -⟩ := map_eq_ok_iff.mp ho
    rw [OrderTarget.fragments, List.forall_mem_singleton, ← exists_checkFragment_raw_iff hc]
    constructor
    · rintro ⟨e', he'⟩
      obtain ⟨c', hc', -⟩ := map_eq_ok_iff.mp he'
      exact ⟨c', hc'⟩
    · rintro ⟨c', hc'⟩
      exact ⟨_, map_eq_ok_iff.mpr ⟨c', hc', rfl⟩⟩

/-- Orders can be resolved as of an instant one by one. -/
theorem exists_orders_iff (h : Scope.Mirrors s.kind place scope scope') {u : Source}
    (hl : scope'.lookup Kind.journablesAlias = some u) {bs : List OrderBy}
    {os : List (OrderExpr × Bool)} (ho : bs.mapM (OrderExpr.ofOrder scope) = .ok os) :
    (∃ os', (bs.map s.order).mapM (OrderExpr.ofOrder scope') = .ok os') ↔
      ∀ r ∈ bs.flatMap fun o => o.target.fragments, s.KeepsParams r := by
  have hall := exists_mapM_eq_ok_iff.mp ⟨os, ho⟩
  rw [exists_mapM_eq_ok_iff, List.forall_mem_map, List.forall_mem_flatMap]
  refine forall₂_congr fun o hmem => ?_
  obtain ⟨e, he⟩ := hall o hmem
  exact exists_ofOrder_iff h hl he

end Columns

end Substitution

/-! ## Queries -/

/-- The texts of a query stand in its joins, its conditions and its orders. -/
theorem Substitution.admits_query_iff {s : Substitution} {q : Query} :
    ((∀ j ∈ q.joins, ⟨s.kind.table.name, "created_at"⟩ ∉ j.refs) ∧
      ∀ r ∈ q.fragments, s.KeepsParams r) ↔ (∀ j ∈ q.joins, s.Admits j) ∧
        (∀ r ∈ Predicate.allFragments q.conditions, s.KeepsParams r) ∧
          ∀ r ∈ q.orders.flatMap fun o => o.target.fragments, s.KeepsParams r := by
  simp only [Query.fragments, List.forall_mem_append, List.forall_mem_flatMap, Admits,
    imp_and, forall_and, and_assoc]

/-- A query as of an instant is resolved if no join refers to the time of creation and all texts
keep their parameters. -/
theorem Substitution.exists_compile_query_iff {s : Substitution} {q q' : Query} {a : Select}
    (hi : s.instant.micros < Instant.bound) (hq : q.table = s.kind.table.name)
    (hp : ∀ j ∈ q.joins, j.isAsOf = false)
    (hn : ∀ j ∈ q.joins, j.relation ≠ s.kind.table.name ∧ j.relation ∉ s.kind.takenNames)
    (hs : s.query q = .ok q') (hc : q.compile = .ok a) :
    (∃ a', q'.compile = .ok a') ↔
      (∀ j ∈ q.joins, ⟨s.kind.table.name, "created_at"⟩ ∉ j.refs) ∧
        ∀ r ∈ q.fragments, s.KeepsParams r := by
  obtain ⟨conditions', hconditions', hs⟩ := bind_eq_ok_iff.mp hs
  obtain ⟨joins', hjoins', hs⟩ := bind_eq_ok_iff.mp hs
  cases hs
  obtain ⟨last, hc⟩ := Query.compiled_of_compile hc
  have hbase : a.base = s.kind.liveSource := hc.base_of_table hq
  have hjs := hc.joins
  rw [hq, hbase] at hjs
  have hnone : List.lookup Kind.journablesAlias
      [(Kind.journalsName, .lines), (s.kind.journal.name, s.kind.payloadSource)] = none := by
    cases s.kind <;> decide
  obtain ⟨mid, hmid, hunique, hiff⟩ := exists_compileAll_joins_iff
    (Scope.Mirrors.base s.kind (joins'.length + 2)) hnone hp hn hjoins' hjs
  have hlast := hmid.journables_cons
  have hlive : List.lookup Kind.journablesAlias
      ((Kind.journablesAlias, s.kind.journables (joins'.length + 2)) :: mid) =
        some (s.kind.journables (joins'.length + 2)) := List.lookup_cons_self
  -- by then the live table has been joined, so that every column is reached
  have hreaches : ∀ ref ∈ Predicate.allRefs q.conditions, s.Reaches
      ((Kind.journablesAlias, s.kind.journables (joins'.length + 2)) :: mid) ref :=
    fun _ _ _ => ⟨_, hlive⟩
  have hclauses := (exists_compileAll_iff hlast q.conditions hconditions' hc.conditions).trans
    (and_iff_right hreaches)
  have horders := exists_orders_iff hlast hlive hc.orders
  have hjournal := journalFirst_eq hp hjoins'
  have hjoins : ∀ final, (∃ js, Join.compileAll [(s.kind.journal.name, s.kind.payloadSource)] 1
      (s.entryJoin :: (joins' ++ [s.liveJoin])) = .ok (js, final)) ↔ _ := fun final =>
    compileAll_asOf_iff hi fun ks inner hks => by
      rw [hunique ks inner hks]
      exact hmid.lines
  rw [admits_query_iff, ← hiff, ← hclauses, ← horders]
  constructor
  · rintro ⟨a', ha'⟩
    obtain ⟨last', hc'⟩ := Query.compiled_of_compile ha'
    have hbase' : a'.base = s.kind.payloadSource := hc'.base_of_journal rfl
    have hjs' := hc'.joins
    dsimp only at hjs'
    rw [hbase', hjournal] at hjs'
    obtain ⟨ks, inner, hks, rfl⟩ := (hjoins last').mp ⟨_, hjs'⟩
    obtain rfl := hunique ks inner hks
    exact ⟨⟨ks, inner, hks⟩, ⟨_, hc'.conditions⟩, _, hc'.orders⟩
  · rintro ⟨⟨ks, inner, hks⟩, ⟨cs', hcs'⟩, os', hos'⟩
    obtain rfl := hunique ks inner hks
    obtain ⟨js', hjs'⟩ := (hjoins _).mpr ⟨ks, inner, hks, rfl⟩
    obtain ⟨columns', hcolumns'⟩ := exists_outputColumns s.kind.journal.name hlast hlive hc.columns
    refine ⟨⟨columns', s.kind.payloadSource, js', cs', os', a.limit⟩,
      Query.compile_of_compiled ⟨s.kind.findTable_journal, rfl, ?_, hcolumns', hcs',
        hos', hc.limit⟩⟩
    dsimp only
    rw [hjournal]
    exact hjs'

/-- A query as of a timestamp becomes a statement if the query does, with two exceptions: a join
whose condition refers to the time of creation of the base comes before the live table is joined,
and a parameter of a text that is called like the live table may be gone from the text. -/
theorem Query.compile_asOf_iff {kind : Kind} {q q' : Query} {timestamp : Value} {t : Timestamp}
    {moment : Option Moment} {clock i : Instant} {a : Select}
    (ht : timestamp.toTimestamp = .ok t) (hi : t.resolveAt moment clock = .ok i)
    (hbound : i.micros < Instant.bound) (hq : q.table = kind.table.name)
    (hp : ∀ j ∈ q.joins, j.isAsOf = false)
    (hn : ∀ j ∈ q.joins, j.relation ≠ kind.table.name ∧ j.relation ∉ kind.takenNames)
    (hc : q.compile = .ok a) (has : q.asOfTimestamp timestamp moment clock = .ok q') :
    (∃ a', q'.compile = .ok a') ↔
      (∀ j ∈ q.joins, ⟨kind.table.name, "created_at"⟩ ∉ j.refs) ∧
        ∀ r ∈ q.fragments, (⟨kind, t, i⟩ : Substitution).KeepsParams r := by
  obtain ⟨kind', t', i', hkind, ht', hi', hs⟩ := Query.substitution_of_asOf has
  obtain rfl : kind = kind' := by
    rw [hq, Kind.ofTable?_table] at hkind
    exact Option.some.inj hkind
  obtain rfl : t = t' := Except.ok.inj (ht.symm.trans ht')
  obtain rfl : i = i' := Except.ok.inj (hi.symm.trans hi')
  exact Substitution.exists_compile_query_iff hbound hq hp hn hs hc

/-- A query on the live table of a kind alone, all rows of it, without text. -/
structure Query.Alone (q : Query) (kind : Kind) : Prop where
  table : q.table = kind.table.name
  joins : q.joins = []
  orders : q.orders = []
  limit : q.limit = .all
  asOf : q.asOf = none
  plain : q.isPlain = true
  fragments : q.fragments = []

/-- Such a query can be read as of every timestamp that denotes an instant. -/
theorem Query.exists_asOf_alone {kind : Kind} {q : Query} {a : Select} {timestamp : Value}
    {t : Timestamp} {moment : Option Moment} {clock i : Instant} (hq : q.Alone kind)
    (ht : timestamp.toTimestamp = .ok t) (hi : t.resolveAt moment clock = .ok i)
    (hbound : i.micros < Instant.bound)
    (hps : ∃ ps, (⟨kind, t, i⟩ : Substitution).predicates 0 q.conditions = .ok ps)
    (hc : q.compile = .ok a) : ∃ q' a',
      q.asOfTimestamp timestamp moment clock = .ok q' ∧ findTable q'.table = .ok kind.journal ∧
      q'.compile = .ok a' ∧ (⟨kind, t, i⟩ : Substitution).Mirrors q a a' := by
  have hnone : ∀ (p : Join → Prop), ∀ j ∈ q.joins, p j := fun _ j hj => by
    rw [hq.joins] at hj
    cases hj
  obtain ⟨q', hq', htable⟩ : ∃ q', (⟨kind, t, i⟩ : Substitution).query q = .ok q' ∧
      q'.table = kind.journal.name := by
    obtain ⟨ps, hps⟩ := hps
    refine ⟨_, bind_eq_ok_iff.mpr ⟨ps, hps, bind_eq_ok_iff.mpr ⟨[], ?_, rfl⟩⟩, rfl⟩
    rw [hq.joins]
    rfl
  obtain ⟨a', ha'⟩ := (Substitution.exists_compile_query_iff hbound hq.table (hnone _) (hnone _) hq'
    hc).mpr ⟨hnone _, fun r hr => by rw [hq.fragments] at hr; cases hr⟩
  refine ⟨q', a', ?_, htable ▸ kind.findTable_journal, ha',
    Substitution.compile_query hbound hq.table hq.plain (hq.limit ▸ rfl) (hnone _) hq' hc ha'⟩
  have hkind : Kind.ofTable? q.table = some kind := hq.table ▸ kind.ofTable?_table
  unfold Query.asOfTimestamp
  rw [hkind, hq.asOf]
  refine bind_eq_ok_iff.mpr ⟨t, ht, bind_eq_ok_iff.mpr ⟨⟨kind, t, i⟩, ?_, hq'⟩⟩
  rw [Substitution.build, hi]
  rfl

/-- Work packages with the projects that a column of both puts in order. -/
def comparedBy (column : String) : Query where
  table := "work_packages"
  joins := [.table "projects" none
    [.comparison ⟨"projects", column⟩ .lte (.column ⟨"work_packages", column⟩)] false]
  conditions := []
  projections := [.column ⟨"work_packages", "id"⟩ none, .column ⟨"projects", "name"⟩ none]
  orders := []
  limit := .all
  asOf := none
  readonly := false

/-- The time of the last change can be compared as of a timestamp, and that of creation cannot. -/
theorem Query.compile_asOf_iff_compared :
    (∃ q', (comparedBy "updated_at").asOfTimestamp (.timestamp (.absolute noonInUtc)) none
      Journal.firstDay.instant = .ok q' ∧ ∃ a', q'.compile = .ok a') ∧
    (∃ a, (comparedBy "created_at").compile = .ok a) ∧
    ∃ q', (comparedBy "created_at").asOfTimestamp (.timestamp (.absolute noonInUtc)) none
      Journal.firstDay.instant = .ok q' ∧ ¬∃ a', q'.compile = .ok a' := by
  have hp : ∀ column, ∀ j ∈ (comparedBy column).joins, j.isAsOf = false := fun column =>
    List.forall_mem_singleton.mpr rfl
  have hn : ∀ column, ∀ j ∈ (comparedBy column).joins,
      j.relation ≠ Kind.workPackage.table.name ∧ j.relation ∉ Kind.workPackage.takenNames :=
    fun column => List.forall_mem_singleton.mpr ⟨show "projects" ≠ _ by decide,
      show "projects" ∉ _ by decide⟩
  obtain ⟨a, q', hc, has⟩ : ∃ a q', (comparedBy "updated_at").compile = .ok a ∧
      (comparedBy "updated_at").asOfTimestamp (.timestamp (.absolute noonInUtc)) none
        Journal.firstDay.instant = .ok q' := ⟨_, _, rfl, rfl⟩
  obtain ⟨b, r', hd, hbs⟩ : ∃ b r', (comparedBy "created_at").compile = .ok b ∧
      (comparedBy "created_at").asOfTimestamp (.timestamp (.absolute noonInUtc)) none
        Journal.firstDay.instant = .ok r' := ⟨_, _, rfl, rfl⟩
  refine ⟨⟨q', has, ?_⟩, ⟨b, hd⟩, r', hbs, ?_⟩
  · exact (Query.compile_asOf_iff rfl rfl (by decide) rfl (hp _) (hn _) hc has).mpr
      ⟨List.forall_mem_singleton.mpr (by decide), fun _ hr => nomatch hr⟩
  · intro h
    exact absurd ((Query.compile_asOf_iff rfl rfl (by decide) rfl (hp _) (hn _) hd hbs).mp h).1
      (fun hall => List.forall_mem_singleton.mp hall (by decide))

end Chronicle
