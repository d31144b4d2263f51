import Chronicle.Proofs.Journal.Append
import Chronicle.Proofs.Statement.Compiled
import Chronicle.Proofs.Statement.Renamed
import Chronicle.Query.AsOf

/-!
# Conditions and joins of queries as of an instant

What a condition of a query as of an instant becomes is what the condition of the query itself
becomes, with other columns for those of the live table.

* `Kind.counterpart`: the column that takes the place of another one;
* `Scope.Mirrors`: the relations that the parts of both queries refer to;
* `Substitution.compile_predicates`, `Substitution.compile_joins`: what the conditions and the joins
  of both queries become.
-/

namespace Chronicle

open Chronicle.Calendar

/-! ## Sources and columns -/

/-- The source of the lines of all journals. -/
def Source.lines : Source := ⟨Schema.journals, none, 0⟩

/-- The same source one place further in the list of relations. -/
def Source.next (s : Source) : Source :=
  if s.givenName.isSome then { s with place := s.place + 1 } else s

theorem Source.relation_next (s : Source) : s.next.relation = s.relation := by
  unfold next
  split <;> rfl

theorem Source.table_next (s : Source) : s.next.table = s.table := by
  unfold next
  split <;> rfl

theorem Source.name_next (s : Source) : s.next.name = s.name := by
  unfold next
  split <;> rfl

namespace Kind

/-- The live table as the base of a query. -/
def liveSource (k : Kind) : Source := ⟨k.table, none, 0⟩

/-- The payloads of a kind as the base of a query. -/
def payloadSource (k : Kind) : Source := ⟨k.journal, none, 0⟩

/-- The live table where it is joined for the time of creation. -/
def journables (k : Kind) (place : Nat) : Source := ⟨k.table, some journablesAlias, place⟩

/-- The column that takes the place of another one as of an instant. -/
def counterpart (k : Kind) (place : Nat) (c : SourceColumn) : SourceColumn :=
  if c.source = k.liveSource then
    if c.column.name = "id" then ⟨.lines, ⟨"entity_id", .integer, false⟩⟩
    else if c.column.name = "created_at" then ⟨k.journables place, c.column⟩
    else if c.column.name = "updated_at" then ⟨.lines, ⟨"recorded_at", .instant, false⟩⟩
    else ⟨k.payloadSource, c.column⟩
  else ⟨c.source.next, c.column⟩

theorem counterpart_of_ne {k : Kind} {c : SourceColumn} (h : c.source ≠ k.liveSource)
    (place : Nat) : k.counterpart place c = ⟨c.source.next, c.column⟩ := if_neg h

/-- Counterparts have the types of the columns they stand for. -/
theorem type_counterpart (k : Kind) (place : Nat) {c : SourceColumn}
    (hc : c.column ∈ c.source.table.columns) :
    (k.counterpart place c).column.type = c.column.type := by
  by_cases hs : c.source = k.liveSource
  · have hall : ∀ k ∈ all, ∀ d ∈ k.table.columns,
        (d.name = "id" → d.type = .integer) ∧ (d.name = "updated_at" → d.type = .instant) := by
      decide
    rw [hs] at hc
    obtain ⟨hid, hupdated⟩ := hall k k.mem_all c.column hc
    unfold counterpart
    rw [if_pos hs]
    split
    · next e => exact (hid e).symm
    · split
      · rfl
      · split
        · next e => exact (hupdated e).symm
        · rfl
  · rw [counterpart_of_ne hs]

/-- A live table and its journal have the same columns for the attributes of a payload. -/
theorem column_eq_of_name {k : Kind} {c d : Column} (hc : c ∈ k.table.columns)
    (hd : d ∈ k.journal.columns) (h : c.name = d.name) : c = d := by
  have hall : ∀ k ∈ all, ∀ c ∈ k.table.columns, ∀ d ∈ k.journal.columns, c.name = d.name → c = d := by
    decide
  exact hall k k.mem_all c hc d hd h

/-- The names that the relations of a query may not have. -/
def takenNames (k : Kind) : List String := [k.journal.name, journalsName, journablesAlias]

theorem findTable_table (k : Kind) : findTable k.table.name = .ok k.table := by cases k <;> rfl

theorem findTable_journal (k : Kind) : findTable k.journal.name = .ok k.journal := by cases k <;> rfl

end Kind

namespace Query.Compiled

variable {q : Query} {a : Select} {scope : Scope} {kind : Kind}

/-- The base of a query on a live table. -/
theorem base_of_table (h : q.Compiled a scope) (hq : q.table = kind.table.name) :
    a.base = kind.liveSource := by
  have htable : a.base.table = kind.table :=
    Except.ok.inj ((hq ▸ h.table).symm.trans kind.findTable_table)
  rw [h.base, htable, Kind.liveSource]

/-- The base of a query on a journal. -/
theorem base_of_journal (h : q.Compiled a scope) (hq : q.table = kind.journal.name) :
    a.base = kind.payloadSource := by
  have htable : a.base.table = kind.journal :=
    Except.ok.inj ((hq ▸ h.table).symm.trans kind.findTable_journal)
  rw [h.base, htable, Kind.payloadSource]

end Query.Compiled

/-! ## Scopes -/

/-- Scopes in which the names of a query and their counterparts mean corresponding relations. -/
structure Scope.Mirrors (kind : Kind) (place : Nat) (scope scope' : Scope) : Prop where
  live : scope.lookup kind.table.name = some kind.liveSource
  payload : scope'.lookup kind.journal.name = some kind.payloadSource
  lines : scope'.lookup Kind.journalsName = some .lines
  journables : ∀ s, scope'.lookup Kind.journablesAlias = some s → s = kind.journables place
  others : ∀ name s, scope.lookup name = some s → name ≠ kind.table.name →
    name ∉ kind.takenNames ∧ s ≠ kind.liveSource ∧ scope'.lookup name = some s.next

/-- What a name means is told by its relation and its table. -/
theorem Scope.eq_of_column {scope : Scope} {ref : ColumnRef} {y : SourceColumn} {t : Source}
    {c : Column} (ht : scope.lookup ref.table = some t) (hc : t.table.column? ref.name = some c)
    (hy : scope.column ref = .ok y) : y = ⟨t, c⟩ := by
  obtain ⟨source, column⟩ := y
  obtain ⟨hs, hcolumn⟩ := column_eq_ok_iff.mp hy
  obtain rfl : t = source := Option.some.inj (ht.symm.trans hs)
  obtain rfl : c = column := Option.some.inj (hc.symm.trans hcolumn)
  rfl

theorem Substitution.isOwnTable_table (s : Substitution) :
    s.isOwnTable s.kind.table.name = true := by
  simp [isOwnTable]

theorem Substitution.isOwnTable_of_other {s : Substitution} {name : String}
    (ht : name ≠ s.kind.table.name) (hn : name ∉ s.kind.takenNames) : s.isOwnTable name = false := by
  have hj : name ≠ s.kind.journal.name := fun e => hn (e ▸ List.mem_cons_self)
  simp [isOwnTable, ht, hj]

/-- Where a column of the live table or the journal is found. -/
theorem Substitution.column_own {s : Substitution} {ref : ColumnRef}
    (h : s.isOwnTable ref.table = true) : s.column ref =
      if ref.name = "id" then journalColumn "entity_id"
      else if ref.name = "created_at" then liveColumn "created_at"
      else if ref.name = "updated_at" then journalColumn "recorded_at"
      else ⟨s.kind.journal.name, ref.name⟩ := by
  simp [column, h]

namespace Scope.Mirrors

variable {kind : Kind} {place : Nat} {scope scope' : Scope}

theorem base (kind : Kind) (place : Nat) : Mirrors kind place [(kind.table.name, kind.liveSource)]
    [(Kind.journalsName, .lines), (kind.journal.name, kind.payloadSource)] where
  live := by simp
  payload := by cases kind <;> decide
  lines := rfl
  journables s hs := by
    revert hs
    cases kind <;> intro hs <;> cases hs
  others name s hs hne := by
    rw [List.lookup_cons, show (name == kind.table.name) = false from beq_eq_false_iff_ne.mpr hne]
      at hs
    cases hs

/-- One more relation of the query in both scopes. -/
theorem cons (h : Mirrors kind place scope scope') {s : Source} (ht : s.name ≠ kind.table.name)
    (hn : s.name ∉ kind.takenNames) :
    Mirrors kind place ((s.name, s) :: scope) ((s.next.name, s.next) :: scope') := by
  have hne : ∀ {name : String} (t : Source) (sc : Scope), name ≠ s.name →
      List.lookup name ((s.name, t) :: sc) = sc.lookup name := by
    intro name t sc hne
    rw [List.lookup_cons, show (name == s.name) = false from beq_eq_false_iff_ne.mpr hne]
  have htaken : ∀ name ∈ kind.takenNames, name ≠ s.name := fun name hname e => hn (e ▸ hname)
  rw [s.name_next]
  refine ⟨?_, ?_, ?_, ?_, ?_⟩
  · rw [hne s scope ht.symm]
    exact h.live
  · rw [hne _ scope' (htaken _ (by simp [Kind.takenNames]))]
    exact h.payload
  · rw [hne _ scope' (htaken _ (by simp [Kind.takenNames]))]
    exact h.lines
  · rw [hne _ scope' (htaken _ (by simp [Kind.takenNames]))]
    exact h.journables
  · intro name u hu hname
    by_cases he : name = s.name
    · subst he
      rw [List.lookup_cons_self, Option.some.injEq] at hu
      subst hu
      refine ⟨hn, ?_, List.lookup_cons_self⟩
      rintro rfl
      exact ht rfl
    · rw [hne s scope he] at hu
      rw [hne _ scope' he]
      exact h.others name u hu hname

/-- The live table joined for the time of creation. -/
theorem journables_cons (h : Mirrors kind place scope scope') :
    Mirrors kind place scope ((Kind.journablesAlias, kind.journables place) :: scope') := by
  have hne : ∀ {name : String}, name ≠ Kind.journablesAlias →
      List.lookup name ((Kind.journablesAlias, kind.journables place) :: scope') =
        scope'.lookup name := by
    intro name hne
    rw [List.lookup_cons,
      show (name == Kind.journablesAlias) = false from beq_eq_false_iff_ne.mpr hne]
  refine ⟨h.live, ?_, ?_, ?_, ?_⟩
  · rw [hne (by cases kind <;> decide)]
    exact h.payload
  · rw [hne (by decide)]
    exact h.lines
  · intro s hs
    rw [List.lookup_cons_self] at hs
    exact (Option.some.inj hs).symm
  · intro name s hs hname
    obtain ⟨hn, hlive, hother⟩ := h.others name s hs hname
    rw [hne fun e => hn (by simp [Kind.takenNames, e])]
    exact ⟨hn, hlive, hother⟩

/-- The counterpart of a name means the counterpart of the column. -/
theorem column {s : Substitution} (h : Mirrors s.kind place scope scope') {ref : ColumnRef}
    {x y : SourceColumn} (hx : scope.column ref = .ok x)
    (hy : scope'.column (s.column ref) = .ok y) : y = s.kind.counterpart place x := by
  obtain ⟨hsx, hcx⟩ := column_eq_ok_iff.mp hx
  have hname := Table.column?_name hcx
  by_cases ht : ref.table = s.kind.table.name
  · have hsource : x.source = s.kind.liveSource := by
      rw [ht, h.live] at hsx
      exact (Option.some.inj hsx).symm
    rw [Substitution.column_own (ht ▸ s.isOwnTable_table), ← hname] at hy
    unfold Kind.counterpart
    rw [if_pos hsource]
    split at hy
    · next hid =>
      rw [if_pos hid]
      exact eq_of_column h.lines rfl hy
    · next hid =>
      rw [if_neg hid]
      split at hy
      · next hcreated =>
        rw [if_pos hcreated]
        have hsy := (column_eq_ok_iff.mp hy).1
        rw [hsource, ← hname, hcreated] at hcx
        refine eq_of_column (h.journables _ hsy ▸ hsy) ?_ hy
        exact hcx
      · next hcreated =>
        rw [if_neg hcreated]
        split at hy
        · next hupdated =>
          rw [if_pos hupdated]
          exact eq_of_column h.lines rfl hy
        · next hupdated =>
          rw [if_neg hupdated]
          obtain ⟨hsy, hcy⟩ := column_eq_ok_iff.mp hy
          have hpayload : s.kind.payloadSource = y.source := by
            exact Option.some.inj (h.payload.symm.trans hsy)
          rw [← hpayload] at hcy
          rw [hsource] at hcx
          have hcolumn := Kind.column_eq_of_name (Table.column?_mem hcx) (Table.column?_mem hcy)
            (Table.column?_name hcy).symm
          refine eq_of_column h.payload ?_ hy
          exact hcy.trans (congrArg some hcolumn.symm)
  · obtain ⟨hn, hlive, hother⟩ := h.others _ _ hsx ht
    rw [Substitution.column_of_other s ref (Substitution.isOwnTable_of_other ht hn)] at hy
    rw [Kind.counterpart_of_ne hlive]
    exact eq_of_column hother (by rw [x.source.table_next, hcx]) hy

end Scope.Mirrors

/-! ## Conditions -/

namespace Substitution

/-- A column that a scope and its mirror have names for. -/
def Maps (s : Substitution) (place : Nat) (scope scope' : Scope) (x : SourceColumn) : Prop :=
  ∃ ref, scope.column ref = .ok x ∧
    scope'.column (s.column ref) = .ok (s.kind.counterpart place x)

section Predicates

variable {s : Substitution} {place : Nat} {scope scope' : Scope}

theorem maps_of_column (h : Scope.Mirrors s.kind place scope scope') {ref : ColumnRef}
    {x y : SourceColumn} (hx : scope.column ref = .ok x)
    (hy : scope'.column (s.column ref) = .ok y) :
    y = s.kind.counterpart place x ∧ s.Maps place scope scope' x := by
  have e := h.column hx hy
  exact ⟨e, ref, hx, e ▸ hy⟩

theorem Maps.type {x : SourceColumn} (h : s.Maps place scope scope' x) :
    (s.kind.counterpart place x).column.type = x.column.type := by
  obtain ⟨ref, hx, -⟩ := h
  exact s.kind.type_counterpart place (Table.column?_mem (Scope.column_eq_ok_iff.mp hx).2)

/-- A condition on a column becomes the same condition on its counterpart. -/
theorem compile_comparison (h : Scope.Mirrors s.kind place scope scope') {ref : ColumnRef}
    {v : Operand} {op : Relator} {build : SourceColumn → Scalar → Except Failure Clause}
    (hbuild : ∀ {x : SourceColumn}, s.Maps place scope scope' x → ∀ v,
      build (s.kind.counterpart place x) v =
        (build x v).map (Clause.renamed (s.kind.counterpart place)))
    (hresolved : ∀ {x : SourceColumn} {v : Scalar} {c : Clause}, s.Maps place scope scope' x →
      build x v = .ok c → c.Resolved (s.Maps place scope scope'))
    {c c' : Clause}
    (hc : (do
      let x ← scope.column ref
      match v with
      | .column r => return Clause.compare op x (.column (← scope.column r))
      | .value v => build x v) = .ok c)
    (hc' : (do
      let x ← scope'.column (s.column ref)
      match s.operand v with
      | .column r => return Clause.compare op x (.column (← scope'.column r))
      | .value v => build x v) = .ok c') :
    c' = c.renamed (s.kind.counterpart place) ∧ c.Resolved (s.Maps place scope scope') := by
  obtain ⟨x, hx, hc⟩ := bind_eq_ok_iff.mp hc
  obtain ⟨x', hx', hc'⟩ := bind_eq_ok_iff.mp hc'
  obtain ⟨rfl, hmaps⟩ := maps_of_column h hx hx'
  cases v with
  | column r =>
    obtain ⟨y, hy, hc⟩ := bind_eq_ok_iff.mp hc
    obtain ⟨y', hy', hc'⟩ := bind_eq_ok_iff.mp hc'
    obtain ⟨rfl, hmaps'⟩ := maps_of_column h hy hy'
    cases hc
    cases hc'
    exact ⟨rfl, hmaps, hmaps'⟩
  | value v =>
    have hboth : (build x v).map (Clause.renamed (s.kind.counterpart place)) = .ok c' :=
      (hbuild hmaps v).symm.trans hc'
    have hx : build x v = .ok c := hc
    rw [hx] at hboth
    exact ⟨(Except.ok.inj hboth).symm, hresolved hmaps hx⟩

mutual

/-- A condition becomes what it was, with counterparts for its columns. -/
theorem compile_predicate (h : Scope.Mirrors s.kind place scope scope') :
    ∀ (a : Predicate) {depth : Int} {a' : Predicate} {c c' : Clause}, a.isPlain = true →
      s.predicate depth a = .ok a' → a.compile scope = .ok c → a'.compile scope' = .ok c' →
        c' = c.renamed (s.kind.counterpart place) ∧ c.Resolved (s.Maps place scope scope')
  | .equality ref v, _, _, _, _, _, ha, hc, hc' => by
    cases ha
    rw [Predicate.compile] at hc hc'
    exact compile_comparison h (fun hx v => Clause.equation_renamed hx.type .eq v)
      (fun hx hv => Clause.equation_resolved hx hv) hc hc'
  | .notEqual ref v, _, _, _, _, _, ha, hc, hc' => by
    cases ha
    rw [Predicate.compile] at hc hc'
    exact compile_comparison h (fun hx v => Clause.equation_renamed hx.type .ne v)
      (fun hx hv => Clause.equation_resolved hx hv) hc hc'
  | .comparison ref op v, _, _, _, _, _, ha, hc, hc' => by
    cases ha
    rw [Predicate.compile] at hc hc'
    exact compile_comparison h
      (fun hx v => Clause.ordering_renamed hx.type (Clause.comparator op) v)
      (fun hx hv => Clause.ordering_resolved hx hv) hc hc'
  | .membership ref values none negated, _, _, _, _, _, ha, hc, hc' => by
    cases ha
    rw [Predicate.compile] at hc hc'
    obtain ⟨x, hx, hc⟩ := bind_eq_ok_iff.mp hc
    obtain ⟨vs, hvs, hc⟩ := bind_eq_ok_iff.mp hc
    obtain ⟨x', hx', hc'⟩ := bind_eq_ok_iff.mp hc'
    obtain ⟨vs', hvs', hc'⟩ := bind_eq_ok_iff.mp hc'
    obtain ⟨rfl, hmaps⟩ := maps_of_column h hx hx'
    obtain rfl : vs = vs' := Except.ok.inj (hvs.symm.trans hvs')
    cases hc
    cases hc'
    exact ⟨rfl, hmaps⟩
  | .membership ref values (some q) negated, _, _, _, _, hp, ha, hc, hc' => by
    cases ha
    rw [Predicate.compile] at hc hc'
    obtain ⟨x, hx, hc⟩ := bind_eq_ok_iff.mp hc
    obtain ⟨rows, hrows, hc⟩ := bind_eq_ok_iff.mp hc
    obtain ⟨x', hx', hc'⟩ := bind_eq_ok_iff.mp hc'
    obtain ⟨rows', hrows', hc'⟩ := bind_eq_ok_iff.mp hc'
    obtain ⟨rfl, hmaps⟩ := maps_of_column h hx hx'
    obtain rfl : rows = rows' := Except.ok.inj (hrows.symm.trans hrows')
    cases hc
    cases hc'
    exact ⟨rfl, hmaps, Query.compile_resolved q hp hrows⟩
  | .grouping ps conjunction, depth, _, _, _, hp, ha, hc, hc' => by
    rw [predicate] at ha
    obtain ⟨ps', hps, rfl⟩ := map_eq_ok_iff.mp ha
    rw [Predicate.compile] at hc hc'
    obtain ⟨cs, hcs, hc⟩ := bind_eq_ok_iff.mp hc
    obtain ⟨cs', hcs', hc'⟩ := bind_eq_ok_iff.mp hc'
    obtain ⟨rfl, hresolved⟩ := compile_predicates h ps hp hps hcs hcs'
    cases hc
    cases hc'
    refine ⟨?_, Clause.grouped_resolved (Clause.combine_resolved hresolved)⟩
    rw [Clause.combine_renamed, Clause.grouped_renamed]
  | .raw _, _, _, _, _, hp, _, _, _ => nomatch hp
  | .negation _, _, _, _, _, _, ha, _, _ => nomatch ha
  | .existence _ _, _, _, _, _, _, ha, _, _ => nomatch ha
  | .foreign _, _, _, _, _, _, ha, _, _ => nomatch ha

theorem compile_predicates (h : Scope.Mirrors s.kind place scope scope') :
    ∀ (as : List Predicate) {depth : Int} {as' : List Predicate} {cs cs' : List Clause},
      Predicate.arePlain as = true → s.predicates depth as = .ok as' →
        Predicate.compileAll scope as = .ok cs → Predicate.compileAll scope' as' = .ok cs' →
          cs' = Clause.renamedAll (s.kind.counterpart place) cs ∧
            Clause.AllResolved (s.Maps place scope scope') cs
  | [], _, _, _, _, _, ha, hc, hc' => by
    cases ha
    rw [Predicate.compileAll] at hc hc'
    cases hc
    cases hc'
    exact ⟨rfl, trivial⟩
  | a :: as, _, _, _, _, hp, ha, hc, hc' => by
    have hboth : a.isPlain = true ∧ Predicate.arePlain as = true := Bool.and_eq_true_iff.mp hp
    rw [predicates] at ha
    obtain ⟨a', ha', ha⟩ := bind_eq_ok_iff.mp ha
    obtain ⟨as', has', ha⟩ := bind_eq_ok_iff.mp ha
    cases ha
    rw [Predicate.compileAll] at hc hc'
    obtain ⟨c, hca, hc⟩ := bind_eq_ok_iff.mp hc
    obtain ⟨cs, hcs, hc⟩ := bind_eq_ok_iff.mp hc
    obtain ⟨c', hca', hc'⟩ := bind_eq_ok_iff.mp hc'
    obtain ⟨cs', hcs', hc'⟩ := bind_eq_ok_iff.mp hc'
    cases hc
    cases hc'
    obtain ⟨rfl, hresolved⟩ := compile_predicate h a hboth.1 ha' hca hca'
    obtain ⟨rfl, hall⟩ := compile_predicates h as hboth.2 has' hcs hcs'
    exact ⟨rfl, hresolved, hall⟩

end

end Predicates

/-! ## Joins -/

/-- A join of the query among those of the query as of an instant. -/
def mirrored (s : Substitution) (place : Nat) : JoinedSource → JoinedSource
  | .mk source on outer => .mk source.next (on.renamed (s.kind.counterpart place)) outer

/-- A column in view of some joins, with a counterpart that is in view as well. -/
def InView (s : Substitution) (place : Nat) (ss ss' : List Source) (x : SourceColumn) : Prop :=
  x.InView (s.kind.liveSource :: ss) ∧
    (s.kind.counterpart place x).InView (s.kind.payloadSource :: .lines :: ss')

theorem Maps.inView {s : Substitution} {place : Nat} {scope scope' : Scope} {x : SourceColumn}
    (h : s.Maps place scope scope' x) {ss ss' : List Source}
    (hs : scope.Within (s.kind.liveSource :: ss))
    (hs' : scope'.Within (s.kind.payloadSource :: .lines :: ss')) : s.InView place ss ss' x := by
  obtain ⟨ref, hx, hx'⟩ := h
  exact ⟨hs.column hx, hs'.column hx'⟩

theorem joined_next (table : Table) (given : Option String) (place : Nat) :
    Source.joined table given (place + 1) = (Source.joined table given place).next := by
  unfold Source.joined Source.next
  dsimp only
  split <;> rfl

/-- Scopes that mirror each other, with the sources of the relations in them. -/
structure Scopes (s : Substitution) (place : Nat) (ss : List Source) (scope scope' : Scope) :
    Prop where
  mirrors : Scope.Mirrors s.kind place scope scope'
  within : scope.Within (s.kind.liveSource :: ss)
  within' : scope'.Within (s.kind.payloadSource :: .lines :: ss.map Source.next)

/-- What both queries refer to before the first join of the query. -/
theorem Scopes.base (s : Substitution) (place : Nat) :
    s.Scopes place [] [(s.kind.table.name, s.kind.liveSource)]
      [(Kind.journalsName, .lines), (s.kind.journal.name, s.kind.payloadSource)] where
  mirrors := .base s.kind place
  within := by
    intro e he
    cases List.mem_singleton.mp he
    exact ⟨List.mem_cons_self, s.kind.table_mem⟩
  within' := by
    intro e he
    rcases List.mem_cons.mp he with rfl | he
    · exact ⟨List.mem_cons_of_mem _ List.mem_cons_self, Schema.journals_mem⟩
    · cases List.mem_singleton.mp he
      exact ⟨List.mem_cons_self, s.kind.journal_mem⟩

/-- The conditions of a join refer to what is in view of it, and so do their counterparts. -/
def Joins (s : Substitution) (place : Nat) (ss : List Source) (j : JoinedSource) : Prop :=
  j.on.Resolved (s.InView place ss (ss.map Source.next))

/-- Joins become what they were, one place further. -/
theorem compile_joins {s : Substitution} {place : Nat} {as as' : List Join}
    {scope scope' last last' : Scope} {at_ : Nat} {js js' : List JoinedSource} {ss : List Source}
    (h : s.Scopes place ss scope scope') (hp : Join.arePlain as = true)
    (hn : ∀ a ∈ as, a.relation ≠ s.kind.table.name ∧ a.relation ∉ s.kind.takenNames)
    (ha : as.mapM s.join = .ok as') (hc : Join.compileAll scope at_ as = .ok (js, last))
    (hc' : Join.compileAll scope' (at_ + 1) as' = .ok (js', last')) :
    js' = js.map (s.mirrored place) ∧ JoinedSource.Each (s.Joins place) ss js ∧
      s.Scopes place (ss ++ js.map JoinedSource.source) last last' := by
  induction as generalizing as' scope scope' at_ js js' ss with
  | nil =>
    rw [List.mapM_nil] at ha
    cases ha
    rw [Join.compileAll] at hc hc'
    cases hc
    cases hc'
    refine ⟨rfl, trivial, ?_⟩
    rw [List.map_nil, List.append_nil]
    exact h
  | cons a as ih =>
    have hboth : a.isPlain = true ∧ Join.arePlain as = true := Bool.and_eq_true_iff.mp hp
    obtain ⟨a', bs', ha', hbs', rfl⟩ := mapM_cons_eq_ok_iff.mp ha
    obtain ⟨j, inner, ks, hj, hks, rfl⟩ := Join.compileAll_cons hc
    obtain ⟨j', inner', ks', hj', hks', rfl⟩ := Join.compileAll_cons hc'
    cases a with
    | asOf entityType dataTable timestamp => exact nomatch hboth.1
    | table name given on outer =>
      rw [join] at ha'
      obtain ⟨on', hon, rfl⟩ := map_eq_ok_iff.mp ha'
      obtain ⟨table, cs, htable, rfl, hcs, rfl⟩ := Join.compile_table hj
      obtain ⟨table', cs', htable', rfl, hcs', rfl⟩ := Join.compile_table hj'
      obtain rfl : table = table' := Except.ok.inj (htable.symm.trans htable')
      have hmem := (findTable_eq_ok htable).1
      obtain ⟨hown, htaken⟩ := hn _ List.mem_cons_self
      rw [← Source.name_joined htable given at_] at hown htaken
      rw [joined_next] at hcs' hks'
      have hnext : s.Scopes place (ss ++ [Source.joined table given at_])
          (((Source.joined table given at_).name, .joined table given at_) :: scope)
          (((Source.joined table given at_).next.name, (Source.joined table given at_).next) ::
            scope') := by
        refine ⟨h.mirrors.cons hown htaken, h.within.cons _ hmem, ?_⟩
        rw [List.map_append, ← List.cons_append, ← List.cons_append]
        exact h.within'.cons _ (by rw [Source.table_next]; exact hmem)
      obtain ⟨rfl, hresolved⟩ := compile_predicates hnext.mirrors on hboth.1 hon hcs hcs'
      obtain ⟨rfl, heach, hlast⟩ := ih hnext hboth.2
        (fun b hb => hn b (List.mem_cons_of_mem _ hb)) hbs' hks hks'
      refine ⟨?_, ⟨?_, heach⟩, ?_⟩
      · rw [List.map_cons, mirrored, joined_next, Clause.combine_renamed]
      · exact Clause.resolved_imp (fun x hx => hx.inView hnext.within hnext.within') _
          (Clause.combine_resolved hresolved)
      · rw [List.map_cons, ← List.singleton_append, ← List.append_assoc]
        exact hlast

end Substitution

end Chronicle
