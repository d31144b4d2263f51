import Chronicle.Proofs.Filter.Exact
import Chronicle.Proofs.Filter.Patterns
import Chronicle.Proofs.History.Batch

/-!
# Filters of any conditions

A filter asks the journal for the entities of its kind, and of those that are listed it lets pass the
ones whose state as of an instant its conditions accept, whatever operators they have.

* `Substitution.Follows`: a condition says of an entry what it says of the state that the entry holds;
* `Substitution.follows_of_predicates`: so do the conditions of a filter, one by one;
* `Substitution.isSome_rowOf_iff`: the numbers that the query of a filter answers with;
* `Filter.Accepts`: what the conditions say of a row of the live table;
* `Filter.any_matching_iff`: the numbers that a filter lets pass.
-/

namespace Chronicle

open Chronicle.Calendar

/-! ## Conditions one by one -/

namespace Clause

/-- A test of a column, which is written and is no text. -/
def isTest : Clause → Bool
  | compare _ _ _ | isNull _ _ | amongValues _ _ _ => true
  | _ => false

variable {d : Clause}

theorem spec_of_isTest (h : d.isTest = true) :
    d.isBlank = false ∧ d.isRaw = false ∧ d.fragments = [] := by
  unfold isTest at h
  split at h
  case h_4 => cases h
  all_goals exact ⟨rfl, rfl, by rw [fragments]⟩

theorem isTest_of_equation {op : Relator} {c : SourceColumn} {v : Scalar}
    (h : equation op c v = .ok d) : d.isTest = true := by
  unfold equation at h
  split at h
  case h_3 =>
    obtain ⟨_, -, rfl⟩ := map_eq_ok_iff.mp h
    rfl
  all_goals
    cases h
    rfl

theorem isTest_of_ordering {op : Relator} {c : SourceColumn} {v : Scalar}
    (h : ordering op c v = .ok d) : d.isTest = true := by
  unfold ordering at h
  split at h
  · cases h
  · split at h <;> cases h
    rfl
  · obtain ⟨_, -, rfl⟩ := map_eq_ok_iff.mp h
    rfl

end Clause

namespace Predicate

variable {p q : Predicate}

theorem isTest_of_operand {scope : Scope} {ref : ColumnRef} {v : Operand} {op : Relator}
    {build : SourceColumn → Scalar → Except Failure Clause}
    (hbuild : ∀ {c v d}, build c v = .ok d → d.isTest = true) {d : Clause}
    (h : (do
      let c ← scope.column ref
      match v with
      | .column r => return Clause.compare op c (.column (← scope.column r))
      | .value v => build c v) = .ok d) : d.isTest = true := by
  obtain ⟨c, -, ⟨r, y, -, -, rfl⟩ | ⟨v, -, hv⟩⟩ := operand_cases h
  · rfl
  · exact hbuild hv

/-- Comparisons become tests. -/
theorem isTest_of_compile (hp : p.isComparison = true) {scope : Scope} {d : Clause}
    (h : p.compile scope = .ok d) : d.isTest = true := by
  unfold isComparison at hp
  split at hp
  case h_5 => cases hp
  all_goals rw [compile] at h
  case h_1 => exact isTest_of_operand Clause.isTest_of_equation h
  case h_2 => exact isTest_of_operand Clause.isTest_of_equation h
  case h_3 => exact isTest_of_operand Clause.isTest_of_ordering h
  case h_4 =>
    obtain ⟨_, -, h⟩ := bind_eq_ok_iff.mp h
    obtain ⟨_, -, h⟩ := bind_eq_ok_iff.mp h
    cases h
    rfl

theorem compileAll_cons {scope : Scope} {ps : List Predicate} {cs : List Clause}
    (h : compileAll scope (p :: ps) = .ok cs) :
    ∃ d ds, p.compile scope = .ok d ∧ compileAll scope ps = .ok ds ∧ cs = d :: ds := by
  rw [compileAll] at h
  obtain ⟨d, hd, h⟩ := bind_eq_ok_iff.mp h
  obtain ⟨ds, hds, h⟩ := bind_eq_ok_iff.mp h
  cases h
  exact ⟨d, ds, hd, hds, rfl⟩

theorem isComparison_of_predicate (hp : p.isComparison = true) {s : Substitution} {depth : Int}
    (h : s.predicate depth p = .ok q) : q.isComparison = true := by
  unfold isComparison at hp
  split at hp
  case h_5 => cases hp
  all_goals
    cases h
    rfl

theorem isPlain_of_comparison (hp : p.isComparison = true) : p.isPlain = true := by
  unfold isComparison at hp
  split at hp <;> first | rfl | cases hp

end Predicate

namespace Condition

/-- A condition is a comparison or a pattern. -/
theorem predicate_cases {c : Condition} {table : String} {clock : Instant} {n : Nat} {p : Predicate}
    (h : c.predicate table clock n = .ok p) : p.isComparison = true ∨
      ∃ lacks v, p = .raw (pattern lacks ⟨table, c.field⟩ (patternParam c.field n) v) := by
  obtain ⟨values, -, h⟩ := bind_eq_ok_iff.mp h
  have hequal : ∀ column v p, Predicate.equal column v = .ok p → p.isComparison = true := by
    intro column v p hp
    obtain ⟨_, -, rfl⟩ := map_eq_ok_iff.mp hp
    rfl
  have hunequal : ∀ column v p, Predicate.unequal column v = .ok p → p.isComparison = true := by
    intro column v p hp
    obtain ⟨_, -, rfl⟩ := map_eq_ok_iff.mp hp
    rfl
  have hcompared : ∀ column op v p, Predicate.compared column op v = .ok p →
      p.isComparison = true := by
    intro column op v p hp
    obtain ⟨_, -, rfl⟩ := map_eq_ok_iff.mp hp
    rfl
  have hamong : ∀ column vs negated p, Predicate.among column (.list vs) negated = .ok p →
      p.isComparison = true := by
    intro column vs negated p hp
    obtain ⟨_, -, rfl⟩ := Predicate.among_list_eq_ok_iff.mp hp
    rfl
  dsimp only at h
  split at h
  case h_1 | h_2 =>
    refine .inl ?_
    split at h
    · first | exact hequal _ _ _ h | exact hunequal _ _ _ h
    · exact hamong _ _ _ _ h
  case h_3 | h_4 => exact .inl (hcompared _ _ _ _ h)
  case h_5 => exact .inl (hunequal _ _ _ h)
  case h_6 => exact .inl (hequal _ _ _ h)
  case h_7 =>
    cases h
    exact .inr ⟨false, _, rfl⟩
  case h_8 =>
    cases h
    exact .inr ⟨true, _, rfl⟩

end Condition

/-! ## Conditions as of an instant -/

theorem checkFragment_eq_ok {r r' : RawFragment} (h : checkFragment r = .ok r') : r = r' := by
  unfold checkFragment at h
  split at h
  · cases h
  · split at h
    · exact Except.ok.inj h
    · cases h

/-- One more text agrees with others if it gives a single value, to a parameter of its own. -/
theorem RawFragment.Agree.cons {sql name : String} {v : Value} {rs : List RawFragment}
    (h : Agree rs) (hname : ∀ r ∈ rs, ∀ p ∈ r.params, p.1 ≠ name) :
    Agree (⟨sql, [(name, v)]⟩ :: rs) := by
  have hfirst : ∀ n w, (n, w) ∈ [(name, v)] → n = name ∧ w = v := by simp
  intro r hr r' hr' n w w' hw hw'
  rcases List.mem_cons.mp hr with rfl | hr <;> rcases List.mem_cons.mp hr' with rfl | hr'
  · exact (hfirst n w hw).2.trans (hfirst n w' hw').2.symm
  · exact absurd (hfirst n w hw).1 (hname r' hr' _ hw')
  · exact absurd (hfirst n w' hw').1 (hname r hr _ hw)
  · exact h r hr r' hr' n w w' hw hw'

namespace Substitution

open Condition

/-- As of an instant a condition says of an entry what it says of the state that the entry holds. -/
structure Follows (s : Substitution) (db : Database) (d d' : Clause) : Prop where
  written : d'.isBlank = false
  list : ∀ r, d' = .raw r → r.IsListOf .and
  truth : ∀ x : Held, x.Holds s db [] → d'.truth db [x.asOf s] = d.truth db [x.onState s]

/-- Every parameter is that of a condition at a place or behind it. -/
def ParamsFrom (n : Nat) (rs : List RawFragment) : Prop :=
  ∀ r ∈ rs, ∀ p ∈ r.params, ∃ field m, n ≤ m ∧ p.1 = patternParam field m

section Conditions

variable {s : Substitution} {db : Database} (hdb : Journal.Regular db) {place : Nat} {scope' : Scope}
  (h : Scope.Mirrors s.kind place [(s.kind.table.name, s.kind.liveSource)] scope')
  {clock : Instant} {n : Nat}

include hdb h

theorem follows_of_comparison {p p' : Predicate} (hp : p.isComparison = true)
    (hp' : s.predicate 0 p = .ok p') {d d' : Clause}
    (hd : p.compile [(s.kind.table.name, s.kind.liveSource)] = .ok d)
    (hd' : p'.compile scope' = .ok d') : s.Follows db d d' ∧ d'.fragments = [] := by
  obtain ⟨hblank, hraw, hfragments⟩ := Clause.spec_of_isTest
    (Predicate.isTest_of_compile (Predicate.isComparison_of_predicate hp hp') hd')
  obtain ⟨rfl, hresolved⟩ :=
    compile_predicate h p (Predicate.isPlain_of_comparison hp) hp' hd hd'
  have hwithin : Scope.Within [(s.kind.table.name, s.kind.liveSource)] [s.kind.liveSource] :=
    (Scopes.base s place).within
  have hview := Clause.resolved_imp (fun x hx => hwithin.column hx.choose_spec.1) d hresolved
  refine ⟨⟨hblank, ?_, fun x hx => ?_⟩, hfragments⟩
  · intro r hr
    rw [hr] at hraw
    cases hraw
  · exact Clause.truth_renamed db d (hx.renames hdb (fun _ hu => nomatch hu) [] []) hview

omit h in
theorem follows_of_pattern {field : String} (hfield : s.kind.hasAttribute field = true)
    (lacks : Bool) (v : Value) :
    s.Follows db (.raw (pattern lacks ⟨s.kind.table.name, field⟩ (patternParam field n) v))
      (.raw (s.raw (pattern lacks ⟨s.kind.table.name, field⟩ (patternParam field n) v))) := by
  obtain ⟨hcolumn, hname⟩ := Kind.columnOf_spec hfield
  have hparam := isParam_patternParam (Schema.lettered_columns s.kind.table_mem hcolumn) n
  rw [hname] at hparam
  have htarget := (s.lettered_column hcolumn).2
  have hraw := s.raw_pattern hcolumn hparam lacks v
  have hcell := fun x (hx : Held.Holds s db [] x) => s.cell_raw_pattern hcolumn hparam lacks v hdb hx
  rw [hname] at htarget hraw hcell
  refine ⟨?_, ?_, fun x hx => congrArg Cell.toTruth (hcell x hx)⟩
  · rw [hraw]
    exact isEmpty_pattern htarget hparam lacks v
  · rw [hraw]
    rintro _ ⟨⟩
    exact isListOf_pattern htarget hparam lacks v

/-- Each condition of a filter is followed, and no two give a value to the same parameter. -/
theorem follows_of_predicates {cs : List Condition}
    (hfields : ∀ c ∈ cs, s.kind.hasAttribute c.field = true) {ps ps' : List Predicate}
    (hps : Filter.predicatesFrom s.kind.table.name clock n cs = .ok ps)
    (hps' : s.predicates 0 ps = .ok ps') {ds ds' : List Clause}
    (hds : Predicate.compileAll [(s.kind.table.name, s.kind.liveSource)] ps = .ok ds)
    (hds' : Predicate.compileAll scope' ps' = .ok ds') :
    List.Forall₂ (s.Follows db) ds ds' ∧ RawFragment.Agree (Clause.allFragments ds') ∧
      ParamsFrom n (Clause.allFragments ds') := by
  induction cs generalizing n ps ps' ds ds' with
  | nil =>
    cases hps
    rw [predicates] at hps'
    cases hps'
    rw [Predicate.compileAll] at hds hds'
    cases hds
    cases hds'
    rw [Clause.allFragments]
    exact ⟨.nil, List.forall_mem_nil _, List.forall_mem_nil _⟩
  | cons c cs ih =>
    obtain ⟨hfield, hfields⟩ := List.forall_mem_cons.mp hfields
    obtain ⟨p, hp, hps⟩ := bind_eq_ok_iff.mp hps
    obtain ⟨ps, hrest, hps⟩ := bind_eq_ok_iff.mp hps
    cases hps
    rw [predicates] at hps'
    obtain ⟨p', hp', hps'⟩ := bind_eq_ok_iff.mp hps'
    obtain ⟨ps', hrest', hps'⟩ := bind_eq_ok_iff.mp hps'
    cases hps'
    obtain ⟨d, ds, hd, hrestds, rfl⟩ := Predicate.compileAll_cons hds
    obtain ⟨d', ds', hd', hrestds', rfl⟩ := Predicate.compileAll_cons hds'
    obtain ⟨hfollows, hagree, hparams⟩ := ih hfields hrest hrest' hrestds hrestds'
    have hlater : ParamsFrom n (Clause.allFragments ds') := fun r hr q hq => by
      obtain ⟨field, m, hm, heq⟩ := hparams r hr q hq
      exact ⟨field, m, by omega, heq⟩
    rw [Clause.allFragments]
    rcases predicate_cases hp with hcomparison | ⟨lacks, v, rfl⟩
    · obtain ⟨hfirst, hnone⟩ := follows_of_comparison hdb h hcomparison hp' hd hd'
      rw [hnone, List.nil_append]
      exact ⟨.cons hfirst hfollows, hagree, hlater⟩
    · cases hp'
      rw [Predicate.compile] at hd hd'
      obtain ⟨_, hr, rfl⟩ := map_eq_ok_iff.mp hd
      obtain ⟨_, hr', rfl⟩ := map_eq_ok_iff.mp hd'
      obtain rfl := checkFragment_eq_ok hr
      obtain rfl := checkFragment_eq_ok hr'
      rw [Clause.fragments]
      refine ⟨.cons (follows_of_pattern hdb hfield lacks v) hfollows, hagree.cons ?_,
        List.forall_mem_cons.mpr ⟨List.forall_mem_singleton.mpr ⟨c.field, n, le_rfl, rfl⟩, hlater⟩⟩
      -- The parameters behind this one have larger numbers.
      intro r hr q hq heq
      obtain ⟨field, m, hm, hname⟩ := hparams r hr q hq
      have hindex := index_of_patternParam (hname.symm.trans heq)
      omega

end Conditions

/-! ## The query of a filter as of an instant -/

/-- A query on the live table alone, in the journal. -/
structure OnJournal (s : Substitution) (ps : List Predicate) (b : Select) (scope : Scope) :
    Prop where
  base : b.base = s.kind.payloadSource
  joins : b.joins = [s.entryJoined, s.liveJoined 2]
  mirrors : Scope.Mirrors s.kind 2 [(s.kind.table.name, s.kind.liveSource)] scope
  conditions : ∃ ps', s.predicates 0 ps = .ok ps' ∧
    Predicate.compileAll scope ps' = .ok b.conditions

theorem onJournal_of_query {s : Substitution} (hi : s.instant.micros < Instant.bound)
    {ps : List Predicate} {ref : ColumnRef} {r : Query}
    (hr : s.query (((Query.ofTable s.kind.table.name).filterBy ps).selecting
      [.column ref none]) = .ok r) {b : Select} {scope : Scope} (hb : r.Compiled b scope) :
    s.OnJournal ps b scope := by
  obtain ⟨ps', hps', hr⟩ := bind_eq_ok_iff.mp hr
  obtain ⟨joins, hjoins, hr⟩ := bind_eq_ok_iff.mp hr
  cases hjoins
  cases hr
  have hbase : b.base = s.kind.payloadSource := hb.base_of_journal rfl
  have hjoins : Join.compileAll [(s.kind.journal.name, b.base)] 1 [s.entryJoin, s.liveJoin] =
      .ok (b.joins, scope) := hb.joins
  rw [hbase] at hjoins
  obtain ⟨j, inner, rest, hj, hrest, hjs⟩ := Join.compileAll_cons hjoins
  obtain ⟨rfl, rfl⟩ := compile_entryJoin hi hj
  obtain ⟨l, last, none', hl, hnone, rfl⟩ := Join.compileAll_cons hrest
  rw [Join.compileAll] at hnone
  cases hnone
  obtain ⟨rfl, rfl⟩ := compile_liveJoin rfl hl
  exact ⟨hbase, hjs, (Scopes.base s 2).mirrors.journables_cons, ps', hps', hb.conditions⟩

section Rows

variable {s : Substitution} {db : Database} {ds ds' : List Clause}

/-- Conditions that are followed can be read next to each other. -/
theorem follows_spec (h : List.Forall₂ (s.Follows db) ds ds') :
    ∀ d' ∈ ds', d'.isBlank = false ∧ ∀ r, d' = .raw r → r.IsListOf .and := by
  induction h with
  | nil => exact List.forall_mem_nil _
  | cons hd _ ih => exact List.forall_mem_cons.mpr ⟨⟨hd.written, hd.list⟩, ih⟩

theorem truths_follow (h : List.Forall₂ (s.Follows db) ds ds') {x : Held} (hx : x.Holds s db []) :
    (∀ d' ∈ ds', d'.truth db [x.asOf s] = some true) ↔
      ∀ d ∈ ds, d.truth db [x.onState s] = some true := by
  induction h with
  | nil => exact iff_of_true (List.forall_mem_nil _) (List.forall_mem_nil _)
  | cons hd _ ih => rw [List.forall_mem_cons, List.forall_mem_cons, hd.truth x hx, ih]

variable {b : Select} (h : List.Forall₂ (s.Follows db) ds b.conditions)

include h

/-- A row is kept if its state passes and its number is listed. -/
theorem keeps_listing_iff (c : SourceColumn) (vs : List Scalar) {x : Held} (hx : x.Holds s db []) :
    (b.listing c vs).keeps db [] (x.asOf s) = true ↔
      (∀ d ∈ ds, d.truth db [x.onState s] = some true) ∧
        (Clause.amongValues c vs false).truth db [x.asOf s] = some true := by
  have hall : ∀ d ∈ b.conditions ++ [.amongValues c vs false],
      d.isBlank = false ∧ ∀ r, d = .raw r → r.IsListOf .and :=
    List.forall_mem_append.mpr ⟨follows_spec h, List.forall_mem_singleton.mpr ⟨rfl, nofun⟩⟩
  have hshown : Clause.shown (b.conditions ++ [.amongValues c vs false]) =
      b.conditions ++ [.amongValues c vs false] :=
    List.filter_eq_self.mpr fun d hd => by rw [(hall d hd).1]; rfl
  have hlists : Clause.TextsAreLists .and (b.conditions ++ [.amongValues c vs false]) :=
    fun r hr _ => (hall _ hr).2 r rfl
  rw [Select.keeps, beq_iff_eq, Select.listing, Clause.joinedTruth_eq hlists, hshown,
    Truth.joinAll, Truth.all_eq_true_iff, List.forall_mem_map, List.forall_mem_append,
    List.forall_mem_singleton, truths_follow h hx]

omit h in
/-- The texts of the conditions keep their values. -/
theorem OnJournal.shared_eq {ps : List Predicate} {scope : Scope} (hb : s.OnJournal ps b scope)
    (horders : b.orders = []) (hagree : RawFragment.Agree (Clause.allFragments b.conditions)) :
    b.shared = b := by
  refine Select.shared_of_agree ?_
  have hfragments : b.fragments = Clause.allFragments b.conditions := by
    obtain ⟨columns, base, joins, conditions, orders, limit⟩ := b
    obtain rfl : orders = [] := horders
    obtain rfl : joins = [s.entryJoined, s.liveJoined 2] := hb.joins
    rw [Select.fragments, List.flatMap_nil, List.append_nil]
    rfl
  rwa [hfragments]

omit h

theorem column_number (s : Substitution) :
    Scope.column [(s.kind.table.name, s.kind.liveSource)] ⟨s.kind.table.name, "id"⟩ =
      .ok ⟨s.kind.liveSource, Schema.idColumn⟩ := by
  cases s.kind <;> rfl

variable (hdb : Journal.Regular db)

include hdb

/-- The number of an entity is read from its entry. -/
theorem cell_number (place : Nat) {x : Held} (hx : x.Holds s db []) :
    (s.kind.counterpart place ⟨s.kind.liveSource, Schema.idColumn⟩).cell [x.asOf s] =
      .int x.live.id := by
  have hapart : s.Apart [] := fun u hu => nomatch hu
  have hid := Schema.idColumn_mem s.kind.table_mem
  have hnumber := (hdb.sound.fits _ s.kind.table_mem x.live hx.live).number
  have hrenames : Env.Renames _ (s.kind.counterpart place) _ _ := hx.renames hdb hapart [] []
  rw [hrenames.cell _ ((Scopes.base s place).within.column s.column_number)]
  refine (SourceColumn.cell_of_find (hapart.find_live hx.joined rfl hid _ [])).trans ?_
  exact Journal.cell_id_stateRow s.kind hnumber _

/-- The rows on which a query in the journal is answered. -/
theorem mem_extend_iff {ps : List Predicate} {scope : Scope} (hb : s.OnJournal ps b scope)
    {r : List Relation} : r ∈ JoinedSource.extend db [] b.joins
      ((db.tableRows b.base.table).map fun row => [b.base.relation row]) ↔
        ∃ x : Held, x.Holds s db [] ∧ r = x.asOf s := by
  have hapart : s.Apart (([] : List JoinedSource).map JoinedSource.source) := fun u hu => nomatch hu
  rw [hb.joins, hb.base]
  refine (extend_asOf hdb hapart).mem_iff.trans ?_
  rw [List.mem_flatMap]
  constructor
  · rintro ⟨x, hx, hr⟩
    rw [Journal.mem_liveAt] at hx
    exact ⟨⟨x.1.1, x.1.2, x.2, []⟩, ⟨hx.1, hx.2, .nil⟩, List.mem_singleton.mp hr⟩
  · rintro ⟨x, hx, rfl⟩
    refine ⟨((x.payload, x.line), x.live), Journal.mem_liveAt.mpr ⟨hx.live, hx.found⟩, ?_⟩
    have hjoined : x.joined = [] := List.map_eq_nil_iff.mp hx.joined
    rw [Held.asOf, hjoined]
    exact List.mem_singleton_self _

include h

/-- The query of a filter answers with a number that is asked for if there is an entity of this
number whose state passes. -/
theorem isSome_rowOf_iff {ps : List Predicate} {scope : Scope} (hb : s.OnJournal ps b scope)
    {c : SourceColumn} (hc : scope.column (s.column ⟨s.kind.table.name, "id"⟩) = .ok c)
    (hnumbered : b.Numbered c) {ns : List (Option Int)} {rows : List Attributes}
    (hrows : (b.listing c (ns.map Scalar.ofNumber?)).answer db = .ok rows) {n : Option Int}
    (hn : n ∈ ns) : (EntityView.rowOf rows (.scalar (.ofNumber? n))).isSome = true ↔
      ∃ x : Held, x.Holds s db [] ∧ n = some x.live.id ∧
        ∀ d ∈ ds, d.truth db [x.onState s] = some true := by
  obtain ⟨hcheck, rfl⟩ := hnumbered.answer_listing hrows
  have hstorable := fun i hi => hnumbered.storable_of_checkAll (i := i) hcheck hi
  have hcell : ∀ x : Held, x.Holds s db [] → c.cell [x.asOf s] = .int x.live.id := fun x hx => by
    rw [hb.mirrors.column s.column_number hc]
    exact cell_number hdb 2 hx
  have hequal : ∀ x : Held, x.Holds s db [] → ((((b.row (x.asOf s)).lookup "id").any fun v =>
      (Value.scalar v).equals (.scalar (.ofNumber? n))) = true ↔ n = some x.live.id) := by
    intro x hx
    rw [hnumbered.lookup_id, hnumbered.type, hcell x hx, Option.any_some]
    cases n with
    | none => exact iff_of_false nofun nofun
    | some m =>
      change (x.live.id == m) = true ↔ _
      rw [beq_iff_eq, Option.some.injEq, eq_comm]
  have hlisted : ∀ x : Held, x.Holds s db [] → n = some x.live.id →
      (Clause.amongValues c (ns.map Scalar.ofNumber?) false).truth db [x.asOf s] = some true := by
    intro x hx hid
    have hlookup := (hequal x hx).mpr hid
    rw [hnumbered.lookup_id, Option.any_some] at hlookup
    rw [Clause.truth_listed hnumbered.type db [x.asOf s] hstorable hn hlookup, hcell x hx]
    rfl
  rw [EntityView.rowOf, List.find?_isSome]
  simp only [List.mem_reverse, List.mem_map, List.mem_filter, mem_extend_iff hdb hb]
  constructor
  · rintro ⟨_, ⟨_, ⟨⟨x, hx, rfl⟩, hkeeps⟩, rfl⟩, hid⟩
    exact ⟨x, hx, (hequal x hx).mp hid, ((keeps_listing_iff h _ _ hx).mp hkeeps).1⟩
  · rintro ⟨x, hx, hid, hall⟩
    exact ⟨_, ⟨_, ⟨⟨x, hx, rfl⟩, (keeps_listing_iff h _ _ hx).mpr ⟨hall, hlisted x hx hid⟩⟩, rfl⟩,
      (hequal x hx).mpr hid⟩

end Rows

end Substitution

/-! ## What a filter lets pass -/

namespace Filter

/-- The conditions as the store reads them on the live table. -/
def clauses (f : Filter) (clock : Instant) : Except Failure (List Clause) := do
  Predicate.compileAll [(f.kind.table.name, f.kind.liveSource)] (← f.predicates clock)

/-- All conditions are true of a row of the live table. -/
def Accepts (f : Filter) (db : Database) (clock : Instant) (r : Row) : Prop :=
  ∃ ds, f.clauses clock = .ok ds ∧
    ∀ d ∈ ds, d.truth db [[f.kind.liveSource.relation r]] = some true

variable {f : Filter} {db : Database} (hdb : Journal.Regular db) (hopen : db.opened = db)
  {clock : Instant} {ds : List Clause} (hds : f.clauses clock = .ok ds)

include hds

theorem accepts_iff (r : Row) : f.Accepts db clock r ↔
    ∀ d ∈ ds, d.truth db [[f.kind.liveSource.relation r]] = some true := by
  constructor
  · rintro ⟨ds', hds', hall⟩
    rwa [Except.ok.inj (hds.symm.trans hds')]
  · exact fun hall => ⟨ds, hds, hall⟩

omit hds in
/-- Where the conditions go with their columns, what they accept is what they hold for. -/
theorem accepts_iff_passes (hf : f.IsTyped) (clock : Instant) (h : Journal.Regular db) {live : Row}
    (hl : live ∈ db.tableRows f.kind.table) {i : Instant} {e : Entry}
    (he : Journal.entryAtIn db f.kind live.id i = some e) (hid : Cell.isStorable live.id = true) :
    f.Accepts db.opened clock (Journal.stateRow f.kind live e) ↔
      f.Passes (Journal.attributesIn live e) := by
  obtain ⟨ps, ds, hps, -, hds, hfrom, hto⟩ := exists_clauses hf clock
  rw [accepts_iff (bind_eq_ok_iff.mpr ⟨ps, hps, hds⟩), truths_iff_passes hfrom hto h hl he hid]

include hdb hopen

/-- Of the numbers asked for a filter lets those pass that have an entity of its kind whose state it
accepts. -/
theorem any_matching_iff {timestamp : Value} {t : Timestamp} {moment : Option Moment}
    (ht : timestamp.toTimestamp = .ok t) (hproper : t.IsProper) {ns : List (Option Int)}
    {matched : List Scalar}
    (h : (f.matching ((ns.map Scalar.ofNumber?).map .scalar) timestamp moment clock).answer db =
      .ok matched) {n : Option Int} (hn : n ∈ ns) :
    (matched.any fun j => (Value.scalar j).equals (.scalar (.ofNumber? n))) = true ↔
      ∃ i, t.resolveAt moment clock = .ok i ∧ ∃ live ∈ db.tableRows f.kind.table,
        n = some live.id ∧ ∃ e, Journal.entryAtIn db f.kind live.id i = some e ∧
          f.Accepts db clock (Journal.stateRow f.kind live e) := by
  obtain ⟨ps, r, rows, hps, hr, hrows, hany⟩ := EntityView.query_of_matching hopen h
  obtain ⟨t', i, q, b, c, scope, ht', hi, hq, hb, hc, hnumbered, hrows⟩ :=
    Query.exists_listing_of_answer (f.asksNumbers ps) hr hrows
  obtain rfl : t = t' := Except.ok.inj (ht.symm.trans ht')
  have hjournal := Substitution.onJournal_of_query (s := ⟨f.kind, t, i⟩)
    (EntityView.resolveAt_lt hproper hi) hq hb
  obtain ⟨ps', hps', hds'⟩ := hjournal.conditions
  obtain ⟨_, hps'', hlive⟩ := bind_eq_ok_iff.mp hds
  obtain rfl := Except.ok.inj (hps.symm.trans hps'')
  obtain ⟨hfollows, hagree, -⟩ := Substitution.follows_of_predicates (s := ⟨f.kind, t, i⟩) hdb
    hjournal.mirrors f.known hps hps' hlive hds'
  rw [hjournal.shared_eq hnumbered.orders hagree, hopen] at hrows
  rw [hany, Substitution.isSome_rowOf_iff hfollows hdb hjournal hc hnumbered hrows hn]
  simp only [hi, Except.ok.injEq, exists_eq_left', accepts_iff hds, hdb.entryAtIn_eq,
    Option.map_eq_some_iff]
  constructor
  · rintro ⟨⟨d, j, live, joined⟩, hx, hid, hall⟩
    obtain rfl : joined = [] := List.map_eq_nil_iff.mp hx.joined
    exact ⟨live, hx.live, hid, _, ⟨(d, j), hx.found, rfl⟩, hall⟩
  · rintro ⟨live, hl, hid, _, ⟨p, hp, rfl⟩, hall⟩
    exact ⟨⟨p.1, p.2, live, []⟩, ⟨hl, hp, .nil⟩, hid, hall⟩

end Filter

end Chronicle
