import Mathlib.Data.Multiset.MapFold
import Chronicle.Proofs.AsOf.Acceptance

/-!
# Answers as of an instant

A query as of an instant answers what the query itself answers if its base has the rows that the live
table had at the instant.  Rows are told apart by their cells only, so both answers are compared in
any order.

* `Select.answerOver`, `Query.runOver`: answers where the base of a query has given rows;
* `Query.answer_run`: with the rows of its table a query without text answers as ever;
* `Substitution.row`: a row of an answer as of the instant;
* `Query.run_asOf`: both answers are the same.
-/

namespace Chronicle

open Chronicle.Calendar

/-! ## Answers on given rows -/

/-- What a statement answers if its base has given rows. -/
def Select.answerOver (s : Select) (db : Database) (rows : List Row) :
    Except Failure (List (List (String × Scalar))) := do
  s.checkAll
  let names ← s.names
  let kept := s.matchingOn db [] rows
  if !kept.isEmpty && names.eraseDups.length != names.length then throw .ambiguousColumn
  return kept.map fun r => names.zip (s.columns.map fun c => c.scalar [r])

theorem Select.answer_eq (s : Select) (db : Database) :
    s.answer db = s.answerOver db (db.tableRows s.base.table) := by
  unfold Select.answer Select.answerOver
  rw [Select.matching_eq]

/-- Where there is an answer, all names mean something. -/
theorem Select.check_of_answerOver {s : Select} {db : Database} {rows : List Row}
    {answer : List (List (String × Scalar))} (h : s.answerOver db rows = .ok answer) :
    s.check [] = .ok () := by
  obtain ⟨u, h, -⟩ := bind_eq_ok_iff.mp h
  obtain ⟨text, -, h⟩ := bind_eq_ok_iff.mp h
  obtain ⟨bounds, -, h⟩ := bind_eq_ok_iff.mp h
  obtain ⟨v, -, h⟩ := bind_eq_ok_iff.mp h
  obtain ⟨w, h, -⟩ := bind_eq_ok_iff.mp h
  exact h

/-- The answer to a query whose base has given rows; its joins and its subqueries read the store. -/
def Query.runOver (q : Query) (rows : Database → List Row) :
    Action (List (List (String × Scalar))) := do
  let s ← liftM q.compile
  Action.openCore
  Action.read fun db => s.answerOver db (rows db)

theorem Query.answer_runOver {q : Query} {s : Select} (h : q.compile = .ok s)
    (rows : Database → List Row) (db : Database) :
    (q.runOver rows).answer db = s.answerOver db.opened (rows db.opened) := by
  rw [Action.answer, Query.runOver, Action.run_bind, Action.run_lift, h]
  dsimp only
  rw [Action.run_bind, Action.run_openCore]
  dsimp only
  rw [Action.run_read]

/-- A query is answered by its statement, whose texts have the values that count. -/
theorem Query.answer_run_shared {q : Query} {s : Select} (h : q.compile = .ok s) (db : Database) :
    q.run.answer db = s.shared.answer db.opened := by
  rw [Action.answer, Query.run, Action.run_bind, Action.run_lift, h]
  dsimp only
  rw [Action.run_bind, Action.run_openCore]
  dsimp only
  rw [Action.run_read]

/-- With the rows of its table a query without text answers as ever. -/
theorem Query.answer_run {q : Query} {t : Table} (ht : findTable q.table = .ok t) {s : Select}
    (h : q.compile = .ok s) (hs : s.fragments = []) (db : Database) :
    q.run.answer db = s.answerOver db.opened (db.opened.tableRows t) := by
  obtain ⟨scope, hc⟩ := Query.compiled_of_compile h
  obtain rfl : s.base.table = t := Except.ok.inj (hc.table.symm.trans ht)
  rw [Query.answer_run_shared h, Select.shared_of_fragments hs, Select.answer_eq]

/-! ## Rows of answers -/

theorem eraseDups_of_nodup {α : Type} [BEq α] [LawfulBEq α] {xs : List α} (h : xs.Nodup) :
    xs.eraseDups = xs := by
  induction xs with
  | nil => rfl
  | cons x xs ih =>
    obtain ⟨hx, hxs⟩ := List.nodup_cons.mp h
    have hall : xs.filter (fun y => !y == x) = xs := by
      rw [List.filter_eq_self]
      intro y hy
      rw [beq_eq_false_iff_ne.mpr fun e : y = x => hx (e ▸ hy)]
      rfl
    rw [List.eraseDups_cons, hall, ih hxs]

theorem nodup_eraseDups {α : Type} [BEq α] [LawfulBEq α] : ∀ xs : List α, xs.eraseDups.Nodup
  | [] => List.nodup_nil
  | x :: xs => by
    rw [List.eraseDups_cons, List.nodup_cons]
    refine ⟨fun hx => ?_, nodup_eraseDups _⟩
    rw [List.mem_eraseDups, List.mem_filter] at hx
    simp at hx
termination_by xs => xs.length
decreasing_by exact Nat.lt_succ_of_le (List.length_filter_le _ _)

theorem eq_singleton_of_nodup {α : Type} {xs : List α} {a : α} (h : xs.Nodup)
    (hmem : ∀ x, x ∈ xs ↔ x = a) : xs = [a] := by
  refine List.perm_singleton.mp ((List.perm_ext_iff_of_nodup h (List.nodup_singleton a)).mpr ?_)
  exact fun x => (hmem x).trans List.mem_singleton.symm

/-- If nothing is lost where repeats are taken away, there are none. -/
theorem nodup_of_length_eraseDups {α : Type} [BEq α] [LawfulBEq α] {xs : List α}
    (h : xs.eraseDups.length = xs.length) : xs.Nodup := by
  have hsub : xs.eraseDups.Subperm xs :=
    (nodup_eraseDups xs).subperm fun x hx => List.mem_eraseDups.mp hx
  exact (hsub.perm_of_length_le h.ge).nodup_iff.mp (nodup_eraseDups xs)

/-- A row of an answer: the cells of its columns under their names. -/
def Select.row (s : Select) (r : List Relation) : List (String × Scalar) :=
  s.columns.map fun c => (c.name, c.scalar [r])

/-- What a statement with different names answers. -/
theorem Select.answerOver_eq {s : Select} (h : (s.columns.map OutputColumn.name).Nodup)
    (db : Database) (rows : List Row) : s.answerOver db rows =
      s.checkAll.map fun _ => (s.matchingOn db [] rows).map s.row := by
  have hplain : (s.columns.map OutputColumn.plainName?).Nodup := by
    refine List.Nodup.of_map (fun name => name.getD "anon_1") ?_
    rw [List.map_map]
    exact h
  have hzip : ∀ r : List Relation, (s.columns.map (·.name)).zip
      (s.columns.map fun c => c.scalar [r]) = s.row r := fun _ => List.zip_map'
  unfold Select.answerOver
  rw [Select.names_eq hplain]
  cases s.checkAll with
  | error f => rfl
  | ok u =>
    change (do
      if !(s.matchingOn db [] rows).isEmpty && ((s.columns.map (·.name)).eraseDups.length !=
        (s.columns.map (·.name)).length) then throw Failure.ambiguousColumn
      return (s.matchingOn db [] rows).map fun r => (s.columns.map (·.name)).zip
        (s.columns.map fun c => c.scalar [r]) : Except Failure _) = _
    rw [eraseDups_of_nodup h, bne_self_eq_false, Bool.and_false]
    simp only [hzip]
    rfl

namespace OutputColumn

/-- Saying the name of a column changes neither the name nor the cells. -/
theorem name_named (c : OutputColumn) : c.named.name = c.name := by
  cases c with
  | column x label => cases label <;> rfl
  | constant v label => rfl

theorem scalar_named (env : Env) (c : OutputColumn) : c.named.scalar env = c.scalar env := by
  cases c <;> rfl

theorem name_renamed (f : SourceColumn → SourceColumn) (c : OutputColumn) :
    (c.renamed f).name = c.name := by
  cases c with
  | column x label => cases label <;> rfl
  | constant v label => rfl

theorem scalar_renamed {p : SourceColumn → Prop} {f : SourceColumn → SourceColumn} {env env' : Env}
    (h : Env.Renames p f env env') {c : OutputColumn} (hc : c.Resolved p) :
    (c.renamed f).scalar env' = c.scalar env := by
  cases c with
  | column x label => rw [renamed, scalar, scalar, h.cell x hc, h.type x hc]
  | constant v label =>
    cases v with
    | float x => cases x <;> rfl
    | _ => rfl

end OutputColumn

namespace Substitution

/-- A row of an answer as of the instant: without projections it begins with the key of the
timestamp, and a single number of the entity is called just so. -/
def row (s : Substitution) (ps : List Projection) (cells : List (String × Scalar)) :
    List (String × Scalar) :=
  match ps with
  | [] => ("timestamp", .text s.timestamp.key) :: cells
  | [p] => if s.isIdColumn p then cells.map fun cell => ("id", cell.2) else cells
  | _ => cells

section Row

variable {s : Substitution} {q : Query} {a a' : Select}

/-- Names that are different in the answer are different as of the instant. -/
theorem Mirrors.nodup_names (hm : s.Mirrors q a a')
    (h : (a.columns.map OutputColumn.name).Nodup) :
    (a'.columns.map OutputColumn.name).Nodup := by
  have hperm : (a'.columns.map OutputColumn.name).Perm
      ((s.columns (q.joins.length + 2) q.projections a.columns).map OutputColumn.name) := by
    have hnamed := hm.columns.perm.map OutputColumn.name
    rw [List.map_map, List.map_congr_left fun c _ => c.name_named] at hnamed
    exact hnamed
  have hrenamed : (a.columns.map (OutputColumn.renamed
      (s.kind.counterpart (q.joins.length + 2)))).map OutputColumn.name =
        a.columns.map OutputColumn.name := by
    rw [List.map_map]
    exact List.map_congr_left fun c _ => c.name_renamed _
  rw [hperm.nodup_iff]
  rcases hps : q.projections with - | ⟨p, - | ⟨p', ps⟩⟩
  · have hnone : ∀ k ∈ Kind.all, "timestamp" ∉ k.table.columns.map (·.name) := by decide
    rw [Substitution.columns, List.map_cons, hrenamed]
    refine List.nodup_cons.mpr ⟨?_, h⟩
    rw [hm.whole hps, Source.columns, List.map_map, List.map_map]
    exact hnone s.kind s.kind.mem_all
  · rw [Substitution.columns]
    split
    · next hid =>
      obtain ⟨x, label, hx⟩ := hm.single p hps hid
      rw [hx]
      exact List.nodup_singleton _
    · rw [hrenamed]
      exact h
  · exact (congrArg List.Nodup hrenamed).mpr h

/-- A row of the answer as of the instant has the cells of the row on the state. -/
theorem Mirrors.row_perm (hm : s.Mirrors q a a') {rs rs' : List Relation}
    (h : Env.Renames (SourceColumn.InView (s.kind.liveSource :: a.joins.map JoinedSource.source))
      (s.kind.counterpart (q.joins.length + 2)) [rs] [rs']) :
    (a'.row rs').Perm (s.row q.projections (a.row rs)) := by
  have hperm : (a'.row rs').Perm ((s.columns (q.joins.length + 2) q.projections a.columns).map
      fun c => (c.name, c.scalar [rs'])) := by
    have hnamed := hm.columns.perm.map fun c => (c.name, c.scalar [rs'])
    rw [List.map_map] at hnamed
    refine (List.Perm.of_eq (List.map_congr_left fun c _ => ?_)).trans hnamed
    rw [Function.comp, c.name_named, c.scalar_named]
  have hrenamed : ((a.columns.map (OutputColumn.renamed
      (s.kind.counterpart (q.joins.length + 2)))).map fun c => (c.name, c.scalar [rs'])) =
        a.row rs := by
    rw [List.map_map]
    refine List.map_congr_left fun c hc => ?_
    rw [Function.comp, c.name_renamed, OutputColumn.scalar_renamed h (hm.shown c hc)]
  refine hperm.trans (.of_eq ?_)
  rcases hps : q.projections with - | ⟨p, - | ⟨p', ps⟩⟩
  · rw [Substitution.columns, List.map_cons, hrenamed]
    rfl
  · rw [Substitution.columns, row]
    split
    · next hid =>
      obtain ⟨x, label, hx⟩ := hm.single p hps hid
      have hscalar := OutputColumn.scalar_renamed h (hm.shown (.column x label)
        (hx ▸ List.mem_cons_self))
      rw [Select.row, hx]
      exact congrArg (fun v => [("id", v)]) hscalar
    · exact hrenamed
  · exact hrenamed

end Row

end Substitution

/-! ## The same answers -/

/-- An answer as a bag of rows, each of them a bag of cells. -/
def bag (rows : List (List (String × Scalar))) : Multiset (Multiset (String × Scalar)) :=
  Multiset.ofList (rows.map Multiset.ofList)

theorem bag_eq {rows rows' : List (List (String × Scalar))} (h : rows.Perm rows') :
    bag rows = bag rows' := Multiset.coe_eq_coe.mpr (h.map _)

theorem bag_map_congr {α : Type} {xs : List α} {f g : α → List (String × Scalar)}
    (h : ∀ x ∈ xs, (f x).Perm (g x)) : bag (xs.map f) = bag (xs.map g) := by
  rw [bag, bag, List.map_map, List.map_map]
  exact congrArg _ (List.map_congr_left fun x hx => Multiset.coe_eq_coe.mpr (h x hx))

theorem Select.matchingOn_perm {s : Select} (h : s.limit = none) (db : Database) (outer : Env)
    (rows : List Row) : (s.matchingOn db outer rows).Perm (s.keptOn db outer rows) := by
  rw [Select.matchingOn, h]
  exact sortRows_perm _ _ _

/-- What is answered as of the instant is what is answered on the state. -/
theorem Substitution.Mirrors.answerOver_bag {s : Substitution} {q : Query} {a a' : Select}
    (hm : s.Mirrors q a a') {db : Database} (h : Journal.Regular db)
    (ha : s.Apart (a.joins.map JoinedSource.source))
    (hn : (a.columns.map OutputColumn.name).Nodup) :
    (a'.answerOver db (db.tableRows s.kind.journal)).map bag =
      (a.answerOver db (Journal.stateAt db s.kind s.instant)).map fun rows =>
        bag (rows.map (s.row q.projections)) := by
  obtain ⟨xs, hstate, hasOf, hholds⟩ := hm.exists_held h ha
  have hrows : bag ((a'.matchingOn db [] (db.tableRows s.kind.journal)).map a'.row) =
      bag (((a.matchingOn db [] (Journal.stateAt db s.kind s.instant)).map a.row).map
        (s.row q.projections)) := by
    calc bag ((a'.matchingOn db [] (db.tableRows s.kind.journal)).map a'.row)
        = bag ((xs.map (Held.asOf s)).map a'.row) :=
          bag_eq (((Select.matchingOn_perm hm.limit' db [] _).trans hasOf).map _)
      _ = bag (((xs.map (Held.onState s)).map a.row).map (s.row q.projections)) := by
          rw [List.map_map, List.map_map, List.map_map]
          exact bag_map_congr fun x hx =>
            hm.row_perm ((hholds x hx).renames h ha [] [])
      _ = bag (((a.matchingOn db [] (Journal.stateAt db s.kind s.instant)).map a.row).map
            (s.row q.projections)) := by
          rw [← hstate]
          exact bag_eq ((((Select.matchingOn_perm hm.limit db [] _).symm).map _).map _)
  rw [Select.answerOver_eq (hm.nodup_names hn), Select.answerOver_eq hn, hm.checkAll ha]
  cases a.checkAll with
  | error f => rfl
  | ok u => exact congrArg Except.ok hrows

/-- A query is read as of a timestamp where its table is that of a kind. -/
theorem Query.substitution_of_asOf {q q' : Query} {timestamp : Value} {moment : Option Moment}
    {clock : Instant} (h : q.asOfTimestamp timestamp moment clock = .ok q') :
    ∃ kind t i, Kind.ofTable? q.table = some kind ∧ timestamp.toTimestamp = .ok t ∧
      t.resolveAt moment clock = .ok i ∧ (⟨kind, t, i⟩ : Substitution).query q = .ok q' := by
  unfold Query.asOfTimestamp at h
  cases hasOf : q.asOf with
  | some key =>
    rw [hasOf] at h
    cases h
  | none =>
    rw [hasOf] at h
    cases hkind : Kind.ofTable? q.table with
    | none =>
      rw [hkind] at h
      cases h
    | some kind =>
      rw [hkind] at h
      obtain ⟨t, ht, h⟩ := bind_eq_ok_iff.mp h
      obtain ⟨s, hs, h⟩ := bind_eq_ok_iff.mp h
      obtain ⟨i, hi, rfl⟩ := map_eq_ok_iff.mp hs
      exact ⟨kind, t, i, rfl, ht, hi, h⟩

/-- A query as of a timestamp answers the same bag of rows as the query itself does on the state at
that time: its base has a row for each live row whose entity had an entry then, with the attributes
of this entry. -/
theorem Query.run_asOf {db : Database} (hdb : db.Reached) {kind : Kind} {q q' : Query}
    {timestamp : Value} {t : Timestamp} {moment : Option Moment} {clock i : Instant} {a a' : Select}
    (ht : timestamp.toTimestamp = .ok t) (hi : t.resolveAt moment clock = .ok i)
    (hbound : i.micros < Instant.bound) (hq : q.table = kind.table.name) (hp : q.isPlain = true)
    (hl : q.limit = .all)
    (hn : ∀ j ∈ q.joins, ∀ name ∈ kind.table.name :: kind.takenNames,
      Env.sameName j.relation name = false)
    (has : q.asOfTimestamp timestamp moment clock = .ok q') (hc : q.compile = .ok a)
    (hc' : q'.compile = .ok a') (hnames : (a.columns.map OutputColumn.name).Nodup) :
    (q'.run.answer db).map bag =
      ((q.runOver fun db => Journal.stateAt db kind i).answer db).map fun rows =>
        bag (rows.map ((⟨kind, t, i⟩ : Substitution).row q.projections)) := by
  obtain ⟨kind', t', i', hkind, ht', hi', hs⟩ := Query.substitution_of_asOf has
  obtain rfl : kind = kind' := by
    rw [hq, Kind.ofTable?_table] at hkind
    exact Option.some.inj hkind
  obtain rfl : t = t' := Except.ok.inj (ht.symm.trans ht')
  obtain rfl : i = i' := Except.ok.inj (hi.symm.trans hi')
  have hjoins : ∀ j ∈ q.joins, j.relation ≠ kind.table.name ∧ j.relation ∉ kind.takenNames := by
    intro j hj
    have hne : ∀ name ∈ kind.table.name :: kind.takenNames, j.relation ≠ name := by
      rintro name hname rfl
      cases (Env.sameName_self _).symm.trans (hn j hj _ hname)
    exact ⟨hne _ List.mem_cons_self, fun hmem => hne _ (List.mem_cons_of_mem _ hmem) rfl⟩
  have hm : (⟨kind, t, i⟩ : Substitution).Mirrors q a a' :=
    Substitution.compile_query hbound hq hp (by rw [hl]; rfl) hjoins hs hc hc'
  have hapart : (⟨kind, t, i⟩ : Substitution).Apart (a.joins.map JoinedSource.source) := by
    intro u hu
    obtain ⟨k, hk, rfl⟩ := List.mem_map.mp hu
    have hmem : k.source.name ∈ q.joins.map Join.relation :=
      hm.names ▸ List.mem_map_of_mem (f := fun k : JoinedSource => k.source.name) hk
    obtain ⟨j, hj, e⟩ := List.mem_map.mp hmem
    exact e ▸ hn j hj
  have htable : findTable q'.table = .ok kind.journal := by
    obtain ⟨conditions, -, hs⟩ := bind_eq_ok_iff.mp hs
    obtain ⟨joins, -, hs⟩ := bind_eq_ok_iff.mp hs
    cases hs
    exact kind.findTable_journal
  rw [Query.answer_run htable hc' hm.fragments', Query.answer_runOver hc]
  exact hm.answerOver_bag (hdb.regular.change (.opened db)) hapart hnames

/-- A work package of a project, both with entries from noon on. -/
def staffed : Database := .after [
  .create .project true (some (Journal.noon 0))
    [("name", .text "Plan"), ("identifier", .text "plan")] Journal.firstDay,
  .create .workPackage true (some (Journal.noon 0))
    [("subject", .text "Draft"), ("project_id", .int 1)] Journal.firstDay]

/-- The numbers of the projects of work packages, the projects joined under a given name. -/
def projectsOf (name : String) : Query where
  table := "work_packages"
  joins := [.table "projects" (some name)
    [.equality ⟨name, "id"⟩ (.column ⟨"work_packages", "project_id"⟩)] false]
  conditions := []
  projections := [.column ⟨name, "id"⟩ none]
  orders := []
  limit := .all
  asOf := none
  readonly := false

/-- Noon of that day. -/
def noonInUtc : Instant := ⟨63850161600000000⟩

/-- The one work package is the first. -/
theorem ids_staffed : (staffed.tableRows Kind.workPackage.table).map Row.id = [1] := by
  decide +kernel

theorem Query.run_asOf_noon : ∃ q', (projectsOf "owners").asOfTimestamp
      (.timestamp (.absolute noonInUtc)) none Journal.firstDay.instant = .ok q' ∧
    (q'.run.answer staffed).map bag = .ok (bag [[("id", .int 1)]]) := by
  have hreached : staffed.Reached := ⟨_, rfl⟩
  have htable : (projectsOf "owners").table = Kind.workPackage.table.name := rfl
  obtain ⟨q', a, a', has, hc, hc', hnames⟩ : ∃ q' a a', (projectsOf "owners").asOfTimestamp
      (.timestamp (.absolute noonInUtc)) none Journal.firstDay.instant = .ok q' ∧
        (projectsOf "owners").compile = .ok a ∧ q'.compile = .ok a' ∧
          a.columns.map OutputColumn.name = ["id"] := ⟨_, _, _, rfl, rfl, rfl, rfl⟩
  have hstate : (((projectsOf "owners").runOver fun db =>
      Journal.stateAt db .workPackage noonInUtc).answer staffed).toOption =
        some [[("id", .int 1)]] := by decide +kernel
  have hsame := Query.run_asOf hreached rfl rfl (by decide) htable (by decide) rfl
    (by decide +kernel) has hc hc' (by rw [hnames]; decide)
  refine ⟨q', has, hsame.trans ?_⟩
  rcases hrun : ((projectsOf "owners").runOver fun db =>
    Journal.stateAt db .workPackage noonInUtc).answer staffed with f | rows
  · rw [hrun] at hstate
    cases hstate
  · rw [hrun] at hstate
    cases hstate
    rfl

/-- Names that differ in the case of letters only are the same for the store: where a join has such
a name, the query answers and the query as of the instant does not. -/
theorem Query.run_asOf_ne_of_case : ∃ q' a a',
    staffed.Reached ∧ (projectsOf "Journals").table = Kind.workPackage.table.name ∧
    (projectsOf "Journals").isPlain = true ∧ (projectsOf "Journals").limit = .all ∧
    ((projectsOf "Journals").table :: (projectsOf "Journals").joins.map Join.relation).Nodup ∧
    (∀ name ∈ (projectsOf "Journals").table :: (projectsOf "Journals").joins.map Join.relation,
      name ∉ Kind.workPackage.takenNames) ∧
    (projectsOf "Journals").asOfTimestamp (.timestamp (.absolute noonInUtc)) none
      Journal.firstDay.instant = .ok q' ∧
    (projectsOf "Journals").compile = .ok a ∧ q'.compile = .ok a' ∧
    (a.columns.map OutputColumn.name).Nodup ∧
    (q'.run.answer staffed).map bag ≠
      (((projectsOf "Journals").runOver fun db =>
        Journal.stateAt db .workPackage noonInUtc).answer staffed).map fun rows =>
          bag (rows.map ((⟨.workPackage, .absolute noonInUtc, noonInUtc⟩ : Substitution).row
            (projectsOf "Journals").projections)) := by
  obtain ⟨q', a, a', has, hc, hc', hnames, hcolumns, hsources, htexts⟩ : ∃ q' a a',
      (projectsOf "Journals").asOfTimestamp (.timestamp (.absolute noonInUtc)) none
        Journal.firstDay.instant = .ok q' ∧
      (projectsOf "Journals").compile = .ok a ∧ q'.compile = .ok a' ∧
      a.columns.map OutputColumn.name = ["id"] ∧
      a'.columns = [.column ⟨⟨Schema.projects, some "Journals", 2⟩, Schema.idColumn⟩ (some "id")] ∧
      a'.sources = [Kind.workPackage.payloadSource, .lines, ⟨Schema.projects, some "Journals", 2⟩,
        Kind.workPackage.journables 3] ∧
      a'.fragments = [] := ⟨_, _, _, rfl, rfl, rfl, rfl, rfl, rfl, rfl⟩
  have hambiguous : Env.find [emptyRelations a'.sources] (some "Journals") "id" = .ambiguous := by
    rw [hsources]
    exact Env.find_of_alike (Source.lines.relation [])
      ((⟨Schema.projects, some "Journals", 2⟩ : Source).relation [])
      (.cons _ (.cons_cons _ (.cons_cons _ (List.nil_sublist _))))
      (Env.sameName_iff.mpr (by decide)) (Env.sameName_self _)
      (show Schema.idColumn ∈ _ by decide) (by decide) []
  have hcheck : ¬a'.check [] = .ok () := by
    rw [Select.check_eq, hcolumns, List.all_cons, OutputColumn.isKnown, SourceColumn.isKnown]
    rw [show Env.find [emptyRelations a'.sources]
      (some (⟨Schema.projects, some "Journals", 2⟩ : Source).name) Schema.idColumn.name =
        .ambiguous from hambiguous]
    intro h
    cases h
  have hanswers : (((projectsOf "Journals").runOver fun db =>
      Journal.stateAt db .workPackage noonInUtc).answer staffed).toOption.isSome = true := by
    decide +kernel
  refine ⟨q', a, a', ⟨_, rfl⟩, rfl, by decide, rfl, by decide, by decide, has, hc, hc',
    by rw [hnames]; decide, fun hsame => ?_⟩
  have hanswers' : ((q'.run.answer staffed).map bag).toOption.isSome = true := by
    rw [hsame]
    cases hrun : ((projectsOf "Journals").runOver fun db =>
        Journal.stateAt db .workPackage noonInUtc).answer staffed with
    | error f =>
      rw [hrun] at hanswers
      cases hanswers
    | ok rows => rfl
  obtain ⟨scope, hcompiled⟩ := Query.compiled_of_compile hc'
  rw [Query.answer_run hcompiled.table hc' htexts] at hanswers'
  cases hrun : a'.answerOver staffed.opened (staffed.opened.tableRows a'.base.table) with
  | error f =>
    rw [hrun] at hanswers'
    cases hanswers'
  | ok rows => exact hcheck (Select.check_of_answerOver hrun)

end Chronicle
