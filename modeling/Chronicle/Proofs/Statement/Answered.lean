import Chronicle.Proofs.AsOf.Answer
import Chronicle.Proofs.Store.Rows

/-!
# Rows of answers

Whatever a sound store is asked, the rows of its answer name each column once, and their values
equal themselves: statements read tables of the schema only, and no column of these takes the number
that is none.

* `Definite`: attributes of this kind;
* `Relation.Held`: a relation with a row of its table, or with none;
* `Select.held_matching`: a statement keeps rows of such relations;
* `Query.definite_of_answer`: the rows of an answer.
-/

namespace Chronicle

/-- Attributes of different names whose values equal themselves. -/
structure Definite (r : List (String × Scalar)) : Prop where
  distinct : (r.map Prod.fst).Nodup
  equal : ∀ f ∈ r, f.2.equals f.2 = true

/-! ## Relations with rows of their tables -/

/-- A relation of the schema with a row of its table, or without a row, as an outer join adds it. -/
def Relation.Held (db : Database) (u : Relation) : Prop :=
  u.table ∈ Schema.tables ∧ (u.row = [] ∨ u.row ∈ db.tableRows u.table)

namespace JoinedSource

variable {db : Database} {outer : Env}

theorem held_of_mem_added {source : Source} (hs : source.table ∈ Schema.tables) {on : Clause}
    {keepsAll : Bool} {r : List Relation} {u : Relation}
    (hu : u ∈ added db outer source on keepsAll r) : u.Held db := by
  unfold added at hu
  dsimp only at hu
  split at hu
  · cases List.mem_singleton.mp hu
    exact ⟨hs, .inl rfl⟩
  · obtain ⟨row, hrow, rfl⟩ := List.mem_map.mp (List.mem_filter.mp hu).1
    exact ⟨hs, .inr hrow⟩

theorem held_extend {js : List JoinedSource} (hjs : ∀ j ∈ js, j.source.table ∈ Schema.tables)
    {rs : List (List Relation)} (hrs : ∀ r ∈ rs, ∀ u ∈ r, u.Held db) :
    ∀ r ∈ extend db outer js rs, ∀ u ∈ r, u.Held db := by
  induction js generalizing rs with
  | nil => exact hrs
  | cons j js ih =>
    obtain ⟨source, on, keepsAll⟩ := j
    obtain ⟨hj, hjs⟩ := List.forall_mem_cons.mp hjs
    rw [extend_cons]
    apply ih hjs
    intro r hr
    obtain ⟨before, hbefore, hr⟩ := List.mem_flatMap.mp hr
    obtain ⟨u, hu, rfl⟩ := List.mem_map.mp hr
    rw [List.forall_mem_append, List.forall_mem_singleton]
    exact ⟨hrs before hbefore, held_of_mem_added hj hu⟩

end JoinedSource

/-- A statement on tables of the schema keeps rows of these tables. -/
theorem Select.held_matching {s : Select} (hs : ∀ x ∈ s.sources, x.table ∈ Schema.tables)
    {db : Database} {outer : Env} : ∀ r ∈ s.matching db outer, ∀ u ∈ r, u.Held db := by
  obtain ⟨hbase, hjoins⟩ := List.forall_mem_cons.mp hs
  rw [Select.matching_eq]
  intro r hr
  have hkept := (sortRows_perm _ _ _).mem_iff.mp (mem_of_mem_limitRows hr)
  refine JoinedSource.held_extend (fun j hj => hjoins _ (List.mem_map_of_mem hj)) ?_ r
    (List.mem_filter.mp hkept).1
  rw [List.forall_mem_map]
  intro row hrow
  exact List.forall_mem_singleton.mpr ⟨hbase, .inr hrow⟩

/-! ## Tables of compiled queries -/

theorem Join.tables_compileAll {as : List Join} {scope last : Scope} {place : Nat}
    {js : List JoinedSource} (h : Join.compileAll scope place as = .ok (js, last)) :
    ∀ j ∈ js, j.source.table ∈ Schema.tables := by
  induction as generalizing scope place js with
  | nil =>
    rw [Join.compileAll] at h
    cases h
    exact List.forall_mem_nil _
  | cons a as ih =>
    obtain ⟨j, inner, ks, hj, hks, rfl⟩ := Join.compileAll_cons h
    refine List.forall_mem_cons.mpr ⟨?_, ih hks⟩
    cases a with
    | table name given on outer =>
      obtain ⟨table, cs, htable, -, -, rfl⟩ := Join.compile_table hj
      exact (findTable_eq_ok htable).1
    | asOf entityType dataTable timestamp =>
      rw [Join.compile] at hj
      split at hj
      · cases hj
      · obtain ⟨i, -, hj⟩ := bind_eq_ok_iff.mp hj
        cases hj
        exact Schema.journals_mem

/-- A query reads tables of the schema. -/
theorem Query.tables_compile {q : Query} {s : Select} (h : q.compile = .ok s) :
    ∀ x ∈ s.sources, x.table ∈ Schema.tables := by
  obtain ⟨scope, hcompiled⟩ := Query.compiled_of_compile h
  exact List.forall_mem_cons.mpr ⟨(findTable_eq_ok hcompiled.table).1,
    List.forall_mem_map.mpr (Join.tables_compileAll hcompiled.joins)⟩

theorem JoinedSource.sources_allWithValues (values : List (String × Value))
    (js : List JoinedSource) :
    (JoinedSource.allWithValues values js).map JoinedSource.source =
      js.map JoinedSource.source := by
  induction js with
  | nil => rw [JoinedSource.allWithValues]
  | cons j js ih =>
    obtain ⟨source, on, keepsAll⟩ := j
    rw [JoinedSource.allWithValues, List.map_cons, List.map_cons, ih]
    rfl

theorem Select.sources_withValues (values : List (String × Value)) (s : Select) :
    (s.withValues values).sources = s.sources := by
  obtain ⟨columns, base, joins, conditions, orders, limit⟩ := s
  rw [Select.withValues, Select.sources, Select.sources, JoinedSource.sources_allWithValues]

/-! ## Values of columns -/

/-- What is found in a row is a cell of one of its relations. -/
theorem Env.exists_of_found {r : List Relation} {relation : Option String} {name : String}
    {c : Column} {x : Cell} (h : find [r] relation name = .found c x) :
    ∃ u ∈ r, c ∈ u.table.columns ∧ x = u.row.cell c.name := by
  unfold find at h
  split at h
  · cases h
  · next c' x' hcandidates =>
    cases h
    have hmem : (c, x) ∈ candidates r relation name := hcandidates ▸ List.mem_singleton_self _
    obtain ⟨u, hu, hmem⟩ := List.mem_flatMap.mp hmem
    split at hmem
    · obtain ⟨d, hd, he⟩ := List.mem_map.mp hmem
      cases he
      exact ⟨u, hu, (List.mem_filter.mp hd).1, rfl⟩
    · cases hmem
  · cases h

section Values

variable {db : Database} (hdb : db.Sound)

include hdb

theorem Relation.Held.cell_ne_nan {u : Relation} (hu : u.Held db) {c : Column}
    (hc : c ∈ u.table.columns) : u.row.cell c.name ≠ .real .nan := by
  obtain ⟨htable, hempty | hrow⟩ := hu
  · rw [hempty]
    exact nofun
  · have hfits := hdb.fits _ htable _ hrow
    by_cases hid : c.name = "id"
    · rw [hid, hfits.number]
      exact nofun
    · exact (hfits.takes c hc hid).ne_nan

variable {r : List Relation} (hr : ∀ u ∈ r, u.Held db)

include hr

theorem SourceColumn.cell_ne_nan (c : SourceColumn) : c.cell [r] ≠ .real .nan := by
  unfold SourceColumn.cell
  split
  · next d x hfind =>
    obtain ⟨u, hu, hd, rfl⟩ := Env.exists_of_found hfind
    exact (hr u hu).cell_ne_nan hdb hd
  · exact nofun

/-- The value in a column of an answer equals itself. -/
theorem OutputColumn.equals_self_scalar (c : OutputColumn) :
    (c.scalar [r]).equals (c.scalar [r]) = true := by
  refine Scalar.equals_self ?_
  cases c with
  | column c label => exact Cell.toScalar_ne_nan (SourceColumn.cell_ne_nan hdb hr c) _
  | constant v label =>
    unfold OutputColumn.scalar
    split
    · next h => cases h
    · exact nofun
    · exact nofun
    · next hnan h =>
      cases h
      rintro rfl
      exact hnan rfl

end Values

/-! ## Answers -/

/-- The rows that a statement on tables of the schema answers. -/
theorem Select.definite_of_answer {s : Select} (hs : ∀ x ∈ s.sources, x.table ∈ Schema.tables)
    {db : Database} (hdb : db.Sound) {rows : List (List (String × Scalar))}
    (h : s.answer db = .ok rows) : ∀ r ∈ rows, Definite r := by
  obtain ⟨u, -, h⟩ := bind_eq_ok_iff.mp h
  obtain ⟨names, -, h⟩ := bind_eq_ok_iff.mp h
  dsimp only at h
  split at h
  · cases h
  · next hdistinct =>
    cases h
    rw [List.forall_mem_map]
    intro r hr
    have hlength : names.eraseDups.length = names.length := by
      have hany : (s.matching db []).isEmpty = false :=
        List.isEmpty_eq_false_iff_exists_mem.mpr ⟨r, hr⟩
      simpa [hany] using hdistinct
    constructor
    · rw [List.zip_eq_zip_take_min, List.map_fst_zip (by simp)]
      exact (nodup_of_length_eraseDups hlength).sublist (List.take_sublist _ _)
    · rintro ⟨n, x⟩ hmem
      obtain ⟨c, -, rfl⟩ := List.mem_map.mp (List.of_mem_zip hmem).2
      exact OutputColumn.equals_self_scalar hdb (Select.held_matching hs r hr) c

/-- The rows that a sound store answers to a query have different names, and values that equal
themselves. -/
theorem Query.definite_of_answer {q : Query} {db : Database} (hdb : db.Sound)
    {rows : List (List (String × Scalar))} (h : q.run.answer db = .ok rows) :
    ∀ r ∈ rows, Definite r := by
  cases hq : q.compile with
  | error f =>
    rw [Query.run, hq] at h
    cases h
  | ok s =>
    rw [Query.answer_run_shared hq] at h
    refine Select.definite_of_answer ?_ hdb.opened h
    rw [Select.shared, Select.sources_withValues]
    exact Query.tables_compile hq

end Chronicle
