import Mathlib.Data.List.Basic
import Chronicle.Proofs.Statement.Lookup

/-!
# Rows of joins

A join adds to the rows before it those of its table that go with them, or an empty one where none
does and the join keeps all.

* `JoinedSource.added`: the rows that a join adds;
* `JoinedSource.extend_append`, `JoinedSource.extend_flatMap`: joins one after another, and each row
  for itself;
* `JoinedSource.exists_of_mem_extend`, `JoinedSource.covers_extend`: the relations of extended rows;
* `JoinedSource.extend_prefix`: joins add the same rows behind different ones, if their conditions
  hold in the same places.
-/

namespace Chronicle

namespace JoinedSource

/-- What a join adds behind the relations of a row. -/
def added (db : Database) (outer : Env) (source : Source) (on : Clause) (keepsAll : Bool)
    (r : List Relation) : List Relation :=
  let joined := ((db.tableRows source.table).map source.relation).filter fun x =>
    on.truth db ((r ++ [x]) :: outer) == some true
  if joined.isEmpty && keepsAll then [source.relation []] else joined

section Extend

variable {db : Database} {outer : Env} {source : Source} {on : Clause} {keepsAll : Bool}
  {js : List JoinedSource} {rs : List (List Relation)}

theorem extend_nil : extend db outer [] rs = rs := rfl

theorem extend_cons : extend db outer (.mk source on keepsAll :: js) rs =
    extend db outer js
      (rs.flatMap fun r => (added db outer source on keepsAll r).map fun x => r ++ [x]) := by
  rw [extend]
  congr 1
  apply List.flatMap_congr
  intro r _
  have hjoined : ((db.tableRows source.table).filterMap fun row =>
      if on.truth db ((r ++ [source.relation row]) :: outer) == some true then
        some (r ++ [source.relation row]) else none) =
      (((db.tableRows source.table).map source.relation).filter fun x =>
        on.truth db ((r ++ [x]) :: outer) == some true).map fun x => r ++ [x] := by
    rw [List.filter_map, List.map_map, ← List.filterMap_eq_filter, List.map_filterMap]
    apply List.filterMap_congr
    intro row _
    simp only [Function.comp, Option.guard]
    split <;> rfl
  simp only [hjoined, added, List.isEmpty_map]
  split <;> rfl

theorem extend_append (ks : List JoinedSource) :
    extend db outer (js ++ ks) rs = extend db outer ks (extend db outer js rs) := by
  induction js generalizing rs with
  | nil => rfl
  | cons j js ih =>
    obtain ⟨source, on, keepsAll⟩ := j
    rw [List.cons_append, extend_cons, extend_cons, ih]

/-- Every row is extended for itself. -/
theorem extend_flatMap {α : Type} (xs : List α) (f : α → List (List Relation)) :
    extend db outer js (xs.flatMap f) = xs.flatMap fun x => extend db outer js (f x) := by
  induction js generalizing f with
  | nil => rfl
  | cons j js ih =>
    obtain ⟨source, on, keepsAll⟩ := j
    simp only [extend_cons, List.flatMap_assoc, ih]

/-- A join that does not keep all adds the rows for which its condition holds. -/
theorem added_eq_map {r : List Relation} {p : Row → Bool}
    (h : ∀ row ∈ db.tableRows source.table,
      (on.truth db ((r ++ [source.relation row]) :: outer) == some true) = p row) :
    added db outer source on false r =
      ((db.tableRows source.table).filter p).map source.relation := by
  simp only [added, Bool.and_false, Bool.false_eq_true, if_false]
  rw [List.filter_map, ← List.filter_congr h]
  rfl

/-- What is added is a row of the source. -/
theorem covers_of_mem_added {r : List Relation} {x : Relation}
    (hx : x ∈ added db outer source on keepsAll r) : Env.Covers [x] [source] := by
  unfold added at hx
  dsimp only at hx
  split at hx
  · cases List.mem_singleton.mp hx
    exact .relation source []
  · obtain ⟨row, -, rfl⟩ := List.mem_map.mp (List.mem_filter.mp hx).1
    exact .relation source row

/-- What is in a row stays at its head. -/
theorem exists_of_mem_extend {pre : List Relation} {before : List Source}
    (h : ∀ r ∈ rs, ∃ us, r = pre ++ us ∧ Env.Covers us before) :
    ∀ r ∈ extend db outer js rs,
      ∃ us, r = pre ++ us ∧ Env.Covers us (before ++ js.map JoinedSource.source) := by
  induction js generalizing rs before with
  | nil =>
    rw [List.map_nil, List.append_nil]
    exact h
  | cons j js ih =>
    obtain ⟨source, on, keepsAll⟩ := j
    rw [extend_cons, List.map_cons, ← List.singleton_append, ← List.append_assoc]
    apply ih
    intro r hr
    obtain ⟨r, hr', hr⟩ := List.mem_flatMap.mp hr
    obtain ⟨x, hx, rfl⟩ := List.mem_map.mp hr
    obtain ⟨us, rfl, hus⟩ := h r hr'
    exact ⟨us ++ [x], List.append_assoc _ _ _, hus.append (covers_of_mem_added hx)⟩

theorem covers_extend {ss : List Source} (h : ∀ r ∈ rs, Env.Covers r ss) :
    ∀ r ∈ extend db outer js rs, Env.Covers r (ss ++ js.map JoinedSource.source) := by
  intro r hr
  obtain ⟨us, rfl, hus⟩ := exists_of_mem_extend (fun r hr => ⟨r, (List.nil_append r).symm, h r hr⟩) r hr
  exact hus

end Extend

/-! ## The same rows behind different ones -/

/-- Something that holds of every join and the sources up to it. -/
def Each (C : List Source → JoinedSource → Prop) : List Source → List JoinedSource → Prop
  | _, [] => True
  | before, j :: js => C (before ++ [j.source]) j ∧ Each C (before ++ [j.source]) js

theorem Each.imp {C D : List Source → JoinedSource → Prop} {before : List Source}
    {js : List JoinedSource} (h : Each C before js)
    (hcd : ∀ ss j, ss <+: before ++ js.map JoinedSource.source → C ss j → D ss j) :
    Each D before js := by
  induction js generalizing before with
  | nil => trivial
  | cons j js ih =>
    rw [List.map_cons, ← List.singleton_append, ← List.append_assoc] at hcd
    exact ⟨hcd _ _ (List.prefix_append _ _) h.1, ih h.2 hcd⟩

theorem Each.exists_of_mem {C : List Source → JoinedSource → Prop} {before : List Source}
    {js : List JoinedSource} (h : Each C before js) : ∀ j ∈ js, ∃ ss, C ss j := by
  induction js generalizing before with
  | nil => exact fun _ hj => nomatch hj
  | cons j js ih => exact List.forall_mem_cons.mpr ⟨⟨_, h.1⟩, ih h.2⟩

/-- A join adds behind `pre'` what another one adds behind `pre`. -/
structure Mirrors (db : Database) (outer : Env) (pre pre' : List Relation) (ss : List Source)
    (j j' : JoinedSource) : Prop where
  relation : j'.source.relation = j.source.relation
  table : j'.source.table = j.source.table
  keepsAll : j'.outer = j.outer
  truth : ∀ rs, Env.Covers rs ss →
    j'.on.truth db ((pre' ++ rs) :: outer) = j.on.truth db ((pre ++ rs) :: outer)

section Prefix

variable {db : Database} {outer : Env} {pre pre' : List Relation}

theorem Mirrors.added {ss : List Source} {j j' : JoinedSource}
    (h : Mirrors db outer pre pre' (ss ++ [j.source]) j j') {rs : List Relation}
    (hrs : Env.Covers rs ss) :
    JoinedSource.added db outer j'.source j'.on j'.outer (pre' ++ rs) =
      JoinedSource.added db outer j.source j.on j.outer (pre ++ rs) := by
  have hsame : (((db.tableRows j.source.table).map j.source.relation).filter fun x =>
      j'.on.truth db ((pre' ++ rs ++ [x]) :: outer) == some true) =
      ((db.tableRows j.source.table).map j.source.relation).filter fun x =>
        j.on.truth db ((pre ++ rs ++ [x]) :: outer) == some true := by
    apply List.filter_congr
    intro x hx
    obtain ⟨row, -, rfl⟩ := List.mem_map.mp hx
    rw [List.append_assoc, List.append_assoc,
      h.truth _ (hrs.append (Env.Covers.relation j.source row))]
  unfold JoinedSource.added
  simp only [h.table, h.relation, h.keepsAll, hsame]

theorem extend_prefix (g : JoinedSource → JoinedSource) {js : List JoinedSource}
    {before : List Source}
    (h : Each (fun ss j => Mirrors db outer pre pre' ss j (g j)) before js)
    {xs : List (List Relation)} (hxs : ∀ rs ∈ xs, Env.Covers rs before) :
    ∃ ys : List (List Relation),
      extend db outer js (xs.map (pre ++ ·)) = ys.map (pre ++ ·) ∧
        extend db outer (js.map g) (xs.map (pre' ++ ·)) = ys.map (pre' ++ ·) ∧
          ∀ rs ∈ ys, Env.Covers rs (before ++ js.map JoinedSource.source) := by
  induction js generalizing before xs with
  | nil =>
    refine ⟨xs, rfl, rfl, ?_⟩
    rw [List.map_nil, List.append_nil]
    exact hxs
  | cons j js ih =>
    have hmirror : Mirrors db outer pre pre' (before ++ [j.source]) j (g j) := h.1
    have hstep : ∀ rs ∈ xs, ∀ x ∈ added db outer j.source j.on j.outer (pre ++ rs),
        Env.Covers (rs ++ [x]) (before ++ [j.source]) := by
      intro rs hrs x hx
      exact (hxs rs hrs).append (covers_of_mem_added hx)
    have hextended : ∀ rs ∈ xs.flatMap fun rs =>
        (added db outer j.source j.on j.outer (pre ++ rs)).map fun x => rs ++ [x],
          Env.Covers rs (before ++ [j.source]) := by
      intro rs hrs
      obtain ⟨us, hus, hrs⟩ := List.mem_flatMap.mp hrs
      obtain ⟨x, hx, rfl⟩ := List.mem_map.mp hrs
      exact hstep us hus x hx
    obtain ⟨ys, hpre, hpre', hys⟩ := ih h.2 hextended
    refine ⟨ys, ?_, ?_, ?_⟩
    · have hj : j = .mk j.source j.on j.outer := by cases j; rfl
      rw [hj, extend_cons, ← hpre, List.flatMap_map, List.map_flatMap]
      simp only [List.map_map, Function.comp_def, List.append_assoc]
    · have hj : g j = .mk (g j).source (g j).on (g j).outer := by cases g j; rfl
      rw [List.map_cons, hj, extend_cons, ← hpre', List.flatMap_map, List.map_flatMap]
      congr 1
      apply List.flatMap_congr
      intro rs hrs
      rw [hmirror.added (hxs rs hrs), List.map_map]
      simp only [Function.comp_def, List.append_assoc]
    · rw [List.map_cons, ← List.singleton_append, ← List.append_assoc]
      exact hys

end Prefix

end JoinedSource

/-! ## Rows of statements -/

theorem sortRows_perm (orders : List (OrderExpr × Bool)) (outer : Env)
    (rs : List (List Relation)) : (sortRows orders outer rs).Perm rs := by
  unfold sortRows
  split
  · exact .refl rs
  · exact List.mergeSort_perm rs _

theorem mem_of_mem_limitRows {α : Type} {limit : Option Int} {rs : List α} {r : α}
    (h : r ∈ limitRows limit rs) : r ∈ rs := by
  unfold limitRows at h
  split at h
  · exact List.mem_of_mem_take h
  · exact h

namespace Select

/-- The conditions of a statement hold for a row. -/
def keeps (s : Select) (db : Database) (outer : Env) (r : List Relation) : Bool :=
  Clause.joinedTruth (r :: outer) .and
    (s.conditions.zip (Clause.truths db (r :: outer) s.conditions)) == some true

/-- The rows that the conditions of a statement let through, its base having given rows. -/
def keptOn (s : Select) (db : Database) (outer : Env) (rows : List Row) : List (List Relation) :=
  (JoinedSource.extend db outer s.joins (rows.map fun row => [s.base.relation row])).filter
    (s.keeps db outer)

/-- The rows that a statement keeps, its base having given rows. -/
def matchingOn (s : Select) (db : Database) (outer : Env) (rows : List Row) :
    List (List Relation) :=
  limitRows s.limit (sortRows s.orders outer (s.keptOn db outer rows))

theorem matching_eq (s : Select) (db : Database) (outer : Env) :
    s.matching db outer = s.matchingOn db outer (db.tableRows s.base.table) := by
  cases s
  rfl

theorem firstCells_eq (s : Select) (db : Database) (outer : Env) :
    s.firstCells db outer = (s.matchingOn db outer (db.tableRows s.base.table)).filterMap fun r =>
      s.columns.head?.map fun c => (c.cell (r :: outer), c.affinity) := by
  cases s
  rfl

theorem covers_keptOn {s : Select} {db : Database} {outer : Env} {rows : List Row} :
    ∀ r ∈ s.keptOn db outer rows, Env.Covers r s.sources := by
  intro r hr
  have hbase : ∀ r ∈ rows.map fun row => [s.base.relation row], Env.Covers r [s.base] := by
    intro r hr
    obtain ⟨row, -, rfl⟩ := List.mem_map.mp hr
    exact .relation s.base row
  exact JoinedSource.covers_extend hbase r (List.mem_filter.mp hr).1

theorem covers_matchingOn {s : Select} {db : Database} {outer : Env} {rows : List Row} :
    ∀ r ∈ s.matchingOn db outer rows, Env.Covers r s.sources := fun r hr =>
  covers_keptOn r ((sortRows_perm _ _ _).mem_iff.mp (mem_of_mem_limitRows hr))

end Select

end Chronicle
