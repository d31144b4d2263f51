import Chronicle.Proofs.AsOf.Substitution
import Chronicle.Proofs.Journal.Timeline

/-!
# Whole statements as of an instant

* `OutputColumn.Rearranged`: columns under their names in another order;
* `Substitution.columns`: the columns of an answer as of an instant;
* `Substitution.compile_columns`: what the projections of a query become;
* `Substitution.Mirrors`, `Substitution.compile_query`: what the whole query becomes.
-/

namespace Chronicle

open Chronicle.Calendar

/-! ## Columns of answers -/

namespace OutputColumn

/-- A column that says the name it has anyway. -/
def named : OutputColumn → OutputColumn
  | column c label => column c (some (label.getD c.column.name))
  | constant v label => constant v label

/-- Another column under the name of a first one. -/
def renamed (f : SourceColumn → SourceColumn) : OutputColumn → OutputColumn
  | column c label => column (f c) (some (label.getD c.column.name))
  | constant v label => constant v label

/-- Another column under a given name. -/
def renamedAs (name : String) (f : SourceColumn → SourceColumn) : OutputColumn → OutputColumn
  | column c _ => column (f c) (some name)
  | constant v label => constant v label

theorem slot?_renamed (f : SourceColumn → SourceColumn) (c : OutputColumn) :
    (c.renamed f).slot? = c.slot? := by cases c <;> rfl

/-- Columns under their own names in another order, in which the constants keep theirs. -/
structure Rearranged (cs' cs : List OutputColumn) : Prop where
  perm : (cs'.map named).Perm cs
  slots : cs'.filterMap slot? = cs.filterMap slot?

theorem Rearranged.append {cs cs' ds ds' : List OutputColumn} (h : Rearranged cs' cs)
    (h' : Rearranged ds' ds) : Rearranged (cs' ++ ds') (cs ++ ds) where
  perm := by
    rw [List.map_append]
    exact h.perm.append h'.perm
  slots := by rw [List.filterMap_append, List.filterMap_append, h.slots, h'.slots]

theorem Rearranged.constant_cons {cs cs' : List OutputColumn} (h : Rearranged cs' cs) (v : Scalar)
    (label : String) : Rearranged (constant v label :: cs') (constant v label :: cs) where
  perm := h.perm.cons _
  slots := by rw [List.filterMap_cons, List.filterMap_cons, h.slots]

/-- Columns without constants have nothing but names to keep. -/
theorem Rearranged.of_columns {cs cs' : List OutputColumn} (h : (cs'.map named).Perm cs)
    (hcs : ∀ c ∈ cs, c.slot? = none) : Rearranged cs' cs where
  perm := h
  slots := by
    have hcs' : ∀ c ∈ cs', c.slot? = none := by
      intro c hc
      have hnamed : c.named.slot? = c.slot? := by cases c <;> rfl
      rw [← hnamed]
      exact hcs _ (h.subset (List.mem_map_of_mem hc))
    rw [List.filterMap_eq_nil_iff.mpr hcs, List.filterMap_eq_nil_iff.mpr hcs']

end OutputColumn

/-- What a list is turned into piece by piece. -/
theorem flatten_of_mapM {ε α β : Type} {f : α → Except ε (List β)} {g : α → List β} {xs : List α}
    {yss : List (List β)} (hf : ∀ x ∈ xs, ∀ ys, f x = .ok ys → ys = g x)
    (h : xs.mapM f = .ok yss) : yss.flatten = xs.flatMap g := by
  induction xs generalizing yss with
  | nil =>
    rw [List.mapM_nil] at h
    cases h
    rfl
  | cons x xs ih =>
    obtain ⟨ys, zss, hys, hzss, rfl⟩ := mapM_cons_eq_ok_iff.mp h
    rw [List.flatten_cons, List.flatMap_cons, hf x List.mem_cons_self ys hys,
      ih (fun x' hx' => hf x' (List.mem_cons_of_mem _ hx')) hzss]

/-- All columns of the store have names. -/
theorem Schema.name_ne_empty {t : Table} (ht : t ∈ tables) {c : Column} (hc : c ∈ t.columns) :
    c.name ≠ "" := by
  have hall : ∀ t ∈ tables, ∀ c ∈ t.columns, c.name ≠ "" := by decide
  exact hall t ht c hc

namespace Substitution

/-- The columns of an answer as of an instant: those of the answer itself, after the timestamp if no
columns were asked for, and a single number of the entity under its own name. -/
def columns (s : Substitution) (place : Nat) (ps : List Projection) (cs : List OutputColumn) :
    List OutputColumn :=
  match ps with
  | [] => .constant (.text s.timestamp.key) "timestamp" ::
      cs.map (OutputColumn.renamed (s.kind.counterpart place))
  | [p] =>
    if s.isIdColumn p then cs.map (OutputColumn.renamedAs "id" (s.kind.counterpart place))
    else cs.map (OutputColumn.renamed (s.kind.counterpart place))
  | _ => cs.map (OutputColumn.renamed (s.kind.counterpart place))

/-- Where a column of the live table is found. -/
theorem column_live (s : Substitution) (name : String) : s.column ⟨s.kind.table.name, name⟩ =
    if name = "id" then journalColumn "entity_id"
    else if name = "created_at" then liveColumn "created_at"
    else if name = "updated_at" then journalColumn "recorded_at"
    else ⟨s.kind.journal.name, name⟩ := column_own s.isOwnTable_table

/-- The columns of an entity are those of its live table, in another order. -/
theorem entityColumns_eq (s : Substitution) : ∃ cs : List Column, cs.Perm s.kind.table.columns ∧
    s.entityColumns = cs.map fun c =>
      .column (s.column ⟨s.kind.table.name, c.name⟩) (some c.name) := by
  have hpayload : ∀ k ∈ Kind.all, ∀ c ∈ k.journal.columns.filter fun c => c.name != "id",
      c.name ≠ "id" ∧ c.name ≠ "created_at" ∧ c.name ≠ "updated_at" := by decide
  refine ⟨(s.kind.journal.columns.filter fun c => c.name != "id") ++ [Schema.idColumn,
    ⟨"created_at", .instant, false⟩, ⟨"updated_at", .instant, false⟩], ?_, ?_⟩
  · cases s.kind <;> decide
  · rw [entityColumns, Kind.payload_eq, List.map_append, List.map_map]
    congr 1
    · apply List.map_congr_left
      intro c hc
      obtain ⟨hid, hcreated, hupdated⟩ := hpayload s.kind s.kind.mem_all c hc
      rw [Function.comp, column_live, if_neg hid, if_neg hcreated, if_neg hupdated]
    · simp [column_live, Schema.idColumn]

section Columns

variable {s : Substitution} {place : Nat} {scope scope' : Scope}

/-- The columns of an entity become the counterparts of those of its live table. -/
theorem compile_entityColumns (h : Scope.Mirrors s.kind place scope scope')
    {css : List (List OutputColumn)}
    (hcss : s.entityColumns.mapM (OutputColumn.ofProjection scope') = .ok css) :
    OutputColumn.Rearranged css.flatten
      ((s.kind.liveSource.columns.map fun c => .column c none).map
        (OutputColumn.renamed (s.kind.counterpart place))) := by
  obtain ⟨cs, hperm, hcs⟩ := s.entityColumns_eq
  have hcolumn : ∀ c ∈ cs, ∀ ds, OutputColumn.ofProjection scope'
      (.column (s.column ⟨s.kind.table.name, c.name⟩) (some c.name)) = .ok ds →
        ds = [.column (s.kind.counterpart place ⟨s.kind.liveSource, c⟩) (some c.name)] := by
    intro c hc ds hds
    have hmem : c ∈ s.kind.table.columns := hperm.mem_iff.mp hc
    have hnonempty : c.name ≠ "" := Schema.name_ne_empty s.kind.table_mem hmem
    have hfound : s.kind.table.column? c.name = some c :=
      Column.find?_name (Schema.columnNames_nodup s.kind.table_mem) hmem
    have hx : scope.column ⟨s.kind.table.name, c.name⟩ = .ok ⟨s.kind.liveSource, c⟩ :=
      Scope.column_eq_ok_iff.mpr ⟨h.live, hfound⟩
    obtain ⟨y, hy, hds⟩ := bind_eq_ok_iff.mp hds
    cases hds
    rw [h.column hx hy, Option.filter_some, if_pos (decide_eq_true hnonempty)]
  refine .of_columns ?_ ?_
  · rw [hcs, List.mapM_map] at hcss
    rw [flatten_of_mapM hcolumn hcss, ← List.map_eq_flatMap, List.map_map]
    unfold Source.columns
    rw [List.map_map, List.map_map]
    exact hperm.map _
  · rw [List.forall_mem_map, List.forall_mem_map]
    exact fun _ _ => rfl

/-- A column that is projected has the name of its label, or its own where the label is empty. -/
theorem projection_column (s : Substitution) (ref : ColumnRef) (label : Option String) :
    s.projection (.column ref label) =
      [.column (s.column ref) (some ((label.filter (· ≠ "")).getD ref.name))] := by
  unfold projection
  cases label with
  | none => rfl
  | some l =>
    by_cases hl : l = ""
    · subst hl
      rfl
    · simp [hl, Option.filter_some]

theorem getD_filter_ne_empty (label : Option String) {name : String} (h : name ≠ "") :
    (label.filter (· ≠ "")).getD name ≠ "" := by
  cases label with
  | none => exact h
  | some l =>
    by_cases hl : l = ""
    · subst hl
      exact h
    · simp [hl, Option.filter_some]

/-- A projection becomes what it was, with counterparts for its columns. -/
theorem compile_projection {ss : List Source} (h : Scope.Mirrors s.kind place scope scope')
    (hs : scope.Within ss) {p : Projection} {cs : List OutputColumn} {css' : List (List OutputColumn)}
    (hc : OutputColumn.ofProjection scope p = .ok cs)
    (hc' : (s.projection p).mapM (OutputColumn.ofProjection scope') = .ok css') :
    OutputColumn.Rearranged css'.flatten
      (cs.map (OutputColumn.renamed (s.kind.counterpart place))) := by
  cases p with
  | column ref label =>
    obtain ⟨x, hx, hc⟩ := bind_eq_ok_iff.mp hc
    cases hc
    rw [projection_column] at hc'
    obtain ⟨ds, hds, rfl⟩ := mapM_singleton_eq_ok_iff.mp hc'
    obtain ⟨y, hy, hds⟩ := bind_eq_ok_iff.mp hds
    cases hds
    obtain rfl := h.column hx hy
    have hname := Table.column?_name (Scope.column_eq_ok_iff.mp hx).2
    have hview := hs.column hx
    have hnonempty : ref.name ≠ "" := hname ▸ Schema.name_ne_empty hview.table hview.column
    rw [Option.filter_some, if_pos (decide_eq_true (getD_filter_ne_empty label hnonempty)), ← hname]
    exact ⟨.refl _, rfl⟩
  | constant v label =>
    cases hc
    obtain ⟨ds, hds, rfl⟩ := mapM_singleton_eq_ok_iff.mp hc'
    cases hds
    exact ⟨.refl _, rfl⟩
  | allColumns table =>
    obtain ⟨u, hu, rfl⟩ := OutputColumn.ofProjection_allColumns.mp hc
    by_cases ht : table = s.kind.table.name
    · -- all columns of the live table are those of the entity, from different relations
      subst ht
      obtain rfl : s.kind.liveSource = u := Option.some.inj (h.live.symm.trans hu)
      rw [projection, if_pos s.isOwnTable_table] at hc'
      exact compile_entityColumns h hc'
    · obtain ⟨hn, hlive, hother⟩ := h.others table u hu ht
      rw [projection, isOwnTable_of_other ht hn, if_neg Bool.false_ne_true] at hc'
      obtain ⟨ds, hds, rfl⟩ := mapM_singleton_eq_ok_iff.mp hc'
      obtain ⟨u', hu', rfl⟩ := OutputColumn.ofProjection_allColumns.mp hds
      obtain rfl : u.next = u' := Option.some.inj (hother.symm.trans hu')
      refine .of_columns ?_ ?_
      · rw [List.flatten_singleton, Source.columns, Source.columns, u.table_next, List.map_map,
          List.map_map, List.map_map, List.map_map]
        refine .of_eq (List.map_congr_left fun c _ => ?_)
        have hcounterpart : s.kind.counterpart place ⟨u, c⟩ = ⟨u.next, c⟩ :=
          Kind.counterpart_of_ne hlive place
        simp only [Function.comp, OutputColumn.named, OutputColumn.renamed, hcounterpart]
      · rw [List.forall_mem_map, List.forall_mem_map]
        exact fun _ _ => rfl
  | «foreign» v => cases hc

theorem compile_projections {ss : List Source} (h : Scope.Mirrors s.kind place scope scope')
    (hs : scope.Within ss) {ps : List Projection} {css css' : List (List OutputColumn)}
    (hc : ps.mapM (OutputColumn.ofProjection scope) = .ok css)
    (hc' : (ps.flatMap s.projection).mapM (OutputColumn.ofProjection scope') = .ok css') :
    OutputColumn.Rearranged css'.flatten
      (css.flatten.map (OutputColumn.renamed (s.kind.counterpart place))) := by
  induction ps generalizing css css' with
  | nil =>
    rw [List.flatMap_nil, List.mapM_nil] at hc'
    rw [List.mapM_nil] at hc
    cases hc
    cases hc'
    exact ⟨.refl _, rfl⟩
  | cons p ps ih =>
    obtain ⟨cs, dss, hcs, hdss, rfl⟩ := mapM_cons_eq_ok_iff.mp hc
    rw [List.flatMap_cons, List.mapM_append] at hc'
    obtain ⟨css₁, hcss₁, hc'⟩ := bind_eq_ok_iff.mp hc'
    obtain ⟨css₂, hcss₂, hc'⟩ := bind_eq_ok_iff.mp hc'
    cases hc'
    rw [List.flatten_append, List.flatten_cons, List.map_append]
    exact (compile_projection h hs hcs hcss₁).append (ih hdss hcss₂)

theorem outputColumns_of_ne_nil (scope : Scope) (table : String) {ps : List Projection}
    (h : ps ≠ []) : outputColumns scope table ps =
      (ps.mapM (OutputColumn.ofProjection scope)).map List.flatten := by
  cases ps with
  | nil => contradiction
  | cons p ps => rfl

theorem projection_ne_nil (s : Substitution) (p : Projection) : s.projection p ≠ [] := by
  unfold projection
  split
  · exact List.cons_ne_nil _ _
  · split
    · rw [entityColumns]
      exact List.append_ne_nil_of_right_ne_nil _ (List.cons_ne_nil _ _)
    · exact List.cons_ne_nil _ _
  · exact List.cons_ne_nil _ _

theorem outputColumns_singleton {table : String} {p : Projection} {cs : List OutputColumn} :
    outputColumns scope table [p] = .ok cs ↔ OutputColumn.ofProjection scope p = .ok cs := by
  rw [outputColumns_of_ne_nil _ _ (List.cons_ne_nil _ _), map_eq_ok_iff]
  constructor
  · rintro ⟨css, hcss, rfl⟩
    obtain ⟨ds, hds, rfl⟩ := mapM_singleton_eq_ok_iff.mp hcss
    rw [hds, List.flatten_singleton]
  · intro h
    exact ⟨[cs], mapM_singleton_eq_ok_iff.mpr ⟨cs, h, rfl⟩, List.flatten_singleton⟩

/-- Without projections an answer has the columns of the live table. -/
theorem columns_of_nil (h : Scope.Mirrors s.kind place scope scope') {cs : List OutputColumn}
    (hc : outputColumns scope s.kind.table.name [] = .ok cs) :
    cs = s.kind.liveSource.columns.map fun c => .column c none := by
  unfold outputColumns at hc
  dsimp only at hc
  rw [h.live] at hc
  exact (Except.ok.inj hc).symm

/-- A single number is a single column. -/
theorem columns_of_isIdColumn {p : Projection} (hp : s.isIdColumn p = true)
    {table : String} {cs : List OutputColumn} (hc : outputColumns scope table [p] = .ok cs) :
    ∃ x label, cs = [.column x label] := by
  cases p with
  | column ref label =>
    obtain ⟨x, -, hc⟩ := bind_eq_ok_iff.mp (outputColumns_singleton.mp hc)
    cases hc
    exact ⟨x, _, rfl⟩
  | _ => cases hp

/-- Projections that all become what they were. -/
theorem compile_columns_of_flatMap {ss : List Source} (h : Scope.Mirrors s.kind place scope scope')
    (hs : scope.Within ss) {table table' : String} {p : Projection} {ps : List Projection}
    {cs cs' : List OutputColumn} (hps : s.projections (p :: ps) = (p :: ps).flatMap s.projection)
    (hc : outputColumns scope table (p :: ps) = .ok cs)
    (hc' : outputColumns scope' table' (s.projections (p :: ps)) = .ok cs') :
    OutputColumn.Rearranged cs' (cs.map (OutputColumn.renamed (s.kind.counterpart place))) := by
  have hne : (p :: ps).flatMap s.projection ≠ [] := by
    rw [List.flatMap_cons]
    exact List.append_ne_nil_of_left_ne_nil (s.projection_ne_nil p) _
  rw [outputColumns_of_ne_nil _ _ (List.cons_ne_nil p ps)] at hc
  rw [hps, outputColumns_of_ne_nil _ _ hne] at hc'
  obtain ⟨css, hcss, rfl⟩ := map_eq_ok_iff.mp hc
  obtain ⟨css', hcss', rfl⟩ := map_eq_ok_iff.mp hc'
  exact compile_projections h hs hcss hcss'

/-- A single number stays a single number, under its own name. -/
theorem compile_idColumn (h : Scope.Mirrors s.kind place scope scope') {table table' : String}
    {p : Projection} (hp : s.isIdColumn p = true) {cs cs' : List OutputColumn}
    (hc : outputColumns scope table [p] = .ok cs)
    (hc' : outputColumns scope' table' (s.projections [p]) = .ok cs') :
    OutputColumn.Rearranged cs' (s.columns place [p] cs) := by
  rw [columns, if_pos hp]
  cases p with
  | column ref label =>
    rw [projections, if_pos hp] at hc'
    obtain ⟨x, hx, hc⟩ := bind_eq_ok_iff.mp (outputColumns_singleton.mp hc)
    obtain ⟨y, hy, hc'⟩ := bind_eq_ok_iff.mp (outputColumns_singleton.mp hc')
    cases hc
    cases hc'
    obtain rfl := h.column hx hy
    exact ⟨.refl _, rfl⟩
  | _ => cases hp

/-- The columns of an answer become the columns of the answer as of the instant. -/
theorem compile_columns {ss : List Source} (h : Scope.Mirrors s.kind place scope scope')
    (hs : scope.Within ss) {ps : List Projection} {cs cs' : List OutputColumn}
    (hc : outputColumns scope s.kind.table.name ps = .ok cs)
    (hc' : outputColumns scope' s.kind.journal.name (s.projections ps) = .ok cs') :
    OutputColumn.Rearranged cs' (s.columns place ps cs) := by
  match ps with
  | [] =>
    obtain rfl := columns_of_nil h hc
    rw [projections, outputColumns_of_ne_nil _ _ (List.cons_ne_nil _ _)] at hc'
    obtain ⟨css, hcss, rfl⟩ := map_eq_ok_iff.mp hc'
    obtain ⟨ds, dss, hds, hdss, rfl⟩ := mapM_cons_eq_ok_iff.mp hcss
    cases hds
    exact (compile_entityColumns h hdss).constant_cons _ _
  | [p] =>
    by_cases hid : s.isIdColumn p = true
    · exact compile_idColumn h hid hc hc'
    · rw [columns, if_neg hid]
      refine compile_columns_of_flatMap h hs ?_ hc hc'
      cases p with
      | column ref label => rw [projections, if_neg hid, List.flatMap_singleton]
      | _ => rfl
  | p :: q :: ps => exact compile_columns_of_flatMap h hs (by cases p <;> rfl) hc hc'

end Columns

/-! ## The joins that are added -/

/-- The join of the line that holds. -/
def entryJoined (s : Substitution) : JoinedSource :=
  .mk .lines (.validAt .lines s.kind.payloadSource s.kind.name s.instant) false

/-- The join of the live row. -/
def liveJoined (s : Substitution) (place : Nat) : JoinedSource :=
  .mk (s.kind.journables place) (.compare .eq ⟨s.kind.journables place, Schema.idColumn⟩
    (.column ⟨.lines, ⟨"entity_id", .integer, false⟩⟩)) false

section Added

variable {s : Substitution} {scope inner : Scope} {place : Nat} {j : JoinedSource}

theorem compile_entryJoin (hi : s.instant.micros < Instant.bound)
    (h : s.entryJoin.compile [(s.kind.journal.name, s.kind.payloadSource)] place = .ok (j, inner)) :
    j = s.entryJoined ∧
      inner = [(Kind.journalsName, .lines), (s.kind.journal.name, s.kind.payloadSource)] := by
  rw [entryJoin, Join.compile] at h
  have hpayload : List.lookup s.kind.journal.name
      [(Source.lines.name, .lines), (s.kind.journal.name, s.kind.payloadSource)] =
        some s.kind.payloadSource := (Scope.Mirrors.base s.kind place).payload
  have hlines : Source.lines = ⟨Schema.journals, none, 0⟩ := rfl
  simp only [← hlines, hpayload, Instant.toInstant_moment hi] at h
  cases h
  exact ⟨rfl, rfl⟩

theorem compile_liveJoin (hl : scope.lookup Kind.journalsName = some .lines)
    (h : s.liveJoin.compile scope place = .ok (j, inner)) :
    j = s.liveJoined place ∧
      inner = (Kind.journablesAlias, s.kind.journables place) :: scope := by
  obtain ⟨table, cs, htable, rfl, hcs, rfl⟩ := Join.compile_table h
  obtain rfl : s.kind.table = table := Except.ok.inj (s.kind.findTable_table.symm.trans htable)
  have hsource : Source.joined s.kind.table (some Kind.journablesAlias) place =
      s.kind.journables place := rfl
  have hid : Scope.column ((Kind.journablesAlias, s.kind.journables place) :: scope)
      (liveColumn "id") = .ok ⟨s.kind.journables place, Schema.idColumn⟩ := by
    refine Scope.column_eq_ok_iff.mpr ⟨List.lookup_cons_self, ?_⟩
    exact Column.find?_name (Schema.columnNames_nodup s.kind.table_mem)
      (Schema.idColumn_mem s.kind.table_mem)
  have hentity : Scope.column ((Kind.journablesAlias, s.kind.journables place) :: scope)
      (journalColumn "entity_id") = .ok ⟨.lines, ⟨"entity_id", .integer, false⟩⟩ :=
    Scope.column_eq_ok_iff.mpr ⟨hl, rfl⟩
  rw [hsource] at hcs ⊢
  rw [Predicate.compileAll, Predicate.compile] at hcs
  obtain ⟨c, hc, hcs⟩ := bind_eq_ok_iff.mp hcs
  obtain ⟨x, hx, hc⟩ := bind_eq_ok_iff.mp hc
  obtain ⟨y, hy, hc⟩ := bind_eq_ok_iff.mp hc
  obtain rfl := Except.ok.inj (hid.symm.trans hx)
  obtain rfl := Except.ok.inj (hentity.symm.trans hy)
  cases hc
  rw [Predicate.compileAll] at hcs
  cases hcs
  exact ⟨rfl, rfl⟩

end Added

/-- The journal is joined before all other joins of a query that joins no entries itself. -/
theorem journalFirst_eq {s : Substitution} {as as' : List Join} (hp : ∀ a ∈ as, a.isAsOf = false)
    (ha : as.mapM s.join = .ok as') :
    journalFirst (as' ++ [s.entryJoin, s.liveJoin]) = s.entryJoin :: (as' ++ [s.liveJoin]) := by
  have hnone : ∀ a' ∈ as', a'.isAsOf = false := by
    intro a' ha'
    obtain ⟨a, hmem, hjoin⟩ := exists_of_mem_mapM ha ha'
    cases a with
    | table name given on outer =>
      rw [join] at hjoin
      obtain ⟨on', -, rfl⟩ := map_eq_ok_iff.mp hjoin
      rfl
    | asOf entityType dataTable timestamp => cases hp _ hmem
  have hfilter : as'.filter Join.isAsOf = [] := by
    rw [List.filter_eq_nil_iff]
    intro a' ha'
    rw [hnone a' ha']
    exact Bool.false_ne_true
  have hother : as'.filter (!Join.isAsOf ·) = as' := by
    rw [List.filter_eq_self]
    intro a' ha'
    rw [hnone a' ha']
    rfl
  rw [journalFirst, List.filter_append, List.filter_append, hfilter, hother]
  rfl

/-- The orders of a query become what they were, with counterparts for their columns. -/
theorem compile_orders {s : Substitution} {place : Nat} {scope scope' : Scope}
    (h : Scope.Mirrors s.kind place scope scope') {bs : List OrderBy}
    (hp : bs.all OrderBy.isPlain = true) {os os' : List (OrderExpr × Bool)}
    (ho : bs.mapM (OrderExpr.ofOrder scope) = .ok os)
    (ho' : (bs.map s.order).mapM (OrderExpr.ofOrder scope') = .ok os') :
    os' = os.map fun o => (o.1.renamed (s.kind.counterpart place), o.2) := by
  induction bs generalizing os os' with
  | nil =>
    rw [List.mapM_nil] at ho
    rw [List.map_nil, List.mapM_nil] at ho'
    cases ho
    cases ho'
    rfl
  | cons b bs ih =>
    rw [List.all_cons, Bool.and_eq_true] at hp
    obtain ⟨o, os, hb, hos, rfl⟩ := mapM_cons_eq_ok_iff.mp ho
    rw [List.map_cons] at ho'
    obtain ⟨o', os', hb', hos', rfl⟩ := mapM_cons_eq_ok_iff.mp ho'
    rw [List.map_cons, ih hp.2 hos hos']
    obtain ⟨target, descending⟩ := b
    cases target with
    | column ref =>
      obtain ⟨x, hx, rfl⟩ := map_eq_ok_iff.mp hb
      obtain ⟨y, hy, rfl⟩ := map_eq_ok_iff.mp hb'
      obtain rfl := h.column hx hy
      rfl
    | raw r => cases hp.1

/-! ## The whole query -/

/-- What a query becomes and what the query as of an instant becomes, part by part. -/
structure Mirrors (s : Substitution) (q : Query) (a a' : Select) : Prop where
  base : a.base = s.kind.liveSource
  base' : a'.base = s.kind.payloadSource
  names : a.joins.map (fun j => j.source.name) = q.joins.map Join.relation
  joins : JoinedSource.Each (s.Joins (q.joins.length + 2)) [] a.joins
  joins' : a'.joins = s.entryJoined :: (a.joins.map (s.mirrored (q.joins.length + 2)) ++
    [s.liveJoined (q.joins.length + 2)])
  conditions : Clause.AllResolved (s.InView (q.joins.length + 2) (a.joins.map JoinedSource.source)
    ((a.joins.map JoinedSource.source).map Source.next ++
      [s.kind.journables (q.joins.length + 2)])) a.conditions
  conditions' : a'.conditions =
    Clause.renamedAll (s.kind.counterpart (q.joins.length + 2)) a.conditions
  columns : OutputColumn.Rearranged a'.columns
    (s.columns (q.joins.length + 2) q.projections a.columns)
  whole : q.projections = [] → a.columns = s.kind.liveSource.columns.map fun c => .column c none
  single : ∀ p, q.projections = [p] → s.isIdColumn p = true →
    ∃ x label, a.columns = [.column x label]
  shown : ∀ c ∈ a.columns, c.Resolved (SourceColumn.InView
    (s.kind.liveSource :: a.joins.map JoinedSource.source))
  orders : ∀ o ∈ a.orders, o.1.Resolved (SourceColumn.InView
    (s.kind.liveSource :: a.joins.map JoinedSource.source))
  orders' : a'.orders = a.orders.map fun o =>
    (o.1.renamed (s.kind.counterpart (q.joins.length + 2)), o.2)
  limit : a.limit = none
  limit' : a'.limit = none

theorem compile_query {s : Substitution} {q q' : Query} {a a' : Select}
    (hi : s.instant.micros < Instant.bound) (hq : q.table = s.kind.table.name)
    (hp : q.isPlain = true) (hl : q.limit.count = .ok none)
    (hn : ∀ j ∈ q.joins, j.relation ≠ s.kind.table.name ∧ j.relation ∉ s.kind.takenNames)
    (hs : s.query q = .ok q') (hc : q.compile = .ok a) (hc' : q'.compile = .ok a') :
    s.Mirrors q a a' := by
  obtain ⟨conditions', hconditions', hs⟩ := bind_eq_ok_iff.mp hs
  obtain ⟨joins', hjoins', hs⟩ := bind_eq_ok_iff.mp hs
  cases hs
  obtain ⟨last, hc⟩ := Query.compiled_of_compile hc
  obtain ⟨last', hc'⟩ := Query.compiled_of_compile hc'
  obtain ⟨hpj, hpc, hpo⟩ := Query.isPlain_iff.mp hp
  have hbase : a.base = s.kind.liveSource := hc.base_of_table hq
  have hbase' : a'.base = s.kind.payloadSource := hc'.base_of_journal rfl
  -- the joins of the query stand between the two that are added
  have hjs := hc.joins
  have hjs' := hc'.joins
  dsimp only at hjs'
  rw [hq, hbase] at hjs
  rw [hbase', journalFirst_eq (fun _ ha => Join.isAsOf_of_mem hpj ha) hjoins'] at hjs'
  obtain ⟨j, inner, rest, hj, hrest, hjoins⟩ := Join.compileAll_cons hjs'
  obtain ⟨rfl, rfl⟩ := compile_entryJoin hi hj
  obtain ⟨ks, inner, ls, hks, hls, rfl⟩ := Join.compileAll_append hrest
  obtain ⟨rfl, heach, hlast⟩ := compile_joins (.base s (q.joins.length + 2)) hpj hn hjoins' hjs hks
  obtain ⟨l, final, none', hl', hnone, rfl⟩ := Join.compileAll_cons hls
  rw [Join.compileAll] at hnone
  cases hnone
  have hplace : 1 + 1 + joins'.length = q.joins.length + 2 := by
    rw [length_of_mapM hjoins']
    omega
  rw [hplace] at hl'
  obtain ⟨rfl, rfl⟩ := compile_liveJoin hlast.mirrors.lines hl'
  rw [List.nil_append] at hlast
  have htables : (s.kind.journables (q.joins.length + 2)).table ∈ Schema.tables := s.kind.table_mem
  have hwithin' := hlast.within'.cons Kind.journablesAlias htables
  -- the other clauses see all relations
  obtain ⟨hconditions, hresolved⟩ := compile_predicates hlast.mirrors.journables_cons q.conditions
    hpc hconditions' hc.conditions hc'.conditions
  refine ⟨hbase, hbase', Join.names_compileAll hpj hc.joins, heach, hjoins, ?_, hconditions, ?_, ?_,
    ?_, outputColumns_resolved hlast.within hc.columns, ?_, ?_, ?_, ?_⟩
  · exact Clause.allResolved_imp (fun x hx => hx.inView hlast.within hwithin') _ hresolved
  · exact compile_columns hlast.mirrors.journables_cons hlast.within (hq ▸ hc.columns) hc'.columns
  · exact fun hnil => columns_of_nil hlast.mirrors.journables_cons (hnil ▸ hq ▸ hc.columns)
  · exact fun p hp hid => columns_of_isIdColumn hid (hp ▸ hc.columns)
  · intro o ho
    obtain ⟨b, hb, ho⟩ := exists_of_mem_mapM hc.orders ho
    exact OrderExpr.ofOrder_resolved hlast.within (List.all_eq_true.mp hpo b hb) ho
  · exact compile_orders hlast.mirrors.journables_cons hpo hc.orders hc'.orders
  · exact Except.ok.inj (hc.limit.symm.trans hl)
  · exact Except.ok.inj (hc'.limit.symm.trans hl)

end Substitution

end Chronicle
