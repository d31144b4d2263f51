import Mathlib.Data.List.Perm.Basic
import Mathlib.Data.List.ProdSigma
import Chronicle.Proofs.AsOf.Counterparts
import Chronicle.Proofs.AsOf.State
import Chronicle.Proofs.AsOf.Statement

/-!
# Rows as of an instant

A row of the query on the state at an instant and a row of the query as of the instant go together:
the base of the first has the cells that the counterparts of its columns have in the second.

* `Journal.Regular.cell_stateRow`: where the cells of a row of the state come from;
* `Substitution.Held.Holds.renames`: counterparts have the cells of the columns they stand for;
* `Substitution.Mirrors.exists_held`: the rows that both queries keep.
-/

namespace Chronicle

open Chronicle.Calendar

/-! ## Rows one by one -/

section Lists

variable {α β γ δ : Type}

/-- Of pairs that are looked through the first parts are looked through first. -/
theorem flatMap_filter_product (xs : List α) (ys : List β) (p : α × β → Bool)
    (f : α × β → List γ) : ((xs ×ˢ ys).filter p).flatMap f =
      xs.flatMap fun x => (ys.filter fun y => p (x, y)).flatMap fun y => f (x, y) := by
  change ((xs.flatMap fun x => ys.map (Prod.mk x)).filter p).flatMap f = _
  rw [List.filter_flatMap, List.flatMap_assoc]
  simp only [List.filter_map, List.flatMap_map, Function.comp_def]

theorem flatMap_map_perm (xs : List α) (ys : List β) (f : α → β → γ) :
    (xs.flatMap fun x => ys.map (f x)).Perm (ys.flatMap fun y => xs.map (f · y)) := by
  induction ys with
  | nil => simp
  | cons y ys ih =>
    simp only [List.map_cons, List.flatMap_cons]
    have hsplit := (List.flatMap_append_perm xs (fun x => [f x y]) fun x => ys.map (f x)).symm
    rw [← List.map_eq_flatMap] at hsplit
    exact hsplit.trans (ih.append_left _)

/-- What two lists are made of in the same places. -/
theorem exists_flatMap {xs : List α} {f : α → List β} {g : α → List γ} {k : δ → β} {l : δ → γ}
    {p : δ → Prop}
    (h : ∀ x ∈ xs, ∃ ds : List δ, f x = ds.map k ∧ g x = ds.map l ∧ ∀ d ∈ ds, p d) :
    ∃ ds : List δ, xs.flatMap f = ds.map k ∧ xs.flatMap g = ds.map l ∧ ∀ d ∈ ds, p d := by
  induction xs with
  | nil => exact ⟨[], rfl, rfl, fun _ hd => nomatch hd⟩
  | cons x xs ih =>
    obtain ⟨ds, hf, hg, hp⟩ := h x List.mem_cons_self
    obtain ⟨es, hf', hg', hp'⟩ := ih fun y hy => h y (List.mem_cons_of_mem _ hy)
    refine ⟨ds ++ es, ?_, ?_, ?_⟩
    · rw [List.flatMap_cons, hf, hf', List.map_append]
    · rw [List.flatMap_cons, hg, hg', List.map_append]
    · exact List.forall_mem_append.mpr ⟨hp, hp'⟩

end Lists

/-! ## Cells of the state -/

namespace Journal

variable {db : Database} {kind : Kind} {i : Instant} {d j l : Row}

/-- The attributes of an entry are the cells of its payload. -/
theorem lookup_payload_entryOfRows {c : Column} (hc : c ∈ kind.journal.columns) (hid : c.name ≠ "id")
    (j d : Row) : (entryOfRows kind j d).payload.lookup c.name =
      some (.scalar ((d.cell c.name).toScalar c.type)) := by
  have hn : ((kind.journal.columns.filter fun c => c.name != "id").map (·.name)).Nodup :=
    (Schema.columnNames_nodup kind.journal_mem).sublist (List.filter_sublist.map _)
  exact Column.lookup_name hn (fun c => Value.scalar ((d.cell c.name).toScalar c.type))
    (List.mem_filter.mpr ⟨hc, bne_iff_ne.mpr hid⟩)

/-- A row of the state has its number and its time of creation from the live row, the time of its
last change from the line, and all else from the payload. -/
theorem Regular.cell_stateRow (h : Regular db) (hl : l ∈ db.tableRows kind.table)
    (hf : foundAt db kind l.id i = some (d, j)) {c : Column} (hc : c ∈ kind.table.columns) :
    (stateRow kind l (entryOfRows kind j d)).cell c.name = Substitution.cellOf d j l c.name := by
  obtain ⟨hline, hd, -⟩ := h.foundAt_eq_some_iff.mp hf
  obtain ⟨version, dataId, time, e⟩ := h.exists_of_mem_rowsOf (mem_of_lineAt hline).1
  rw [stateRow, Row.cell_columns (Schema.columnNames_nodup kind.table_mem) _ hc,
    Substitution.cellOf]
  by_cases hid : c.name = "id"
  · rw [if_pos (Or.inl hid), if_pos hid, hid, (h.sound.fits _ kind.table_mem l hl).number, e,
      cell_line_entity]
  · rw [if_neg hid]
    by_cases hcreated : c.name = "created_at"
    · rw [if_pos (Or.inr hcreated), if_pos hcreated, hcreated]
    · rw [if_neg (not_or.mpr ⟨hid, hcreated⟩), if_neg hcreated]
      by_cases hupdated : c.name = "updated_at"
      · rw [if_pos hupdated, if_pos hupdated, entryOfRows, e, cell_line_time]
        rfl
      · rw [if_neg hupdated, if_neg hupdated]
        have hjournal := kind.mem_journal_columns hc hid hcreated hupdated
        obtain ⟨x, hx, hcell⟩ := Binding.bind_toScalar
          ((h.sound.fits _ kind.journal_mem d hd).takes c hjournal hid)
        rw [Database.boundCell, lookup_payload_entryOfRows hjournal hid, Option.getD_some, hx,
          Bound.toCell, hcell]

/-! ## Lines that hold -/

/-- The lines that hold at an instant, each behind its payload. -/
def heldAt (db : Database) (kind : Kind) (i : Instant) : List (Row × Row) :=
  (db.tableRows kind.journal ×ˢ db.tableRows Schema.journals).filter fun p =>
    foundAt db kind (intCell (p.2.cell "entity_id")) i = some p

/-- The live rows whose entities have a line that holds, each behind its line. -/
def liveAt (db : Database) (kind : Kind) (i : Instant) : List ((Row × Row) × Row) :=
  (db.tableRows kind.table).filterMap fun live =>
    (foundAt db kind live.id i).map fun found => (found, live)

theorem mem_liveAt {x : (Row × Row) × Row} : x ∈ liveAt db kind i ↔
    x.2 ∈ db.tableRows kind.table ∧ foundAt db kind x.2.id i = some x.1 := by
  obtain ⟨found, live⟩ := x
  simp only [liveAt, List.mem_filterMap, Option.map_eq_some_iff, Prod.mk.injEq]
  constructor
  · rintro ⟨r, hr, f, hf, rfl, rfl⟩
    exact ⟨hr, hf⟩
  · rintro ⟨hlive, hf⟩
    exact ⟨live, hlive, found, hf, rfl, rfl⟩

theorem Regular.stateAt_eq (h : Regular db) (kind : Kind) (i : Instant) : stateAt db kind i =
    (liveAt db kind i).map fun x => stateRow kind x.2 (entryOfRows kind x.1.2 x.1.1) := by
  rw [stateAt, liveAt, List.map_filterMap]
  apply List.filterMap_congr
  intro live _
  rw [h.entryAtIn_eq, Option.map_map, Option.map_map]
  rfl

theorem nodup_tableRows (h : db.Sound) {t : Table} (ht : t ∈ Schema.tables) :
    (db.tableRows t).Nodup :=
  (h.ordered t ht).imp fun hlt e => absurd (e ▸ hlt) (Int.lt_irrefl _)

/-- Lines that hold with the live rows of their entities are live rows with lines that hold. -/
theorem Regular.perm_liveAt (h : Regular db) (kind : Kind) (i : Instant) :
    ((heldAt db kind i ×ˢ db.tableRows kind.table).filter fun x =>
      x.2.cell "id" = x.1.2.cell "entity_id").Perm (liveAt db kind i) := by
  have hheld : (heldAt db kind i).Nodup := ((nodup_tableRows h.sound kind.journal_mem).product
    (nodup_tableRows h.sound Schema.journals_mem)).filter _
  have hlive : (liveAt db kind i).Nodup := by
    refine (nodup_tableRows h.sound kind.table_mem).filterMap ?_
    intro r s x hr hs
    obtain ⟨_, -, rfl⟩ := Option.map_eq_some_iff.mp hr
    obtain ⟨_, -, e⟩ := Option.map_eq_some_iff.mp hs
    exact (Prod.mk.inj e).2.symm
  refine (List.perm_ext_iff_of_nodup
    ((hheld.product (nodup_tableRows h.sound kind.table_mem)).filter _) hlive).mpr ?_
  rintro ⟨⟨data, line⟩, live⟩
  rw [mem_liveAt, List.mem_filter, List.mem_product, heldAt, List.mem_filter, List.mem_product,
    decide_eq_true_eq, decide_eq_true_eq]
  constructor
  · rintro ⟨⟨⟨-, hf⟩, hmem⟩, hid⟩
    rw [← hid, (h.sound.fits _ kind.table_mem _ hmem).number] at hf
    exact ⟨hmem, hf⟩
  · rintro ⟨hmem, hf⟩
    obtain ⟨hline, hd, -⟩ := h.foundAt_eq_some_iff.mp hf
    have hrow := (mem_of_lineAt hline).1
    obtain ⟨version, dataId, time, e⟩ := h.exists_of_mem_rowsOf hrow
    have hentity : line.cell "entity_id" = .int live.id := by
      rw [e, cell_line_entity]
    refine ⟨⟨⟨⟨hd, (List.mem_filter.mp hrow).1⟩, ?_⟩, hmem⟩, ?_⟩
    · rw [hentity]
      exact hf
    · rw [hentity, (h.sound.fits _ kind.table_mem _ hmem).number]

end Journal

namespace Substitution

/-! ## Joins of lines and of live rows -/

section Added

variable {s : Substitution} {place : Nat} {db : Database}

/-- To a payload its line is joined, if it holds. -/
theorem added_entryJoined (h : Journal.Regular db) {d : Row}
    (hd : d ∈ db.tableRows s.kind.journal) :
    JoinedSource.added db [] .lines (.validAt .lines s.kind.payloadSource s.kind.name s.instant)
      false [s.kind.payloadSource.relation d] =
        ((db.tableRows Schema.journals).filter fun j => Journal.foundAt db s.kind
          (Journal.intCell (j.cell "entity_id")) s.instant = some (d, j)).map
            Source.lines.relation := by
  apply JoinedSource.added_eq_map
  intro j hj
  obtain ⟨hnames, -, -⟩ := s.kind.takenNames_apart
  have hcell : ∀ c ∈ Schema.journals.columns, (⟨.lines, c⟩ : SourceColumn).cell
      [[s.kind.payloadSource.relation d] ++ [Source.lines.relation j]] = j.cell c.name :=
    fun c hc => SourceColumn.cell_of_find (Env.find_between [s.kind.payloadSource.relation d]
      (Source.lines.relation j) (.cons hnames (.nil _)) (.nil _) Schema.journals_mem hc [])
  have hdata : (⟨s.kind.payloadSource, Schema.idColumn⟩ : SourceColumn).cell
      [[s.kind.payloadSource.relation d] ++ [Source.lines.relation j]] = d.cell "id" :=
    SourceColumn.cell_of_find (Env.find_between [] (s.kind.payloadSource.relation d) (.nil _)
      (.cons (Env.sameName_comm Kind.journalsName _ ▸ hnames) (.nil _)) s.kind.journal_mem
      (Schema.idColumn_mem s.kind.journal_mem) [])
  rw [Bool.eq_iff_iff, beq_iff_eq, decide_eq_true_eq, Clause.truth,
    h.validAt_iff rfl hcell hdata hj hd]

/-- To a line the live row of its entity is joined. -/
theorem added_liveJoined (h : Journal.Regular db) {ss : List Source} (ha : s.Apart ss)
    {us : List Relation} (hus : Env.Covers us ss) (d : Row) {j : Row}
    (hj : j ∈ db.tableRows Schema.journals) :
    JoinedSource.added db [] (s.kind.journables place)
      (.compare .eq ⟨s.kind.journables place, Schema.idColumn⟩
        (.column ⟨.lines, ⟨"entity_id", .integer, false⟩⟩)) false
      (s.kind.payloadSource.relation d :: Source.lines.relation j :: us) =
        ((db.tableRows s.kind.table).filter fun l => l.cell "id" = j.cell "entity_id").map
          (s.kind.journables place).relation := by
  apply JoinedSource.added_eq_map
  intro l hl
  obtain ⟨_, id, version, dataId, time, e⟩ := h.lines j hj
  have hid : (⟨s.kind.journables place, Schema.idColumn⟩ : SourceColumn).cell
      [s.asOfRelations d j l us] = l.cell "id" :=
    SourceColumn.cell_of_find
      (ha.find_journables hus (Schema.idColumn_mem s.kind.table_mem) d j l [])
  have hentity : (⟨.lines, ⟨"entity_id", .integer, false⟩⟩ : SourceColumn).cell
      [s.asOfRelations d j l us] = j.cell "entity_id" :=
    SourceColumn.cell_of_find (ha.find_line hus
      (show (⟨"entity_id", .integer, false⟩ : Column) ∈ _ by decide) d j l [])
  have hrelations : (s.kind.payloadSource.relation d :: Source.lines.relation j :: us) ++
      [(s.kind.journables place).relation l] = s.asOfRelations d j l us := rfl
  rw [hrelations, Clause.truth, Term.cell, hid, hentity,
    (h.sound.fits _ s.kind.table_mem l hl).number, e, Journal.cell_line_entity]
  change ((Cell.int l.id).holds .eq .numeric (.int id) .numeric == some true) = _
  rw [Cell.holds_int, Bool.eq_iff_iff, beq_iff_eq, Option.some.injEq, decide_eq_true_eq,
    decide_eq_true_eq, Cell.int.injEq]

end Added

/-! ## Rows that go together -/

/-- A line that holds with its payload and the live row of its entity, and what the joins of a query
add to them. -/
structure Held where
  payload : Row
  line : Row
  live : Row
  joined : List Relation

namespace Held

/-- The relations of a row of the query on the state. -/
def onState (s : Substitution) (x : Held) : List Relation :=
  s.stateRelations (Journal.stateRow s.kind x.live (Journal.entryOfRows s.kind x.line x.payload))
    x.joined

/-- The relations of a row of the query as of the instant. -/
def asOf (s : Substitution) (x : Held) : List Relation :=
  s.asOfRelations x.payload x.line x.live x.joined

/-- The line holds for the entity of the live row. -/
structure Holds (s : Substitution) (db : Database) (ss : List Source) (x : Held) : Prop where
  live : x.live ∈ db.tableRows s.kind.table
  found : Journal.foundAt db s.kind x.live.id s.instant = some (x.payload, x.line)
  joined : Env.Covers x.joined ss

end Held

section Rows

variable {s : Substitution} {place : Nat} {db : Database} {ss : List Source}

/-- The cells of a row on the state are found in the row as of the instant. -/
theorem Held.Holds.renames {x : Held} (hx : x.Holds s db ss) (h : Journal.Regular db)
    (ha : s.Apart ss) (outer outer' : Env) :
    Env.Renames (SourceColumn.InView (s.kind.liveSource :: ss)) (s.kind.counterpart place)
      (x.onState s :: outer) (x.asOf s :: outer') :=
  ha.renames place hx.joined (fun _ hc => h.cell_stateRow hx.live hx.found hc) outer outer'

/-- The joins of a query add the same rows on the state and as of the instant. -/
theorem extend_mirrored {joins : List JoinedSource} (h : Journal.Regular db)
    (hj : JoinedSource.Each (s.Joins place) [] joins)
    (ha : s.Apart (joins.map JoinedSource.source)) {x : (Row × Row) × Row}
    (hx : x ∈ Journal.liveAt db s.kind s.instant) :
    ∃ ys : List (List Relation),
      JoinedSource.extend db [] joins [[s.kind.liveSource.relation
        (Journal.stateRow s.kind x.2 (Journal.entryOfRows s.kind x.1.2 x.1.1))]] =
          ys.map ([s.kind.liveSource.relation
            (Journal.stateRow s.kind x.2 (Journal.entryOfRows s.kind x.1.2 x.1.1))] ++ ·) ∧
      JoinedSource.extend db [] (joins.map (s.mirrored place))
        [[s.kind.payloadSource.relation x.1.1, Source.lines.relation x.1.2]] =
          ys.map ([s.kind.payloadSource.relation x.1.1, Source.lines.relation x.1.2] ++ ·) ∧
      ∀ us ∈ ys, Env.Covers us (joins.map JoinedSource.source) := by
  obtain ⟨hlive, hfound⟩ := Journal.mem_liveAt.mp hx
  have heach : JoinedSource.Each (fun ts j => JoinedSource.Mirrors db []
      [s.kind.liveSource.relation
        (Journal.stateRow s.kind x.2 (Journal.entryOfRows s.kind x.1.2 x.1.1))]
      [s.kind.payloadSource.relation x.1.1, Source.lines.relation x.1.2] ts j
      (s.mirrored place j)) [] joins := by
    refine hj.imp fun ts j hts hon => ?_
    obtain ⟨source, on, outer⟩ := j
    refine ⟨source.relation_next, source.table_next, rfl, fun rs hrs => ?_⟩
    exact Clause.truth_renamed db on ((ha.of_prefix hts).renames_before place hrs
      (fun _ hc => h.cell_stateRow hlive hfound hc) [] []) hon
  obtain ⟨ys, hpre, hpre', hys⟩ := JoinedSource.extend_prefix (s.mirrored place) heach
    (List.forall_mem_singleton.mpr .nil)
  exact ⟨ys, hpre, hpre', hys⟩

theorem sources_mirrored (joins : List JoinedSource) :
    (joins.map (s.mirrored place)).map JoinedSource.source =
      (joins.map JoinedSource.source).map Source.next := by
  rw [List.map_map, List.map_map]
  exact List.map_congr_left fun j _ => by cases j; rfl

/-- A payload is joined with the line that it belongs to, if this holds. -/
theorem added_lines (h : Journal.Regular db) : ((db.tableRows s.kind.journal).map fun row =>
      [s.kind.payloadSource.relation row]).flatMap (fun r => (JoinedSource.added db [] .lines
        (.validAt .lines s.kind.payloadSource s.kind.name s.instant) false r).map (r ++ [·])) =
      (Journal.heldAt db s.kind s.instant).flatMap fun p =>
        [[s.kind.payloadSource.relation p.1, Source.lines.relation p.2]] := by
  rw [Journal.heldAt, flatMap_filter_product, List.flatMap_map]
  apply List.flatMap_congr
  intro d hd
  rw [added_entryJoined h hd, List.map_map, ← List.map_eq_flatMap]
  rfl

/-- Behind the joins of a query a line is joined with the live row of its entity. -/
theorem added_live {joins : List JoinedSource} (h : Journal.Regular db)
    (ha : s.Apart (joins.map JoinedSource.source)) {p : Row × Row}
    (hp : p ∈ Journal.heldAt db s.kind s.instant) :
    ((JoinedSource.extend db [] (joins.map (s.mirrored place))
        [[s.kind.payloadSource.relation p.1, Source.lines.relation p.2]]).flatMap fun r =>
          (JoinedSource.added db [] (s.kind.journables place)
            (.compare .eq ⟨s.kind.journables place, Schema.idColumn⟩
              (.column ⟨.lines, ⟨"entity_id", .integer, false⟩⟩)) false r).map (r ++ [·])).Perm
      (((db.tableRows s.kind.table).filter fun l => l.cell "id" = p.2.cell "entity_id").flatMap
        fun l => (JoinedSource.extend db [] (joins.map (s.mirrored place))
          [[s.kind.payloadSource.relation p.1, Source.lines.relation p.2]]).map
            (· ++ [(s.kind.journables place).relation l])) := by
  have hj : p.2 ∈ db.tableRows Schema.journals :=
    (List.pair_mem_product.mp (List.mem_filter.mp hp).1).2
  -- the rows come in another order, the live row outermost
  refine List.Perm.trans (.of_eq (List.flatMap_congr fun r hr => ?_)) (flatMap_map_perm _ _ _)
  obtain ⟨us, rfl, hus⟩ := JoinedSource.exists_of_mem_extend
    (fun r hr => ⟨[], by rw [List.append_nil]; exact List.mem_singleton.mp hr, .nil⟩) r hr
  rw [List.nil_append, sources_mirrored, covers_next] at hus
  rw [List.cons_append, List.cons_append, List.nil_append, added_liveJoined h ha hus p.1 hj,
    List.map_map]
  rfl

/-- The rows of the joins as of the instant are those of the live rows with lines that hold. -/
theorem extend_asOf {joins : List JoinedSource} (h : Journal.Regular db)
    (ha : s.Apart (joins.map JoinedSource.source)) :
    (JoinedSource.extend db [] (s.entryJoined :: (joins.map (s.mirrored place) ++
      [s.liveJoined place])) ((db.tableRows s.kind.journal).map fun row =>
        [s.kind.payloadSource.relation row])).Perm
      ((Journal.liveAt db s.kind s.instant).flatMap fun x =>
        (JoinedSource.extend db [] (joins.map (s.mirrored place))
          [[s.kind.payloadSource.relation x.1.1, Source.lines.relation x.1.2]]).map
            (· ++ [(s.kind.journables place).relation x.2])) := by
  unfold entryJoined liveJoined
  rw [JoinedSource.extend_cons, added_lines h, JoinedSource.extend_append, JoinedSource.extend_cons,
    JoinedSource.extend_nil, JoinedSource.extend_flatMap, List.flatMap_assoc]
  have hproduct := flatMap_filter_product (Journal.heldAt db s.kind s.instant)
    (db.tableRows s.kind.table) (fun x => x.2.cell "id" = x.1.2.cell "entity_id") fun x =>
      (JoinedSource.extend db [] (joins.map (s.mirrored place))
        [[s.kind.payloadSource.relation x.1.1, Source.lines.relation x.1.2]]).map
          (· ++ [(s.kind.journables place).relation x.2])
  refine (List.Perm.flatMap_left _ fun p hp => added_live h ha hp).trans ?_
  rw [← hproduct]
  exact (h.perm_liveAt s.kind s.instant).flatMap_right _

/-- A row on the state is kept if it is kept as of the instant. -/
theorem Mirrors.keeps_held {q : Query} {a a' : Select} (hm : s.Mirrors q a a')
    (h : Journal.Regular db) (ha : s.Apart (a.joins.map JoinedSource.source)) {x : Held}
    (hx : x.Holds s db (a.joins.map JoinedSource.source)) :
    a'.keeps db [] (x.asOf s) = a.keeps db [] (x.onState s) := by
  have hconditions := Clause.allResolved_imp (fun x hx => hx.1) a.conditions hm.conditions
  rw [Select.keeps, Select.keeps, hm.conditions',
    Clause.joinedTruth_renamed hconditions _ [x.onState s],
    Clause.truths_renamed db _ (hx.renames h ha [] []) hconditions]

/-- The rows that are kept of one live row. -/
theorem Mirrors.exists_held_of_mem {q : Query} {a a' : Select} (hm : s.Mirrors q a a')
    (h : Journal.Regular db) (ha : s.Apart (a.joins.map JoinedSource.source))
    {x : (Row × Row) × Row} (hx : x ∈ Journal.liveAt db s.kind s.instant) :
    ∃ ys : List Held,
      (JoinedSource.extend db [] a.joins [[s.kind.liveSource.relation
        (Journal.stateRow s.kind x.2 (Journal.entryOfRows s.kind x.1.2 x.1.1))]]).filter
          (a.keeps db []) = ys.map (Held.onState s) ∧
      ((JoinedSource.extend db [] (a.joins.map (s.mirrored (q.joins.length + 2)))
        [[s.kind.payloadSource.relation x.1.1, Source.lines.relation x.1.2]]).map
          (· ++ [(s.kind.journables (q.joins.length + 2)).relation x.2])).filter
            (a'.keeps db []) = ys.map (Held.asOf s) ∧
      ∀ y ∈ ys, y.Holds s db (a.joins.map JoinedSource.source) := by
  obtain ⟨ys, hys, hys', hcovers⟩ := extend_mirrored h hm.joins ha hx
  obtain ⟨hlive, hfound⟩ := Journal.mem_liveAt.mp hx
  have hall : ∀ y ∈ ys.map (Held.mk x.1.1 x.1.2 x.2),
      y.Holds s db (a.joins.map JoinedSource.source) :=
    List.forall_mem_map.mpr fun us hus => ⟨hlive, hfound, hcovers us hus⟩
  refine ⟨(ys.map (Held.mk x.1.1 x.1.2 x.2)).filter fun y => a.keeps db [] (y.onState s),
    ?_, ?_, fun y hy => hall y (List.mem_filter.mp hy).1⟩
  · rw [hys, List.filter_map, List.filter_map, List.map_map]
    rfl
  · rw [hys', List.map_map, ← List.filter_congr fun y hy => hm.keeps_held h ha (hall y hy),
      List.filter_map, List.filter_map, List.map_map]
    rfl

/-- The rows that a query keeps on the state and as of the instant are those of the same lines. -/
theorem Mirrors.exists_held {q : Query} {a a' : Select} (hm : s.Mirrors q a a')
    (h : Journal.Regular db) (ha : s.Apart (a.joins.map JoinedSource.source)) :
    ∃ xs : List Held,
      a.keptOn db [] (Journal.stateAt db s.kind s.instant) = xs.map (Held.onState s) ∧
      (a'.keptOn db [] (db.tableRows s.kind.journal)).Perm
        (xs.map (Held.asOf s)) ∧
      ∀ x ∈ xs, x.Holds s db (a.joins.map JoinedSource.source) := by
  obtain ⟨xs, hxs, hxs', hholds⟩ := exists_flatMap fun x hx => hm.exists_held_of_mem h ha hx
  refine ⟨xs, ?_, ?_, hholds⟩
  · rw [Select.keptOn, h.stateAt_eq, List.map_map, hm.base, List.map_eq_flatMap,
      JoinedSource.extend_flatMap, List.filter_flatMap]
    exact hxs
  · rw [← hxs', Select.keptOn, hm.base', hm.joins', ← List.filter_flatMap]
    exact (extend_asOf h ha).filter _

end Rows

end Substitution

end Chronicle
