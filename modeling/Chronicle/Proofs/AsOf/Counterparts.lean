import Chronicle.Proofs.AsOf.Substitution

/-!
# Names as of an instant

Where no join of a query has a name like that of the live table, or like those of the relations that
are added, a column of the query and its counterpart lead to the same cell.

* `Substitution.Apart`: the names of joins are unlike those;
* `Substitution.cellOf`: where the cells of the live table are found as of an instant;
* `Substitution.Apart.find_live`, `Substitution.Apart.find_counterpart`: the cells of a column of the
  live table and of its counterpart;
* `Substitution.Apart.find_other`: any other column and its counterpart;
* `Substitution.Apart.renames`, `Substitution.Apart.isKnown_counterpart`: what follows for conditions;
* `Substitution.Apart.renames_before`, `Substitution.Apart.isKnown_before`: the same among the joins.
-/

namespace Chronicle

/-- No two of the relations that are added have names that are alike. -/
theorem Kind.takenNames_apart (k : Kind) : Env.sameName k.journal.name journalsName = false ∧
    Env.sameName k.journal.name journablesAlias = false ∧
      Env.sameName journalsName journablesAlias = false := by
  cases k <;> decide +kernel

/-- What a payload has no attribute for is the number and the two times. -/
theorem Kind.mem_journal_columns (k : Kind) {c : Column} (hc : c ∈ k.table.columns)
    (hid : c.name ≠ "id") (hcreated : c.name ≠ "created_at") (hupdated : c.name ≠ "updated_at") :
    c ∈ k.journal.columns := by
  have hall : ∀ k ∈ all, ∀ c ∈ k.table.columns, c.name ≠ "id" → c.name ≠ "created_at" →
      c.name ≠ "updated_at" → c ∈ k.journal.columns := by decide
  exact hall k k.mem_all c hc hid hcreated hupdated

namespace Substitution

/-! ## Relations -/

/-- The relations of a row of a query whose base has a given row. -/
def stateRelations (s : Substitution) (r : Row) (us : List Relation) : List Relation :=
  s.kind.liveSource.relation r :: us

/-- The relations of a row as of the instant: a payload, its line, those of the joins, and a live
row. -/
def asOfRelations (s : Substitution) (d j l : Row) (us : List Relation) : List Relation :=
  s.kind.payloadSource.relation d :: Source.lines.relation j ::
    (us ++ [⟨Kind.journablesAlias, s.kind.table, l⟩])

/-- The cell that the live table has as of the instant. -/
def cellOf (d j l : Row) (name : String) : Cell :=
  if name = "id" then j.cell "entity_id"
  else if name = "created_at" then l.cell "created_at"
  else if name = "updated_at" then j.cell "recorded_at"
  else d.cell name

/-- No name of a relation is like that of the live table or of a relation that is added. -/
def Apart (s : Substitution) (ss : List Source) : Prop :=
  ∀ u ∈ ss, ∀ name ∈ s.kind.table.name :: s.kind.takenNames, Env.sameName u.name name = false

theorem covers_next {us : List Relation} {ss : List Source} :
    Env.Covers us (ss.map Source.next) ↔ Env.Covers us ss := by
  unfold Env.Covers
  simp only [List.map_map, Function.comp_def, Source.name_next, Source.table_next]

namespace Apart

variable {s : Substitution} {place : Nat} {ss ss' : List Source} {us : List Relation}

theorem of_prefix {ts : List Source} (ha : s.Apart ss) (hts : ts <+: ss) : s.Apart ts :=
  fun u hu => ha u (hts.subset hu)

theorem without (ha : s.Apart ss) (hus : Env.Covers us ss) (name : String)
    (h : name ∈ s.kind.table.name :: s.kind.takenNames) : Env.Without name us :=
  hus.without fun u hu => ha u hu name h

/-! ## Columns of the live table -/

theorem find_live (ha : s.Apart ss) (hus : Env.Covers us ss) {c : SourceColumn}
    (hs : c.source = s.kind.liveSource) (hc : c.column ∈ s.kind.table.columns) (r : Row)
    (outer : Env) :
    Env.find (s.stateRelations r us :: outer) (some c.source.name) c.column.name =
      .found c.column (r.cell c.column.name) := by
  rw [hs]
  exact Env.find_between [] (s.kind.liveSource.relation r) (.nil _)
    (ha.without hus _ List.mem_cons_self) s.kind.table_mem hc outer

theorem find_payload (ha : s.Apart ss) (hus : Env.Covers us ss) {c : Column}
    (hc : c ∈ s.kind.journal.columns) (d j l : Row) (outer : Env) :
    Env.find (s.asOfRelations d j l us :: outer) (some s.kind.journal.name) c.name =
      .found c (d.cell c.name) := by
  obtain ⟨hlines, hlive, -⟩ := s.kind.takenNames_apart
  have hjoined := ha.without hus s.kind.journal.name (by simp [Kind.takenNames])
  refine Env.find_between [] (s.kind.payloadSource.relation d) (.nil _) ?_ s.kind.journal_mem hc
    outer
  exact .cons ((Env.sameName_comm _ _).trans hlines)
    (hjoined.append (.cons ((Env.sameName_comm _ _).trans hlive) (.nil _)))

theorem find_line (ha : s.Apart ss) (hus : Env.Covers us ss) {c : Column}
    (hc : c ∈ Schema.journals.columns) (d j l : Row) (outer : Env) :
    Env.find (s.asOfRelations d j l us :: outer) (some Kind.journalsName) c.name =
      .found c (j.cell c.name) := by
  obtain ⟨hpayload, -, hlive⟩ := s.kind.takenNames_apart
  have hjoined := ha.without hus Kind.journalsName (by simp [Kind.takenNames])
  exact Env.find_between [s.kind.payloadSource.relation d] (Source.lines.relation j)
    (.cons hpayload (.nil _))
    (hjoined.append (.cons ((Env.sameName_comm _ _).trans hlive) (.nil _)))
    Schema.journals_mem hc outer

theorem find_journables (ha : s.Apart ss) (hus : Env.Covers us ss) {c : Column}
    (hc : c ∈ s.kind.table.columns) (d j l : Row) (outer : Env) :
    Env.find (s.asOfRelations d j l us :: outer) (some Kind.journablesAlias) c.name =
      .found c (l.cell c.name) := by
  obtain ⟨-, hpayload, hlines⟩ := s.kind.takenNames_apart
  have hjoined := ha.without hus Kind.journablesAlias (by simp [Kind.takenNames])
  exact Env.find_between (s.kind.payloadSource.relation d :: Source.lines.relation j :: us)
    ⟨Kind.journablesAlias, s.kind.table, l⟩
    (.cons hpayload (.cons hlines hjoined)) (.nil _) s.kind.table_mem hc outer

/-- The counterpart of a column of the live table has the cell that the live table has as of the
instant. -/
theorem find_counterpart (ha : s.Apart ss) (hus : Env.Covers us ss) {c : SourceColumn}
    (hs : c.source = s.kind.liveSource) (hc : c.column ∈ s.kind.table.columns) (d j l : Row)
    (outer : Env) :
    Env.find (s.asOfRelations d j l us :: outer) (some (s.kind.counterpart place c).source.name)
      (s.kind.counterpart place c).column.name =
        .found (s.kind.counterpart place c).column (cellOf d j l c.column.name) := by
  unfold Kind.counterpart cellOf
  rw [if_pos hs]
  by_cases hid : c.column.name = "id"
  · rw [if_pos hid, if_pos hid]
    exact ha.find_line hus (show (⟨"entity_id", .integer, false⟩ : Column) ∈ _ by decide) d j l outer
  · rw [if_neg hid, if_neg hid]
    by_cases hcreated : c.column.name = "created_at"
    · rw [if_pos hcreated, if_pos hcreated, ← hcreated]
      exact ha.find_journables hus hc d j l outer
    · rw [if_neg hcreated, if_neg hcreated]
      by_cases hupdated : c.column.name = "updated_at"
      · rw [if_pos hupdated, if_pos hupdated]
        exact ha.find_line hus (show (⟨"recorded_at", .instant, false⟩ : Column) ∈ _ by decide)
          d j l outer
      · rw [if_neg hupdated, if_neg hupdated]
        exact ha.find_payload hus (s.kind.mem_journal_columns hc hid hcreated hupdated) d j l outer

/-! ## Other columns -/

/-- A column that is not of the live table has the cell of its counterpart. -/
theorem find_other (ha : s.Apart ss) (hus : Env.Covers us ss) {c : SourceColumn}
    (hs : c.source ≠ s.kind.liveSource) (hc : c.InView (s.kind.liveSource :: ss)) (r d j l : Row)
    (outer outer' : Env) :
    Env.find (s.asOfRelations d j l us :: outer') (some (s.kind.counterpart place c).source.name)
      (s.kind.counterpart place c).column.name =
        Env.find (s.stateRelations r us :: outer) (some c.source.name) c.column.name := by
  have hmem : c.source ∈ ss := (List.mem_cons.mp hc.source).resolve_left hs
  have hunlike : ∀ name ∈ s.kind.table.name :: s.kind.takenNames,
      Env.sameName name c.source.name = false := fun name hname =>
    (Env.sameName_comm _ _).trans (ha c.source hmem name hname)
  have hlive : Env.Without c.source.name [s.kind.liveSource.relation r] :=
    .cons (hunlike _ List.mem_cons_self) (.nil _)
  have hhead : Env.Without c.source.name
      [s.kind.payloadSource.relation d, Source.lines.relation j] :=
    .cons (hunlike _ (by simp [Kind.takenNames, Kind.payloadSource, Source.relation, Source.name]))
      (.cons (hunlike Kind.journalsName (by simp [Kind.takenNames])) (.nil _))
  have htail : Env.Without c.source.name [⟨Kind.journablesAlias, s.kind.table, l⟩] :=
    .cons (hunlike _ (by simp [Kind.takenNames])) (.nil _)
  have hstate : Env.candidates (s.stateRelations r us) (some c.source.name) c.column.name =
      Env.candidates us (some c.source.name) c.column.name := by
    rw [stateRelations, ← List.singleton_append, Env.candidates_append, hlive.candidates_eq_nil,
      List.nil_append]
  have hasOf : Env.candidates (s.asOfRelations d j l us) (some c.source.name) c.column.name =
      Env.candidates us (some c.source.name) c.column.name := by
    have happend : s.asOfRelations d j l us =
        [s.kind.payloadSource.relation d, Source.lines.relation j] ++
          (us ++ [⟨Kind.journablesAlias, s.kind.table, l⟩]) := rfl
    rw [happend, Env.candidates_append, Env.candidates_append, hhead.candidates_eq_nil,
      htail.candidates_eq_nil, List.nil_append, List.append_nil]
  rw [Kind.counterpart_of_ne hs, Source.name_next]
  refine Env.find_congr (hasOf.trans hstate.symm) ?_ outer' outer
  rw [hasOf]
  exact SourceColumn.candidates_ne_nil hus ⟨hmem, hc.column, hc.table⟩

/-! ## Columns and conditions -/

variable (place)

/-- A column is known if its counterpart is. -/
theorem isKnown_counterpart (ha : s.Apart ss) (hus : Env.Covers us ss) {c : SourceColumn}
    (hc : c.InView (s.kind.liveSource :: ss)) (r d j l : Row) (outer outer' : Env) :
    (s.kind.counterpart place c).isKnown (s.asOfRelations d j l us :: outer') =
      c.isKnown (s.stateRelations r us :: outer) := by
  by_cases hs : c.source = s.kind.liveSource
  · have hcolumn : c.column ∈ s.kind.table.columns := by
      have hmem := hc.column
      rw [hs] at hmem
      exact hmem
    rw [SourceColumn.isKnown_of_find (ha.find_counterpart hus hs hcolumn d j l outer'),
      SourceColumn.isKnown_of_find (ha.find_live hus hs hcolumn r outer)]
  · rw [SourceColumn.isKnown, SourceColumn.isKnown, ha.find_other hus hs hc r d j l outer outer']

/-- A base that has the cells of the live table as of the instant is read through counterparts. -/
theorem renames (ha : s.Apart ss) (hus : Env.Covers us ss) {r d j l : Row}
    (hr : ∀ c ∈ s.kind.table.columns, r.cell c.name = cellOf d j l c.name) (outer outer' : Env) :
    Env.Renames (SourceColumn.InView (s.kind.liveSource :: ss)) (s.kind.counterpart place)
      (s.stateRelations r us :: outer) (s.asOfRelations d j l us :: outer') where
  type c hc := s.kind.type_counterpart place hc.column
  cell c hc := by
    by_cases hs : c.source = s.kind.liveSource
    · have hcolumn : c.column ∈ s.kind.table.columns := by
        have hmem := hc.column
        rw [hs] at hmem
        exact hmem
      rw [SourceColumn.cell_of_find (ha.find_counterpart hus hs hcolumn d j l outer'),
        SourceColumn.cell_of_find (ha.find_live hus hs hcolumn r outer), hr _ hcolumn]
    · rw [SourceColumn.cell, SourceColumn.cell, ha.find_other hus hs hc r d j l outer outer']

/-- Until the live row is joined, nothing refers to it. -/
theorem find_before (ha : s.Apart ss) (hus : Env.Covers us ss) {c : SourceColumn}
    (hc : c.InView (s.kind.payloadSource :: .lines :: ss.map Source.next)) (d j l : Row)
    (outer outer' : Env) :
    Env.find ((s.kind.payloadSource.relation d :: Source.lines.relation j :: us) :: outer')
      (some c.source.name) c.column.name =
        Env.find (s.asOfRelations d j l us :: outer) (some c.source.name) c.column.name := by
  obtain ⟨-, hpayload, hlines⟩ := s.kind.takenNames_apart
  have hunlike : Env.sameName Kind.journablesAlias c.source.name = false := by
    rw [Env.sameName_comm]
    rcases List.mem_cons.mp hc.source with e | hmem
    · rw [e]
      exact hpayload
    · rcases List.mem_cons.mp hmem with e | hmem
      · rw [e]
        exact hlines
      · obtain ⟨u, hu, e⟩ := List.mem_map.mp hmem
        rw [← e, Source.name_next]
        exact ha u hu _ (by simp [Kind.takenNames])
  have hlive : Env.Without c.source.name [⟨Kind.journablesAlias, s.kind.table, l⟩] :=
    .cons hunlike (.nil _)
  have hcovers : Env.Covers (s.kind.payloadSource.relation d :: Source.lines.relation j :: us)
      (s.kind.payloadSource :: .lines :: ss.map Source.next) :=
    ((Env.Covers.relation s.kind.payloadSource d).append (.relation .lines j)).append
      (covers_next.mpr hus)
  refine Env.find_congr ?_ (SourceColumn.candidates_ne_nil hcovers hc) outer' outer
  have happend : s.asOfRelations d j l us =
      (s.kind.payloadSource.relation d :: Source.lines.relation j :: us) ++
        [⟨Kind.journablesAlias, s.kind.table, l⟩] := rfl
  rw [happend, Env.candidates_append _ [_], hlive.candidates_eq_nil, List.append_nil]

theorem renames_before (ha : s.Apart ss) (hus : Env.Covers us ss) {r d j l : Row}
    (hr : ∀ c ∈ s.kind.table.columns, r.cell c.name = cellOf d j l c.name) (outer outer' : Env) :
    Env.Renames (s.InView place ss (ss.map Source.next)) (s.kind.counterpart place)
      (s.stateRelations r us :: outer)
      ((s.kind.payloadSource.relation d :: Source.lines.relation j :: us) :: outer') where
  type c hc := s.kind.type_counterpart place hc.1.column
  cell c hc := by
    have hcell := (ha.renames place hus hr outer outer').cell c hc.1
    rw [← hcell, SourceColumn.cell, SourceColumn.cell,
      ha.find_before hus hc.2 d j l outer' outer']

theorem isKnown_before (ha : s.Apart ss) (hus : Env.Covers us ss) {c : SourceColumn}
    (hc : s.InView place ss (ss.map Source.next) c) (r d j : Row) (outer outer' : Env) :
    (s.kind.counterpart place c).isKnown
      ((s.kind.payloadSource.relation d :: Source.lines.relation j :: us) :: outer') =
        c.isKnown (s.stateRelations r us :: outer) := by
  rw [← ha.isKnown_counterpart place hus hc.1 r d j [] outer outer', SourceColumn.isKnown,
    SourceColumn.isKnown, ha.find_before hus hc.2 d j [] outer' outer']

end Apart

end Substitution

end Chronicle
