import Mathlib.Data.List.Flatten
import Chronicle.Store.Answer

/-!
# Names in statements that run

Where no other relation of a statement can be taken for that of a column, the name of the column
leads to the cell of its own row.  Where a statement has a relation of a name at all, it does not
look for the name in the statements around it.

* `Env.Without`: relations that cannot be taken for one of a name;
* `Env.Covers`: relations with the names and tables of some sources;
* `Env.find_between`: the cell that a column has in a row;
* `SourceColumn.cell_outer`, `SourceColumn.isKnown_outer`: what does not depend on the statements
  around.
-/

namespace Chronicle

/-! ## Relations by name -/

namespace Env

theorem sameName_self (a : String) : sameName a a = true := beq_self_eq_true _

theorem sameName_comm (a b : String) : sameName a b = sameName b a := by
  unfold sameName
  exact BEq.comm

theorem sameName_iff {a b : String} : sameName a b = true ↔
    a.toList.map Char.toLower = b.toList.map Char.toLower := by
  have lower : ∀ s : String, s.toLower.toList = s.toList.map Char.toLower := fun s => String.toList_map
  rw [sameName, beq_iff_eq, ← String.toList_inj, lower, lower]

/-- Relations none of which is taken for one of a given name. -/
def Without (name : String) (rs : List Relation) : Prop :=
  ∀ r ∈ rs, sameName r.name name = false

/-- Relations with the names and the tables of some sources, in their order. -/
def Covers (rs : List Relation) (ss : List Source) : Prop :=
  rs.map (fun r => (r.name, r.table)) = ss.map fun s => (s.name, s.table)

theorem Covers.nil : Covers [] [] := rfl

theorem Covers.append {rs rs' : List Relation} {ss ss' : List Source} (h : Covers rs ss)
    (h' : Covers rs' ss') : Covers (rs ++ rs') (ss ++ ss') := by
  unfold Covers at *
  rw [List.map_append, List.map_append, h, h']

theorem Covers.relation (s : Source) (row : Row) : Covers [s.relation row] [s] := rfl

theorem covers_emptyRelations (ss : List Source) : Covers (emptyRelations ss) ss := by
  simp [Covers, emptyRelations, Source.relation]

theorem Covers.exists_mem {rs : List Relation} {ss : List Source} (h : Covers rs ss) {s : Source}
    (hs : s ∈ ss) : ∃ r ∈ rs, r.name = s.name ∧ r.table = s.table := by
  have hm : (s.name, s.table) ∈ rs.map fun r => (r.name, r.table) :=
    h ▸ List.mem_map_of_mem hs
  obtain ⟨r, hr, e⟩ := List.mem_map.mp hm
  exact ⟨r, hr, (Prod.mk.inj e).1, (Prod.mk.inj e).2⟩

theorem Without.nil (name : String) : Without name [] := fun _ hr => nomatch hr

theorem Without.cons {name : String} {r : Relation} {rs : List Relation}
    (hr : sameName r.name name = false) (h : Without name rs) : Without name (r :: rs) :=
  List.forall_mem_cons.mpr ⟨hr, h⟩

theorem Without.append {name : String} {rs rs' : List Relation} (h : Without name rs)
    (h' : Without name rs') : Without name (rs ++ rs') := List.forall_mem_append.mpr ⟨h, h'⟩

theorem Covers.without {rs : List Relation} {ss : List Source} (h : Covers rs ss) {name : String}
    (hs : ∀ s ∈ ss, sameName s.name name = false) : Without name rs := by
  intro r hr
  have hm : (r.name, r.table) ∈ ss.map fun s => (s.name, s.table) :=
    h ▸ List.mem_map_of_mem (f := fun r : Relation => (r.name, r.table)) hr
  obtain ⟨s, hs', e⟩ := List.mem_map.mp hm
  exact (Prod.mk.inj e).1 ▸ hs s hs'

theorem candidates_append (rs rs' : List Relation) (relation : Option String) (column : String) :
    candidates (rs ++ rs') relation column =
      candidates rs relation column ++ candidates rs' relation column := List.flatMap_append

theorem Without.candidates_eq_nil {name : String} {rs : List Relation} (h : Without name rs)
    (column : String) : candidates rs (some name) column = [] := by
  rw [candidates, List.flatMap_eq_nil_iff]
  intro r hr
  rw [Option.all_some, h r hr, if_neg Bool.false_ne_true]

theorem mem_candidates {rs : List Relation} {r : Relation} (hr : r ∈ rs) {relation : Option String}
    (hname : relation.all (sameName r.name) = true) {c : Column} (hc : c ∈ r.table.columns) :
    (c, r.row.cell c.name) ∈ candidates rs relation c.name := by
  rw [candidates, List.mem_flatMap]
  refine ⟨r, hr, ?_⟩
  rw [hname, if_pos rfl]
  exact List.mem_map.mpr ⟨c, List.mem_filter.mpr ⟨hc, sameName_self _⟩, rfl⟩

/-- A column of two relations that are taken for one another is not told apart. -/
theorem find_of_alike {rs : List Relation} (r r' : Relation) (hrs : [r, r'].Sublist rs)
    {name : String} (hr : sameName r.name name = true) (hr' : sameName r'.name name = true)
    {c : Column} (hc : c ∈ r.table.columns) (hc' : c ∈ r'.table.columns) (outer : Env) :
    find (rs :: outer) (some name) c.name = .ambiguous := by
  have hall : (some name).all (sameName r.name) = true := hr
  have hall' : (some name).all (sameName r'.name) = true := hr'
  have hpos := List.length_pos_of_mem (mem_candidates (List.mem_singleton_self r) hall hc)
  have hpos' := List.length_pos_of_mem (mem_candidates (List.mem_singleton_self r') hall' hc')
  have hlength : (candidates [r, r'] (some name) c.name).length ≤
      (candidates rs (some name) c.name).length := (hrs.flatMap _).length_le
  rw [← List.singleton_append, candidates_append, List.length_append] at hlength
  unfold find
  split
  · next h => simp only [h, List.length_nil] at hlength; omega
  · next h => simp only [h, List.length_singleton] at hlength; omega
  · rfl

/-- The columns of one name are those of one relation where no other is taken for it. -/
theorem candidates_between {pre post : List Relation} {r : Relation} (hpre : Without r.name pre)
    (hpost : Without r.name post) (column : String) :
    candidates (pre ++ r :: post) (some r.name) column =
      (r.table.columns.filter fun c => sameName c.name column).map fun c =>
        (c, r.row.cell c.name) := by
  rw [candidates_append, hpre.candidates_eq_nil, List.nil_append, ← List.singleton_append,
    candidates_append, hpost.candidates_eq_nil, List.append_nil, candidates,
    List.flatMap_singleton, Option.all_some, sameName_self, if_pos rfl]

/-- What is found where something is found at all is not looked for around a statement. -/
theorem find_congr {rs rs' : List Relation} {relation : Option String} {column : String}
    (h : candidates rs relation column = candidates rs' relation column)
    (hne : candidates rs relation column ≠ []) (outer outer' : Env) :
    find (rs :: outer) relation column = find (rs' :: outer') relation column := by
  unfold find
  rw [← h]
  split
  · contradiction
  · rfl
  · rfl

end Env

namespace Schema

theorem filter_sameName {t : Table} (ht : t ∈ tables) {c : Column} (hc : c ∈ t.columns) :
    (t.columns.filter fun d => Env.sameName d.name c.name) = [c] := by
  have all : ∀ t ∈ tables, ∀ c ∈ t.columns,
      (t.columns.filter fun d => Env.sameName d.name c.name) = [c] := by decide +kernel
  exact all t ht c hc

end Schema

/-- A column of a relation that no other is taken for has the cell of its row. -/
theorem Env.find_between (pre : List Relation) (r : Relation) {post : List Relation}
    (hpre : Without r.name pre) (hpost : Without r.name post) (ht : r.table ∈ Schema.tables) {c : Column}
    (hc : c ∈ r.table.columns) (outer : Env) :
    find ((pre ++ r :: post) :: outer) (some r.name) c.name = .found c (r.row.cell c.name) := by
  have hcandidates : candidates (pre ++ r :: post) (some r.name) c.name =
      [(c, r.row.cell c.name)] := by
    rw [candidates_between hpre hpost, Schema.filter_sameName ht hc]
    rfl
  rw [find, hcandidates]

/-! ## Columns -/

namespace SourceColumn

/-- A column of one of some sources. -/
structure InView (ss : List Source) (c : SourceColumn) : Prop where
  source : c.source ∈ ss
  column : c.column ∈ c.source.table.columns
  table : c.source.table ∈ Schema.tables

theorem InView.mono {ss ss' : List Source} {c : SourceColumn} (h : c.InView ss) (hs : ss ⊆ ss') :
    c.InView ss' := ⟨hs h.source, h.column, h.table⟩

theorem cell_of_find {env : Env} {c : SourceColumn} {d : Column} {x : Cell}
    (h : env.find (some c.source.name) c.column.name = .found d x) : c.cell env = x := by
  rw [cell, h]

theorem isKnown_of_find {env : Env} {c : SourceColumn} {d : Column} {x : Cell}
    (h : env.find (some c.source.name) c.column.name = .found d x) : c.isKnown env = true := by
  rw [isKnown, h]

section Outer

variable {rs : List Relation} {ss : List Source} {c : SourceColumn}

theorem candidates_ne_nil (hrs : Env.Covers rs ss) (h : c.InView ss) :
    Env.candidates rs (some c.source.name) c.column.name ≠ [] := by
  obtain ⟨r, hr, hname, htable⟩ := hrs.exists_mem h.source
  exact List.ne_nil_of_mem
    (Env.mem_candidates hr (hname ▸ Env.sameName_self _) (htable ▸ h.column))

/-- What a column in view is does not depend on the statements around. -/
theorem cell_outer (hrs : Env.Covers rs ss) (h : c.InView ss) (outer outer' : Env) :
    c.cell (rs :: outer) = c.cell (rs :: outer') := by
  rw [cell, cell, Env.find_congr rfl (candidates_ne_nil hrs h) outer outer']

theorem isKnown_outer (hrs : Env.Covers rs ss) (h : c.InView ss) (outer outer' : Env) :
    c.isKnown (rs :: outer) = c.isKnown (rs :: outer') := by
  rw [isKnown, isKnown, Env.find_congr rfl (candidates_ne_nil hrs h) outer outer']

end Outer

end SourceColumn

end Chronicle
