import Chronicle.Proofs.AsOf.Rows
import Chronicle.Proofs.Statement.Shared
import Chronicle.Proofs.Statement.Writing
import Chronicle.Proofs.Store.Holding

/-!
# What the store takes as of an instant

The store takes a query as of an instant if it takes the query itself, and refuses it for the same
reason otherwise.

* `Substitution.Mirrors.slots`: the values in both statements;
* `Substitution.Mirrors.check`: the names in both statements;
* `Substitution.Mirrors.checkAll`: whether the store takes them.
-/

namespace Chronicle

open Chronicle.Calendar

/-- Values that can be bound come before others. -/
theorem Slots.values_append (bs : List Bound) (slots : Slots) :
    Slots.values (bs.map some ++ slots) = (Slots.values slots).map (bs ++ ·) := by
  induction bs with
  | nil =>
    rw [List.map_nil, List.nil_append]
    cases Slots.values slots <;> rfl
  | cons b bs ih =>
    unfold Slots.values at ih ⊢
    rw [List.map_cons, List.cons_append, List.mapM_cons, ih]
    generalize List.mapM (m := Except Failure) _ slots = x
    cases x <;> rfl

namespace Substitution

section Mirrors

variable {s : Substitution} {q : Query} {a a' : Select}

/-! ## Texts -/

theorem Mirrors.write_succeeds (hm : s.Mirrors q a a') : Written.Succeeds a.write := by
  refine Select.write_succeeds_of ?_ (Clause.each_write_succeeds _ hm.conditions) ?_
  · intro j hj
    obtain ⟨ss, hon⟩ := hm.joins.exists_of_mem j hj
    exact Clause.write_succeeds j.on hon
  · exact fun o ho => (hm.orders o ho).exists_column

theorem Mirrors.write_succeeds' (hm : s.Mirrors q a a') : Written.Succeeds a'.write := by
  refine Select.write_succeeds_of ?_ ?_ ?_
  · rw [hm.joins', List.forall_mem_cons, List.forall_mem_append, List.forall_mem_map,
      List.forall_mem_singleton]
    refine ⟨writeValidAt_succeeds _ _ _, fun j hj => ?_, ?_⟩
    · obtain ⟨ss, hon⟩ := hm.joins.exists_of_mem j hj
      obtain ⟨source, on, outer⟩ := j
      exact Clause.write_succeeds _ (Clause.resolved_renamed _ on hon)
    · exact Clause.write_succeeds (p := fun _ => True) _ ⟨trivial, trivial⟩
  · rw [hm.conditions']
    exact Clause.each_write_succeeds _ (Clause.allResolved_renamedAll _ _ hm.conditions)
  · rw [hm.orders', List.forall_mem_map]
    intro o ho
    obtain ⟨c, hc⟩ := (hm.orders o ho).exists_column
    exact ⟨_, by rw [hc]; rfl⟩

/-- A query without text has none as of an instant. -/
theorem Mirrors.fragments' (hm : s.Mirrors q a a') : a'.fragments = [] := by
  refine Select.fragments_eq_nil ?_ ?_ ?_
  · rw [hm.joins', List.forall_mem_cons, List.forall_mem_append, List.forall_mem_map,
      List.forall_mem_singleton]
    refine ⟨rfl, fun j hj => ?_, ?_⟩
    · obtain ⟨ss, hon⟩ := hm.joins.exists_of_mem j hj
      obtain ⟨source, on, outer⟩ := j
      exact Clause.fragments_of_resolved _ (Clause.resolved_renamed _ on hon)
    · exact Clause.fragments_of_resolved (p := fun _ => True) _ ⟨trivial, trivial⟩
  · rw [hm.conditions']
    exact Clause.each_fragments_of_resolved _ (Clause.allResolved_renamedAll _ _ hm.conditions)
  · rw [hm.orders', List.forall_mem_map]
    intro o ho
    obtain ⟨c, hc⟩ := (hm.orders o ho).exists_column
    exact ⟨_, by rw [hc]; rfl⟩

/-! ## Values -/

/-- The value that is written for the timestamp. -/
def keySlots (s : Substitution) : List Projection → List Bound
  | [] => [.cell (.text s.timestamp.key)]
  | _ => []

theorem type_of_inView {place : Nat} {ss ss' : List Source} {x : SourceColumn}
    (hx : s.InView place ss ss' x) :
    (s.kind.counterpart place x).column.type = x.column.type :=
  s.kind.type_counterpart place hx.1.column

theorem slots_columns (s : Substitution) (place : Nat) (ps : List Projection)
    (cs : List OutputColumn) : (s.columns place ps cs).filterMap OutputColumn.slot? =
      (s.keySlots ps).map some ++ cs.filterMap OutputColumn.slot? := by
  have hrenamed : (cs.map (OutputColumn.renamed (s.kind.counterpart place))).filterMap
      OutputColumn.slot? = cs.filterMap OutputColumn.slot? := by
    rw [List.filterMap_map]
    exact List.filterMap_congr fun c _ => OutputColumn.slot?_renamed _ c
  match ps with
  | [] =>
    rw [columns, List.filterMap_cons, hrenamed]
    rfl
  | [p] =>
    rw [columns]
    split
    · rw [List.filterMap_map]
      exact List.filterMap_congr fun c _ => by cases c <;> rfl
    · exact hrenamed
  | _ :: _ :: _ => exact hrenamed

/-- Beside the values of the query itself there is at most the key of the timestamp. -/
theorem Mirrors.slots (hm : s.Mirrors q a a') :
    a'.slots = (s.keySlots q.projections).map some ++ a.slots := by
  have horders : (a'.orders.flatMap fun o => o.1.slots) = a.orders.flatMap fun o => o.1.slots := by
    rw [hm.orders', List.flatMap_map]
    exact List.flatMap_congr fun o _ => OrderExpr.slots_renamed _ o.1
  have hjoins : JoinedSource.slots a'.joins = JoinedSource.slots a.joins := by
    rw [JoinedSource.slots_eq, JoinedSource.slots_eq, hm.joins', List.flatMap_cons,
      List.flatMap_append, List.flatMap_map, List.flatMap_singleton]
    have hsame : ∀ j ∈ a.joins, (s.mirrored (q.joins.length + 2) j).on.slots = j.on.slots := by
      intro j hj
      obtain ⟨ss, hon⟩ := hm.joins.exists_of_mem j hj
      obtain ⟨source, on, outer⟩ := j
      exact Clause.slots_renamed on (fun x hx => type_of_inView hx) hon
    rw [List.flatMap_congr hsame]
    exact List.append_nil _
  rw [Select.slots_eq, Select.slots_eq, hm.columns.slots, slots_columns, hjoins, hm.conditions',
    Clause.allSlots_renamed _ (fun x hx => type_of_inView hx) hm.conditions, horders, hm.limit,
    hm.limit']
  simp only [List.append_assoc]

/-! ## Names -/

theorem emptyRelations_next (ss : List Source) :
    emptyRelations (ss.map Source.next) = emptyRelations ss := by
  rw [emptyRelations, List.map_map]
  exact List.map_congr_left fun u _ => congrFun u.relation_next []

/-- The relations of a query as of an instant without rows. -/
theorem emptyRelations_asOf (s : Substitution) (place : Nat) (ss : List Source) :
    emptyRelations (s.kind.payloadSource :: .lines ::
      (ss.map Source.next ++ [s.kind.journables place])) =
        s.asOfRelations [] [] [] (emptyRelations ss) := by
  rw [emptyRelations, List.map_cons, List.map_cons, List.map_append]
  change s.kind.payloadSource.relation [] :: Source.lines.relation [] ::
    (emptyRelations (ss.map Source.next) ++ _) = _
  rw [emptyRelations_next]
  rfl

section Joins

variable {place : Nat} {ss : List Source}

/-- The store takes the join of the line. -/
theorem check_entryJoined (ha : s.Apart ss) (js : List JoinedSource) :
    JoinedSource.check (s.asOfRelations [] [] [] (emptyRelations ss)) [] [s.kind.payloadSource]
      (s.entryJoined :: js) =
        JoinedSource.check (s.asOfRelations [] [] [] (emptyRelations ss)) []
          [s.kind.payloadSource, .lines] js := by
  have hmem : ∀ c, (c ∈ Source.lines.columns ∨ c ∈ s.kind.payloadSource.columns) →
      c.InView (s.kind.payloadSource :: .lines :: [].map Source.next) := by
    rintro c (hc | hc)
    · obtain ⟨column, hcolumn, rfl⟩ := List.mem_map.mp hc
      exact ⟨List.mem_cons_of_mem _ List.mem_cons_self, hcolumn, Schema.journals_mem⟩
    · obtain ⟨column, hcolumn, rfl⟩ := List.mem_map.mp hc
      exact ⟨List.mem_cons_self, hcolumn, s.kind.journal_mem⟩
  have hknown : ∀ {ts : List Source}, s.Apart ts → ∀ c,
      (c ∈ Source.lines.columns ∨ c ∈ s.kind.payloadSource.columns) →
        c.isKnown [s.asOfRelations [] [] [] (emptyRelations ts)] = true := by
    rintro ts hts c (hc | hc)
    · obtain ⟨column, hcolumn, rfl⟩ := List.mem_map.mp hc
      exact SourceColumn.isKnown_of_find
        (hts.find_line (Env.covers_emptyRelations ts) hcolumn [] [] [] [])
    · obtain ⟨column, hcolumn, rfl⟩ := List.mem_map.mp hc
      exact SourceColumn.isKnown_of_find
        (hts.find_payload (Env.covers_emptyRelations ts) hcolumn [] [] [] [])
  have hknown' : ∀ c, (c ∈ Source.lines.columns ∨ c ∈ s.kind.payloadSource.columns) →
      c.isKnown [emptyRelations [s.kind.payloadSource, .lines]] = true := by
    intro c hc
    have hnone := ha.of_prefix (List.nil_prefix)
    have hfind : Env.find [emptyRelations [s.kind.payloadSource, .lines]] (some c.source.name)
        c.column.name = Env.find [s.asOfRelations [] [] [] (emptyRelations [])]
          (some c.source.name) c.column.name :=
      hnone.find_before .nil (hmem c hc) [] [] [] [] []
    rw [← hknown hnone c hc, SourceColumn.isKnown, SourceColumn.isKnown, hfind]
  have htaken : ∀ {rs : List Relation}, (∀ c : SourceColumn, (c ∈ Source.lines.columns ∨
      c ∈ s.kind.payloadSource.columns) → c.isKnown [rs] = true) →
        Clause.check [rs] (.validAt .lines s.kind.payloadSource s.kind.name s.instant) =
          .ok () := by
    intro rs hrs
    rw [Clause.check, List.all_eq_true.mpr fun c hc => hrs c (.inl hc),
      List.all_eq_true.mpr fun c hc => hrs c (.inr (List.mem_filter.mp hc).1)]
    rfl
  rw [entryJoined, JoinedSource.check, List.singleton_append, htaken (hknown ha), htaken hknown']
  rfl

/-- The store takes the join of the live row. -/
theorem check_liveJoined (ha : s.Apart ss) :
    JoinedSource.check (s.asOfRelations [] [] [] (emptyRelations ss)) []
      (s.kind.payloadSource :: .lines :: ss.map Source.next) [s.liveJoined place] = .ok () := by
  have hcovers := Env.covers_emptyRelations ss
  have hid : (⟨s.kind.journables place, Schema.idColumn⟩ : SourceColumn).isKnown
      [s.asOfRelations [] [] [] (emptyRelations ss)] = true :=
    SourceColumn.isKnown_of_find
      (ha.find_journables hcovers (Schema.idColumn_mem s.kind.table_mem) [] [] [] [])
  have hentity : (⟨.lines, ⟨"entity_id", .integer, false⟩⟩ : SourceColumn).isKnown
      [s.asOfRelations [] [] [] (emptyRelations ss)] = true :=
    SourceColumn.isKnown_of_find (ha.find_line hcovers
      (show (⟨"entity_id", .integer, false⟩ : Column) ∈ _ by decide) [] [] [] [])
  rw [liveJoined, JoinedSource.check, List.cons_append, List.cons_append, emptyRelations_asOf,
    Clause.check, hid, hentity]
  rfl

/-- The joins of a query are taken as of the instant if they are taken in the query. -/
theorem check_joins (ha : s.Apart ss) {before : List Source} {js : List JoinedSource}
    (hj : JoinedSource.Each (s.Joins place) before js)
    (hss : before ++ js.map JoinedSource.source = ss) :
    JoinedSource.check (s.asOfRelations [] [] [] (emptyRelations ss)) []
      (s.kind.payloadSource :: .lines :: before.map Source.next)
      (js.map (s.mirrored place) ++ [s.liveJoined place]) =
        JoinedSource.check (s.stateRelations [] (emptyRelations ss)) []
          (s.kind.liveSource :: before) js := by
  induction js generalizing before with
  | nil =>
    rw [List.map_nil, List.append_nil] at hss
    subst hss
    exact check_liveJoined ha
  | cons j js ih =>
    obtain ⟨source, on, outer⟩ := j
    have hafter : (before ++ [source]) ++ js.map JoinedSource.source = ss := by
      rw [List.append_assoc]
      exact hss
    have hprefix : before ++ [source] <+: ss := hafter ▸ List.prefix_append _ _
    have hon : on.Resolved
        (s.InView place (before ++ [source]) ((before ++ [source]).map Source.next)) := hj.1
    have hnext : JoinedSource.Each (s.Joins place) (before ++ [source]) js := hj.2
    have hall := Clause.check_renamed on (fun x hx => ha.isKnown_counterpart place
      (Env.covers_emptyRelations ss) (hx.1.mono (List.cons_subset_cons _ hprefix.subset))
        [] [] [] [] [] []) hon
    have hbefore := Clause.check_renamed on (fun x hx => (ha.of_prefix hprefix).isKnown_before place
      (Env.covers_emptyRelations (before ++ [source])) hx [] [] [] [] []) hon
    have hsources : emptyRelations ((s.kind.payloadSource :: .lines :: before.map Source.next) ++
        [source.next]) = s.kind.payloadSource.relation [] :: Source.lines.relation [] ::
          emptyRelations (before ++ [source]) := by
      rw [← emptyRelations_next (before ++ [source]), List.map_append]
      rfl
    rw [List.map_cons, List.cons_append, mirrored, JoinedSource.check, JoinedSource.check,
      Clause.isBlank_renamed, hall, hsources, hbefore]
    have hbefore' : (s.kind.payloadSource :: .lines :: before.map Source.next) ++ [source.next] =
        s.kind.payloadSource :: .lines :: (before ++ [source]).map Source.next := by
      rw [List.map_append]
      rfl
    rw [hbefore', ih hnext hafter]
    rfl

end Joins

/-- The columns of an answer are known if their counterparts are. -/
theorem all_isKnown_columns {env env' : Env} {p : SourceColumn → Prop} {place : Nat}
    (h : ∀ x, p x → (s.kind.counterpart place x).isKnown env' = x.isKnown env)
    {cs cs' : List OutputColumn} (hcs : ∀ c ∈ cs, c.Resolved p) (ps : List Projection)
    (hcs' : OutputColumn.Rearranged cs' (s.columns place ps cs)) :
    cs'.all (·.isKnown env') = cs.all (·.isKnown env) := by
  have hnamed : cs'.all (·.isKnown env') = (s.columns place ps cs).all (·.isKnown env') := by
    rw [← hcs'.perm.all_eq, List.all_map]
    congr 1
    funext c
    cases c <;> rfl
  have hmapped : ∀ g : OutputColumn → OutputColumn,
      (∀ c ∈ cs, (g c).isKnown env' = c.isKnown env) →
        (cs.map g).all (·.isKnown env') = cs.all (·.isKnown env) := by
    intro g hg
    rw [List.all_map, Bool.eq_iff_iff, List.all_eq_true, List.all_eq_true]
    exact forall₂_congr fun c hc => by rw [Function.comp, hg c hc]
  have hrenamed : ∀ c ∈ cs,
      (c.renamed (s.kind.counterpart place)).isKnown env' = c.isKnown env := by
    intro c hc
    have hresolved := hcs c hc
    cases c with
    | column x label => exact h x hresolved
    | constant v label => rfl
  rw [hnamed]
  match ps with
  | [] =>
    rw [columns, List.all_cons, hmapped _ hrenamed]
    rfl
  | [p] =>
    rw [columns]
    split
    · refine hmapped _ fun c hc => ?_
      have hsame := hrenamed c hc
      cases c <;> exact hsame
    · exact hmapped _ hrenamed
  | _ :: _ :: _ => exact hmapped _ hrenamed

/-- The names in a query as of an instant mean something if those in the query do. -/
theorem Mirrors.check (hm : s.Mirrors q a a') (ha : s.Apart (a.joins.map JoinedSource.source)) :
    a'.check [] = a.check [] := by
  have hsources : emptyRelations a.sources =
      s.stateRelations [] (emptyRelations (a.joins.map JoinedSource.source)) := by
    rw [Select.sources, hm.base]
    rfl
  have hsources' : emptyRelations a'.sources =
      s.asOfRelations [] [] [] (emptyRelations (a.joins.map JoinedSource.source)) := by
    rw [← emptyRelations_asOf s (q.joins.length + 2), Select.sources, hm.base', hm.joins',
      List.map_cons, List.map_append, sources_mirrored]
    rfl
  have hknown : ∀ x : SourceColumn, x.InView (s.kind.liveSource ::
      a.joins.map JoinedSource.source) →
        (s.kind.counterpart (q.joins.length + 2) x).isKnown [emptyRelations a'.sources] =
          x.isKnown [emptyRelations a.sources] := by
    intro x hx
    rw [hsources, hsources']
    exact ha.isKnown_counterpart _ (Env.covers_emptyRelations _) hx [] [] [] [] [] []
  have hjoins : JoinedSource.check (emptyRelations a'.sources) [] [a'.base] a'.joins =
      JoinedSource.check (emptyRelations a.sources) [] [a.base] a.joins := by
    rw [hsources, hsources', hm.base, hm.base', hm.joins', check_entryJoined ha]
    exact check_joins ha hm.joins (List.nil_append _)
  have hview := Clause.allResolved_imp (fun x hx => hx.1) a.conditions hm.conditions
  have hresolved' : Clause.AllResolved (fun _ => True) a'.conditions := by
    rw [hm.conditions']
    exact Clause.allResolved_renamedAll _ _ hm.conditions
  rw [Select.check_eq, Select.check_eq, hjoins, checkJoined_of_resolved hview,
    checkJoined_of_resolved hresolved', all_isKnown_columns hknown hm.shown _ hm.columns,
    hm.conditions', Clause.checkAll_renamed _ hknown hview, hm.orders',
    OrderExpr.forM_check_renamed hknown hm.orders]

/-- The store takes a query as of an instant if it takes the query. -/
theorem Mirrors.checkAll (hm : s.Mirrors q a a')
    (ha : s.Apart (a.joins.map JoinedSource.source)) : a'.checkAll = a.checkAll := by
  obtain ⟨x, hx⟩ := Select.render_of_succeeds hm.write_succeeds
  obtain ⟨x', hx'⟩ := Select.render_of_succeeds hm.write_succeeds'
  have hcells : ∀ b ∈ s.keySlots q.projections, ∃ c, b = .cell c := by
    unfold keySlots
    split
    · exact List.forall_mem_singleton.mpr ⟨_, rfl⟩
    · exact fun _ hb => nomatch hb
  unfold Select.checkAll
  rw [hx, hx', hm.slots, Slots.values_append, hm.check ha]
  cases a.slots.values with
  | error f => rfl
  | ok bs =>
    change (do
      Bound.check ((s.keySlots q.projections ++ bs).filter _)
      a.check []
      Bound.check (s.keySlots q.projections ++ bs) : Except Failure Unit) = _
    rw [List.filter_append, Bound.check_append hcells,
      Bound.check_append fun c hc => hcells c (List.mem_filter.mp hc).1]
    rfl

end Mirrors

end Substitution

end Chronicle
