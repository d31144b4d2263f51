import Chronicle.Proofs.Statement.Joins
import Chronicle.Proofs.Statement.Resolved
import Chronicle.Statement.Compile

/-!
# Conditions with other columns

A condition keeps its truth when its columns are replaced by others with the same cells.  With the
same columns in it, this says that a subquery does not depend on the statement around it.

* `Env.Renames`: other columns with the types and the cells of some columns;
* `Clause.renamed`: a condition with other columns, its subqueries left as they are;
* `Clause.truth_renamed`: the truth of such a condition;
* `Select.matchingOn_outer`: the rows of a subquery;
* `Clause.check_renamed`, `Select.check_outer`: whether the store takes them.
-/

namespace Chronicle

open Chronicle.Calendar

/-! ## Other columns -/

namespace Term

def renamed (f : SourceColumn → SourceColumn) : Term → Term
  | column c => column (f c)
  | t => t

theorem renamed_id (t : Term) : t.renamed id = t := by cases t <;> rfl

end Term

namespace OrderExpr

def renamed (f : SourceColumn → SourceColumn) : OrderExpr → OrderExpr
  | column c => column (f c)
  | raw r => raw r

theorem renamed_id (e : OrderExpr) : e.renamed id = e := by cases e <;> rfl

end OrderExpr

mutual

/-- A condition with other columns; subqueries keep theirs. -/
def Clause.renamed (f : SourceColumn → SourceColumn) : Clause → Clause
  | .compare op c t => .compare op (f c) (t.renamed f)
  | .isNull c n => .isNull (f c) n
  | .amongValues c vs n => .amongValues (f c) vs n
  | .amongRows c q n => .amongRows (f c) q n
  | .raw r => .raw r
  | .parts op cs => .parts op (Clause.renamedAll f cs)
  | .group c => .group (c.renamed f)
  | .truthOf c n => .truthOf (c.renamed f) n
  | .inverse c => .inverse (c.renamed f)
  | .hasRows q => .hasRows q
  | .validAt j d k i => .validAt j d k i

def Clause.renamedAll (f : SourceColumn → SourceColumn) : List Clause → List Clause
  | [] => []
  | c :: cs => c.renamed f :: Clause.renamedAll f cs

end

theorem Clause.renamedAll_eq_map (f : SourceColumn → SourceColumn) (cs : List Clause) :
    Clause.renamedAll f cs = cs.map (Clause.renamed f) := by
  induction cs with
  | nil => rfl
  | cons c cs ih => rw [Clause.renamedAll, ih, List.map_cons]

mutual

theorem Clause.renamed_id : ∀ c : Clause, c.renamed id = c
  | .compare op c t => by rw [Clause.renamed, t.renamed_id]; rfl
  | .isNull _ _ => rfl
  | .amongValues _ _ _ => rfl
  | .amongRows _ _ _ => rfl
  | .raw _ => rfl
  | .parts op cs => by rw [Clause.renamed, Clause.renamedAll_id cs]
  | .group c => by rw [Clause.renamed, Clause.renamed_id c]
  | .truthOf c n => by rw [Clause.renamed, Clause.renamed_id c]
  | .inverse c => by rw [Clause.renamed, Clause.renamed_id c]
  | .hasRows _ => rfl
  | .validAt _ _ _ _ => rfl

theorem Clause.renamedAll_id : ∀ cs : List Clause, Clause.renamedAll id cs = cs
  | [] => rfl
  | c :: cs => by rw [Clause.renamedAll, Clause.renamed_id c, Clause.renamedAll_id cs]

end

/-! ## The building of conditions -/

namespace Clause

variable (f : SourceColumn → SourceColumn)

theorem grouped_renamed (c : Clause) : (c.renamed f).grouped = c.grouped.renamed f := by
  cases c with
  | parts op cs => cases cs <;> rfl
  | _ => rfl

theorem groupedIn_renamed (c : Clause) : (c.renamed f).groupedIn = c.groupedIn.renamed f := by
  cases c <;> rfl

theorem flattened_renamed (op : Conjunction) (c : Clause) :
    (c.renamed f).flattened op = (c.flattened op).map (Clause.renamed f) := by
  have hparts : ∀ (op' : Conjunction) (c : Clause) (cs : List Clause),
      (if op' = op then renamedAll f cs else [c.renamed f]) =
        (if op' = op then cs else [c]).map (Clause.renamed f) := by
    intro op' c cs
    split
    · exact renamedAll_eq_map f cs
    · rfl
  cases c with
  | parts op' cs => exact hparts op' (.parts op' cs) cs
  | group c =>
    cases c with
    | parts op' cs => exact hparts op' (.group (.parts op' cs)) cs
    | _ => rfl
  | _ => rfl

theorem combine_renamed (op : Conjunction) (cs : List Clause) :
    combine op (renamedAll f cs) = (combine op cs).renamed f := by
  have hparts : ∀ cs : List Clause,
      parts op (((renamedAll f cs).flatMap (flattened op)).map groupedIn) =
        (parts op ((cs.flatMap (flattened op)).map groupedIn)).renamed f := by
    intro cs
    rw [Clause.renamed, renamedAll_eq_map, renamedAll_eq_map, List.flatMap_map, List.map_flatMap,
      List.map_flatMap, List.map_flatMap]
    congr 1
    apply List.flatMap_congr
    intro c _
    rw [flattened_renamed, List.map_map, List.map_map]
    apply List.map_congr_left
    intro d _
    exact groupedIn_renamed f d
  cases cs with
  | nil => exact hparts []
  | cons c cs =>
    cases cs with
    | nil => rfl
    | cons d cs => exact hparts (c :: d :: cs)

variable {f} {c : SourceColumn} (ht : (f c).column.type = c.column.type)

include ht

/-- Truth values are written in the same way where the types are the same. -/
theorem writesTruth_renamed : writesTruth (f c) = writesTruth c := by
  rw [writesTruth, writesTruth, ht]

theorem equation_renamed (op : Relator) (s : Scalar) :
    equation op (f c) s = (equation op c s).map (Clause.renamed f) := by
  unfold equation
  split
  · rfl
  · rw [writesTruth_renamed ht]
    cases writesTruth c <;> rfl
  · cases inUtc s <;> rfl

theorem ordering_renamed (op : Relator) (s : Scalar) :
    ordering op (f c) s = (ordering op c s).map (Clause.renamed f) := by
  unfold ordering
  split
  · rfl
  · rw [writesTruth_renamed ht]
    cases writesTruth c <;> rfl
  · cases inUtc s <;> rfl

end Clause

/-! ## Blank conditions and text -/

section Resolved

variable {p : SourceColumn → Prop} {f : SourceColumn → SourceColumn}

mutual

theorem Clause.isBlank_renamed (f : SourceColumn → SourceColumn) :
    ∀ c : Clause, (c.renamed f).isBlank = c.isBlank
  | .compare _ _ _ => rfl
  | .isNull _ _ => rfl
  | .amongValues _ _ _ => rfl
  | .amongRows _ _ _ => rfl
  | .raw _ => rfl
  | .parts _ cs => Clause.areBlank_renamed f cs
  | .group _ => rfl
  | .truthOf _ _ => rfl
  | .inverse _ => rfl
  | .hasRows _ => rfl
  | .validAt _ _ _ _ => rfl

theorem Clause.areBlank_renamed (f : SourceColumn → SourceColumn) :
    ∀ cs : List Clause, Clause.isBlank.areBlank (Clause.renamedAll f cs) =
      Clause.isBlank.areBlank cs
  | [] => rfl
  | c :: cs => by
    rw [Clause.renamedAll, Clause.isBlank.areBlank, Clause.isBlank.areBlank,
      Clause.isBlank_renamed f c, Clause.areBlank_renamed f cs]

end

theorem Clause.isRaw_of_resolved {c : Clause} (h : c.Resolved p) : c.isRaw = false := by
  cases c <;> first | rfl | exact h.elim

mutual

theorem Clause.resolved_renamed (f : SourceColumn → SourceColumn) :
    ∀ c : Clause, c.Resolved p → (c.renamed f).Resolved fun _ => True
  | .compare _ _ (.column _), _ => ⟨trivial, trivial⟩
  | .compare _ _ (.value _), _ => ⟨trivial, trivial⟩
  | .compare _ _ (.truth _), _ => ⟨trivial, trivial⟩
  | .isNull _ _, _ => trivial
  | .amongValues _ _ _, _ => trivial
  | .amongRows _ _ _, h => ⟨trivial, h.2⟩
  | .parts _ cs, h => Clause.allResolved_renamedAll f cs h
  | .group c, h => Clause.resolved_renamed f c h
  | .truthOf c _, h => Clause.resolved_renamed f c h
  | .inverse c, h => Clause.resolved_renamed f c h
  | .hasRows _, h => h
  | .raw _, h => h.elim
  | .validAt _ _ _ _, h => h.elim

theorem Clause.allResolved_renamedAll (f : SourceColumn → SourceColumn) :
    ∀ cs : List Clause, Clause.AllResolved p cs →
      Clause.AllResolved (fun _ => True) (Clause.renamedAll f cs)
  | [], _ => trivial
  | c :: cs, h => ⟨Clause.resolved_renamed f c h.1, Clause.allResolved_renamedAll f cs h.2⟩

end

theorem Clause.isRaw_renamed (f : SourceColumn → SourceColumn) (c : Clause) :
    (c.renamed f).isRaw = c.isRaw := by cases c <;> rfl

/-- No text is read with the conditions in a resolved list. -/
theorem Clause.any_isRaw_of_resolved {cs : List Clause} (h : Clause.AllResolved p cs) :
    cs.any Clause.isRaw = false := by
  rw [List.any_eq_false]
  intro c hc
  rw [Clause.isRaw_of_resolved (Clause.allResolved_iff.mp h c hc)]
  decide

end Resolved

/-! ## Truth -/

/-- Other columns stand for the columns of an environment: they have the same types there, and in
another environment the same cells. -/
structure Env.Renames (p : SourceColumn → Prop) (f : SourceColumn → SourceColumn)
    (env env' : Env) : Prop where
  type : ∀ c, p c → (f c).column.type = c.column.type
  cell : ∀ c, p c → (f c).cell env' = c.cell env

theorem Env.Renames.outer {rs : List Relation} {ss : List Source} (h : Env.Covers rs ss)
    (outer outer' : Env) :
    Env.Renames (SourceColumn.InView ss) id (rs :: outer) (rs :: outer') where
  type _ _ := rfl
  cell _ hc := SourceColumn.cell_outer h hc outer' outer

section Truth

variable {p : SourceColumn → Prop} {f : SourceColumn → SourceColumn} {env env' : Env}

theorem SourceColumn.affinity_renamed (h : Env.Renames p f env env') {c : SourceColumn}
    (hc : p c) : (f c).affinity = c.affinity := congrArg ColumnType.affinity (h.type c hc)

theorem Term.cell_renamed (h : Env.Renames p f env env') {c : SourceColumn} (hc : p c) {t : Term}
    (ht : t.Resolved p) : (t.renamed f).cell env' (f c) = t.cell env c := by
  cases t with
  | column d => exact h.cell d ht
  | value s =>
    rw [renamed, cell, cell, comparedCell, comparedCell, h.type c hc]
    exact fun d e => nomatch e
  | truth b => rfl

theorem Term.affinity_renamed (h : Env.Renames p f env env') {t : Term} (ht : t.Resolved p) :
    (t.renamed f).affinity = t.affinity := by
  cases t with
  | column d => exact SourceColumn.affinity_renamed h ht
  | value s => rfl
  | truth b => rfl

/-- Without text among conditions only their truths count. -/
theorem Clause.joinedTruth_renamed {cs : List Clause} (h : Clause.AllResolved p cs)
    (f : SourceColumn → SourceColumn) (env env' : Env) (op : Conjunction) (ts : List Truth) :
    Clause.joinedTruth env' op ((Clause.renamedAll f cs).zip ts) =
      Clause.joinedTruth env op (cs.zip ts) := by
  have hnone : (((cs.zip ts).filter fun x => !x.1.isBlank).any fun x => x.1.isRaw) = false := by
    rw [List.any_eq_false]
    intro x hx hraw
    have hx := (List.of_mem_zip (List.mem_filter.mp hx).1).1
    have hresolved := Clause.isRaw_of_resolved (Clause.allResolved_iff.mp h x.1 hx)
    exact Bool.false_ne_true (hresolved.symm.trans hraw)
  have hsame : ((Clause.renamedAll f cs).zip ts).filter (fun x => !x.1.isBlank) =
      ((cs.zip ts).filter fun x => !x.1.isBlank).map (Prod.map (Clause.renamed f) id) := by
    rw [Clause.renamedAll_eq_map, List.zip_map_left, List.filter_map]
    congr 2
    funext x
    exact congrArg not (Clause.isBlank_renamed f x.1)
  unfold Clause.joinedTruth
  simp only [hsame, hnone, List.any_map, List.map_map, Function.comp_def, Prod.map, id,
    Clause.isRaw_renamed, Bool.false_eq_true, if_false]

/-- The conditions of a statement hold in the same rows, whatever is around the statement. -/
theorem Clause.joinedTruth_outer {cs : List Clause} {rs : List Relation} {ss : List Source}
    (h : Clause.AllResolved (SourceColumn.InView ss) cs) (outer outer' : Env) (ts : List Truth) :
    Clause.joinedTruth (rs :: outer) .and (cs.zip ts) =
      Clause.joinedTruth (rs :: outer') .and (cs.zip ts) := by
  have hrenamed := Clause.joinedTruth_renamed h id (rs :: outer') (rs :: outer) .and ts
  rw [Clause.renamedAll_id] at hrenamed
  exact hrenamed

/-- The order of rows does not depend on what is around the statement. -/
theorem sortRows_outer {orders : List (OrderExpr × Bool)} {ss : List Source}
    (ho : ∀ o ∈ orders, o.1.Resolved (SourceColumn.InView ss)) {rs : List (List Relation)}
    (hrs : ∀ r ∈ rs, Env.Covers r ss) (outer outer' : Env) :
    sortRows orders outer rs = sortRows orders outer' rs := by
  have hcell : ∀ o ∈ orders, ∀ r ∈ rs, o.1.cell (r :: outer) = o.1.cell (r :: outer') := by
    intro o ho' r hr
    have hresolved := ho o ho'
    obtain ⟨c, hc⟩ := hresolved.exists_column
    rw [hc] at hresolved ⊢
    exact SourceColumn.cell_outer (hrs r hr) hresolved outer outer'
  have horder : ∀ a ∈ rs, ∀ b ∈ rs, inOrder orders outer a b = inOrder orders outer' a b := by
    intro a ha b hb
    unfold inOrder
    congr 2
    apply List.map_congr_left
    intro o ho'
    obtain ⟨e, descending⟩ := o
    exact congrArg₂ (fun x y => (x, y, descending)) (hcell _ ho' a ha) (hcell _ ho' b hb)
  unfold sortRows
  split
  · rfl
  · have hsorted := List.map_mergeSort (r := inOrder orders outer) (s := inOrder orders outer')
      (f := id) (l := rs) horder
    rw [List.map_id, List.map_id] at hsorted
    exact hsorted

/-- The cells of a subquery are those of its rows. -/
theorem Select.firstCells_of_matchingOn {q : Select} (h : q.Resolved) {db : Database}
    {outer outer' : Env} (hrows : ∀ rows, q.matchingOn db outer rows = q.matchingOn db outer' rows) :
    q.firstCells db outer = q.firstCells db outer' := by
  obtain ⟨columns, base, joins, conditions, orders, limit⟩ := q
  rw [Select.firstCells_eq, Select.firstCells_eq, hrows]
  apply List.filterMap_congr
  intro r hr
  have hcovers := Select.covers_matchingOn r hr
  cases hc : columns.head? with
  | none => rfl
  | some c =>
    have hresolved := h.2.2.1 c (List.mem_of_head? hc)
    cases c with
    | constant value label => rfl
    | column c label =>
      rw [Option.map_some, Option.map_some, OutputColumn.cell, OutputColumn.cell,
        SourceColumn.cell_outer hcovers hresolved outer outer']

mutual

/-- A condition has the truth that it has with columns of the same cells. -/
theorem Clause.truth_renamed (db : Database) : ∀ (c : Clause) {p : SourceColumn → Prop}
    {f : SourceColumn → SourceColumn} {env env' : Env}, Env.Renames p f env env' →
      c.Resolved p → (c.renamed f).truth db env' = c.truth db env
  | .compare op c t, _, _, _, _, h, hr => by
    rw [Clause.renamed, Clause.truth, Clause.truth, h.cell c hr.1, Term.cell_renamed h hr.1 hr.2,
      SourceColumn.affinity_renamed h hr.1, Term.affinity_renamed h hr.2]
  | .isNull c n, _, _, _, _, h, hr => by
    rw [Clause.renamed, Clause.truth, Clause.truth, h.cell c hr]
  | .amongValues c vs n, _, _, _, _, h, hr => by
    rw [Clause.renamed, Clause.truth, Clause.truth, h.cell c hr,
      SourceColumn.affinity_renamed h hr, listedBounds, listedBounds, h.type c hr]
  | .amongRows c q n, _, _, env, env', h, hr => by
    rw [Clause.renamed, Clause.truth, Clause.truth, h.cell c hr.1,
      SourceColumn.affinity_renamed h hr.1, Select.firstCells_of_matchingOn hr.2
        (Select.matchingOn_outer db q hr.2 env' env)]
  | .parts op cs, _, f, env, env', h, hr => by
    rw [Clause.renamed, Clause.truth, Clause.truth, Clause.truths_renamed db cs h hr,
      Clause.joinedTruth_renamed hr f env env']
  | .group c, _, _, _, _, h, hr => by
    rw [Clause.renamed, Clause.truth, Clause.truth, Clause.truth_renamed db c h hr]
  | .truthOf c n, _, _, _, _, h, hr => by
    rw [Clause.renamed, Clause.truth, Clause.truth, Clause.truth_renamed db c h hr]
  | .inverse c, _, _, _, _, h, hr => by
    rw [Clause.renamed, Clause.truth, Clause.truth, Clause.truth_renamed db c h hr]
  | .hasRows q, _, _, env, env', _, hr => by
    rw [Clause.renamed, Clause.truth, Clause.truth, Select.matching_eq, Select.matching_eq,
      Select.matchingOn_outer db q hr env' env]
  | .raw _, _, _, _, _, _, hr => hr.elim
  | .validAt _ _ _ _, _, _, _, _, _, hr => hr.elim

theorem Clause.truths_renamed (db : Database) : ∀ (cs : List Clause) {p : SourceColumn → Prop}
    {f : SourceColumn → SourceColumn} {env env' : Env}, Env.Renames p f env env' →
      Clause.AllResolved p cs →
        Clause.truths db env' (Clause.renamedAll f cs) = Clause.truths db env cs
  | [], _, _, _, _, _, _ => rfl
  | c :: cs, _, _, _, _, h, hr => by
    rw [Clause.renamedAll, Clause.truths, Clause.truths, Clause.truth_renamed db c h hr.1,
      Clause.truths_renamed db cs h hr.2]

/-- Joins add the same rows, whatever is around the statement. -/
theorem JoinedSource.extend_outer (db : Database) : ∀ (js : List JoinedSource)
    {before : List Source} {rs : List (List Relation)}, JoinedSource.AllResolved before js →
      (∀ r ∈ rs, Env.Covers r before) → ∀ outer outer' : Env,
        JoinedSource.extend db outer js rs = JoinedSource.extend db outer' js rs
  | [], _, _, _, _, _, _ => rfl
  | .mk source on keepsAll :: js, before, rs, h, hrs, outer, outer' => by
    have hadded : ∀ r ∈ rs, JoinedSource.added db outer source on keepsAll r =
        JoinedSource.added db outer' source on keepsAll r := by
      intro r hr
      have htruth : ∀ row, on.truth db ((r ++ [source.relation row]) :: outer) =
          on.truth db ((r ++ [source.relation row]) :: outer') := by
        intro row
        have hcovers := (hrs r hr).append (Env.Covers.relation source row)
        have htruth := Clause.truth_renamed db on (.outer hcovers outer' outer) h.1
        rwa [Clause.renamed_id] at htruth
      unfold JoinedSource.added
      simp only [List.filter_map, Function.comp_def, htruth]
    rw [JoinedSource.extend_cons, JoinedSource.extend_cons]
    rw [List.flatMap_congr fun r hr => by rw [hadded r hr]]
    refine JoinedSource.extend_outer db js h.2 ?_ outer outer'
    intro r hr
    obtain ⟨s, hs, hr⟩ := List.mem_flatMap.mp hr
    obtain ⟨x, hx, rfl⟩ := List.mem_map.mp hr
    exact (hrs s hs).append (JoinedSource.covers_of_mem_added hx)

/-- The rows of a subquery do not depend on the statement around it. -/
theorem Select.matchingOn_outer (db : Database) : ∀ q : Select, q.Resolved →
    ∀ (outer outer' : Env) (rows : List Row),
      q.matchingOn db outer rows = q.matchingOn db outer' rows
  | ⟨columns, base, joins, conditions, orders, limit⟩, h, outer, outer', rows => by
    have hbase : ∀ r ∈ rows.map fun row => [base.relation row], Env.Covers r [base] := by
      intro r hr
      obtain ⟨row, -, rfl⟩ := List.mem_map.mp hr
      exact .relation base row
    have hkept : Select.keptOn ⟨columns, base, joins, conditions, orders, limit⟩ db outer rows =
        Select.keptOn ⟨columns, base, joins, conditions, orders, limit⟩ db outer' rows := by
      unfold Select.keptOn
      rw [JoinedSource.extend_outer db joins h.1 hbase outer outer']
      apply List.filter_congr
      intro r hr
      have hcovers := JoinedSource.covers_extend hbase r hr
      have htruths := Clause.truths_renamed db conditions (.outer hcovers outer outer') h.2.1
      rw [Clause.renamedAll_id] at htruths
      rw [Select.keeps, Select.keeps, htruths, Clause.joinedTruth_outer h.2.1 outer outer']
    unfold Select.matchingOn
    rw [hkept, sortRows_outer h.2.2.2 Select.covers_keptOn outer outer']

end

end Truth

/-! ## Values -/

/-- The values in a piece of text that rows are put in order by. -/
def OrderExpr.slots : OrderExpr → Slots
  | raw r => r.slots
  | column _ => []

theorem OrderExpr.slots_renamed (f : SourceColumn → SourceColumn) (e : OrderExpr) :
    (e.renamed f).slots = e.slots := by cases e <;> rfl

/-- The value that is written for a constant. -/
def OutputColumn.slot? : OutputColumn → Option (Option Bound)
  | constant v _ => some (some ((Binding.ofValue (.scalar v)).bind (.scalar v)))
  | column _ _ => none

theorem JoinedSource.slots_eq (js : List JoinedSource) :
    JoinedSource.slots js = js.flatMap fun j => j.on.slots := by
  induction js with
  | nil => rfl
  | cons j js ih =>
    obtain ⟨source, on, outer⟩ := j
    rw [JoinedSource.slots, ih, List.flatMap_cons]
    rfl

theorem Select.slots_eq (s : Select) : s.slots =
    s.columns.filterMap OutputColumn.slot? ++ JoinedSource.slots s.joins ++
      Clause.allSlots s.conditions ++ (s.orders.flatMap fun o => o.1.slots) ++
        (s.limit.map fun n => some (Binding.plain.bind (.int n))).toList := by
  cases s
  rfl

mutual

/-- Columns of the same types have the same values written beside them. -/
theorem Clause.slots_renamed {f : SourceColumn → SourceColumn} : ∀ (c : Clause)
    {p : SourceColumn → Prop}, (∀ x, p x → (f x).column.type = x.column.type) → c.Resolved p →
      (c.renamed f).slots = c.slots
  | .compare _ c (.column d), _, _, _ => rfl
  | .compare _ c (.value v), _, h, hr => by
    rw [Clause.renamed, Term.renamed.eq_def, Clause.slots, Clause.slots, h c hr.1]
  | .compare _ c (.truth b), _, _, _ => rfl
  | .isNull _ _, _, _, _ => rfl
  | .amongValues c vs _, _, h, hr => by
    rw [Clause.renamed, Clause.slots, Clause.slots, listedBounds, listedBounds, h c hr]
  | .amongRows _ _ _, _, _, _ => rfl
  | .parts _ cs, _, h, hr => Clause.allSlots_renamed cs h hr
  | .group c, _, h, hr => Clause.slots_renamed c h hr
  | .truthOf c _, _, h, hr => Clause.slots_renamed c h hr
  | .inverse c, _, h, hr => Clause.slots_renamed c h hr
  | .hasRows _, _, _, _ => rfl
  | .raw _, _, _, hr => hr.elim
  | .validAt _ _ _ _, _, _, hr => hr.elim

theorem Clause.allSlots_renamed {f : SourceColumn → SourceColumn} : ∀ (cs : List Clause)
    {p : SourceColumn → Prop}, (∀ x, p x → (f x).column.type = x.column.type) →
      Clause.AllResolved p cs → Clause.allSlots (Clause.renamedAll f cs) = Clause.allSlots cs
  | [], _, _, _ => rfl
  | c :: cs, _, h, hr => by
    rw [Clause.renamedAll, Clause.allSlots, Clause.allSlots, Clause.slots_renamed c h hr.1,
      Clause.allSlots_renamed cs h hr.2]

end

/-! ## What the store takes -/

section Check

/-- Conditions without text next to each other are read as they are. -/
theorem checkJoined_of_resolved {p : SourceColumn → Prop} {cs : List Clause}
    (h : Clause.AllResolved p cs) (env : Env) (op : Conjunction) :
    checkJoined env op cs = .ok () := by
  have hnone : (cs.filter fun c => !c.isBlank).any Clause.isRaw = false := by
    rw [List.any_eq_false]
    intro c hc
    exact List.any_eq_false.mp (Clause.any_isRaw_of_resolved h) c (List.mem_filter.mp hc).1
  unfold checkJoined
  simp only [hnone, Bool.false_eq_true, if_false]

/-- The columns that an answer is reduced to are known. -/
def OutputColumn.isKnown (env : Env) : OutputColumn → Bool
  | column c _ => c.isKnown env
  | constant _ _ => true

def OrderExpr.check (env : Env) : OrderExpr → Except Failure Unit
  | column c => requires (c.isKnown env)
  | raw r => checkExpression env r.expression?

theorem Select.check_eq (s : Select) (outer : Env) : s.check outer = (do
    requires (s.columns.all (·.isKnown (emptyRelations s.sources :: outer)))
    JoinedSource.check (emptyRelations s.sources) outer [s.base] s.joins
    checkJoined (emptyRelations s.sources :: outer) .and s.conditions
    Clause.checkAll (emptyRelations s.sources :: outer) s.conditions
    s.orders.forM fun o => o.1.check (emptyRelations s.sources :: outer)) := by
  cases s
  rfl

section Known

variable {p : SourceColumn → Prop} {env env' : Env}

theorem OutputColumn.all_isKnown_congr (h : ∀ x, p x → x.isKnown env = x.isKnown env')
    {cs : List OutputColumn} (hcs : ∀ c ∈ cs, c.Resolved p) :
    cs.all (·.isKnown env) = cs.all (·.isKnown env') := by
  rw [Bool.eq_iff_iff, List.all_eq_true, List.all_eq_true]
  refine forall₂_congr fun c hc => ?_
  have hresolved := hcs c hc
  cases c with
  | column c label => rw [isKnown, isKnown, h c hresolved]
  | constant v label => rfl

theorem OrderExpr.forM_check_renamed {f : SourceColumn → SourceColumn}
    (h : ∀ x, p x → (f x).isKnown env' = x.isKnown env) {os : List (OrderExpr × Bool)}
    (hos : ∀ o ∈ os, o.1.Resolved p) :
    ((os.map fun o => (o.1.renamed f, o.2)).forM fun o => o.1.check env') =
      os.forM fun o => o.1.check env := by
  induction os with
  | nil => rfl
  | cons o os ih =>
    have hcheck : (o.1.renamed f).check env' = o.1.check env := by
      have hresolved := hos o List.mem_cons_self
      obtain ⟨c, hc⟩ := hresolved.exists_column
      rw [hc] at hresolved ⊢
      exact congrArg requires (h c hresolved)
    have htail := ih fun o ho => hos o (List.mem_cons_of_mem _ ho)
    rw [List.forM_eq_forM] at htail ⊢
    rw [List.map_cons, List.forM_cons, List.forM_cons, hcheck, htail]

end Known

theorem Clause.checkAll_cons {c : Clause} (h : c.isRaw = false) (env : Env) (cs : List Clause) :
    Clause.checkAll env (c :: cs) = (do
      c.check env
      Clause.checkAll env cs) := by
  cases c <;> first | rfl | cases h

mutual

/-- The store takes a condition if it takes it with other columns that it knows. -/
theorem Clause.check_renamed : ∀ (c : Clause) {p : SourceColumn → Prop}
    {f : SourceColumn → SourceColumn} {env env' : Env},
      (∀ x, p x → (f x).isKnown env' = x.isKnown env) → c.Resolved p →
        (c.renamed f).check env' = c.check env
  | .compare _ c (.column d), _, _, _, _, h, hr =>
    congrArg requires (congrArg₂ and (h c hr.1) (h d hr.2))
  | .compare _ c (.value _), _, _, _, _, h, hr => congrArg requires (h c hr.1)
  | .compare _ c (.truth _), _, _, _, _, h, hr => congrArg requires (h c hr.1)
  | .isNull c _, _, _, _, _, h, hr => congrArg requires (h c hr)
  | .amongValues c _ _, _, _, _, _, h, hr => congrArg requires (h c hr)
  | .amongRows c q _, _, _, env, env', h, hr => by
    rw [Clause.renamed, Clause.check, Clause.check, h c hr.1, Select.check_outer q hr.2 env' env]
  | .parts op cs, _, f, env, env', h, hr => by
    rw [Clause.renamed, Clause.check, Clause.check, checkJoined_of_resolved hr,
      checkJoined_of_resolved (Clause.allResolved_renamedAll f cs hr),
      Clause.checkAll_renamed cs h hr]
  | .group c, _, f, _, _, h, hr => by
    rw [Clause.renamed, Clause.check, Clause.check, Clause.isBlank_renamed f c,
      Clause.check_renamed c h hr]
  | .truthOf c _, _, f, _, _, h, hr => by
    rw [Clause.renamed, Clause.check, Clause.check, Clause.isBlank_renamed f c,
      Clause.check_renamed c h hr]
  | .inverse c, _, f, _, _, h, hr => by
    rw [Clause.renamed, Clause.check, Clause.check, Clause.isBlank_renamed f c,
      Clause.check_renamed c h hr]
  | .hasRows q, _, _, env, env', _, hr => Select.check_outer q hr env' env
  | .raw _, _, _, _, _, _, hr => hr.elim
  | .validAt _ _ _ _, _, _, _, _, _, hr => hr.elim

theorem Clause.checkAll_renamed : ∀ (cs : List Clause) {p : SourceColumn → Prop}
    {f : SourceColumn → SourceColumn} {env env' : Env},
      (∀ x, p x → (f x).isKnown env' = x.isKnown env) → Clause.AllResolved p cs →
        Clause.checkAll env' (Clause.renamedAll f cs) = Clause.checkAll env cs
  | [], _, _, _, _, _, _ => rfl
  | c :: cs, _, f, _, _, h, hr => by
    have hraw := Clause.isRaw_of_resolved hr.1
    rw [Clause.renamedAll, Clause.checkAll_cons hraw,
      Clause.checkAll_cons (by rw [Clause.isRaw_renamed, hraw]), Clause.check_renamed c h hr.1,
      Clause.checkAll_renamed cs h hr.2]

/-- The joins of a statement are taken or not, whatever is around the statement. -/
theorem JoinedSource.check_outer : ∀ (js : List JoinedSource) {before : List Source}
    {rs : List Relation}, JoinedSource.AllResolved before js →
      Env.Covers rs (before ++ js.map JoinedSource.source) → ∀ outer outer' : Env,
        JoinedSource.check rs outer before js = JoinedSource.check rs outer' before js
  | [], _, _, _, _, _, _ => rfl
  | .mk source on _ :: js, before, rs, h, hrs, outer, outer' => by
    rw [List.map_cons, ← List.singleton_append, ← List.append_assoc] at hrs
    have hknown : ∀ x : SourceColumn, x.InView (before ++ [source]) →
        (id x).isKnown (rs :: outer') = x.isKnown (rs :: outer) := fun x hx =>
      SourceColumn.isKnown_outer hrs (hx.mono (List.subset_append_left _ _)) outer' outer
    have hknown' : ∀ x : SourceColumn, x.InView (before ++ [source]) →
        (id x).isKnown (emptyRelations (before ++ [source]) :: outer') =
          x.isKnown (emptyRelations (before ++ [source]) :: outer) := fun x hx =>
      SourceColumn.isKnown_outer (Env.covers_emptyRelations _) hx outer' outer
    have hall := Clause.check_renamed on hknown h.1
    have hbefore := Clause.check_renamed on hknown' h.1
    rw [Clause.renamed_id] at hall hbefore
    rw [JoinedSource.check, JoinedSource.check, hall, hbefore,
      JoinedSource.check_outer js h.2 hrs outer outer']

/-- A subquery is taken or not, whatever is around it. -/
theorem Select.check_outer : ∀ q : Select, q.Resolved →
    ∀ outer outer' : Env, q.check outer = q.check outer'
  | ⟨columns, base, joins, conditions, orders, _⟩, h, outer, outer' => by
    have hcovers := Env.covers_emptyRelations (base :: joins.map JoinedSource.source)
    have hknown : ∀ x : SourceColumn, x.InView (base :: joins.map JoinedSource.source) →
        x.isKnown (emptyRelations (base :: joins.map JoinedSource.source) :: outer) =
          x.isKnown (emptyRelations (base :: joins.map JoinedSource.source) :: outer') :=
      fun x hx => SourceColumn.isKnown_outer hcovers hx outer outer'
    have hconditions := Clause.checkAll_renamed conditions (f := id) hknown h.2.1
    have horders := OrderExpr.forM_check_renamed (f := id) hknown h.2.2.2
    rw [Clause.renamedAll_id] at hconditions
    simp only [OrderExpr.renamed_id, List.map_id'] at horders
    rw [Select.check_eq, Select.check_eq]
    dsimp only [Select.sources]
    rw [JoinedSource.check_outer joins h.1 hcovers outer outer', hconditions,
      checkJoined_of_resolved h.2.1, checkJoined_of_resolved h.2.1,
      OutputColumn.all_isKnown_congr hknown h.2.2.1, horders]

end

end Check

end Chronicle
