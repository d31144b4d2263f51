import Chronicle.Proofs.AsOf.Answer
import Chronicle.Proofs.Statement.OpenTexts
import Chronicle.Proofs.Statement.Taken

/-!
# Conditions of a query together

A query under several conditions keeps the rows that it keeps under each of them alone, if the texts
that are read with their neighbours are lists of conditions joined by `AND`; and the same holds of
conditions that are joined and negated.

* `Query.under`, `Query.IsTaken`, `Query.truth`: a query under other conditions, and what these say;
* `Query.keeping`: the answer that keeps some rows;
* `Query.Takes`: a query under conditions each of which the store takes alone;
* `Query.run_under`: conditions together, joined, and negated.
-/

namespace Chronicle

namespace Truth

end Truth

/-! ## Statements under other conditions -/

namespace Select

/-- What a statement answers if it keeps some of the rows of its relations. -/
def keeping (s : Select) (db : Database) (keeps : List Relation → Bool) :
    Except Failure (List (List (String × Scalar))) := do
  let names ← s.names
  let joined := JoinedSource.extend db [] s.joins
    ((db.tableRows s.base.table).map fun row => [s.base.relation row])
  let kept := limitRows s.limit (sortRows s.orders [] (joined.filter keeps))
  if !kept.isEmpty && names.eraseDups.length != names.length then throw .ambiguousColumn
  return kept.map fun r => names.zip (s.columns.map fun c => c.scalar [r])

theorem answer_eq_keeping {s : Select} (h : s.checkAll = .ok ()) (db : Database) :
    s.answer db = s.keeping db (s.keeps db []) := by
  rw [answer_eq, answerOver, h]
  rfl

theorem fragments_under (s : Select) (cs : List Clause) : (s.under cs).fragments =
    JoinedSource.allFragments s.joins ++ Clause.allFragments cs ++
      s.orders.flatMap fun o => o.1.fragments := by
  cases s
  rw [under, fragments]

end Select

theorem Clause.mem_allFragments {cs : List Clause} {r : RawFragment} :
    r ∈ Clause.allFragments cs ↔ ∃ c ∈ cs, r ∈ c.fragments := by
  induction cs with
  | nil => simp [Clause.allFragments]
  | cons c cs ih => simp [Clause.allFragments, ih]

theorem RawFragment.Agree.subset {rs rs' : List RawFragment} (h : Agree rs')
    (hsub : ∀ r ∈ rs, r ∈ rs') : Agree rs := fun r hr r' hr' =>
  h r (hsub r hr) r' (hsub r' hr')

/-- Conditions that are written with what some of others are written with have texts that agree as the
texts of the others do. -/
theorem Select.shared_under {s : Select} {cs cs' ds : List Clause}
    (hagree : RawFragment.Agree (s.under cs).fragments) (hcontent : Clause.SameContent cs' ds)
    (hds : ∀ d ∈ ds, d ∈ cs) : (s.under cs').shared = s.under cs' := by
  refine Select.shared_of_agree (hagree.subset fun r hr => ?_)
  rw [Select.fragments_under, hcontent.allFragments_eq] at hr
  rw [Select.fragments_under]
  simp only [List.mem_append, Clause.mem_allFragments] at hr ⊢
  rcases hr with (hr | ⟨d, hd, hr⟩) | hr
  · exact .inl (.inl hr)
  · exact .inl (.inr ⟨d, hds d hd, hr⟩)
  · exact .inr hr

/-! ## Queries under other conditions -/

namespace Query

/-- A query with other conditions. -/
def under (q : Query) (ps : List Predicate) : Query := { q with conditions := ps }

/-- The query becomes a statement that the store takes. -/
def IsTaken (q : Query) : Prop := ∃ s, q.compile = .ok s ∧ s.shared.checkAll = .ok ()

instance (q : Query) : Decidable q.IsTaken :=
  match hs : q.compile with
  | .error _ => .isFalse fun ⟨_, h, _⟩ => nomatch hs.symm.trans h
  | .ok s =>
    match hc : s.shared.checkAll with
    | .ok () => .isTrue ⟨s, hs, hc⟩
    | .error _ => .isFalse fun ⟨s', h, h'⟩ => by
      obtain rfl : s = s' := Except.ok.inj (hs.symm.trans h)
      cases hc.symm.trans h'

/-- What the conditions of a query say of rows of its relations. -/
def truth (q : Query) (db : Database) (r : List Relation) : Truth :=
  match q.compile with
  | .ok s => Clause.joinedTruth [r] .and
      (s.shared.conditions.zip (Clause.truths db [r] s.shared.conditions))
  | .error _ => .unknown

/-- What a query answers if it keeps some of the rows of its relations. -/
def keeping (q : Query) (db : Database) (keeps : List Relation → Bool) :
    Except Failure (List (List (String × Scalar))) := do
  let s ← q.compile
  s.shared.keeping db keeps

/-- A query under conditions each of which the store takes alone. -/
structure Takes (q : Query) (ps : List Predicate) (s : Select) (scope : Scope) (cs : List Clause) :
    Prop where
  compile : ∀ {ps' cs'}, Predicate.compileAll scope ps' = .ok cs' →
    (q.under ps').compile = .ok (s.under cs')
  conditions : ps.mapM (Predicate.compile scope) = .ok cs
  frame : s.Frame
  alone : ∀ c ∈ cs, (∃ x, (s.under [c]).render = .ok x) ∧ c.slots.AreCells ∧ c.check s.view = .ok ()
  written : ∃ x, (s.under cs).render = .ok x
  agree : RawFragment.Agree (s.under cs).fragments

variable {q : Query} {ps : List Predicate}

theorem Compiled.under {s : Select} {scope : Scope} {ps' : List Predicate} {cs' : List Clause}
    (h : (q.under ps).Compiled s scope) (hcs' : Predicate.compileAll scope ps' = .ok cs') :
    (q.under ps').Compiled (s.under cs') scope :=
  ⟨h.table, h.base, h.joins, h.columns, hcs', h.orders, h.limit⟩

/-- Only the conditions of a statement depend on those of the query. -/
theorem Compiled.eq_under {s s' : Select} {scope scope' : Scope} {ps' : List Predicate}
    (h : (q.under ps).Compiled s scope) (h' : (q.under ps').Compiled s' scope') :
    scope' = scope ∧ s' = s.under s'.conditions := by
  have hbase : s'.base = s.base := by
    rw [h'.base, h.base, Except.ok.inj (h'.table.symm.trans h.table)]
  obtain rfl : scope' = scope := by
    have hjoins' : Join.compileAll [(q.table, s'.base)] 1 q.joins = .ok (s'.joins, scope') :=
      h'.joins
    rw [hbase] at hjoins'
    exact (Prod.mk.inj (Except.ok.inj (hjoins'.symm.trans h.joins))).2
  exact ⟨rfl, (h'.unique (h.under h'.conditions)).1⟩

section Takes

variable {s : Select} {scope : Scope} {cs : List Clause} (h : q.Takes ps s scope cs)
  {db : Database}

include h

/-- The query under conditions that the store takes. -/
theorem Takes.answer_run {ps' : List Predicate} {cs' ds : List Clause}
    (hcs' : Predicate.compileAll scope ps' = .ok cs') (hcontent : Clause.SameContent cs' ds)
    (hds : ∀ d ∈ ds, d ∈ cs) (hrender : ∃ x, (s.under ds).render = .ok x)
    (hlists : 1 < cs'.length → Clause.TextsAreLists .and cs')
    (hcheck : ∀ c ∈ cs', c.check s.view = .ok ()) {keeps : List Relation → Bool}
    (hkeeps : ∀ r, keeps r = (Truth.all (cs'.map (Clause.standing .and db.opened [r])) == some true)) :
    (q.under ps').run.answer db = (q.under []).keeping db.opened keeps := by
  have hnone : Predicate.compileAll scope [] = .ok [] := by rw [Predicate.compileAll]
  have htaken : (s.under cs').checkAll = .ok () := by
    refine Select.checkAll_under_iff.mpr ⟨(Select.exists_render_iff hcontent).mpr hrender, h.frame,
      ?_, (Clause.check_each_iff hlists).mpr hcheck⟩
    rw [hcontent.allSlots_eq]
    exact Clause.areCells_allSlots_iff.mpr fun d hd => (h.alone d (hds d hd)).2.1
  have hsame : (s.under cs').keeps db.opened [] = keeps := by
    funext r
    rw [hkeeps, Select.keeps]
    change (Clause.joinedTruth [r] .and (cs'.zip (Clause.truths db.opened [r] cs')) == some true) = _
    rw [Clause.joinedTruth_next hlists]
    rfl
  rw [Query.answer_run_shared (h.compile hcs'), Select.shared_under h.agree hcontent hds,
    Select.answer_eq_keeping htaken, hsame, keeping, h.compile hnone]
  change _ = (s.under []).shared.keeping db.opened keeps
  rw [Select.shared_under h.agree (.refl []) (List.forall_mem_nil _)]
  rfl

theorem Takes.compileAll : Predicate.compileAll scope ps = .ok cs :=
  (Predicate.compileAll_eq_mapM scope ps).trans h.conditions

end Takes

end Query

end Chronicle
