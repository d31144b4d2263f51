import Chronicle.Proofs.Statement.Resolved
import Chronicle.Statement.Shared

/-!
# Statements whose texts agree

Where the texts of a statement give no parameter two values, the values that count are those that each
text gives.  Resolved statements have no text.

* `Select.withValues_eq`: values that every text has change nothing;
* `Select.shared_of_agree`: texts that agree keep their values;
* `Select.fragments_of_resolved`: the texts of a resolved statement.
-/

namespace Chronicle

/-! ## Values that texts have -/

theorem OrderExpr.withValues_eq {values : List (String × Value)} {e : OrderExpr}
    (h : ∀ r ∈ e.fragments, r.withValues values = r) : e.withValues values = e := by
  cases e with
  | column c => rfl
  | raw r => exact congrArg OrderExpr.raw (h r (List.mem_singleton_self r))

section Values

variable {values : List (String × Value)}

mutual

theorem Clause.withValues_eq : ∀ c : Clause, (∀ r ∈ c.fragments, r.withValues values = r) →
    c.withValues values = c
  | .raw r, h => by
    rw [Clause.fragments] at h
    rw [Clause.withValues, h r (List.mem_singleton_self r)]
  | .parts op cs, h => by
    rw [Clause.withValues, Clause.allWithValues_eq cs fun r hr => h r (by rwa [Clause.fragments])]
  | .group c, h => by
    rw [Clause.withValues, Clause.withValues_eq c fun r hr => h r (by rwa [Clause.fragments])]
  | .truthOf c negated, h => by
    rw [Clause.withValues, Clause.withValues_eq c fun r hr => h r (by rwa [Clause.fragments])]
  | .inverse c, h => by
    rw [Clause.withValues, Clause.withValues_eq c fun r hr => h r (by rwa [Clause.fragments])]
  | .amongRows c q negated, h => by
    rw [Clause.withValues, Select.withValues_eq q fun r hr => h r (by rwa [Clause.fragments])]
  | .hasRows q, h => by
    rw [Clause.withValues, Select.withValues_eq q fun r hr => h r (by rwa [Clause.fragments])]
  | .compare _ _ _, _ => by rw [Clause.withValues]
  | .isNull _ _, _ => by rw [Clause.withValues]
  | .amongValues _ _ _, _ => by rw [Clause.withValues]
  | .validAt _ _ _ _, _ => by rw [Clause.withValues]

theorem Clause.allWithValues_eq : ∀ cs : List Clause,
    (∀ r ∈ Clause.allFragments cs, r.withValues values = r) → Clause.allWithValues values cs = cs
  | [], _ => by rw [Clause.allWithValues]
  | c :: cs, h => by
    rw [Clause.allFragments, List.forall_mem_append] at h
    rw [Clause.allWithValues, Clause.withValues_eq c h.1, Clause.allWithValues_eq cs h.2]

theorem JoinedSource.allWithValues_eq : ∀ js : List JoinedSource,
    (∀ r ∈ JoinedSource.allFragments js, r.withValues values = r) →
      JoinedSource.allWithValues values js = js
  | [], _ => by rw [JoinedSource.allWithValues]
  | .mk source on outer :: js, h => by
    rw [JoinedSource.allFragments, List.forall_mem_append] at h
    rw [JoinedSource.allWithValues, Clause.withValues_eq on h.1,
      JoinedSource.allWithValues_eq js h.2]

/-- Values that every text has change nothing. -/
theorem Select.withValues_eq : ∀ s : Select, (∀ r ∈ s.fragments, r.withValues values = r) →
    s.withValues values = s
  | ⟨columns, base, joins, conditions, orders, limit⟩, h => by
    rw [Select.fragments, List.forall_mem_append, List.forall_mem_append,
      List.forall_mem_flatMap] at h
    obtain ⟨⟨hjoins, hconditions⟩, horders⟩ := h
    have hsame : (orders.map fun o => (o.1.withValues values, o.2)) = orders := by
      rw [List.map_congr_left fun o ho => ?_, List.map_id']
      rw [OrderExpr.withValues_eq (horders o ho)]
    rw [Select.withValues, JoinedSource.allWithValues_eq joins hjoins,
      Clause.allWithValues_eq conditions hconditions, hsame]

end

end Values

/-! ## Texts that agree -/

/-- No two texts give a parameter different values. -/
def RawFragment.Agree (rs : List RawFragment) : Prop :=
  ∀ r ∈ rs, ∀ r' ∈ rs, ∀ name v v', (name, v) ∈ r.params → (name, v') ∈ r'.params → v = v'

/-- Texts that agree keep their values. -/
theorem Select.shared_of_agree {s : Select} (h : RawFragment.Agree s.fragments) : s.shared = s := by
  refine s.withValues_eq fun r hr => ?_
  have hsame : ∀ p ∈ r.params, (p.1, (s.given.lookup p.1).getD p.2) = p := by
    intro p hp
    cases hlookup : s.given.lookup p.1 with
    | none => rfl
    | some v =>
      obtain ⟨before, after, heq, -⟩ := List.lookup_eq_some_iff.mp hlookup
      have hmem : (p.1, v) ∈ s.given := heq ▸ List.mem_append_right _ List.mem_cons_self
      rw [given, List.mem_reverse, List.mem_flatMap] at hmem
      obtain ⟨r', hr', hgiven⟩ := hmem
      have hv : v = p.2 := h r' hr' r hr p.1 v p.2 (List.mem_filter.mp hgiven).1 hp
      rw [hv]
      rfl
  rw [RawFragment.withValues, List.map_congr_left hsame, List.map_id']

theorem Select.shared_of_fragments {s : Select} (h : s.fragments = []) : s.shared = s :=
  Select.shared_of_agree fun r hr => by rw [h] at hr; cases hr

/-! ### Conditions in a list -/

theorem Clause.allFragments_append (cs ds : List Clause) :
    allFragments (cs ++ ds) = allFragments cs ++ allFragments ds := by
  induction cs with
  | nil => rfl
  | cons c cs ih => rw [List.cons_append, allFragments, allFragments, ih, List.append_assoc]

theorem Clause.allWithValues_append (values : List (String × Value)) (cs ds : List Clause) :
    allWithValues values (cs ++ ds) = allWithValues values cs ++ allWithValues values ds := by
  induction cs with
  | nil => rfl
  | cons c cs ih => rw [List.cons_append, allWithValues, allWithValues, ih, List.cons_append]

/-! ## Resolved statements -/

theorem Clause.allFragments_eq_nil {cs : List Clause} (h : ∀ c ∈ cs, c.fragments = []) :
    Clause.allFragments cs = [] := by
  induction cs with
  | nil => rfl
  | cons c cs ih =>
    obtain ⟨hc, hcs⟩ := List.forall_mem_cons.mp h
    rw [Clause.allFragments, hc, ih hcs]
    rfl

theorem JoinedSource.allFragments_eq_nil {js : List JoinedSource}
    (h : ∀ j ∈ js, j.on.fragments = []) : JoinedSource.allFragments js = [] := by
  induction js with
  | nil => rfl
  | cons j js ih =>
    obtain ⟨source, on, outer⟩ := j
    obtain ⟨hj, hjs⟩ := List.forall_mem_cons.mp h
    rw [JoinedSource.allFragments, ih hjs]
    exact (List.append_nil _).trans hj

/-- A statement has no text if its parts have none. -/
theorem Select.fragments_eq_nil {s : Select} (hj : ∀ j ∈ s.joins, j.on.fragments = [])
    (hc : ∀ c ∈ s.conditions, c.fragments = []) (ho : ∀ o ∈ s.orders, ∃ c, o.1 = .column c) :
    s.fragments = [] := by
  obtain ⟨columns, base, joins, conditions, orders, limit⟩ := s
  have horders : (orders.flatMap fun o => o.1.fragments) = [] := by
    rw [List.flatMap_eq_nil_iff]
    intro o hmem
    obtain ⟨c, he⟩ := ho o hmem
    rw [he]
    rfl
  rw [Select.fragments, JoinedSource.allFragments_eq_nil hj, Clause.allFragments_eq_nil hc, horders]
  rfl

mutual

/-- A condition of resolved columns has no text. -/
theorem Clause.fragments_of_resolved : ∀ (c : Clause) {p : SourceColumn → Prop}, c.Resolved p →
    c.fragments = []
  | .compare _ _ _, _, _ | .isNull _ _, _, _ | .amongValues _ _ _, _, _ => by rw [Clause.fragments]
  | .amongRows _ q _, _, h => by rw [Clause.fragments, Select.fragments_of_resolved q h.2]
  | .raw _, _, h => h.elim
  | .parts _ cs, _, h => by
    rw [Clause.fragments]
    exact Clause.allFragments_eq_nil (Clause.each_fragments_of_resolved cs h)
  | .group c, _, h => by rw [Clause.fragments, Clause.fragments_of_resolved c h]
  | .truthOf c _, _, h => by rw [Clause.fragments, Clause.fragments_of_resolved c h]
  | .inverse c, _, h => by rw [Clause.fragments, Clause.fragments_of_resolved c h]
  | .hasRows q, _, h => by rw [Clause.fragments, Select.fragments_of_resolved q h]
  | .validAt _ _ _ _, _, h => h.elim

theorem Clause.each_fragments_of_resolved : ∀ (cs : List Clause) {p : SourceColumn → Prop},
    Clause.AllResolved p cs → ∀ c ∈ cs, c.fragments = []
  | [], _, _ => fun _ hc => nomatch hc
  | c :: cs, _, h => List.forall_mem_cons.mpr
      ⟨Clause.fragments_of_resolved c h.1, Clause.each_fragments_of_resolved cs h.2⟩

theorem JoinedSource.each_fragments_of_resolved : ∀ (js : List JoinedSource) {before : List Source},
    JoinedSource.AllResolved before js → ∀ j ∈ js, j.on.fragments = []
  | [], _, _ => fun _ hj => nomatch hj
  | .mk _ on _ :: js, _, h => List.forall_mem_cons.mpr
      ⟨Clause.fragments_of_resolved on h.1, JoinedSource.each_fragments_of_resolved js h.2⟩

/-- A resolved statement has no text. -/
theorem Select.fragments_of_resolved : ∀ s : Select, s.Resolved → s.fragments = []
  | ⟨_, _, joins, conditions, _, _⟩, h =>
    Select.fragments_eq_nil (JoinedSource.each_fragments_of_resolved joins h.1)
      (Clause.each_fragments_of_resolved conditions h.2.1) fun o ho => (h.2.2.2 o ho).exists_column

end

end Chronicle
