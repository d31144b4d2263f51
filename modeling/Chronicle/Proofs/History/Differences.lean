import Chronicle.Proofs.History.Views

/-!
# Views of differences

A view that shows differences only knows as much as a whole one: its snapshots are those of the whole
view, without the attributes that have the values which the view shows.

* `EntityView.differing`: a view turned into one of differences;
* `EntityView.addFindings_differing`: the same findings lead to it;
* `EntityView.lookup_differing`: its snapshots.
-/

namespace Chronicle

/-- What differs differs still. -/
theorem Snapshot.changedFrom_changedFrom (s : Snapshot) (current : List (String × Value)) :
    (s.changedFrom current).changedFrom current = s.changedFrom current := by
  simp only [changedFrom, List.filter_filter, Bool.and_self]

namespace EntityView

/-- The view with snapshots of differences only. -/
def differing (v : EntityView) : EntityView :=
  { v with
    differencesOnly := true
    snapshots := v.snapshots.map fun p => (p.1, p.2.changedFrom v.currentValues) }

theorem lookup_differing (v : EntityView) (k : String) : v.differing.snapshots.lookup k =
    (v.snapshots.lookup k).map (·.changedFrom v.currentValues) :=
  lookup_map_value (fun _ (s : Snapshot) => s.changedFrom v.currentValues) v.snapshots k

/-! ## Step by step -/

theorem Extends.currentValues {v w : EntityView} (h : Extends w v) :
    w.currentValues = v.currentValues := by
  rw [EntityView.currentValues, EntityView.currentValues, overrides, overrides, h.entity, h.past]

theorem addSnapshot_differing (v : EntityView) (t : Timestamp) (row : Option Attributes) :
    v.differing.addSnapshot t row = (v.addSnapshot t row).differing := by
  have hcurrent := (extends_addSnapshot v t row).currentValues
  cases row with
  | none => rfl
  | some row =>
    have hold : (v.snapshots.map fun p => (p.1, p.2.changedFrom v.currentValues)).filter
        (fun p => p.1 != t.key) = (v.snapshots.filter fun p => p.1 != t.key).map
          fun p => (p.1, p.2.changedFrom v.currentValues) := List.filter_map
    have hnew : (if v.differencesOnly then
        (⟨t, attributesOf row⟩ : Snapshot).changedFrom v.currentValues
        else ⟨t, attributesOf row⟩).changedFrom v.currentValues =
          (⟨t, attributesOf row⟩ : Snapshot).changedFrom v.currentValues := by
      split
      · exact Snapshot.changedFrom_changedFrom _ _
      · rfl
    rw [differing.eq_1 (v.addSnapshot t (some row)), hcurrent, addSnapshot, addSnapshot]
    simp only [List.map_append, List.map_cons, List.map_nil, hnew, ← hold]
    rfl

theorem addMatch_differing (v : EntityView) (t : Timestamp) :
    v.differing.addMatch t = (v.addMatch t).differing := by
  rw [addMatch, addMatch]
  cases hany : v.matchedAt.any t.same with
  | true => exact (if_pos hany).trans (by rw [if_pos rfl])
  | false =>
    have hneg : ¬v.differing.matchedAt.any t.same = true := ne_true_of_eq_false hany
    rw [if_neg hneg, if_neg Bool.false_ne_true]
    rfl

theorem addFinding_differing (findings : List (String × Finding)) (id : Value) (v : EntityView)
    (t : Timestamp) :
    addFinding findings id v.differing t = (addFinding findings id v t).differing := by
  rw [addFinding, addFinding, addSnapshot_differing]
  split
  · exact addMatch_differing _ t
  · rfl

/-- The view of differences is that of what was found, turned into one of differences. -/
theorem addFindings_differing (ts : List Timestamp) (e : Entity)
    (findings : List (String × Finding)) : (started true ts e).addFindings findings =
      ((started false ts e).addFindings findings).differing := by
  have hfold : ∀ v : EntityView, ts.foldl (addFinding findings ((e.get? "id").getD .null))
      v.differing = (ts.foldl (addFinding findings ((e.get? "id").getD .null)) v).differing :=
    fun v => List.foldl_hom differing fun v t => addFinding_differing findings _ v t
  rw [addFindings_eq, addFindings_eq, ← hfold]
  rfl

end EntityView

end Chronicle
