import Chronicle.Filter.Predicate
import Chronicle.Proofs.Outcome

/-!
# The predicates of conditions

Conditions become predicates once their values have been read.

* `Record.readItems_scalar_eq_ok_iff`: lists of single values;
* `Predicate.among_list_eq_ok_iff`: the predicate that a list becomes;
* `Condition.length_comparedValues`: times are read one by one.
-/

namespace Chronicle

open Chronicle.Calendar

namespace Record

theorem Checked.under_eq_ok {α : Type} {s : Step} {x : Checked α} {a : α}
    (h : Checked.under s x = .ok a) : x = .ok a := by
  cases x with
  | error is => cases h
  | ok b => exact h

theorem Checked.orFail_eq_ok {α : Type} {x : Checked α} {a : α} (h : x.orFail = .ok a) :
    x = .ok a := by
  cases x with
  | error is => cases h
  | ok b =>
    cases h
    rfl

theorem scalar_eq_ok {v : Value} {s : Scalar} (h : scalar v = .ok s) : v = .scalar s := by
  cases v with
  | scalar t =>
    cases h
    rfl
  | _ => cases h

/-- The items of a list that can be read as single values are single values. -/
theorem readItems_scalar_eq_ok_iff {n : Nat} {vs : List Value} {ss : List Scalar} :
    readItems scalar n vs = .ok ss ↔ vs = ss.map .scalar := by
  constructor
  · intro h
    induction vs generalizing n ss with
    | nil =>
      cases h
      rfl
    | cons v vs ih =>
      obtain ⟨⟨s, ss⟩, hboth, rfl⟩ := map_eq_ok_iff.mp h
      obtain ⟨hv, hvs⟩ := Checked.both_eq_ok hboth
      rw [scalar_eq_ok (Checked.under_eq_ok hv), ih hvs, List.map_cons]
  · rintro rfl
    exact readItems_map scalar .scalar (fun _ => rfl) n ss

end Record

open Record

namespace Predicate

variable (column : ColumnRef) (s : Scalar)

theorem equal_scalar : equal column (.scalar s) = .ok (.equality column (.value s)) := rfl

theorem unequal_scalar : unequal column (.scalar s) = .ok (.notEqual column (.value s)) := rfl

theorem compared_scalar (op : Comparator) :
    compared column op (.scalar s) = .ok (.comparison column op (.value s)) := rfl

variable {column}

/-- The items of a list are looked for if they are single values. -/
theorem among_list_eq_ok_iff {vs : List Value} {negated : Bool}
    {p : Predicate} : among column (.list vs) negated = .ok p ↔
      ∃ ss : List Scalar, vs = ss.map .scalar ∧ p = .membership column ss none negated := by
  constructor
  · intro h
    obtain ⟨items, hitems, h⟩ := bind_eq_ok_iff.mp h
    cases hitems
    obtain ⟨ss, hss, h⟩ := bind_eq_ok_iff.mp h
    cases h
    exact ⟨ss, readItems_scalar_eq_ok_iff.mp (Checked.under_eq_ok (Checked.orFail_eq_ok hss)), rfl⟩
  · rintro ⟨ss, rfl, rfl⟩
    refine bind_eq_ok_iff.mpr ⟨_, rfl, bind_eq_ok_iff.mpr ⟨ss, ?_, rfl⟩⟩
    rw [readItems_scalar_eq_ok_iff.mpr rfl]
    rfl

end Predicate

namespace Condition

theorem length_comparedValues {c : Condition} {clock : Instant} {vs : List Value}
    (h : c.comparedValues clock = .ok vs) : vs.length = c.values.length := by
  unfold comparedValues at h
  split at h
  · exact length_of_mapM h
  · cases h
    rfl

end Condition

end Chronicle
