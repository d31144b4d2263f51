import Chronicle.Proofs.Outcome
import Chronicle.Proofs.Store.Holding

/-!
# Rows that are not taken in

A row is refused for its values and for the rules of its table, and for nothing else.

* `Failure.isOutOfOrder`: an entry was refused for its time;
* `Database.isOutOfOrder_of_insert`: no row is.
-/

namespace Chronicle

open Chronicle.Calendar

/-- An entry was refused for its time. -/
def Failure.isOutOfOrder : Failure → Bool
  | entryOutOfOrder _ _ _ _ _ => true
  | _ => false

theorem Binding.isOutOfOrder_of_bind {b : Binding} {v : Value} {f : Failure}
    (h : b.bind v = .refused f) : f.isOutOfOrder = false := by
  have hplain : Binding.bindPlain v = .refused f → f.isOutOfOrder = false := by
    intro h
    unfold Binding.bindPlain at h
    split at h <;> try cases h
    · split at h <;> cases h
      rfl
    · rfl
  cases b with
  | plain => exact hplain h
  | truth =>
    have h : Binding.bindTruth v = .refused f := h
    unfold Binding.bindTruth at h
    split at h <;> try cases h
    · split at h <;> cases h
    · split at h
      · cases h
      · split at h <;> cases h
  | clock =>
    have h : Binding.bindClock v = .refused f := h
    unfold Binding.bindClock at h
    split at h <;> cases h
  | day =>
    have h : Binding.bindDay v = .refused f := h
    unfold Binding.bindDay at h
    split at h <;> cases h
  | instant =>
    have h : Binding.bindInstant v = .refused f := h
    unfold Binding.bindInstant at h
    split at h <;> try cases h
    · split at h <;> cases h

namespace Database

theorem isOutOfOrder_of_bindColumns {cs : List Column} {values : String → Value} {f : Failure}
    (h : bindColumns cs values = .error f) : f.isOutOfOrder = false := by
  rcases bind_eq_error_iff.mp h with h | ⟨_, -, h⟩
  · rw [Bound.check_eq] at h
    split at h
    · next hm =>
      cases h
      obtain ⟨b, -, hb⟩ := List.exists_of_findSome?_eq_some hm
      cases b <;> cases hb
      rfl
    · split at h
      · next hr =>
        cases h
        obtain ⟨b, hmem, hb⟩ := List.exists_of_findSome?_eq_some hr
        cases b with
        | refused cause =>
          cases hb
          simp only [List.map_map, List.mem_map] at hmem
          obtain ⟨c, -, hc⟩ := hmem
          exact Binding.isOutOfOrder_of_bind hc
        | cell | mistyped => cases hb
      · cases h
  · cases h

/-- No time is looked at when a row is taken in. -/
theorem isOutOfOrder_of_insert {db : Database} {t : Table} {values : List (String × Value)}
    {clock : Instant} {f : Failure} (h : db.insert t values clock = .error f) :
    f.isOutOfOrder = false := by
  unfold insert at h
  rcases bind_eq_error_iff.mp h with h | ⟨cells, -, h⟩
  · exact isOutOfOrder_of_bindColumns h
  rcases bind_eq_error_iff.mp h with h | ⟨id, -, h⟩
  · unfold idCell at h
    split at h <;> cases h
    rfl
  rcases bind_eq_error_iff.mp h with h | ⟨-, -, h⟩
  · unfold checkFilled at h
    split at h <;> cases h
    rfl
  rcases bind_eq_error_iff.mp h with h | ⟨-, -, h⟩
  · unfold checkUnique at h
    split at h <;> cases h
    rfl
  rcases bind_eq_error_iff.mp h with h | ⟨-, -, h⟩
  · unfold checkReferences at h
    dsimp only at h
    split at h <;> cases h
    rfl
  · cases h

end Database

end Chronicle
