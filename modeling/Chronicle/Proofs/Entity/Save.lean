import Chronicle.Entity
import Chronicle.Proofs.Journal.Append

/-!
# Writing entities

A write of an entity changes one row of the live table of its kind, or adds one.

* `Entity.insertInto_eq_ok_iff`, `Entity.saveInto_cases`: what a write does;
* `Entity.sound_of_insertInto`, `Entity.sound_of_saveInto`: it keeps the store sound and leaves all
  other tables alone.
-/

namespace Chronicle

open Chronicle.Calendar

namespace Entity

variable {e e' : Entity} {clock : Instant} {db db' : Database}

theorem insertInto_eq_ok_iff :
    e.insertInto clock db = .ok (e', db') ↔
      ∃ r, db.insert e.kind.table (e.values.filter fun f => !f.2.isNull) clock = .ok (r, db') ∧
        e' = ofRow e.kind r := by
  unfold insertInto
  rw [bind_eq_ok_iff]
  constructor
  · rintro ⟨⟨r, db₁⟩, h, hret⟩
    cases hret
    exact ⟨r, h, rfl⟩
  · rintro ⟨r, h, rfl⟩
    exact ⟨(r, db'), h, rfl⟩

theorem mem_of_row? {old : Row} (h : e.row? db = .ok (some old)) :
    old ∈ db.tableRows e.kind.table := by
  unfold row? at h
  split at h
  · cases h
  · obtain ⟨_, -, h⟩ := bind_eq_ok_iff.mp h
    exact List.mem_of_find?_eq_some (Except.ok.inj h)

/-- The values of an entity that differ from those in its row. -/
def changes (e : Entity) (old : Row) : List (String × Value) :=
  e.values.filter fun (n, v) => !(((ofRow e.kind old).get? n).any v.equals) && n != "id"

theorem lookup_id_changes (e : Entity) (old : Row) : (e.changes old).lookup "id" = none := by
  rw [List.lookup_eq_none_iff]
  intro f hf
  have hp := (List.mem_filter.mp hf).2
  simp only [Bool.and_eq_true] at hp
  rw [bne_comm]
  exact hp.2

/-- A save adds a row, finds nothing to change, or changes the row of the entity. -/
theorem saveInto_cases (h : e.saveInto clock db = .ok (e', db')) :
    (e.row? db = .ok none ∧ e.insertInto clock db = .ok (e', db')) ∨
      (∃ old, e.row? db = .ok (some old) ∧ e.changes old = [] ∧ e' = ofRow e.kind old ∧ db' = db) ∨
      ∃ old r, e.row? db = .ok (some old) ∧
        db.update e.kind.table old (e.changes old) = .ok (r, db') ∧ e' = ofRow e.kind r := by
  unfold saveInto at h
  obtain ⟨found, hfound, h⟩ := bind_eq_ok_iff.mp h
  cases found with
  | none => exact Or.inl ⟨hfound, h⟩
  | some old =>
    change (if (e.changes old).isEmpty then _ else _) = _ at h
    split at h
    · next hempty =>
      cases h
      exact Or.inr (Or.inl ⟨old, hfound, List.isEmpty_iff.mp hempty, rfl, rfl⟩)
    · obtain ⟨⟨r, db₁⟩, hu, hret⟩ := bind_eq_ok_iff.mp h
      cases hret
      exact Or.inr (Or.inr ⟨old, r, hfound, hu, rfl⟩)

/-- What a write of an entity leaves behind: a sound store with other rows in one live table. -/
theorem sound_of_insertInto (hs : db.Sound) (h : e.insertInto clock db = .ok (e', db')) :
    db'.Sound ∧ ∃ rows, db' = db.setRows e.kind.table rows := by
  obtain ⟨r, hi, -⟩ := insertInto_eq_ok_iff.mp h
  exact ⟨hs.insert e.kind.table_mem hi, _, Database.tableRows_of_insert hi⟩

theorem sound_of_saveInto (hs : db.Sound) (h : e.saveInto clock db = .ok (e', db')) :
    db'.Sound ∧ (db' = db ∨ ∃ rows, db' = db.setRows e.kind.table rows) := by
  rcases saveInto_cases h with ⟨-, hi⟩ | ⟨old, -, -, -, rfl⟩ | ⟨old, r, hfound, hu, -⟩
  · obtain ⟨hs', hrows⟩ := sound_of_insertInto hs hi
    exact ⟨hs', Or.inr hrows⟩
  · exact ⟨hs, Or.inl rfl⟩
  · refine ⟨hs.update e.kind.table_mem (mem_of_row? hfound) (lookup_id_changes e old) hu, Or.inr ?_⟩
    obtain ⟨_, _, _, _, _, hdb⟩ := Database.update_eq_ok_iff.mp hu
    exact ⟨_, hdb⟩

/-- What a write answers is a row of the live table. -/
theorem row_of_insertInto (h : e.insertInto clock db = .ok (e', db')) :
    ∃ r ∈ db'.tableRows e.kind.table, e' = ofRow e.kind r := by
  obtain ⟨r, hi, rfl⟩ := insertInto_eq_ok_iff.mp h
  refine ⟨r, ?_, rfl⟩
  rw [Database.tableRows_of_insert hi, Database.tableRows_setRows]
  exact (Database.mem_place r r _).mpr (Or.inl rfl)

theorem row_of_saveInto (h : e.saveInto clock db = .ok (e', db')) :
    ∃ r ∈ db'.tableRows e.kind.table, e' = ofRow e.kind r := by
  rcases saveInto_cases h with ⟨-, hi⟩ | ⟨old, hfound, -, rfl, rfl⟩ | ⟨old, r, hfound, hu, rfl⟩
  · exact row_of_insertInto hi
  · exact ⟨old, mem_of_row? hfound, rfl⟩
  · obtain ⟨_, _, _, _, _, rfl⟩ := Database.update_eq_ok_iff.mp hu
    refine ⟨r, ?_, rfl⟩
    rw [Database.tableRows_setRows, List.mem_map]
    exact ⟨old, mem_of_row? hfound, if_pos (beq_self_eq_true _)⟩

end Entity

end Chronicle
