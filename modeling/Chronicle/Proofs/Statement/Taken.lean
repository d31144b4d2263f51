import Chronicle.Proofs.Outcome
import Chronicle.Proofs.Statement.Renamed
import Chronicle.Proofs.Store.Holding

/-!
# Statements that the store takes

The store takes a statement that can be written, whose values have room in cells and whose names mean
something.

* `Slots.exists_values_iff`: values that have room;
* `Select.checkAll_eq_ok_iff`: what the store asks of a statement;
* `Select.Frame`, `Select.checkAll_under_iff`: what it asks of the conditions, and of the rest.
-/

namespace Chronicle

namespace Slots

/-- All parameters have values that are cells. -/
def AreCells (slots : Slots) : Prop := ∀ o ∈ slots, ∃ y, o = some (.cell y)

theorem exists_values_iff {slots : Slots} :
    (∃ bounds, slots.values = .ok bounds ∧ ∀ b ∈ bounds, ∃ y, b = .cell y) ↔
      slots.AreCells := by
  induction slots with
  | nil => exact ⟨fun _ _ ho => (nomatch ho), fun _ => ⟨[], rfl, fun _ hb => (nomatch hb)⟩⟩
  | cons o slots ih =>
    rw [AreCells, List.forall_mem_cons]
    constructor
    · rintro ⟨bounds, hvalues, hcells⟩
      obtain ⟨b, bs, hb, hbs, rfl⟩ := mapM_cons_eq_ok_iff.mp hvalues
      obtain ⟨⟨y, rfl⟩, hrest⟩ := List.forall_mem_cons.mp hcells
      refine ⟨⟨y, ?_⟩, ih.mp ⟨bs, hbs, hrest⟩⟩
      cases o with
      | none => cases hb
      | some b => rw [Except.ok.inj hb]
    · rintro ⟨⟨y, rfl⟩, hcells⟩
      obtain ⟨bs, hbs, hall⟩ := ih.mpr hcells
      exact ⟨.cell y :: bs, mapM_cons_eq_ok_iff.mpr ⟨_, _, rfl, hbs, rfl⟩,
        List.forall_mem_cons.mpr ⟨⟨y, rfl⟩, hall⟩⟩

end Slots

theorem Clause.areCells_allSlots_iff {cs : List Clause} :
    (Clause.allSlots cs).AreCells ↔ ∀ c ∈ cs, c.slots.AreCells := by
  induction cs with
  | nil => exact ⟨fun _ => List.forall_mem_nil _, fun _ => List.forall_mem_nil _⟩
  | cons c cs ih =>
    rw [Clause.allSlots, Slots.AreCells, List.forall_mem_append, List.forall_mem_cons, ← ih]
    exact Iff.rfl

namespace Select

theorem checkAll_eq_ok_iff {s : Select} : s.checkAll = .ok () ↔
    (∃ x, s.render = .ok x) ∧ s.slots.AreCells ∧ s.check [] = .ok () := by
  rw [← Slots.exists_values_iff]
  constructor
  · intro h
    obtain ⟨x, hx, h⟩ := bind_eq_ok_iff.mp h
    obtain ⟨bounds, hbounds, h⟩ := bind_eq_ok_iff.mp h
    obtain ⟨_, -, h⟩ := bind_eq_ok_iff.mp h
    obtain ⟨_, hcheck, h⟩ := bind_eq_ok_iff.mp h
    exact ⟨⟨x, hx⟩, ⟨bounds, hbounds, (Bound.check_eq_ok_iff _).mp h⟩, hcheck⟩
  · rintro ⟨⟨x, hx⟩, ⟨bounds, hbounds, hcells⟩, hcheck⟩
    refine bind_eq_ok_iff.mpr ⟨x, hx, bind_eq_ok_iff.mpr ⟨bounds, hbounds, bind_eq_ok_iff.mpr
      ⟨(), ?_, bind_eq_ok_iff.mpr ⟨(), hcheck, (Bound.check_eq_ok_iff _).mpr hcells⟩⟩⟩⟩
    exact (Bound.check_eq_ok_iff _).mpr fun b hb => hcells b (List.mem_filter.mp hb).1

/-! ## Conditions and the rest -/

/-- A statement with other conditions. -/
def under (s : Select) (cs : List Clause) : Select := { s with conditions := cs }

/-- The relations of a statement as its conditions see them. -/
def view (s : Select) : Env := [emptyRelations s.sources]

/-- The store takes the columns, joins, orders and the limit of a statement. -/
structure Frame (s : Select) : Prop where
  slots : (s.under []).slots.AreCells
  check : (s.under []).check [] = .ok ()

theorem areCells_under_iff {s : Select} {cs : List Clause} : (s.under cs).slots.AreCells ↔
    (s.under []).slots.AreCells ∧ (Clause.allSlots cs).AreCells := by
  rw [slots_eq, slots_eq]
  simp only [under, Slots.AreCells, Clause.allSlots, List.forall_mem_append, List.append_nil]
  tauto

theorem check_under_iff {s : Select} {cs : List Clause} : (s.under cs).check [] = .ok () ↔
    (s.under []).check [] = .ok () ∧ checkJoined s.view .and cs = .ok () ∧
      Clause.checkAll s.view cs = .ok () := by
  have hnone : checkJoined s.view .and [] = .ok () ∧ Clause.checkAll s.view [] = .ok () :=
    ⟨rfl, by rw [Clause.checkAll]⟩
  rw [check_eq, check_eq]
  -- both checks have the same steps, of which two are about the conditions
  change (do
    requires _
    JoinedSource.check _ _ _ _
    checkJoined s.view .and cs
    Clause.checkAll s.view cs
    _) = _ ↔ (do
      requires _
      JoinedSource.check _ _ _ _
      checkJoined s.view .and []
      Clause.checkAll s.view []
      _) = _ ∧ _
  rw [hnone.1, hnone.2]
  constructor
  · intro h
    obtain ⟨_, hcolumns, h⟩ := bind_eq_ok_iff.mp h
    obtain ⟨_, hjoins, h⟩ := bind_eq_ok_iff.mp h
    obtain ⟨_, hjoined, h⟩ := bind_eq_ok_iff.mp h
    obtain ⟨_, hall, horders⟩ := bind_eq_ok_iff.mp h
    exact ⟨bind_eq_ok_iff.mpr ⟨(), hcolumns, bind_eq_ok_iff.mpr ⟨(), hjoins, horders⟩⟩,
      hjoined, hall⟩
  · rintro ⟨h, hjoined, hall⟩
    obtain ⟨_, hcolumns, h⟩ := bind_eq_ok_iff.mp h
    obtain ⟨_, hjoins, horders⟩ := bind_eq_ok_iff.mp h
    exact bind_eq_ok_iff.mpr ⟨(), hcolumns, bind_eq_ok_iff.mpr ⟨(), hjoins, bind_eq_ok_iff.mpr
      ⟨(), hjoined, bind_eq_ok_iff.mpr ⟨(), hall, horders⟩⟩⟩⟩

/-- What the store asks of a statement that can be written: something of the conditions, and
something of the rest. -/
theorem checkAll_under_iff {s : Select} {cs : List Clause} : (s.under cs).checkAll = .ok () ↔
    (∃ x, (s.under cs).render = .ok x) ∧ s.Frame ∧ (Clause.allSlots cs).AreCells ∧
      checkJoined s.view .and cs = .ok () ∧ Clause.checkAll s.view cs = .ok () := by
  rw [checkAll_eq_ok_iff, areCells_under_iff, check_under_iff]
  exact ⟨fun ⟨hrender, ⟨hslots, hcells⟩, hcheck, hconditions⟩ =>
      ⟨hrender, ⟨hslots, hcheck⟩, hcells, hconditions⟩,
    fun ⟨hrender, hframe, hcells, hconditions⟩ =>
      ⟨hrender, ⟨hframe.slots, hcells⟩, hframe.check, hconditions⟩⟩

end Select

end Chronicle
