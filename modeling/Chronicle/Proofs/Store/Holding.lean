import Chronicle.Store.Database
import Chronicle.Proofs.Calendar.Ordinal

/-!
# What columns hold

The cells that a column can hold are those that a value leaves behind when it is taken in.  Such a
cell is stable: its value, taken in again, is the same cell.

* `ColumnType.Takes`: the cells that a column of a type can hold;
* `Binding.takes_of_bind`: a value that is bound for a column leaves such a cell;
* `Binding.bind_toScalar`: the value of such a cell is bound to the same cell again;
* `Bound.check_eq`: the first value that cannot be bound, if there is one;
* `Scalar.equals_self`: which values equal themselves.
-/

namespace Chronicle

open Chronicle.Calendar Chronicle.Decimal

/-! ## Bound values -/

namespace Bound

def mistyped? : Bound → Option Failure
  | mistyped cause => some (.cannotBind cause)
  | _ => none

def refused? : Bound → Option Failure
  | refused cause => some cause
  | _ => none

/-- A loop that stops at the first failure. -/
theorem forIn_failure (g : Bound → Option Failure) (bs : List Bound)
    (step : Bound → PUnit → Except Failure (ForInStep PUnit))
    (h : ∀ b, step b ⟨⟩ = match g b with
      | some f => .error f
      | none => .ok (.yield ⟨⟩)) :
    (forIn bs PUnit.unit step : Except Failure PUnit) = match bs.findSome? g with
      | some f => .error f
      | none => .ok ⟨⟩ := by
  induction bs with
  | nil => rfl
  | cons b bs ih =>
    rw [List.forIn_cons, h, List.findSome?_cons]
    cases g b with
    | some f => rfl
    | none => exact ih

/-- All values are asked for their types before the first is asked for room. -/
theorem check_eq (bs : List Bound) :
    check bs = match bs.findSome? mistyped? with
      | some f => .error f
      | none => match bs.findSome? refused? with
        | some f => .error f
        | none => .ok () := by
  unfold check
  rw [forIn_failure mistyped? bs _ (fun b => by cases b <;> rfl),
    forIn_failure refused? bs _ (fun b => by cases b <;> rfl)]
  cases bs.findSome? mistyped? with
  | some f => rfl
  | none => cases bs.findSome? refused? <;> rfl

theorem check_eq_ok_iff (bs : List Bound) : check bs = .ok () ↔ ∀ b ∈ bs, ∃ c, b = .cell c := by
  have hcell : ∀ b : Bound, (∃ c, b = .cell c) ↔ b.mistyped? = none ∧ b.refused? = none := by
    intro b
    cases b <;> simp [mistyped?, refused?]
  have hsome : ∀ (g : Bound → Option Failure),
      bs.findSome? g = none ↔ ∀ b ∈ bs, g b = none := by simp
  rw [check_eq]
  simp only [hcell]
  constructor
  · intro h
    cases hm : bs.findSome? mistyped? with
    | some f => simp [hm] at h
    | none =>
      cases hr : bs.findSome? refused? with
      | some f => simp [hm, hr] at h
      | none => exact fun b hb => ⟨(hsome _).mp hm b hb, (hsome _).mp hr b hb⟩
  · intro h
    rw [(hsome _).mpr fun b hb => (h b hb).1, (hsome _).mpr fun b hb => (h b hb).2]

/-- Cells before other values are no reason to refuse them. -/
theorem check_append {cs bs : List Bound} (hcs : ∀ c ∈ cs, ∃ x, c = .cell x) :
    check (cs ++ bs) = check bs := by
  have hnone : ∀ {g : Bound → Option Failure}, (∀ x, g (.cell x) = none) →
      (cs ++ bs).findSome? g = bs.findSome? g := by
    intro g hg
    have hcells : cs.findSome? g = none := by
      rw [List.findSome?_eq_none_iff]
      intro c hc
      obtain ⟨x, rfl⟩ := hcs c hc
      exact hg x
    rw [List.findSome?_append, hcells, Option.none_or]
  rw [check_eq, check_eq, hnone fun _ => rfl, hnone fun _ => rfl]

end Bound

/-! ## Cells of columns -/

namespace ColumnType

/-- The cells that a column of a type can hold: nothing, or what it prefers.  A column of numbers
also holds texts that are no numbers. -/
def Takes : ColumnType → Cell → Prop
  | _, .null => True
  | .integer, .int i => Cell.isStorable i = true
  | .integer, .real x => x ≠ .nan ∧ Cell.ofReal x = .real x
  | .integer, .text s => Cell.numberOfText s = .text s
  | .text, .text _ => True
  | .boolean, .int i => i = 0 ∨ i = 1
  | .instant, .instant i => i.micros < Instant.bound
  | _, _ => False

/-- A number that is rounded to a whole one if it is whole is of a form that a column holds. -/
theorem takes_ofReal {x : Binary64} (h : x ≠ .nan) : integer.Takes (Cell.ofReal x) := by
  unfold Cell.ofReal
  split
  · next i hi =>
    split
    · assumption
    · next hs => exact ⟨h, by simp [Cell.ofReal, hi, hs]⟩
  · next hi => exact ⟨h, by simp [Cell.ofReal, hi]⟩

end ColumnType

namespace Decimal

namespace Binary64

theorem ofQuotient_ne_nan (negative : Bool) (num den : Nat) :
    ofQuotient negative num den ≠ nan := by
  unfold ofQuotient ofUnits
  dsimp only
  split <;> simp

theorem ofDecimal_ne_nan (negative : Bool) (digits : Nat) (exponent : Int) :
    ofDecimal negative digits exponent ≠ nan := by
  unfold ofDecimal
  dsimp only
  split
  · simp
  · split
    · simp
    · split
      · simp
      · split <;> exact ofQuotient_ne_nan _ _ _

end Binary64

end Decimal

namespace ColumnType

theorem takes_numberOfText (s : String) : integer.Takes (Cell.numberOfText s) := by
  unfold Cell.numberOfText
  split
  · split
    · next h =>
      simp only [Bool.and_eq_true] at h
      exact h.2
    · exact takes_ofReal (Binary64.ofDecimal_ne_nan _ _ _)
  · next h => simp [Takes, Cell.numberOfText, h]

end ColumnType

namespace Binding

/-- A value that is bound as it is leaves a number or a text, and no number that is none. -/
theorem bindPlain_cell {v : Value} {c : Cell} (h : bindPlain v = .cell c) :
    c = .null ∨ (∃ i, c = .int i ∧ Cell.isStorable i = true) ∨ (∃ x, c = .real x ∧ x ≠ .nan) ∨
      ∃ s, c = .text s := by
  unfold bindPlain at h
  split at h <;> try cases h
  · exact Or.inl rfl
  · next b => exact Or.inr (Or.inl ⟨_, rfl, by cases b <;> rfl⟩)
  · split at h
    · next i hi =>
      cases h
      exact Or.inr (Or.inl ⟨i, rfl, hi⟩)
    · cases h
  · exact Or.inl rfl
  · next x hx => exact Or.inr (Or.inr (Or.inl ⟨x, rfl, fun e => hx (by rw [e])⟩))
  · exact Or.inr (Or.inr (Or.inr ⟨_, rfl⟩))
  · exact Or.inr (Or.inr (Or.inr ⟨_, rfl⟩))

theorem bindTruth_cell {v : Value} {c : Cell} (h : bindTruth v = .cell c) :
    c = .null ∨ c = .int 0 ∨ c = .int 1 := by
  unfold bindTruth at h
  split at h
  · cases h
    exact Or.inl rfl
  · next b =>
    cases h
    cases b
    · exact Or.inr (Or.inl rfl)
    · exact Or.inr (Or.inr rfl)
  · split at h
    · next hi =>
      cases h
      rcases hi with rfl | rfl
      · exact Or.inr (Or.inl rfl)
      · exact Or.inr (Or.inr rfl)
    · cases h
  · split at h
    · cases h
      exact Or.inr (Or.inl rfl)
    · split at h
      · cases h
        exact Or.inr (Or.inr rfl)
      · cases h
  · cases h

theorem bindInstant_cell {v : Value} {c : Cell} (h : bindInstant v = .cell c) :
    c = .null ∨ ∃ i, c = .instant i ∧ i.micros < Instant.bound := by
  unfold bindInstant at h
  split at h
  · cases h
    exact Or.inl rfl
  · split at h
    · next i hi =>
      cases h
      exact Or.inr ⟨i, rfl, Moment.toStored_lt hi⟩
    · cases h
  · cases h

/-- A value that is bound for a column leaves a cell that the column can hold. -/
theorem takes_of_bind {t : ColumnType} {v : Value} {c : Cell}
    (h : (intoColumn t).bind v = .cell c) : t.Takes (c.under t.affinity) := by
  cases t with
  | integer =>
    rcases bindPlain_cell h with rfl | ⟨i, rfl, hi⟩ | ⟨x, rfl, hx⟩ | ⟨s, rfl⟩
    · exact trivial
    · exact hi
    · exact ColumnType.takes_ofReal hx
    · exact ColumnType.takes_numberOfText s
  | text =>
    rcases bindPlain_cell h with rfl | ⟨i, rfl, hi⟩ | ⟨x, rfl, hx⟩ | ⟨s, rfl⟩ <;> exact trivial
  | boolean =>
    rcases bindTruth_cell h with rfl | rfl | rfl
    · exact trivial
    · exact Or.inl rfl
    · exact Or.inr rfl
  | instant =>
    rcases bindInstant_cell h with rfl | ⟨i, rfl, hi⟩
    · exact trivial
    · exact hi

/-- The value of a cell in a column, taken in again, is the same cell. -/
theorem bind_toScalar {t : ColumnType} {c : Cell} (h : t.Takes c) :
    ∃ d, (intoColumn t).bind (.scalar (c.toScalar t)) = .cell d ∧ d.under t.affinity = c := by
  cases t with
  | integer =>
    cases c with
    | null => exact ⟨.null, rfl, rfl⟩
    | int i =>
      have hi : Cell.isStorable i = true := h
      exact ⟨.int i, by simp [intoColumn, bind, Cell.toScalar, bindPlain, hi], rfl⟩
    | real x =>
      refine ⟨.real x, ?_, h.2⟩
      cases x with
      | nan => exact absurd rfl h.1
      | finite s a => rfl
      | infinite s => rfl
    | text s => exact ⟨.text s, rfl, h⟩
    | instant i => exact h.elim
  | text =>
    cases c with
    | null => exact ⟨.null, rfl, rfl⟩
    | text s => exact ⟨.text s, rfl, rfl⟩
    | int i => exact h.elim
    | real x => exact h.elim
    | instant i => exact h.elim
  | boolean =>
    cases c with
    | null => exact ⟨.null, rfl, rfl⟩
    | int i =>
      rcases h with rfl | rfl
      · exact ⟨.int 0, rfl, rfl⟩
      · exact ⟨.int 1, rfl, rfl⟩
    | text s => exact h.elim
    | real x => exact h.elim
    | instant i => exact h.elim
  | instant =>
    cases c with
    | null => exact ⟨.null, rfl, rfl⟩
    | instant i =>
      refine ⟨.instant i, ?_, rfl⟩
      simp only [intoColumn, bind, Cell.toScalar, bindInstant]
      rw [Instant.toStored_moment h]
    | text s => exact h.elim
    | real x => exact h.elim
    | int i => exact h.elim

end Binding

/-! ## Values that equal themselves -/

theorem Calendar.Moment.equals_self (m : Moment) : m.equals m = true := by
  unfold Moment.equals
  cases m.offset <;> exact beq_self_eq_true _

theorem Decimal.Binary64.equals_self {x : Binary64} (h : x ≠ .nan) : x.equals x = true := by
  cases x with
  | nan => exact absurd rfl h
  | infinite s => simp [equals, compare?]
  | finite s a => simp [equals, compare?]

/-- All values equal themselves but the number that is none. -/
theorem Scalar.equals_self {s : Scalar} (h : s ≠ .float .nan) : s.equals s = true := by
  cases s with
  | null => rfl
  | bool b => exact beq_self_eq_true b
  | int i => exact beq_self_eq_true i
  | float x => exact Binary64.equals_self fun e => h (congrArg Scalar.float e)
  | text t => exact beq_self_eq_true t
  | moment m => exact m.equals_self
  | date d => exact beq_self_eq_true d

theorem Cell.toScalar_ne_nan {c : Cell} (h : c ≠ .real .nan) (t : ColumnType) :
    c.toScalar t ≠ .float .nan := by
  cases c with
  | null | text s | instant i => exact nofun
  | int i => cases t <;> exact nofun
  | real x =>
    have hx : Scalar.float x ≠ .float .nan := fun e => h (congrArg Cell.real (Scalar.float.inj e))
    cases t with
    | boolean => exact nofun
    | integer | text | instant => exact hx

/-- The value of a cell equals itself. -/
theorem Cell.equals_self_toScalar {c : Cell} (h : c ≠ .real .nan) (t : ColumnType) :
    (c.toScalar t).equals (c.toScalar t) = true := Scalar.equals_self (Cell.toScalar_ne_nan h t)

theorem ColumnType.Takes.ne_nan {t : ColumnType} {c : Cell} (h : t.Takes c) : c ≠ .real .nan := by
  rintro rfl
  cases t with
  | integer => exact h.1 rfl
  | text | boolean | instant => exact h.elim

end Chronicle
