import Chronicle.Duration
import Chronicle.Proofs.Calendar.Ordinal

/-!
# Shifting by months

A date as many months later keeps its day, or takes the last day of a month that is too short; the
months themselves are exact, however many and in either direction.

* `Date.ordinal_le_iff`: the order of the days' numbers is that of the months and, within one
  month, of the days;
* `Date.exists_shiftMonths?`: there is a shifted date exactly where the month lies in the calendar;
* `Date.shiftMonths?_mono`: dates shifted alike keep their order;
* `Duration.shiftMonths_exact`: all of it about moments, with the way back.
-/

namespace Chronicle

open Chronicle.Calendar

namespace Calendar.Date

/-! ## The order of dates -/

theorem isLeap_iff (year : Nat) :
    isLeap year = true ↔ 4 ∣ year ∧ (¬ 100 ∣ year ∨ 400 ∣ year) := by
  simp [isLeap, Nat.dvd_iff_mod_eq_zero]

theorem daysBeforeYear_succ {year : Nat} (h : 1 ≤ year) :
    daysBeforeYear (year + 1) = daysBeforeYear year + if isLeap year then 366 else 365 := by
  obtain ⟨y, rfl⟩ : ∃ y, year = y + 1 := ⟨year - 1, by omega⟩
  have h100 : 100 ∣ y + 1 → 4 ∣ y + 1 := Nat.dvd_trans (by decide)
  have h400 : 400 ∣ y + 1 → 100 ∣ y + 1 := Nat.dvd_trans (by decide)
  have hle : y / 100 ≤ y / 4 := Nat.div_le_div_left (by decide) (by decide)
  simp only [daysBeforeYear, Nat.add_sub_cancel, Nat.succ_div, isLeap_iff]
  by_cases h4 : 4 ∣ y + 1 <;> by_cases hc : 100 ∣ y + 1 <;> by_cases hg : 400 ∣ y + 1 <;>
    simp only [h4, hc, hg, if_true, if_false, not_true_eq_false, not_false_eq_true, true_and,
      false_and, or_self, or_true, or_false] at h100 h400 ⊢ <;> omega

theorem daysBeforeMonth_le {year month later : Nat} (h1 : 1 ≤ month) (h2 : month ≤ later) :
    daysBeforeMonth year month ≤ daysBeforeMonth year later := by
  induction h2 with
  | refl => exact Nat.le_refl _
  | step hle ih =>
    rw [daysBeforeMonth_succ year (Nat.le_trans h1 hle)]
    omega

theorem daysBeforeYear_le {year later : Nat} (h1 : 1 ≤ year) (h2 : year ≤ later) :
    daysBeforeYear year ≤ daysBeforeYear later := by
  induction h2 with
  | refl => exact Nat.le_refl _
  | step hle ih =>
    rw [daysBeforeYear_succ (Nat.le_trans h1 hle)]
    omega

/-- The months up to one of a year have no more days than the year. -/
theorem daysBeforeMonth_add_le (year : Nat) {month : Nat} (h1 : 1 ≤ month) (h2 : month ≤ 12) :
    daysBeforeMonth year month + daysInMonth year month ≤ if isLeap year then 366 else 365 := by
  have hdec : daysBeforeMonth year (12 + 1) = _ := daysBeforeMonth_succ year (by omega)
  have hle : daysBeforeMonth year (month + 1) ≤ daysBeforeMonth year (12 + 1) :=
    daysBeforeMonth_le (Nat.le_add_left 1 month) (Nat.add_le_add_right h2 1)
  rw [daysBeforeMonth_december] at hdec
  rw [daysBeforeMonth_succ year h1, hdec] at hle
  have hd : daysInMonth year 12 = 31 := rfl
  split
  · next hl =>
    rw [if_pos hl] at hle
    omega
  · next hl =>
    rw [if_neg hl] at hle
    omega

/-- All days of a month come before those of a later one. -/
theorem ordinal_lt_of_monthNumber_lt {a b : Date} (h : a.monthNumber < b.monthNumber) :
    a.ordinal < b.ordinal := by
  have hay := a.year_range
  have ham := a.month_range
  have had := a.day_range
  have hbm := b.month_range
  have hbd := b.day_range
  unfold ordinal
  simp only [monthNumber, minYear] at h hay
  by_cases hy : a.year = b.year
  · have hm : daysBeforeMonth b.year (a.month + 1) ≤ daysBeforeMonth b.year b.month :=
      daysBeforeMonth_le (Nat.le_add_left 1 a.month) (by omega)
    rw [daysBeforeMonth_succ _ ham.1] at hm
    rw [hy] at had ⊢
    omega
  · have hle := daysBeforeYear_le (Nat.le_add_left 1 a.year) (show a.year + 1 ≤ b.year by omega)
    rw [daysBeforeYear_succ hay.1] at hle
    have hmonth := daysBeforeMonth_add_le a.year ham.1 ham.2
    omega

theorem fields_of_monthNumber_eq {a b : Date} (h : a.monthNumber = b.monthNumber) :
    a.year = b.year ∧ a.month = b.month := by
  have ha := a.month_range
  have hb := b.month_range
  simp only [monthNumber] at h
  omega

/-- Dates are ordered by their months and, within one month, by their days. -/
theorem ordinal_le_iff (a b : Date) : a.ordinal ≤ b.ordinal ↔
    a.monthNumber < b.monthNumber ∨ a.monthNumber = b.monthNumber ∧ a.day ≤ b.day := by
  rcases Int.lt_trichotomy a.monthNumber b.monthNumber with h | h | h
  · have hlt := ordinal_lt_of_monthNumber_lt h
    exact iff_of_true (Nat.le_of_lt hlt) (Or.inl h)
  · obtain ⟨hy, hm⟩ := fields_of_monthNumber_eq h
    simp only [ordinal, hy, hm, h, Int.lt_irrefl, false_or, true_and]
    omega
  · have hlt := ordinal_lt_of_monthNumber_lt h
    exact iff_of_false (by omega) (by omega)

theorem ordinal_le_maxOrdinal (d : Date) : d.ordinal ≤ maxOrdinal := by
  have hlast : (⟨9999, 12, 31, by decide, by decide, by decide⟩ : Date).ordinal = maxOrdinal := by
    decide +kernel
  rw [← hlast, ordinal_le_iff]
  have hyear := d.year_range.2
  have hmonth := d.month_range.2
  have hday := Nat.le_trans d.day_range.2 (daysInMonth_le d.year d.month)
  simp only [monthNumber, maxYear] at hyear ⊢
  omega

/-! ## A date shifted by months -/

/-- The months of the calendar, counted from January of the year 0. -/
def HasMonth (number : Int) : Prop := 12 * (minYear : Int) ≤ number ∧ number < 12 * (maxYear + 1 : Int)

instance (number : Int) : Decidable (HasMonth number) :=
  inferInstanceAs (Decidable (_ ∧ _))

theorem hasMonth_monthNumber (d : Date) : HasMonth d.monthNumber := by
  have hy := d.year_range
  have hm := d.month_range
  simp only [HasMonth, monthNumber]
  omega

/-- What it means that a date is another one, shifted by months: the months are counted exactly,
and the day is the same or the last of its month. -/
structure IsShifted (d : Date) (months : Int) (e : Date) : Prop where
  month : e.monthNumber = d.monthNumber + months
  day : e.day = min d.day (daysInMonth e.year e.month)

theorem isShifted_of_shiftMonths? {d e : Date} {months : Int} (h : d.shiftMonths? months = some e) :
    d.IsShifted months e := by
  unfold shiftMonths? at h
  dsimp only at h
  split at h
  · next hnonneg =>
    obtain ⟨hy, hm, hd⟩ := fields_of_ofFields? h
    constructor
    · have hnumber : e.monthNumber = 12 * e.year + (e.month - 1) := rfl
      omega
    · rw [hd, hy, hm]
  · cases h

/-- A shifted date exists exactly where the calendar has the month. -/
theorem exists_shiftMonths? (d : Date) (months : Int) :
    (∃ e, d.shiftMonths? months = some e) ↔ HasMonth (d.monthNumber + months) := by
  constructor
  · rintro ⟨e, he⟩
    rw [← (isShifted_of_shiftMonths? he).month]
    exact hasMonth_monthNumber e
  · intro ⟨hmin, hmax⟩
    have hyear : minYear ≤ ((d.monthNumber + months) / 12).toNat ∧
        ((d.monthNumber + months) / 12).toNat ≤ maxYear := by omega
    have hmonth : 1 ≤ ((d.monthNumber + months) % 12).toNat + 1 ∧
        ((d.monthNumber + months) % 12).toNat + 1 ≤ 12 := by omega
    have hlong := daysInMonth_ge ((d.monthNumber + months) / 12).toNat hmonth.1 hmonth.2
    have hd := d.day_range
    unfold shiftMonths?
    dsimp only
    rw [if_pos (by unfold minYear at hmin; omega)]
    exact ⟨_, by rw [ofFields?, dif_pos hyear, dif_pos hmonth, dif_pos (by omega)]⟩

/-- Dates shifted by the same number of months keep their order. -/
theorem shiftMonths?_mono {a b a' b' : Date} {months : Int} (h : a.ordinal ≤ b.ordinal)
    (ha : a.shiftMonths? months = some a') (hb : b.shiftMonths? months = some b') :
    a'.ordinal ≤ b'.ordinal := by
  have hsa := isShifted_of_shiftMonths? ha
  have hsb := isShifted_of_shiftMonths? hb
  rw [ordinal_le_iff, hsa.month, hsb.month]
  rcases (ordinal_le_iff a b).mp h with hlt | ⟨heq, hday⟩
  · exact Or.inl (by omega)
  · have hnumber : a'.monthNumber = b'.monthNumber := by rw [hsa.month, hsb.month, heq]
    obtain ⟨hy, hm⟩ := fields_of_monthNumber_eq hnumber
    refine Or.inr ⟨by omega, ?_⟩
    rw [hsa.day, hsb.day, hy, hm]
    omega

/-- The way back leads to the month from where the way out started; only days that the other month
does not have are lost. -/
theorem IsShifted.back {d e back : Date} {months : Int} (h : d.IsShifted months e)
    (hb : e.IsShifted (-months) back) :
    back.year = d.year ∧ back.month = d.month ∧
      back.day = min d.day (daysInMonth e.year e.month) := by
  have hnumber : back.monthNumber = d.monthNumber := by
    rw [hb.month, h.month]
    omega
  obtain ⟨hy, hm⟩ := fields_of_monthNumber_eq hnumber
  refine ⟨hy, hm, ?_⟩
  have hd := d.day_range
  rw [hb.day, hy, hm, h.day]
  omega

/-- Every month has the first 28 days, so these lead back to themselves. -/
theorem IsShifted.back_eq {d e back : Date} {months : Int} (h : d.IsShifted months e)
    (hb : e.IsShifted (-months) back) (hday : d.day ≤ 28) : back = d := by
  obtain ⟨hy, hm, hd⟩ := h.back hb
  have hlong := daysInMonth_ge e.year e.month_range.1 e.month_range.2
  apply key_inj
  rw [key, key, hy, hm, hd]
  omega

end Calendar.Date

/-! ## A moment shifted by months -/

namespace Duration

/-- The time and the offset stay as they are; the date is shifted. -/
theorem shiftMonths_eq_ok_iff (m r : Moment) (months : Int) : shiftMonths m months = .ok r ↔
    ∃ d, m.date.shiftMonths? months = some d ∧ r = { m with date := d } := by
  unfold shiftMonths
  split
  · next hzero =>
    subst hzero
    simp only [Date.shiftMonths?_zero, Option.some.injEq, exists_eq_left', Except.ok.injEq]
    exact eq_comm
  · split
    · next d hd => simp [hd, eq_comm]
    · next hd => split <;> simp [hd]

/-- Moments are shifted exactly, up to the length of the month they come to, and so are they
shifted back; moments shifted alike keep the order of their dates; and where the month is outside
the calendar there is no result at all. -/
theorem shiftMonths_exact (m : Moment) (months : Int) :
    (Date.HasMonth (m.date.monthNumber + months) →
      ∃ d, shiftMonths m months = .ok { m with date := d } ∧
        d.monthNumber = m.date.monthNumber + months ∧
        d.day = min m.date.day (daysInMonth d.year d.month) ∧
        ∃ back, shiftMonths { m with date := d } (-months) = .ok { m with date := back } ∧
          back.year = m.date.year ∧ back.month = m.date.month ∧
          back.day = min m.date.day (daysInMonth d.year d.month) ∧
          (m.date.day ≤ 28 → back = m.date)) ∧
    (¬ Date.HasMonth (m.date.monthNumber + months) → ∃ f, shiftMonths m months = .error f) ∧
    ∀ later shifted shiftedLater : Moment, m.date.ordinal ≤ later.date.ordinal →
      shiftMonths m months = .ok shifted → shiftMonths later months = .ok shiftedLater →
        shifted.date.ordinal ≤ shiftedLater.date.ordinal := by
  refine ⟨fun h => ?_, fun h => ?_, fun later shifted shiftedLater hle hm hl => ?_⟩
  · obtain ⟨d, hd⟩ := (Date.exists_shiftMonths? m.date months).mpr h
    have hs := Date.isShifted_of_shiftMonths? hd
    have hreturn : Date.HasMonth (d.monthNumber + -months) := by
      rw [hs.month, Int.add_neg_cancel_right]
      exact Date.hasMonth_monthNumber m.date
    obtain ⟨back, hback⟩ := (Date.exists_shiftMonths? d (-months)).mpr hreturn
    have hb := Date.isShifted_of_shiftMonths? hback
    obtain ⟨hy, hmonth, hday⟩ := hs.back hb
    exact ⟨d, (shiftMonths_eq_ok_iff _ _ _).mpr ⟨d, hd, rfl⟩, hs.month, hs.day,
      back, (shiftMonths_eq_ok_iff _ _ _).mpr ⟨back, hback, rfl⟩, hy, hmonth, hday, hs.back_eq hb⟩
  · cases hr : shiftMonths m months with
    | error f => exact ⟨f, rfl⟩
    | ok r =>
      obtain ⟨d, hd, -⟩ := (shiftMonths_eq_ok_iff _ _ _).mp hr
      exact absurd ((Date.exists_shiftMonths? m.date months).mp ⟨d, hd⟩) h
  · obtain ⟨d, hd, rfl⟩ := (shiftMonths_eq_ok_iff _ _ _).mp hm
    obtain ⟨e, he, rfl⟩ := (shiftMonths_eq_ok_iff _ _ _).mp hl
    exact Date.shiftMonths?_mono hle hd he

/-- The last of March 2024: 1489 months back lead from a long month into a February without a leap
day, over a century that has none either; 95710 months on lead out of the calendar; and the first
of April stays behind it. -/
theorem shiftMonths_exact_lastOfMarch :
    let march : Moment := ⟨⟨2024, 3, 31, by decide, by decide, by decide⟩, 5, some 7, by decide⟩
    let april : Moment := ⟨⟨2024, 4, 1, by decide, by decide, by decide⟩, 0, none, by decide⟩
    (∃ d, shiftMonths march (-1489) = .ok { march with date := d } ∧
      d.year = 1900 ∧ d.month = 2 ∧ d.day = 28 ∧
      ∃ back, shiftMonths { march with date := d } 1489 = .ok { march with date := back } ∧
        back.year = 2024 ∧ back.month = 3 ∧ back.day = 28) ∧
      (∃ f, shiftMonths march 95710 = .error f) ∧
      ∀ shifted shiftedLater, shiftMonths march (-1489) = .ok shifted →
        shiftMonths april (-1489) = .ok shiftedLater →
          shifted.date.ordinal ≤ shiftedLater.date.ordinal := by
  intro march april
  refine ⟨?_, (shiftMonths_exact march 95710).2.1 (by decide),
    fun shifted shiftedLater => (shiftMonths_exact march (-1489)).2.2 april shifted shiftedLater
      (by decide +kernel)⟩
  obtain ⟨d, hd, hnumber, hday, back, hback, hy, hm, hbday, -⟩ :=
    (shiftMonths_exact march (-1489)).1 (by decide)
  have hmonth := d.month_range
  have hfields : d.year = 1900 ∧ d.month = 2 := by
    simp only [Date.monthNumber, march] at hnumber
    omega
  rw [hfields.1, hfields.2] at hday hbday
  exact ⟨d, hd, hfields.1, hfields.2, hday, back, hback, hy, hm, hbday⟩

end Duration

end Chronicle
