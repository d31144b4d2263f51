import Chronicle.Calendar.Moment
import Chronicle.Timestamp

/-!
# Counting days and microseconds

Every number of a day has its date, so every instant of the calendar has its moment, and the moment
leads back to the instant.

* `Date.exists_ofOrdinal?`: the date of a day's number has that number;
* `Instant.toInstant_moment`: the moment of an instant is at that instant;
* `Moment.toStored_lt`: what a moment is stored as lies in the calendar.
-/

namespace Chronicle.Calendar

namespace Date

theorem daysBeforeMonth_succ (year : Nat) {month : Nat} (h : 1 ≤ month) :
    daysBeforeMonth year (month + 1) = daysBeforeMonth year month + daysInMonth year month := by
  cases month with
  | zero => omega
  | succ m => rfl

/-- The search for a month keeps the number of days, and it only ends early in a month that has the
day. -/
theorem monthOfDay_spec (year : Nat) (fuel month rest : Nat) (h : 1 ≤ month) :
    let found := monthOfDay year fuel month rest
    month ≤ found.1 ∧ found.1 ≤ month + fuel ∧
      daysBeforeMonth year found.1 + found.2 = daysBeforeMonth year month + rest ∧
      (found.2 < daysInMonth year found.1 ∨ found.1 = month + fuel) := by
  induction fuel generalizing month rest with
  | zero => simp [monthOfDay]
  | succ fuel ih =>
    simp only [monthOfDay]
    split
    · next hr => exact ⟨by omega, by omega, rfl, Or.inl hr⟩
    · next hr =>
      obtain ⟨h1, h2, h3, h4⟩ := ih (month + 1) (rest - daysInMonth year month) (by omega)
      rw [daysBeforeMonth_succ year h] at h3
      refine ⟨by omega, by omega, by omega, ?_⟩
      rcases h4 with h4 | h4
      · exact Or.inl h4
      · exact Or.inr (by omega)

/-- The days of a year before December. -/
theorem daysBeforeMonth_december (year : Nat) :
    daysBeforeMonth year 12 = if isLeap year then 335 else 334 := by
  simp only [daysBeforeMonth, daysInMonth]
  split <;> rfl

/-- In a year that has the day, the search finds its month. -/
theorem monthOfDay_of_lt (year rest : Nat) (h : rest < if isLeap year then 366 else 365) :
    let found := monthOfDay year 11 1 rest
    1 ≤ found.1 ∧ found.1 ≤ 12 ∧ daysBeforeMonth year found.1 + found.2 = rest ∧
      found.2 < daysInMonth year found.1 := by
  obtain ⟨h1, h2, h3, h4⟩ := monthOfDay_spec year 11 1 rest (by omega)
  have hzero : daysBeforeMonth year 1 = 0 := rfl
  refine ⟨h1, h2, by omega, ?_⟩
  rcases h4 with h4 | h4
  · exact h4
  · rw [h4] at h3 ⊢
    have hd := daysBeforeMonth_december year
    have hl : daysInMonth year (1 + 11) = 31 := rfl
    split at hd <;> split at h <;> simp_all <;> omega

theorem daysBeforeYear_cycles {a b c d : Nat} (hb : b ≤ 3) (hc : c ≤ 24) (hd : d ≤ 3) :
    daysBeforeYear (a * 400 + b * 100 + c * 4 + d + 1) =
      a * 146097 + b * 36524 + c * 1461 + d * 365 := by
  unfold daysBeforeYear
  omega

theorem isLeap_cycles {a b c d : Nat} (hb : b ≤ 3) (hc : c ≤ 24) (hd : d ≤ 3) :
    isLeap (a * 400 + b * 100 + c * 4 + d + 1) = true ↔ d = 3 ∧ (c = 24 → b = 3) := by
  unfold isLeap
  simp only [Bool.and_eq_true, Bool.or_eq_true, beq_iff_eq, bne_iff_ne]
  omega

/-- Every number of a day has its date. -/
theorem exists_ofOrdinal? {n : Nat} (h1 : 1 ≤ n) (h2 : n ≤ maxOrdinal) :
    ∃ d, ofOrdinal? n = some d ∧ d.ordinal = n := by
  unfold maxOrdinal at h2
  obtain ⟨a, ha⟩ : ∃ a, a = (n - 1) / 146097 := ⟨_, rfl⟩
  obtain ⟨b, hb⟩ : ∃ b, b = min ((n - 1) % 146097 / 36524) 3 := ⟨_, rfl⟩
  obtain ⟨c, hc⟩ : ∃ c, c = ((n - 1) % 146097 - b * 36524) / 1461 := ⟨_, rfl⟩
  obtain ⟨r, hr⟩ : ∃ r, r = ((n - 1) % 146097 - b * 36524) % 1461 := ⟨_, rfl⟩
  obtain ⟨d, hd⟩ : ∃ d, d = min (r / 365) 3 := ⟨_, rfl⟩
  have hb3 : b ≤ 3 := by omega
  have hc24 : c ≤ 24 := by omega
  have hd3 : d ≤ 3 := by omega
  have hsum : n = a * 146097 + b * 36524 + c * 1461 + r + 1 := by omega
  have hrest : r - d * 365 <
      if isLeap (a * 400 + b * 100 + c * 4 + d + 1) then 366 else 365 := by
    split
    · omega
    · next hleap =>
      rw [isLeap_cycles hb3 hc24 hd3] at hleap
      omega
  obtain ⟨hm1, hm2, hm3, hm4⟩ := monthOfDay_of_lt _ _ hrest
  have hyear := daysBeforeYear_cycles (a := a) hb3 hc24 hd3
  refine ⟨⟨a * 400 + b * 100 + c * 4 + d + 1,
    (monthOfDay (a * 400 + b * 100 + c * 4 + d + 1) 11 1 (r - d * 365)).1,
    (monthOfDay (a * 400 + b * 100 + c * 4 + d + 1) 11 1 (r - d * 365)).2 + 1,
    ⟨by unfold minYear; omega, by unfold maxYear; omega⟩, ⟨hm1, hm2⟩, ⟨by omega, by omega⟩⟩,
    ?_, ?_⟩
  · unfold ofOrdinal?
    rw [if_neg (by omega)]
    simp only [← ha, ← hb, ← hc, ← hr, ← hd]
    exact ofFields?_self ⟨_, _, _, _, _, _⟩
  · simp only [ordinal, hyear]
    omega

end Date

/-! ## Instants -/

namespace Instant

/-- The moment of an instant: a clock in UTC that shows its microseconds. -/
theorem moment_spec {i : Instant} (h : i.micros < bound) :
    i.moment.offset = some 0 ∧ i.moment.wallMicros = i.micros := by
  have hpos := microsPerDay_pos
  obtain ⟨d, hd, hn⟩ : ∃ d, Date.ofOrdinal? (i.micros / microsPerDay + 1) = some d ∧
      d.ordinal = i.micros / microsPerDay + 1 := by
    apply Date.exists_ofOrdinal? (Nat.le_add_left _ _)
    have := (Nat.div_lt_iff_lt_mul hpos).mpr h
    omega
  have hmoment : i.moment =
      ⟨d, i.micros % microsPerDay, some 0, Nat.mod_lt _ microsPerDay_pos⟩ := by
    simp only [moment, Moment.ofWallMicros?, Int.toNat_natCast]
    rw [if_pos (by omega), hd]
    rfl
  rw [hmoment]
  refine ⟨rfl, ?_⟩
  simp only [Moment.wallMicros, hn, Nat.add_sub_cancel]
  exact Nat.div_add_mod' _ _

theorem toInstant_moment {i : Instant} (h : i.micros < bound) : i.moment.toInstant = .ok i := by
  obtain ⟨ho, hw⟩ := moment_spec h
  have : i.moment.instant? = some i := by
    simp only [Moment.instant?, ho, hw, Option.getD_some, Int.sub_zero]
    exact ofMicros?_natCast h
  simp only [Moment.toInstant, this]

/-- Instants are told apart by the moments they are shown as. -/
theorem moment_inj {i j : Instant} (hi : i.micros < bound) (hj : j.micros < bound)
    (h : i.moment = j.moment) : i = j := by
  have hinstant := toInstant_moment hi
  rw [h, toInstant_moment hj] at hinstant
  exact (Except.ok.inj hinstant).symm

theorem toStored_moment {i : Instant} (h : i.micros < bound) : i.moment.toStored = .ok i := by
  have hn : i.moment.isNaive = false := by
    simp [Moment.isNaive, (moment_spec h).1]
  simp only [Moment.toStored, hn, Bool.false_eq_true, if_false]
  exact toInstant_moment h

end Instant

namespace Moment

theorem toInstant_lt {m : Moment} {i : Instant} (h : m.toInstant = .ok i) :
    i.micros < Instant.bound := by
  unfold toInstant at h
  split at h
  · next hi =>
    cases h
    exact (Instant.ofMicros?_eq_some hi).2
  · cases h

theorem toStored_lt {m : Moment} {i : Instant} (h : m.toStored = .ok i) :
    i.micros < Instant.bound := by
  unfold toStored at h
  split at h
  · cases h
  · exact toInstant_lt h

end Moment

end Chronicle.Calendar
