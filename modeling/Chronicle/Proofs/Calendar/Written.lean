import Chronicle.Proofs.Calendar.Ordinal
import Chronicle.Proofs.Decimal.Written

/-!
# Written instants

The fields of a date and a time of day have fixed widths, so an instant can be told from its text.

* `Date.padded_inj`: numbers of fixed width;
* `Instant.key_inj`: instants with the same text are the same.
-/

namespace Chronicle.Calendar

open Chronicle.Decimal Chronicle.Text

namespace Date

theorem length_padded {width n : Nat} (hw : 0 < width) (h : n < 10 ^ width) :
    (padded width n).length = width := by
  have hlen := (Nat.length_toDigits_le_iff (by decide : 1 < 10) hw).mpr h
  unfold padded
  dsimp only
  rw [List.length_append, List.length_replicate]
  omega

theorem isAsciiDigit_of_mem_padded {width n : Nat} {c : Char} (h : c ∈ padded width n) :
    isAsciiDigit c = true := by
  rcases List.mem_append.mp h with h | h
  · exact isAsciiDigit_of_mem_zeros h
  · exact isAsciiDigit_of_mem_toDigits h

theorem digitsValue_padded (width n : Nat) : digitsValue (padded width n) = n :=
  (digitsValue_zeros_append _ _).trans (digitsValue_toDigits n)

/-- Numbers of a fixed width can be told from a text that begins with them. -/
theorem padded_inj {width m n : Nat} {cs ds : List Char} (hw : 0 < width) (hm : m < 10 ^ width)
    (hn : n < 10 ^ width) (h : padded width m ++ cs = padded width n ++ ds) : m = n ∧ cs = ds := by
  obtain ⟨hpadded, hrest⟩ :=
    List.append_inj h ((length_padded hw hm).trans (length_padded hw hn).symm)
  refine ⟨?_, hrest⟩
  rw [← digitsValue_padded width m, hpadded, digitsValue_padded]

theorem year_lt (d : Date) : d.year < 10 ^ 4 := by
  have := d.year_range.2
  unfold maxYear at this
  omega

theorem month_lt (d : Date) : d.month < 10 ^ 2 := by
  have := d.month_range.2
  omega

theorem day_lt (d : Date) : d.day < 10 ^ 2 := by
  have := d.day_range.2.trans (daysInMonth_le _ _)
  omega

/-- A date takes ten characters. -/
theorem length_textChars (d : Date) : d.textChars.length = 10 := by
  have hyear := length_padded (by decide : 0 < 4) d.year_lt
  have hmonth := length_padded (by decide : 0 < 2) d.month_lt
  have hday := length_padded (by decide : 0 < 2) d.day_lt
  simp [textChars, hyear, hmonth, hday]

/-- A date can be told from a text that begins with it. -/
theorem textChars_inj {a b : Date} {cs ds : List Char} (h : a.textChars ++ cs = b.textChars ++ ds) :
    a = b ∧ cs = ds := by
  have hyears := And.intro a.year_range.2 b.year_range.2
  have hmonths := And.intro a.month_range.2 b.month_range.2
  have hdays := And.intro (a.day_range.2.trans (daysInMonth_le _ _))
    (b.day_range.2.trans (daysInMonth_le _ _))
  unfold maxYear at hyears
  simp only [textChars, List.append_assoc, List.cons_append] at h
  obtain ⟨hyear, h⟩ := padded_inj (by decide) (by omega) (by omega) h
  obtain ⟨hmonth, h⟩ := padded_inj (by decide) (by omega) (by omega) (List.cons.inj h).2
  obtain ⟨hday, hrest⟩ := padded_inj (by decide) (by omega) (by omega) (List.cons.inj h).2
  obtain ⟨y, m, d, hy, hm, hd⟩ := a
  obtain ⟨y', m', d', hy', hm', hd'⟩ := b
  cases hyear
  cases hmonth
  cases hday
  exact ⟨rfl, hrest⟩

end Date

namespace Moment

/-- A time of day can be told from a text that ends with it and one more character. -/
theorem clockChars_inj {m n : Nat} {c : Char} (hm : m < microsPerDay) (hn : n < microsPerDay)
    (hc : c ≠ '.') (h : clockChars m true ++ [c] = clockChars n true ++ [c]) : m = n := by
  unfold microsPerDay microsPerSecond at hm hn
  simp only [clockChars, List.append_assoc, List.cons_append, if_true] at h
  obtain ⟨hhour, h⟩ := Date.padded_inj (by decide) (by omega) (by omega) h
  obtain ⟨hminute, h⟩ := Date.padded_inj (by decide) (by omega) (by omega) (List.cons.inj h).2
  obtain ⟨hsecond, h⟩ := Date.padded_inj (by decide) (by omega) (by omega) (List.cons.inj h).2
  have hfraction : m % 1000000 = n % 1000000 := by
    split at h <;> split at h
    · omega
    · exact absurd (List.cons.inj h).1 hc
    · exact absurd (List.cons.inj h).1.symm hc
    · exact (Date.padded_inj (by decide) (by omega) (by omega) (List.cons.inj h).2).1
  omega

end Moment

namespace Instant

theorem key_toList (i : Instant) :
    i.key.toList = i.moment.date.textChars ++
      ('T' :: (Moment.clockChars i.moment.micros true ++ ['Z'])) := by
  simp [key, Moment.textChars, wall]

/-- Instants with the same text are the same. -/
theorem key_inj {a b : Instant} (ha : a.micros < bound) (hb : b.micros < bound)
    (h : a.key = b.key) : a = b := by
  have hchars := congrArg String.toList h
  rw [key_toList, key_toList] at hchars
  obtain ⟨hdate, hclock⟩ := Date.textChars_inj hchars
  have hmicros := Moment.clockChars_inj a.moment.micros_lt b.moment.micros_lt (by decide)
    (List.cons.inj hclock).2
  have hwall : a.moment.wallMicros = b.moment.wallMicros := by
    rw [Moment.wallMicros, Moment.wallMicros, hdate, hmicros]
  rw [(moment_spec ha).2, (moment_spec hb).2] at hwall
  cases a
  cases b
  exact congrArg Instant.mk hwall

/-- The text of an instant begins with a digit. -/
theorem head_key (i : Instant) : ∃ c ∈ i.key.toList.head?, isAsciiDigit c = true := by
  have hne : Date.padded 4 i.moment.date.year ≠ [] := by
    intro hnil
    exact Nat.toDigits_ne_nil (List.append_eq_nil_iff.mp hnil).2
  obtain ⟨c, cs, hcs⟩ := List.exists_cons_of_ne_nil hne
  refine ⟨c, ?_, Date.isAsciiDigit_of_mem_padded (hcs ▸ List.mem_cons_self)⟩
  rw [key_toList, Date.textChars, hcs]
  rfl

end Instant

end Chronicle.Calendar
