import Chronicle.Calendar.Iso
import Chronicle.Proofs.Calendar.Written

/-!
# Written moments are read

A moment in UTC that is written with the offset `+00:00` is read as itself.

* `takeNumber_padded`: numbers of fixed width;
* `readClock_clockChars`: times of day;
* `Moment.ofIso?_written`: moments in UTC.
-/

namespace Chronicle.Calendar

open Chronicle.Decimal Chronicle.Text

/-! ## Numbers of fixed width -/

theorem takeNumber_padded {width n : Nat} (hw : 0 < width) (h : n < 10 ^ width) (rest : List Char) :
    takeNumber width (Date.padded width n ++ rest) = some (n, rest) := by
  have hlen := Date.length_padded hw h
  have hdigits : (Date.padded width n).all isAsciiDigit = true :=
    List.all_eq_true.mpr fun c hc => Date.isAsciiDigit_of_mem_padded hc
  unfold takeNumber
  rw [List.take_left' hlen, List.drop_left' hlen, if_pos ⟨hlen, hdigits⟩, Date.digitsValue_padded]

/-- A number of two digits begins a text that is longer. -/
theorem exists_padded_two {n : Nat} (h : n < 100) : ∃ a b : Char, Date.padded 2 n = [a, b] ∧
    isAsciiDigit a = true ∧ isAsciiDigit b = true := by
  have hlen : (Date.padded 2 n).length = 2 := Date.length_padded (by decide) h
  have hdigits : ∀ c ∈ Date.padded 2 n, isAsciiDigit c = true := fun c hc =>
    Date.isAsciiDigit_of_mem_padded hc
  match hchars : Date.padded 2 n with
  | [a, b] => exact ⟨a, b, rfl, hdigits a (by simp [hchars]), hdigits b (by simp [hchars])⟩
  | [] => simp [hchars] at hlen
  | [_] => simp [hchars] at hlen
  | _ :: _ :: _ :: _ => simp [hchars] at hlen

/-! ## Dates -/

namespace Date

theorem readDate_textChars (d : Date) : readDate d.textChars = some d := by
  obtain ⟨a, b, hmonth, ha, -⟩ := exists_padded_two d.month_lt
  have hweek : a ≠ 'W' := by
    rintro rfl
    exact absurd ha (by decide)
  have hyear := takeNumber_padded (by decide : 0 < 4) d.year_lt
    ('-' :: (padded 2 d.month ++ '-' :: padded 2 d.day))
  have hmonth' := takeNumber_padded (by decide : 0 < 2) d.month_lt ('-' :: padded 2 d.day)
  have hday := takeNumber_padded (by decide : 0 < 2) d.day_lt []
  rw [List.append_nil] at hday
  rw [textChars, List.append_assoc, List.cons_append, readDate]
  simp only [hmonth, List.cons_append, List.nil_append] at hyear hmonth' ⊢
  simp [hyear, hmonth', hday, hweek, ofFields?_self]

/-- A date with hyphens takes ten characters, whatever follows. -/
theorem dateLength_textChars (d : Date) (c : Char) (cs : List Char) :
    dateLength (d.textChars ++ c :: cs) = some 10 := by
  obtain ⟨a, b, hmonth, ha, -⟩ := exists_padded_two d.month_lt
  have hweek : a ≠ 'W' := by
    rintro rfl
    exact absurd ha (by decide)
  have hyear : (padded 4 d.year).length = 4 := length_padded (by decide) d.year_lt
  have hhyphen : (d.textChars ++ c :: cs)[4]? = some '-' := by
    simp [textChars, hyear]
  have hfirst : (d.textChars ++ c :: cs)[5]? = some a := by
    simp [textChars, List.getElem?_append_right, hyear, hmonth]
  have hlen : ¬ (d.textChars ++ c :: cs).length = 7 := by
    rw [List.length_append, d.length_textChars]
    omega
  simp [dateLength, -List.length_append, hlen, hhyphen, hfirst, hweek]

end Date

/-! ## Times of day -/

namespace Moment

/-- One field after another, with colons between them. -/
theorem readFields_padded {count n : Nat} {fields : List Nat} {cs : List Char} (hn : n < 100)
    (hcs : cs ≠ []) {colons : Option Bool} (hcolons : colons.getD true = true) :
    readFields (count + 1) colons fields (Date.padded 2 n ++ ':' :: cs) =
      readFields count (some true) (fields ++ [n]) cs := by
  obtain ⟨c, more, rfl⟩ := List.exists_cons_of_ne_nil hcs
  rw [readFields, takeNumber_padded (by decide) hn]
  simp [hcolons]

/-- Six decimals are read as they are. -/
theorem readFraction_padded {n : Nat} (hn : n < 1000000) (fields : List Nat) :
    readFraction fields (Date.padded 6 n) = some ⟨fields, n, true⟩ := by
  have hlen := Date.length_padded (by decide : 0 < 6) hn
  have hdigits : (Date.padded 6 n).all isAsciiDigit = true :=
    List.all_eq_true.mpr fun c hc => Date.isAsciiDigit_of_mem_padded hc
  unfold readFraction
  rw [List.take_of_length_le hlen.le, List.drop_of_length_le hlen.le]
  simp [hdigits, hlen, Date.digitsValue_padded, tenTo_zero, atEnd]

theorem readClock_clockChars {micros : Nat} (h : micros < microsPerDay) :
    readClock (clockChars micros true) = some ⟨[micros / 3600000000, micros / 60000000 % 60,
      micros / 1000000 % 60], micros % 1000000, true⟩ := by
  unfold microsPerDay microsPerSecond at h
  have hne : ∀ (n : Nat) (cs : List Char), Date.padded 2 n ++ cs ≠ [] := by
    intro n cs hnil
    exact Nat.toDigits_ne_nil (List.append_eq_nil_iff.mp (List.append_eq_nil_iff.mp hnil).1).2
  have hhour : micros / 3600000000 < 100 := by omega
  have hminute : micros / 60000000 % 60 < 100 := by omega
  have hsecond : micros / 1000000 % 60 < 100 := by omega
  have hrest : micros % 1000000 < 1000000 := by omega
  unfold readClock clockChars
  simp only [if_true, List.append_assoc, List.cons_append]
  rw [readFields_padded hhour (hne _ _) rfl, readFields_padded hminute (hne _ _) rfl, readFields,
    takeNumber_padded (by decide) hsecond]
  by_cases hzero : micros % 1000000 = 0
  · simp [hzero]
  · obtain ⟨c, more, hmore⟩ := List.exists_cons_of_ne_nil
      (show Date.padded 6 (micros % 1000000) ≠ [] from fun hnil =>
        Nat.toDigits_ne_nil (List.append_eq_nil_iff.mp hnil).2)
    have hfraction := readFraction_padded hrest
      [micros / 3600000000, micros / 60000000 % 60, micros / 1000000 % 60]
    rw [hmore] at hfraction
    simp [hzero, hmore, hfraction]

theorem mem_clockChars {micros : Nat} {c : Char} (h : c ∈ clockChars micros true) :
    isAsciiDigit c = true ∨ c ∈ [':', '.'] := by
  have hpadded : ∀ {width n : Nat}, c ∈ Date.padded width n → isAsciiDigit c = true ∨ c ∈ [':', '.'] :=
    fun hc => Or.inl (Date.isAsciiDigit_of_mem_padded hc)
  simp only [clockChars, if_true, List.mem_append, List.mem_cons] at h
  rcases h with ((h | rfl | h) | rfl | h) | h
  · exact hpadded h
  · exact Or.inr (by decide)
  · exact hpadded h
  · exact Or.inr (by decide)
  · exact hpadded h
  · split at h
    · cases h
    · rcases List.mem_cons.mp h with rfl | h
      · exact Or.inr (by decide)
      · exact hpadded h

/-- A time of day ends where an offset begins. -/
theorem isOffsetMark_of_mem_clockChars {micros : Nat} {c : Char} (h : c ∈ clockChars micros true) :
    isOffsetMark c = false := by
  rw [← Bool.not_eq_true]
  intro hmark
  have hcases : c = '+' ∨ c = '-' ∨ c = 'Z' := by
    simpa [isOffsetMark, or_assoc] using hmark
  rcases hcases with rfl | rfl | rfl <;> exact absurd (mem_clockChars h) (by decide)

/-- The offset zero as it is written after a time of day. -/
def zeroOffset : List Char := ['+', '0', '0', ':', '0', '0']

theorem readTime_clockChars {micros : Nat} (h : micros < microsPerDay) :
    readTime (clockChars micros true ++ zeroOffset) = some (⟨[micros / 3600000000,
      micros / 60000000 % 60, micros / 1000000 % 60], micros % 1000000, true⟩, some 0) := by
  have hclock : ∀ c ∈ clockChars micros true, (!isOffsetMark c) = true := fun c hc => by
    rw [isOffsetMark_of_mem_clockChars hc, Bool.not_false]
  have hmark : ∀ c ∈ zeroOffset.head?, (!isOffsetMark c) = false := by
    intro c hc
    cases hc
    decide
  obtain ⟨htake, hdrop⟩ := takeWhile_run hclock hmark
  have hoffset : readOffset '+' ['0', '0', ':', '0', '0'] = some 0 := by decide +kernel
  unfold readTime
  rw [htake, hdrop, readClock_clockChars h]
  simp [zeroOffset, hoffset]

theorem ofClock?_fields (date : Date) {micros : Nat} (h : micros < microsPerDay)
    (offset : Option Int) :
    ofClock? date ⟨[micros / 3600000000, micros / 60000000 % 60, micros / 1000000 % 60],
      micros % 1000000, true⟩ offset = some ⟨date, micros, offset, h⟩ := by
  have hday := h
  unfold microsPerDay microsPerSecond at hday
  have htotal : (micros / 3600000000 * 3600 + micros / 60000000 % 60 * 60 + micros / 1000000 % 60) *
      microsPerSecond + micros % 1000000 = micros := by
    unfold microsPerSecond
    omega
  have htime : (micros / 3600000000 < 24 ∧ micros / 60000000 % 60 < 60) ∧
      micros / 1000000 % 60 < 60 := by omega
  simp [ofClock?, Clock.seconds, Clock.hour, Clock.minute, Clock.second, Clock.isTimeOfDay, htotal,
    h, htime]

/-- A text is read by its date and by the time of day that follows. -/
theorem ofIso?_eq_ofClock? {cs time : List Char} {n : Nat} {date : Date} {c : Char} {clock : Clock}
    {offset : Option Int} (hlong : 7 ≤ cs.length) (hlen : dateLength cs = some n)
    (hdate : readDate (cs.take n) = some date) (hrest : cs.drop n = c :: time)
    (htime : readTime time = some (clock, offset)) : ofIso? cs = ofClock? date clock offset := by
  unfold ofIso?
  rw [if_neg hlong.not_gt, hlen]
  simp only [Option.bind_eq_bind, Option.bind_some, hdate]
  rw [hrest]
  dsimp only
  -- the steps are taken one by one, so that no time of day is worked out where a proof is checked
  rw [htime, Option.bind_some]

/-- A moment in UTC is read where its offset is written. -/
theorem ofIso?_written (m : Moment) :
    ofIso? (m.date.textChars ++ 'T' :: (clockChars m.micros true ++ zeroOffset)) =
      some { m with offset := some 0 } := by
  have hlen := m.date.length_textChars
  refine (ofIso?_eq_ofClock? ?_ (m.date.dateLength_textChars _ _) ?_ (List.drop_left' hlen)
    (readTime_clockChars m.micros_lt)).trans (ofClock?_fields m.date m.micros_lt _)
  · rw [List.length_append, hlen]
    omega
  · rw [List.take_left' hlen, Date.readDate_textChars]

end Moment

end Chronicle.Calendar
