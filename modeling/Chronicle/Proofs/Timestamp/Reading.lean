import Chronicle.Proofs.Decimal.Overflow
import Chronicle.Proofs.Text.Capitals
import Chronicle.Proofs.Timestamp.Spelling

/-!
# Reading timestamps

What a text is read as, for every text.  A text for a duration is compared with the grammar after
blanks around it are dropped and all letters are put into capitals.

* `Timestamp.read_of_chars`, `Timestamp.read_of_not_spelled`: texts for durations;
* `Timestamp.read_eq_ok_iff`: such a text is read exactly if it is a spelling;
* `Timestamp.sameAsText_total`: the texts for which there is no answer at all.
-/

namespace Chronicle

open Chronicle.Calendar Chronicle.Decimal Chronicle.Text

/-! ## Seconds that are too many -/

namespace Duration

theorem Figure.toBinary64_eq_infinite_iff (f : Figure) :
    f.toBinary64 = .infinite f.sign.isMinus ↔ overflow ≤ f.magnitude := by
  rw [Figure.toBinary64, ofDecimal_eq_infinite_iff, Figure.magnitude, zpow_neg, zpow_natCast,
    div_eq_mul_inv]

/-- The digits before the point tell how large a number is. -/
theorem Figure.magnitude_lt (f : Figure) : f.magnitude < 10 ^ f.whole.length := by
  have hlt := digitsValue_lt (f.whole ++ f.fraction)
  have hpos : (0 : ℚ) < 10 ^ f.fraction.length := by positivity
  rw [List.length_append, Nat.pow_add] at hlt
  rw [Figure.magnitude, div_lt_iff₀ hpos]
  exact_mod_cast hlt

namespace Spelling

/-- There are more seconds than the largest double. -/
def Overflows (w : Spelling) : Prop := ∃ f ∈ w.seconds, overflow ≤ f.magnitude

theorem failure?_of_overflows {w : Spelling} (h : w.Overflows) :
    w.toDuration.seconds.failure? = some .outOfCalendar := by
  obtain ⟨f, hf, hlarge⟩ := h
  have hinf := f.toBinary64_eq_infinite_iff.mpr hlarge
  simp only [toDuration, Option.mem_def.mp hf, Option.elim_some, hinf]
  cases w.sign.isMinus <;> rfl

theorem failure?_of_not_overflows {w : Spelling} (h : ¬ w.Overflows) :
    w.toDuration.seconds.failure? = none := by
  unfold toDuration
  cases hseconds : w.seconds with
  | none => rfl
  | some f =>
    have hfinite : ∃ units, f.toBinary64 = .finite f.sign.isMinus units := by
      refine (ofDecimal_cases _ _ _).resolve_right fun hinf => h ⟨f, hseconds, ?_⟩
      exact f.toBinary64_eq_infinite_iff.mp hinf
    obtain ⟨units, hunits⟩ := hfinite
    simp only [Option.elim_some, hunits]
    cases w.sign.isMinus <;> rfl

end Spelling

theorem ofDuration_of_overflows {w : Spelling} (h : w.Overflows) :
    Timestamp.ofDuration w.toDuration = .error .outOfCalendar := by
  rw [Timestamp.ofDuration, Spelling.failure?_of_overflows h]

theorem ofDuration_of_not_overflows {w : Spelling} (h : ¬ w.Overflows) :
    Timestamp.ofDuration w.toDuration = .ok (.relative w.toDuration) := by
  rw [Timestamp.ofDuration, Spelling.failure?_of_not_overflows h]

/-! ### Numbers that are short -/

/-- No number in a text has more digits. -/
def HasShortNumbers (bound : Nat) (cs : List Char) : Prop :=
  ∀ ds, ds <:+: cs → (∀ c ∈ ds, isDigit c = true) → ds.length ≤ bound

theorem Figure.whole_infix (f : Figure) : f.whole <:+: f.chars :=
  ⟨f.sign.chars, if f.fraction = [] then [] else '.' :: f.fraction, by simp [Figure.chars]⟩

theorem infix_flatMap_written {ps : List (Option Figure × Char)} {f : Figure} {unit : Char}
    (h : (some f, unit) ∈ ps) : f.chars <:+: ps.flatMap written := by
  obtain ⟨before, after, rfl⟩ := List.append_of_mem h
  refine ⟨before.flatMap written, unit :: after.flatMap written, ?_⟩
  simp [written_some]

theorem Spelling.infix_chars {w : Spelling} {f : Figure} {unit : Char}
    (h : (some f, unit) ∈ w.date ++ w.time) : f.chars <:+: w.chars := by
  have htime : w.time.flatMap written <:+: timeChars (w.time.flatMap written) := by
    unfold timeChars
    split
    · next hnil => rw [hnil]
    · exact List.infix_cons (List.infix_refl _)
  have hbody : f.chars <:+: w.date.flatMap written ++ timeChars (w.time.flatMap written) := by
    rcases List.mem_append.mp h with h | h
    · exact (infix_flatMap_written h).trans (List.infix_append' [] _ _)
    · exact ((infix_flatMap_written h).trans htime).trans (List.suffix_append _ _).isInfix
  exact (List.infix_cons hbody).trans (List.suffix_append _ _).isInfix

theorem Spelling.length_whole_le {w : Spelling} {bound : Nat} (h : HasShortNumbers bound w.chars)
    {f : Figure} {unit : Char} (hf : (some f, unit) ∈ w.date ++ w.time) : f.whole.length ≤ bound :=
  h f.whole (f.whole_infix.trans (Spelling.infix_chars hf)) f.isDigit_whole

theorem isShort_of_hasShortNumbers {w : Spelling} (h : HasShortNumbers 300 w.chars) : w.IsShort := by
  intro n hn f hf
  have hcounts : w.counts = (w.date ++ w.time).dropLast.map Prod.fst := rfl
  rw [hcounts] at hn
  obtain ⟨⟨n, unit⟩, hp, rfl⟩ := List.mem_map.mp hn
  cases hf
  exact (Spelling.length_whole_le h (List.dropLast_subset _ hp)).trans (by decide)

theorem not_overflows_of_hasShortNumbers {w : Spelling} (h : HasShortNumbers 300 w.chars) :
    ¬ w.Overflows := by
  rintro ⟨f, hf, hlarge⟩
  have hmem : (some f, 'S') ∈ w.date ++ w.time := by simp [Spelling.time, Option.mem_def.mp hf]
  have hpow : (10 : ℚ) ^ f.whole.length ≤ 10 ^ 300 :=
    pow_le_pow_right₀ (by norm_num) (Spelling.length_whole_le h hmem)
  have hlimit : ((tenTo 300 : Nat) : ℚ) ≤ overflow := by
    rw [overflow_eq]
    exact Nat.cast_le.mpr (by decide +kernel)
  rw [tenTo_cast] at hlimit
  exact absurd (f.magnitude_lt.trans_le (hpow.trans hlimit)) hlarge.not_gt

end Duration

/-! ## Texts for durations -/

namespace Timestamp

open Duration (Spelling Figure HasShortNumbers)

/-- The text without blanks around it, in capitals. -/
def capitals (s : String) : List Char := upper (trimBlanks s.toList)

def isSign (c : Char) : Bool := c == '+' || c == '-'

theorem isSign_iff {c : Char} : isSign c = true ↔ c = '+' ∨ c = '-' := by
  rw [isSign, Bool.or_eq_true, beq_iff_eq, beq_iff_eq]

/-- A text is for a duration if it begins with a `P` behind any signs. -/
def IsForDuration (s : String) : Prop := ((capitals s).dropWhile isSign).head? = some 'P'

instance (s : String) : Decidable (IsForDuration s) := inferInstanceAs (Decidable (_ = _))

theorem isDurationText_iff (s : String) :
    isDurationText (trimBlanks s.toList) = true ↔ IsForDuration s := by
  have hsign : ∀ c, isSign c = true → upperChar c = [c] ∧ c.toNat < 65 := by
    intro c hc
    rcases isSign_iff.mp hc with rfl | rfl <;> decide +kernel
  have hdrop := upper_dropWhile hsign (trimBlanks s.toList)
  rw [IsForDuration, capitals, ← hdrop]
  exact beq_iff_eq

theorem getLast?_capitals (s : String) : (capitals s).getLast? ≠ some '\n' := fun h =>
  absurd (getLast?_upper_trimBlanks (by decide) h) (by decide)

/-- What is spelled is for a duration. -/
theorem isForDuration_of_chars {w : Spelling} {s : String} (h : w.chars = capitals s) :
    IsForDuration s := by
  rw [IsForDuration, ← h, Spelling.chars]
  cases w.sign <;> rfl

/-- A duration that is spelled is a text in capitals. -/
theorem capitals_chars (w : Spelling) : capitals (String.ofList w.chars) = w.chars := by
  have hletters : ∀ x ∈ ['+', '-', '.', 'P', 'T', 'Y', 'M', 'W', 'D', 'H', 'S'],
      32 < x.toNat ∧ x.toNat < 97 := by decide
  rw [capitals, String.toList_ofList]
  refine upper_trimBlanks_eq_self fun c hc => ?_
  rcases Duration.mem_chars hc with hdigit | hletter
  · exact isPlain_of_isDigit hdigit
  · exact isPlain_of_lt (hletters c hletter).1 (hletters c hletter).2

theorem read_of_isForDuration {s : String} (h : IsForDuration s) :
    read s = (Duration.read (String.ofList (capitals s))).bind ofDuration :=
  if_pos ((isDurationText_iff s).mpr h)

theorem read_of_not_isForDuration {s : String} (h : ¬ IsForDuration s) :
    read s = (readInstant (trimBlanks s.toList)).map .absolute :=
  if_neg fun hs => h ((isDurationText_iff s).mp hs)

/-- What is spelled is read, unless one of its numbers is too long or too large. -/
theorem read_of_chars {w : Spelling} {s : String} (h : w.chars = capitals s) :
    read s = if w.IsShort then ofDuration w.toDuration else .error .numberTooLong := by
  rw [read_of_isForDuration (isForDuration_of_chars h), ← h, Duration.read_chars]
  split <;> rfl

theorem read_of_not_spelled {s : String} (hs : IsForDuration s)
    (h : ¬ ∃ w : Spelling, w.chars = capitals s) :
    read s = .error (.invalidDuration (String.ofList (capitals s))) := by
  rw [read_of_isForDuration hs,
    Duration.read_eq_invalid (getLast?_capitals s) fun w hw => h ⟨w, hw⟩]
  rfl

/-! ### The grammar -/

/-- Texts for durations, unless their numbers are very long, are read exactly if they are spelled
after the grammar: as the duration that is spelled. -/
theorem read_eq_ok_iff {s : String} (hs : IsForDuration s) (hshort : HasShortNumbers 300 (capitals s)) :
    (∀ t, read s = .ok t ↔ ∃ w : Spelling, w.chars = capitals s ∧ t = .relative w.toDuration) ∧
      ((¬ ∃ w : Spelling, w.chars = capitals s) →
        read s = .error (.invalidDuration (String.ofList (capitals s)))) ∧
      ∀ f, read s = .error f → f.isBadValue = true := by
  have hread : ∀ w : Spelling, w.chars = capitals s → read s = .ok (.relative w.toDuration) := by
    intro w hw
    rw [← hw] at hshort
    rw [read_of_chars hw, if_pos (Duration.isShort_of_hasShortNumbers hshort),
      Duration.ofDuration_of_not_overflows (Duration.not_overflows_of_hasShortNumbers hshort)]
  by_cases hspelled : ∃ w : Spelling, w.chars = capitals s
  · obtain ⟨w, hw⟩ := hspelled
    refine ⟨fun t => ⟨fun ht => ?_, ?_⟩, fun h => absurd ⟨w, hw⟩ h, fun f hf => ?_⟩
    · rw [hread w hw] at ht
      exact ⟨w, hw, (Except.ok.inj ht).symm⟩
    · rintro ⟨w', hw', rfl⟩
      exact hread w' hw'
    · rw [hread w hw] at hf
      cases hf
  · have hinvalid := read_of_not_spelled hs hspelled
    refine ⟨fun t => ⟨fun ht => ?_, ?_⟩, fun _ => hinvalid, fun f hf => ?_⟩
    · rw [hinvalid] at ht
      cases ht
    · rintro ⟨w, hw, -⟩
      exact absurd ⟨w, hw⟩ hspelled
    · rw [hinvalid] at hf
      cases hf
      rfl

/-- The overall sign counts for each component, and so does the sign of a component itself. -/
theorem read_signs : read " -p1dt-2.5s" =
    .ok (.relative ⟨0, 0, 0, -1, 0, 0, .decimal (.finite false (5 * twoTo 1073))⟩) := by
  have hshort : HasShortNumbers 300 (capitals " -p1dt-2.5s") := fun ds hds _ =>
    hds.length_le.trans (by decide +kernel)
  let day : Figure := ⟨.none, ['1'], [], by decide, by decide, by decide⟩
  let seconds : Figure := ⟨.minus, ['2'], ['5'], by decide, by decide, by decide⟩
  let w : Spelling := ⟨.minus, none, none, none, some day, none, none, some seconds,
    by simp [day], by simp⟩
  exact ((read_eq_ok_iff (by decide +kernel) hshort).1 _).mpr
    ⟨w, by decide +kernel, by decide +kernel⟩

/-! ### Texts without an answer -/

/-- The text is a moment of the calendar whose point in time lies outside of it. -/
def LeavesCalendar (s : String) : Prop :=
  ¬ IsForDuration s ∧
    ∃ m, Moment.ofIso? (expandZulu (trimBlanks s.toList)) = some m ∧ m.instant? = none

/-- The text is a duration with more seconds than the largest double. -/
def LeavesDoubles (s : String) : Prop :=
  ∃ w : Spelling, w.chars = capitals s ∧ w.IsShort ∧ w.Overflows

theorem read_of_leaves {s : String} (h : LeavesCalendar s ∨ LeavesDoubles s) :
    read s = .error .outOfCalendar := by
  rcases h with ⟨hs, m, hm, hinstant⟩ | ⟨w, hw, hshort, hlarge⟩
  · simp [read_of_not_isForDuration hs, readInstant, hm, Moment.toInstant, hinstant, Except.map]
  · rw [read_of_chars hw, if_pos hshort, Duration.ofDuration_of_overflows hlarge]

/-- All other texts are read, or refused as what they are. -/
theorem read_of_not_leaves {s : String} (h : ¬ (LeavesCalendar s ∨ LeavesDoubles s)) :
    (∃ u, read s = .ok u) ∨ ∃ f, read s = .error f ∧ f.isBadValue = true := by
  obtain ⟨hcalendar, hdoubles⟩ := not_or.mp h
  by_cases hs : IsForDuration s
  · by_cases hspelled : ∃ w : Spelling, w.chars = capitals s
    · obtain ⟨w, hw⟩ := hspelled
      rw [read_of_chars hw]
      by_cases hshort : w.IsShort
      · have hlarge : ¬ w.Overflows := fun hlarge => hdoubles ⟨w, hw, hshort, hlarge⟩
        rw [if_pos hshort, Duration.ofDuration_of_not_overflows hlarge]
        exact Or.inl ⟨_, rfl⟩
      · rw [if_neg hshort]
        exact Or.inr ⟨_, rfl, rfl⟩
    · exact Or.inr ⟨_, read_of_not_spelled hs hspelled, rfl⟩
  · rw [read_of_not_isForDuration hs, readInstant]
    cases hm : Moment.ofIso? (expandZulu (trimBlanks s.toList)) with
    | none => exact Or.inr ⟨_, rfl, rfl⟩
    | some m =>
      cases hinstant : m.instant? with
      | none => exact absurd ⟨hs, m, hm, hinstant⟩ hcalendar
      | some i => exact Or.inl ⟨.absolute i, by simp [Moment.toInstant, hinstant, Except.map]⟩

/-- A text that is neither a timestamp nor refused as none leaves the calendar, or has more seconds
than there are doubles; with all other texts a timestamp can be compared. -/
theorem sameAsText_total (t : Timestamp) (s : String) :
    ((∃ f, read s = .error f ∧ f.isBadValue = false) ↔ LeavesCalendar s ∨ LeavesDoubles s) ∧
      (LeavesCalendar s ∨ LeavesDoubles s →
        read s = .error .outOfCalendar ∧ t.sameAsText s = .error .outOfCalendar) ∧
      (¬ (LeavesCalendar s ∨ LeavesDoubles s) →
        ∃ b, t.sameAsText s = .ok b ∧ (b = true ↔ ∃ u, read s = .ok u ∧ u.key = t.key)) := by
  refine ⟨⟨?_, fun h => ⟨_, read_of_leaves h, rfl⟩⟩, fun h => ?_, fun h => ?_⟩
  · rintro ⟨f, hf, hbad⟩
    by_contra h
    rcases read_of_not_leaves h with ⟨u, hu⟩ | ⟨g, hg, hgood⟩
    · rw [hu] at hf
      cases hf
    · rw [hg] at hf
      cases hf
      rw [hbad] at hgood
      cases hgood
  · have hread := read_of_leaves h
    exact ⟨hread, by rw [sameAsText, hread]; rfl⟩
  · rcases read_of_not_leaves h with ⟨u, hu⟩ | ⟨f, hf, hbad⟩
    · refine ⟨t.same u, by rw [sameAsText, hu], ?_⟩
      rw [same, beq_iff_eq]
      constructor
      · intro hkey
        exact ⟨u, hu, hkey.symm⟩
      · rintro ⟨u', hu', hkey⟩
        rw [hu] at hu'
        cases hu'
        exact hkey.symm
    · refine ⟨false, by simp [sameAsText, hf, hbad], ?_⟩
      simp [hf]

example : (now.sameAsText "0001-01-01T00:00:00+01:00").toOption = none := by decide +kernel
example : (now.sameAsText "P1DT").toOption = some false := by decide +kernel

end Timestamp

end Chronicle
