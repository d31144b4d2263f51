import Chronicle.Proofs.Calendar.Reading
import Chronicle.Proofs.Timestamp.Respelled

/-!
# Keys are read back

The key of a timestamp is a text that denotes the timestamp, with one exception: seconds that are
not zero and less than a ten thousandth have an exponent in the key, which the grammar of durations
does not know.

* `Timestamp.read_key_ofMoment`: keys of instants;
* `Timestamp.read_key_relative`: keys of durations.
-/

namespace Chronicle

open Chronicle.Calendar Chronicle.Decimal Chronicle.Text

/-! ## Instants -/

namespace Calendar.Instant

/-- The characters of the text of an instant. -/
theorem isPlain_of_mem_key {i : Instant} {c : Char} (h : c ∈ i.key.toList) : IsPlain c := by
  have hplain : ∀ d : Char, isAsciiDigit d = true ∨ d ∈ ['-', ':', '.', 'T', 'Z'] → IsPlain d := by
    rintro d (hd | hd)
    · have hrange := (isAsciiDigit_iff d).mp hd
      exact isPlain_of_lt (by omega) (by omega)
    · have hrange : ∀ x ∈ ['-', ':', '.', 'T', 'Z'], 32 < x.toNat ∧ x.toNat < 97 := by decide
      exact isPlain_of_lt (hrange d hd).1 (hrange d hd).2
  have hpadded : ∀ {width n : Nat}, c ∈ Date.padded width n → IsPlain c := fun hc =>
    hplain c (Or.inl (Date.isAsciiDigit_of_mem_padded hc))
  simp only [key_toList, Date.textChars, List.mem_append, List.mem_cons, List.not_mem_nil,
    or_false] at h
  rcases h with ((h | rfl | h) | rfl | h) | rfl | h | rfl
  · exact hpadded h
  · exact hplain _ (Or.inr (by decide))
  · exact hpadded h
  · exact hplain _ (Or.inr (by decide))
  · exact hpadded h
  · exact hplain _ (Or.inr (by decide))
  · refine hplain c ((Moment.mem_clockChars h).imp_right fun hc => ?_)
    exact (by decide : [':', '.'] ⊆ ['-', ':', '.', 'T', 'Z']) hc
  · exact hplain _ (Or.inr (by decide))

end Calendar.Instant

namespace Timestamp

theorem not_isForDuration_key (i : Instant) : ¬ IsForDuration i.key := by
  obtain ⟨c, hc, hdigit⟩ := i.head_key
  obtain ⟨cs, hcs⟩ := List.head?_eq_some_iff.mp hc
  have hcapitals : capitals i.key = c :: cs := by
    rw [capitals, upper_trimBlanks_eq_self fun d hd => Instant.isPlain_of_mem_key hd, hcs]
  have hsign : isSign c = false := by
    rw [← Bool.not_eq_true]
    intro hsign
    rcases isSign_iff.mp hsign with rfl | rfl <;> exact absurd hdigit (by decide)
  rw [IsForDuration, hcapitals, List.dropWhile_cons_of_neg (by simp [hsign])]
  rintro heq
  cases heq
  exact absurd hdigit (by decide)

/-- The `Z` at the end is read as the offset zero. -/
theorem expandZulu_key (i : Instant) : expandZulu i.key.toList =
    i.moment.date.textChars ++
      'T' :: (Moment.clockChars i.moment.micros true ++ Moment.zeroOffset) := by
  have hsplit : i.key.toList = (i.moment.date.textChars ++
      'T' :: Moment.clockChars i.moment.micros true) ++ ['Z'] := by
    rw [Instant.key_toList, List.append_assoc, List.cons_append]
  rw [expandZulu, hsplit, List.getLast?_concat, if_pos (by decide), List.dropLast_concat,
    List.append_assoc, List.cons_append]
  rfl

/-- The text of an instant denotes the instant. -/
theorem read_key {i : Instant} (h : i.micros < Instant.bound) : read i.key = .ok (.absolute i) := by
  have hmoment : { i.moment with offset := some 0 } = i.moment := by
    rw [← (Instant.moment_spec h).1]
  rw [read_of_not_isForDuration (not_isForDuration_key i),
    trimBlanks_of_isPlain fun c hc => Instant.isPlain_of_mem_key hc, readInstant, expandZulu_key,
    Moment.ofIso?_written, hmoment]
  dsimp only
  rw [Instant.toInstant_moment h]
  rfl

/-- The key of a moment whose point in time lies within the calendar is read as this point in time:
whatever the offset of the moment was, the time that is read does not differ. -/
theorem read_key_ofMoment {m : Moment} {i : Instant} (h : m.instant? = some i) :
    ∃ t u, ofMoment m = .ok t ∧ read t.key = .ok u ∧ u.isRelative = false ∧ u.same t = true ∧
      (i.micros : Int) = m.wallMicros - m.offset.getD 0 ∧
      ∀ moment clock, u.resolveAt moment clock = .ok i := by
  obtain ⟨hmicros, hbound⟩ := Instant.ofMicros?_eq_some h
  have ht : ofMoment m = .ok (.absolute i) := by
    rw [ofMoment, Moment.toInstant, h]
    rfl
  exact ⟨.absolute i, .absolute i, ht, read_key hbound, rfl, beq_self_eq_true _, hmicros,
    fun _ _ => rfl⟩

/-- The last microsecond of a year on a clock that is one and a half seconds behind. -/
def yearsEnd : Moment :=
  ⟨⟨2023, 12, 31, by decide, by decide, by decide⟩, 86399999999, some (-1500001), by decide⟩

theorem read_key_yearsEnd : ∃ t u, ofMoment yearsEnd = .ok t ∧
    t.key = "2024-01-01T00:00:01.500000Z" ∧ read t.key = .ok u ∧ u.same t = true := by
  have hinstant : yearsEnd.instant? = some ⟨63839664001500000⟩ := by decide +kernel
  obtain ⟨t, u, ht, hu, -, hsame, -, -⟩ := read_key_ofMoment hinstant
  have hkey : t.key = "2024-01-01T00:00:01.500000Z" := by
    rw [ofMoment, Moment.toInstant, hinstant] at ht
    cases ht
    decide +kernel
  exact ⟨t, u, ht, hkey, hu, hsame⟩

end Timestamp

/-! ## Durations -/

namespace Timestamp

open Duration (Spelling)

variable {s : String} {d : Duration}

/-- What is read as a duration is spelled. -/
theorem exists_of_read_relative (h : read s = .ok (.relative d)) :
    ∃ w : Spelling, w.chars = capitals s ∧ w.IsShort ∧ d = w.toDuration := by
  by_cases hs : IsForDuration s
  · by_cases hspelled : ∃ w : Spelling, w.chars = capitals s
    · obtain ⟨w, hw⟩ := hspelled
      rw [read_of_chars hw] at h
      by_cases hshort : w.IsShort
      · rw [if_pos hshort, ofDuration] at h
        refine ⟨w, hw, hshort, ?_⟩
        split at h
        · cases h
        · cases h
          rfl
      · rw [if_neg hshort] at h
        cases h
    · rw [read_of_not_spelled hs hspelled] at h
      cases h
  · rw [read_of_not_isForDuration hs] at h
    obtain ⟨i, -, hi⟩ := map_eq_ok_iff.mp h
    cases hi

/-- All zeros have the same key. -/
theorem key_of_isZero {x : Binary64} (hd : d.seconds = .decimal x) :
    (relative { d with seconds := .decimal (if x.isZero then .zero else x) }).key =
      (relative d).key := by
  by_cases hx : x.isZero = true
  · have hzero : Binary64.zero.isZero = true := rfl
    simp [key, Duration.isZero, Duration.text, Seconds.isZero, hd, hx, hzero]
  · rw [if_neg hx, ← hd]

/-- A key without an exponent is read as a timestamp with this key. -/
theorem read_key_of_not_isTiny {x : Binary64} (hd : d.seconds = .decimal x)
    (hproper : d.seconds.IsProper) (hshort : d.IsShort) (hlarge : ¬ x.IsTiny) :
    read (relative d).key =
      .ok (.relative { d with seconds := .decimal (if x.isZero then .zero else x) }) := by
  obtain ⟨n, hchars, hnone, hvalue⟩ := Duration.exists_secondsNumber hd hproper hlarge
  have hkey := Spelling.chars_ofKey (h := hnone) hproper hchars
  have hread : read (relative d).key = read (String.ofList (Spelling.ofKey d n hnone).chars) := by
    rw [hkey, String.ofList_toList]
  have hcountable : (Seconds.decimal (if x.isZero then .zero else x)).failure? = none := by
    split
    · rfl
    · rw [← hd]
      exact hproper.1
  rw [hread, read_of_chars (capitals_chars _).symm, if_pos (Duration.isShort_ofKey hshort),
    Spelling.toDuration_ofKey, hvalue, ofDuration]
  dsimp only
  rw [hcountable]

/-- The key of very small seconds has an exponent between its first letter and its last one. -/
theorem exists_key_of_isTiny (hproper : d.seconds.IsProper) (htiny : d.seconds.IsTiny) :
    ∃ cs, (relative d).key.toList = 'P' :: (cs ++ ['S']) ∧ 'e' ∈ cs := by
  obtain ⟨negative, units, hd, hx⟩ := htiny.exists_finite
  have hzero : d.seconds.isZero = false := by
    rw [hd]
    exact beq_eq_false_iff_ne.mpr hx.1
  have hd0 : d.isZero = false := by
    rw [Bool.eq_false_iff]
    intro h
    rw [((Duration.isZero_iff d).mp h).2.2.2.2.2.2] at hzero
    cases hzero
  have hint : (Seconds.decimal (.finite negative units)).toInt? = none := by
    have hsmall : units < Binary64.one := by
      have := hx.2
      omega
    refine if_neg ?_
    rw [Nat.mod_eq_of_lt hsmall]
    exact hx.1
  have hnumber : d.secondsNumber = (Binary64.finite negative units).textChars := by
    rw [Duration.secondsNumber, hd0, hzero, if_neg Bool.false_ne_true, if_neg Bool.false_ne_true, hd,
      Seconds.text_decimal hint, Binary64.text, String.toList_ofList]
  have hmem := Binary64.mem_textChars_of_isTiny (hproper.2 _ hd) hx
  have hpart : Duration.part (d.secondsNumber, 'S') =
      (Binary64.finite negative units).textChars ++ ['S'] := by
    rw [hnumber]
    exact if_neg (List.ne_nil_of_mem hmem)
  refine ⟨d.dateParts.flatMap Duration.part ++ 'T' ::
    (Duration.part (Duration.number d.hours, 'H') ++ (Duration.part (Duration.number d.minutes, 'M') ++
      (Binary64.finite negative units).textChars)), ?_, by simp [hmem]⟩
  rw [Duration.toList_key hproper, Duration.timeParts, Duration.timeChars]
  simp [hpart]

/-- A key with an exponent is for a duration, but it is not spelled. -/
theorem not_spelled_of_isTiny (hproper : d.seconds.IsProper) (htiny : d.seconds.IsTiny) :
    IsForDuration (relative d).key ∧ ¬ ∃ w : Spelling, w.chars = capitals (relative d).key := by
  obtain ⟨cs, hkey, hmem⟩ := exists_key_of_isTiny hproper htiny
  have hcapitals : capitals (relative d).key = 'P' :: upper (cs ++ ['S']) := by
    have htrim : trimBlanks ('P' :: (cs ++ ['S'])) = 'P' :: (cs ++ ['S']) := by
      refine trimBlanks_eq_self (fun c hc => ?_) (fun c hc => ?_)
      · cases hc
        decide
      · rw [← List.cons_append, List.getLast?_concat] at hc
        cases hc
        decide
    rw [capitals, hkey, htrim]
    rfl
  refine ⟨by rw [IsForDuration, hcapitals]; rfl, ?_⟩
  rintro ⟨w, hw⟩
  have hexponent : 'E' ∈ w.chars := by
    rw [hw, hcapitals]
    refine List.mem_cons_of_mem _ (List.mem_flatMap.mpr ⟨'e', List.mem_append_left _ hmem, ?_⟩)
    decide
  exact absurd (Duration.mem_chars hexponent) (by decide)

/-- A key with an exponent is refused. -/
theorem read_key_of_isTiny (hproper : d.seconds.IsProper) (htiny : d.seconds.IsTiny) :
    read (relative d).key =
      .error (.invalidDuration (String.ofList (capitals (relative d).key))) := by
  obtain ⟨hs, hspelled⟩ := not_spelled_of_isTiny hproper htiny
  exact read_of_not_spelled hs hspelled

/-- The key of a duration that is read is read as a timestamp with the same key, unless it has an
exponent; then it is refused.  All signs can be turned around in the text that is read, and in its
key, where no exponent is in the way. -/
theorem read_key_relative (h : read s = .ok (.relative d)) :
    ((∃ u, read (relative d).key = .ok u ∧ u.same (relative d) = true ∧
        u.key = (relative d).key) ↔ ¬ d.seconds.IsTiny) ∧
      (d.seconds.IsTiny → read (relative d).key =
        .error (.invalidDuration (String.ofList (capitals (relative d).key)))) ∧
      ∀ w : Spelling, w.chars = capitals s ∨ w.chars = (relative d).key.toList →
        ∃ u, read (String.ofList w.opposed.chars) = .ok u ∧ u.same (relative d) = true := by
  have hproper : d.seconds.IsProper := isProper_read h
  obtain ⟨v, hv, hshort, rfl⟩ := exists_of_read_relative h
  have hback : ¬ v.toDuration.seconds.IsTiny → ∃ u, read (relative v.toDuration).key = .ok u ∧
      u.same (relative v.toDuration) = true ∧ u.key = (relative v.toDuration).key := by
    intro hlarge
    refine ⟨_, read_key_of_not_isTiny rfl hproper (Duration.isShort_toDuration hshort) hlarge, ?_,
      key_of_isZero rfl⟩
    rw [same, beq_iff_eq]
    exact key_of_isZero rfl
  have hrefused := fun htiny => read_key_of_isTiny hproper htiny
  refine ⟨⟨?_, hback⟩, hrefused, ?_⟩
  · rintro ⟨u, hu, -⟩ htiny
    rw [hrefused htiny] at hu
    cases hu
  · rintro w (hw | hw)
    · refine ⟨.relative v.toDuration, ?_, beq_self_eq_true _⟩
      rw [read_opposed, read_of_chars (capitals_chars w).symm, ← read_of_chars hw, h]
    · have hkey : String.ofList w.chars = (relative v.toDuration).key := by
        rw [hw, String.ofList_toList]
      have hlarge : ¬ v.toDuration.seconds.IsTiny := by
        intro htiny
        refine (not_spelled_of_isTiny hproper htiny).2 ⟨w, ?_⟩
        rw [← hkey, capitals_chars]
      obtain ⟨u, hu, hsame, -⟩ := hback hlarge
      exact ⟨u, by rw [read_opposed, hkey, hu], hsame⟩

/-- Ten microseconds. -/
def tenMicroseconds : Duration := { Duration.zero with seconds := .decimal (.ofDecimal false 1 (-5)) }

/-- The key of ten microseconds is refused. -/
theorem read_key_tenMicroseconds : read "PT0.00001S" = .ok (.relative tenMicroseconds) ∧
    (relative tenMicroseconds).key = "PT1e-05S" ∧
    read "PT1e-05S" = .error (.invalidDuration "PT1E-05S") := by
  have hread : read "PT0.00001S" = .ok (.relative tenMicroseconds) := by
    have hsome : (read "PT0.00001S").toOption = some (.relative tenMicroseconds) := by
      decide +kernel
    cases h : read "PT0.00001S" with
    | ok t =>
      rw [h] at hsome
      exact congrArg Except.ok (Option.some.inj hsome)
    | error f =>
      rw [h] at hsome
      cases hsome
  have hkey : (relative tenMicroseconds).key = "PT1e-05S" := by decide +kernel
  have hcapitals : String.ofList (capitals "PT1e-05S") = "PT1E-05S" := by decide +kernel
  obtain ⟨-, hrefused, -⟩ := read_key_relative hread
  rw [hkey, hcapitals] at hrefused
  exact ⟨hread, hkey, hrefused (by decide +kernel)⟩

end Timestamp

end Chronicle
