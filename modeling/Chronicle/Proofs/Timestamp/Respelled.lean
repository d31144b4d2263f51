import Chronicle.Proofs.Decimal.Positional
import Chronicle.Proofs.Timestamp.Reading

/-!
# Other spellings of a duration

One duration is spelled in many ways: all signs can be turned around, and the components can be
written as a key has them, unless there is an exponent in the key.

* `Duration.Spelling.opposed`: the same duration with all signs turned around;
* `Duration.Spelling.ofKey`: a key as a spelling;
* `Duration.exists_secondsNumber`: the seconds of a key, if they are not very small.
-/

namespace Chronicle

open Chronicle.Decimal Chronicle.Text

/-! ## Opposed signs -/

namespace Duration

namespace Sign

def opposed : Sign → Sign
  | minus => none
  | _ => minus

theorem isMinus_opposed (s : Sign) : s.opposed.isMinus = !s.isMinus := by
  cases s <;> rfl

theorem factor_opposed (s : Sign) : s.opposed.factor = -s.factor := by
  cases s <;> rfl

end Sign

namespace Figure

def opposed (f : Figure) : Figure := { f with sign := f.sign.opposed }

theorem toInt_opposed (f : Figure) : f.opposed.toInt = -f.toInt := by
  rw [toInt, opposed, Sign.factor_opposed, toInt, Int.neg_mul]

theorem toBinary64_opposed (f : Figure) : f.opposed.toBinary64 = f.toBinary64.neg := by
  rw [toBinary64, opposed, Sign.isMinus_opposed]
  exact ofDecimal_not _ _ _

end Figure

namespace Spelling

variable (w : Spelling)

/-- All numbers with the opposite sign, and the overall sign too. -/
def opposed : Spelling where
  sign := w.sign.opposed
  years := w.years.map Figure.opposed
  months := w.months.map Figure.opposed
  weeks := w.weeks.map Figure.opposed
  days := w.days.map Figure.opposed
  hours := w.hours.map Figure.opposed
  minutes := w.minutes.map Figure.opposed
  seconds := w.seconds.map Figure.opposed
  whole := by
    intro n hn f hf
    obtain ⟨m, hm, rfl⟩ := List.mem_map.mp (show n ∈ w.counts.map (Option.map Figure.opposed) from hn)
    obtain ⟨g, hg, rfl⟩ := Option.map_eq_some_iff.mp hf
    exact w.whole m hm g hg
  isSome := by
    obtain ⟨n, hn, hsome⟩ := w.isSome
    exact ⟨n.map Figure.opposed, List.mem_map_of_mem hn, by rwa [Option.isSome_map]⟩

theorem count_opposed (n : Option Figure) : w.opposed.count (n.map Figure.opposed) = w.count n := by
  cases n with
  | none => rfl
  | some f =>
    simp only [count, Option.map_some, Option.elim_some, Figure.toInt_opposed,
      show w.opposed.sign = w.sign.opposed from rfl, Sign.factor_opposed]
    exact Int.neg_mul_neg _ _

/-- Both signs of a number are opposed, so the number is the same. -/
theorem toDuration_opposed : w.opposed.toDuration = w.toDuration := by
  have hseconds : w.opposed.toDuration.seconds = w.toDuration.seconds := by
    unfold toDuration
    cases hs : w.seconds with
    | none => simp [opposed, hs]
    | some f =>
      simp only [opposed, hs, Option.map_some, Option.elim_some, Figure.toBinary64_opposed,
        Sign.isMinus_opposed]
      cases w.sign.isMinus <;> simp [Binary64.neg_neg]
  exact (Duration.mk.injEq ..).mpr ⟨w.count_opposed w.years, w.count_opposed w.months,
    w.count_opposed w.weeks, w.count_opposed w.days, w.count_opposed w.hours,
    w.count_opposed w.minutes, hseconds⟩

theorem isShort_opposed : w.opposed.IsShort ↔ w.IsShort := by
  have hcounts : w.opposed.counts = w.counts.map (Option.map Figure.opposed) := rfl
  unfold IsShort
  rw [hcounts]
  simp [Figure.opposed]

end Spelling

end Duration

namespace Timestamp

open Duration (Spelling)

/-- All signs can be turned around in a text. -/
theorem read_opposed (w : Spelling) :
    read (String.ofList w.opposed.chars) = read (String.ofList w.chars) := by
  rw [read_of_chars (capitals_chars w.opposed).symm, read_of_chars (capitals_chars w).symm,
    w.toDuration_opposed, if_congr w.isShort_opposed rfl rfl]

end Timestamp

/-! ## Keys of durations -/

namespace Seconds

/-- Seconds that are not zero and less than a ten thousandth. -/
def IsTiny : Seconds → Prop
  | whole _ => False
  | decimal x => x.IsTiny

instance : DecidablePred IsTiny
  | whole _ => inferInstanceAs (Decidable False)
  | decimal x => inferInstanceAs (Decidable x.IsTiny)

theorem IsTiny.exists_finite {s : Seconds} (h : s.IsTiny) :
    ∃ negative units, s = decimal (.finite negative units) ∧
      (Binary64.finite negative units).IsTiny := by
  match s with
  | whole n => cases h
  | decimal (.infinite negative) => cases h
  | decimal .nan => cases h
  | decimal (.finite negative units) => exact ⟨negative, units, rfl, h⟩

end Seconds

namespace Duration

namespace Sign

/-- A sign as it is written in a key. -/
def ofNegative (negative : Bool) : Sign := if negative then .minus else .none

theorem chars_ofNegative (negative : Bool) : (ofNegative negative).chars = signChars negative := by
  cases negative <;> rfl

theorem isMinus_ofNegative (negative : Bool) : (ofNegative negative).isMinus = negative := by
  cases negative <;> rfl

end Sign

namespace Figure

/-- A whole number as it is written in a key. -/
def ofInt (n : Int) : Figure where
  sign := .ofNegative (n < 0)
  whole := Nat.toDigits 10 n.natAbs
  fraction := []
  whole_ne_nil := Nat.toDigits_ne_nil
  isDigit_whole _ hc := isDigit_of_ascii (isAsciiDigit_of_mem_toDigits hc)
  isDigit_fraction _ hc := nomatch hc

theorem chars_ofInt (n : Int) : (ofInt n).chars = (toString n).toList := by
  have hsign : (ofInt n).sign.chars = signChars (n < 0) := Sign.chars_ofNegative _
  rw [toList_toString, chars, hsign]
  exact congrArg (signChars (n < 0) ++ ·) (List.append_nil _)

theorem isMinus_ofInt (n : Int) : (ofInt n).sign.isMinus = decide (n < 0) :=
  Sign.isMinus_ofNegative _

theorem digitsValue_ofInt (n : Int) :
    digitsValue ((ofInt n).whole ++ (ofInt n).fraction) = n.natAbs := by
  have hwhole : (ofInt n).whole ++ (ofInt n).fraction = Nat.toDigits 10 n.natAbs :=
    List.append_nil _
  rw [hwhole, digitsValue_toDigits]

theorem toBinary64_ofInt (n : Int) :
    (ofInt n).toBinary64 = .ofDecimal (decide (n < 0)) n.natAbs 0 := by
  rw [toBinary64, isMinus_ofInt, digitsValue_ofInt]
  rfl

theorem toInt_ofInt (n : Int) : (ofInt n).toInt = n := by
  have hdigits : digitsValue (ofInt n).whole = n.natAbs := digitsValue_toDigits _
  rw [toInt, hdigits, Sign.factor, isMinus_ofInt]
  by_cases h : n < 0
  · rw [if_pos (decide_eq_true h)]
    omega
  · rw [if_neg (by simpa using h)]
    omega

section Double

variable {negative : Bool} {units : Nat}

/-- The text of a double that is not very small is a number as it is written in a duration. -/
theorem exists_text (h : (Binary64.finite negative units).IsProper) (hne : units ≠ 0)
    (hlarge : ¬ (Binary64.finite negative units).IsTiny) :
    ∃ f : Figure, f.chars = (Seconds.decimal (.finite negative units)).text.toList ∧
      f.toBinary64 = .finite negative units := by
  cases hn : (Binary64.finite negative units).toInt? with
  | some n =>
    have htext : (Seconds.decimal (.finite negative units)).text = toString n :=
      Seconds.text_of_toInt? hn
    exact ⟨ofInt n, by rw [htext, chars_ofInt],
      (toBinary64_ofInt n).trans (Binary64.ofDecimal_of_toInt? h hne hn)⟩
  | none =>
    have hn' : (Seconds.decimal (.finite negative units)).toInt? = none := hn
    have htext : (Seconds.decimal (.finite negative units)).text.toList =
        (Binary64.finite negative units).textChars := by
      rw [Seconds.text_decimal hn', Binary64.text, String.toList_ofList]
    have hfraction : units % Binary64.one ≠ 0 := by
      intro hwhole
      rw [Binary64.toInt?, if_pos hwhole] at hn
      cases hn
    obtain ⟨whole, fraction, hchars, hne', hbehind, hwhole, hdigits, hvalue⟩ :=
      Binary64.exists_point_text h hfraction hlarge
    refine ⟨⟨.ofNegative negative, whole, fraction, hne',
      fun c hc => isDigit_of_ascii (hwhole c hc), fun c hc => isDigit_of_ascii (hdigits c hc)⟩, ?_, ?_⟩
    · rw [htext, hchars, chars, Sign.chars_ofNegative, if_neg hbehind]
    · rw [toBinary64, Sign.isMinus_ofNegative, hvalue]

end Double

/-- A whole number that is written unless it is zero. -/
def ofInt? (n : Int) : Option Figure := if n = 0 then none else some (ofInt n)

theorem ofInt?_eq_none_iff {n : Int} : ofInt? n = none ↔ n = 0 := by
  unfold ofInt?
  split <;> simp_all

theorem eq_ofInt_of_mem {n : Int} {f : Figure} (h : f ∈ ofInt? n) : f = ofInt n := by
  unfold ofInt? at h
  split at h
  · cases h
  · exact (Option.some.inj h).symm

theorem figureChars_ofInt? (n : Int) : figureChars (ofInt? n) = number n := by
  unfold ofInt? number
  split
  · rfl
  · exact chars_ofInt n

end Figure

/-- The components that are whole numbers. -/
def numbers (d : Duration) : List Int :=
  [d.years, d.months, d.weeks, d.days, d.hours, d.minutes]

namespace Spelling

/-- The spelling of a key, by what stands for the seconds. -/
def ofKey (d : Duration) (seconds : Option Figure)
    (h : seconds = none → d.isZero = false ∧ d.seconds.isZero = true) : Spelling where
  sign := .none
  years := Figure.ofInt? d.years
  months := Figure.ofInt? d.months
  weeks := Figure.ofInt? d.weeks
  days := Figure.ofInt? d.days
  hours := Figure.ofInt? d.hours
  minutes := Figure.ofInt? d.minutes
  seconds := seconds
  whole := by
    intro n hn f hf
    obtain ⟨k, -, rfl⟩ := List.mem_map.mp (show n ∈ d.numbers.map Figure.ofInt? from hn)
    rw [Figure.eq_ofInt_of_mem hf]
    rfl
  isSome := by
    by_contra hnone
    have hmissing : ∀ n ∈ [Figure.ofInt? d.years, Figure.ofInt? d.months, Figure.ofInt? d.weeks,
        Figure.ofInt? d.days, Figure.ofInt? d.hours, Figure.ofInt? d.minutes, seconds],
        n = none := fun n hn => Option.not_isSome_iff_eq_none.mp fun hsome => hnone ⟨n, hn, hsome⟩
    simp only [List.forall_mem_cons, Figure.ofInt?_eq_none_iff] at hmissing
    obtain ⟨hyears, hmonths, hweeks, hdays, hhours, hminutes, hseconds, -⟩ := hmissing
    obtain ⟨hd, hzero⟩ := h hseconds
    rw [(isZero_iff d).mpr ⟨hyears, hmonths, hweeks, hdays, hhours, hminutes, hzero⟩] at hd
    cases hd

section Key

variable {d : Duration} {seconds : Option Figure}
  {h : seconds = none → d.isZero = false ∧ d.seconds.isZero = true}

theorem chars_ofKey (hd : d.seconds.IsProper) (hs : figureChars seconds = d.secondsNumber) :
    (ofKey d seconds h).chars = (Timestamp.relative d).key.toList := by
  have hdate : (ofKey d seconds h).date.flatMap written = d.dateParts.flatMap part := by
    simp [date, ofKey, dateParts, written, Figure.figureChars_ofInt?]
  have htime : (ofKey d seconds h).time.flatMap written = d.timeParts.flatMap part := by
    simp [time, ofKey, timeParts, written, Figure.figureChars_ofInt?, hs]
  rw [chars, hdate, htime, toList_key hd]
  rfl

theorem count_ofKey (n : Int) : (ofKey d seconds h).count (Figure.ofInt? n) = n := by
  unfold Figure.ofInt?
  split
  · next hzero => exact hzero.symm
  · rw [count, Option.elim_some, Figure.toInt_ofInt]
    exact Int.one_mul n

theorem seconds_toDuration {w : Spelling} (hw : w.sign.isMinus = false) :
    w.toDuration.seconds = .decimal (w.seconds.elim .zero Figure.toBinary64) := by
  simp only [toDuration, hw, Bool.false_eq_true, if_false]

theorem toDuration_ofKey : (ofKey d seconds h).toDuration =
    { d with seconds := .decimal (seconds.elim .zero Figure.toBinary64) } := by
  have hseconds : (ofKey d seconds h).toDuration.seconds =
      .decimal (seconds.elim .zero Figure.toBinary64) :=
    seconds_toDuration (w := ofKey d seconds h) rfl
  exact (Duration.mk.injEq ..).mpr ⟨count_ofKey d.years, count_ofKey d.months, count_ofKey d.weeks,
    count_ofKey d.days, count_ofKey d.hours, count_ofKey d.minutes, hseconds⟩

end Key

end Spelling

/-- The seconds of a key are spelled, unless they are very small. -/
theorem exists_secondsNumber {d : Duration} {x : Binary64} (hd : d.seconds = .decimal x)
    (hproper : d.seconds.IsProper) (hlarge : ¬ x.IsTiny) :
    ∃ n : Option Figure, figureChars n = d.secondsNumber ∧
      (n = none → d.isZero = false ∧ d.seconds.isZero = true) ∧
      n.elim .zero Figure.toBinary64 = if x.isZero then .zero else x := by
  have hx : d.seconds.isZero = x.isZero := by rw [hd]; rfl
  by_cases hzero : d.isZero = true
  · have hxzero : x.isZero = true := hx ▸ ((isZero_iff d).mp hzero).2.2.2.2.2.2
    refine ⟨some (.ofInt 0), ?_, fun h => absurd h (Option.some_ne_none _), ?_⟩
    · rw [secondsNumber, if_pos hzero]
      rfl
    · rw [if_pos hxzero]
      rfl
  · rw [Bool.not_eq_true] at hzero
    by_cases hxzero : x.isZero = true
    · refine ⟨none, ?_, fun _ => ⟨hzero, hx.trans hxzero⟩, ?_⟩
      · simp [secondsNumber, hzero, hx, hxzero, figureChars]
      · rw [if_pos hxzero]
        rfl
    · obtain ⟨negative, units, rfl⟩ : ∃ negative units, x = .finite negative units := by
        cases x with
        | finite negative units => exact ⟨negative, units, rfl⟩
        | infinite negative => exact absurd (hd ▸ hproper.1) (by simp [Seconds.failure?])
        | nan => exact absurd (hd ▸ hproper.1) (by simp [Seconds.failure?])
      have hne : units ≠ 0 := fun h => hxzero (by simp [Binary64.isZero, h])
      obtain ⟨f, hchars, hvalue⟩ := Figure.exists_text (hproper.2 _ hd) hne hlarge
      refine ⟨some f, ?_, fun h => absurd h (Option.some_ne_none f), ?_⟩
      · rw [secondsNumber, hzero, hx, if_neg Bool.false_ne_true, if_neg hxzero, hd, ← hchars]
        rfl
      · rw [if_neg hxzero]
        exact hvalue

/-! ### Whole numbers that are not too long -/

/-- The whole numbers of a duration have few enough digits to be read. -/
def IsShort (d : Duration) : Prop :=
  ∀ n ∈ d.numbers, (Nat.toDigits 10 n.natAbs).length ≤ maxDigits

theorem length_toDigits_toInt (f : Figure) {s : Sign} (h : f.whole.length ≤ maxDigits) :
    (Nat.toDigits 10 (s.factor * f.toInt).natAbs).length ≤ maxDigits := by
  have habs : (s.factor * f.toInt).natAbs = digitsValue f.whole := by
    unfold Figure.toInt Sign.factor
    cases s.isMinus <;> cases f.sign.isMinus <;> simp
  have hpos : 0 < maxDigits := by decide
  rw [habs]
  refine (Nat.length_toDigits_le_iff (by decide) hpos).mpr ?_
  exact (digitsValue_lt f.whole).trans_le (Nat.pow_le_pow_right (by decide) h)

theorem isShort_toDuration {w : Spelling} (h : w.IsShort) : w.toDuration.IsShort := by
  intro k hk
  obtain ⟨n, hn, rfl⟩ := List.mem_map.mp (show k ∈ w.counts.map w.count from hk)
  cases n with
  | none =>
    change (Nat.toDigits 10 0).length ≤ maxDigits
    decide
  | some f => exact length_toDigits_toInt f (h _ hn f rfl)

theorem isShort_ofKey {d : Duration} {seconds : Option Figure}
    {h : seconds = none → d.isZero = false ∧ d.seconds.isZero = true} (hd : d.IsShort) :
    (Spelling.ofKey d seconds h).IsShort := by
  intro n hn f hf
  obtain ⟨k, hk, rfl⟩ := List.mem_map.mp (show n ∈ d.numbers.map Figure.ofInt? from hn)
  rw [Figure.eq_ofInt_of_mem hf]
  exact hd k hk

end Duration

end Chronicle
