import Chronicle.Proofs.Timestamp.Key

/-!
# The grammar of durations

A duration is written as a sign, a `P`, numbers with units for the date, and behind a `T` numbers
with units for the time of day; signs and numbers may be missing, but not all numbers, and only
seconds have a fraction.  Digits of all scripts count.

* `Figure`, `Spelling`: numbers and durations as they are written;
* `scan_chars`, `exists_of_scan`: what is scanned is what is written like that;
* `read_chars`, `read_eq_invalid`: a text is read as the duration it spells, or refused.
-/

namespace Chronicle.Duration

open Chronicle.Decimal Chronicle.Text

/-! ## Numbers as they are written -/

/-- A sign as it is written; it may be missing. -/
inductive Sign
  | none
  | plus
  | minus
  deriving DecidableEq, Repr

namespace Sign

def chars : Sign → List Char
  | none => []
  | plus => ['+']
  | minus => ['-']

def isMinus : Sign → Bool
  | minus => true
  | _ => false

def factor (s : Sign) : Int := if s.isMinus then -1 else 1

end Sign

/-- A number as it is written: a sign, digits, and digits behind a point if there are any. -/
structure Figure where
  sign : Sign
  whole : List Char
  fraction : List Char
  whole_ne_nil : whole ≠ []
  isDigit_whole : ∀ c ∈ whole, isDigit c = true
  isDigit_fraction : ∀ c ∈ fraction, isDigit c = true
  deriving DecidableEq

namespace Figure

def chars (f : Figure) : List Char :=
  f.sign.chars ++ (f.whole ++ if f.fraction = [] then [] else '.' :: f.fraction)

/-- The number without its fraction. -/
def toInt (f : Figure) : Int := f.sign.factor * digitsValue f.whole

/-- The number without its sign. -/
def magnitude (f : Figure) : ℚ := digitsValue (f.whole ++ f.fraction) / 10 ^ f.fraction.length

/-- The double nearest to the number. -/
def toBinary64 (f : Figure) : Binary64 :=
  .ofDecimal f.sign.isMinus (digitsValue (f.whole ++ f.fraction)) (-f.fraction.length)

def numeral (f : Figure) : Numeral := ⟨f.sign.isMinus, f.whole, f.fraction, 0, f.fraction.isEmpty⟩

theorem toInt_numeral (f : Figure) : f.numeral.toInt = f.toInt := by
  unfold Numeral.toInt numeral toInt Sign.factor
  cases f.sign.isMinus <;> simp

theorem toBinary64_numeral (f : Figure) : f.numeral.toBinary64 = f.toBinary64 := by
  simp [Numeral.toBinary64, numeral, toBinary64]

end Figure

/-! ## Single components -/

theorem takeSign_chars (s : Sign) {cs : List Char} (h : ∀ c ∈ cs.head?, isDigit c = true) :
    takeSign (s.chars ++ cs) = (s.isMinus, cs) := by
  cases s with
  | plus => rfl
  | minus => rfl
  | none =>
    unfold Sign.chars takeSign
    rw [List.nil_append]
    split
    · exact absurd (h '-' rfl) (by decide)
    · exact absurd (h '+' rfl) (by decide)
    · rfl

theorem exists_takeSign_eq (cs : List Char) :
    ∃ s : Sign, cs = s.chars ++ (takeSign cs).2 ∧ (takeSign cs).1 = s.isMinus := by
  unfold takeSign
  split
  · exact ⟨.minus, rfl, rfl⟩
  · exact ⟨.plus, rfl, rfl⟩
  · exact ⟨.none, rfl, rfl⟩

section Component

variable {f : Figure} {unit : Char} {fractional : Bool} {cs rest : List Char}

theorem Figure.isUpper_chars (f : Figure) : ∀ c ∈ f.chars, c.isUpper = false := by
  unfold Figure.chars
  have hsign : ∀ c ∈ f.sign.chars, c.isUpper = false := by cases f.sign <;> decide
  refine isUpper_append hsign (isUpper_append (fun c hc => isUpper_of_isDigit
    (f.isDigit_whole c hc)) ?_)
  split
  · exact fun c hc => nomatch hc
  · exact isUpper_cons (by decide) fun c hc => isUpper_of_isDigit (f.isDigit_fraction c hc)

/-- A number with its unit is taken from the beginning of a text. -/
theorem takeComponent_chars (hunit : unit.isUpper = true) (hf : f.fraction ≠ [] → fractional = true) :
    takeComponent unit fractional (f.chars ++ unit :: rest) = some (f.numeral, rest) := by
  have hno : isDigit unit = false := by
    by_contra h
    rw [isUpper_of_isDigit (by simpa using h)] at hunit
    cases hunit
  have hpoint : unit ≠ '.' := by
    rintro rfl
    cases hunit
  obtain ⟨d, ds, hds⟩ := List.exists_cons_of_ne_nil f.whole_ne_nil
  have hfirst : isDigit d = true := f.isDigit_whole d (by simp [hds])
  have hempty : f.whole.isEmpty = false := by simp [f.whole_ne_nil]
  unfold takeComponent Figure.chars
  by_cases hfraction : f.fraction = []
  · have hrest : ∀ c ∈ (unit :: rest).head?, isDigit c = false := by simp [hno]
    obtain ⟨htake, hdrop⟩ := takeWhile_run f.isDigit_whole hrest
    rw [if_pos hfraction, List.append_nil, List.append_assoc,
      takeSign_chars _ (by simp [hds, hfirst])]
    simp [htake, hdrop, hempty, Figure.numeral, hfraction]
  · have hrest : ∀ c ∈ (unit :: rest).head?, isDigit c = false := by simp [hno]
    have hpointed : ∀ c ∈ ('.' :: (f.fraction ++ unit :: rest)).head?, isDigit c = false := by
      simp [show isDigit '.' = false by decide]
    obtain ⟨htake, hdrop⟩ := takeWhile_run f.isDigit_whole hpointed
    obtain ⟨htake', hdrop'⟩ := takeWhile_run f.isDigit_fraction hrest
    rw [if_neg hfraction, List.append_assoc, List.append_assoc, List.cons_append,
      takeSign_chars _ (by simp [hds, hfirst])]
    simp [htake, hdrop, hempty, hf hfraction, htake', hdrop', hpoint.symm, Figure.numeral, hfraction]

/-- What is taken as a component is a number with its unit. -/
theorem exists_of_takeComponent {n : Numeral} (h : takeComponent unit fractional cs = some (n, rest)) :
    ∃ f : Figure, n = f.numeral ∧ cs = f.chars ++ unit :: rest ∧
      (f.fraction ≠ [] → fractional = true) := by
  obtain ⟨s, hs, hminus⟩ := exists_takeSign_eq cs
  unfold takeComponent at h
  generalize takeSign cs = signed at h hs hminus
  obtain ⟨negative, body⟩ := signed
  dsimp only at h hs hminus
  subst hminus
  have hbody := List.takeWhile_append_dropWhile (p := isDigit) (l := body)
  have hwhole : ∀ c ∈ body.takeWhile isDigit, isDigit c = true := List.all_eq_true.mp List.all_takeWhile
  generalize body.takeWhile isDigit = whole at h hbody hwhole
  generalize body.dropWhile isDigit = tail at h hbody
  subst hbody
  split at h
  · cases h
  · next hne =>
    replace hne : whole ≠ [] := by simpa using hne
    split at h
    · cases h
    · next c more =>
      split at h
      · -- the unit follows the digits
        next hc =>
        obtain rfl : c = unit := by simpa using hc
        cases h
        exact ⟨⟨s, whole, [], hne, hwhole, by simp⟩, rfl, by simpa [Figure.chars] using hs, by simp⟩
      · split at h
        · -- a point follows, and then digits again
          next hpoint =>
          obtain ⟨hfractional, hc⟩ : fractional = true ∧ c = '.' := by simpa using hpoint
          subst hc
          have hmore := List.takeWhile_append_dropWhile (p := isDigit) (l := more)
          have hfraction : ∀ c ∈ more.takeWhile isDigit, isDigit c = true :=
            List.all_eq_true.mp List.all_takeWhile
          generalize more.takeWhile isDigit = fraction at h hmore hfraction
          generalize more.dropWhile isDigit = tail at h hmore
          subst hmore
          split at h
          · next u rest' =>
            split at h
            · next hu =>
              obtain ⟨hunit, hne'⟩ : u = unit ∧ fraction ≠ [] := by simpa using hu
              subst hunit
              cases h
              have hempty : fraction.isEmpty = false := by simp [hne']
              exact ⟨⟨s, whole, fraction, hne, hwhole, hfraction⟩, by simp [Figure.numeral, hempty],
                by simpa [Figure.chars, hne'] using hs, fun _ => hfractional⟩
            · cases h
          · cases h
        · cases h

theorem find?_chars_append (hunit : unit.isUpper = true) :
    (f.chars ++ unit :: rest).find? Char.isUpper = some unit := by
  have hnone : f.chars.find? Char.isUpper = none := List.find?_eq_none.mpr fun c hc => by
    simp [f.isUpper_chars c hc]
  rw [List.find?_append, hnone, Option.none_or, List.find?_cons_of_pos hunit]

/-- Nothing is taken where another unit comes first. -/
theorem takeComponent_eq_none (hunit : unit.isUpper = true)
    (h : cs.find? Char.isUpper ≠ some unit) : takeComponent unit fractional cs = none := by
  cases hn : takeComponent unit fractional cs with
  | none => rfl
  | some found =>
    obtain ⟨numeral, more⟩ := found
    obtain ⟨f, -, rfl, -⟩ := exists_of_takeComponent hn
    exact absurd (find?_chars_append hunit) h

end Component

/-! ## Components in a row -/

/-- The characters of a number that may be missing. -/
def figureChars (n : Option Figure) : List Char := n.elim [] Figure.chars

/-- A number with its unit, or nothing. -/
def written (p : Option Figure × Char) : List Char := part (figureChars p.1, p.2)

/-- A number may stand before the unit: only seconds have a fraction. -/
def Fits (p : Option Figure × Char) : Prop :=
  p.2.isUpper = true ∧ ∀ f ∈ p.1, f.fraction ≠ [] → p.2 = 'S'

theorem Figure.chars_ne_nil (f : Figure) : f.chars ≠ [] := by
  simp [Figure.chars, f.whole_ne_nil]

theorem written_some (f : Figure) (unit : Char) : written (some f, unit) = f.chars ++ [unit] := by
  simp [written, figureChars, part, f.chars_ne_nil]

theorem written_none (unit : Char) : written (none, unit) = [] := rfl

theorem find?_written {ps : List (Option Figure × Char)} (hps : ∀ p ∈ ps, Fits p) (rest : List Char) :
    (ps.flatMap written ++ rest).find? Char.isUpper = rest.find? Char.isUpper ∨
      ∃ p ∈ ps, (ps.flatMap written ++ rest).find? Char.isUpper = some p.2 := by
  induction ps with
  | nil => exact Or.inl rfl
  | cons p ps ih =>
    obtain ⟨hp, hps'⟩ := List.forall_mem_cons.mp hps
    obtain ⟨n, unit⟩ := p
    cases n with
    | none =>
      rw [List.flatMap_cons, written_none, List.nil_append]
      rcases ih hps' with h | ⟨q, hq, h⟩
      · exact Or.inl h
      · exact Or.inr ⟨q, List.mem_cons_of_mem _ hq, h⟩
    | some f =>
      rw [List.flatMap_cons, written_some, List.append_assoc, List.append_assoc,
        List.singleton_append]
      exact Or.inr ⟨(some f, unit), List.mem_cons_self, find?_chars_append hp.1⟩

/-- Components that are written in their order are found one by one. -/
theorem takeComponents_written {ps : List (Option Figure × Char)} {rest : List Char}
    (hps : ∀ p ∈ ps, Fits p) (hdistinct : (ps.map Prod.snd).Nodup)
    (hrest : ∀ p ∈ ps, rest.find? Char.isUpper ≠ some p.2) :
    takeComponents (ps.map Prod.snd) (ps.flatMap written ++ rest) =
      (ps.map fun p => p.1.map Figure.numeral, rest) := by
  induction ps with
  | nil => rfl
  | cons p ps ih =>
    obtain ⟨hp, hps'⟩ := List.forall_mem_cons.mp hps
    obtain ⟨hr, hrest'⟩ := List.forall_mem_cons.mp hrest
    rw [List.map_cons, List.nodup_cons] at hdistinct
    obtain ⟨n, unit⟩ := p
    have ih := ih hps' hdistinct.2 hrest'
    cases n with
    | none =>
      have hnext : (ps.flatMap written ++ rest).find? Char.isUpper ≠ some unit := by
        intro h
        rcases find?_written hps' rest with heq | ⟨q, hq, heq⟩
        · exact hr (heq ▸ h)
        · rw [heq] at h
          exact hdistinct.1 (List.mem_map.mpr ⟨q, hq, Option.some.inj h⟩)
      simp only [List.flatMap_cons, written_none, List.nil_append, List.map_cons, takeComponents,
        takeComponent_eq_none hp.1 hnext, ih, Option.map_none]
    | some f =>
      have htake : takeComponent unit (unit == 'S') (f.chars ++ unit :: (ps.flatMap written ++ rest)) =
          some (f.numeral, ps.flatMap written ++ rest) :=
        takeComponent_chars hp.1 fun h => by simpa using hp.2 f rfl h
      simp only [List.flatMap_cons, written_some, List.append_assoc, List.cons_append,
        List.nil_append, List.map_cons, takeComponents, htake, ih, Option.map_some]

/-- What is found of components is written in their order. -/
theorem exists_of_takeComponents {units : List Char} (hunits : ∀ u ∈ units, u.isUpper = true)
    (cs : List Char) : ∃ ps : List (Option Figure × Char), ps.map Prod.snd = units ∧
      (∀ p ∈ ps, Fits p) ∧ cs = ps.flatMap written ++ (takeComponents units cs).2 ∧
      (takeComponents units cs).1 = ps.map fun p => p.1.map Figure.numeral := by
  induction units generalizing cs with
  | nil => exact ⟨[], rfl, by simp, rfl, rfl⟩
  | cons unit units ih =>
    obtain ⟨hunit, hunits'⟩ := List.forall_mem_cons.mp hunits
    unfold takeComponents
    cases htake : takeComponent unit (unit == 'S') cs with
    | none =>
      obtain ⟨ps, hps, hfits, hcs, hfound⟩ := ih hunits' cs
      refine ⟨(none, unit) :: ps, by simp [hps], ?_, ?_, by simp [hfound]⟩
      · exact List.forall_mem_cons.mpr ⟨⟨hunit, fun f hf => nomatch hf⟩, hfits⟩
      · simpa [written_none] using hcs
    | some taken =>
      obtain ⟨numeral, more⟩ := taken
      obtain ⟨f, hf, hcs, hfraction⟩ := exists_of_takeComponent htake
      obtain ⟨ps, hps, hfits, hrest, hfound⟩ := ih hunits' more
      refine ⟨(some f, unit) :: ps, by simp [hps], ?_, ?_, by simp [hfound, hf]⟩
      · refine List.forall_mem_cons.mpr ⟨⟨hunit, fun g hg h => ?_⟩, hfits⟩
        cases hg
        simpa using hfraction h
      · simpa [written_some, ← hrest] using hcs

/-! ## Durations as they are written -/

/-- A duration as it is written: only seconds have a fraction, and there is a number. -/
structure Spelling where
  sign : Sign
  years : Option Figure
  months : Option Figure
  weeks : Option Figure
  days : Option Figure
  hours : Option Figure
  minutes : Option Figure
  seconds : Option Figure
  whole : ∀ n ∈ [years, months, weeks, days, hours, minutes], ∀ f ∈ n, f.fraction = []
  isSome : ∃ n ∈ [years, months, weeks, days, hours, minutes, seconds], n.isSome = true

namespace Spelling

variable (w : Spelling)

def date : List (Option Figure × Char) :=
  [(w.years, 'Y'), (w.months, 'M'), (w.weeks, 'W'), (w.days, 'D')]

def time : List (Option Figure × Char) :=
  [(w.hours, 'H'), (w.minutes, 'M'), (w.seconds, 'S')]

def chars : List Char :=
  w.sign.chars ++ 'P' :: (w.date.flatMap written ++ timeChars (w.time.flatMap written))

/-- The components that are whole numbers. -/
def counts : List (Option Figure) := [w.years, w.months, w.weeks, w.days, w.hours, w.minutes]

/-- A component with the overall sign; zero if it is missing. -/
def count (n : Option Figure) : Int := n.elim 0 fun f => w.sign.factor * f.toInt

/-- The duration that is spelled: the overall sign is that of each component. -/
def toDuration : Duration where
  years := w.count w.years
  months := w.count w.months
  weeks := w.count w.weeks
  days := w.count w.days
  hours := w.count w.hours
  minutes := w.count w.minutes
  seconds := .decimal (w.seconds.elim .zero fun f =>
    if w.sign.isMinus then f.toBinary64.neg else f.toBinary64)

/-- The whole numbers are short enough to be read. -/
def IsShort : Prop := ∀ n ∈ w.counts, ∀ f ∈ n, f.whole.length ≤ maxDigits

instance : Decidable w.IsShort := inferInstanceAs (Decidable (∀ n ∈ w.counts, ∀ f ∈ n, _))

/-! ### Scanning -/

theorem fits : ∀ p ∈ w.date ++ w.time, Fits p := by
  have hparts : w.date ++ w.time =
      w.counts.zip ['Y', 'M', 'W', 'D', 'H', 'M'] ++ [(w.seconds, 'S')] := rfl
  have hupper : ∀ u ∈ ['Y', 'M', 'W', 'D', 'H', 'M'], u.isUpper = true := by decide
  intro p hp
  rw [hparts, List.mem_append, List.mem_singleton] at hp
  rcases hp with hp | rfl
  · obtain ⟨hn, hunit⟩ := List.of_mem_zip hp
    exact ⟨hupper p.2 hunit, fun f hf hne => absurd (w.whole p.1 hn f hf) hne⟩
  · exact ⟨rfl, fun _ _ _ => rfl⟩

/-- The numerals that are read of a spelling. -/
def numerals : List (Option Numeral) :=
  (w.date ++ w.time).map fun p => p.1.map Figure.numeral

theorem any_numerals : w.numerals.any Option.isSome = true := by
  obtain ⟨n, hn, hsome⟩ := w.isSome
  simp only [List.mem_cons, List.not_mem_nil, or_false] at hn
  simp only [numerals, date, time, List.cons_append, List.nil_append, List.map_cons, List.map_nil,
    List.any_cons, List.any_nil, Option.isSome_map, Bool.or_eq_true]
  rcases hn with rfl | rfl | rfl | rfl | rfl | rfl | rfl <;> simp [hsome]

end Spelling

/-- Nothing is written where no number is. -/
theorem flatMap_written_eq_nil {ps : List (Option Figure × Char)} (h : ps.flatMap written = []) :
    ∀ p ∈ ps, p.1 = none := by
  intro p hp
  have hnil := List.flatMap_eq_nil_iff.mp h p hp
  obtain ⟨n, unit⟩ := p
  cases n with
  | none => rfl
  | some f => simp [written_some] at hnil

/-- What is written is scanned as its components. -/
theorem scan_chars (w : Spelling) : scan w.chars = some (w.sign.isMinus, w.numerals) := by
  have hsign : takeSign w.chars = (w.sign.isMinus,
      'P' :: (w.date.flatMap written ++ timeChars (w.time.flatMap written))) := by
    unfold Spelling.chars
    cases w.sign <;> rfl
  have hunits : ∀ p ∈ w.date, p.2 ∈ ['Y', 'M', 'W', 'D'] := by simp [Spelling.date]
  have hdate : takeComponents ['Y', 'M', 'W', 'D']
      (w.date.flatMap written ++ timeChars (w.time.flatMap written)) =
      (w.date.map fun p => p.1.map Figure.numeral, timeChars (w.time.flatMap written)) :=
    takeComponents_written (fun p hp => w.fits p (List.mem_append_left _ hp))
      (by simp [Spelling.date]) fun p hp =>
      find?_timeChars _ p.2 (hunits p hp)
  have hany := w.any_numerals
  rw [Spelling.numerals, List.map_append] at hany
  unfold scan
  simp only [hsign, hdate]
  -- without a time of day there is no `T`, and its three numbers are missing
  by_cases hnil : w.time.flatMap written = []
  · have hnone : w.time.map (fun p => p.1.map Figure.numeral) = [none, none, none] := by
      simpa [Spelling.time] using flatMap_written_eq_nil hnil
    rw [hnone] at hany
    simp [timeChars, hnil, isEnd, hany, Spelling.numerals, hnone]
  · have htime : takeComponents ['H', 'M', 'S'] (w.time.flatMap written ++ []) =
        (w.time.map fun p => p.1.map Figure.numeral, []) :=
      takeComponents_written (fun p hp => w.fits p (List.mem_append_right _ hp))
        (by simp [Spelling.time]) (by simp)
    rw [List.append_nil] at htime
    simp only [timeChars, if_neg hnil, htime, isEnd, hany, Spelling.numerals, List.map_append]
    rfl

/-- Components with the units of the date and of the time of day make a spelling. -/
theorem exists_spelling (s : Sign) {ps qs : List (Option Figure × Char)}
    (hps : ps.map Prod.snd = ['Y', 'M', 'W', 'D']) (hqs : qs.map Prod.snd = ['H', 'M', 'S'])
    (hfits : ∀ p ∈ ps ++ qs, Fits p)
    (hany : ((ps ++ qs).map fun p => p.1.map Figure.numeral).any Option.isSome = true) :
    ∃ w : Spelling, w.sign = s ∧
      w.chars = s.chars ++ 'P' :: (ps.flatMap written ++ timeChars (qs.flatMap written)) ∧
      w.numerals = (ps ++ qs).map fun p => p.1.map Figure.numeral := by
  match ps, qs, hps, hqs with
  | [(y, _), (m, _), (k, _), (d, _)], [(h, _), (i, _), (x, _)], rfl, rfl =>
    have hunit : ∀ n ∈ [y, m, k, d, h, i], ∃ u, u ≠ 'S' ∧
        (n, u) ∈ [(y, 'Y'), (m, 'M'), (k, 'W'), (d, 'D')] ++ [(h, 'H'), (i, 'M'), (x, 'S')] := by
      simp only [List.forall_mem_cons]
      exact ⟨⟨'Y', by decide, by simp⟩, ⟨'M', by decide, by simp⟩, ⟨'W', by decide, by simp⟩,
        ⟨'D', by decide, by simp⟩, ⟨'H', by decide, by simp⟩, ⟨'M', by decide, by simp⟩, by simp⟩
    have hwhole : ∀ n ∈ [y, m, k, d, h, i], ∀ f ∈ n, f.fraction = [] := by
      intro n hn f hf
      obtain ⟨u, hu, hp⟩ := hunit n hn
      by_contra hne
      exact hu ((hfits (n, u) hp).2 f hf hne)
    have hsome : ∃ n ∈ [y, m, k, d, h, i, x], n.isSome = true := by
      simpa [List.any_eq_true] using hany
    exact ⟨⟨s, y, m, k, d, h, i, x, hwhole, hsome⟩, rfl, rfl, rfl⟩

theorem eq_nil_of_isEnd (used : List Char) {rest : List Char} (h : isEnd rest = true)
    (hline : (used ++ rest).getLast? ≠ some '\n') : rest = [] := by
  rcases (Bool.or_eq_true _ _ ▸ h : (rest == []) = true ∨ (rest == ['\n']) = true) with h | h
  · exact beq_iff_eq.mp h
  · obtain rfl := beq_iff_eq.mp h
    simp at hline

/-- A text that is scanned, and does not end with a `T` or a line end, is a spelling. -/
theorem exists_of_scan {cs : List Char} {negative : Bool} {found : List (Option Numeral)}
    (h : scan cs = some (negative, found)) (hT : cs.getLast? ≠ some 'T')
    (hline : cs.getLast? ≠ some '\n') :
    ∃ w : Spelling, w.chars = cs ∧ negative = w.sign.isMinus ∧ found = w.numerals := by
  obtain ⟨s, hs, hminus⟩ := exists_takeSign_eq cs
  unfold scan at h
  generalize takeSign cs = signed at h hs hminus
  obtain ⟨minus, body⟩ := signed
  dsimp only at h hs hminus
  subst hminus
  split at h
  · next body =>
    obtain ⟨ps, hps, hfits, hbody, hdate⟩ :=
      exists_of_takeComponents (by decide : ∀ u ∈ ['Y', 'M', 'W', 'D'], u.isUpper = true) body
    generalize takeComponents ['Y', 'M', 'W', 'D'] body = taken at h hbody hdate
    obtain ⟨date, rest⟩ := taken
    dsimp only at h hbody hdate
    subst hdate hbody
    split at h
    · -- behind a `T`, where something has to stand
      next more =>
      obtain ⟨qs, hqs, hfits', hmore, htime⟩ :=
        exists_of_takeComponents (by decide : ∀ u ∈ ['H', 'M', 'S'], u.isUpper = true) more
      generalize takeComponents ['H', 'M', 'S'] more = taken at h hmore htime
      obtain ⟨time, after⟩ := taken
      dsimp only at h hmore htime
      subst htime hmore
      split at h
      · next hok =>
        obtain ⟨hafter, hany⟩ := Bool.and_eq_true _ _ ▸ hok
        obtain rfl : after = [] :=
          eq_nil_of_isEnd (s.chars ++ 'P' :: (ps.flatMap written ++ 'T' :: qs.flatMap written)) hafter
            (by simpa [hs] using hline)
        have htime : qs.flatMap written ≠ [] := by
          intro hnil
          rw [hnil, List.append_nil, ← List.cons_append, ← List.append_assoc] at hs
          exact hT (by rw [hs, List.getLast?_concat])
        obtain ⟨w, hsign, hchars, hnumerals⟩ := exists_spelling s hps hqs
          (fun p hp => (List.mem_append.mp hp).elim (hfits p) (hfits' p)) (by simpa using hany)
        cases h
        refine ⟨w, ?_, by rw [hsign], by rw [hnumerals, List.map_append]⟩
        rw [hchars, timeChars, if_neg htime, hs, List.append_nil]
      · cases h
    · -- without a time of day
      split at h
      · next hok =>
        obtain ⟨hrest, hany⟩ := Bool.and_eq_true _ _ ▸ hok
        obtain rfl : rest = [] :=
          eq_nil_of_isEnd (s.chars ++ 'P' :: ps.flatMap written) hrest (by simpa [hs] using hline)
        have hfits' : ∀ p ∈ [((none : Option Figure), 'H'), (none, 'M'), (none, 'S')], Fits p := by
          simp [Fits]
        obtain ⟨w, hsign, hchars, hnumerals⟩ := exists_spelling s hps rfl
          (fun p hp => (List.mem_append.mp hp).elim (hfits p) (hfits' p)) (by simpa using hany)
        cases h
        refine ⟨w, ?_, by rw [hsign], by rw [hnumerals, List.map_append]; rfl⟩
        rw [hchars, hs]
        rfl
      · cases h
  · cases h

/-! ## Reading -/

theorem getLast?_flatMap_written {ps : List (Option Figure × Char)} (h : ps.flatMap written ≠ []) :
    ∃ p ∈ ps, (ps.flatMap written).getLast? = some p.2 := by
  induction ps with
  | nil => exact absurd rfl h
  | cons p ps ih =>
    rw [List.flatMap_cons] at h ⊢
    by_cases hnil : ps.flatMap written = []
    · rw [hnil, List.append_nil] at h ⊢
      obtain ⟨n, unit⟩ := p
      cases n with
      | none => exact absurd (written_none unit) h
      | some f =>
        exact ⟨(some f, unit), List.mem_cons_self, by rw [written_some, List.getLast?_concat]⟩
    · obtain ⟨q, hq, hlast⟩ := ih hnil
      exact ⟨q, List.mem_cons_of_mem p hq, by rw [List.getLast?_append_of_ne_nil _ hnil, hlast]⟩

/-- A duration ends with a unit. -/
theorem getLast?_chars (w : Spelling) :
    ∃ u ∈ ['Y', 'M', 'W', 'D', 'H', 'M', 'S'], w.chars.getLast? = some u := by
  have hunit : ∀ p ∈ w.date ++ w.time, p.2 ∈ ['Y', 'M', 'W', 'D', 'H', 'M', 'S'] := by
    simp [Spelling.date, Spelling.time]
  unfold Spelling.chars timeChars
  by_cases htime : w.time.flatMap written = []
  · have hdate : w.date.flatMap written ≠ [] := by
      intro hdate
      have hnone : ∀ n ∈ w.numerals, n.isSome = false := by
        intro n hn
        obtain ⟨p, hp, rfl⟩ := List.mem_map.mp hn
        rcases List.mem_append.mp hp with hp | hp
        · simp [flatMap_written_eq_nil hdate p hp]
        · simp [flatMap_written_eq_nil htime p hp]
      obtain ⟨n, hn, hsome⟩ := List.any_eq_true.mp w.any_numerals
      exact absurd hsome (by simp [hnone n hn])
    obtain ⟨p, hp, hend⟩ := getLast?_flatMap_written hdate
    have hsplit : w.sign.chars ++ 'P' :: w.date.flatMap written =
        (w.sign.chars ++ ['P']) ++ w.date.flatMap written := by simp
    refine ⟨p.2, hunit p (List.mem_append_left _ hp), ?_⟩
    rw [if_pos htime, List.append_nil, hsplit, List.getLast?_append_of_ne_nil _ hdate, hend]
  · obtain ⟨p, hp, hend⟩ := getLast?_flatMap_written htime
    have hsplit : w.sign.chars ++ 'P' :: (w.date.flatMap written ++ 'T' :: w.time.flatMap written) =
        (w.sign.chars ++ 'P' :: (w.date.flatMap written ++ ['T'])) ++ w.time.flatMap written := by
      simp
    refine ⟨p.2, hunit p (List.mem_append_right _ hp), ?_⟩
    rw [if_neg htime, hsplit, List.getLast?_append_of_ne_nil _ htime, hend]

theorem wholeComponent_numeral (w : Spelling) (n : Option Figure) :
    wholeComponent w.sign.isMinus (n.map Figure.numeral) =
      if ∀ f ∈ n, f.whole.length ≤ maxDigits then .ok (w.count n) else .error .numberTooLong := by
  cases n with
  | none => simp [wholeComponent, Spelling.count]
  | some f =>
    have hcount : (if w.sign.isMinus = true then -f.toInt else f.toInt) = w.count (some f) := by
      unfold Spelling.count Sign.factor
      cases w.sign.isMinus <;> simp
    simp only [Option.map_some, wholeComponent, Option.mem_some_iff, forall_eq',
      Figure.toInt_numeral, hcount]
    by_cases hshort : f.whole.length ≤ maxDigits
    · rw [if_pos hshort, if_neg (by simpa [Figure.numeral] using hshort)]
    · rw [if_neg hshort, if_pos (by simpa [Figure.numeral] using hshort)]

theorem secondsComponent_numeral (w : Spelling) :
    secondsComponent w.sign.isMinus (w.seconds.map Figure.numeral) = w.toDuration.seconds := by
  unfold Spelling.toDuration secondsComponent
  cases w.seconds with
  | none => rfl
  | some f => simp [Figure.toBinary64_numeral]

theorem bind_ite_error {α β ε : Type} {p : Prop} [Decidable p] (a : α) (e : ε) (f : α → Except ε β) :
    ((if p then .ok a else .error e) >>= f) = if p then f a else .error e := by
  split <;> rfl

theorem isShort_iff (w : Spelling) : w.IsShort ↔
    (∀ f ∈ w.years, f.whole.length ≤ maxDigits) ∧ (∀ f ∈ w.months, f.whole.length ≤ maxDigits) ∧
    (∀ f ∈ w.weeks, f.whole.length ≤ maxDigits) ∧ (∀ f ∈ w.days, f.whole.length ≤ maxDigits) ∧
    (∀ f ∈ w.hours, f.whole.length ≤ maxDigits) ∧ (∀ f ∈ w.minutes, f.whole.length ≤ maxDigits) := by
  simp only [Spelling.IsShort, Spelling.counts, List.forall_mem_cons, List.not_mem_nil,
    false_implies, implies_true, and_true]

/-- What is spelled is read, unless a whole number is too long. -/
theorem read_chars (w : Spelling) : read (String.ofList w.chars) =
    if w.IsShort then .ok w.toDuration else .error .numberTooLong := by
  have hlast : w.chars.getLast? ≠ some 'T' := by
    obtain ⟨u, hu, hend⟩ := getLast?_chars w
    rintro h
    obtain rfl : u = 'T' := Option.some.inj (hend.symm.trans h)
    exact absurd hu (by decide)
  have hnumerals : w.numerals = [w.years, w.months, w.weeks, w.days, w.hours, w.minutes,
      w.seconds].map (Option.map Figure.numeral) := rfl
  unfold read
  simp only [String.toList_ofList, scan_chars, hnumerals, List.map_cons, List.map_nil,
    beq_iff_eq, hlast, if_false, wholeComponent_numeral, secondsComponent_numeral, bind_ite_error]
  rw [if_congr (isShort_iff w) rfl rfl]
  simp only [ite_and]
  rfl

/-- What is not spelled is refused. -/
theorem read_eq_invalid {cs : List Char} (hline : cs.getLast? ≠ some '\n')
    (h : ∀ w : Spelling, w.chars ≠ cs) :
    read (String.ofList cs) = .error (.invalidDuration (String.ofList cs)) := by
  unfold read
  simp only [String.toList_ofList]
  split
  · next negative years months weeks days hours minutes seconds hscan =>
    by_cases hT : cs.getLast? = some 'T'
    · rw [hT]
      rfl
    · obtain ⟨w, hw, -⟩ := exists_of_scan hscan hT hline
      exact absurd hw (h w)
  · rfl

/-! ## The characters of a duration -/

theorem Sign.mem_chars {s : Sign} {c : Char} (h : c ∈ s.chars) : c = '+' ∨ c = '-' := by
  cases s <;> simp_all [Sign.chars]

theorem Figure.mem_chars {f : Figure} {c : Char} (h : c ∈ f.chars) :
    isDigit c = true ∨ c ∈ ['+', '-', '.'] := by
  unfold Figure.chars at h
  rw [List.mem_append, List.mem_append] at h
  rcases h with h | h | h
  · rcases Sign.mem_chars h with rfl | rfl <;> exact Or.inr (by decide)
  · exact Or.inl (f.isDigit_whole c h)
  · split at h
    · cases h
    · rcases List.mem_cons.mp h with rfl | h
      · exact Or.inr (by decide)
      · exact Or.inl (f.isDigit_fraction c h)

/-- There are only digits, signs, points and the letters of the grammar in a duration. -/
theorem mem_chars {w : Spelling} {c : Char} (h : c ∈ w.chars) :
    isDigit c = true ∨ c ∈ ['+', '-', '.', 'P', 'T', 'Y', 'M', 'W', 'D', 'H', 'S'] := by
  have hwritten : ∀ {ps : List (Option Figure × Char)},
      (∀ p ∈ ps, p.2 ∈ ['Y', 'M', 'W', 'D', 'H', 'S']) → c ∈ ps.flatMap written →
      isDigit c = true ∨ c ∈ ['+', '-', '.', 'P', 'T', 'Y', 'M', 'W', 'D', 'H', 'S'] := by
    intro ps hunits hc
    obtain ⟨⟨n, unit⟩, hp, hc⟩ := List.mem_flatMap.mp hc
    have hunit := hunits _ hp
    cases n with
    | none => cases hc
    | some f =>
      rw [written_some, List.mem_append, List.mem_singleton] at hc
      rcases hc with hc | rfl
      · exact (Figure.mem_chars hc).imp_right fun hc =>
          List.mem_append_left ['P', 'T', 'Y', 'M', 'W', 'D', 'H', 'S'] hc
      · exact Or.inr (List.mem_append_right ['+', '-', '.', 'P', 'T'] hunit)
  unfold Spelling.chars timeChars at h
  rw [List.mem_append, List.mem_cons, List.mem_append] at h
  rcases h with h | rfl | h | h
  · rcases Sign.mem_chars h with rfl | rfl <;> exact Or.inr (by decide)
  · exact Or.inr (by decide)
  · exact hwritten (by simp [Spelling.date]) h
  · split at h
    · cases h
    · rcases List.mem_cons.mp h with rfl | h
      · exact Or.inr (by decide)
      · exact hwritten (by simp [Spelling.time]) h

end Chronicle.Duration
