import Chronicle.Proofs.Calendar.Written
import Chronicle.Proofs.Outcome

/-!
# Keys of timestamps

Timestamps with the same key mean the same point in time, whatever the present is: an instant can
be told from its text, and the components of a duration from theirs, up to the way in which the
same number of seconds can be kept.

* `parts_inj`: numbers with distinct units can be told from their text;
* `Seconds.microUnits_of_text`: seconds with the same text are as many;
* `Timestamp.resolveAt_of_key`: timestamps with the same key resolve alike;
* `Value.isProper_toTimestamp`: what a value denotes is a timestamp that there is.
-/

namespace Chronicle

open Chronicle.Calendar Chronicle.Decimal Chronicle.Text

/-! ## Numbers with units -/

namespace Duration

/-- A number followed by its unit; nothing for no number. -/
def part (p : List Char × Char) : List Char := if p.1 = [] then [] else p.1 ++ [p.2]

/-- Units are capital letters, and there are none in numbers. -/
def IsPart (p : List Char × Char) : Prop :=
  p.2.isUpper = true ∧ ∀ c ∈ p.1, c.isUpper = false

theorem find?_part {p : List Char × Char} (h : IsPart p) (cs : List Char) :
    (part p ++ cs).find? Char.isUpper =
      if p.1 = [] then cs.find? Char.isUpper else some p.2 := by
  unfold part
  split
  · rfl
  · have hnone : p.1.find? Char.isUpper = none := List.find?_eq_none.mpr fun c hc => by
      rw [h.2 c hc]
      exact Bool.false_ne_true
    rw [List.append_assoc, List.find?_append, hnone, Option.none_or]
    exact List.find?_cons_of_pos h.1

/-- A number can be told from a text that begins with it, if its unit does not come next in what
follows. -/
theorem part_inj {p q : List Char × Char} {cs ds : List Char} (hunit : p.2 = q.2) (hp : IsPart p)
    (hq : IsPart q) (hcs : cs.find? Char.isUpper ≠ some p.2)
    (hds : ds.find? Char.isUpper ≠ some p.2) (h : part p ++ cs = part q ++ ds) :
    p = q ∧ cs = ds := by
  obtain ⟨a, u⟩ := p
  obtain ⟨b, u'⟩ := q
  cases hunit
  have hfind := congrArg (List.find? Char.isUpper) h
  rw [find?_part hp, find?_part hq] at hfind
  by_cases ha : a = []
  · by_cases hb : b = []
    · subst ha
      subst hb
      exact ⟨rfl, h⟩
    · rw [if_pos ha, if_neg hb] at hfind
      exact absurd hfind hcs
  · by_cases hb : b = []
    · rw [if_neg ha, if_pos hb] at hfind
      exact absurd hfind.symm hds
    · simp only [part, if_neg ha, if_neg hb, List.append_assoc, List.singleton_append] at h
      have htake : ∀ {c : List Char} (cs : List Char), (∀ x ∈ c, x.isUpper = false) →
          (c ++ u :: cs).takeWhile (fun x => !x.isUpper) = c := by
        intro c cs hc
        rw [List.takeWhile_append_of_pos fun x hx => by rw [hc x hx]; rfl,
          List.takeWhile_cons_of_neg (by rw [hp.1]; decide), List.append_nil]
      obtain rfl : a = b := (htake cs hp.2).symm.trans (h ▸ htake ds hq.2)
      exact ⟨rfl, (List.cons.inj (List.append_cancel_left h)).2⟩

theorem find?_parts {ps : List (List Char × Char)} (h : ∀ p ∈ ps, IsPart p) (cs : List Char) :
    (ps.flatMap part ++ cs).find? Char.isUpper = cs.find? Char.isUpper ∨
      ∃ p ∈ ps, (ps.flatMap part ++ cs).find? Char.isUpper = some p.2 := by
  induction ps with
  | nil => exact Or.inl rfl
  | cons p ps ih =>
    rw [List.flatMap_cons, List.append_assoc, find?_part (h p List.mem_cons_self)]
    split
    · rcases ih fun q hq => h q (List.mem_cons_of_mem p hq) with hrest | ⟨q, hq, hfound⟩
      · exact Or.inl hrest
      · exact Or.inr ⟨q, List.mem_cons_of_mem p hq, hfound⟩
    · exact Or.inr ⟨p, List.mem_cons_self, rfl⟩

/-- Numbers with distinct units can be told from a text that begins with them, if none of the units
comes next in what follows. -/
theorem parts_inj {ps qs : List (List Char × Char)} {cs ds : List Char}
    (hunits : ps.map Prod.snd = qs.map Prod.snd) (hdistinct : (ps.map Prod.snd).Nodup)
    (hps : ∀ p ∈ ps, IsPart p) (hqs : ∀ q ∈ qs, IsPart q)
    (hcs : ∀ u ∈ ps.map Prod.snd, cs.find? Char.isUpper ≠ some u)
    (hds : ∀ u ∈ ps.map Prod.snd, ds.find? Char.isUpper ≠ some u)
    (h : ps.flatMap part ++ cs = qs.flatMap part ++ ds) : ps = qs ∧ cs = ds := by
  induction ps generalizing qs with
  | nil =>
    obtain rfl := List.map_eq_nil_iff.mp hunits.symm
    exact ⟨rfl, h⟩
  | cons p ps ih =>
    match qs with
    | [] => cases hunits
    | q :: qs =>
      obtain ⟨hunit, hunits'⟩ := List.cons.inj hunits
      obtain ⟨hfresh, hdistinct'⟩ := List.nodup_cons.mp hdistinct
      have hps' : ∀ p ∈ ps, IsPart p := fun r hr => hps r (List.mem_cons_of_mem p hr)
      have hqs' : ∀ q ∈ qs, IsPart q := fun r hr => hqs r (List.mem_cons_of_mem q hr)
      rw [List.flatMap_cons, List.flatMap_cons, List.append_assoc, List.append_assoc] at h
      have hnext : ∀ {rs : List (List Char × Char)} {es : List Char}, (∀ r ∈ rs, IsPart r) →
          rs.map Prod.snd = ps.map Prod.snd → es.find? Char.isUpper ≠ some p.2 →
          (rs.flatMap part ++ es).find? Char.isUpper ≠ some p.2 := by
        intro rs es hrs hsame hes
        rcases find?_parts hrs es with hfind | ⟨r, hr, hfind⟩
        · rwa [hfind]
        · rw [hfind]
          intro heq
          rw [← Option.some.inj heq, ← hsame] at hfresh
          exact hfresh (List.mem_map_of_mem hr)
      obtain ⟨rfl, htail⟩ := part_inj hunit (hps p List.mem_cons_self) (hqs q List.mem_cons_self)
        (hnext hps' rfl (hcs _ List.mem_cons_self))
        (hnext hqs' hunits'.symm (hds _ List.mem_cons_self)) h
      obtain ⟨rfl, hrest⟩ := ih hunits' hdistinct' hps' hqs'
        (fun u hu => hcs u (List.mem_cons_of_mem _ hu))
        (fun u hu => hds u (List.mem_cons_of_mem _ hu)) htail
      exact ⟨rfl, hrest⟩

end Duration

/-! ## Seconds -/

namespace Seconds

/-- Seconds that can be counted, as a whole number or a double that there is. -/
def IsProper (s : Seconds) : Prop :=
  s.failure? = none ∧ ∀ x, s = decimal x → x.IsProper

theorem isProper_whole (n : Int) : (whole n).IsProper := ⟨rfl, fun _ h => nomatch h⟩

/-- Proper seconds that are not a whole number are a finite double. -/
theorem IsProper.exists_finite {s : Seconds} (h : s.IsProper) (hint : s.toInt? = none) :
    ∃ negative units, s = decimal (.finite negative units) ∧
      (Binary64.finite negative units).IsProper := by
  match s with
  | whole n => cases hint
  | decimal (.finite negative units) => exact ⟨negative, units, rfl, h.2 _ rfl⟩
  | decimal (.infinite negative) => cases h.1
  | decimal .nan => cases h.1

/-- A whole number of seconds is counted as what it is. -/
theorem microUnits_of_toInt? {s : Seconds} {n : Int} (h : s.toInt? = some n) :
    s.microUnits = n * microsPerSecond * Binary64.one := by
  match s with
  | whole m =>
    cases h
    rfl
  | decimal (.infinite negative) => cases h
  | decimal .nan => cases h
  | decimal (.finite negative units) =>
    simp only [toInt?, Binary64.toInt?] at h
    split at h
    · next hwhole =>
      have hround : roundUnits (units % Binary64.one * microsPerSecond) 1 = 0 := by
        rw [hwhole, Nat.zero_mul]
        rfl
      simp only [microUnits, hround]
      cases negative with
      | true =>
        cases h
        simp only [if_true]
        push_cast
        ring
      | false =>
        cases h
        simp only [Bool.false_eq_true, if_false]
        push_cast
        ring
    · cases h

theorem text_of_toInt? {s : Seconds} {n : Int} (h : s.toInt? = some n) : s.text = toString n := by
  unfold text
  rw [h]

theorem text_decimal {x : Binary64} (h : (decimal x).toInt? = none) :
    (decimal x).text = x.text := by
  unfold text
  rw [h]

/-- Seconds that are not a whole number are not written as one. -/
theorem text_ne_toString {s : Seconds} {n : Int} (hs : s.IsProper) (h : s.toInt? = none) :
    s.text ≠ toString n := by
  obtain ⟨negative, units, rfl, hproper⟩ := hs.exists_finite h
  obtain ⟨numeral, hnumeral, hplain, -⟩ := Binary64.exists_numeral_text hproper
  intro heq
  have hchars := congrArg String.toList heq
  rw [text_decimal h, Binary64.text, String.toList_ofList] at hchars
  rw [hchars, ofChars?_toString] at hnumeral
  cases hnumeral
  cases hplain

/-- Seconds with the same text are as many. -/
theorem microUnits_of_text {s t : Seconds} (hs : s.IsProper) (ht : t.IsProper)
    (h : s.text = t.text) : s.microUnits = t.microUnits := by
  cases hm : s.toInt? with
  | some m =>
    rw [text_of_toInt? hm] at h
    cases hn : t.toInt? with
    | some n =>
      rw [text_of_toInt? hn] at h
      rw [microUnits_of_toInt? hm, microUnits_of_toInt? hn, toString_inj h]
    | none => exact absurd h.symm (text_ne_toString ht hn)
  | none =>
    cases hn : t.toInt? with
    | some n =>
      rw [text_of_toInt? hn] at h
      exact absurd h (text_ne_toString hs hm)
    | none =>
      obtain ⟨a, u, rfl, hu⟩ := hs.exists_finite hm
      obtain ⟨b, v, rfl, hv⟩ := ht.exists_finite hn
      obtain ⟨p, hp, -, hpu⟩ := Binary64.exists_numeral_text hu
      obtain ⟨q, hq, -, hqv⟩ := Binary64.exists_numeral_text hv
      rw [text_decimal hm, text_decimal hn, Binary64.text, Binary64.text] at h
      rw [String.ofList_injective h, hq] at hp
      rw [← hpu, ← hqv, Option.some.inj hp]

theorem isUpper_text {s : Seconds} (h : s.IsProper) : ∀ c ∈ s.text.toList, c.isUpper = false := by
  cases hn : s.toInt? with
  | some n =>
    rw [text_of_toInt? hn]
    exact isUpper_toString n
  | none =>
    obtain ⟨negative, units, rfl, -⟩ := h.exists_finite hn
    rw [text_decimal hn, Binary64.text, String.toList_ofList]
    exact isUpper_textChars negative units

theorem text_ne_nil {s : Seconds} (h : s.IsProper) : s.text.toList ≠ [] := by
  cases hn : s.toInt? with
  | some n =>
    rw [text_of_toInt? hn]
    exact toString_ne_nil n
  | none =>
    obtain ⟨negative, units, rfl, hproper⟩ := h.exists_finite hn
    obtain ⟨numeral, hnumeral, -, -⟩ := Binary64.exists_numeral_text hproper
    rw [text_decimal hn, Binary64.text, String.toList_ofList]
    intro hnil
    rw [hnil] at hnumeral
    cases hnumeral

theorem toInt?_of_isZero {s : Seconds} (h : s.isZero = true) : s.toInt? = some 0 := by
  match s with
  | whole n => exact congrArg some (beq_iff_eq.mp h)
  | decimal (.infinite negative) => cases h
  | decimal .nan => cases h
  | decimal (.finite negative units) =>
    obtain rfl : units = 0 := beq_iff_eq.mp h
    simp [toInt?, Binary64.toInt?]

theorem microUnits_of_isZero {s : Seconds} (h : s.isZero = true) : s.microUnits = 0 := by
  rw [microUnits_of_toInt? (toInt?_of_isZero h), Int.zero_mul, Int.zero_mul]

end Seconds

/-! ## Durations -/

namespace Duration

/-- A component that is written unless it is zero. -/
def number (n : Int) : List Char := if n = 0 then [] else (toString n).toList

/-- The seconds of a key: those of the zero duration are written. -/
def secondsNumber (d : Duration) : List Char :=
  if d.isZero then ['0'] else if d.seconds.isZero then [] else d.seconds.text.toList

def dateParts (d : Duration) : List (List Char × Char) :=
  [(number d.years, 'Y'), (number d.months, 'M'), (number d.weeks, 'W'), (number d.days, 'D')]

def timeParts (d : Duration) : List (List Char × Char) :=
  [(number d.hours, 'H'), (number d.minutes, 'M'), (d.secondsNumber, 'S')]

/-- The time part of a key, which is announced by a `T`. -/
def timeChars (cs : List Char) : List Char := if cs = [] then [] else 'T' :: cs

theorem toList_component (n : Int) (unit : Char) :
    (component n (String.ofList [unit])).toList = part (number n, unit) := by
  unfold component part number
  split
  · rfl
  · dsimp only
    rw [if_neg (toString_ne_nil n), String.toList_append, String.toList_ofList]

theorem isZero_iff (d : Duration) : d.isZero = true ↔
    d.years = 0 ∧ d.months = 0 ∧ d.weeks = 0 ∧ d.days = 0 ∧ d.hours = 0 ∧ d.minutes = 0 ∧
      d.seconds.isZero = true := by
  simp only [isZero, Bool.and_eq_true, beq_iff_eq, and_assoc]

theorem toList_time {d : Duration} (hd : d.isZero = false) (hs : d.seconds.IsProper) :
    (component d.hours "H" ++ component d.minutes "M" ++
      (if d.seconds.isZero then "" else d.seconds.text ++ "S")).toList =
      d.timeParts.flatMap part := by
  have hseconds : (if d.seconds.isZero then "" else d.seconds.text ++ "S").toList =
      part (d.secondsNumber, 'S') := by
    unfold secondsNumber part
    rw [hd]
    split
    · rfl
    · dsimp only
      rw [if_neg Bool.false_ne_true, if_neg (Seconds.text_ne_nil hs), String.toList_append]
      rfl
  rw [String.toList_append, String.toList_append, hseconds, timeParts]
  simp only [List.flatMap_cons, List.flatMap_nil, List.append_nil, List.append_assoc]
  rw [← toList_component, ← toList_component]

/-- The parts of a key. -/
theorem toList_key {d : Duration} (hs : d.seconds.IsProper) : (Timestamp.relative d).key.toList =
    'P' :: (d.dateParts.flatMap part ++ timeChars (d.timeParts.flatMap part)) := by
  cases hd : d.isZero with
  | true =>
    obtain ⟨hyears, hmonths, hweeks, hdays, hhours, hminutes, -⟩ := (isZero_iff d).mp hd
    have hkey : (Timestamp.relative d).key = Timestamp.nowKey := by
      rw [Timestamp.key, if_pos hd]
    rw [hkey, dateParts, timeParts, secondsNumber, hyears, hmonths, hweeks, hdays, hhours,
      hminutes, if_pos hd]
    decide
  | false =>
    have htime := toList_time hd hs
    have hkey : (Timestamp.relative d).key = d.text := by
      rw [Timestamp.key, hd, if_neg Bool.false_ne_true]
    rw [hkey, text]
    generalize component d.hours "H" ++ component d.minutes "M" ++
      (if d.seconds.isZero then "" else d.seconds.text ++ "S") = time at htime ⊢
    have htail : (if time = "" then "" else "T" ++ time).toList =
        timeChars (d.timeParts.flatMap part) := by
      rw [← htime, timeChars]
      by_cases hempty : time = ""
      · subst hempty
        rfl
      · rw [if_neg hempty, if_neg (fun h => hempty (String.toList_eq_nil_iff.mp h)),
          String.toList_append]
        rfl
    simp only [String.toList_append, htail, dateParts, List.flatMap_cons, List.flatMap_nil,
      List.append_nil, List.append_assoc, ← toList_component]
    rfl

theorem isUpper_number (n : Int) : ∀ c ∈ number n, c.isUpper = false := by
  unfold number
  split
  · exact fun c hc => nomatch hc
  · exact isUpper_toString n

theorem number_inj {m n : Int} (h : number m = number n) : m = n := by
  unfold number at h
  split at h <;> split at h
  · omega
  · exact absurd h.symm (toString_ne_nil n)
  · exact absurd h (toString_ne_nil m)
  · exact toString_inj (String.toList_injective h)

/-- The seconds of a key are none, or written as some seconds that are as many. -/
theorem secondsNumber_eq {d : Duration} (hs : d.seconds.IsProper) :
    d.secondsNumber = [] ∧ d.seconds.microUnits = 0 ∨
      ∃ s : Seconds, s.IsProper ∧ d.secondsNumber = s.text.toList ∧
        s.microUnits = d.seconds.microUnits := by
  unfold secondsNumber
  split
  · next hd =>
    have htext : ['0'] = (Seconds.whole 0).text.toList := rfl
    have hmicros : (Seconds.whole 0).microUnits = d.seconds.microUnits := by
      rw [Seconds.microUnits_of_isZero ((isZero_iff d).mp hd).2.2.2.2.2.2,
        Seconds.microUnits_of_isZero rfl]
    exact Or.inr ⟨.whole 0, Seconds.isProper_whole 0, htext, hmicros⟩
  · split
    · next hzero => exact Or.inl ⟨rfl, Seconds.microUnits_of_isZero hzero⟩
    · exact Or.inr ⟨d.seconds, hs, rfl, rfl⟩

theorem isUpper_secondsNumber {d : Duration} (hs : d.seconds.IsProper) :
    ∀ c ∈ d.secondsNumber, c.isUpper = false := by
  rcases secondsNumber_eq hs with ⟨hnil, -⟩ | ⟨s, hproper, htext, -⟩
  · rw [hnil]
    exact fun c hc => nomatch hc
  · rw [htext]
    exact Seconds.isUpper_text hproper

theorem isPart_dateParts (d : Duration) : ∀ p ∈ d.dateParts, IsPart p := by
  intro p hp
  simp only [dateParts, List.mem_cons, List.not_mem_nil, or_false] at hp
  rcases hp with rfl | rfl | rfl | rfl <;> exact ⟨rfl, isUpper_number _⟩

theorem isPart_timeParts {d : Duration} (hs : d.seconds.IsProper) :
    ∀ p ∈ d.timeParts, IsPart p := by
  intro p hp
  simp only [timeParts, List.mem_cons, List.not_mem_nil, or_false] at hp
  rcases hp with rfl | rfl | rfl
  · exact ⟨rfl, isUpper_number _⟩
  · exact ⟨rfl, isUpper_number _⟩
  · exact ⟨rfl, isUpper_secondsNumber hs⟩

theorem find?_timeChars (cs : List Char) (u : Char) (hu : u ∈ ['Y', 'M', 'W', 'D']) :
    (timeChars cs).find? Char.isUpper ≠ some u := by
  unfold timeChars
  split
  · exact fun h => nomatch h
  · intro h
    rw [List.find?_cons_of_pos (by decide)] at h
    cases h
    revert hu
    decide

theorem timeChars_inj {cs ds : List Char} (h : timeChars cs = timeChars ds) : cs = ds := by
  unfold timeChars at h
  split at h <;> split at h
  · next hcs hds => rw [hcs, hds]
  · cases h
  · cases h
  · exact (List.cons.inj h).2

section Key

variable {d e : Duration}

/-- Durations with the same key have the same parts. -/
theorem parts_of_key (hd : d.seconds.IsProper) (he : e.seconds.IsProper)
    (h : (Timestamp.relative d).key = (Timestamp.relative e).key) :
    d.dateParts = e.dateParts ∧ d.timeParts = e.timeParts := by
  have hchars := congrArg String.toList h
  rw [toList_key hd, toList_key he] at hchars
  have hdistinct : (d.dateParts.map Prod.snd).Nodup :=
    (by decide : (['Y', 'M', 'W', 'D'] : List Char).Nodup)
  have hdistinct' : (d.timeParts.map Prod.snd).Nodup :=
    (by decide : (['H', 'M', 'S'] : List Char).Nodup)
  have hunits : d.dateParts.map Prod.snd = e.dateParts.map Prod.snd := rfl
  have hunits' : d.timeParts.map Prod.snd = e.timeParts.map Prod.snd := rfl
  obtain ⟨hdate, htime⟩ := parts_inj hunits hdistinct (isPart_dateParts d)
    (isPart_dateParts e) (find?_timeChars _) (find?_timeChars _) (List.cons.inj hchars).2
  have htime' : d.timeParts.flatMap part ++ [] = e.timeParts.flatMap part ++ [] := by
    rw [timeChars_inj htime]
  exact ⟨hdate, (parts_inj hunits' hdistinct' (isPart_timeParts hd) (isPart_timeParts he)
    (by simp) (by simp) htime').1⟩

/-- Durations with the same key are the same, up to how their seconds are kept. -/
theorem eq_of_key (hd : d.seconds.IsProper) (he : e.seconds.IsProper)
    (h : (Timestamp.relative d).key = (Timestamp.relative e).key) :
    { d with seconds := e.seconds } = e ∧ d.seconds.microUnits = e.seconds.microUnits := by
  obtain ⟨hdate, htime⟩ := parts_of_key hd he h
  simp only [dateParts, timeParts, List.cons.injEq, Prod.mk.injEq, and_true] at hdate htime
  obtain ⟨hyears, hmonths, hweeks, hdays⟩ := hdate
  obtain ⟨hhours, hminutes, hseconds⟩ := htime
  constructor
  · rw [number_inj hyears, number_inj hmonths, number_inj hweeks, number_inj hdays,
      number_inj hhours, number_inj hminutes]
  · rcases secondsNumber_eq hd with ⟨hnil, hzero⟩ | ⟨s, hs, hstext, hsmicros⟩
    · rcases secondsNumber_eq he with ⟨-, hzero'⟩ | ⟨t, ht, httext, -⟩
      · rw [hzero, hzero']
      · rw [hnil, httext] at hseconds
        exact absurd hseconds.symm (Seconds.text_ne_nil ht)
    · rcases secondsNumber_eq he with ⟨hnil, -⟩ | ⟨t, ht, httext, htmicros⟩
      · rw [hnil, hstext] at hseconds
        exact absurd hseconds (Seconds.text_ne_nil hs)
      · rw [hstext, httext] at hseconds
        rw [← hsmicros, ← htmicros]
        exact Seconds.microUnits_of_text hs ht (String.toList_injective hseconds)

/-- What a duration leads to depends on how many its seconds are. -/
theorem apply_of_microUnits {s : Seconds} (hd : d.seconds.failure? = none)
    (hs : s.failure? = none) (h : d.seconds.microUnits = s.microUnits) (m : Moment) :
    d.apply m = { d with seconds := s }.apply m := by
  have hspan : d.span = { d with seconds := s }.span := by
    unfold span
    rw [h]
  unfold apply
  rw [hspan, hd]
  simp only [hs]

end Key

end Duration

/-! ## Timestamps -/

namespace Timestamp

/-- A timestamp that there is. -/
def IsProper : Timestamp → Prop
  | absolute i => i.micros < Instant.bound
  | relative d => d.seconds.IsProper

/-- The key of an instant begins with a digit and that of a duration with a `P`. -/
theorem key_ne_key (i : Instant) {d : Duration} (hd : d.seconds.IsProper) :
    (absolute i).key ≠ (relative d).key := by
  intro h
  obtain ⟨c, hc, hdigit⟩ := i.head_key
  have hchars : i.key.toList = _ := (congrArg String.toList h).trans (Duration.toList_key hd)
  rw [hchars] at hc
  cases hc
  exact absurd hdigit (by decide)

/-- Timestamps with the same key are the same point in time, whatever the present is. -/
theorem resolveAt_of_key {a b : Timestamp} (ha : a.IsProper) (hb : b.IsProper)
    (h : a.key = b.key) (moment : Option Moment) (clock : Instant) :
    a.resolveAt moment clock = b.resolveAt moment clock := by
  cases a with
  | absolute i =>
    cases b with
    | absolute j => rw [Instant.key_inj ha hb h]
    | relative e => exact absurd h (key_ne_key i hb)
  | relative d =>
    cases b with
    | absolute j => exact absurd h.symm (key_ne_key j ha)
    | relative e =>
      obtain ⟨heq, hmicros⟩ := Duration.eq_of_key ha hb h
      have happly : ∀ m, d.apply m = e.apply m := by
        intro m
        rw [← heq]
        exact Duration.apply_of_microUnits ha.1 hb.1 hmicros m
      have hresolve : (relative d).resolve = (relative e).resolve := by
        funext present
        simp only [resolve, happly]
      cases moment <;> simp only [resolveAt, hresolve]

end Timestamp

/-! ## Timestamps of values -/

namespace Duration

theorem isProper_secondsComponent (negative : Bool) (n : Option Numeral) :
    ∀ x, secondsComponent negative n = .decimal x → x.IsProper := by
  intro x hx
  match n with
  | none =>
    cases hx
    exact Binary64.isProper_zero false
  | some n =>
    cases hx
    have hproper : n.toBinary64.IsProper := Binary64.isProper_ofDecimal _ _ _
    split
    · exact Binary64.isProper_neg hproper
    · exact hproper

/-- The seconds of a duration that is read are a double that there is. -/
theorem exists_secondsComponent {text : String} {d : Duration} (h : read text = .ok d) :
    ∃ negative n, d.seconds = secondsComponent negative n := by
  unfold read at h
  dsimp only at h
  split at h
  · next negative years months weeks days hours minutes seconds hscan =>
    split at h
    · cases h
    · obtain ⟨y, -, h⟩ := bind_eq_ok_iff.mp h
      obtain ⟨m, -, h⟩ := bind_eq_ok_iff.mp h
      obtain ⟨w, -, h⟩ := bind_eq_ok_iff.mp h
      obtain ⟨n, -, h⟩ := bind_eq_ok_iff.mp h
      obtain ⟨o, -, h⟩ := bind_eq_ok_iff.mp h
      obtain ⟨i, -, h⟩ := bind_eq_ok_iff.mp h
      cases h
      exact ⟨negative, seconds, rfl⟩
  · cases h

end Duration

namespace Timestamp

theorem isProper_ofDuration {d : Duration} {t : Timestamp} (h : ofDuration d = .ok t)
    (hd : ∀ x, d.seconds = .decimal x → x.IsProper) : t.IsProper := by
  unfold ofDuration at h
  split at h
  · cases h
  · next hnone =>
    cases h
    exact ⟨hnone, hd⟩

theorem isProper_ofMoment {m : Moment} {t : Timestamp} (h : ofMoment m = .ok t) : t.IsProper := by
  obtain ⟨i, hi, rfl⟩ := map_eq_ok_iff.mp h
  exact Moment.toInstant_lt hi

theorem isProper_read {text : String} {t : Timestamp} (h : read text = .ok t) : t.IsProper := by
  unfold read at h
  dsimp only at h
  split at h
  · obtain ⟨d, hd, h⟩ := bind_eq_ok_iff.mp h
    obtain ⟨negative, n, hseconds⟩ := Duration.exists_secondsComponent hd
    exact isProper_ofDuration h (hseconds ▸ Duration.isProper_secondsComponent negative n)
  · obtain ⟨i, hi, rfl⟩ := map_eq_ok_iff.mp h
    unfold readInstant at hi
    split at hi
    · exact Moment.toInstant_lt hi
    · cases hi

end Timestamp

/-- What a value denotes is a timestamp that there is, if a timestamp among values is one. -/
theorem Value.isProper_toTimestamp {v : Value} {t : Timestamp} (h : v.toTimestamp = .ok t)
    (hv : ∀ u, v = .timestamp u → u.IsProper) : t.IsProper := by
  unfold toTimestamp at h
  split at h
  · cases h
    exact hv t rfl
  · exact Timestamp.isProper_ofMoment h
  · exact Timestamp.isProper_read h
  · cases h

end Chronicle

