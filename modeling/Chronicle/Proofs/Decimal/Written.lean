import Chronicle.Decimal.Numeral
import Chronicle.Proofs.Decimal.Shortest

/-!
# Texts of numbers

What is written for a double reads as a numeral that denotes the double.  No whole number is
written like that, since it has neither a point nor an exponent.

* `Numeral.ofChars?_point`, `Numeral.ofChars?_exponent`: the numerals that texts denote;
* `Layout.exists_numeral`: a laid out decimal reads as a numeral of its value;
* `Binary64.exists_numeral_text`: the text of a double denotes it.
-/

namespace Chronicle.Decimal

open Chronicle.Text

/-! ## Digits -/

theorem isAsciiDigit_iff (c : Char) : isAsciiDigit c = true ↔ 48 ≤ c.toNat ∧ c.toNat ≤ 57 := by
  unfold isAsciiDigit
  rw [Bool.and_eq_true, decide_eq_true_eq, decide_eq_true_eq]
  exact Iff.rfl

theorem digitValue?_of_ascii {c : Char} (h : isAsciiDigit c = true) :
    digitValue? c = some (c.toNat - 48) := by
  have hrange := (isAsciiDigit_iff c).mp h
  rw [digitValue?, if_pos (by omega), if_pos hrange]

theorem isDigit_of_ascii {c : Char} (h : isAsciiDigit c = true) : isDigit c = true := by
  rw [isDigit, digitValue?_of_ascii h]
  rfl

theorem isAsciiDigit_of_mem_toDigits {n : Nat} {c : Char} (h : c ∈ Nat.toDigits 10 n) :
    isAsciiDigit c = true := by
  have hdigit := Nat.isDigit_of_mem_toDigits (by decide) (by decide) h
  unfold Char.isDigit at hdigit
  rw [Bool.and_eq_true, decide_eq_true_eq, decide_eq_true_eq] at hdigit
  exact (isAsciiDigit_iff c).mpr hdigit

theorem isAsciiDigit_of_mem_zeros {k : Nat} {c : Char} (h : c ∈ List.replicate k '0') :
    isAsciiDigit c = true := by
  rw [List.eq_of_mem_replicate h]
  decide

theorem digitsValue_eq {cs : List Char} (h : ∀ c ∈ cs, isAsciiDigit c = true) :
    digitsValue cs = Nat.ofDigitChars 10 cs 0 := by
  rw [Nat.ofDigitChars_eq_foldl, digitsValue]
  refine List.foldl_ext _ _ _ fun n c hc => ?_
  rw [digitValue?_of_ascii (h c hc)]
  rfl

theorem digitsValue_toDigits (n : Nat) : digitsValue (Nat.toDigits 10 n) = n := by
  rw [digitsValue_eq fun c hc => isAsciiDigit_of_mem_toDigits hc, Nat.ofDigitChars_ten_toDigits]

/-- Zeros in front do not count. -/
theorem digitsValue_zeros_append (k : Nat) (cs : List Char) :
    digitsValue (List.replicate k '0' ++ cs) = digitsValue cs := by
  have hzeros : digitsValue (List.replicate k '0') = 0 := by
    rw [digitsValue_eq fun c hc => isAsciiDigit_of_mem_zeros hc, Nat.ofDigitChars_replicate_zero]
    rfl
  unfold digitsValue at hzeros ⊢
  rw [List.foldl_append, hzeros]

/-- Each zero at the end makes ten times as much. -/
theorem digitsValue_append_zeros (cs : List Char) (k : Nat) :
    digitsValue (cs ++ List.replicate k '0') = digitsValue cs * 10 ^ k := by
  induction k with
  | zero => simp
  | succ k ih =>
    rw [List.replicate_succ', ← List.append_assoc, digitsValue_append_singleton, ih, Nat.pow_succ]
    change 10 * (digitsValue cs * 10 ^ k) + 0 = _
    ring

theorem digitValue?_le {c : Char} {n : Nat} (h : digitValue? c = some n) : n ≤ 9 := by
  unfold digitValue? at h
  split at h
  · split at h
    · cases h
      omega
    · cases h
  · obtain ⟨first, hfirst, rfl⟩ := Option.map_eq_some_iff.mp h
    have hrange := List.find?_some hfirst
    simp only [Bool.and_eq_true, decide_eq_true_eq] at hrange
    omega

/-- A number is less than the power of ten with as many zeros as it has digits. -/
theorem digitsValue_lt (cs : List Char) : digitsValue cs < 10 ^ cs.length := by
  induction cs using List.reverseRecOn with
  | nil => decide
  | append_singleton cs c ih =>
    have hdigit : (digitValue? c).getD 0 ≤ 9 := by
      cases h : digitValue? c with
      | none => exact Nat.zero_le 9
      | some n => exact digitValue?_le h
    rw [digitsValue_append_singleton, List.length_append, List.length_singleton, Nat.pow_succ]
    omega

/-! ## Reading numerals -/

/-- How a sign is written. -/
def signChars (negative : Bool) : List Char := if negative then ['-'] else []

/-- How an exponent is written, with two digits at least. -/
def exponentChars (e : Int) : List Char :=
  'e' :: (if e < 0 then '-' else '+') :: Layout.pad2 e.natAbs

theorem takeSign_append {negative : Bool} {cs : List Char}
    (h : ∀ c ∈ cs.head?, isAsciiDigit c = true) :
    takeSign (signChars negative ++ cs) = (negative, cs) := by
  cases negative with
  | true => rfl
  | false =>
    match cs with
    | [] => rfl
    | c :: cs =>
      have hc := (isAsciiDigit_iff c).mp (h c rfl)
      unfold signChars takeSign
      split
      · next heq => cases heq; exact absurd hc (by decide)
      · next heq => cases heq; exact absurd hc (by decide)
      · rfl

/-- A run of characters of one sort ends where another character follows. -/
theorem takeWhile_run {p : Char → Bool} {ds rest : List Char} (hds : ∀ c ∈ ds, p c = true)
    (hrest : ∀ c ∈ rest.head?, p c = false) :
    (ds ++ rest).takeWhile p = ds ∧ (ds ++ rest).dropWhile p = rest := by
  rw [List.takeWhile_append_of_pos hds, List.dropWhile_append_of_pos hds]
  match rest with
  | [] => simp
  | c :: cs =>
    rw [List.takeWhile_cons_of_neg (by simp [hrest c rfl]),
      List.dropWhile_cons_of_neg (by simp [hrest c rfl]), List.append_nil]
    exact ⟨rfl, rfl⟩

theorem isAsciiDigit_of_mem_pad2 {n : Nat} {c : Char} (h : c ∈ Layout.pad2 n) :
    isAsciiDigit c = true := by
  unfold Layout.pad2 at h
  split at h
  · rcases List.mem_cons.mp h with rfl | h
    · decide
    · exact isAsciiDigit_of_mem_toDigits h
  · exact isAsciiDigit_of_mem_toDigits h

theorem digitsValue_pad2 (n : Nat) : digitsValue (Layout.pad2 n) = n := by
  unfold Layout.pad2
  split
  · exact (digitsValue_zeros_append 1 _).trans (digitsValue_toDigits n)
  · exact digitsValue_toDigits n

theorem pad2_ne_nil (n : Nat) : Layout.pad2 n ≠ [] := by
  unfold Layout.pad2
  split
  · exact List.cons_ne_nil _ _
  · exact Nat.toDigits_ne_nil

namespace Numeral

theorem takeExponent_exponentChars (e : Int) : takeExponent (exponentChars e) = some (e, []) := by
  have hdigits : ∀ c ∈ Layout.pad2 e.natAbs, isAsciiDigit c = true :=
    fun c hc => isAsciiDigit_of_mem_pad2 hc
  obtain ⟨htake, hdrop⟩ : (Layout.pad2 e.natAbs ++ []).takeWhile isAsciiDigit = _ ∧ _ :=
    takeWhile_run hdigits (by simp)
  rw [List.append_nil] at htake hdrop
  have hsign : takeSign ((if e < 0 then '-' else '+') :: Layout.pad2 e.natAbs) =
      (decide (e < 0), Layout.pad2 e.natAbs) := by
    by_cases h : e < 0
    · rw [if_pos h, decide_eq_true h]
      rfl
    · rw [if_neg h, decide_eq_false h]
      rfl
  unfold takeExponent exponentChars
  simp only [beq_self_eq_true, Bool.true_or, if_true, hsign, htake, hdrop, digitsValue_pad2]
  rw [if_neg (by rw [List.isEmpty_iff]; exact pad2_ne_nil _)]
  by_cases h : e < 0
  · rw [if_pos (decide_eq_true h)]
    congr 2
    omega
  · rw [decide_eq_false h, if_neg Bool.false_ne_true]
    congr 2
    omega

section Reading

variable {negative : Bool} {whole fraction rest : List Char}

/-- A numeral without a point. -/
theorem take_whole (hne : whole ≠ []) (hwhole : ∀ c ∈ whole, isAsciiDigit c = true)
    (hrest : ∀ c ∈ rest.head?, isAsciiDigit c = false ∧ c ≠ '.') :
    take (signChars negative ++ (whole ++ rest)) = match takeExponent rest with
      | some (e, rest) => some (⟨negative, whole, [], e, false⟩, rest)
      | none => some (⟨negative, whole, [], 0, true⟩, rest) := by
  have hhead : ∀ c ∈ (whole ++ rest).head?, isAsciiDigit c = true := by
    rw [List.head?_append_of_ne_nil _ hne]
    exact fun c hc => hwhole c (List.mem_of_mem_head? hc)
  obtain ⟨htake, hdrop⟩ := takeWhile_run hwhole fun c hc => (hrest c hc).1
  have hempty : whole.isEmpty = false := by rwa [Bool.eq_false_iff, Ne, List.isEmpty_iff]
  unfold take
  simp only [takeSign_append hhead, htake, hdrop]
  split
  · exact absurd rfl (hrest '.' rfl).2
  · cases takeExponent rest <;>
      simp only [hempty, Bool.false_and, Bool.false_eq_true, if_false, Bool.not_false]

/-- A numeral with a point. -/
theorem take_point (hne : whole ≠ []) (hwhole : ∀ c ∈ whole, isAsciiDigit c = true)
    (hfraction : ∀ c ∈ fraction, isAsciiDigit c = true)
    (hrest : ∀ c ∈ rest.head?, isAsciiDigit c = false) :
    take (signChars negative ++ (whole ++ '.' :: (fraction ++ rest))) =
      match takeExponent rest with
      | some (e, rest) => some (⟨negative, whole, fraction, e, false⟩, rest)
      | none => some (⟨negative, whole, fraction, 0, false⟩, rest) := by
  have hhead : ∀ c ∈ (whole ++ '.' :: (fraction ++ rest)).head?, isAsciiDigit c = true := by
    rw [List.head?_append_of_ne_nil _ hne]
    exact fun c hc => hwhole c (List.mem_of_mem_head? hc)
  have hpoint : ∀ c ∈ ('.' :: (fraction ++ rest)).head?, isAsciiDigit c = false := by
    intro c hc
    cases hc
    decide
  obtain ⟨htake, hdrop⟩ := takeWhile_run hwhole hpoint
  obtain ⟨hfrac, hafter⟩ := takeWhile_run hfraction hrest
  have hempty : whole.isEmpty = false := by rwa [Bool.eq_false_iff, Ne, List.isEmpty_iff]
  unfold take
  simp only [takeSign_append hhead, htake, hdrop, hfrac, hafter]
  cases takeExponent rest <;>
    simp only [hempty, Bool.false_and, Bool.false_eq_true, if_false, Bool.not_true]

/-- A numeral that is a whole number. -/
theorem ofChars?_whole (hne : whole ≠ []) (hwhole : ∀ c ∈ whole, isAsciiDigit c = true) :
    ofChars? (signChars negative ++ whole) = some ⟨negative, whole, [], 0, true⟩ := by
  have htake : take (signChars negative ++ (whole ++ [])) = _ := take_whole hne hwhole (by simp)
  rw [List.append_nil] at htake
  rw [ofChars?, htake]
  rfl

/-- A numeral with a point and without an exponent. -/
theorem ofChars?_point (hne : whole ≠ []) (hwhole : ∀ c ∈ whole, isAsciiDigit c = true)
    (hfraction : ∀ c ∈ fraction, isAsciiDigit c = true) :
    ofChars? (signChars negative ++ (whole ++ '.' :: fraction)) =
      some ⟨negative, whole, fraction, 0, false⟩ := by
  have htake : take (signChars negative ++ (whole ++ '.' :: (fraction ++ []))) = _ :=
    take_point hne hwhole hfraction (by simp)
  rw [List.append_nil] at htake
  rw [ofChars?, htake]
  rfl

/-- A numeral with an exponent, and a point only before further digits. -/
theorem ofChars?_exponent (hne : whole ≠ []) (hwhole : ∀ c ∈ whole, isAsciiDigit c = true)
    (hfraction : ∀ c ∈ fraction, isAsciiDigit c = true) (e : Int) :
    ofChars? (signChars negative ++
        (whole ++ ((if fraction.isEmpty then [] else '.' :: fraction) ++ exponentChars e))) =
      some ⟨negative, whole, fraction, e, false⟩ := by
  have hfirst : ∀ c ∈ (exponentChars e).head?, isAsciiDigit c = false ∧ c ≠ '.' := by
    intro c hc
    cases hc
    decide
  split
  · next hempty =>
    obtain rfl := List.isEmpty_iff.mp hempty
    rw [List.nil_append, ofChars?, take_whole hne hwhole hfirst, takeExponent_exponentChars]
  · rw [List.cons_append, ofChars?, take_point hne hwhole hfraction fun c hc => (hfirst c hc).1,
      takeExponent_exponentChars]

end Reading

end Numeral

/-! ## Layouts -/

namespace Numeral

/-- The number that a numeral stands for, its sign aside. -/
def magnitude (n : Numeral) : ℚ :=
  digitsValue (n.whole ++ n.fraction) * 10 ^ (n.exponent - n.fraction.length)

end Numeral

section Layout

variable (d : Digits) (negative plain : Bool)

theorem Digits.isAsciiDigit_of_mem_text {c : Char} (h : c ∈ d.text) : isAsciiDigit c = true :=
  isAsciiDigit_of_mem_toDigits h

theorem Digits.digitsValue_text : digitsValue d.text = d.digits := digitsValue_toDigits _

theorem Digits.text_ne_nil : d.text ≠ [] := Nat.toDigits_ne_nil

/-- All digits behind the point. -/
theorem magnitude_behind {k : Nat} (h : (k + d.text.length : Int) = -d.exponent) :
    (⟨negative, ['0'], List.replicate k '0' ++ d.text, 0, plain⟩ : Numeral).magnitude =
      d.value := by
  unfold Numeral.magnitude Digits.value
  dsimp only
  rw [← List.append_assoc, show ['0'] = List.replicate 1 '0' from rfl,
    List.replicate_append_replicate, digitsValue_zeros_append, d.digitsValue_text,
    List.length_append, List.length_replicate]
  congr 2
  push_cast
  omega

/-- All digits before the point, with zeros up to it. -/
theorem magnitude_before {k : Nat} (h : d.exponent = k) :
    (⟨negative, d.text ++ List.replicate k '0', ['0'], 0, plain⟩ : Numeral).magnitude =
      d.value := by
  have hten : (10 : ℚ) ≠ 0 := by norm_num
  unfold Numeral.magnitude Digits.value
  dsimp only
  rw [List.append_assoc, show ['0'] = List.replicate 1 '0' from rfl,
    List.replicate_append_replicate, digitsValue_append_zeros, d.digitsValue_text]
  push_cast
  rw [mul_assoc, ← zpow_natCast, ← zpow_add₀ hten, h, List.length_singleton]
  congr 2
  push_cast
  omega

/-- The point among the digits. -/
theorem magnitude_among {i : Nat} {e : Int} (hi : i ≤ d.text.length)
    (h : e + i - d.text.length = d.exponent) :
    (⟨negative, d.text.take i, d.text.drop i, e, plain⟩ : Numeral).magnitude = d.value := by
  unfold Numeral.magnitude Digits.value
  dsimp only
  rw [List.take_append_drop, d.digitsValue_text, List.length_drop]
  congr 2
  omega

variable {leading : Int}

theorem layOut_behind (h : plainLayout.least ≤ leading ∧ leading < plainLayout.bound)
    (hneg : leading < 0) :
    plainLayout.layOut d.text leading =
      ['0'] ++ '.' :: (List.replicate (-leading - 1).toNat '0' ++ d.text) := by
  unfold Layout.layOut
  rw [if_pos h, if_pos hneg]
  rfl

theorem layOut_before (h : plainLayout.least ≤ leading ∧ leading < plainLayout.bound)
    (hneg : ¬ leading < 0) (hlen : d.text.length ≤ leading.toNat + 1) :
    plainLayout.layOut d.text leading =
      (d.text ++ List.replicate (leading.toNat + 1 - d.text.length) '0') ++ '.' :: ['0'] := by
  unfold Layout.layOut
  rw [if_pos h, if_neg hneg]
  exact if_pos hlen

theorem layOut_among (h : plainLayout.least ≤ leading ∧ leading < plainLayout.bound)
    (hneg : ¬ leading < 0) (hlen : ¬ d.text.length ≤ leading.toNat + 1) :
    plainLayout.layOut d.text leading =
      d.text.take (leading.toNat + 1) ++ '.' :: d.text.drop (leading.toNat + 1) := by
  unfold Layout.layOut
  rw [if_pos h, if_neg hneg]
  exact if_neg hlen

/-- The digits before an exponent have a point behind the first one. -/
theorem layOut_exponent (h : ¬ (plainLayout.least ≤ leading ∧ leading < plainLayout.bound)) :
    plainLayout.layOut d.text leading =
      d.text.take 1 ++ ((if (d.text.drop 1).isEmpty then [] else '.' :: d.text.drop 1) ++
        exponentChars leading) := by
  have hne := d.text_ne_nil
  unfold Layout.layOut
  rw [if_neg h]
  match hds : d.text with
  | [] => exact absurd hds hne
  | [c] => rfl
  | c :: c' :: cs => rfl

/-- A decimal that is laid out with a point has digits on both sides of it. -/
theorem exists_point_layOut (h : plainLayout.least ≤ leading ∧ leading < plainLayout.bound)
    (hleading : leading = d.exponent + d.text.length - 1) :
    ∃ whole fraction, plainLayout.layOut d.text leading = whole ++ '.' :: fraction ∧
      whole ≠ [] ∧ fraction ≠ [] ∧ (∀ c ∈ whole, isAsciiDigit c = true) ∧
      (∀ c ∈ fraction, isAsciiDigit c = true) ∧
      (⟨negative, whole, fraction, 0, plain⟩ : Numeral).magnitude = d.value := by
  have hdigits : ∀ c ∈ d.text, isAsciiDigit c = true := fun c hc => d.isAsciiDigit_of_mem_text hc
  have hwith : ∀ k : Nat, ∀ c, c ∈ d.text ∨ c ∈ List.replicate k '0' → isAsciiDigit c = true := by
    rintro k c (hc | hc)
    · exact hdigits c hc
    · exact isAsciiDigit_of_mem_zeros hc
  by_cases hneg : leading < 0
  · refine ⟨_, _, layOut_behind d h hneg, List.cons_ne_nil '0' [], by simp [d.text_ne_nil],
      by decide, fun c hc => hwith _ c (List.mem_append.mp hc).symm,
      magnitude_behind d negative plain ?_⟩
    omega
  · by_cases hshort : d.text.length ≤ leading.toNat + 1
    · refine ⟨_, _, layOut_before d h hneg hshort, by simp [d.text_ne_nil], List.cons_ne_nil '0' [],
        fun c hc => hwith _ c (List.mem_append.mp hc), by decide,
        magnitude_before d negative plain ?_⟩
      omega
    · refine ⟨_, _, layOut_among d h hneg hshort, by simp [d.text_ne_nil],
        fun hnil => hshort (List.drop_eq_nil_iff.mp hnil),
        fun c hc => hdigits c (List.mem_of_mem_take hc),
        fun c hc => hdigits c (List.mem_of_mem_drop hc), magnitude_among d negative plain ?_ ?_⟩ <;>
        omega

/-- A laid out decimal reads as a numeral of its value, and not as a whole number. -/
theorem exists_numeral_layOut (hleading : leading = d.exponent + d.text.length - 1) :
    ∃ n, Numeral.ofChars? (signChars negative ++ plainLayout.layOut d.text leading) = some n ∧
      n.negative = negative ∧ n.plain = false ∧ n.magnitude = d.value := by
  have hdigits : ∀ c ∈ d.text, isAsciiDigit c = true := fun c hc => d.isAsciiDigit_of_mem_text hc
  have hlen : 0 < d.text.length := List.length_pos_of_ne_nil d.text_ne_nil
  by_cases hrange : plainLayout.least ≤ leading ∧ leading < plainLayout.bound
  · obtain ⟨whole, fraction, hchars, hne, -, hwhole, hfraction, hvalue⟩ :=
      exists_point_layOut d negative false hrange hleading
    rw [hchars]
    exact ⟨_, Numeral.ofChars?_point hne hwhole hfraction, rfl, rfl, hvalue⟩
  · rw [layOut_exponent d hrange]
    refine ⟨_, Numeral.ofChars?_exponent (by simp [d.text_ne_nil])
      (fun c hc => hdigits c (List.mem_of_mem_take hc))
      (fun c hc => hdigits c (List.mem_of_mem_drop hc)) _, rfl, rfl,
      magnitude_among d negative false hlen ?_⟩
    omega

end Layout

/-! ## Texts of doubles -/

namespace Binary64

/-- A double that there is: the units of a finite one are those of a double. -/
def IsProper (x : Binary64) : Prop :=
  ∀ negative units, x = finite negative units → IsDouble units ∧ units < limit

/-- The text of a double denotes it, and is not that of a whole number. -/
theorem exists_numeral_text {negative : Bool} {units : Nat}
    (h : (finite negative units).IsProper) :
    ∃ n, Numeral.ofChars? (finite negative units).textChars = some n ∧ n.plain = false ∧
      n.toBinary64 = finite negative units := by
  obtain ⟨hdouble, hlimit⟩ := h negative units rfl
  rcases Nat.eq_zero_or_pos units with hzero | hpos
  · subst hzero
    refine ⟨⟨negative, ['0'], ['0'], 0, false⟩, ?_, rfl, rfl⟩
    exact Numeral.ofChars?_point (List.cons_ne_nil '0' []) (by decide) (by decide)
  · obtain ⟨n, hn, hsign, hplain, hvalue⟩ :=
      exists_numeral_layOut (shortest units) negative rfl
    refine ⟨n, ?_, hplain, ?_⟩
    · rw [textChars, if_neg hpos.ne']
      exact hn
    · rw [Numeral.toBinary64, hsign]
      refine ofDecimal_of_contains negative hpos hdouble hlimit ?_
      have hcontains := contains_shortest hpos
      rw [← hvalue] at hcontains
      exact hcontains

theorem isProper_zero (negative : Bool) : (finite negative 0).IsProper := by
  intro s u h
  cases h
  exact ⟨Nat.dvd_zero _, twoTo_pos _⟩

theorem isProper_infinite (negative : Bool) : (infinite negative).IsProper :=
  fun _ _ h => nomatch h

/-- The nearest double to a quotient is one. -/
theorem isProper_ofUnits (negative : Bool) (num den : Nat) :
    (ofUnits negative num den).IsProper := by
  have hcases : ofUnits negative num den =
      if roundUnits num den < limit then finite negative (roundUnits num den)
      else infinite negative := rfl
  rw [hcases]
  by_cases h : roundUnits num den < limit
  · rw [if_pos h]
    intro s u hu
    cases hu
    exact ⟨isDouble_roundUnits num den, h⟩
  · rw [if_neg h]
    exact isProper_infinite negative

theorem isProper_ofDecimal (negative : Bool) (digits : Nat) (exponent : Int) :
    (ofDecimal negative digits exponent).IsProper := by
  unfold ofDecimal
  dsimp only
  split
  · exact isProper_zero negative
  · split
    · exact isProper_infinite negative
    · split
      · exact isProper_zero negative
      · split <;> exact isProper_ofUnits negative _ _

theorem isProper_neg {x : Binary64} (h : x.IsProper) : x.neg.IsProper := by
  intro s u hu
  rw [← neg_neg x, hu] at h
  exact h (!s) u rfl

end Binary64

/-! ## Whole numbers -/

theorem toList_toString (n : Int) :
    (toString n).toList = signChars (n < 0) ++ Nat.toDigits 10 n.natAbs := by
  have hrepr : ∀ m : Nat, m.repr.toList = Nat.toDigits 10 m := fun m => by
    rw [Nat.repr, String.toList_ofList]
  cases n with
  | ofNat m => exact hrepr m
  | negSucc m =>
    change ("-" ++ (m + 1).repr).toList = _
    rw [String.toList_append, hrepr, decide_eq_true (Int.negSucc_lt_zero m)]
    simp [signChars]

/-- The numeral of a whole number. -/
theorem ofChars?_toString (n : Int) : Numeral.ofChars? (toString n).toList =
    some ⟨n < 0, Nat.toDigits 10 n.natAbs, [], 0, true⟩ := by
  rw [toList_toString]
  exact Numeral.ofChars?_whole Nat.toDigits_ne_nil fun c hc => isAsciiDigit_of_mem_toDigits hc

theorem toString_inj {m n : Int} (h : toString m = toString n) : m = n := by
  have hnumeral := ofChars?_toString m
  rw [h, ofChars?_toString n] at hnumeral
  obtain ⟨hsign, hdigits⟩ := Numeral.mk.inj (Option.some.inj hnumeral)
  have habs : n.natAbs = m.natAbs := by
    rw [← digitsValue_toDigits n.natAbs, hdigits.1, digitsValue_toDigits]
  have hneg : n < 0 ↔ m < 0 := decide_eq_decide.mp hsign
  omega

theorem toString_ne_nil (n : Int) : (toString n).toList ≠ [] := by
  rw [toList_toString]
  exact fun h => Nat.toDigits_ne_nil (List.append_eq_nil_iff.mp h).2

/-! ## No capital letters -/

theorem isUpper_of_isDigit {c : Char} (h : isDigit c = true) : c.isUpper = false := by
  unfold Char.isUpper
  refine decide_eq_false fun hupper => ?_
  have hlow : 65 ≤ c.toNat := hupper.1
  have hhigh : c.toNat ≤ 90 := hupper.2
  unfold isDigit digitValue? at h
  rw [if_pos (by omega), if_neg (by omega)] at h
  cases h

theorem isUpper_of_digit {c : Char} (h : isAsciiDigit c = true) : c.isUpper = false :=
  isUpper_of_isDigit (isDigit_of_ascii h)

theorem isUpper_append {cs ds : List Char} (hcs : ∀ c ∈ cs, c.isUpper = false)
    (hds : ∀ c ∈ ds, c.isUpper = false) : ∀ c ∈ cs ++ ds, c.isUpper = false := fun c hc =>
  (List.mem_append.mp hc).elim (hcs c) (hds c)

theorem isUpper_cons {x : Char} {cs : List Char} (hx : x.isUpper = false)
    (hcs : ∀ c ∈ cs, c.isUpper = false) : ∀ c ∈ x :: cs, c.isUpper = false := fun c hc =>
  (List.mem_cons.mp hc).elim (fun heq => heq ▸ hx) (hcs c)

theorem isUpper_signChars (negative : Bool) : ∀ c ∈ signChars negative, c.isUpper = false := by
  cases negative <;> decide

theorem isUpper_toString (n : Int) : ∀ c ∈ (toString n).toList, c.isUpper = false := by
  rw [toList_toString]
  exact isUpper_append (isUpper_signChars _) fun c hc =>
    isUpper_of_digit (isAsciiDigit_of_mem_toDigits hc)

theorem isUpper_exponentChars (e : Int) : ∀ c ∈ exponentChars e, c.isUpper = false := by
  refine isUpper_cons (by decide) (isUpper_cons ?_ fun c hc =>
    isUpper_of_digit (isAsciiDigit_of_mem_pad2 hc))
  split <;> decide

/-- A laid out decimal has no capital letter. -/
theorem isUpper_layOut (d : Digits) (leading : Int) :
    ∀ c ∈ plainLayout.layOut d.text leading, c.isUpper = false := by
  have hpoint : Char.isUpper '.' = false := by decide
  have hdigits : ∀ c ∈ d.text, c.isUpper = false := fun c hc =>
    isUpper_of_digit (d.isAsciiDigit_of_mem_text hc)
  have hzeros : ∀ k : Nat, ∀ c ∈ List.replicate k '0', c.isUpper = false := fun k c hc =>
    isUpper_of_digit (isAsciiDigit_of_mem_zeros hc)
  have htake : ∀ i, ∀ c ∈ d.text.take i, c.isUpper = false := fun i c hc =>
    hdigits c (List.mem_of_mem_take hc)
  have hdrop : ∀ i, ∀ c ∈ d.text.drop i, c.isUpper = false := fun i c hc =>
    hdigits c (List.mem_of_mem_drop hc)
  by_cases hrange : plainLayout.least ≤ leading ∧ leading < plainLayout.bound
  · by_cases hneg : leading < 0
    · rw [layOut_behind d hrange hneg]
      exact isUpper_append (hzeros 1) (isUpper_cons hpoint (isUpper_append (hzeros _) hdigits))
    · by_cases hshort : d.text.length ≤ leading.toNat + 1
      · rw [layOut_before d hrange hneg hshort]
        exact isUpper_append (isUpper_append hdigits (hzeros _)) (isUpper_cons hpoint (hzeros 1))
      · rw [layOut_among d hrange hneg hshort]
        exact isUpper_append (htake _) (isUpper_cons hpoint (hdrop _))
  · rw [layOut_exponent d hrange]
    refine isUpper_append (htake 1) (isUpper_append ?_ (isUpper_exponentChars leading))
    split
    · exact fun c hc => nomatch hc
    · exact isUpper_cons hpoint (hdrop 1)

theorem isUpper_textChars (negative : Bool) (units : Nat) :
    ∀ c ∈ (Binary64.finite negative units).textChars, c.isUpper = false := by
  rw [Binary64.textChars]
  dsimp only
  by_cases h : units = 0
  · rw [if_pos h]
    exact isUpper_append (isUpper_signChars negative) (by decide)
  · rw [if_neg h]
    exact isUpper_append (isUpper_signChars negative) (isUpper_layOut (shortest units) _)

end Chronicle.Decimal
