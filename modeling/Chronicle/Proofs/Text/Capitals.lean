import Mathlib.Data.List.Basic
import Chronicle.Text.Blank
import Chronicle.Text.Case
import Chronicle.Text.Digit

/-!
# Trimmed texts in capital letters

Capital letters come from letters alone: a sign, a digit or a blank in the upper case of a character
is that character.  So it makes no difference whether the signs in front of a text are dropped
before or after it is put into capitals, and a trimmed text does not end with a blank in either.

* `eq_of_mem_upperChar`: signs, digits and the like come from themselves;
* `upper_dropWhile`: characters in front are dropped before or after;
* `getLast?_upper_trimBlanks`: the end of a trimmed text;
* `upper_trimBlanks_eq_self`: texts of signs, digits and capital letters stay as they are.
-/

namespace Chronicle.Text

/-! ## Upper case, character by character -/

/-- The images with several letters are letters. -/
theorem upperExpansions_spec : ∀ p ∈ upperExpansions,
    p.2 ≠ [] ∧ ∀ code ∈ p.2, 65 ≤ code ∧ code < 0xd800 := by
  decide +kernel

/-- The images of a run are letters, and the gap of the code points is not among them. -/
theorem upperRuns_spec : ∀ r ∈ upperRuns, 65 ≤ r.image ∧
    (r.image + (r.last - r.first) < 0xd800 ∨
      0xdfff < r.image ∧ r.image + (r.last - r.first) < 0x110000) := by
  decide +kernel

theorem le_toNat_ofNat {code : Nat} (h : code.isValidChar) (hle : 65 ≤ code) :
    65 ≤ (Char.ofNat code).toNat := by
  unfold Char.ofNat
  rw [dif_pos h]
  exact hle

theorem CaseRun.le_toNat_of_mapped {r : CaseRun} (hr : r ∈ upperRuns) {n code : Nat}
    (h : r.mapped? n = some code) : 65 ≤ (Char.ofNat code).toNat := by
  obtain ⟨himage, hroom⟩ := upperRuns_spec r hr
  unfold CaseRun.mapped? at h
  split at h
  · cases h
    exact le_toNat_ofNat (by unfold Nat.isValidChar; omega) (by omega)
  · cases h

theorem toUpper_eq_or_le (c : Char) : c.toUpper = c ∨ 65 ≤ c.toUpper.toNat := by
  unfold Char.toUpper
  split
  · next h =>
    right
    have hlow : 97 ≤ c.val.toNat := h.1
    have hhigh : c.val.toNat ≤ 122 := h.2
    have hshift : ('A'.val - 'a'.val).toNat = 4294967264 := by decide
    change 65 ≤ (c.val + ('A'.val - 'a'.val)).toNat
    rw [UInt32.toNat_add]
    omega
  · exact Or.inl rfl

/-- The upper case of a character is the character, or letters. -/
theorem upperChar_cases (c : Char) :
    upperChar c = [c] ∨ upperChar c ≠ [] ∧ ∀ x ∈ upperChar c, 65 ≤ x.toNat := by
  unfold upperChar
  split
  · rcases toUpper_eq_or_le c with heq | hle
    · rw [heq]
      exact Or.inl rfl
    · exact Or.inr ⟨List.cons_ne_nil _ _, by simpa using hle⟩
  · split
    · next codes hcodes =>
      obtain ⟨ps, qs, hps, -⟩ := List.lookup_eq_some_iff.mp hcodes
      obtain ⟨hne, hletters⟩ := upperExpansions_spec (c.toNat, codes) (by simp [hps])
      refine Or.inr ⟨by simpa using hne, fun x hx => ?_⟩
      obtain ⟨code, hcode, rfl⟩ := List.mem_map.mp hx
      obtain ⟨hle, hlt⟩ := hletters code hcode
      exact le_toNat_ofNat (Or.inl hlt) hle
    · cases hrun : upperRuns.findSome? (·.mapped? c.toNat) with
      | none => exact Or.inl rfl
      | some code =>
        obtain ⟨r, hr, hmapped⟩ := List.exists_of_findSome?_eq_some hrun
        exact Or.inr ⟨List.cons_ne_nil _ _, by simpa using r.le_toNat_of_mapped hr hmapped⟩

theorem upperChar_ne_nil (c : Char) : upperChar c ≠ [] := by
  rcases upperChar_cases c with h | h
  · simp [h]
  · exact h.1

/-- A character that is no letter comes from itself alone. -/
theorem eq_of_mem_upperChar {c x : Char} (h : x ∈ upperChar c) (hx : x.toNat < 65) : x = c := by
  rcases upperChar_cases c with hself | ⟨-, hle⟩
  · simpa [hself] using h
  · exact absurd (hle x h) (by omega)

/-! ## Texts -/

theorem upper_eq_self {cs : List Char} (h : ∀ c ∈ cs, upperChar c = [c]) : upper cs = cs := by
  induction cs with
  | nil => rfl
  | cons c cs ih =>
    have hrest := ih fun d hd => h d (by simp [hd])
    simp only [upper] at hrest ⊢
    rw [List.flatMap_cons, hrest, h c (by simp)]
    rfl

/-- It makes no difference whether characters in front are dropped before or after a text is put
into capitals, if they are no letters and their own upper case. -/
theorem upper_dropWhile {p : Char → Bool} (hp : ∀ c, p c = true → upperChar c = [c] ∧ c.toNat < 65)
    (cs : List Char) : upper (cs.dropWhile p) = (upper cs).dropWhile p := by
  induction cs with
  | nil => rfl
  | cons c cs ih =>
    have hsplit : upper (c :: cs) = upperChar c ++ upper cs := List.flatMap_cons
    cases hc : p c with
    | true =>
      rw [List.dropWhile_cons_of_pos hc, ih, hsplit, (hp c hc).1, List.singleton_append,
        List.dropWhile_cons_of_pos hc]
    | false =>
      obtain ⟨x, xs, hx⟩ := List.exists_cons_of_ne_nil (upperChar_ne_nil c)
      have hstays : p x = false := by
        by_contra hdrop
        obtain rfl := eq_of_mem_upperChar (hx ▸ List.mem_cons_self) (hp x (by simpa using hdrop)).2
        simp [hc] at hdrop
      rw [List.dropWhile_cons_of_neg (by simp [hc]), hsplit, hx, List.cons_append,
        List.dropWhile_cons_of_neg (by simp [hstays])]

/-! ## Trimmed texts -/

/-- A text without blanks at its ends stays as it is. -/
theorem trimBlanks_eq_self {cs : List Char} (hfirst : ∀ c ∈ cs.head?, isBlank c = false)
    (hlast : ∀ c ∈ cs.getLast?, isBlank c = false) : trimBlanks cs = cs := by
  have hkeep : ∀ {ds : List Char}, (∀ c ∈ ds.head?, isBlank c = false) →
      ds.dropWhile isBlank = ds := by
    intro ds hds
    cases ds with
    | nil => rfl
    | cons d ds => rw [List.dropWhile_cons_of_neg (by simp [hds d rfl])]
  have hreverse : ∀ c ∈ cs.reverse.head?, isBlank c = false := by
    rwa [List.head?_reverse]
  rw [trimBlanks, hkeep hfirst, hkeep hreverse, List.reverse_reverse]

theorem isBlank_of_getLast?_trimBlanks {cs : List Char} {c : Char}
    (h : (trimBlanks cs).getLast? = some c) : isBlank c = false := by
  rw [trimBlanks, List.getLast?_reverse] at h
  simpa [h] using List.head?_dropWhile_not isBlank (cs.dropWhile isBlank).reverse

/-- The end of a trimmed text in capitals is no blank. -/
theorem getLast?_upper_trimBlanks {cs : List Char} {c : Char} (hc : c.toNat < 65)
    (h : (upper (trimBlanks cs)).getLast? = some c) : isBlank c = false := by
  rcases List.eq_nil_or_concat (trimBlanks cs) with hnil | ⟨ds, d, hds⟩
  · simp [hnil, upper] at h
  · have hlast : (upper (trimBlanks cs)).getLast? = (upperChar d).getLast? := by
      rw [hds, List.concat_eq_append, upper_append,
        List.getLast?_append_of_ne_nil _ (by simp [upper, upperChar_ne_nil])]
      simp [upper]
    rw [hlast] at h
    obtain rfl := eq_of_mem_upperChar (List.mem_of_getLast? h) hc
    have hend : (trimBlanks cs).getLast? = some c := by simp [hds]
    exact isBlank_of_getLast?_trimBlanks hend

/-! ## Texts that stay as they are -/

/-- A character that is its own upper case and no blank. -/
def IsPlain (c : Char) : Prop := upperChar c = [c] ∧ isBlank c = false

theorem isPlain_of_lt {c : Char} (h : 32 < c.toNat) (h' : c.toNat < 97) : IsPlain c := by
  constructor
  · have hself : c.toUpper = c := by
      unfold Char.toUpper
      refine dif_neg fun hlower => ?_
      have hle : 97 ≤ c.toNat := hlower.1
      omega
    rw [upperChar, if_pos (by omega), hself]
  · have hranges : ∀ r ∈ blankRanges, r.2 ≤ 32 ∨ 97 ≤ r.1 := by decide
    rw [isBlank, List.any_eq_false]
    intro r hr
    have hrange := hranges r hr
    rw [CodeRange.holds_iff]
    omega

/-- The digits of all scripts lie outside of the ranges of letters and of blanks. -/
theorem digitZeros_spec : ∀ z ∈ digitZeros, (∀ p ∈ upperExpansions, p.1 < z ∨ z + 10 ≤ p.1) ∧
    (∀ r ∈ upperRuns, r.last < z ∨ z + 10 ≤ r.first) ∧
      ∀ r ∈ blankRanges, r.2 < z ∨ z + 10 ≤ r.1 := by
  decide +kernel

theorem isPlain_of_isDigit {c : Char} (h : isDigit c = true) : IsPlain c := by
  unfold isDigit digitValue? at h
  split at h
  · split at h
    · exact isPlain_of_lt (by omega) (by omega)
    · cases h
  · next hlarge =>
    rw [Option.isSome_map] at h
    obtain ⟨z, hz⟩ := Option.isSome_iff_exists.mp h
    have hrange := List.find?_some hz
    simp only [Bool.and_eq_true, decide_eq_true_eq] at hrange
    obtain ⟨hexpansions, hruns, hblanks⟩ := digitZeros_spec z (List.mem_of_find?_eq_some hz)
    have hexpansion : upperExpansions.lookup c.toNat = none := by
      refine List.lookup_eq_none_iff.mpr fun p hp => ?_
      have hout := hexpansions p hp
      rw [bne_iff_ne]
      omega
    have hrun : upperRuns.findSome? (·.mapped? c.toNat) = none := by
      refine List.findSome?_eq_none_iff.mpr fun r hr => if_neg ?_
      have hout := hruns r hr
      omega
    constructor
    · rw [upperChar, if_neg hlarge, hexpansion, hrun]
      rfl
    · rw [isBlank, List.any_eq_false]
      intro r hr
      have hout := hblanks r hr
      rw [CodeRange.holds_iff]
      omega

theorem trimBlanks_of_isPlain {cs : List Char} (h : ∀ c ∈ cs, IsPlain c) : trimBlanks cs = cs :=
  trimBlanks_eq_self (fun c hc => (h c (List.mem_of_mem_head? hc)).2)
    (fun c hc => (h c (List.mem_of_getLast? hc)).2)

theorem upper_trimBlanks_eq_self {cs : List Char} (h : ∀ c ∈ cs, IsPlain c) :
    upper (trimBlanks cs) = cs := by
  rw [trimBlanks_of_isPlain h, upper_eq_self fun c hc => (h c hc).1]

end Chronicle.Text
