import Chronicle.Proofs.Decimal.Written

/-!
# Numerals at the beginning of a text

What is read as a numeral at the beginning of a text is read there whatever the text goes on with,
as long as the next character stays.

* `Reads`: a reader takes a beginning of a text, if the right character follows;
* `Numeral.reads_take`: numerals are read like that.
-/

namespace Chronicle.Decimal

open Chronicle.Text

/-- What is taken from the beginning of a text where a given character follows. -/
def Reads {α : Type} (read : List Char → Option (α × List Char)) (used : List Char) (a : α)
    (next : Option Char) : Prop :=
  ∀ rest : List Char, rest.head? = next → read (used ++ rest) = some (a, rest)

/-- The characters that numerals are made of. -/
def IsNumeral (c : Char) : Prop := isAsciiDigit c = true ∨ c ∈ ['.', 'e', 'E', '+', '-']

/-! ## Digits -/

theorem head?_dropWhile_digits (cs : List Char) :
    ∀ c ∈ (cs.dropWhile isAsciiDigit).head?, isAsciiDigit c = false := by
  induction cs with
  | nil => exact fun c hc => nomatch hc
  | cons d ds ih =>
    rw [List.dropWhile_cons]
    split
    · exact ih
    · next hd =>
      intro c hc
      cases hc
      exact Bool.eq_false_iff.mpr hd

theorem isAsciiDigit_of_mem_takeWhile {cs : List Char} :
    ∀ c ∈ cs.takeWhile isAsciiDigit, isAsciiDigit c = true :=
  List.all_eq_true.mp List.all_takeWhile

/-- A run of digits ends where it ended before. -/
theorem takeWhile_of_head? {cs rest : List Char}
    (h : rest.head? = (cs.dropWhile isAsciiDigit).head?) :
    (cs.takeWhile isAsciiDigit ++ rest).takeWhile isAsciiDigit = cs.takeWhile isAsciiDigit ∧
      (cs.takeWhile isAsciiDigit ++ rest).dropWhile isAsciiDigit = rest :=
  takeWhile_run isAsciiDigit_of_mem_takeWhile (h ▸ head?_dropWhile_digits cs)

/-- A sign is read where the same character follows. -/
theorem exists_takeSign (cs : List Char) : ∃ sign, cs = sign ++ (takeSign cs).2 ∧
    (∀ c ∈ sign, IsNumeral c) ∧ ∀ ds : List Char, ds.head? = (takeSign cs).2.head? →
      takeSign (sign ++ ds) = ((takeSign cs).1, ds) := by
  unfold takeSign
  split
  · exact ⟨['-'], rfl, by simp [IsNumeral], fun _ _ => rfl⟩
  · exact ⟨['+'], rfl, by simp [IsNumeral], fun _ _ => rfl⟩
  · next hminus hplus =>
    refine ⟨[], rfl, (fun c hc => nomatch hc), fun ds hds => ?_⟩
    rw [List.nil_append]
    split
    · obtain ⟨es, hes⟩ := List.head?_eq_some_iff.mp hds.symm
      exact absurd hes (hminus es)
    · obtain ⟨es, hes⟩ := List.head?_eq_some_iff.mp hds.symm
      exact absurd hes (hplus es)
    · rfl

theorem head?_append_of_ne_nil {us : List Char} (h : us ≠ []) (ds es : List Char) :
    (us ++ ds).head? = (us ++ es).head? := by
  rw [List.head?_append_of_ne_nil _ h, List.head?_append_of_ne_nil _ h]

namespace Numeral

/-! ## Exponents -/

/-- An exponent is read where the character behind its digits stays. -/
theorem reads_takeExponent {cs more : List Char} {e : Int} (h : takeExponent cs = some (e, more)) :
    ∃ used, cs = used ++ more ∧ (∀ c ∈ used, IsNumeral c) ∧
      Reads takeExponent used e more.head? := by
  match cs with
  | [] => cases h
  | c :: cs =>
    unfold takeExponent at h
    dsimp only at h
    split at h
    · next hc =>
      split at h
      · cases h
      · next hempty =>
        obtain ⟨sign, hsign, hsigns, htake⟩ := exists_takeSign cs
        have hne : (takeSign cs).2.takeWhile isAsciiDigit ≠ [] := fun e =>
          hempty (List.isEmpty_iff.mpr e)
        cases h
        refine ⟨c :: (sign ++ (takeSign cs).2.takeWhile isAsciiDigit), ?_, ?_, fun rest hrest => ?_⟩
        · rw [List.cons_append, List.append_assoc, List.takeWhile_append_dropWhile, ← hsign]
        · rw [List.forall_mem_cons, List.forall_mem_append]
          refine ⟨.inr ?_, hsigns, fun d hd => .inl (isAsciiDigit_of_mem_takeWhile d hd)⟩
          rw [Bool.or_eq_true, beq_iff_eq, beq_iff_eq] at hc
          rcases hc with rfl | rfl <;> decide
        · obtain ⟨hdigits, hafter⟩ := takeWhile_of_head? hrest
          have hhead : ((takeSign cs).2.takeWhile isAsciiDigit ++ rest).head? =
              (takeSign cs).2.head? := by
            conv_rhs => rw [← List.takeWhile_append_dropWhile (p := isAsciiDigit)
              (l := (takeSign cs).2)]
            exact head?_append_of_ne_nil hne _ _
          rw [List.cons_append, List.append_assoc]
          unfold takeExponent
          dsimp only
          rw [if_pos hc, htake _ hhead]
          dsimp only
          rw [hdigits, hafter, if_neg hempty]
    · cases h

/-- Where neither letter of an exponent stands there is none. -/
theorem takeExponent_eq_none {cs : List Char} (h : ∀ c ∈ cs.head?, c ≠ 'e' ∧ c ≠ 'E') :
    takeExponent cs = none := by
  match cs with
  | [] => rfl
  | c :: cs =>
    obtain ⟨he, hE⟩ := h c rfl
    unfold takeExponent
    dsimp only
    rw [if_neg (by simp [he, hE])]

/-! ## Numerals -/

section Take

variable {cs us whole fraction rest more : List Char} {negative : Bool}

/-- A numeral by its parts before the exponent. -/
def finish (negative : Bool) (whole fraction : List Char) (point : Bool) (rest : List Char) :
    Option (Numeral × List Char) :=
  match takeExponent rest with
  | some (e, more) => some (⟨negative, whole, fraction, e, false⟩, more)
  | none => some (⟨negative, whole, fraction, 0, !point⟩, rest)

theorem take_of_point (hs : takeSign cs = (negative, us)) (hw : us.takeWhile isAsciiDigit = whole)
    (hd : us.dropWhile isAsciiDigit = '.' :: more) (hf : more.takeWhile isAsciiDigit = fraction)
    (hr : more.dropWhile isAsciiDigit = rest) : take cs =
      if whole.isEmpty && fraction.isEmpty then none
      else finish negative whole fraction true rest := by
  unfold take
  simp only [hs, hw, hd, hf, hr]
  rfl

theorem take_of_no_point (hs : takeSign cs = (negative, us))
    (hw : us.takeWhile isAsciiDigit = whole) (hd : us.dropWhile isAsciiDigit = rest)
    (hr : rest.head? ≠ some '.') : take cs =
      if whole.isEmpty then none else finish negative whole [] false rest := by
  unfold take
  simp only [hs, hw, hd]
  split
  · exact absurd rfl hr
  · simp only [List.isEmpty_nil, Bool.and_true]
    rfl

/-- The part of a numeral before the exponent is read where the same character follows. -/
theorem exists_mantissa (h : take cs ≠ none) : ∃ used rest negative whole fraction point,
    cs = used ++ rest ∧ (∀ c ∈ used, IsNumeral c) ∧
      ∀ rest' : List Char, rest'.head? = rest.head? →
        take (used ++ rest') = finish negative whole fraction point rest' := by
  obtain ⟨sign, hsign, hsigns, htake⟩ := exists_takeSign cs
  generalize hus : (takeSign cs).2 = us at hsign htake
  generalize hnegative : (takeSign cs).1 = negative at htake
  have hpair : takeSign cs = (negative, us) := by rw [← hus, ← hnegative]
  have hsplit := List.takeWhile_append_dropWhile (p := isAsciiDigit) (l := us)
  by_cases hpoint : (us.dropWhile isAsciiDigit).head? = some '.'
  · obtain ⟨more, hmore⟩ := List.head?_eq_some_iff.mp hpoint
    rw [take_of_point hpair rfl hmore rfl rfl] at h
    have hnonempty : ¬((us.takeWhile isAsciiDigit).isEmpty &&
        (more.takeWhile isAsciiDigit).isEmpty) = true := fun hempty => h (if_pos hempty)
    refine ⟨sign ++ (us.takeWhile isAsciiDigit ++ '.' :: more.takeWhile isAsciiDigit),
      more.dropWhile isAsciiDigit, negative, us.takeWhile isAsciiDigit,
      more.takeWhile isAsciiDigit, true, ?_, ?_, fun rest' hrest' => ?_⟩
    · rw [List.append_assoc, List.append_assoc, List.cons_append, List.takeWhile_append_dropWhile,
        ← hmore, hsplit, ← hsign]
    · simp only [List.forall_mem_append, List.forall_mem_cons]
      exact ⟨hsigns, fun d hd => .inl (isAsciiDigit_of_mem_takeWhile d hd), .inr (by decide),
        fun d hd => .inl (isAsciiDigit_of_mem_takeWhile d hd)⟩
    · have hbehind : ('.' :: (more.takeWhile isAsciiDigit ++ rest')).head? =
          (us.dropWhile isAsciiDigit).head? := hpoint.symm
      obtain ⟨hwhole, hafter⟩ := takeWhile_of_head? hbehind
      obtain ⟨hfraction, hrest⟩ := takeWhile_of_head? hrest'
      have hhead : (us.takeWhile isAsciiDigit ++
          '.' :: (more.takeWhile isAsciiDigit ++ rest')).head? = us.head? := by
        conv_rhs => rw [← hsplit, hmore]
        rw [List.head?_append, List.head?_append]
        rfl
      rw [List.append_assoc, List.append_assoc, List.cons_append,
        take_of_point (htake _ hhead) hwhole hafter hfraction hrest, if_neg hnonempty]
  · rw [take_of_no_point hpair rfl rfl hpoint] at h
    have hnonempty : ¬(us.takeWhile isAsciiDigit).isEmpty = true := fun hempty => h (if_pos hempty)
    refine ⟨sign ++ us.takeWhile isAsciiDigit, us.dropWhile isAsciiDigit, negative,
      us.takeWhile isAsciiDigit, [], false, ?_, ?_, fun rest' hrest' => ?_⟩
    · rw [List.append_assoc, hsplit, ← hsign]
    · rw [List.forall_mem_append]
      exact ⟨hsigns, fun d hd => .inl (isAsciiDigit_of_mem_takeWhile d hd)⟩
    · obtain ⟨hwhole, hafter⟩ := takeWhile_of_head? hrest'
      have hhead : (us.takeWhile isAsciiDigit ++ rest').head? = us.head? := by
        conv_rhs => rw [← hsplit]
        exact head?_append_of_ne_nil (fun e => hnonempty (List.isEmpty_iff.mpr e)) _ _
      rw [List.append_assoc, take_of_no_point (htake _ hhead) hwhole hafter (hrest' ▸ hpoint),
        if_neg hnonempty]

/-- A numeral is read where the same character follows, unless it is the letter of an exponent. -/
theorem reads_take {n : Numeral} (h : take cs = some (n, more))
    (hmore : ∀ c ∈ more.head?, c ≠ 'e' ∧ c ≠ 'E') :
    ∃ used, cs = used ++ more ∧ (∀ c ∈ used, IsNumeral c) ∧ Reads take used n more.head? := by
  obtain ⟨used, rest, negative, whole, fraction, point, rfl, hused, htake⟩ :=
    exists_mantissa (show take cs ≠ none by rw [h]; exact Option.some_ne_none _)
  rw [htake rest rfl] at h
  unfold finish at h
  cases he : takeExponent rest with
  | some found =>
    obtain ⟨e, after⟩ := found
    rw [he] at h
    cases h
    obtain ⟨used', rfl, hused', hreads⟩ := reads_takeExponent he
    refine ⟨used ++ used', by rw [List.append_assoc],
      List.forall_mem_append.mpr ⟨hused, hused'⟩, fun rest' hrest' => ?_⟩
    have hne : used' ≠ [] := by
      rintro rfl
      have hnone := takeExponent_eq_none hmore
      rw [List.nil_append] at he
      cases he.symm.trans hnone
    rw [List.append_assoc, htake _ (head?_append_of_ne_nil hne _ _), finish, hreads _ hrest']
  | none =>
    rw [he] at h
    cases h
    refine ⟨used, rfl, hused, fun rest' hrest' => ?_⟩
    rw [htake _ hrest', finish, takeExponent_eq_none (hrest' ▸ hmore)]

end Take

end Numeral

end Chronicle.Decimal
