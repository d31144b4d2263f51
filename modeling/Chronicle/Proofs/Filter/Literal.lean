import Mathlib
import Chronicle.Filter.Predicate
import Chronicle.Store.Pattern

/-!
# Patterns of literal texts

The pattern that is made of a text describes the texts that contain it, whatever the characters of
the text mean in patterns.

* `Condition.foldCase_literalPattern`: in small letters the same characters are escaped;
* `Pattern.describes_literalPattern_append`: the pattern of a text stands for this text;
* `Pattern.describes_between_iff`: a pattern of texts that contain a given one.
-/

namespace Chronicle

open Pattern

namespace Condition

/-! ## Small letters -/

theorem isPatternChar_iff {c : Char} : isPatternChar c = true ↔ c ∈ ['\\', '%', '_'] := by
  simp [isPatternChar, or_assoc]

/-- A character that means something in a pattern is no letter. -/
theorem isPatternChar_of_isAlpha {c : Char} (h : c.isAlpha = true) : isPatternChar c = false := by
  refine Bool.eq_false_iff.mpr fun hc => ?_
  have hnone : ∀ x ∈ ['\\', '%', '_'], x.isAlpha = false := by decide
  cases h.symm.trans (hnone c (isPatternChar_iff.mp hc))

theorem isPatternChar_toLower (c : Char) : isPatternChar c.toLower = isPatternChar c := by
  by_cases hc : c.isAlpha = true
  · rw [isPatternChar_of_isAlpha hc,
      isPatternChar_of_isAlpha (c.isAlpha_toLower_eq_isAlpha.trans hc)]
  · have hupper : ¬c.isUpper = true := fun h => hc (Bool.or_eq_true_iff.mpr (.inl h))
    rw [Char.toLower_eq_of_not_isUpper hupper]

/-- In small letters the same characters are escaped. -/
theorem foldCase_literalPattern (v : List Char) :
    foldCase (literalPattern v) = literalPattern (foldCase v) := by
  induction v with
  | nil => rfl
  | cons c v ih =>
    have hescape : '\\'.toLower = '\\' := by decide
    rw [foldCase] at ih ⊢
    rw [foldCase, List.map_cons, literalPattern, literalPattern, isPatternChar_toLower]
    split
    · rw [List.map_cons, List.map_cons, hescape, ih]
      rfl
    · rw [List.map_cons, ih]
      rfl

end Condition

namespace Pattern

theorem foldCase_foldCase (cs : List Char) : foldCase (foldCase cs) = foldCase cs := by
  rw [foldCase, foldCase, List.map_map]
  exact List.map_congr_left fun c _ => c.toLower_toLower_eq_toLower

/-! ## Texts that a pattern describes -/

open Condition

variable {ps cs : List Char}

/-- A percent sign stands for any characters. -/
theorem describes_percent (ps cs : List Char) :
    describes (some '\\') ('%' :: ps) cs = anyEnd (describes (some '\\') ps) cs := by
  rw [describes.eq_def]
  rfl

/-- A character without such a meaning stands for itself in either case. -/
theorem describes_plain {c : Char} (hc : isPatternChar c = false) (ps cs : List Char) :
    describes (some '\\') (c :: ps) cs = match cs with
      | [] => false
      | d :: ds => sameLetter c d && describes (some '\\') ps ds := by
  have hnone : ∀ x ∈ ['\\', '%', '_'], (c == x) = false := fun x hx =>
    beq_eq_false_iff_ne.mpr fun h => Bool.eq_false_iff.mp hc (isPatternChar_iff.mpr (h ▸ hx))
  have hescape : (some '\\' == some c) = false := by
    rw [beq_eq_false_iff_ne, ne_comm, ← beq_eq_false_iff_ne]
    exact hnone _ (by decide)
  rw [describes.eq_def]
  dsimp only
  rw [hescape, hnone '%' (by decide), hnone '_' (by decide)]
  rfl

/-- A character of a text, escaped or not, stands for itself in either case. -/
theorem describes_literal_cons (c : Char) (v : List Char) :
    describes (some '\\') (literalPattern (c :: v) ++ ps) cs = true ↔
      ∃ d ds, cs = d :: ds ∧ sameLetter c d = true ∧
        describes (some '\\') (literalPattern v ++ ps) ds = true := by
  have hletter : describes (some '\\') (literalPattern (c :: v) ++ ps) cs = match cs with
      | [] => false
      | d :: ds => sameLetter c d && describes (some '\\') (literalPattern v ++ ps) ds := by
    rw [literalPattern]
    split
    · cases cs <;> rfl
    · next hc => exact describes_plain (Bool.eq_false_iff.mpr hc) _ _
  rw [hletter]
  cases cs with
  | nil => exact ⟨nofun, nofun⟩
  | cons d ds => simp

/-- The pattern of a text stands for this text. -/
theorem describes_literalPattern_append (v : List Char) :
    describes (some '\\') (literalPattern v ++ ps) cs = true ↔
      ∃ as bs, cs = as ++ bs ∧ foldCase as = foldCase v ∧ describes (some '\\') ps bs = true := by
  induction v generalizing cs with
  | nil =>
    rw [literalPattern, List.nil_append]
    constructor
    · exact fun h => ⟨[], cs, rfl, rfl, h⟩
    · rintro ⟨as, bs, rfl, has, h⟩
      obtain rfl : as = [] := List.map_eq_nil_iff.mp has
      exact h
  | cons c v ih =>
    rw [describes_literal_cons]
    constructor
    · rintro ⟨d, ds, rfl, hletter, h⟩
      obtain ⟨as, bs, rfl, has, h⟩ := ih.mp h
      exact ⟨d :: as, bs, rfl, congrArg₂ List.cons (beq_iff_eq.mp hletter).symm has, h⟩
    · rintro ⟨as, bs, rfl, has, h⟩
      obtain ⟨d, as, rfl, hletter, has⟩ := List.map_eq_cons_iff.mp has
      exact ⟨d, as ++ bs, rfl, beq_iff_eq.mpr hletter.symm, ih.mpr ⟨as, bs, rfl, has, h⟩⟩

/-- With any characters before and behind it, it stands for the texts that contain this text. -/
theorem describes_between_iff (v cs : List Char) :
    describes (some '\\') ('%' :: literalPattern v ++ ['%']) cs = true ↔
      foldCase v <:+: foldCase cs := by
  have hend : ∀ ds, describes (some '\\') ['%'] ds = true := fun ds => by
    rw [describes_percent, anyEnd_iff]
    exact ⟨ds, [], (List.append_nil ds).symm, rfl⟩
  rw [List.cons_append, describes_percent, anyEnd_iff]
  simp only [describes_literalPattern_append, hend, and_true]
  constructor
  · rintro ⟨as, _, rfl, ms, bs, rfl, hms⟩
    refine ⟨foldCase as, foldCase bs, ?_⟩
    rw [← hms, foldCase, foldCase, foldCase, foldCase, List.map_append, List.map_append,
      List.append_assoc]
  · rintro ⟨xs, zs, h⟩
    obtain ⟨as, bs, rfl, has, -⟩ := List.map_eq_append_iff.mp h.symm
    obtain ⟨as, ms, rfl, -, hms⟩ := List.map_eq_append_iff.mp has
    exact ⟨as, ms ++ bs, List.append_assoc as ms bs, ms, bs, rfl, hms⟩

end Pattern

end Chronicle
