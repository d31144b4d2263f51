/-!
# Patterns

A pattern is a text in which a percent sign stands for any characters and an underscore for any
one.  Letters of ASCII match in either case.

* `Pattern.foldCase`: small letters for capital ones, in ASCII;
* `Pattern.describes`: whether a text is one that a pattern describes.
-/

namespace Chronicle.Pattern

/-- Small letters for the capital ones of ASCII. -/
def foldCase (cs : List Char) : List Char := cs.map Char.toLower

def sameLetter (a b : Char) : Bool := a.toLower == b.toLower

/-- Whether some end of a text has a property. -/
def anyEnd (p : List Char → Bool) : List Char → Bool
  | [] => p []
  | c :: cs => p (c :: cs) || anyEnd p cs

/-- Whether a text matches a pattern.  After the escape character the next one stands for itself. -/
def describes (escape : Option Char) : List Char → List Char → Bool
  | [], cs => cs.isEmpty
  | p :: ps, cs =>
    if escape == some p then
      match ps, cs with
      | q :: ps, c :: cs => sameLetter q c && describes escape ps cs
      | _, _ => false
    else if p == '%' then anyEnd (describes escape ps) cs
    else
      match cs with
      | [] => false
      | c :: cs => (p == '_' || sameLetter p c) && describes escape ps cs

theorem anyEnd_iff (p : List Char → Bool) (cs : List Char) :
    anyEnd p cs = true ↔ ∃ as bs, cs = as ++ bs ∧ p bs = true := by
  induction cs with
  | nil =>
    simp only [anyEnd, List.nil_eq, List.append_eq_nil_iff]
    exact ⟨fun h => ⟨[], [], ⟨rfl, rfl⟩, h⟩, fun ⟨_, _, ⟨_, hb⟩, h⟩ => hb ▸ h⟩
  | cons c cs ih =>
    simp only [anyEnd, Bool.or_eq_true, ih]
    constructor
    · rintro (h | ⟨as, bs, rfl, h⟩)
      · exact ⟨[], c :: cs, rfl, h⟩
      · exact ⟨c :: as, bs, rfl, h⟩
    · rintro ⟨as, bs, h, hp⟩
      cases as with
      | nil => exact .inl (h ▸ hp)
      | cons a as =>
        cases h
        exact .inr ⟨as, bs, rfl, hp⟩

example : describes none ['%', 'b', '_'] ['a', 'B', 'c'] = true := by decide
example : describes (some '\\') ['\\', '%'] ['x'] = false := by decide

end Chronicle.Pattern
