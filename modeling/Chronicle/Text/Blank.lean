import Chronicle.Text.CodeRange

/-!
# Blank characters

The characters that are dropped at both ends of a timestamp text: those whose Unicode
bidirectional class is a separator or white space, and those of category `Zs`.  The four
information separators `U+001C` to `U+001F` belong to them; the zero width space does not.
-/

namespace Chronicle.Text

/-- Code points of the blank characters. -/
def blankRanges : List CodeRange :=
  [(0x9, 0xd), (0x1c, 0x20), (0x85, 0x85), (0xa0, 0xa0), (0x1680, 0x1680), (0x2000, 0x200a),
   (0x2028, 0x2029), (0x202f, 0x202f), (0x205f, 0x205f), (0x3000, 0x3000)]

def isBlank (c : Char) : Bool := blankRanges.any (·.holds c)

/-- The characters without the blank ones at both ends. -/
def trimBlanks (cs : List Char) : List Char :=
  ((cs.dropWhile isBlank).reverse.dropWhile isBlank).reverse

theorem isBlank_of_isWhitespace {c : Char} (h : c.isWhitespace = true) : isBlank c = true := by
  simp only [Char.isWhitespace, Bool.or_eq_true, decide_eq_true_eq] at h
  rcases h with ((h | h) | h) | h <;> subst h <;> decide

example : trimBlanks [' ', 'a', ' ', 'b', '\n'] = ['a', ' ', 'b'] := by decide
example : isBlank '\u200b' = false := by decide

end Chronicle.Text
