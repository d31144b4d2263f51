/-!
# Ranges of code points

Character classes of the Unicode standard are given as lists of inclusive ranges.
-/

namespace Chronicle.Text

/-- The code points from the first to the second, both included. -/
abbrev CodeRange := Nat × Nat

namespace CodeRange

def holds (r : CodeRange) (c : Char) : Bool := r.1 ≤ c.toNat && c.toNat ≤ r.2

theorem holds_iff (r : CodeRange) (c : Char) :
    r.holds c = true ↔ r.1 ≤ c.toNat ∧ c.toNat ≤ r.2 := by
  simp [holds]

end CodeRange

end Chronicle.Text
