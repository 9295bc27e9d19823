/-!
# Ranges of code points

A character class is given by the ranges of code points it holds, beyond the ASCII half of which
core's own classes speak.
-/

namespace TypedSettings.Text

/-- Inclusive ranges of code points, ascending. -/
abbrev Ranges := List (Nat × Nat)

/-- Whether some range holds the character. -/
def Ranges.holds (rs : Ranges) (c : Char) : Bool :=
  rs.any fun r => r.1 ≤ c.toNat && c.toNat ≤ r.2

def isAscii (c : Char) : Bool := c.toNat < 128

theorem Ranges.holds_nil (c : Char) : Ranges.holds [] c = false := rfl

theorem Ranges.holds_cons (lo hi : Nat) (rs : Ranges) (c : Char) :
    Ranges.holds ((lo, hi) :: rs) c = ((lo ≤ c.toNat && c.toNat ≤ hi) || Ranges.holds rs c) := rfl

end TypedSettings.Text
