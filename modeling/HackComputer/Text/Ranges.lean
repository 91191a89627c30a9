/-!
# `HackComputer.Text.Ranges`: sets of characters as ranges

A property of characters is a list of closed ranges of code points,
ascending and apart.
-/

set_option autoImplicit false

namespace HackComputer.Text

/-- The code point of the character lies in one of the ranges. -/
def inRanges (ranges : List (Nat × Nat)) (c : Char) : Bool :=
  ranges.any fun (lo, hi) => lo ≤ c.toNat && c.toNat ≤ hi

end HackComputer.Text
