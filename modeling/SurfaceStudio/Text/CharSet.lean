/-!
Sets of characters given by code point ranges: the form in which the Unicode tables of this
library are written.
-/

namespace SurfaceStudio.Text

/-- A set of characters, as closed ranges of code points. -/
structure CharSet where
  ranges : List (Nat × Nat)

/-- Membership in one of the ranges. -/
def CharSet.contains (s : CharSet) (c : Char) : Bool :=
  s.ranges.any fun r => r.1 ≤ c.toNat && c.toNat ≤ r.2

end SurfaceStudio.Text
