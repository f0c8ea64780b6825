/-!
# Sets of characters as ranges

A property of characters is given by the ranges of code points that have it. A table of ranges is
in order, with something between any two of them (`Ranges.apart`), so that no shorter list of ranges
is the same set.
-/

namespace Featherweight.Text

/-- Ranges of code points, each given by its first and its last one. -/
abbrev Ranges := List (Nat × Nat)

namespace Ranges

/-- Is the character in one of the ranges? -/
def contains (ranges : Ranges) (c : Char) : Bool :=
  ranges.any fun (first, last) => first ≤ c.toNat && c.toNat ≤ last

/-- Are the ranges in order, with something between any two of them? -/
def apart : Ranges → Bool
  | [] => true
  | [(first, last)] => first ≤ last
  | (first, last) :: (first', last') :: ranges =>
    first ≤ last && last + 1 < first' && apart ((first', last') :: ranges)

end Ranges

end Featherweight.Text
