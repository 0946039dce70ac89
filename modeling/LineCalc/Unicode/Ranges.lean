/-
  Ranges: sets of characters as sorted ranges

  A property of characters is given as a list of ranges `(first, last)` of code
  points, in increasing order. Membership stops at the first range that begins
  above the code point, so a small code point is decided by the first few
  ranges.
-/

namespace LineCalc.Unicode

/-- Whether a code point lies in one of the ranges, which are in increasing
order. -/
def inRanges : List (Nat × Nat) → Nat → Bool
  | [], _ => false
  | (first, last) :: rest, n =>
    if n < first then false else n ≤ last || inRanges rest n

end LineCalc.Unicode
