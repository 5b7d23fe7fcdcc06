/-!
# Ranges of code points

A property of characters that a standard fixes is stored as the increasing list of the code points
that have it, written as inclusive ranges.

## Main definitions

* `CodeRanges.covers`: whether a code point lies in one of the ranges
-/

namespace RegionLogic.Text

/-- Inclusive ranges of code points, in increasing order and apart from each other. -/
structure CodeRanges where
  /-- The first and the last code point of each range. -/
  bounds : List (Nat × Nat)

/-- Whether `n` lies in one of the ranges; the search ends at the first range above `n`. -/
def CodeRanges.covers (r : CodeRanges) (n : Nat) : Bool :=
  go r.bounds
where
  /-- The search through the ranges that are left. -/
  go : List (Nat × Nat) → Bool
    | [] => false
    | (low, high) :: rest => if n < low then false else n ≤ high || go rest

end RegionLogic.Text
