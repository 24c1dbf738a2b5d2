/-!
# Sets of characters given by ranges

A set of characters is a list of inclusive ranges of code points in increasing order.

## Main definitions

* `inRanges` — membership.
-/

namespace ViewMarkup.Text

/-- Whether a code point lies in one of the inclusive ranges. -/
def inRanges (ranges : List (Nat × Nat)) (n : Nat) : Bool :=
  ranges.any fun (first, last) => first ≤ n && n ≤ last

end ViewMarkup.Text
