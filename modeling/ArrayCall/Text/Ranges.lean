/-!
# Classes of characters

A class of characters is given by ranges of code points, in increasing order.
-/

namespace ArrayCall.Text

/-- Whether the code point of a character is in one of the ranges, ends included. -/
def inRanges (ranges : List (Nat × Nat)) (c : Char) : Bool :=
  ranges.any fun (first, last) => first ≤ c.toNat && c.toNat ≤ last

end ArrayCall.Text
