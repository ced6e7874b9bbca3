/-!
This module contains sets of characters given by ranges of code points.
-/

namespace Interaction

namespace Text

def inRanges (ranges : List (Nat × Nat)) (c : Char) : Bool :=
  ranges.any fun (first, last) => first ≤ c.toNat && c.toNat ≤ last

end Text

end Interaction
