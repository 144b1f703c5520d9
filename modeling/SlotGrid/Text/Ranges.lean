/-! # Properties of characters

A property of characters is a table of ranges of code points, both ends included.
-/

namespace SlotGrid.Text

abbrev CodeRanges := Array (Nat × Nat)

def CodeRanges.holds (t : CodeRanges) (c : Char) : Bool :=
  t.any fun (first, last) => decide (first ≤ c.toNat ∧ c.toNat ≤ last)

end SlotGrid.Text
