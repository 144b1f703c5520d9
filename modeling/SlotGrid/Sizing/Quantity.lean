/-! # Quantities

Widths and heights are computed with the operations of this class alone. No law is assumed, so the same
passes run with rounded numbers and can be read with exact ones.
-/

namespace SlotGrid

class Quantity (α : Type) extends Zero α, Add α, Sub α, Mul α, Div α, NatCast α, LT α, LE α where
  /-- The width that is larger than every other. -/
  infinity : α
  /-- The start of every sum: a zero that changes nothing, not even the sign of another zero. -/
  neutral : α
  decLt : DecidableLT α
  decLe : DecidableLE α

namespace Quantity

variable {α : Type} [Quantity α]

instance : DecidableLT α := decLt

instance : DecidableLE α := decLe

def total (xs : List α) : α := xs.foldl (· + ·) neutral

/-- The largest of some quantities, and zero when none is larger. -/
def largest (xs : List α) : α := xs.foldl (fun a x => if a < x then x else a) 0

instance : Quantity Float where
  zero := 0.0
  natCast := Float.ofNat
  infinity := 1.0 / 0.0
  neutral := -0.0
  decLt := inferInstance
  decLe := inferInstance

end Quantity

end SlotGrid
