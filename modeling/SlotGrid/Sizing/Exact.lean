import SlotGrid.Sizing.Quantity

/-! # Exact quantities

Rational numbers and an infinity above them all. A computation that would have no value with the infinity
gives zero.
-/

namespace SlotGrid

inductive Exact
  | finite (q : Rat)
  | infinite
  deriving DecidableEq, Repr

namespace Exact

def add : Exact → Exact → Exact
  | finite a, finite b => finite (a + b)
  | _, _ => infinite

def sub : Exact → Exact → Exact
  | finite a, finite b => finite (a - b)
  | infinite, finite _ => infinite
  | _, infinite => finite 0

def mul : Exact → Exact → Exact
  | finite a, finite b => finite (a * b)
  | finite a, infinite | infinite, finite a => if a = 0 then finite 0 else infinite
  | infinite, infinite => infinite

def div : Exact → Exact → Exact
  | finite a, finite b => finite (a / b)
  | infinite, finite _ => infinite
  | _, infinite => finite 0

def lt : Exact → Exact → Bool
  | finite a, finite b => a < b
  | finite _, infinite => true
  | infinite, _ => false

def le : Exact → Exact → Bool
  | finite a, finite b => a ≤ b
  | _, infinite => true
  | infinite, finite _ => false

instance : Quantity Exact where
  zero := finite 0
  add := add
  sub := sub
  mul := mul
  div := div
  natCast n := finite n
  lt a b := lt a b = true
  le a b := le a b = true
  infinity := infinite
  neutral := finite 0
  decLt _ _ := inferInstanceAs (Decidable (_ = true))
  decLe _ _ := inferInstanceAs (Decidable (_ = true))

end Exact

end SlotGrid
