import SlotGrid.Decimal.Layout

/-! # Sizes and regions -/

namespace SlotGrid

structure Size (α : Type) where
  width : α
  height : α
  deriving DecidableEq, Repr

/-- A rectangle by its upper left corner and its size. -/
structure Region (α : Type) where
  x : α
  y : α
  width : α
  height : α
  deriving DecidableEq, Repr

namespace Region

variable {α β : Type}

def map (f : α → β) (r : Region α) : Region β := ⟨f r.x, f r.y, f r.width, f r.height⟩

def text (r : Region Float32) : String :=
  let number := Decimal.Layout.plain.single
  number r.width ++ "x" ++ number r.height ++ " at (" ++ number r.x ++ ", " ++ number r.y ++ ")"

end Region

end SlotGrid
