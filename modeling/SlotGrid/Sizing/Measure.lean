import SlotGrid.Template.Length

/-! # Measures

The passes see the content of elements through a measure only.
-/

namespace SlotGrid

structure Measure (ε α : Type) where
  /-- The width that the content of an element may take. -/
  available : ε → α
  /-- A length in pixels, relative to an element where its unit asks for one. -/
  resolve : Length → ε → α
  /-- The width of the content without line breaks. -/
  preferred : ε → α
  /-- The width of the content with every possible line break. -/
  minimum : ε → α
  /-- The height of the content in a width. -/
  contentHeight : ε → α → α

/-- What keeps a template from being sized. -/
inductive SizingError
  | notConverged (cap : Nat)
  | notMaterialized (id selector : String)
  | noElement (slot : Char)
  | noWidth (slot : Char)
  /-- The content of the slot was not measured. -/
  | noContent (slot : Char)
  /-- The slot reaches beyond the rows or columns that there are. -/
  | outOfGrid (slot : Char)
  deriving DecidableEq, Repr

def SizingError.message : SizingError → String
  | notConverged cap => "column widening did not converge within " ++ toString cap ++ " steps"
  | notMaterialized id selector =>
    "template " ++ id ++ " (" ++ selector ++ ") must be materialized before sizing"
  | noElement slot => "slot '" ++ slot.toString ++ "' must have an element before sizing"
  | noWidth slot => "slot '" ++ slot.toString ++ "' needs a computed width before its height"
  | noContent slot => "slot '" ++ slot.toString ++ "' has no measured content"
  | outOfGrid slot => "slot '" ++ slot.toString ++ "' lies outside of the grid"

end SlotGrid
