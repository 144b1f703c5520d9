import SlotGrid.Sizing.Rows

/-! # Sizing several grids

The widths of all grids are computed before any height. A grid without an element is left as it is.
-/

namespace SlotGrid.Grid

variable {ε α : Type} [Quantity α]

def sizeColumnsIfMaterialized (m : Measure ε α) (config : Config) (g : Grid ε α) :
    Except SizingError (Grid ε α) :=
  if g.isMaterialized then g.sizeColumns m config else .ok g

def sizeRowsIfMaterialized (m : Measure ε α) (g : Grid ε α) : Except SizingError (Grid ε α) :=
  if g.isMaterialized then g.sizeRows m else .ok g

/-- Sizes the grids by the same measure. -/
def sizeAll (m : Measure ε α) (config : Config) (gs : List (Grid ε α)) :
    Except SizingError (List (Grid ε α)) := do
  let gs ← gs.mapM (·.sizeColumnsIfMaterialized m config)
  gs.mapM (·.sizeRowsIfMaterialized m)

/-- How many grids the passes size. -/
def sizedCount (gs : List (Grid ε α)) : Nat := gs.countP isMaterialized

end SlotGrid.Grid
