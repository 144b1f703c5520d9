import SlotGrid.Sizing.Grid
import SlotGrid.Sizing.Widening

/-! # The width pass

Every slot and every column is measured once, and keeps its extent in later passes. If the columns do not
fit the available width with their narrowest widths they get exactly those; otherwise they are widened.
-/

namespace SlotGrid

variable {ε α : Type} [Quantity α]

namespace GridSlot

def elementOrError (s : GridSlot ε α) : Except SizingError ε :=
  s.element.elim (.error (.noElement s.name)) .ok

/-- The extent of the content. A slot of several columns sets no lower bound to any of them. -/
def measuredExtent (m : Measure ε α) (s : GridSlot ε α) : Except SizingError (Extent α) :=
  match s.extent with
  | some x => .ok x
  | none =>
    if s.isEmpty then .ok ⟨0, 0⟩
    else do
      let element ← s.elementOrError
      return ⟨if 1 < s.colspan then 0 else m.minimum element, m.preferred element⟩

def measure (m : Measure ε α) (s : GridSlot ε α) : Except SizingError (GridSlot ε α) := do
  return { s with extent := some (← s.measuredExtent m) }

end GridSlot

namespace GridColumn

/-- The extents of the slots in the column. -/
def contents (c : GridColumn α) (slots : List (GridSlot ε α)) : List (Extent α) :=
  c.names.filterMap fun name => (Keyed.get? (·.name) name slots).bind GridSlot.extent

/-- The extent that the width of the column asks for. -/
def ruledExtent (m : Measure ε α) (container : ε) (slots : List (GridSlot ε α)) (c : GridColumn α) : Extent α :=
  let least := Quantity.largest ((c.contents slots).map Extent.minimum)
  let most := Quantity.largest ((c.contents slots).map Extent.preferred)
  match c.width with
  | .length l => ⟨m.resolve l container, m.resolve l container⟩
  | .equal => ⟨0, Quantity.infinity⟩
  | .minContent => ⟨least, least⟩
  | .maxContent => ⟨most, most⟩
  | .fitContent => ⟨least, most⟩
  | .minMax low high => ⟨m.resolve low container, m.resolve high container⟩

/-- The extent of the column, which is computed once. -/
def currentExtent (m : Measure ε α) (container : ε) (slots : List (GridSlot ε α)) (c : GridColumn α) :
    Extent α :=
  c.extent.getD (c.ruledExtent m container slots)

end GridColumn

namespace Grid

def elementOrError (g : Grid ε α) : Except SizingError ε :=
  g.element.elim (.error (.notMaterialized g.id g.selector)) .ok

/-- The columns and slots with these column widths. -/
def withColumnWidths (g : Grid ε α) (columns : List (GridColumn α)) (widths : List α) : Grid ε α :=
  { g with
    columns := some (List.zipWith (fun c w => { c with computed := w }) columns widths)
    slots := g.slots.map fun s =>
      { s with width := some (Quantity.total ((widths.drop s.column).take s.colspan)) }
    width := Quantity.total widths }

/-- The widths for columns of these extents. -/
def fitColumns (available : α) (cap : Nat) (extents : List (Extent α)) : Except SizingError (List α) :=
  if available < Quantity.total (extents.map Extent.minimum) then .ok (extents.map Extent.minimum)
  else
    match Widening.widen? (extents.map Extent.preferred) available cap with
    | some widths => .ok widths
    | none => .error (.notConverged cap)

/-- Computes the widths of columns and slots and of the grid. -/
def sizeColumns (m : Measure ε α) (config : Config) (g : Grid ε α) : Except SizingError (Grid ε α) := do
  let container ← g.elementOrError
  let slots ← g.slots.mapM (·.measure m)
  let extents := g.builtColumns.map (·.currentExtent m container slots)
  let widths ← fitColumns (m.available container) (config.roundLimit extents.length) extents
  slots.forM (·.requireColumns widths.length)
  let columns := List.zipWith (fun c x => { c with extent := some x }) g.builtColumns extents
  return { g with slots }.withColumnWidths columns widths

end Grid

end SlotGrid
