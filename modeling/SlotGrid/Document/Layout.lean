import SlotGrid.Document.Flow
import SlotGrid.Sizing.Pass

/-! # Laying out a document

A document gets to know the slot widths of a grid as soon as they are computed, so a grid in a slot of an
earlier one is as wide as that slot. Regions are set when all grids are sized.
-/

namespace SlotGrid.Document

/-- Keeps the widths of the slots of a grid. -/
def keepSlotWidths (d : Document) (g : Grid ElementId Float) : Document :=
  g.slots.foldl (fun d s =>
    match s.element, s.width with
    | some e, some w => d.setSlotWidth e w.toFloat32
    | _, _ => d) d

/-- Computes the widths of the grids in order. -/
def sizeColumns (config : Config) (d : Document) :
    List (Grid ElementId Float) → Except SizingError (Document × List (Grid ElementId Float))
  | [] => .ok (d, [])
  | g :: gs => do
    let g ← g.sizeColumnsIfMaterialized d.measure config
    let (d, gs) ← sizeColumns config (if g.isMaterialized then d.keepSlotWidths g else d) gs
    return (d, g :: gs)

/-- Sets the regions of a grid and of its slots. -/
def applyGrid (d : Document) (g : Grid ElementId Float) : Except SizingError Document :=
  match g.element with
  | none => .ok d
  | some e =>
    let d := d.setRegion e ⟨0, 0, g.width.toFloat32, g.height.toFloat32⟩
    g.slots.foldlM (fun d s => do
      s.requireOrigin g.rowHeights.length g.columnWidths.length
      match s.element, g.region? s.name with
      | some e, some r => return d.setRegion e (r.map Float.toFloat32)
      | _, _ => return d) d

def applyGrids (d : Document) (gs : List (Grid ElementId Float)) : Except SizingError Document :=
  gs.foldlM applyGrid d

/-- Sizes grids and sets the regions of their elements. -/
def layOut (config : Config) (d : Document) (gs : List (Grid ElementId Float)) :
    Except SizingError (Document × List (Grid ElementId Float)) := do
  let (d, gs) ← d.sizeColumns config gs
  let gs ← gs.mapM (·.sizeRowsIfMaterialized d.measure)
  return (← d.applyGrids gs, gs)

end SlotGrid.Document
