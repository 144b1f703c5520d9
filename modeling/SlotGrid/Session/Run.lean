import SlotGrid.Document.Layout
import SlotGrid.Document.Placement
import SlotGrid.Session.Basic

/-! # Layout runs -/

namespace SlotGrid

/-- What a run leaves behind. -/
structure Session.Outcome where
  sheet : Style.Sheet
  session : Session
  document : Document
  deriving DecidableEq, Repr

/-- Lays out a document by the style texts in it. Nothing is kept of what the session had registered before. -/
def Session.run (s : Session) (d : Document) : Except SizingError Session.Outcome := do
  let (sheet, s) := s.clear.parse d.joinedStyles
  let (d, grids) := d.materializeAll s.grids
  let (d, grids) ← (d.placeAll s.positions).layOut s.config grids
  return ⟨sheet, { s with grids }, d⟩

end SlotGrid
