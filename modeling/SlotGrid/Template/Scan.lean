import SlotGrid.Template.Basic

/-! # Building templates

Rows that are shorter than the longest are filled up with empty cells, and a width is given to every column.
The cells are then read row by row; the first that keeps a slot from being a rectangle is an error.
-/

namespace SlotGrid

namespace Row

/-- The row with empty cells up to a length. -/
def pad (r : Row) (length : Nat) : Row :=
  { r with cells := r.cells ++ List.replicate (length - r.cells.length) emptyName }

end Row

structure Cell where
  row : Nat
  column : Nat
  name : Char
  deriving DecidableEq, Repr

/-- The cells of rows from left to right and from top to bottom. -/
def cellsOf (rows : List (List Char)) : List Cell :=
  rows.zipIdx.flatMap fun (cells, row) => cells.zipIdx.map fun (name, column) => ⟨row, column, name⟩

/-- The slots collected so far, and the name of the last cell. -/
structure SlotScan where
  slots : Slots
  previous : Option Char
  deriving DecidableEq, Repr

namespace SlotScan

def start : SlotScan := ⟨.empty, none⟩

/-- A slot whose last cell is left by a cell of another name has to be closed there. -/
def checkLeft (s : SlotScan) (name : Char) : Except TemplateError Unit :=
  match s.previous with
  | some left => if left = name then .ok () else ((s.slots.get? left).elim (.ok ()) Slot.requireClosed)
  | none => .ok ()

def take (s : SlotScan) (c : Cell) : Except TemplateError SlotScan := do
  s.checkLeft c.name
  let slots ← match s.slots.get? c.name with
    | some slot => s.slots.expand slot c.row c.column
    | none => .ok (s.slots.insert (.single c.name c.row c.column))
  return ⟨slots, some c.name⟩

end SlotScan

/-- The slots of a grid, if the cells of every name form a rectangle. -/
def Slots.ofRows (rows : List (List Char)) : Except TemplateError Slots := do
  let s ← (cellsOf rows).foldlM SlotScan.take .start
  s.slots.toList.forM Slot.requireClosed
  return s.slots

namespace Template

def columnsOf (rows : List Row) : Nat := (rows.map (·.cells.length)).foldl max 0

/-- The template with these rows and column widths. Columns without a width share what is left. -/
def ofRows (selector css : String) (rows : List Row) (widths : List Width) : Except TemplateError Template := do
  let columns := columnsOf rows
  if columns = 0 then throw .empty
  let rows := rows.map (·.pad columns)
  let slots ← Slots.ofRows (rows.map Row.cells)
  return { selector, css, rows, widths := (widths ++ List.replicate columns Width.equal).take columns, slots }

end Template

end SlotGrid
