import SlotGrid.Config
import SlotGrid.Sizing.Measure
import SlotGrid.Sizing.Quantity
import SlotGrid.Template.Basic

/-! # Grids

A grid is a template in use: it has an id and elements for itself and its slots, and keeps what the passes
found out about its rows, columns and slots. Elements are of a type `ε` and quantities of a type `α`.
-/

namespace SlotGrid

/-- The narrowest and the natural width of some content. -/
structure Extent (α : Type) where
  minimum : α
  preferred : α
  deriving DecidableEq, Repr

structure GridRow (α : Type) extends Row where
  computed : α
  deriving DecidableEq, Repr

structure GridColumn (α : Type) where
  index : Nat
  width : Width
  /-- The names of the slots in the column from top to bottom. -/
  names : List Char
  extent : Option (Extent α)
  computed : α
  deriving DecidableEq, Repr

structure GridSlot (ε α : Type) extends Slot where
  id : String
  element : Option ε
  extent : Option (Extent α)
  width : Option α
  height : α
  deriving DecidableEq, Repr

structure Grid (ε α : Type) where
  id : String
  selector : String
  css : String
  rows : List (GridRow α)
  widths : List Width
  slots : List (GridSlot ε α)
  /-- The columns, once they are built. -/
  columns : Option (List (GridColumn α))
  element : Option ε
  width : α
  height : α
  deriving DecidableEq, Repr

namespace Slot

/-- What a slot reaches has to be there. -/
def requireWithin (s : Slot) (stop count : Nat) : Except SizingError Unit :=
  if stop ≤ count then .ok () else .error (.outOfGrid s.name)

def requireRows (s : Slot) (rows : Nat) : Except SizingError Unit := s.requireWithin (s.row + s.rowspan) rows

def requireColumns (s : Slot) (columns : Nat) : Except SizingError Unit :=
  s.requireWithin (s.column + s.colspan) columns

/-- The rows and columns before a slot have to be there. -/
def requireOrigin (s : Slot) (rows columns : Nat) : Except SizingError Unit := do
  s.requireWithin s.column columns
  s.requireWithin s.row rows

end Slot

namespace Grid

variable {ε α : Type}

/-- The template without what was found out about it. -/
def template (g : Grid ε α) : Template :=
  { selector := g.selector
    css := g.css
    rows := g.rows.map GridRow.toRow
    widths := g.widths
    slots := ⟨g.slots.map GridSlot.toSlot⟩ }

def slot? (g : Grid ε α) (name : Char) : Option (GridSlot ε α) :=
  Keyed.get? (·.name) name g.slots

def isMaterialized (g : Grid ε α) : Bool := g.element.isSome

/-- Gives the grid an id, and its slots ids that begin with it. -/
def named (g : Grid ε α) (id slotInfix : String) : Grid ε α :=
  { g with id, slots := g.slots.map fun s => { s with id := slotId id slotInfix s.name } }

variable [Quantity α]

/-- A template of which nothing is known yet. -/
def ofTemplate (t : Template) : Grid ε α :=
  { id := ""
    selector := t.selector
    css := t.css
    rows := t.rows.map fun r => { r with computed := 0 }
    widths := t.widths
    slots := t.slots.toList.map fun s =>
      { s with id := "", element := none, extent := none, width := none, height := 0 }
    columns := none
    element := none
    width := 0
    height := 0 }

/-- The columns as they are before the first width pass. -/
def freshColumns (g : Grid ε α) : List (GridColumn α) :=
  g.widths.mapIdx fun i w => ⟨i, w, g.template.namesInColumn i, none, 0⟩

/-- The columns, which are built if they are not there. -/
def builtColumns (g : Grid ε α) : List (GridColumn α) := g.columns.getD g.freshColumns

def withColumns (g : Grid ε α) : Grid ε α := { g with columns := some g.builtColumns }

/-- The widths of the columns, which are zero as long as there are no columns. -/
def columnWidths (g : Grid ε α) : List α :=
  g.columns.elim (g.widths.map fun _ => 0) (·.map GridColumn.computed)

def rowHeights (g : Grid ε α) : List α := g.rows.map GridRow.computed

/-- The distance of a row or column from the edge, which the ones before it fill. -/
def offset (sizes : List α) (index : Nat) : α := (sizes.take index).foldl (· + ·) 0

/-- The box of a slot, seen from the upper left corner of the grid. -/
def region? (g : Grid ε α) (name : Char) : Option (Region α) :=
  (g.slot? name).map fun s =>
    ⟨offset g.columnWidths s.column, offset g.rowHeights s.row, s.width.getD 0, s.height⟩

end Grid

end SlotGrid
