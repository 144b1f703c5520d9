import SlotGrid.Text.Blank
import SlotGrid.Template.Slot

/-! # Templates

A template is a grid of named cells with a height for each row and a width for each column. The cells of one
name are a slot.
-/

namespace SlotGrid

structure Row where
  cells : List Char
  height : Height
  deriving DecidableEq, Repr

namespace Row

/-- The row of a quoted text; every character but the blanks is a cell. -/
def ofText (text : String) (height : Height) : Row := ⟨text.toList.filter (!Text.isBlank ·), height⟩

def text (r : Row) : String :=
  "\"" ++ .ofList r.cells ++ "\"" ++ if r.height = .auto then "" else " / " ++ r.height.text

end Row

structure Template where
  selector : String
  css : String
  rows : List Row
  widths : List Width
  slots : Slots
  deriving DecidableEq, Repr

namespace Template

def rowCount (t : Template) : Nat := t.rows.length

def columnCount (t : Template) : Nat := t.widths.length

def cell? (t : Template) (row column : Nat) : Option Char := t.rows[row]?.bind (·.cells[column]?)

/-- The names in a column from top to bottom. -/
def namesInColumn (t : Template) (column : Nat) : List Char :=
  Keyed.distinct (t.rows.filterMap (·.cells[column]?))

/-- The slots with a cell in a row from left to right. -/
def slotsInRow (t : Template) (row : Nat) : List Slot :=
  (Keyed.distinct (t.rows[row]?.elim [] Row.cells)).filterMap t.slots.get?

/-- The slots with a cell in a column from top to bottom. -/
def slotsInColumn (t : Template) (column : Nat) : List Slot :=
  (t.namesInColumn column).filterMap t.slots.get?

def text (t : Template) : String :=
  " ".intercalate (t.rows.map Row.text) ++
    if t.widths.isEmpty then "" else " " ++ " ".intercalate (t.widths.map Width.text)

end Template

end SlotGrid
