import SlotGrid.Keyed
import SlotGrid.Template.Length

/-! # Slots

A slot is a rectangle of cells that have the same name. It is collected cell by cell while the rows are
read from left to right and from top to bottom, and only takes cells that let it become a rectangle.
-/

namespace SlotGrid

/-- The name of the cells that hold no content. -/
def emptyName : Char := '.'

structure Slot where
  name : Char
  row : Nat
  column : Nat
  rowspan : Nat
  colspan : Nat
  /-- The row of the cell that was taken last. -/
  lastRow : Nat
  /-- The column of the cell that was taken last. -/
  lastColumn : Nat
  deriving DecidableEq, Repr

namespace Slot

/-- The slot of a single cell. -/
def single (name : Char) (row column : Nat) : Slot := ⟨name, row, column, 1, 1, row, column⟩

def isEmpty (s : Slot) : Bool := s.name = emptyName

def endRow (s : Slot) : Nat := s.row + s.rowspan - 1

def endColumn (s : Slot) : Nat := s.column + s.colspan - 1

/-- Whether a cell lies in the rectangle. -/
def Covers (s : Slot) (row column : Nat) : Prop :=
  s.row ≤ row ∧ row ≤ s.endRow ∧ s.column ≤ column ∧ column ≤ s.endColumn

instance (s : Slot) (row column : Nat) : Decidable (s.Covers row column) :=
  inferInstanceAs (Decidable (_ ∧ _ ∧ _ ∧ _))

/-- Takes the next cell of the slot. In the first row the cell follows the last one; in later rows it goes on
in the row, within the columns of the first, or starts the next row once the row is complete. -/
def expand (s : Slot) (row column : Nat) : Except TemplateError Slot :=
  if row = s.lastRow ∧ column = s.lastColumn + 1 then
    if row = s.row then
      .ok { s with colspan := s.colspan + 1, lastRow := row, lastColumn := column }
    else if s.endColumn < column then
      .error (.notRectangular s.name row column)
    else
      .ok { s with lastRow := row, lastColumn := column }
  else if row = s.lastRow + 1 ∧ s.lastColumn = s.endColumn ∧ column = s.column then
    .ok { s with rowspan := s.rowspan + 1, lastRow := row, lastColumn := column }
  else
    .error (.notAdjacent s.name row column)

/-- Whether the last row of the slot is complete. -/
def isClosed (s : Slot) : Bool := decide (s.lastRow ≤ s.row ∨ s.lastColumn = s.endColumn)

def requireClosed (s : Slot) : Except TemplateError Unit :=
  if s.isClosed then .ok () else .error (.notRectangular s.name s.lastRow s.lastColumn)

def text (s : Slot) : String :=
  s.name.toString ++ " [" ++ toString s.row ++ ", " ++ toString s.column ++ "] " ++ toString s.rowspan ++ "x" ++
    toString s.colspan

end Slot

/-- Slots of different names, in the order in which the names came first. -/
structure Slots where
  toList : List Slot
  deriving DecidableEq, Repr

namespace Slots

def empty : Slots := ⟨[]⟩

def get? (ss : Slots) (name : Char) : Option Slot := Keyed.get? Slot.name name ss.toList

def contains (ss : Slots) (name : Char) : Bool := (ss.get? name).isSome

/-- A slot of the same name is replaced where it stands. -/
def insert (ss : Slots) (s : Slot) : Slots := ⟨Keyed.put Slot.name s ss.toList⟩

def size (ss : Slots) : Nat := ss.toList.length

def names (ss : Slots) : List Char := ss.toList.map Slot.name

/-- Lets the slot of a name take a cell. -/
def expand (ss : Slots) (s : Slot) (row column : Nat) : Except TemplateError Slots :=
  (s.expand row column).map ss.insert

end Slots

end SlotGrid
