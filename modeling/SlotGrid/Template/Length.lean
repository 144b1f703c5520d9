import SlotGrid.Decimal.Layout

/-! # Lengths

A length is a number that is not negative and a unit. Row heights and column widths are given by a length or
by one of the words that let the content decide.
-/

namespace SlotGrid

inductive LengthUnit
  | px
  | em
  | ex
  | inch
  | cm
  | mm
  | pt
  | pc
  | vw
  | vh
  | percent
  deriving DecidableEq, Repr

namespace LengthUnit

def all : List LengthUnit := [px, em, ex, inch, cm, mm, pt, pc, vw, vh, percent]

def symbol : LengthUnit → String
  | px => "px"
  | em => "em"
  | ex => "ex"
  | inch => "in"
  | cm => "cm"
  | mm => "mm"
  | pt => "pt"
  | pc => "pc"
  | vw => "vw"
  | vh => "vh"
  | percent => "%"

/-- The unit that is spelled so, in letters of either case. -/
def parse? (s : String) : Option LengthUnit := all.find? (·.symbol = s.toLower)

end LengthUnit

/-- What is wrong with the definition of a template. -/
inductive TemplateError
  /-- The cell would leave the slot without the shape of a rectangle. -/
  | notRectangular (slot : Char) (row column : Nat)
  /-- The cell does not continue the slot. -/
  | notAdjacent (slot : Char) (row column : Nat)
  | negativeLength (value : Float)
  | unknownUnit (unit : String)
  | empty
  deriving DecidableEq, Repr

def TemplateError.message : TemplateError → String
  | notRectangular slot row column =>
    "slot '" ++ slot.toString ++ "' is not rectangular at row " ++ toString row ++ ", column " ++ toString column
  | notAdjacent slot row column =>
    "slot '" ++ slot.toString ++ "' at row " ++ toString row ++ ", column " ++ toString column ++
      " is not adjacent to its other cells"
  | negativeLength value => "negative length " ++ Decimal.Layout.plain.double value ++ " is not allowed"
  | unknownUnit unit => "unknown length unit '" ++ unit ++ "'"
  | empty => "a template needs at least one non-empty row"

structure Length where
  value : Float
  unit : LengthUnit
  deriving DecidableEq, Repr

namespace Length

def zero : Length := ⟨0, .px⟩

/-- The length with a value and the spelling of a unit. -/
def ofUnit (value : Float) (unit : String) : Except TemplateError Length :=
  if value < 0 then .error (.negativeLength value)
  else
    match LengthUnit.parse? unit with
    | some u => .ok ⟨value, u⟩
    | none => .error (.unknownUnit unit)

def text (l : Length) : String := Decimal.Layout.plain.double l.value ++ l.unit.symbol

end Length

inductive Height
  | length (l : Length)
  /-- As tall as the tallest slot within the row. -/
  | auto
  /-- As tall as the tallest of all rows of this kind. -/
  | equal
  deriving DecidableEq, Repr

namespace Height

/-- Whether the row may grow to fit a slot of several rows. -/
def mayGrow : Height → Bool
  | length _ => false
  | _ => true

def text : Height → String
  | length l => l.text
  | auto => "auto"
  | equal => "*"

end Height

inductive Width
  | length (l : Length)
  /-- An equal share of the width that is left. -/
  | equal
  | minContent
  | maxContent
  | fitContent
  | minMax (low high : Length)
  deriving DecidableEq, Repr

def Width.text : Width → String
  | length l => l.text
  | equal => "*"
  | minContent => "min-content"
  | maxContent => "max-content"
  | fitContent => "fit-content"
  | minMax low high => "minmax(" ++ low.text ++ ", " ++ high.text ++ ")"

end SlotGrid
