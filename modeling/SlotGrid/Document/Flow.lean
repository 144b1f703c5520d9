import SlotGrid.Document.Basic
import SlotGrid.Sizing.Measure
import SlotGrid.Sizing.Quantity
import SlotGrid.Text.Wrapping

/-! # Measuring elements

The text of an element and its children are stacked in one column. A column is as wide as its widest part,
unless its element has a width of its own, and text is wrapped in the width that the column gets. Sizes are
rounded to whole pixels, a half away from zero.
-/

namespace SlotGrid.Document

/-- A width that is not positive is none at all. -/
def clampWidth (w : Float32) : Float32 := if 0 < w then w else 0

/-- The width of a character; never less than the least step above one, so that lengths can be divided by it. -/
def characterWidth (d : Document) : Float32 :=
  let least : Float32 := Float32.ofBits 0x34000000
  if least < d.metrics.charWidth then d.metrics.charWidth else least

/-- The lengths of the words in an element. -/
def words (d : Document) (e : ElementId) : List Nat :=
  (d.get? e).elim [] fun e => Text.wordLengths e.text.toList

def ownWidth? (d : Document) (e : ElementId) : Option Float32 := (d.get? e).bind Element.width

/-! ## Widths -/

/-- The width of an element, with `measureText` for the length of the words in a column. -/
def boxWidth (d : Document) (measureText : List Nat → Nat) : ElementId → Float32 :=
  d.fold fun e below =>
    match d.ownWidth? e with
    | some w => clampWidth w
    | none =>
      let text := Float32.ofNat (measureText (d.words e)) * d.characterWidth
      (text :: below).foldl (fun a w => if a < w then w else a) 0

/-- The width of an element without line breaks. -/
def preferredWidth (d : Document) : ElementId → Float32 := d.boxWidth Text.Wrapping.lineLength

/-- The width of an element with every possible line break. -/
def minimumWidth (d : Document) : ElementId → Float32 := d.boxWidth Text.Wrapping.longest

/-! ## Heights -/

def textHeight (d : Document) (e : ElementId) (width : Float32) : Float32 :=
  let limit := (width / d.characterWidth).floor.toUInt64.toNat
  let height := Float32.ofNat (Text.Wrapping.lines limit (d.words e)) * d.metrics.lineHeight
  if 0 < height then height else 0

/-- The height of a column of this width, with the heights of the children in it. -/
def columnHeight (d : Document) (e : ElementId) (below : List (Float32 → Float32)) (width : Float32) : Float32 :=
  let width := clampWidth width
  below.foldl (fun sum height => sum + height width) (0 + d.textHeight e width)

/-- The height of an element in a column of some width. -/
def boxHeight (d : Document) : ElementId → Float32 → Float32 :=
  d.fold fun e below outer => d.columnHeight e below ((d.ownWidth? e).getD outer)

/-- The height of an element that is given a width, whatever width of its own it has. -/
def contentHeight (d : Document) (e : ElementId) (width : Float32) : Float32 :=
  d.columnHeight e ((d.children e).map d.boxHeight) width

/-! ## Measure -/

/-- The width that an element lies in: its own or its slot's, or that of the nearest element above that has one,
or the width of the view. -/
def widthAround (d : Document) (e : ElementId) : Float32 :=
  ((e :: d.ancestors e).findSome? fun e => (d.ownWidth? e).or (d.slotWidth? e)).getD d.viewport.width

/-- The pixels in one of a unit; a percent is taken of `available`. -/
def unitSize (d : Document) (available : Float) : LengthUnit → Float
  | .px => 1
  | .em => d.metrics.fontSize.toFloat
  | .ex => d.metrics.fontSize.toFloat / 2
  | .inch => 96
  | .cm => 96 / 2.54
  | .mm => 96 / 25.4
  | .pt => 96 / 72
  | .pc => 16
  | .percent => available / 100
  | .vw => d.viewport.width.toFloat / 100
  | .vh => d.viewport.height.toFloat / 100

def measure (d : Document) : Measure ElementId Float where
  available e := (d.widthAround e).toFloat
  resolve l e := l.value * d.unitSize (d.widthAround e).toFloat l.unit
  preferred e := (d.preferredWidth e).round.toFloat
  minimum e := (d.minimumWidth e).round.toFloat
  contentHeight e width := (d.contentHeight e width.toFloat32).round.toFloat

end SlotGrid.Document
