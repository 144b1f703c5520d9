import SlotGrid.Sizing.Columns

/-! # The height pass

Rows of a given height keep it. The others fit the slots within them; all `*` rows are as tall as the tallest
of them, and rows under a taller slot of several rows grow in proportion to their heights.
-/

namespace SlotGrid

variable {ε α : Type} [Quantity α]

namespace GridSlot

/-- The height of the content at the width of the slot; the empty slot has no content. -/
def contentHeight (m : Measure ε α) (s : GridSlot ε α) : Except SizingError α :=
  if s.isEmpty then .ok 0
  else
    match s.width with
    | none => .error (.noWidth s.name)
    | some width => do return m.contentHeight (← s.elementOrError) width

end GridSlot

/-- A slot with the height of its content. -/
structure Content (ε α : Type) where
  slot : GridSlot ε α
  height : α
  deriving DecidableEq, Repr

namespace Content

/-- The slot with the height that was measured under its name. -/
def find (measured : List (Char × α)) (s : GridSlot ε α) : Except SizingError (Content ε α) :=
  (measured.lookup s.name).elim (.error (.noContent s.name)) fun height => .ok ⟨s, height⟩

def isTall (c : Content ε α) : Bool := decide (1 < c.slot.rowspan)

end Content

namespace GridRow

/-- The height of a row by itself: its own, or that of the tallest slot within it. -/
def naturalHeight (m : Measure ε α) (container : ε) (contents : List (Content ε α)) (index : Nat)
    (r : GridRow α) : α :=
  match r.height with
  | .length l => m.resolve l container
  | _ =>
    Quantity.largest ((contents.filter fun c =>
      c.slot.rowspan = 1 ∧ c.slot.row = index ∧ !c.slot.isEmpty).map Content.height)

end GridRow

/-- Raises all `*` rows to the tallest of them. -/
def levelRows (rows : List (GridRow α)) : List (GridRow α) :=
  let tallest := Quantity.largest ((rows.filter (·.height = .equal)).map GridRow.computed)
  rows.map fun r => if r.height = .equal then { r with computed := tallest } else r

namespace Slot

/-- The rows that a slot lies in. -/
def spannedRows (s : Slot) (rows : List (GridRow α)) : List (GridRow α) :=
  (rows.drop s.row).take s.rowspan

def spannedHeight (s : Slot) (rows : List (GridRow α)) : α :=
  Quantity.total ((s.spannedRows rows).map GridRow.computed)

def SpansRow (s : Slot) (index : Nat) : Prop := s.row ≤ index ∧ index ≤ s.endRow

instance (s : Slot) (index : Nat) : Decidable (s.SpansRow index) := inferInstanceAs (Decidable (_ ∧ _))

/-- The rows after a slot with content of this height is fitted into them. What they lack goes to the rows
that may grow, in proportion to their heights, or evenly when those are all zero. -/
def growRows (s : Slot) (content : α) (rows : List (GridRow α)) : List (GridRow α) :=
  if content ≤ s.spannedHeight rows then rows
  else
    let excess := content - s.spannedHeight rows
    let growing := (s.spannedRows rows).filter (·.height.mayGrow)
    let sum := Quantity.total (growing.map GridRow.computed)
    let portion (h : α) : α := if 0 < sum then excess * h / sum else excess / (growing.length : α)
    rows.mapIdx fun i r =>
      if s.SpansRow i ∧ r.height.mayGrow then { r with computed := r.computed + portion r.computed } else r

end Slot

namespace Content

/-- The height of a slot of several rows right after it is fitted into the rows. -/
def fittedHeight (c : Content ε α) (rows : List (GridRow α)) : α :=
  let spanned := c.slot.spannedHeight rows
  if c.height ≤ spanned then spanned else c.height

/-- Fits one slot of several rows; the others leave the rows as they are. -/
def fit (state : List (GridRow α) × List (Content ε α)) (c : Content ε α) :
    List (GridRow α) × List (Content ε α) :=
  let (rows, done) := state
  if c.isTall then
    (c.slot.growRows c.height rows, done ++ [{ c with slot.height := c.fittedHeight rows }])
  else (rows, done ++ [c])

end Content

namespace GridSlot

/-- The height of a slot in the final rows: that of its row, or that of all its rows if they are taller than
the slot was when it was fitted into them. -/
def settle (rows : List (GridRow α)) (s : GridSlot ε α) : GridSlot ε α :=
  if 1 < s.rowspan then
    if s.height < s.spannedHeight rows then { s with height := s.spannedHeight rows } else s
  else { s with height := (rows[s.row]?.map GridRow.computed).getD 0 }

end GridSlot

namespace Grid

/-- Computes the heights of rows and slots and of the grid from the widths of its slots. -/
def sizeRows (m : Measure ε α) (g : Grid ε α) : Except SizingError (Grid ε α) := do
  let container ← g.elementOrError
  let measured ← g.slots.mapM fun s => return (s.name, ← s.contentHeight m)
  let contents ← g.slots.mapM (Content.find measured)
  g.slots.forM (·.requireRows g.rows.length)
  let natural := g.rows.mapIdx fun i r => { r with computed := r.naturalHeight m container contents i }
  let (grown, fitted) := contents.foldl Content.fit (levelRows natural, [])
  let rows := levelRows grown
  return { g with
    rows
    slots := fitted.map fun c => c.slot.settle rows
    height := Quantity.total (rows.map GridRow.computed) }

end Grid

end SlotGrid
