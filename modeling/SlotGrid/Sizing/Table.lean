import SlotGrid.Sizing.Grid

/-! # Measures from tables

A table lists the extents and heights of the contents of a grid, so that a grid can be sized without a
document. A content that is not listed has no size.
-/

namespace SlotGrid

/-- The element of a grid with a number, or of the slot of a name in it. -/
structure TableElement where
  grid : Nat
  slot : Option Char
  deriving DecidableEq, Repr

structure TableEntry where
  extent : Extent Float
  /-- The height for every width up to a limit; the last holds for all greater widths. -/
  heights : List (Float × Float)
  deriving DecidableEq, Repr

namespace TableEntry

def none : TableEntry := ⟨⟨0, 0⟩, []⟩

def heightAt (e : TableEntry) (width : Float) : Float :=
  match e.heights.find? (width ≤ ·.1) with
  | some (_, height) => height
  | .none => (e.heights.getLast?.map Prod.snd).getD 0

end TableEntry

structure Table where
  available : Float
  slots : List (Char × TableEntry)
  deriving DecidableEq, Repr

namespace Table

def empty : Table := ⟨0, []⟩

def entry (t : Table) (name : Char) : TableEntry := ((t.slots.lookup name).getD .none)

def setEntry (t : Table) (name : Char) (e : TableEntry) : Table :=
  { t with slots := Keyed.put Prod.fst (name, e) t.slots }

/-- The measure that the tables of several grids give, with a factor for every unit. -/
def measure (tables : List Table) (factor : LengthUnit → Float) : Measure TableElement Float where
  available e := (tables.getD e.grid empty).available
  resolve l e := l.value * if l.unit = .percent then (tables.getD e.grid empty).available / 100 else factor l.unit
  preferred e := (e.slot.map (tables.getD e.grid empty).entry).elim 0 (·.extent.preferred)
  minimum e := (e.slot.map (tables.getD e.grid empty).entry).elim 0 (·.extent.minimum)
  contentHeight e width := (e.slot.map (tables.getD e.grid empty).entry).elim 0 (·.heightAt width)

end Table

namespace Grid

variable {α : Type}

/-- The grid with table elements for itself and for all slots but the `detached` ones. -/
def attach (number : Nat) (detached : List Char) (g : Grid TableElement α) : Grid TableElement α :=
  { g with
    element := some ⟨number, none⟩
    slots := g.slots.map fun s =>
      if detached.contains s.name then s else { s with element := some ⟨number, some s.name⟩ } }

end Grid

end SlotGrid
