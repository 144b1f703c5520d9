import SlotGrid.Document.Selector
import SlotGrid.Sizing.Grid
import SlotGrid.Style.Sheet

/-! # Placement

A grid gets an element in the first element that its selector selects, and in it an element for each slot;
those that are there already are used again. Placed content then moves into the slot of its name in the nearest
template around it.
-/

namespace SlotGrid.Document

/-- The element of a template within a container. -/
def templateIn? (d : Document) (container : ElementId) (id : String) : Option ElementId :=
  (d.children container).find? fun e =>
    (d.get? e).any fun e => decide (e.role = .template ∧ e.id = some id)

/-- The element of a template, which is created if it is not there. -/
def withTemplate (d : Document) (container : ElementId) (id : String) : Document × ElementId :=
  match d.templateIn? container id with
  | some e => (d, e)
  | none =>
    (d.insertUnder { Element.ofTag "div" with id := some id, role := .template } container, d.nextId)

/-- The element of a slot, which is created if it is not there. -/
def withSlot (d : Document) (template : ElementId) (name : Char) (id : String) : Document × ElementId :=
  match d.slotIn? template name with
  | some e => (d, e)
  | none =>
    let created := d.insertUnder { Element.ofTag "div" with id := some id, role := .slot name } template
    (created.addSlot ⟨template, name, d.nextId⟩, d.nextId)

variable {α : Type}

/-- Gives elements to the slots of a template. -/
def materializeSlots (d : Document) (template : ElementId) :
    List (GridSlot ElementId α) → Document × List (GridSlot ElementId α)
  | [] => (d, [])
  | s :: ss =>
    let (d, e) := d.withSlot template s.name s.id
    let (d, ss) := d.materializeSlots template ss
    (d, { s with element := some e } :: ss)

/-- Gives elements to a grid and its slots. A grid whose selector selects nothing is left as it is. -/
def materialize (d : Document) (g : Grid ElementId α) : Document × Grid ElementId α :=
  match d.queryOne? g.selector with
  | none => (d, g)
  | some container =>
    let (d, e) := d.withTemplate container g.id
    let (d, slots) := d.materializeSlots e g.slots
    (d, { g with element := some e, slots })

def materializeAll (d : Document) : List (Grid ElementId α) → Document × List (Grid ElementId α)
  | [] => (d, [])
  | g :: gs =>
    let (d, g) := d.materialize g
    let (d, gs) := d.materializeAll gs
    (d, g :: gs)

/-- The slot of a name in the first template right below an element that has such a slot. -/
def slotBelow? (d : Document) (name : Char) (e : ElementId) : Option ElementId :=
  (d.children e).findSome? fun child =>
    if (d.get? child).any fun e => decide (e.role = .template) then d.slotIn? child name else none

/-- The slot of a name in the nearest template around an element. -/
def slotAround? (d : Document) (e : ElementId) (name : Char) : Option ElementId :=
  (d.ancestors e).findSome? (d.slotBelow? name)

def isContent (d : Document) (e : ElementId) : Bool :=
  (d.get? e).any fun e => decide (e.role = .content)

/-- Moves an element to the slot of a name; without such a slot around it the element stays. -/
def moveToSlot (d : Document) (name : Char) (e : ElementId) : Document :=
  (d.slotAround? e name).elim d (d.move e)

/-- Moves all content that a position selects. -/
def place (d : Document) (p : Style.Position) : Document :=
  ((d.query p.selector).filter d.isContent).foldl (·.moveToSlot p.slot) d

def placeAll (d : Document) (ps : List Style.Position) : Document := ps.foldl place d

end SlotGrid.Document
