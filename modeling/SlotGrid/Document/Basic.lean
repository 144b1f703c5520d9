import SlotGrid.Config
import SlotGrid.Document.Element
import SlotGrid.Keyed

/-! # Documents

A document is a forest of elements with the style texts found beside them. All links from elements to their
parents are in one list, in the order in which they were made, which is also the order of the children of an
element. What the layout finds out about elements is kept with the document.
-/

namespace SlotGrid

structure Link where
  child : ElementId
  parent : ElementId
  deriving DecidableEq, Repr

/-- The element that stands for a slot of a template element. -/
structure SlotEntry where
  template : ElementId
  name : Char
  element : ElementId
  deriving DecidableEq, Repr

structure Document where
  elements : List Element
  links : List Link
  slots : List SlotEntry
  /-- Regions relative to the parent. -/
  regions : List (ElementId × Region Float32)
  /-- The widths of the slot elements that were sized. -/
  slotWidths : List (ElementId × Float32)
  styles : List String
  metrics : TextMetrics
  viewport : Size Float32
  deriving DecidableEq, Repr

namespace Document

def empty (config : Config) : Document :=
  { elements := []
    links := []
    slots := []
    regions := []
    slotWidths := []
    styles := []
    metrics := config.metrics
    viewport := config.viewport }

def size (d : Document) : Nat := d.elements.length

def get? (d : Document) (e : ElementId) : Option Element := d.elements[e.index]?

/-- The first element that was inserted. -/
def root? (d : Document) : Option ElementId := if d.elements.isEmpty then none else some ⟨0⟩

def parent? (d : Document) (e : ElementId) : Option ElementId :=
  (Keyed.get? Link.child e d.links).map Link.parent

def children (d : Document) (e : ElementId) : List ElementId :=
  (d.links.filter (·.parent = e)).map Link.child

/-! ## Changes -/

/-- The id of the next element. -/
def nextId (d : Document) : ElementId := ⟨d.size⟩

/-- Adds an element without a parent. -/
def insert (d : Document) (e : Element) : Document := { d with elements := d.elements ++ [e] }

def attach (d : Document) (e parent : ElementId) : Document := { d with links := d.links ++ [⟨e, parent⟩] }

def detach (d : Document) (e : ElementId) : Document := { d with links := d.links.filter (·.child ≠ e) }

/-- Adds an element as the last child of another. -/
def insertUnder (d : Document) (e : Element) (parent : ElementId) : Document :=
  (d.insert e).attach d.nextId parent

/-- Moves an element with all below it to the end of the children of another. -/
def move (d : Document) (e parent : ElementId) : Document := (d.detach e).attach e parent

def modify (d : Document) (e : ElementId) (f : Element → Element) : Document :=
  { d with elements := d.elements.modify e.index f }

def addStyle (d : Document) (text : String) : Document := { d with styles := d.styles ++ [text] }

/-- All style texts, each on lines of its own. -/
def joinedStyles (d : Document) : String := "\n".intercalate d.styles

theorem parent?_insert (d : Document) (x : Element) (e : ElementId) : (d.insert x).parent? e = d.parent? e := rfl

theorem children_insert (d : Document) (x : Element) (e : ElementId) :
    (d.insert x).children e = d.children e := rfl

theorem parent?_detach (d : Document) (e x : ElementId) :
    (d.detach e).parent? x = if x = e then none else d.parent? x := by
  unfold parent? detach Keyed.get?
  rw [List.find?_filter]
  split
  · rename_i h
    subst h
    rw [List.find?_eq_none.mpr (by simp)]
    rfl
  · rename_i h
    congr 2
    funext l
    by_cases hl : l.child = x <;> simp [hl, h]

theorem parent?_attach (d : Document) (e parent x : ElementId) :
    (d.attach e parent).parent? x = (d.parent? x).or (if x = e then some parent else none) := by
  unfold parent? attach Keyed.get?
  rw [List.find?_append]
  cases d.links.find? (fun l => decide (l.child = x)) with
  | some l => rfl
  | none =>
    by_cases h : x = e
    · simp [h]
    · have h' : e ≠ x := fun he => h he.symm
      simp [h, h']

/-- Moving an element changes no other parent. -/
theorem parent?_move (d : Document) (e parent x : ElementId) :
    (d.move e parent).parent? x = if x = e then some parent else d.parent? x := by
  unfold move
  rw [parent?_attach, parent?_detach]
  by_cases h : x = e <;> simp [h]

theorem children_detach (d : Document) (e x : ElementId) :
    (d.detach e).children x = (d.children x).filter (· ≠ e) := by
  unfold children detach
  rw [List.filter_filter, List.filter_map, List.filter_filter]
  congr 2
  funext l
  exact Bool.and_comm ..

theorem children_attach (d : Document) (e parent x : ElementId) :
    (d.attach e parent).children x = d.children x ++ if parent = x then [e] else [] := by
  unfold children attach
  rw [List.filter_append, List.map_append]
  by_cases h : parent = x <;> simp [h]

/-- Moving an element takes it out of one list of children and puts it at the end of another. -/
theorem children_move (d : Document) (e parent x : ElementId) :
    (d.move e parent).children x = (d.children x).filter (· ≠ e) ++ if parent = x then [e] else [] := by
  unfold move
  rw [children_attach, children_detach]

/-! ## Traversal

No path in a forest is longer than there are elements, so the number of elements bounds every recursion along
the links.
-/

/-- The next `depth` elements above an element. -/
def ancestorsWithin (d : Document) : Nat → ElementId → List ElementId
  | 0, _ => []
  | depth + 1, e => (d.parent? e).elim [] fun p => p :: d.ancestorsWithin depth p

/-- The elements above an element, nearest first. -/
def ancestors (d : Document) (e : ElementId) : List ElementId := d.ancestorsWithin d.size e

/-- Folds the elements down to `depth` levels below an element. -/
def foldWithin {α : Type} (d : Document) (f : ElementId → List α → α) : Nat → ElementId → α
  | 0, e => f e []
  | depth + 1, e => f e ((d.children e).map (d.foldWithin f depth))

/-- Folds an element with all below it: `f` is given an element and the results for its children. -/
def fold {α : Type} (d : Document) (f : ElementId → List α → α) (e : ElementId) : α := d.foldWithin f d.size e

/-- An element and all below it, in the order in which a text would show them. -/
def walk (d : Document) (e : ElementId) : List ElementId := d.fold (fun e below => e :: below.flatten) e

/-- All elements that are linked to the root. -/
def tree (d : Document) : List ElementId := d.root?.elim [] d.walk

/-! ## Layout results -/

def slotIn? (d : Document) (template : ElementId) (name : Char) : Option ElementId :=
  (d.slots.find? fun s => s.template = template ∧ s.name = name).map SlotEntry.element

def addSlot (d : Document) (s : SlotEntry) : Document := { d with slots := d.slots ++ [s] }

def region? (d : Document) (e : ElementId) : Option (Region Float32) := d.regions.lookup e

def setRegion (d : Document) (e : ElementId) (r : Region Float32) : Document :=
  { d with regions := Keyed.put Prod.fst (e, r) d.regions }

def slotWidth? (d : Document) (e : ElementId) : Option Float32 := d.slotWidths.lookup e

def setSlotWidth (d : Document) (e : ElementId) (w : Float32) : Document :=
  { d with slotWidths := Keyed.put Prod.fst (e, w) d.slotWidths }

end Document

end SlotGrid
