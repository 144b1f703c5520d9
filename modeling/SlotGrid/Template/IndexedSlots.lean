import SlotGrid.Template.Slot

/-! # Slots with an index

The slots are kept in a list, and the position of each in a table of names, so that a slot is found by its name
without a search. A position in the table that the list does not reach is an error.
-/

namespace SlotGrid

/-- The slot after it was offered a cell. If it refuses the cell, it stays as it is. -/
def Slot.offer (s : Slot) (row column : Nat) : Slot := (s.expand row column).toOption.getD s

/-- What is done to a collection of slots: one is inserted, or the slot of a name is offered a cell. -/
inductive SlotEdit where
  | insert (s : Slot)
  | expand (name : Char) (row column : Nat)
  deriving DecidableEq, Repr

/-- The slots stay as they are if there is none of the name, or if it refuses the cell. -/
def Slots.edit (ss : Slots) : SlotEdit → Slots
  | .insert s => ss.insert s
  | .expand name row column => (ss.get? name).elim ss fun s => (ss.expand s row column).toOption.getD ss

/-- A position that is not in the list of slots. -/
structure OutOfSlots where
  position : Nat
  deriving DecidableEq, Repr

structure IndexedSlots where
  toList : List Slot
  /-- The positions of the slots by their names. -/
  index : List (Char × Nat)
  deriving DecidableEq, Repr

namespace IndexedSlots

def empty : IndexedSlots := ⟨[], []⟩

/-- The slots without the index. -/
def toSlots (ss : IndexedSlots) : Slots := ⟨ss.toList⟩

def names (ss : IndexedSlots) : List Char := ss.toList.map Slot.name

def size (ss : IndexedSlots) : Nat := ss.toList.length

def position? (ss : IndexedSlots) (name : Char) : Option Nat := (Keyed.get? Prod.fst name ss.index).map Prod.snd

def contains (ss : IndexedSlots) (name : Char) : Bool := (ss.position? name).isSome

def slotAt (ss : IndexedSlots) (i : Nat) : Except OutOfSlots Slot := ss.toList[i]?.elim (.error ⟨i⟩) .ok

def replaceAt (ss : IndexedSlots) (i : Nat) (s : Slot) : Except OutOfSlots IndexedSlots :=
  if i < ss.size then .ok { ss with toList := ss.toList.set i s } else .error ⟨i⟩

def get? (ss : IndexedSlots) (name : Char) : Except OutOfSlots (Option Slot) :=
  match ss.position? name with
  | some i => some <$> ss.slotAt i
  | none => .ok none

/-- A slot of the same name is replaced where it stands. -/
def insert (ss : IndexedSlots) (s : Slot) : Except OutOfSlots IndexedSlots :=
  match ss.position? s.name with
  | some i => ss.replaceAt i s
  | none => .ok ⟨ss.toList ++ [s], Keyed.put Prod.fst (s.name, ss.size) ss.index⟩

/-- Changes the slot of a name where it stands. -/
def modify (ss : IndexedSlots) (name : Char) (f : Slot → Slot) : Except OutOfSlots IndexedSlots :=
  match ss.position? name with
  | some i => do ss.replaceAt i (f (← ss.slotAt i))
  | none => .ok ss

def edit (ss : IndexedSlots) : SlotEdit → Except OutOfSlots IndexedSlots
  | .insert s => ss.insert s
  | .expand name row column => ss.modify name (·.offer row column)

end IndexedSlots

end SlotGrid
