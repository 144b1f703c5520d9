import SlotGrid.Sizing.Quantity

/-! # Widening columns

The available width is shared equally among the columns. A column that prefers less than its share is pinned
at the width it prefers, and the others share what is left, until no column prefers less.
-/

namespace SlotGrid.Widening

variable {α : Type} [Quantity α]

/-- A column by the width it prefers, and whether it is pinned at it. -/
structure Column (α : Type) where
  preferred : α
  pinned : Bool
  deriving DecidableEq, Repr

def pinnedTotal (cs : List (Column α)) : α :=
  Quantity.total ((cs.filter Column.pinned).map Column.preferred)

def expandable (cs : List (Column α)) : Nat := cs.countP (!·.pinned)

/-- What each column that is not pinned would get. -/
def share (available : α) (cs : List (Column α)) : α := (available - pinnedTotal cs) / (expandable cs : α)

/-- Whether a column has to be pinned, because it prefers less than its share. -/
def isNarrow (share : α) (c : Column α) : Bool := !c.pinned && decide (c.preferred < share)

def pin (share : α) (c : Column α) : Column α := if isNarrow share c then { c with pinned := true } else c

/-- The widths when at most this many rounds are allowed. -/
def rounds? (available : α) : Nat → List (Column α) → Option (List α)
  | 0, _ => none
  | n + 1, cs =>
    if expandable cs = 0 then some (cs.map Column.preferred)
    else
      let s := share available cs
      if cs.any (isNarrow s) then rounds? available n (cs.map (pin s))
      else some (cs.map fun c => if c.pinned then c.preferred else s)

/-- The widths of columns that prefer these widths. -/
def widen? (preferred : List α) (available : α) (cap : Nat) : Option (List α) :=
  rounds? available cap (preferred.map (⟨·, false⟩))

end SlotGrid.Widening
