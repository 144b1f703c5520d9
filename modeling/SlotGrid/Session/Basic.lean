import SlotGrid.Document.Element
import SlotGrid.Sizing.Grid
import SlotGrid.Style.Parse

/-! # Sessions

A session collects the templates and the placed elements of the texts that it parses. A template gets its id
from its number when it is registered.
-/

namespace SlotGrid

structure Session where
  config : Config
  grids : List (Grid ElementId Float)
  positions : List Style.Position
  deriving DecidableEq, Repr

namespace Session

def new (config : Config) : Session := ⟨config, [], []⟩

/-- Forgets all that was registered. -/
def clear (s : Session) : Session := { s with grids := [], positions := [] }

def register (s : Session) (t : Template) : Session :=
  let g := (Grid.ofTemplate t).named (s.config.templateId s.grids.length) s.config.slotInfix
  { s with grids := s.grids ++ [g] }

/-- Parses a text and registers what it adds. -/
def parse (s : Session) (text : String) : Style.Sheet × Session :=
  let parsed := Style.parse s.grids.length text
  let s := parsed.templates.foldl register s
  (parsed.sheet, { s with positions := s.positions ++ parsed.positions })

end Session

end SlotGrid
