import SlotGrid.Geometry

/-! # Settings -/

namespace SlotGrid

/-- How text is measured; all characters are equally wide. -/
structure TextMetrics where
  charWidth : Float32
  lineHeight : Float32
  /-- The size of one `em`. -/
  fontSize : Float32
  deriving DecidableEq, Repr

structure Config where
  /-- Ids of templates are this text followed by a number. -/
  templatePrefix : String
  /-- Ids of slots are the id of the template, this text and the name of the slot. -/
  slotInfix : String
  wideningRounds : Nat
  metrics : TextMetrics
  viewport : Size Float32
  deriving DecidableEq, Repr

namespace Config

def standard : Config :=
  { templatePrefix := "tpl"
    slotInfix := "slot"
    wideningRounds := 30
    metrics := ⟨8, 16, 16⟩
    viewport := ⟨1024, 768⟩ }

/-- How many rounds of widening are allowed; never fewer than one more than there are columns. -/
def roundLimit (c : Config) (columns : Nat) : Nat := max c.wideningRounds (columns + 1)

/-- The id of the template with a number, counted from 0. -/
def templateId (c : Config) (index : Nat) : String := c.templatePrefix ++ toString (index + 1)

end Config

/-- The id of a slot of a template. -/
def slotId (templateId slotInfix : String) (name : Char) : String :=
  templateId ++ "_" ++ slotInfix ++ "_" ++ name.toString

/-- Settings of the log. -/
structure Logging where
  filter : Option String
  forTests : Bool
  deriving DecidableEq, Repr

def Logging.standard : Logging := ⟨none, false⟩

end SlotGrid
