import SlotGrid.Keyed

/-! # Style sheets

A sheet holds the rules that could be read, and a diagnostic for everything that was dropped. The
declarations of a rule have different properties; declaring a property again replaces its value.
-/

namespace SlotGrid.Style

structure Declaration where
  property : String
  value : String
  /-- The number of the template that the value defines. -/
  template : Option Nat
  deriving DecidableEq, Repr

namespace Declaration

/-- A declaration without a template; its property is in lower case. -/
def of (property value : String) : Declaration := ⟨property.toLower, value, none⟩

def text (d : Declaration) : String := d.property ++ ": " ++ d.value

end Declaration

structure Block where
  toList : List Declaration
  deriving DecidableEq, Repr

namespace Block

def empty : Block := ⟨[]⟩

def add (b : Block) (d : Declaration) : Block := ⟨Keyed.put Declaration.property d b.toList⟩

/-- The declaration of a property in any spelling of its letters. -/
def get? (b : Block) (property : String) : Option Declaration :=
  Keyed.get? Declaration.property property.toLower b.toList

def size (b : Block) : Nat := b.toList.length

end Block

structure Rule where
  selector : String
  declarations : Block
  deriving DecidableEq, Repr

def Rule.text (r : Rule) : String :=
  r.selector ++ " \x7b\n" ++ .join (r.declarations.toList.map fun d => "  " ++ d.text ++ ";\n") ++ "\x7d"

/-- Why a rule or a declaration was dropped; the selector is the part of it that had been read. -/
structure Diagnostic where
  selector : String
  message : String
  deriving DecidableEq, Repr

def Diagnostic.text (d : Diagnostic) : String := d.selector ++ ": " ++ d.message

/-- Elements that a rule places in the slot of a name. -/
structure Position where
  selector : String
  slot : Char
  deriving DecidableEq, Repr

structure Sheet where
  rules : List Rule
  diagnostics : List Diagnostic
  deriving DecidableEq, Repr

namespace Sheet

def empty : Sheet := ⟨[], []⟩

def size (s : Sheet) : Nat := s.rules.length

def text (s : Sheet) : String := "\n".intercalate (s.rules.map Rule.text)

end Sheet

end SlotGrid.Style
