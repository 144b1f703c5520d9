/-! # Elements

The elements of a document are authored content, or were created for a template or for one of its slots.
-/

namespace SlotGrid

/-- Elements are numbered in the order in which they are inserted. -/
structure ElementId where
  index : Nat
  deriving DecidableEq, Repr

inductive Role
  | content
  | template
  | slot (name : Char)
  deriving DecidableEq, Repr

structure Element where
  tag : String
  id : Option String
  classes : List String
  text : String
  /-- The width in pixels, if it is given. -/
  width : Option Float32
  role : Role
  deriving DecidableEq, Repr

namespace Element

/-- A content element with a tag and nothing else. -/
def ofTag (tag : String) : Element := ⟨tag, none, [], "", none, .content⟩

def hasClass (e : Element) (name : String) : Bool := e.classes.contains name

/-- A class is added once. -/
def addClass (e : Element) (name : String) : Element :=
  if e.hasClass name then e else { e with classes := e.classes ++ [name] }

end Element

end SlotGrid
