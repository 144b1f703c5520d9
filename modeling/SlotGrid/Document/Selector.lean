import SlotGrid.Document.Basic
import SlotGrid.Text.Alphanumeric
import SlotGrid.Text.Blank

/-! # Selecting elements

Templates and placed elements find their elements by types, ids and classes, which descendant and child
combinators join; commas separate alternatives. A text with anything else in it selects nothing.
-/

namespace SlotGrid.Document

/-- What is asked of one element. -/
structure Compound where
  /-- In lower case. -/
  tag : Option String
  id : Option String
  classes : List String
  deriving DecidableEq, Repr

namespace Compound

/-- Asks nothing. -/
def universal : Compound := ⟨none, none, []⟩

def holds (c : Compound) (e : Element) : Bool :=
  c.tag.all (· = e.tag.toLower) && c.id.all (e.id = some ·) && c.classes.all e.hasClass

def isNameChar (c : Char) : Bool := Text.isAlphanumeric c || c == '-' || c == '_'

/-- A mark starts the name of an id or of a class. -/
def isMark (c : Char) : Bool := c == '#' || c == '.'

/-- The text before the first mark, and the marked names. -/
def segments : List Char → List Char × List (Char × List Char)
  | [] => ([], [])
  | c :: cs =>
    let (name, marked) := segments cs
    if isMark c then ([], (c, name) :: marked) else (c :: name, marked)

def readTag? (name : List Char) : Option (Option String) :=
  if name = [] ∨ name = ['*'] then some none
  else if name.all isNameChar then some (some (String.ofList name).toLower)
  else none

/-- Of several ids the last one counts. -/
def readMarked? (c : Compound) : Char × List Char → Option Compound
  | (mark, name) =>
    if name = [] ∨ !name.all isNameChar then none
    else if mark = '#' then some { c with id := some (String.ofList name) }
    else some { c with classes := c.classes ++ [String.ofList name] }

def read? (word : List Char) : Option Compound := do
  let (name, marked) := segments word
  marked.foldlM readMarked? { universal with tag := ← readTag? name }

end Compound

/-- Compounds for an element and for elements above it. -/
inductive Chain
  | compound (c : Compound)
  | child (outer : Chain) (c : Compound)
  | descendant (outer : Chain) (c : Compound)
  deriving DecidableEq, Repr

namespace Chain

def holds (d : Document) : Chain → ElementId → Bool
  | compound c, e => (d.get? e).any c.holds
  | child outer c, e => (d.get? e).any c.holds && (d.parent? e).any (holds d outer)
  | descendant outer c, e => (d.get? e).any c.holds && (d.ancestors e).any (holds d outer)

/-- Reads the rest of a chain; after a child sign `isChild` is true. -/
def extend? : Chain → Bool → List (List Char) → Option Chain
  | outer, isChild, [] => if isChild then none else some outer
  | outer, isChild, word :: words =>
    if word = ['>'] then extend? outer true words
    else do
      let c ← Compound.read? word
      extend? (if isChild then child outer c else descendant outer c) false words

/-- The words of a chain; a child sign is a word wherever it stands. -/
def words (cs : List Char) : List (List Char) :=
  Text.words (cs.flatMap fun c => if c = '>' then [' ', '>', ' '] else [c])

def read? (cs : List Char) : Option Chain :=
  match words cs with
  | [] => none
  | word :: rest => do extend? (compound (← Compound.read? word)) false rest

/-- The parts of a text between commas. -/
def alternatives : List Char → List (List Char)
  | [] => [[]]
  | c :: cs =>
    match alternatives cs with
    | part :: parts => if c = ',' then [] :: part :: parts else (c :: part) :: parts
    | [] => [[c]]

/-- The chains of a selector, if all of them can be read. -/
def readAll? (selector : String) : Option (List Chain) := (alternatives selector.toList).mapM read?

end Chain

/-- The selected elements in the order of the document. -/
def query (d : Document) (selector : String) : List ElementId :=
  (Chain.readAll? selector).elim [] fun chains => d.tree.filter fun e => chains.any (·.holds d e)

def queryOne? (d : Document) (selector : String) : Option ElementId := (d.query selector).head?

end SlotGrid.Document
