import SlotGrid.Style.Selector
import SlotGrid.Style.TemplateValue

/-! # Reading style sheets

A rule that cannot be read is dropped up to the brace that closes it, and a template that cannot be built
drops only its own declaration. Either leaves a diagnostic.
-/

namespace SlotGrid.Style

namespace Stream

/-- What follows the closing brace of a rule of which `depth` braces are open. -/
def skipRule : Nat → Stream → Stream
  | _, [] => []
  | depth, i :: rest =>
    match i.kind with
    | .punct .leftBrace => skipRule (depth + 1) rest
    | .punct .rightBrace => if depth ≤ 1 then rest else skipRule (depth - 1) rest
    | _ => skipRule depth rest

/-- What follows an at-rule: a semicolon outside of braces, or a block, ends it. -/
def skipAtRule : Nat → Stream → Stream
  | _, [] => []
  | depth, i :: rest =>
    match i.kind with
    | .punct .semicolon => if depth = 0 then rest else skipAtRule depth rest
    | .punct .leftBrace => skipAtRule (depth + 1) rest
    | .punct .rightBrace => if depth ≤ 1 then rest else skipAtRule (depth - 1) rest
    | _ => skipAtRule depth rest

/-- The items up to the end of the declaration. -/
def declarationItems (s : Stream) : List Item := s.takeWhile (!·.kind.endsDeclaration)

def skipDeclaration (s : Stream) : Stream := s.dropWhile (!·.kind.endsDeclaration)

end Stream

/-- The text of a value: lexemes without comments, one space for every run of spaces, and none at the ends. -/
def valueText (items : List Item) : String := .ofList (Text.trim (items.flatMap Item.valueText))

namespace Progress

def start (stream : Stream) : Progress := ⟨stream, "", 0, .empty, .empty, [], []⟩

def declare (p : Progress) (d : Declaration) : Progress := { p with declarations := p.declarations.add d }

/-- Records that something was dropped from the rule being read. -/
def report (p : Progress) (e : SyntaxError) : Progress :=
  { p with sheet.diagnostics := p.sheet.diagnostics ++ [⟨p.selector, e.message⟩] }

/-- Skips the rest of the rule that could not be read. -/
def recover (p : Progress) : Progress := { p with stream := p.stream.skipRule p.depth, depth := 0 }

/-- A name of one character places the elements of the rule in the slot of that name. -/
def place (p : Progress) (items : List Item) : Progress :=
  match items.filter (·.kind ≠ .space) with
  | [i] =>
    match i.name?.map String.toList with
    | some [slot] => { p with positions := p.positions ++ [⟨p.selector, slot⟩] }
    | _ => p
  | _ => p

end Progress

namespace Reader

/-- An item of a value. Tells whether the value goes on; it holds no opening brace. -/
def valueItem : Reader Bool := do
  match ← kind with
  | .punct .leftBrace => unexpected "declaration value"
  | k =>
    if k.endsDeclaration then return false
    else advance; return true

/-- The items of a value. -/
def value : Reader (List Item) := do
  let items := (← get).stream.declarationItems
  loop valueItem
  return items

/-- A declaration of `display` that defines a template. It counts `registered` templates before the sheet. -/
def templateDeclaration (registered : Nat) : Reader Unit := fun p =>
  let css := valueText p.stream.declarationItems
  match templateDefinition p with
  | .error e q =>
    let q := q.report e
    .ok () { q with stream := q.stream.skipDeclaration }
  | .ok (rows, widths) q =>
    match Template.ofRows q.selector css rows widths with
    | .error e => .ok () (q.report (.template e))
    | .ok t =>
      let q := { q with templates := q.templates ++ [t] }
      .ok () (q.declare { Declaration.of "display" css with template := some (registered + p.templates.length) })

/-- The property that is declared, in lower case, and the colon behind it. -/
def property : Reader String := do
  let name ← expectName "property name"
  discard skipSpace
  expect (.punct .colon) "':'"
  discard skipSpace
  return name.toLower

def declaration (registered : Nat) : Reader Unit := do
  match ← property, ← kind with
  | "display", .string _ => templateDeclaration registered
  | name, _ =>
    let items ← value
    if name = "position" then modify (·.place items)
    modify (·.declare (.of name (valueText items)))

/-- A declaration or a semicolon in a block, or the brace that closes the block. Tells whether the block goes
on. -/
def blockItem (registered : Nat) : Reader Bool := do
  discard skipSpace
  match ← kind with
  | .punct .rightBrace => advance; return false
  | .punct .semicolon => advance; return true
  | .endOfInput => return false
  | _ => declaration registered; return true

/-- A rule. A block that the end of the text leaves open is still a block. -/
def rule (registered : Nat) : Reader Rule := do
  selectors
  expect (.punct .leftBrace) "'\x7b'"
  modify ({ · with depth := 1 })
  loop (blockItem registered)
  return ⟨(← get).selector, (← get).declarations⟩

/-- Spaces and comment marks between rules. -/
def skipNoise : Reader Unit :=
  loop do
    match ← kind with
    | .space | .commentOpen | .commentClose => advance; return true
    | _ => return false

/-- The next rule or at-rule; none at the end of the text. -/
def rule? (registered : Nat) : Reader (Option Rule) := do
  skipNoise
  match ← kind with
  | .endOfInput => return none
  | .atKeyword _ =>
    modify fun p => { p with stream := p.stream.skipAtRule 0 }
    return none
  | _ => return some (← rule registered)

end Reader

/-- Reads the next rule, or drops it with a diagnostic. -/
def Progress.step (registered : Nat) (p : Progress) : Progress :=
  match Reader.rule? registered { p with selector := "", depth := 0, declarations := .empty } with
  | .ok (some r) q => { q with sheet.rules := q.sheet.rules ++ [r] }
  | .ok none q => q
  | .error e q => (q.report e).recover

/-- Reads rules to the end of the text. -/
def Progress.finish (registered : Nat) (p : Progress) : Progress :=
  let q := p.step registered
  if q.stream.length < p.stream.length then q.finish registered else q
termination_by p.stream.length

/-- What a text adds to a session: a sheet, the templates it defines and the elements it places. -/
structure Parsed where
  sheet : Sheet
  templates : List Template
  positions : List Position
  deriving DecidableEq, Repr

/-- Reads a text as a style sheet; its templates are numbered after those `registered` before. -/
def parse (registered : Nat) (text : String) : Parsed :=
  let p := (Progress.start (.ofText text)).finish registered
  ⟨p.sheet, p.templates, p.positions⟩

end SlotGrid.Style
