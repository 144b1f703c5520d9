import SlotGrid.Style.Reader

/-! # Selectors of rules

A selector is read for its form only and kept as text: names are decoded, and where spaces and comments do
not matter they are left out. The text is written while the selector is read, so that a diagnostic can show
the part before an error.
-/

namespace SlotGrid.Style.Reader

/-- A type name or an asterisk. -/
def typeOrUniversal : Reader Bool := do
  match ← name? with
  | some name => write name; advance; return true
  | none =>
    if (← kind) = .punct .asterisk then write "*"; advance; return true
    else return false

/-- The part of an attribute selector after the name: an operator and a word or a quoted text. -/
def attributeValue : Reader Unit := do
  writeChars (← lexeme)
  advance
  discard skipSpace
  match ← kind with
  | .string value => write "\""; write value; write "\""; advance
  | _ => write (← expectName "attribute value")
  discard skipSpace

def attributeTest : Reader Unit := do
  advance
  write "["
  discard skipSpace
  write (← expectName "attribute name")
  discard skipSpace
  if (← kind).isMatcher then attributeValue
  expect (.delim ']') "']'"
  write "]"

/-- Whether an item is a term of an expression. -/
def isTerm : Reader Bool := do
  match ← kind with
  | .punct .plus | .delim '-' | .dimension _ _ | .number _ | .string _ => return true
  | _ => return (← name?).isSome

/-- The terms between the parentheses of a pseudo-class. -/
def expression : Reader Unit := do
  let terms ← collect do
    if ← isTerm then
      writeChars (← lexeme)
      advance
      discard skipSpace
      return some ()
    else return none
  if terms.isEmpty then unexpected "expression"

def pseudo : Reader Unit := do
  advance
  write ":"
  if (← kind) = .punct .colon then
    advance
    write ":"
  match ← kind with
  | .function name =>
    write name
    write "("
    advance
    discard skipSpace
    expression
    expect (.punct .rightParen) "')'"
    write ")"
  | _ => write (← expectName "pseudo-class name")

/-- One id, class, attribute or pseudo-class. -/
def qualifier : Reader Bool := do
  match ← kind with
  | .hash name => write "#"; write name; advance; return true
  | .punct .period =>
    advance
    let name ← expectName "class name"
    write "."
    write name
    return true
  | .delim '[' => attributeTest; return true
  | .punct .colon => pseudo; return true
  | _ => return false

def negation : Reader Unit := do
  advance
  write ":not("
  discard skipSpace
  if !(← typeOrUniversal) then
    if !(← qualifier) then unexpected "negation argument"
  discard skipSpace
  expect (.punct .rightParen) "')'"
  write ")"

/-- A compound selector, of at least one part. -/
def compound : Reader Unit := do
  let typed ← typeOrUniversal
  let parts ← collect do
    if (← kind) = .negation then negation; return some ()
    else if ← qualifier then return some ()
    else return none
  if !typed && parts.isEmpty then unexpected "selector"

/-- Whether a compound selector can start at the current item. -/
def startsCompound : Reader Bool := do
  match ← kind with
  | .punct .asterisk | .hash _ | .punct .period | .delim '[' | .punct .colon | .negation => return true
  | _ => return (← name?).isSome

/-- Compound selectors joined by combinators. A space joins two of them, but means nothing elsewhere. -/
def selector : Reader Unit := do
  compound
  loop do
    let spaced ← skipSpace
    if (← kind).isCombinator then
      write " "
      writeChars (← lexeme)
      write " "
      advance
      discard skipSpace
      compound
      return true
    else if spaced && (← startsCompound) then
      write " "
      compound
      return true
    else return false

/-- Selectors with commas between them. -/
def selectors : Reader Unit := do
  selector
  loop do
    if (← kind) = .punct .comma then
      advance
      discard skipSpace
      write ", "
      selector
      return true
    else return false

end SlotGrid.Style.Reader
