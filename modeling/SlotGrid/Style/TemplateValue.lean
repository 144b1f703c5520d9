import SlotGrid.Style.Reader

/-! # Definitions of templates

The value of `display` defines a template when it starts with a quoted text: a quoted text for each row, each
with a height behind a slash if it is not `auto`, and then the widths of columns.
-/

namespace SlotGrid.Style.Reader

/-- The length that a token gives: a dimension, a percentage or a zero without unit. -/
def lengthOf? : TokenKind → Option (Except TemplateError Length)
  | .dimension value unit => some (Length.ofUnit value unit)
  | .percentage value => some (Length.ofUnit value "%")
  | .number value =>
    if value == 0 then some (.ok .zero)
    else if value < 0 then some (.error (.negativeLength value))
    else none
  | _ => none

def length (expected : String) : Reader Length := do
  match lengthOf? (← kind) with
  | some (.ok l) => advance; return l
  | some (.error e) => throw (.template e)
  | none => unexpected expected

def rowHeight : Reader Height := do
  match ← kind with
  | .keyword .auto => advance; return .auto
  | .punct .asterisk => advance; return .equal
  | _ => return .length (← length "row height")

/-- The two lengths of `minmax` after the opening parenthesis. -/
def minMaxLengths : Reader Width := do
  discard skipSpace
  let low ← length "minimum width"
  discard skipSpace
  expect (.punct .comma) "','"
  discard skipSpace
  let high ← length "maximum width"
  discard skipSpace
  expect (.punct .rightParen) "')'"
  return .minMax low high

def columnWidth : Reader Width := do
  match ← kind with
  | .punct .asterisk => advance; return .equal
  | .keyword .minContent => advance; return .minContent
  | .keyword .maxContent => advance; return .maxContent
  | .keyword .fitContent => advance; return .fitContent
  | .keyword .minMax =>
    advance
    discard skipSpace
    expect (.punct .leftParen) "'('"
    minMaxLengths
  | .function name =>
    if name.toLower = "minmax" then
      advance
      minMaxLengths
    else return .length (← length "column width")
  | _ => return .length (← length "column width")

/-- A quoted row, if there is one. -/
def row? : Reader (Option Row) := do
  match ← kind with
  | .string text =>
    advance
    discard skipSpace
    if (← kind) = .delim '/' then
      advance
      discard skipSpace
      let height ← rowHeight
      discard skipSpace
      return some (.ofText text height)
    else return some (.ofText text .auto)
  | _ => return none

/-- A column width, unless the declaration ends. -/
def columnWidth? : Reader (Option Width) := do
  if (← kind).endsDeclaration then return none
  else
    let width ← columnWidth
    discard skipSpace
    return some width

/-- The rows and column widths up to the end of the declaration. -/
def templateDefinition : Reader (List Row × List Width) :=
  return (← collect row?, ← collect columnWidth?)

end SlotGrid.Style.Reader
