/-! # Classes of characters in style text

The lexer decides by these five classes which characters a name, a number, a blank or an address may hold.
Characters from U+00A0 on belong to names and addresses; the controls from U+0080 to U+009F belong nowhere.
-/

namespace SlotGrid.Style

def isForeign (c : Char) : Bool := decide (0xa0 ≤ c.toNat)

def isHexDigit (c : Char) : Bool :=
  c.isDigit || decide ('a' ≤ c ∧ c ≤ 'f') || decide ('A' ≤ c ∧ c ≤ 'F')

/-- A backslash may start a name, as the first character of an escape. -/
def isNameStart (c : Char) : Bool := c.isAlpha || c == '_' || c == '\\' || isForeign c

def isNameChar (c : Char) : Bool := c.isAlphanum || c == '-' || c == '_' || isForeign c

def isSpace (c : Char) : Bool :=
  c == ' ' || c == '\t' || c == '\n' || c == '\r' || c == '\x0c'

/-- The characters that an address holds without quotes, and a quoted text without escapes. -/
def isUrlChar (c : Char) : Bool :=
  decide ('!' ≤ c ∧ c ≤ '~') && !(['"', '\'', '(', ')', '\\'].contains c) || isForeign c

def isLineBreak (c : Char) : Bool := c == '\n' || c == '\r' || c == '\x0c'

/-- The classes of a character as one number, a bit for each class. -/
def classBits (c : Char) : Nat :=
  (isHexDigit c).toNat + 2 * (isNameStart c).toNat + 4 * (isNameChar c).toNat + 8 * (isSpace c).toNat +
    16 * (isUrlChar c).toNat

/-- The value of a hexadecimal digit. -/
def hexValue (c : Char) : Nat :=
  if c.isDigit then c.toNat - '0'.toNat
  else if 'a' ≤ c then c.toNat - 'a'.toNat + 10
  else c.toNat - 'A'.toNat + 10

def hexNumber (ds : List Char) : Nat := ds.foldl (fun n d => 16 * n + hexValue d) 0

end SlotGrid.Style
