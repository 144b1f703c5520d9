import SlotGrid.Text.Hidden

/-! # Quoted texts

A quoted text shows every character of its content: the quote itself, the backslash and the usual controls
have short escapes, and every other hidden character is written by its code point.
-/

namespace SlotGrid.Text

/-- The content character `c` between two `quote`s. -/
def escape (quote c : Char) : List Char :=
  match c with
  | '\x00' => ['\\', '0']
  | '\t' => ['\\', 't']
  | '\r' => ['\\', 'r']
  | '\n' => ['\\', 'n']
  | '\\' => ['\\', '\\']
  | _ =>
    if c = quote then ['\\', c]
    else if isHidden c then '\\' :: 'u' :: '\x7b' :: Nat.toDigits 16 c.toNat ++ ['\x7d']
    else [c]

def quotedBy (quote : Char) (cs : List Char) : String :=
  .ofList (quote :: cs.flatMap (escape quote) ++ [quote])

/-- A text between double quotes. -/
def quotedText (s : String) : String := quotedBy '"' s.toList

/-- A character between single quotes. -/
def quotedChar (c : Char) : String := quotedBy '\'' [c]

end SlotGrid.Text
