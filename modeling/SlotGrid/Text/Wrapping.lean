import SlotGrid.Text.Blank

/-! # Wrapping

A text is wrapped between its words only, and greedily: a word goes on the current line if it fits there with
a space before it. A word that is longer than a line is on a line of its own.
-/

namespace SlotGrid.Text

def wordLengths (cs : List Char) : List Nat := (words cs).map List.length

namespace Wrapping

/-- The length of some words on one line, with a space between neighbours. -/
def lineLength : List Nat → Nat
  | [] => 0
  | [w] => w
  | w :: ws => w + 1 + lineLength ws

/-- The length of the longest word. -/
def longest (words : List Nat) : Nat := words.foldl max 0

/-- How many lines follow a line that is filled up to `current`. -/
def linesAfter (limit current : Nat) : List Nat → Nat
  | [] => 0
  | w :: ws =>
    if current + 1 + w ≤ limit then linesAfter limit (current + 1 + w) ws else linesAfter limit w ws + 1

/-- How many lines some words take if a line holds up to `limit` characters. -/
def lines (limit : Nat) : List Nat → Nat
  | [] => 0
  | w :: ws => linesAfter limit w ws + 1

end Wrapping

end SlotGrid.Text
