import SlotGrid.Style.Lexer
import SlotGrid.Style.Sheet
import SlotGrid.Template.Scan

/-! # Reading token streams

A reader looks at the first item of the stream, and can move on to the next one. Moving on to an address
that is not closed is an error, which is reported once: from then on the item counts as a space. When a
reader fails, everything that was read and registered before stays as it is.
-/

namespace SlotGrid.Style

inductive SyntaxError
  | unexpected (expected : String) (found : Token)
  | unexpectedEnd (expected : String)
  | lexical (e : LexicalError)
  | template (e : TemplateError)
  deriving DecidableEq, Repr

def SyntaxError.message : SyntaxError → String
  | unexpected expected found =>
    "unexpected token at position " ++ toString found.position ++ ": expected " ++ expected ++ ", got " ++
      found.describe
  | unexpectedEnd expected => "unexpected end of input: expected " ++ expected
  | lexical e => e.message
  | template e => e.message

namespace Item

def isComment : Item → Bool
  | token t => t.kind = .comment
  | openAddress _ _ => false

def kind : Item → TokenKind
  | token t => t.kind
  | openAddress _ _ => .space

def name? : Item → Option String
  | token t => t.name?
  | openAddress _ _ => none

/-- What the item adds to the text of a value. -/
def valueText (i : Item) : List Char := if i.kind = .space then [' '] else i.lexeme

end Item

/-- The items still to be read; the first is the current one. -/
abbrev Stream := List Item

namespace Stream

/-- The items of a text without its comments, after a blank that stands for the start of the text. -/
def ofText (text : String) : Stream :=
  .token ⟨.space, [], 0⟩ :: (Cursor.start text).items.filter (!·.isComment)

def kind : Stream → TokenKind
  | [] => .endOfInput
  | i :: _ => i.kind

end Stream

/-- The kinds that end a declaration. -/
def TokenKind.endsDeclaration : TokenKind → Bool
  | punct .semicolon | punct .rightBrace | endOfInput => true
  | _ => false

/-- The sheet under construction and the rule being read. -/
structure Progress where
  stream : Stream
  /-- The selector of the rule, as far as it has been read. -/
  selector : String
  /-- The number of braces of the rule that are open. -/
  depth : Nat
  declarations : Block
  sheet : Sheet
  /-- The templates that were registered. -/
  templates : List Template
  positions : List Position
  deriving DecidableEq, Repr

/-- A step over the stream. -/
abbrev Reader := EStateM SyntaxError Progress

namespace Reader

variable {α : Type}

def kind : Reader TokenKind := return (← get).stream.kind

/-- Moves on to the next item. -/
def advance : Reader Unit := do
  let rest := (← get).stream.tail
  modify ({ · with stream := rest })
  match rest with
  | .openAddress _ n :: _ => throw (.lexical (.openAddress n))
  | _ => return ()

/-- Adds to the text of the selector. -/
def write (text : String) : Reader Unit := modify fun p => { p with selector := p.selector ++ text }

def writeChars (cs : List Char) : Reader Unit := write (.ofList cs)

/-- Fails because the current item is not what was expected. -/
def unexpected (expected : String) : Reader α := do
  match (← get).stream with
  | .token t :: _ => throw (.unexpected expected t)
  | .openAddress cs n :: _ => throw (.unexpected expected ⟨.space, cs, n⟩)
  | [] => throw (.unexpectedEnd expected)

def expect (kind : TokenKind) (expected : String) : Reader Unit := do
  if (← Reader.kind) = kind then advance else unexpected expected

/-- The name of the current item, if it has one. -/
def name? : Reader (Option String) := return (← get).stream.head?.bind Item.name?

def expectName (expected : String) : Reader String := do
  match ← name? with
  | some name => advance; return name
  | none => unexpected expected

def lexeme : Reader (List Char) := return (← get).stream.head?.elim [] Item.lexeme

/-- Collects the results of a reader until it has none. -/
def collect (r : Reader (Option α)) : Reader (List α) := fun p =>
  match r p with
  | .error e q => .error e q
  | .ok none q => .ok [] q
  | .ok (some a) q =>
    if q.stream.length < p.stream.length then
      match collect r q with
      | .error e q => .error e q
      | .ok as q => .ok (a :: as) q
    else .ok [a] q
termination_by p => p.stream.length

/-- Repeats a reader until it answers `false`. -/
def loop (r : Reader Bool) : Reader Unit :=
  discard <| collect (return if ← r then some () else none)

/-- Skips spaces, and tells whether there were any. -/
def skipSpace : Reader Bool := do
  let skipped ← collect do
    if (← kind) = .space then advance; return some () else return none
  return !skipped.isEmpty

end Reader

end SlotGrid.Style
