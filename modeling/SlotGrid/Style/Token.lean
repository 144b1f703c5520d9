import SlotGrid.Decimal.Layout
import SlotGrid.Text.Quoted

/-! # Tokens

A token is a kind together with the text it was read from. Kinds that mean more than their spelling carry
the decoded value; the words of template definitions have kinds of their own.
-/

namespace SlotGrid.Style

/-- The operators between an attribute and its value. -/
inductive Matcher
  | equals
  | includes
  | dash
  | start
  | finish
  | substring
  deriving DecidableEq, Repr

inductive Punctuation
  | plus
  | greater
  | comma
  | tilde
  | asterisk
  | leftBrace
  | rightBrace
  | leftParen
  | rightParen
  | colon
  | semicolon
  | period
  deriving DecidableEq, Repr

/-- The words of template definitions. -/
inductive Keyword
  | auto
  | minContent
  | maxContent
  | minMax
  | fitContent
  | same
  deriving DecidableEq, Repr

inductive TokenKind
  | endOfInput
  | ident (name : String)
  | atKeyword (name : String)
  | string (value : String)
  | hash (name : String)
  | number (value : Float)
  | percentage (value : Float)
  | dimension (value : Float) (unit : String)
  | address (value : String)
  /-- A range of code points, which is not valid when a question mark is no suffix of its first part. -/
  | codeRange (low high : Nat) (valid : Bool)
  | comment
  | function (name : String)
  | space
  | commentOpen
  | commentClose
  | matcher (m : Matcher)
  | punct (p : Punctuation)
  /-- The start `:not(` of a negation. -/
  | negation
  | keyword (k : Keyword)
  /-- Any other single character. -/
  | delim (c : Char)
  deriving DecidableEq, Repr

structure Token where
  kind : TokenKind
  lexeme : List Char
  /-- The number of characters before the token. -/
  position : Nat
  deriving DecidableEq, Repr

namespace TokenKind

/-- The kind of a character that is a token of its own with a name. -/
def ofChar? : Char → Option TokenKind
  | '+' => some (punct .plus)
  | '>' => some (punct .greater)
  | ',' => some (punct .comma)
  | '~' => some (punct .tilde)
  | '*' => some (punct .asterisk)
  | '{' => some (punct .leftBrace)
  | '}' => some (punct .rightBrace)
  | '(' => some (punct .leftParen)
  | ')' => some (punct .rightParen)
  | ':' => some (punct .colon)
  | ';' => some (punct .semicolon)
  | '.' => some (punct .period)
  | '=' => some (matcher .equals)
  | _ => none

/-- The word of template definitions that a name spells, in letters of either case. -/
def keyword? (name : String) : Option Keyword :=
  match name.toLower with
  | "auto" => some .auto
  | "min-content" => some .minContent
  | "max-content" => some .maxContent
  | "minmax" => some .minMax
  | "fit-content" => some .fitContent
  | "same" => some .same
  | _ => none

/-- The tokens that join two compound selectors. -/
def isCombinator : TokenKind → Bool
  | punct .plus | punct .greater | punct .tilde | space => true
  | _ => false

def isMatcher : TokenKind → Bool
  | matcher _ => true
  | _ => false

def label : TokenKind → String
  | endOfInput => "Eof"
  | ident _ => "Ident"
  | atKeyword _ => "AtKeyword"
  | string _ => "String"
  | hash _ => "Hash"
  | number _ => "Number"
  | percentage _ => "Percentage"
  | dimension _ _ => "Dimension"
  | address _ => "Uri"
  | codeRange _ _ _ => "UnicodeRange"
  | comment => "Comment"
  | function _ => "Function"
  | space => "Whitespace"
  | commentOpen => "Cdo"
  | commentClose => "Cdc"
  | matcher .equals => "Equals"
  | matcher .includes => "Includes"
  | matcher .dash => "DashMatch"
  | matcher .start => "PrefixMatch"
  | matcher .finish => "SuffixMatch"
  | matcher .substring => "SubstringMatch"
  | punct .plus => "Plus"
  | punct .greater => "Greater"
  | punct .comma => "Comma"
  | punct .tilde => "Tilde"
  | punct .asterisk => "Asterisk"
  | punct .leftBrace => "LeftBrace"
  | punct .rightBrace => "RightBrace"
  | punct .leftParen => "LeftParen"
  | punct .rightParen => "RightParen"
  | punct .colon => "Colon"
  | punct .semicolon => "Semicolon"
  | punct .period => "Period"
  | negation => "Not"
  | keyword .auto => "Auto"
  | keyword .minContent => "MinContent"
  | keyword .maxContent => "MaxContent"
  | keyword .minMax => "MinMax"
  | keyword .fitContent => "FitContent"
  | keyword .same => "Same"
  | delim _ => "Delim"

/-- What a kind carries, behind its label. -/
def payload : TokenKind → String
  | ident name | atKeyword name | hash name | function name => "(" ++ Text.quotedText name ++ ")"
  | string value | address value => "(" ++ Text.quotedText value ++ ")"
  | number value | percentage value => "(" ++ Decimal.Layout.tagged.double value ++ ")"
  | dimension value unit =>
    " \x7b value: " ++ Decimal.Layout.tagged.double value ++ ", unit: " ++ Text.quotedText unit ++ " \x7d"
  | codeRange low high valid =>
    " \x7b low: " ++ toString low ++ ", high: " ++ toString high ++ ", valid: " ++ toString valid ++ " \x7d"
  | delim c => "(" ++ Text.quotedChar c ++ ")"
  | _ => ""

end TokenKind

namespace Token

/-- The name of an identifier. A word of template definitions is a name too, as it is spelled. -/
def name? (t : Token) : Option String :=
  match t.kind with
  | .ident name => some name
  | .keyword _ => some (.ofList t.lexeme)
  | _ => none

/-- The token as messages show it. -/
def describe (t : Token) : String :=
  match t.kind with
  | .endOfInput => "end of input"
  | kind => kind.label ++ kind.payload ++ " '" ++ .ofList t.lexeme ++ "'"

end Token

end SlotGrid.Style
