import SlotGrid.Style.Piece
import SlotGrid.Style.Probe
import SlotGrid.Style.Token

/-! # Tokens of a text

`scan` reads the token at the front of a text together with its lexeme and what follows it. No character is
lost or read twice: the lexemes of a text, in order, are the text. An address whose parenthesis is not closed
is no token; the characters that were read for it still belong to the stream, and reading goes on after them.
-/

namespace SlotGrid.Style

/-- What was read at the front of a text; it has no kind when it is an address that is not closed. -/
structure Scan where
  kind? : Option TokenKind
  lexeme : List Char
  rest : List Char
  deriving DecidableEq, Repr

/-- The scan divides the text into a lexeme that is not empty and the rest. -/
def Scan.Splits (s : Scan) (cs : List Char) : Prop := s.lexeme ≠ [] ∧ s.lexeme ++ s.rest = cs

/-! ## Quoted texts -/

/-- A value, the characters it was read from, and what follows. -/
structure Reading where
  value : String
  raw : List Char
  rest : List Char
  deriving DecidableEq, Repr

/-- A quoted text after its opening quote. It ends at its quote, or at a character it may not hold. -/
def readQuoted (quote : Char) (cs : List Char) : Reading :=
  let ps := ((quotedReader quote).run cs).1
  match ((quotedReader quote).run cs).2 with
  | c :: rest =>
    if c = quote then ⟨decodedText ps, rawText ps ++ [quote], rest⟩
    else ⟨decodedText ps, rawText ps, c :: rest⟩
  | [] => ⟨decodedText ps, rawText ps, []⟩

theorem readQuoted_raw (quote : Char) (cs : List Char) :
    (readQuoted quote cs).raw ++ (readQuoted quote cs).rest = cs := by
  have h := (quotedReader quote).rawText_run cs
  unfold readQuoted
  split
  · rename_i c rest hr
    rw [hr] at h
    split <;> simp_all
  · rename_i hr
    rw [hr] at h
    exact h

/-! ## Names and addresses -/

def readAddress : List Char → Reading
  | '"' :: cs => { readQuoted '"' cs with raw := '"' :: (readQuoted '"' cs).raw }
  | '\'' :: cs => { readQuoted '\'' cs with raw := '\'' :: (readQuoted '\'' cs).raw }
  | cs => ⟨decodedText (addressReader.run cs).1, rawText (addressReader.run cs).1, (addressReader.run cs).2⟩

theorem readAddress_raw (cs : List Char) : (readAddress cs).raw ++ (readAddress cs).rest = cs := by
  unfold readAddress
  split
  · simp [readQuoted_raw]
  · simp [readQuoted_raw]
  · exact addressReader.rawText_run _

/-- An address after the parenthesis that `opening` ends in. -/
def scanAddress (opening cs : List Char) : Scan :=
  let r := readAddress (cs.dropWhile isSpace)
  let lexeme := opening ++ cs.takeWhile isSpace ++ r.raw ++ r.rest.takeWhile isSpace
  match r.rest.dropWhile isSpace with
  | ')' :: rest => ⟨some (.address r.value), lexeme ++ [')'], rest⟩
  | rest => ⟨none, lexeme, rest⟩

theorem scanAddress_splits {opening : List Char} (cs : List Char) (h : opening ≠ []) :
    (scanAddress opening cs).Splits (opening ++ cs) := by
  have hr := readAddress_raw (cs.dropWhile isSpace)
  have hc := List.takeWhile_append_dropWhile (p := isSpace) (l := cs)
  have hd := List.takeWhile_append_dropWhile (p := isSpace) (l := (readAddress (cs.dropWhile isSpace)).rest)
  unfold scanAddress
  dsimp only
  split
  · rename_i rest hs
    rw [hs] at hd
    refine ⟨by simp, ?_⟩
    simp only [List.append_assoc, List.cons_append, List.nil_append]
    rw [hd, hr, hc]
  · refine ⟨by simp [h], ?_⟩
    simp only [List.append_assoc]
    rw [hd, hr, hc]

/-- A name: a word, or with a parenthesis after it a function or the start of an address. -/
def scanName (cs : List Char) : Scan :=
  let ps := (nameReader.run cs).1
  let name := decodedText ps
  match (nameReader.run cs).2 with
  | '(' :: rest =>
    if name.toLower = "url" then scanAddress (rawText ps ++ ['(']) rest
    else ⟨some (.function name), rawText ps ++ ['('], rest⟩
  | rest => ⟨some ((TokenKind.keyword? name).elim (.ident name) .keyword), rawText ps, rest⟩

theorem startsEscape_iff {cs : List Char} :
    startsEscape ('\\' :: cs) = true ↔ ∃ p rest, escapeAfter cs = some (p, rest) := by
  cases cs with
  | nil => simp [startsEscape, escapeAfter]
  | cons c cs =>
    by_cases h : isLineBreak c = true
    · simp [startsEscape, escapeAfter, h]
    · simp only [startsEscape, escapeAfter, h]
      by_cases hd : (takeUpTo isHexDigit 6 (c :: cs)).isEmpty = true <;> simp [hd]

theorem startsIdent_read {cs : List Char} (h : startsIdent cs = true) :
    ∃ p rest, nameReader.read cs = some (p, rest) := by
  fun_cases startsIdent cs
  · exact ⟨_, _, rfl⟩
  · exact ⟨_, _, rfl⟩
  · exact startsEscape_iff.mp h
  · rename_i c cs hd hb hs
    have : isNameChar c = true := by
      simp only [startsIdent] at h
      simp only [isNameStart, Bool.or_eq_true] at h
      simp only [isNameChar, Bool.or_eq_true, Char.isAlphanum]
      rcases h with ((h | h) | h) | h
      · simp [h]
      · simp [h]
      · exact absurd (by simpa using h) hs
      · simp [h]
    exact ⟨.literal c, cs, by
      show namePiece? (c :: cs) = _
      unfold namePiece?
      split <;> simp_all⟩
  · simp [startsIdent] at h

theorem rawText_run_ne_nil {cs rest : List Char} {p : Piece} (h : nameReader.read cs = some (p, rest)) :
    rawText (nameReader.run cs).1 ≠ [] := by
  rw [PieceReader.run]
  split
  · simp_all
  · rename_i h'
    simp [rawText, (nameReader.read_sound h').1]

theorem scanName_splits {cs : List Char} (h : startsIdent cs = true) : (scanName cs).Splits cs := by
  obtain ⟨p, r, hp⟩ := startsIdent_read h
  have hr := nameReader.rawText_run cs
  have hne := rawText_run_ne_nil hp
  unfold scanName
  dsimp only
  split
  · rename_i rest hs
    rw [hs] at hr
    split
    · have hne : rawText (nameReader.run cs).1 ++ ['('] ≠ [] := by simp
      have := scanAddress_splits rest hne
      rwa [List.append_assoc, List.singleton_append, hr] at this
    · exact ⟨by simp, by simpa using hr⟩
  · exact ⟨hne, hr⟩

/-! ## Numbers and ranges -/

def decimalNumber (ds : List Char) : Nat := ds.foldl (fun n d => 10 * n + (d.toNat - '0'.toNat)) 0

/-- A number as it is written: sign, digits, and digits after the point. -/
structure Numeral where
  sign : List Char
  whole : List Char
  fraction : List Char
  deriving DecidableEq, Repr

namespace Numeral

def raw (n : Numeral) : List Char :=
  n.sign ++ n.whole ++ if n.fraction.isEmpty then [] else '.' :: n.fraction

/-- The double-precision number nearest to the written one. -/
def value (n : Numeral) : Float :=
  let x := Float.ofScientific (decimalNumber (n.whole ++ n.fraction)) true n.fraction.length
  if n.sign = ['-'] then -x else x

def signOf : List Char → List Char
  | '+' :: _ => ['+']
  | '-' :: _ => ['-']
  | _ => []

def fractionOf : List Char → List Char
  | '.' :: cs => cs.takeWhile Char.isDigit
  | _ => []

/-- The number at the front of a text; it has a digit before or after the point. -/
def read? (cs : List Char) : Option Numeral :=
  let unsigned := cs.drop (signOf cs).length
  let whole := unsigned.takeWhile Char.isDigit
  let fraction := fractionOf (unsigned.dropWhile Char.isDigit)
  if whole.isEmpty && fraction.isEmpty then none else some ⟨signOf cs, whole, fraction⟩

theorem signOf_prefix (cs : List Char) : signOf cs <+: cs := by
  fun_cases signOf cs <;> simp

theorem fractionOf_prefix (cs : List Char) :
    (if (fractionOf cs).isEmpty then [] else '.' :: fractionOf cs) <+: cs := by
  fun_cases fractionOf cs
  · split
    · exact List.nil_prefix
    · exact (List.prefix_cons_inj _).mpr (List.takeWhile_prefix _)
  · simp

theorem read?_raw {cs : List Char} {n : Numeral} (h : read? cs = some n) :
    n.raw ≠ [] ∧ n.raw <+: cs := by
  simp only [read?] at h
  split at h
  · simp at h
  · rename_i hne
    obtain rfl := Option.some.inj h
    constructor
    · intro he
      obtain ⟨hs, hf⟩ := List.append_eq_nil_iff.mp he
      have hw := (List.append_eq_nil_iff.mp hs).2
      dsimp only at hw hf hne
      split at hf
      · rename_i hf'
        rw [hw, hf'] at hne
        exact hne rfl
      · cases hf
    · obtain ⟨u, hu⟩ := signOf_prefix cs
      have hd : cs.drop (signOf cs).length = u := by
        have h := congrArg (List.drop (signOf cs).length) hu
        rwa [List.drop_left, eq_comm] at h
      have hu' : signOf cs ++ (u.takeWhile Char.isDigit ++ u.dropWhile Char.isDigit) = cs := by
        rw [List.takeWhile_append_dropWhile, hu]
      have hf := fractionOf_prefix (u.dropWhile Char.isDigit)
      simp only [raw, hd]
      refine List.IsPrefix.trans ?_ ⟨[], (List.append_nil _).trans hu'⟩
      rw [List.append_assoc, List.prefix_append_right_inj, List.prefix_append_right_inj]
      exact hf

end Numeral

/-- A number, a percentage, or a dimension with the unit that follows. -/
def scanNumber (n : Numeral) (cs : List Char) : Scan :=
  let rest := cs.drop n.raw.length
  if startsIdent rest then
    let ps := (nameReader.run rest).1
    ⟨some (.dimension n.value (decodedText ps)), n.raw ++ rawText ps, (nameReader.run rest).2⟩
  else
    match rest with
    | '%' :: rest => ⟨some (.percentage n.value), n.raw ++ ['%'], rest⟩
    | rest => ⟨some (.number n.value), n.raw, rest⟩

theorem scanNumber_splits {cs : List Char} {n : Numeral} (h : Numeral.read? cs = some n) :
    (scanNumber n cs).Splits cs := by
  obtain ⟨hne, u, rfl⟩ := Numeral.read?_raw h
  unfold scanNumber
  simp only [List.drop_left]
  split
  · exact ⟨by simp [hne], by simp [List.append_assoc, nameReader.rawText_run]⟩
  · split
    · exact ⟨by simp, by simp⟩
    · exact ⟨hne, rfl⟩

def isRangeDigit (c : Char) : Bool := isHexDigit c || c == '?'

/-- The digits after the dash of a range. -/
def rangeEnd : List Char → List Char
  | '-' :: cs => takeUpTo isHexDigit 6 cs
  | _ => []

theorem rangeEnd_append_drop {cs : List Char} (h : ¬(rangeEnd cs).isEmpty = true) :
    '-' :: rangeEnd cs ++ cs.drop ((rangeEnd cs).length + 1) = cs := by
  unfold rangeEnd at h ⊢
  split at h
  · simp [takeUpTo_append_drop]
  · simp at h

/-- A range of code points after `u+`. Question marks stand for every digit. -/
def scanRange (opening cs : List Char) : Scan :=
  let first := takeUpTo isRangeDigit 6 cs
  let low := hexNumber (first.map fun c => if c = '?' then '0' else c)
  let high := hexNumber (first.map fun c => if c = '?' then 'f' else c)
  let marked := first.dropWhile (· != '?')
  let rest := cs.drop first.length
  let second := rangeEnd rest
  if second.isEmpty then
    ⟨some (.codeRange low high (marked.all (· == '?'))), opening ++ first, rest⟩
  else
    ⟨some (.codeRange low (hexNumber second) marked.isEmpty), opening ++ first ++ '-' :: second,
      rest.drop (second.length + 1)⟩

theorem scanRange_splits {opening : List Char} (cs : List Char) (h : opening ≠ []) :
    (scanRange opening cs).Splits (opening ++ cs) := by
  have hf := takeUpTo_append_drop isRangeDigit 6 cs
  unfold scanRange
  dsimp only
  split
  · exact ⟨by simp [h], by rw [List.append_assoc, hf]⟩
  · rename_i hs
    have hl := rangeEnd_append_drop hs
    refine ⟨by simp, ?_⟩
    rw [List.append_assoc, List.append_assoc, hl, hf]

/-! ## Forms of tokens -/

/-- A kind of tokens: the classes of the characters that it opens with, and what becomes of them and of the
text after them. Nothing becomes of them if what follows does not make a token. -/
structure Form where
  opening : List (Char → Bool)
  finish? : List Char → List Char → Option Scan
  finish?_splits : ∀ {taken cs : List Char} {s : Scan}, taken.length = opening.length →
    finish? taken cs = some s → s.Splits (taken ++ cs)

/-- How an attempt to read a token ends: with the token, or where it began, since all characters that were read
for it have been given back. -/
inductive Attempt
  | found (s : Scan)
  | givenBack (p : Probe)
  deriving DecidableEq, Repr

namespace Form

/-- Tries to read a token of a form. There is no result if more is given back than has been read. -/
def attempt? (f : Form) (p : Probe) : Option Attempt :=
  let (n, q) := p.follow f.opening
  match if n = f.opening.length then f.finish? q.taken.reverse q.rest else none with
  | some s => some (.found s)
  | none => (q.giveBack? n).map .givenBack

/-- Tries one form after another. -/
def attemptAll? : List Form → Probe → Option Attempt
  | [], p => some (.givenBack p)
  | f :: fs, p =>
    match f.attempt? p with
    | some (.found s) => some (.found s)
    | some (.givenBack q) => attemptAll? fs q
    | none => none

theorem attempt?_start (f : Form) (cs : List Char) :
    f.attempt? (.start cs) = some (.givenBack (.start cs)) ∨
      ∃ s, f.attempt? (.start cs) = some (.found s) ∧ s.Splits cs := by
  have hback := Probe.giveBack?_follow f.opening (.start cs)
  have htext := Probe.text_follow f.opening (.start cs)
  have hlength := Probe.length_follow f.opening (.start cs)
  unfold attempt?
  generalize Probe.follow f.opening (.start cs) = nq at hback htext hlength
  obtain ⟨n, q⟩ := nq
  dsimp only at hback htext hlength ⊢
  split
  · rename_i s hs
    obtain ⟨hn, hs⟩ := Option.ite_none_right_eq_some.mp hs
    refine .inr ⟨s, rfl, ?_⟩
    have hlen : q.taken.reverse.length = f.opening.length := by
      rw [List.length_reverse, hlength, ← hn]
      exact Nat.zero_add n
    have hsplits := f.finish?_splits hlen hs
    rwa [show q.taken.reverse ++ q.rest = cs from htext] at hsplits
  · rw [hback]
    exact .inl rfl

/-- Attempts never give back more than they have read: they find a token or end where they began. -/
theorem attemptAll?_start (fs : List Form) (cs : List Char) :
    attemptAll? fs (.start cs) = some (.givenBack (.start cs)) ∨
      ∃ s, attemptAll? fs (.start cs) = some (.found s) ∧ s.Splits cs := by
  induction fs with
  | nil => exact .inl rfl
  | cons f fs ih =>
    unfold attemptAll?
    rcases f.attempt?_start cs with h | ⟨s, h, hs⟩
    · rw [h]
      exact ih
    · rw [h]
      exact .inr ⟨s, rfl, hs⟩

/-! ### Words and numbers -/

/-- A range of code points. -/
def range : Form where
  opening := [fun c => c == 'u' || c == 'U', (· == '+')]
  finish? taken cs := if cs.head?.any isRangeDigit then some (scanRange taken cs) else none
  finish?_splits {taken cs s} hl h := by
    obtain rfl := Option.some.inj (Option.ite_none_right_eq_some.mp h).2
    exact scanRange_splits cs (List.ne_nil_of_length_pos (by rw [hl]; exact Nat.succ_pos 1))

/-- A word, a function or an address. -/
def name : Form where
  opening := []
  finish? _ cs := if startsIdent cs then some (scanName cs) else none
  finish?_splits {taken cs s} hl h := by
    obtain ⟨hs, h⟩ := Option.ite_none_right_eq_some.mp h
    obtain rfl := Option.some.inj h
    rw [List.eq_nil_of_length_eq_zero hl]
    exact scanName_splits hs

/-- A mark with a name after it. -/
def marked (mark : Char) (starts : List Char → Bool) (kind : String → TokenKind) : Form where
  opening := [(· == mark)]
  finish? taken cs :=
    let ps := (nameReader.run cs).1
    if starts cs then some ⟨some (kind (decodedText ps)), taken ++ rawText ps, (nameReader.run cs).2⟩ else none
  finish?_splits {taken cs s} hl h := by
    obtain rfl := Option.some.inj (Option.ite_none_right_eq_some.mp h).2
    have hne : taken ≠ [] := List.ne_nil_of_length_pos (by rw [hl]; exact Nat.succ_pos 0)
    exact ⟨by simp [hne], by simp [nameReader.rawText_run]⟩

/-- A number, a percentage or a dimension. -/
def number : Form where
  opening := []
  finish? _ cs := (Numeral.read? cs).map (scanNumber · cs)
  finish?_splits {taken cs s} hl h := by
    obtain ⟨n, hn, rfl⟩ := Option.map_eq_some_iff.mp h
    rw [List.eq_nil_of_length_eq_zero hl]
    exact scanNumber_splits hn

/-- A quoted text. -/
def quoted (quote : Char) : Form where
  opening := [(· == quote)]
  finish? taken cs :=
    let r := readQuoted quote cs
    some ⟨some (.string r.value), taken ++ r.raw, r.rest⟩
  finish?_splits {taken cs s} hl h := by
    obtain rfl := Option.some.inj h
    have hne : taken ≠ [] := List.ne_nil_of_length_pos (by rw [hl]; exact Nat.succ_pos 0)
    exact ⟨by simp [hne], by simp [readQuoted_raw]⟩

/-- Spaces, as many as there are. -/
def spaces : Form where
  opening := [isSpace]
  finish? taken cs := some ⟨some .space, taken ++ cs.takeWhile isSpace, cs.dropWhile isSpace⟩
  finish?_splits {taken cs s} hl h := by
    obtain rfl := Option.some.inj h
    have hne : taken ≠ [] := List.ne_nil_of_length_pos (by rw [hl]; exact Nat.succ_pos 0)
    exact ⟨by simp [hne], by simp⟩

/-! ### Symbols -/

/-- The length of a comment after its opening, up to its end or to the end of the text. -/
def commentLength : List Char → Nat
  | '*' :: '/' :: _ => 2
  | _ :: cs => commentLength cs + 1
  | [] => 0

def comment : Form where
  opening := [(· == '/'), (· == '*')]
  finish? taken cs :=
    some ⟨some .comment, taken ++ cs.take (commentLength cs), cs.drop (commentLength cs)⟩
  finish?_splits {taken cs s} hl h := by
    obtain rfl := Option.some.inj h
    have hne : taken ≠ [] := List.ne_nil_of_length_pos (by rw [hl]; exact Nat.succ_pos 1)
    exact ⟨by simp [hne], by simp⟩

/-- A symbol of certain characters. -/
def symbol (first : Char → Bool) (more : List (Char → Bool)) (kind : TokenKind) : Form where
  opening := first :: more
  finish? taken cs := some ⟨some kind, taken, cs⟩
  finish?_splits {taken cs s} hl h := by
    obtain rfl := Option.some.inj h
    exact ⟨List.ne_nil_of_length_pos (by rw [hl]; exact Nat.succ_pos more.length), rfl⟩

/-- An operator that ends in an equals sign. -/
def matcher (mark : Char) (m : Matcher) : Form := symbol (· == mark) [(· == '=')] (.matcher m)

/-- The forms of tokens in the order in which they are tried. -/
def all : List Form :=
  [range, name, marked '@' startsIdent .atKeyword, number, marked '#' (fun cs => (namePiece? cs).isSome) .hash,
    quoted '"', quoted '\'', spaces, comment,
    symbol (· == '<') [(· == '!'), (· == '-'), (· == '-')] .commentOpen,
    symbol (· == '-') [(· == '-'), (· == '>')] .commentClose,
    matcher '~' .includes, matcher '|' .dash, matcher '^' .start, matcher '$' .finish, matcher '*' .substring,
    symbol (· == ':') [(·.toLower == 'n'), (·.toLower == 'o'), (·.toLower == 't'), (· == '(')] .negation]

end Form

/-! ## The token at the front -/

/-- A character that is a token by itself. -/
def scanSingle : Probe → Scan
  | ⟨taken, c :: cs⟩ => ⟨some ((TokenKind.ofChar? c).getD (.delim c)), (c :: taken).reverse, cs⟩
  | ⟨taken, []⟩ => ⟨none, taken.reverse, []⟩

/-- The token at the front of the text `c :: cs`, if no attempt gives back more than it has read. -/
def scan? (c : Char) (cs : List Char) : Option Scan :=
  (Form.attemptAll? Form.all (.start (c :: cs))).map fun
    | .found s => s
    | .givenBack p => scanSingle p

theorem exists_scan? (c : Char) (cs : List Char) : ∃ s, scan? c cs = some s ∧ s.Splits (c :: cs) := by
  unfold scan?
  rcases Form.attemptAll?_start Form.all (c :: cs) with h | ⟨s, h, hs⟩
  · rw [h]
    exact ⟨_, rfl, List.cons_ne_nil c [], rfl⟩
  · rw [h]
    exact ⟨s, rfl, hs⟩

theorem isSome_scan? (c : Char) (cs : List Char) : (scan? c cs).isSome :=
  Option.isSome_iff_exists.mpr ((exists_scan? c cs).imp fun _ h => h.1)

/-- The token at the front of the text `c :: cs`. -/
def scan (c : Char) (cs : List Char) : Scan := (scan? c cs).get (isSome_scan? c cs)

theorem scan_splits (c : Char) (cs : List Char) : (scan c cs).Splits (c :: cs) := by
  obtain ⟨s, h, hs⟩ := exists_scan? c cs
  unfold scan
  simpa only [h, Option.get_some] using hs

/-! ## Streams -/

/-- An element of the token stream of a text: a token, or an address that is not closed. -/
inductive Item
  | token (t : Token)
  | openAddress (lexeme : List Char) (position : Nat)
  deriving DecidableEq, Repr

namespace Item

def lexeme : Item → List Char
  | token t => t.lexeme
  | openAddress cs _ => cs

def position : Item → Nat
  | token t => t.position
  | openAddress _ n => n

def ofScan (position : Nat) (s : Scan) : Item :=
  match s.kind? with
  | some kind => token ⟨kind, s.lexeme, position⟩
  | none => openAddress s.lexeme position

@[simp] theorem lexeme_ofScan (n : Nat) (s : Scan) : (ofScan n s).lexeme = s.lexeme := by
  unfold ofScan; split <;> rfl

@[simp] theorem position_ofScan (n : Nat) (s : Scan) : (ofScan n s).position = n := by
  unfold ofScan; split <;> rfl

end Item

/-- The part of a text that is still to be read, and how many characters were read before it. -/
structure Cursor where
  position : Nat
  rest : List Char
  deriving DecidableEq, Repr

namespace Cursor

def start (text : String) : Cursor := ⟨0, text.toList⟩

/-- The next item, and the cursor after it; none at the end of the text. -/
def next? (c : Cursor) : Option (Item × Cursor) :=
  match c.rest with
  | [] => none
  | x :: xs =>
    let s := scan x xs
    some (.ofScan c.position s, ⟨c.position + s.lexeme.length, s.rest⟩)

theorem next?_splits {c d : Cursor} {i : Item} (h : c.next? = some (i, d)) :
    i.lexeme ≠ [] ∧ i.lexeme ++ d.rest = c.rest ∧ i.position = c.position ∧
      d.position = c.position + i.lexeme.length := by
  unfold next? at h
  split at h
  · simp at h
  · rename_i x xs hc
    simp only [Option.some.injEq, Prod.mk.injEq] at h
    obtain ⟨rfl, rfl⟩ := h
    simpa [hc, Scan.Splits] using scan_splits x xs

theorem length_lt_of_next? {c d : Cursor} {i : Item} (h : c.next? = some (i, d)) :
    d.rest.length < c.rest.length := by
  obtain ⟨hne, hs, -⟩ := next?_splits h
  have := List.length_pos_iff.mpr hne
  have := congrArg List.length hs
  simp only [List.length_append] at this
  omega

/-- All items from the cursor on. -/
def items (c : Cursor) : List Item :=
  match _h : c.next? with
  | none => []
  | some (i, d) => i :: items d
termination_by c.rest.length
decreasing_by exact length_lt_of_next? ‹_›

theorem items_nil (n : Nat) : items ⟨n, []⟩ = [] := by
  rw [items]
  split
  · rfl
  · rename_i h
    cases h

theorem items_cons (n : Nat) (c : Char) (cs : List Char) :
    items ⟨n, c :: cs⟩ =
      .ofScan n (scan c cs) :: items ⟨n + (scan c cs).lexeme.length, (scan c cs).rest⟩ := by
  rw [items]
  split
  · rename_i h
    cases h
  · rename_i h
    cases h
    rfl

theorem flatMap_lexeme_items (c : Cursor) : c.items.flatMap Item.lexeme = c.rest := by
  fun_induction items c with
  | case1 c h =>
    unfold next? at h
    split at h <;> simp_all
  | case2 c i d h ih => simpa [ih] using (next?_splits h).2.1

end Cursor

/-- An error in the characters of a text. -/
inductive LexicalError
  | openAddress (position : Nat)
  deriving DecidableEq, Repr

def LexicalError.message : LexicalError → String
  | openAddress n => "missing closing parenthesis in url token starting at " ++ toString n

/-- The tokens of a text, if all of it can be read. -/
def tokens? (text : String) : Except LexicalError (List Token) :=
  (Cursor.start text).items.mapM fun
    | .token t => .ok t
    | .openAddress _ n => .error (.openAddress n)

end SlotGrid.Style
